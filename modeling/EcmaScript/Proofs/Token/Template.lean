import EcmaScript.Proofs.Token.Chunk

/-! The shape of templates. Between the chunks of a template there is one substitution each, in whose tokens
the braces match. It ends with the first closing brace that matches none of them. -/
namespace EcmaScript
open EcmaScript.Text

/-- Tokens in which every brace has its counterpart. -/
inductive Balanced : List Lexeme → Prop
  | nil : Balanced []
  | other {l : Lexeme} {ls : List Lexeme} (hopen : l.token ≠ .punctuator .lBrace)
    (hclose : l.token ≠ .punctuator .rBrace) (h : Balanced ls) : Balanced (l :: ls)
  | braces {l l' : Lexeme} {inner ls : List Lexeme} (hopen : l.token = .punctuator .lBrace)
    (hinner : Balanced inner) (hclose : l'.token = .punctuator .rBrace) (h : Balanced ls) :
    Balanced (l :: (inner ++ l' :: ls))

/-- Tokens that close the braces that are open, `depth` of them at first, and no others. -/
inductive ClosesBraces : (depth : Nat) → List Lexeme → Prop
  | nil : ClosesBraces 0 []
  | other {depth : Nat} {l : Lexeme} {ls : List Lexeme} (hopen : l.token ≠ .punctuator .lBrace)
    (hclose : l.token ≠ .punctuator .rBrace) (h : ClosesBraces depth ls) : ClosesBraces depth (l :: ls)
  | opening {depth : Nat} {l : Lexeme} {ls : List Lexeme} (hopen : l.token = .punctuator .lBrace)
    (h : ClosesBraces (depth + 1) ls) : ClosesBraces depth (l :: ls)
  | closing {depth : Nat} {l : Lexeme} {ls : List Lexeme} (hclose : l.token = .punctuator .rBrace)
    (h : ClosesBraces depth ls) : ClosesBraces (depth + 1) (l :: ls)

/-- Tokens with the braces that close those which are open at first, and nothing but pairs between them. -/
inductive Segments : (depth : Nat) → List Lexeme → Prop
  | last {ls : List Lexeme} (h : Balanced ls) : Segments 0 ls
  | closing {depth : Nat} {l : Lexeme} {inner ls : List Lexeme} (hinner : Balanced inner)
    (hclose : l.token = .punctuator .rBrace) (h : Segments depth ls) : Segments (depth + 1) (inner ++ l :: ls)

/-- A token is among others or, at any depth, in a substitution of one of them. -/
inductive Lexeme.Occurs (l : Lexeme) : List Lexeme → Prop
  | top {ls : List Lexeme} (h : l ∈ ls) : l.Occurs ls
  | inside {outer : Lexeme} {inner ls : List Lexeme} (houter : outer ∈ ls)
    (hinner : inner ∈ outer.token.substitutions) (h : l.Occurs inner) : l.Occurs ls

/-- One step inside a chunk of a template, from one place to another, and what it adds to the raw text. -/
inductive ChunkStep (cs : List Char) (i : Nat) : List Char → Nat → Prop
  | plain {c : Char} (hc : (cs.drop i).head? = some c) (hmark : endsChunk (cs.drop i) = false)
    (hback : c ≠ '\\') (hreturn : c ≠ '\r') : ChunkStep cs i [c] (i + 1)
  | returnFeed (h : ['\r', '\n'] <+: cs.drop i) : ChunkStep cs i ['\n'] (i + 2)
  | return (hc : (cs.drop i).head? = some '\r') (hfeed : (cs.drop (i + 1)).head? ≠ some '\n') :
    ChunkStep cs i ['\n'] (i + 1)
  /-- An escape goes as far as its reader does, whether it is well formed or not. -/
  | escape {k : Nat} (hc : (cs.drop i).head? = some '\\') (hik : i < k) (hk : k ≤ cs.length)
    (hstop : ((Scan.escape (Cursor.after cs i).here).run (.after cs (i + 1))).2 = .after cs k) :
    ChunkStep cs i (cs.extract i k) k

/-- The rest of a template between two places, by the raw texts of its chunks and the tokens of its
substitutions. A substitution goes up to the first closing brace that matches none of its tokens. -/
inductive TemplateRest (cs : List Char) : Nat → List (List Char) → List (List Lexeme) → Nat → Prop
  | close {i : Nat} (hmark : ['`'] <+: cs.drop i) : TemplateRest cs i [[]] [] (i + 1)
  | substitution {i last stop j : Nat} {raws : List (List Char)} {inner : List Lexeme}
    {substitutions : List (List Lexeme)} (hopen : ['$', '{'] <+: cs.drop i)
    (hinner : Tiles cs (i + 2) inner last) (hbalanced : Balanced inner) (hgap : Gap cs last stop)
    (hclose : ['}'] <+: cs.drop stop) (hrest : TemplateRest cs (stop + 1) raws substitutions j) :
    TemplateRest cs i ([] :: raws) (inner :: substitutions) j
  | step {i k j : Nat} {text raw : List Char} {raws : List (List Char)} {substitutions : List (List Lexeme)}
    (hstep : ChunkStep cs i text k) (hrest : TemplateRest cs k (raw :: raws) substitutions j) :
    TemplateRest cs i ((text ++ raw) :: raws) substitutions j

def Lexeme.Shaped (cs : List Char) (l : Lexeme) : Prop :=
  ∀ chunks substitutions, l.token = .template chunks substitutions → ∃ i j raws,
    l.span = spanBetween cs i j ∧ ['`'] <+: cs.drop i ∧
      chunks.map TemplateChunk.raw = raws.map String.ofList ∧ TemplateRest cs (i + 1) raws substitutions j

def AllShaped (cs : List Char) (ls : List Lexeme) : Prop := ∀ l : Lexeme, l.Occurs ls → l.Shaped cs

/-! Braces that match. -/
section Braces
variable {l : Lexeme} {ls inner rest before : List Lexeme} {depth : Nat}

theorem closesBraces_other (hopen : l.token ≠ .punctuator .lBrace) (hclose : l.token ≠ .punctuator .rBrace) :
    ClosesBraces depth (l :: ls) ↔ ClosesBraces depth ls := by
  refine ⟨fun h => ?_, .other hopen hclose⟩
  cases h with
  | other _ _ h => exact h
  | opening h => exact absurd h hopen
  | closing h => exact absurd h hclose

theorem closesBraces_opening (hopen : l.token = .punctuator .lBrace) :
    ClosesBraces depth (l :: ls) ↔ ClosesBraces (depth + 1) ls := by
  refine ⟨fun h => ?_, .opening hopen⟩
  cases h with
  | other h => exact absurd hopen h
  | opening _ h => exact h
  | closing h => simp [hopen] at h

theorem closesBraces_closing (hclose : l.token = .punctuator .rBrace) :
    ClosesBraces depth (l :: ls) ↔ 0 < depth ∧ ClosesBraces (depth - 1) ls := by
  constructor
  · intro h
    cases h with
    | other _ h => exact absurd hclose h
    | opening h => simp [hclose] at h
    | closing _ h => exact ⟨Nat.succ_pos _, h⟩
  · rintro ⟨hpos, h⟩
    obtain ⟨depth, rfl⟩ := Nat.exists_eq_add_one.mpr hpos
    exact .closing hclose h

theorem Balanced.append (h : Balanced ls) (hrest : Balanced rest) : Balanced (ls ++ rest) := by
  induction h with
  | nil => exact hrest
  | other hopen hclose _ ih => exact .other hopen hclose ih
  | braces hopen hinner hclose _ _ ih =>
    rw [List.cons_append, List.append_assoc, List.cons_append]
    exact .braces hopen hinner hclose ih

theorem Segments.append_left (h : Segments depth rest) (hbefore : Balanced before) :
    Segments depth (before ++ rest) := by
  cases h with
  | last h => exact .last (hbefore.append h)
  | closing hinner hclose h =>
    rw [← List.append_assoc]
    exact .closing (hbefore.append hinner) hclose h

theorem ClosesBraces.segments (h : ClosesBraces depth ls) : Segments depth ls := by
  induction h with
  | nil => exact .last .nil
  | other hopen hclose _ ih => exact ih.append_left (.other hopen hclose .nil)
  | @opening depth l ls hopen _ ih =>
    -- The brace matches the first of those that are closed in the rest.
    cases ih with
    | closing hinner hclose h =>
      have hpair := h.append_left (.braces hopen hinner hclose .nil)
      simpa using hpair
  | closing hclose _ ih => exact .closing .nil hclose ih

theorem Balanced.closesBraces_append (h : Balanced before) :
    ClosesBraces depth (before ++ rest) ↔ ClosesBraces depth rest := by
  induction h generalizing depth rest with
  | nil => rfl
  | other hopen hclose _ ih => rw [List.cons_append, closesBraces_other hopen hclose, ih]
  | braces hopen _ hclose _ ih ih' =>
    rw [List.cons_append, closesBraces_opening hopen, List.append_assoc, ih, List.cons_append,
      closesBraces_closing hclose, Nat.add_sub_cancel, ih', and_iff_right (Nat.succ_pos _)]

theorem balanced_iff : Balanced ls ↔ ClosesBraces 0 ls := by
  constructor
  · intro h
    have happend : ClosesBraces 0 (ls ++ []) ↔ ClosesBraces 0 [] := h.closesBraces_append
    rw [List.append_nil] at happend
    exact happend.mpr .nil
  · intro h
    obtain ⟨hls⟩ := h.segments
    exact hls

theorem Balanced.not_closing (h : Balanced (before ++ l :: rest)) (hclose : l.token = .punctuator .rBrace) :
    ¬ Balanced before := by
  intro hbefore
  have hrest := hbefore.closesBraces_append.mp (balanced_iff.mp h)
  exact Nat.lt_irrefl 0 ((closesBraces_closing hclose).mp hrest).1

end Braces

namespace TemplateRest
variable {cs : List Char} {i j : Nat} {raws : List (List Char)} {substitutions : List (List Lexeme)}

theorem length_eq (h : TemplateRest cs i raws substitutions j) : raws.length = substitutions.length + 1 := by
  induction h with
  | close => rfl
  | substitution _ _ _ _ _ _ ih => rw [List.length_cons, List.length_cons, ih]
  | step _ _ ih => exact ih

theorem balanced (h : TemplateRest cs i raws substitutions j) : ∀ inner ∈ substitutions, Balanced inner := by
  induction h with
  | close => exact nofun
  | substitution _ _ hbalanced _ _ _ ih => exact List.forall_mem_cons.mpr ⟨hbalanced, ih⟩
  | step _ _ ih => exact ih

end TemplateRest

namespace Lexeme
variable {cs : List Char} {l x : Lexeme} {ls : List Lexeme}

theorem occurs_cons (h : l.Occurs (x :: ls)) :
    l = x ∨ (∃ inner ∈ x.token.substitutions, l.Occurs inner) ∨ l.Occurs ls := by
  cases h with
  | top h => exact (List.mem_cons.mp h).imp_right fun h => .inr (.top h)
  | inside houter hinner h =>
    obtain rfl | houter := List.mem_cons.mp houter
    · exact .inr (.inl ⟨_, hinner, h⟩)
    · exact .inr (.inr (.inside houter hinner h))

theorem not_occurs_nil : ¬ l.Occurs [] := by
  rintro (⟨⟨⟩⟩ | ⟨⟨⟩⟩)

end Lexeme

namespace Scan
variable {cs : List Char} {i j : Nat}

theorem after_inj (hi : i ≤ cs.length) (hj : j ≤ cs.length) (h : Cursor.after cs i = .after cs j) : i = j := by
  have hlength := congrArg (fun c => c.rest.length) h
  simp only [Cursor.rest_after, List.length_drop] at hlength
  omega

theorem Reads.and {α : Type} {x : Scan α} {P Q : α → Nat → Prop} (hP : Reads cs i x P) (hQ : Reads cs i x Q) :
    Reads cs i x fun a j => P a j ∧ Q a j := by
  intro hi
  obtain ⟨j, hij, hj, hstop, hresult⟩ := hP hi
  obtain ⟨j', -, hj', hstop', hresult'⟩ := hQ hi
  obtain rfl := after_inj hj hj' (hstop.symm.trans hstop')
  exact ⟨j, hij, hj, hstop, fun a ha => ⟨hresult a ha, hresult' a ha⟩⟩

theorem head_of_longest? {text : List Char} {n : Nat} (h : Punctuator.longest? text = some (.rBrace, n)) :
    text.head? = some '}' := by
  unfold Punctuator.longest? at h
  grind

theorem punctuator_reads {c : Char} (hc : (cs.drop i).head? = some c) :
    Reads cs i punctuator fun p _ => p = .rBrace → c = '}' := by
  refine Reads.get_bind ?_
  split
  · next p n hlongest =>
    refine (skip_reads n).bind fun _ _ _ _ => .pure fun _ hp => ?_
    rw [Cursor.rest_after, hp] at hlongest
    exact Option.some.inj (hc.symm.trans (head_of_longest? hlongest))
  · exact Reads.here_bind .fail

theorem chunkEscape_reads (chunk : Chunk) (hc : (cs.drop i).head? = some '\\') :
    Reads cs i (chunkEscape chunk) fun chunk' j => ChunkStep cs i (cs.extract i j) j ∧
      chunk'.raw = chunk.raw ++ String.ofList (cs.extract i j) := by
  intro hi
  obtain ⟨j, hij, hj, hstop, hlt⟩ := chunkEscape_consumes chunk hc hi
  refine ⟨j, hij, hj, hstop, fun chunk' hrun => ?_⟩
  have hpast : i < j := hlt chunk' hrun
  have hread := chunkEscape_eq chunk (.after cs i)
  dsimp only at hread
  rw [hread] at hstop hrun
  rw [← Cursor.after_add] at hstop hrun
  obtain rfl := Except.ok.inj hrun
  refine ⟨.escape hc hpast hj hstop, ?_⟩
  have hlength : (cs.drop i).length - (cs.drop j).length = j - i := by
    rw [List.length_drop, List.length_drop]
    omega
  rw [hstop, Cursor.rest_after, Cursor.rest_after, hlength]

/-- What was read of a list of tokens: its templates are in shape and, in a substitution, it closes the braces
that are open. -/
def Gathered (cs : List Char) (inTemplate : Bool) (depth : Nat) (before : List Lexeme)
    (r : List Lexeme × Bool) : Prop :=
  ∃ found, r.1 = before.reverse ++ found ∧ AllShaped cs found ∧
    (inTemplate = true → ClosesBraces depth found)

def Assembled (cs : List Char) (i : Nat) (chunk : Chunk) (chunks : List TemplateChunk)
    (substitutions : List (List Lexeme)) (r : List TemplateChunk × List (List Lexeme)) (j : Nat) : Prop :=
  ∃ raw raws new, r.1.map TemplateChunk.raw = (chunks.map TemplateChunk.raw).reverse ++
      (chunk.raw ++ String.ofList raw) :: raws.map String.ofList ∧
    r.2 = substitutions.reverse ++ new ∧ TemplateRest cs i (raw :: raws) new j ∧
      ∀ inner ∈ new, AllShaped cs inner

theorem tokens_step_gathered {fuel : Nat} (inTemplate : Bool) (depth : Nat) (before : List Lexeme)
    (htokens : ∀ i depth before, Reads cs i (tokens inTemplate fuel depth false before)
      fun r _ => Gathered cs inTemplate depth before r)
    (htemplate : ∀ i start, Reads cs i (template start fuel {} [] []) (Assembled cs i {} [] [])) :
    Reads cs i (tokens inTemplate (fuel + 1) depth false before)
      fun r _ => Gathered cs inTemplate depth before r := by
  rw [tokens]
  refine Reads.bound_bind ((trivia_reads _ _ (Nat.lt_succ_self _)).bind
    fun newline start _ htrivia => Reads.get_bind ?_)
  obtain ⟨-, -, hline⟩ := htrivia
  have hempty : AllShaped cs [] := fun l h => absurd h Lexeme.not_occurs_nil
  split
  · exact .ite (fun _ => .fail_bind) fun hscript => .pure fun _ =>
      ⟨[], (List.append_nil _).symm, hempty, fun h => absurd h hscript⟩
  · next c hc =>
    have hc : (cs.drop start).head? = some c := by
      rw [← Cursor.rest_after]
      exact hc
    refine .ite (fun hbrace => ?_) fun hgo => Reads.peekAt_bind ?_
    · simp only [Bool.and_eq_true, beq_iff_eq] at hbrace
      exact (skip_reads 1).bind fun _ _ _ _ => .pure fun _ =>
        ⟨[], (List.append_nil _).symm, hempty, fun _ => hbrace.2 ▸ .nil⟩
    · -- What is left to do once a token was read.
      have hnext (token : Token) (depth' stop : Nat)
          (hshaped : (Lexeme.mk token (spanBetween cs start stop) newline).Shaped cs)
          (hinner : ∀ inner ∈ token.substitutions, AllShaped cs inner)
          (hcloses : inTemplate = true → ∀ found, ClosesBraces depth' found →
            ClosesBraces depth (Lexeme.mk token (spanBetween cs start stop) newline :: found)) :
          Reads cs stop (do
            let stop ← get
            tokens inTemplate fuel depth' false
              (Lexeme.mk token ((Cursor.after cs start).spanTo stop) newline :: before))
            fun r _ => Gathered cs inTemplate depth before r := by
        have hplace : (cs.drop start).head? ≠ some '\n' := fun h => absurd (hline '\n' h) (by decide)
        refine Reads.get_bind ?_
        rw [Cursor.spanTo_after stop (lt_of_head? hc).le hplace]
        refine (htokens stop depth' _).mono fun r _ _ _ hgathered => ?_
        obtain ⟨found, hr, hfound, hclosed⟩ := hgathered
        refine ⟨_ :: found, by rw [hr]; simp, fun l hl => ?_, fun ht => hcloses ht _ (hclosed ht)⟩
        obtain rfl | ⟨inner, hmem, hl⟩ | hl := Lexeme.occurs_cons hl
        · exact hshaped
        · exact hinner inner hmem l hl
        · exact hfound l hl
      have hafter {token : Token} (htoken : token.IsLeaf) (stop : Nat) :=
        hnext token depth stop (fun _ _ h => absurd h htoken.ne_template) (by simp [htoken.substitutions_eq])
          fun _ _ => .other htoken.ne_punctuator htoken.ne_punctuator
      have hleaf {x : Scan Token} (hx : Consumes cs start x) (hleaf : Makes Token.IsLeaf x) :
          Reads cs start (do
            let token ← x
            let r ← Pure.pure (token, depth)
            let stop ← get
            tokens inTemplate fuel r.2 false
              (Lexeme.mk r.1 ((Cursor.after cs start).spanTo stop) newline :: before))
            fun r _ => Gathered cs inTemplate depth before r :=
        (hleaf.reads hx).bind fun _ stop _ htoken => Reads.pure_bind (hafter htoken.1 stop)
      refine .ite (fun h => ?_) fun _ => .ite (fun h => ?_) fun _ => .ite (fun h => ?_) fun _ =>
        .ite (fun h => ?_) fun _ => .ite (fun h => ?_) fun _ => .ite (fun h => ?_) fun _ => ?_
      · exact (name_consumes hc h).bind fun a stop _ _ =>
          Reads.pure_bind (hafter (show (Token.identifier a).IsLeaf from trivial) stop)
      · have hstart : c.isDigit = true ∨ c = '.' := by
          simp only [Bool.or_eq_true, Bool.and_eq_true, beq_iff_eq] at h
          exact h.imp_right And.left
        exact hleaf (number_consumes hc hstart) number_leaf
      · exact hleaf (string_consumes c hc) (string_leaf c)
      · obtain rfl : c = '`' := beq_iff_eq.mp h
        refine (skip_reads 1).bind fun _ j _ hj => ?_
        obtain rfl : j = start + 1 := by
          have := lt_of_head? hc
          omega
        refine (htemplate _ _).bind fun r stop _ hassembled => ?_
        obtain ⟨raw, raws, new, hraws, hnew, hrest, hoccurs⟩ := hassembled
        rw [List.reverse_nil, List.nil_append] at hnew
        have hmark (p : Punctuator) : Token.template r.1 r.2 ≠ .punctuator p := by simp
        refine Reads.pure_bind (hnext _ _ _ ?_ (hnew ▸ hoccurs) fun _ _ => .other (hmark _) (hmark _))
        rintro _ _ ⟨⟩
        refine ⟨start, stop, raw :: raws, rfl, ?_, by simpa using hraws, hnew ▸ hrest⟩
        exact ⟨_, (drop_of_head? hc).2.symm⟩
      · exact hleaf (privateName_consumes hc) privateName_leaf
      · exact hleaf (regExp_consumes hc) regExp_leaf
      · refine (punctuator_reads hc).bind fun p stop _ hp => Reads.pure_bind (hnext (.punctuator p) _ _
          (by simp [Lexeme.Shaped, Lexeme.token]) (by simp [Token.substitutions]) fun ht found hfound => ?_)
        by_cases hopen : p = .lBrace
        · rw [if_pos hopen] at hfound
          exact .opening (congrArg Token.punctuator hopen) hfound
        · rw [if_neg hopen] at hfound
          by_cases hclose : p = .rBrace
          · -- At depth zero the brace would have ended the substitution.
            rw [if_pos hclose] at hfound
            have hpos : 0 < depth := by
              refine Nat.pos_of_ne_zero fun hdepth => hgo ?_
              simp [ht, hp hclose, hdepth]
            have hmark : (Lexeme.mk (.punctuator p) (spanBetween cs start stop) newline).token =
                .punctuator .rBrace := congrArg Token.punctuator hclose
            exact (closesBraces_closing hmark).mpr ⟨hpos, hfound⟩
          · rw [if_neg hclose] at hfound
            exact .other (fun h => hopen (Token.punctuator.inj h)) (fun h => hclose (Token.punctuator.inj h)) hfound

theorem template_step_assembled {fuel : Nat} (start : Span) (chunk : Chunk) (chunks : List TemplateChunk)
    (substitutions : List (List Lexeme))
    (htokens : ∀ i, Reads cs i (tokens true fuel 0 false []) fun r j => Found cs true i [] r j ∧
      Gathered cs true 0 [] r)
    (htemplate : ∀ i chunk chunks substitutions, Reads cs i (template start fuel chunk chunks substitutions)
      (Assembled cs i chunk chunks substitutions)) :
    Reads cs i (template start (fuel + 1) chunk chunks substitutions)
      (Assembled cs i chunk chunks substitutions) := by
  -- After one step inside a chunk.
  have hstep {k : Nat} {text : List Char} {chunk' : Chunk} (hstep : ChunkStep cs i text k)
      (hraw : chunk'.raw = chunk.raw ++ String.ofList text) :
      Reads cs k (template start fuel chunk' chunks substitutions) (Assembled cs i chunk chunks substitutions) := by
    refine (htemplate k chunk' chunks substitutions).mono fun r j _ _ hassembled => ?_
    obtain ⟨raw, raws, new, hraws, hnew, hrest, hl⟩ := hassembled
    refine ⟨text ++ raw, raws, new, ?_, hnew, .step hstep hrest, hl⟩
    rw [hraws, hraw, String.ofList_append, String.append_assoc]
  have hpush {d : Char} : (chunk.push d).raw = chunk.raw ++ String.ofList [d] := by
    rw [Chunk.push, ← String.toList_inj]
    simp
  rw [template]
  refine Reads.get_bind ?_
  rw [Cursor.rest_after]
  split
  · exact .fail
  · next tail hdrop =>
    have hmark : ['`'] <+: cs.drop i := ⟨tail, hdrop.symm⟩
    refine (skip_reads 1).bind fun _ j _ hj => .pure fun _ => ?_
    obtain rfl : j = i + 1 := by
      have := hmark.length_le
      rw [List.length_drop, List.length_singleton] at this
      omega
    exact ⟨[], [], [], by simp [Chunk.finish], (List.append_nil _).symm, .close hmark, by simp⟩
  · next tail hdrop =>
    have hopen : ['$', '{'] <+: cs.drop i := ⟨tail, hdrop.symm⟩
    have hlength := hopen.length_le
    rw [List.length_drop, List.length_cons, List.length_singleton] at hlength
    refine (skip_reads 2).bind fun _ j _ hj => ?_
    obtain rfl : j = i + 2 := by omega
    refine (htokens (i + 2)).bind fun inner k _ hinner => ?_
    obtain ⟨hfound, hgathered⟩ := hinner
    obtain ⟨found, last, stop, hinner, htiles, hgap, -, hclose⟩ := hfound
    rw [if_pos rfl] at hclose
    obtain ⟨hclose, rfl⟩ := hclose
    obtain ⟨found', hinner', hshaped, hcloses⟩ := hgathered
    rw [List.reverse_nil, List.nil_append] at hinner hinner'
    obtain rfl : found' = found := hinner'.symm.trans hinner
    refine (htemplate _ _ _ _).mono fun r j _ _ hassembled => ?_
    obtain ⟨raw, raws, new, hraws, hnew, hrest, hl⟩ := hassembled
    refine ⟨[], raw :: raws, found' :: new, ?_, ?_, ?_, List.forall_mem_cons.mpr ⟨hshaped, hl⟩⟩
    · rw [hraws]
      simp [Chunk.finish]
    · rw [hnew, hinner]
      simp
    · exact .substitution hopen htiles (balanced_iff.mpr (hcloses rfl)) hgap hclose hrest
  · next tail hdrop =>
    have hslash : (cs.drop i).head? = some '\\' := by rw [hdrop, List.head?_cons]
    exact (chunkEscape_reads chunk hslash).bind fun _ _ _ hread => hstep hread.1 hread.2
  · next tail hdrop =>
    have hreturn : (cs.drop i).head? = some '\r' := by rw [hdrop, List.head?_cons]
    obtain ⟨hi, htail⟩ := drop_of_head? hreturn
    obtain rfl : tail = cs.drop (i + 1) := (List.cons.inj (hdrop.symm.trans htail)).2
    refine (skip_reads _).bind fun _ j _ hj => ?_
    by_cases hfeed : (cs.drop (i + 1)).head? = some '\n'
    · have hi' := lt_of_head? hfeed
      obtain rfl : j = i + 2 := by
        rw [if_pos hfeed] at hj
        omega
      refine hstep (.returnFeed ?_) hpush
      rw [htail, (drop_of_head? hfeed).2]
      exact ⟨_, rfl⟩
    · obtain rfl : j = i + 1 := by
        rw [if_neg hfeed] at hj
        omega
      exact hstep (.return hreturn hfeed) hpush
  · next d tail htick hbrace hback hreturn hdrop =>
    have hd : (cs.drop i).head? = some d := by rw [hdrop, List.head?_cons]
    have hi := lt_of_head? hd
    have hmark : endsChunk (cs.drop i) = false := by
      rw [hdrop, endsChunk]
      · exact fun _ h => htick (List.cons.inj h).1
      · exact fun _ h => hbrace _ (List.cons.inj h).1 (List.cons.inj h).2
    refine (skip_reads 1).bind fun _ j _ hj => ?_
    obtain rfl : j = i + 1 := by omega
    exact hstep (.plain hd hmark hback hreturn) hpush

theorem tokens_gathered (fuel : Nat) :
    (∀ cs i inTemplate depth before, Reads cs i (tokens inTemplate fuel depth false before)
      fun r _ => Gathered cs inTemplate depth before r) ∧
    ∀ cs i start chunk chunks substitutions, Reads cs i (template start fuel chunk chunks substitutions)
      (Assembled cs i chunk chunks substitutions) := by
  induction fuel with
  | zero =>
    refine ⟨fun cs i inTemplate depth before => ?_, fun cs i start chunk chunks substitutions => ?_⟩
    · rw [tokens]
      exact .stuck
    · rw [template]
      exact .stuck
  | succ fuel ih =>
    obtain ⟨htokens, htemplate⟩ := ih
    refine ⟨fun cs i inTemplate depth before => ?_, fun cs i start chunk chunks substitutions => ?_⟩
    · exact tokens_step_gathered inTemplate depth before (fun i depth before => htokens cs i inTemplate depth before)
        fun i start => htemplate cs i start {} [] []
    · exact template_step_assembled start chunk chunks substitutions
        (fun i => ((tokens_reads fuel).1 cs i true 0 []).and (htokens cs i true 0 []))
        fun i chunk chunks substitutions => htemplate cs i start chunk chunks substitutions

theorem script_shaped : Reads cs 0 script fun lexemes _ => AllShaped cs lexemes := by
  -- What comes after the first line.
  have hrest {i : Nat} : Reads cs i (do
      let r ← tokens false (← bound) 0 false []
      return r.1 ++ [Lexeme.mk .endOfInput (← here) r.2]) fun lexemes _ => AllShaped cs lexemes := by
    refine Reads.bound_bind (((tokens_gathered _).1 cs i false 0 []).bind fun r j _ ⟨found, hr, hshaped, _⟩ => ?_)
    rw [List.reverse_nil, List.nil_append] at hr
    refine Reads.here_bind (.pure fun _ l hl => ?_)
    rw [hr] at hl
    cases hl with
    | top h =>
      obtain h | h := List.mem_append.mp h
      · exact hshaped l (.top h)
      · obtain rfl := List.mem_singleton.mp h
        exact nofun
    | inside houter hinner h =>
      obtain houter | houter := List.mem_append.mp houter
      · exact hshaped l (.inside houter hinner h)
      · obtain rfl := List.mem_singleton.mp houter
        cases hinner
  refine Reads.get_bind ?_
  split
  · exact (restOfLine_reads).bind fun _ _ _ _ => hrest
  · exact hrest

end Scan

/-- Templates are in shape, wherever they are in a script, also in the substitutions of others: there is one
more chunk than substitutions, and a substitution goes up to the first closing brace that matches none of the
braces among its tokens. -/
theorem tokenize_templates {source : String} {lexemes : List Lexeme} (h : tokenize source = .ok lexemes)
    {l : Lexeme} (hl : l.Occurs lexemes) {chunks : List TemplateChunk} {substitutions : List (List Lexeme)}
    (htoken : l.token = .template chunks substitutions) :
    chunks.length = substitutions.length + 1 ∧
    (∀ inner ∈ substitutions, Balanced inner ∧ ∀ before brace rest, inner = before ++ brace :: rest →
      brace.token = .punctuator .rBrace → ¬ Balanced before) ∧
    ∃ i j raws, l.span = spanBetween source.toList i j ∧ ['`'] <+: source.toList.drop i ∧
      chunks.map TemplateChunk.raw = raws.map String.ofList ∧
        TemplateRest source.toList (i + 1) raws substitutions j := by
  obtain ⟨j, -, -, -, hshaped⟩ := @Scan.script_shaped source.toList (Nat.zero_le _)
  obtain ⟨i, j, raws, hspan, hmark, hraws, hrest⟩ := hshaped lexemes h l hl chunks substitutions htoken
  refine ⟨?_, fun inner hinner => ?_, i, j, raws, hspan, hmark, hraws, hrest⟩
  · have hlength := congrArg List.length hraws
    rwa [List.length_map, List.length_map, hrest.length_eq] at hlength
  · have hbalanced := hrest.balanced inner hinner
    refine ⟨hbalanced, fun before brace rest hsplit hclose => ?_⟩
    exact Balanced.not_closing (hsplit ▸ hbalanced) hclose

/-- A template whose substitution holds another one between two braces. The brace in its text is none of them. -/
theorem tokenize_templates_nested :
    let source := "`$\x7b\x7b`\x7d`\x7d\x7d`"
    ∃ lexemes chunks inner, ∃ l : Lexeme, tokenize source = .ok lexemes ∧ l.Occurs lexemes ∧
      l.token = .template chunks [inner] ∧ inner.length = 3 ∧ chunks.length = 2 ∧ Balanced inner ∧
        ∃ i j raws, l.span = spanBetween source.toList i j ∧ TemplateRest source.toList (i + 1) raws [inner] j := by
  have hread : tokenize "`$\x7b\x7b`\x7d`\x7d\x7d`" = .ok
      [.mk (.template [⟨some "", ""⟩, ⟨some "", ""⟩]
        [[.mk (.punctuator .lBrace) ⟨3, 4, 1, 4⟩ false, .mk (.template [⟨some "\x7d", "\x7d"⟩] []) ⟨4, 7, 1, 5⟩ false,
          .mk (.punctuator .rBrace) ⟨7, 8, 1, 8⟩ false]]) ⟨0, 10, 1, 1⟩ false,
        .mk .endOfInput ⟨10, 10, 1, 11⟩ false] := by
    cbv
  obtain ⟨hlength, hsubstitutions, i, j, raws, hspan, -, -, hrest⟩ :=
    tokenize_templates hread (.top List.mem_cons_self) rfl
  have hbalanced := (hsubstitutions _ List.mem_cons_self).1
  exact ⟨_, _, _, _, hread, .top List.mem_cons_self, rfl, rfl, hlength, hbalanced, i, j, raws, hspan, hrest⟩

end EcmaScript
