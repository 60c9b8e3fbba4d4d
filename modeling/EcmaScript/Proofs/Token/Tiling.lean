import EcmaScript.Proofs.Token.Scan
import EcmaScript.Token.Lexer
import Mathlib

/-! The tokens of a script cover it: only blanks, comments and the first line of a script file are
between them. -/
namespace EcmaScript
open EcmaScript.Text

/-- Blanks, line terminators and comments lead from a text to the rest of it. A line comment goes up to
a line terminator or the end, a block comment up to the first mark that closes it. -/
inductive Skips : List Char → List Char → Prop
  | refl (rest : List Char) : Skips rest rest
  | blank {c : Char} {text rest : List Char} (hc : (isBlank c || isLineTerminator c) = true)
      (h : Skips text rest) : Skips (c :: text) rest
  | lineComment {body text rest : List Char} (hbody : ∀ c ∈ body, isLineTerminator c = false)
      (hend : ∀ c ∈ text.head?, isLineTerminator c = true) (h : Skips text rest) :
      Skips ('/' :: '/' :: (body ++ text)) rest
  | blockComment {body text rest : List Char} (hbody : ¬ ['*', '/'] <:+: body ++ ['*'])
      (h : Skips text rest) : Skips ('/' :: '*' :: (body ++ '*' :: '/' :: text)) rest

/-- The first line of a text, if it starts with `#!`, and the text after it. -/
def Hashbang (cs text : List Char) : Prop :=
  ∃ body, cs = '#' :: '!' :: (body ++ text) ∧ (∀ c ∈ body, isLineTerminator c = false) ∧
    ∀ c ∈ text.head?, isLineTerminator c = true

/-- What is between two places of a text is not part of a token. -/
def Gap (cs : List Char) (i j : Nat) : Prop :=
  i ≤ j ∧ j ≤ cs.length ∧
    (Skips (cs.drop i) (cs.drop j) ∨ i = 0 ∧ ∃ text, Hashbang cs text ∧ Skips text (cs.drop j))

def breaks (cs : List Char) (i j : Nat) : Bool := (cs.extract i j).any isLineTerminator

/-- The tokens of the substitutions of a template. -/
def Token.substitutions : Token → List (List Lexeme)
  | .template _ substitutions => substitutions
  | _ => []

def Token.IsLeaf : Token → Prop
  | .template .. => False
  | .punctuator _ => False
  | .endOfInput => False
  | _ => True

namespace Token.IsLeaf
variable {token : Token}

theorem substitutions_eq (h : token.IsLeaf) : token.substitutions = [] := by
  cases token <;> first | rfl | cases h

theorem ne_template (h : token.IsLeaf) {chunks : List TemplateChunk} {substitutions : List (List Lexeme)} :
    token ≠ .template chunks substitutions := by
  rintro rfl
  exact h

theorem ne_punctuator (h : token.IsLeaf) {p : Punctuator} : token ≠ .punctuator p := by
  rintro rfl
  exact h

theorem ne_endOfInput (h : token.IsLeaf) : token ≠ .endOfInput := by
  rintro rfl
  exact h

end Token.IsLeaf

mutual

/-- Tokens between two places of a text, up to the end of the last of them. Nothing but gaps is between
them, each has the span of its characters, and the tokens of its substitutions are inside it. -/
inductive Tiles (cs : List Char) : Nat → List Lexeme → Nat → Prop
  | nil (i : Nat) : Tiles cs i [] i
  | cons {i start stop j : Nat} {token : Token} {rest : List Lexeme} (hgap : Gap cs i start)
      (hstart : start < stop) (hstop : stop ≤ cs.length) (htoken : token ≠ .endOfInput)
      (hinner : Substitutions cs (start + 1) token.substitutions stop) (hrest : Tiles cs stop rest j) :
      Tiles cs i (Lexeme.mk token (spanBetween cs start stop) (breaks cs i start) :: rest) j

/-- Token lists between two places of a text, each between the marks of a substitution. -/
inductive Substitutions (cs : List Char) : Nat → List (List Lexeme) → Nat → Prop
  | nil {i j : Nat} (hij : i ≤ j) : Substitutions cs i [] j
  | cons {i start last stop j : Nat} {inner : List Lexeme} {rest : List (List Lexeme)} (hstart : i ≤ start)
      (hopen : ['$', '{'] <+: cs.drop start) (hinner : Tiles cs (start + 2) inner last)
      (hgap : Gap cs last stop) (hclose : ['}'] <+: cs.drop stop)
      (hrest : Substitutions cs (stop + 1) rest j) : Substitutions cs i (inner :: rest) j

end

variable {cs : List Char} {i j k : Nat}

theorem extract_of_drop {text : List Char} (hij : i ≤ j) (hj : j ≤ cs.length)
    (h : cs.drop i = text ++ cs.drop j) : cs.extract i j = text := by
  have hlength : text.length = j - i := by
    have := congrArg List.length h
    simp only [List.length_append, List.length_drop] at this
    omega
  rw [List.extract, h, ← hlength, List.take_left']
  rfl

theorem breaks_append (hij : i ≤ j) (hjk : j ≤ k) : breaks cs i k = (breaks cs i j || breaks cs j k) := by
  have hextract : cs.extract i k = cs.extract i j ++ cs.extract j k := by
    have hk : k - i = (j - i) + (k - j) := by omega
    simp only [List.extract, hk, List.take_add, List.drop_drop]
    rw [Nat.add_sub_cancel' hij]
  rw [breaks, hextract, List.any_append]
  rfl

@[simp] theorem breaks_self : breaks cs i i = false := by simp [breaks]

theorem drop_of_head? {c : Char} (h : (cs.drop i).head? = some c) :
    i < cs.length ∧ cs.drop i = c :: cs.drop (i + 1) := by
  have hi := Scan.lt_of_head? h
  obtain ⟨rest, hrest⟩ := List.head?_eq_some_iff.mp h
  refine ⟨hi, ?_⟩
  rw [← List.tail_drop, hrest, List.tail_cons]

theorem breaks_of_drop {text : List Char} (hij : i ≤ j) (hj : j ≤ cs.length)
    (h : cs.drop i = text ++ cs.drop j) : breaks cs i j = text.any isLineTerminator := by
  rw [breaks, extract_of_drop hij hj h]

theorem Substitutions.mono {substitutions : List (List Lexeme)} (hij : i ≤ j)
    (h : Substitutions cs j substitutions k) : Substitutions cs i substitutions k := by
  cases h with
  | nil hjk => exact .nil (hij.trans hjk)
  | cons hstart hopen hinner hgap hclose hrest =>
    exact .cons (hij.trans hstart) hopen hinner hgap hclose hrest

namespace Scan

theorem blockCommentRest_reads (start : Span) (fuel : Nat) (newline : Bool) :
    Reads cs i (blockCommentRest start fuel newline) fun b j => ∃ body,
      cs.drop i = body ++ '*' :: '/' :: cs.drop j ∧ (¬ ['*', '/'] <:+: body ++ ['*']) ∧
        b = (newline || body.any isLineTerminator) := by
  induction fuel generalizing newline i with
  | zero => exact .stuck
  | succ fuel ih =>
    refine next_reads.bind fun c j hij ⟨hc, hj⟩ => ?_
    cases c with
    | none => exact .fail
    | some c =>
      obtain ⟨hi, hdrop⟩ := drop_of_head? hc.symm
      obtain rfl : j = i + 1 := by omega
      refine Reads.peek_bind (.ite (fun ⟨hstar, hslash⟩ => ?_) fun hgo => ?_)
      · obtain ⟨hi', hdrop'⟩ := drop_of_head? hslash
        refine (skip_reads 1).bind fun _ l _ hl => .pure fun _ => ⟨[], ?_, ?_, ?_⟩
        · obtain rfl : l = i + 1 + 1 := by omega
          rw [hdrop, hdrop', hstar, List.nil_append]
        · exact fun hinfix => absurd hinfix.length_le (by decide)
        · simp
      · refine (ih _).mono fun b l _ _ ⟨body, hbody, hfirst, hb⟩ => ⟨c :: body, ?_, ?_, ?_⟩
        · rw [hdrop, hbody, List.cons_append]
        · intro hinfix
          obtain hprefix | hinfix := List.infix_cons_iff.mp hinfix
          · obtain ⟨rfl, hslash⟩ := List.cons_prefix_cons.mp hprefix
            refine hgo ⟨rfl, ?_⟩
            rw [hbody]
            cases body with
            | nil => exact absurd hslash (by decide)
            | cons d body => rw [(List.cons_prefix_cons.mp hslash).1, List.cons_append, List.head?_cons]
          · exact hfirst hinfix
        · rw [hb, List.any_cons, Bool.or_assoc]

theorem takeWhile_append_drop (p : Char → Bool) :
    (cs.drop i).takeWhile p ++ cs.drop (i + ((cs.drop i).takeWhile p).length) = cs.drop i := by
  have hrest : cs.drop (i + ((cs.drop i).takeWhile p).length) = (cs.drop i).dropWhile p := by
    rw [← List.drop_drop]
    conv_lhs =>
      arg 2
      rw [← List.takeWhile_append_dropWhile (p := p) (l := cs.drop i)]
    exact List.drop_left
  rw [hrest, List.takeWhile_append_dropWhile]

theorem restOfLine_reads : Reads cs i (takeWhile (!isLineTerminator ·)) fun run j =>
    cs.drop i = run ++ cs.drop j ∧ (∀ c ∈ run, isLineTerminator c = false) ∧
      ∀ c ∈ (cs.drop j).head?, isLineTerminator c = true := by
  refine (takeWhile_reads _).mono fun run j _ _ ⟨hrun, hj⟩ => ?_
  have hsplit : cs.drop i = run ++ cs.drop j := by rw [hj, hrun, takeWhile_append_drop]
  refine ⟨hsplit, fun c hc => ?_, fun c hc => ?_⟩
  · rw [hrun] at hc
    simpa using List.mem_takeWhile_imp hc
  · have hfirst := List.head?_dropWhile_not (!isLineTerminator ·) (cs.drop i)
    have hrest : (cs.drop i).dropWhile (!isLineTerminator ·) = cs.drop j := by
      rw [← List.append_right_inj run, ← hsplit, hrun, List.takeWhile_append_dropWhile]
    rw [hrest, Option.mem_def.mp hc] at hfirst
    simpa using hfirst

theorem marks_in_line {a b : Char} {tail run rest : List Char} (h : a :: b :: tail = run ++ rest)
    (hend : ∀ c ∈ rest.head?, isLineTerminator c = true) (ha : isLineTerminator a = false)
    (hb : isLineTerminator b = false) : ∃ body, run = a :: b :: body := by
  obtain - | ⟨a', - | ⟨b', body⟩⟩ := run
  · rw [List.nil_append] at h
    rw [hend a (by rw [← h]; rfl)] at ha
    cases ha
  · obtain ⟨-, hrest⟩ := List.cons.inj h
    rw [hend b (by rw [show rest = _ from hrest.symm]; rfl)] at hb
    cases hb
  · obtain ⟨rfl, hrest⟩ := List.cons.inj h
    obtain ⟨rfl, -⟩ := List.cons.inj hrest
    exact ⟨body, rfl⟩

theorem trivia_reads (fuel : Nat) (newline : Bool) (hfuel : (cs.drop i).length < fuel) :
    Reads cs i (trivia fuel newline) fun b j => Skips (cs.drop i) (cs.drop j) ∧
      b = (newline || breaks cs i j) ∧ ∀ c ∈ (cs.drop j).head?, isLineTerminator c = false := by
  induction fuel generalizing newline i with
  | zero => cases hfuel
  | succ fuel ih =>
    -- Whatever was passed over, the rest of the loop goes on after it.
    have hgo {b : Bool} {j : Nat} {text : List Char} (hij : i < j) (htext : cs.drop i = text ++ cs.drop j)
        (hb : b = (newline || text.any isLineTerminator))
        (hskips : ∀ {rest}, Skips (cs.drop j) rest → Skips (cs.drop i) rest) :
        Reads cs j (trivia fuel b) fun b l => Skips (cs.drop i) (cs.drop l) ∧
          b = (newline || breaks cs i l) ∧ ∀ c ∈ (cs.drop l).head?, isLineTerminator c = false := by
      intro hj
      rw [List.length_drop] at hfuel
      refine (ih b (by rw [List.length_drop]; omega)).mono (fun b' l hjl _ ⟨hs, hb', hhead⟩ => ?_) hj
      refine ⟨hskips hs, ?_, hhead⟩
      rw [hb', hb, breaks_append hij.le hjl, breaks_of_drop hij.le hj htext, Bool.or_assoc]
    rw [trivia]
    refine Reads.get_bind ?_
    rw [Cursor.rest_after]
    split
    · rename_i tail hdrop
      refine (restOfLine_reads).bind fun run j hij ⟨hsplit, hrun, hend⟩ => ?_
      -- Both slashes are in the line.
      have hslash : isLineTerminator '/' = false := by decide
      obtain ⟨body, rfl⟩ := marks_in_line (hdrop.symm.trans hsplit) hend hslash hslash
      have hlt : i < j := by
        have hlength := congrArg List.length hsplit
        simp only [List.length_append, List.length_cons, List.length_drop] at hlength
        omega
      refine hgo hlt hsplit ?_ fun hs => ?_
      · rw [List.any_eq_false.mpr fun c hc => by simp [hrun c hc], Bool.or_false]
      · rw [hsplit]
        exact .lineComment (fun c hc => hrun c (by simp [hc])) hend hs
    · rename_i tail hdrop
      refine (skip_reads 2).bind fun _ j hij hj => ?_
      refine Reads.bound_bind ((blockCommentRest_reads _ _ _).bind
        fun b l hjl ⟨body, hbody, hfirst, hb⟩ => ?_)
      have hlength := congrArg List.length hdrop
      rw [List.length_drop, List.length_cons, List.length_cons] at hlength
      obtain rfl : j = i + 2 := by omega
      have htail : cs.drop (i + 2) = tail := by rw [← List.drop_drop, hdrop]; rfl
      have hsplit : cs.drop i = ('/' :: '*' :: (body ++ ['*', '/'])) ++ cs.drop l := by
        rw [hdrop, ← htail, hbody]
        simp
      refine hgo (by omega) hsplit ?_ fun hs => ?_
      · have hmarks : isLineTerminator '/' = false ∧ isLineTerminator '*' = false := by decide
        rw [hb]
        simp [hmarks]
      · rw [hdrop, ← htail, hbody]
        exact .blockComment hfirst hs
    · rename_i a tail hline hblock hdrop
      have hhead : (cs.drop i).head? = some a := by rw [hdrop, List.head?_cons]
      obtain ⟨hi, htail⟩ := drop_of_head? hhead
      have hstep (b : Bool) (hb : b = (newline || isLineTerminator a))
          (hblank : (isBlank a || isLineTerminator a) = true) :
          Reads cs i (do skip 1; trivia fuel b) fun b l => Skips (cs.drop i) (cs.drop l) ∧
            b = (newline || breaks cs i l) ∧ ∀ c ∈ (cs.drop l).head?, isLineTerminator c = false := by
        refine (skip_reads 1).bind fun _ j _ hj => ?_
        obtain rfl : j = i + 1 := by omega
        have hsplit : cs.drop i = [a] ++ cs.drop (i + 1) := htail
        refine hgo (Nat.lt_succ_self i) hsplit (by simpa using hb) fun hs => ?_
        rw [htail]
        exact .blank hblank hs
      by_cases hline : isLineTerminator a = true
      · rw [if_pos hline]
        exact hstep true (by simp [hline]) (by simp [hline])
      · rw [if_neg hline]
        refine .ite (fun hblank => ?_) fun _ => .pure fun _ => ⟨.refl _, by simp, ?_⟩
        · exact hstep newline (by simp [hline]) (by simp [hblank])
        · rintro c hc
          rw [hhead] at hc
          cases hc
          simpa using hline
    · rename_i hdrop
      refine .pure fun _ => ⟨.refl _, by simp, ?_⟩
      rw [hdrop]
      exact nofun

/-! Readers of tokens that hold no tokens. -/

def Makes (P : Token → Prop) (x : Scan Token) : Prop := ∀ c token, (x.run c).1 = .ok token → P token

namespace Makes
variable {α : Type} {P : Token → Prop} {x : Scan Token} {k : α → Scan Token}

theorem pure {token : Token} (h : P token) : Makes P (Pure.pure token) := by
  rintro c token' ⟨⟩
  exact h

theorem bind {y : Scan α} (hk : ∀ a, Makes P (k a)) : Makes P (y >>= k) := by
  intro c token h
  rw [run_bind] at h
  cases hy : (y.run c).1 with
  | ok a =>
    rw [hy] at h
    exact hk a _ token h
  | error e =>
    rw [hy] at h
    cases h

theorem ite {b : Prop} [Decidable b] {y : Scan Token} (hx : Makes P x) (hy : Makes P y) :
    Makes P (if b then x else y) := by
  split
  · exact hx
  · exact hy

theorem reads {Q : Token → Nat → Prop} (hmakes : Makes P x) (hx : Reads cs i x Q) :
    Reads cs i x fun token j => P token ∧ Q token j := by
  intro hi
  obtain ⟨j, hij, hj, hstop, hresult⟩ := hx hi
  exact ⟨j, hij, hj, hstop, fun token h => ⟨hmakes _ token h, hresult token h⟩⟩

end Makes

theorem finishNumber_leaf (start : Span) (value : Float) : Makes Token.IsLeaf (finishNumber start value) :=
  .bind fun _ => .ite (.bind fun _ => .pure trivial) (.pure trivial)

theorem radixNumber_leaf (start : Span) (radix : Nat) : Makes Token.IsLeaf (radixNumber start radix) := by
  refine .bind fun _ => .bind fun digits => .ite (.bind fun _ => ?_) ?_
  all_goals exact .bind fun _ => .ite (.bind fun _ => .pure trivial) (finishNumber_leaf _ _)

theorem decimalNumber_leaf (start : Span) : Makes Token.IsLeaf (decimalNumber start) := by
  refine .bind fun whole => .bind fun following => .ite (finishNumber_leaf _ _) ?_
  refine .ite (.bind fun _ => .pure trivial) ?_
  refine .ite (.bind fun _ => .bind fun _ => ?_) (.bind fun _ => ?_)
  all_goals exact .bind fun e => finishNumber_leaf _ _

theorem number_leaf : Makes Token.IsLeaf number := by
  refine .bind fun start => .bind fun c => ?_
  split
  case h_7 => exact decimalNumber_leaf start
  all_goals exact radixNumber_leaf start _

theorem string_leaf (quote : Char) : Makes Token.IsLeaf (string quote) :=
  .bind fun _ => .bind fun _ => .bind fun _ => .bind fun _ => .pure trivial

theorem regExp_leaf : Makes Token.IsLeaf regExp :=
  .bind fun _ => .bind fun _ => .bind fun _ => .bind fun _ => .bind fun _ => .pure trivial

theorem privateName_leaf : Makes Token.IsLeaf privateName :=
  .bind fun _ => .bind fun _ => .bind fun _ =>
    .ite (.bind fun _ => .bind fun _ => .pure trivial) (.bind fun _ => .pure trivial)

theorem pos_of_longest? {p : Punctuator} {n : Nat} {text : List Char}
    (h : Punctuator.longest? text = some (p, n)) : 0 < n := by
  unfold Punctuator.longest? at h
  grind

theorem punctuator_consumes {c : Char} (hc : (cs.drop i).head? = some c) : Consumes cs i punctuator := by
  refine Reads.get_bind ?_
  split
  · next hlongest => exact .skip_past (pos_of_longest? hlongest) (lt_of_head? hc) (.pure _)
  · exact Reads.here_bind .fail

theorem privateName_consumes {c : Char} (hc : (cs.drop i).head? = some c) : Consumes cs i privateName := by
  refine Reads.get_bind (.skip_past Nat.one_pos (lt_of_head? hc) (peek_forward.bind fun first => ?_))
  exact .ite ((Forward.fail _ _).bind fun _ => name_forward.bind fun _ => .pure _)
    (name_forward.bind fun _ => .pure _)

theorem run_tryCatch {α : Type} (x : Scan α) (handle : ReadError → Scan α) (c : Cursor) :
    (tryCatch x handle).run c = (match (x.run c).1 with
      | .ok a => (.ok a, (x.run c).2)
      | .error e => (handle e).run (x.run c).2) := by
  rcases hx : x.run c with ⟨r, c'⟩
  have hx : x c = (r, c') := hx
  simp only [tryCatch, tryCatchThe, MonadExceptOf.tryCatch, ExceptT.tryCatch, ExceptT.run_mk, bind,
    StateT.bind, hx]
  cases r <;> rfl

theorem caughtEscape_forward (span : Span) :
    Forward (tryCatch (do return Except.ok (← escape span))
      fun e => return Except.error e : Scan (Except ReadError (Option Char))) := by
  intro cs i hi
  obtain ⟨j, hij, hj, hstop, -⟩ := escape_forward span cs i hi
  refine ⟨j, hij, hj, ?_, fun _ _ => trivial⟩
  rw [← hstop, run_tryCatch, run_bind]
  cases ((escape span).run (.after cs i)).1 <;> rfl

theorem chunkEscape_consumes {c : Char} (chunk : Chunk) (hc : (cs.drop i).head? = some c) :
    Consumes cs i (chunkEscape chunk) := by
  refine Reads.get_bind (.skip_past Nat.one_pos (lt_of_head? hc) ?_)
  refine (caughtEscape_forward _).bind fun outcome => .get_bind fun after => ?_
  split <;> exact .pure _

def Found (cs : List Char) (inTemplate : Bool) (i : Nat) (before : List Lexeme)
    (r : List Lexeme × Bool) (j : Nat) : Prop :=
  ∃ found last stop, r.1 = before.reverse ++ found ∧ Tiles cs i found last ∧ Gap cs last stop ∧
    r.2 = breaks cs last stop ∧
      if inTemplate then ['}'] <+: cs.drop stop ∧ j = stop + 1 else stop = cs.length ∧ j = stop

theorem tokens_step {fuel : Nat} (inTemplate : Bool) (depth : Nat) (before : List Lexeme)
    (htokens : ∀ i depth before, Reads cs i (tokens inTemplate fuel depth false before)
      (Found cs inTemplate i before))
    (htemplate : ∀ i start, Reads cs i (template start fuel {} [] []) fun r j => Substitutions cs i r.2 j) :
    Reads cs i (tokens inTemplate (fuel + 1) depth false before) (Found cs inTemplate i before) := by
  rw [tokens]
  refine Reads.bound_bind ((trivia_reads _ _ (Nat.lt_succ_self _)).bind
    fun newline start hi ⟨hskips, hnewline, hline⟩ => ?_)
  intro hstart
  have hgap : Gap cs i start := ⟨hi, hstart, .inl hskips⟩
  revert hstart
  refine Reads.get_bind ?_
  split
  · next hend =>
    have hpast : cs.length ≤ start := by
      rw [Cursor.peek, Cursor.rest_after, List.head?_eq_none_iff, List.drop_eq_nil_iff] at hend
      exact hend
    refine .ite (fun _ => .fail_bind) fun hscript => .pure fun hstart => ?_
    refine ⟨[], i, start, (List.append_nil _).symm, .nil i, hgap, by rw [hnewline, Bool.false_or], ?_⟩
    rw [if_neg hscript]
    exact ⟨hstart.antisymm hpast, rfl⟩
  · next c hc =>
    have hc : (cs.drop start).head? = some c := by
      rw [← Cursor.rest_after]
      exact hc
    refine .ite (fun hbrace => ?_) fun _ => Reads.peekAt_bind ?_
    · simp only [Bool.and_eq_true, beq_iff_eq] at hbrace
      obtain ⟨hlt, hdrop⟩ := drop_of_head? hc
      refine (skip_reads 1).bind fun _ j _ hj => .pure fun _ => ?_
      refine ⟨[], i, start, (List.append_nil _).symm, .nil i, hgap, by rw [hnewline, Bool.false_or], ?_⟩
      rw [if_pos hbrace.1.1, hdrop, hbrace.1.2]
      exact ⟨⟨_, rfl⟩, by omega⟩
    · -- What is left to do once a token was read.
      have hnext (token : Token) (depth stop : Nat) (hlt : start < stop) (htoken : token ≠ .endOfInput)
          (hinner : Substitutions cs (start + 1) token.substitutions stop) :
          Reads cs stop (do
            let stop ← get
            tokens inTemplate fuel depth false
              (Lexeme.mk token ((Cursor.after cs start).spanTo stop) newline :: before))
            (Found cs inTemplate i before) := by
        refine Reads.get_bind fun hstop => ?_
        have hplace : (cs.drop start).head? ≠ some '\n' := fun h => absurd (hline '\n' h) (by decide)
        rw [Cursor.spanTo_after stop hgap.2.1 hplace, hnewline, Bool.false_or]
        refine (htokens stop depth _).mono (fun r j _ _ h => ?_) hstop
        obtain ⟨found, last, stop', hr, htiles, hrest⟩ := h
        have htiles' := Tiles.cons hgap hlt hstop htoken hinner htiles
        exact ⟨_ :: found, last, stop', by rw [hr]; simp, htiles', hrest⟩
      have hleaf {x : Scan Token} (hx : Consumes cs start x) (hleaf : Makes Token.IsLeaf x) :
          Reads cs start (do
            let token ← x
            let r ← Pure.pure (token, depth)
            let stop ← get
            tokens inTemplate fuel r.2 false
              (Lexeme.mk r.1 ((Cursor.after cs start).spanTo stop) newline :: before))
            (Found cs inTemplate i before) := by
        refine (hleaf.reads hx).bind fun token stop _ ⟨htoken, hlt⟩ =>
          Reads.pure_bind (hnext _ _ _ hlt htoken.ne_endOfInput ?_)
        rw [htoken.substitutions_eq]
        exact .nil hlt
      refine .ite (fun h => ?_) fun _ => .ite (fun h => ?_) fun _ => .ite (fun h => ?_) fun _ =>
        .ite (fun h => ?_) fun _ => .ite (fun h => ?_) fun _ => .ite (fun h => ?_) fun _ => ?_
      · exact (name_consumes hc h).bind fun a stop _ hlt =>
          Reads.pure_bind (hnext _ _ _ hlt (by simp) (.nil hlt))
      · have hstart : c.isDigit = true ∨ c = '.' := by
          simp only [Bool.or_eq_true, Bool.and_eq_true, beq_iff_eq] at h
          exact h.imp_right And.left
        exact hleaf (number_consumes hc hstart) number_leaf
      · exact hleaf (string_consumes c hc) (string_leaf c)
      · refine (skip_reads 1).bind fun _ j _ hj => ?_
        obtain rfl : j = start + 1 := by
          have := lt_of_head? hc
          omega
        exact (htemplate _ _).bind fun r stop hlt hinner =>
          Reads.pure_bind (hnext _ _ _ hlt (by simp) hinner)
      · exact hleaf (privateName_consumes hc) privateName_leaf
      · exact hleaf (regExp_consumes hc) regExp_leaf
      · exact (punctuator_consumes hc).bind fun p stop _ hlt =>
          Reads.pure_bind (hnext _ _ _ hlt (by simp) (.nil hlt))

theorem template_step {fuel : Nat} (start : Span) (chunk : Chunk) (chunks : List TemplateChunk)
    (substitutions : List (List Lexeme))
    (htokens : ∀ i, Reads cs i (tokens true fuel 0 false []) (Found cs true i []))
    (htemplate : ∀ i chunk chunks substitutions, Reads cs i (template start fuel chunk chunks substitutions)
      fun r j => ∃ new, r.2 = substitutions.reverse ++ new ∧ Substitutions cs i new j) :
    Reads cs i (template start (fuel + 1) chunk chunks substitutions)
      fun r j => ∃ new, r.2 = substitutions.reverse ++ new ∧ Substitutions cs i new j := by
  -- Text between substitutions makes no difference.
  have hgo {j : Nat} (hij : i ≤ j) (chunk : Chunk) :
      Reads cs j (template start fuel chunk chunks substitutions) fun r j => ∃ new,
        r.2 = substitutions.reverse ++ new ∧ Substitutions cs i new j :=
    (htemplate j chunk chunks substitutions).mono fun r _ _ _ ⟨new, hr, hnew⟩ => ⟨new, hr, hnew.mono hij⟩
  rw [template]
  refine Reads.get_bind ?_
  rw [Cursor.rest_after]
  split
  · exact .fail
  · refine (skip_reads 1).bind fun _ j hij _ => .pure fun _ => ?_
    exact ⟨[], (List.append_nil _).symm, .nil hij⟩
  · rename_i tail hdrop
    have hopen : ['$', '{'] <+: cs.drop i := ⟨tail, hdrop.symm⟩
    have hlength := hopen.length_le
    rw [List.length_drop, List.length_cons, List.length_singleton] at hlength
    refine (skip_reads 2).bind fun _ j _ hj => ?_
    obtain rfl : j = i + 2 := by omega
    refine (htokens (i + 2)).bind fun inner k _ h => ?_
    obtain ⟨found, last, stop, hinner, htiles, hgap, -, hclose⟩ := h
    rw [if_pos rfl] at hclose
    obtain ⟨hclose, rfl⟩ := hclose
    refine (htemplate _ _ _ _).mono fun r l _ _ ⟨new, hr, hnew⟩ => ?_
    refine ⟨inner.1 :: new, by rw [hr]; simp, ?_⟩
    rw [hinner]
    exact .cons le_rfl hopen htiles hgap hclose hnew
  · rename_i tail hdrop
    have hslash : (cs.drop i).head? = some '\\' := by rw [hdrop, List.head?_cons]
    exact (chunkEscape_consumes chunk hslash).bind fun chunk j hij _ => hgo hij chunk
  · exact (skip_reads _).bind fun _ j hij _ => hgo hij _
  · exact (skip_reads _).bind fun _ j hij _ => hgo hij _

theorem tokens_reads (fuel : Nat) :
    (∀ cs i inTemplate depth before, Reads cs i (tokens inTemplate fuel depth false before)
      (Found cs inTemplate i before)) ∧
    ∀ cs i start chunk chunks substitutions, Reads cs i (template start fuel chunk chunks substitutions)
      fun r j => ∃ new, r.2 = substitutions.reverse ++ new ∧ Substitutions cs i new j := by
  induction fuel with
  | zero =>
    refine ⟨fun cs i inTemplate depth before => ?_, fun cs i start chunk chunks substitutions => ?_⟩
    · rw [tokens]
      exact .stuck
    · rw [template]
      exact .stuck
  | succ fuel ih =>
    obtain ⟨htokens, htemplate⟩ := ih
    refine ⟨fun cs i inTemplate depth before => ?_, fun cs i start chunk chunks substitutions => ?_⟩
    · refine tokens_step inTemplate depth before (fun i depth before => htokens cs i inTemplate depth before) ?_
      refine fun i start => (htemplate cs i start {} [] []).mono fun r j _ _ ⟨new, hr, hnew⟩ => ?_
      rwa [hr]
    · exact template_step start chunk chunks substitutions (fun i => htokens cs i true 0 [])
        fun i chunk chunks substitutions => htemplate cs i start chunk chunks substitutions

end Scan

theorem Tiles.after_hashbang {text : List Char} {found : List Lexeme} {last stop : Nat}
    (hfirst : Hashbang cs text) (htext : cs.drop i = text) (hi : 0 < i) (htiles : Tiles cs i found last)
    (hgap : Gap cs last stop) :
    ∃ last', Tiles cs 0 found last' ∧ Gap cs last' stop ∧ breaks cs last' stop = breaks cs last stop := by
  have hwiden {j : Nat} (h : Gap cs i j) : Gap cs 0 j ∧ breaks cs 0 j = breaks cs i j := by
    obtain ⟨hij, hj, hskips | ⟨rfl, -⟩⟩ := h
    · refine ⟨⟨Nat.zero_le j, hj, .inr ⟨rfl, text, hfirst, htext ▸ hskips⟩⟩, ?_⟩
      obtain ⟨body, hcs, hbody, -⟩ := hfirst
      have hdrop : cs.drop 0 = ('#' :: '!' :: body) ++ cs.drop i := by
        rw [List.drop_zero, htext, hcs]
        rfl
      have hmarks : isLineTerminator '#' = false ∧ isLineTerminator '!' = false := by decide
      have hline : breaks cs 0 i = false := by
        rw [breaks_of_drop (Nat.zero_le i) (hij.trans hj) hdrop]
        simpa [hmarks] using hbody
      rw [breaks_append (Nat.zero_le i) hij, hline, Bool.false_or]
    · cases hi
  cases htiles with
  | nil => exact ⟨0, .nil 0, (hwiden hgap).1, (hwiden hgap).2⟩
  | cons hgap' hstart hstop htoken hinner hrest =>
    refine ⟨last, ?_, hgap, rfl⟩
    rw [← (hwiden hgap').2]
    exact .cons (hwiden hgap').1 hstart hstop htoken hinner hrest

def endOfInput (cs : List Char) (last : Nat) : Lexeme :=
  .mk .endOfInput (spanBetween cs cs.length cs.length) (breaks cs last cs.length)

theorem Scan.script_reads : Reads cs 0 script fun lexemes _ => ∃ found last,
    lexemes = found ++ [endOfInput cs last] ∧ Tiles cs 0 found last ∧ Gap cs last cs.length := by
  -- What comes after the first line.
  have hrest {i : Nat} : Reads cs i (do
      let r ← tokens false (← bound) 0 false []
      return r.1 ++ [Lexeme.mk .endOfInput (← here) r.2]) fun lexemes _ => ∃ found last,
        lexemes = found ++ [endOfInput cs last] ∧ Tiles cs i found last ∧ Gap cs last cs.length := by
    refine Reads.bound_bind (((tokens_reads _).1 cs i false 0 []).bind
      fun r j _ ⟨found, last, stop, hr, htiles, hgap, hnewline, hstop⟩ => ?_)
    rw [if_neg Bool.false_ne_true] at hstop
    obtain ⟨rfl, rfl⟩ := hstop
    refine Reads.here_bind (.pure fun hi => ⟨found, last, ?_, htiles, hgap⟩)
    have hhere : (Cursor.after cs cs.length).here = spanBetween cs cs.length cs.length :=
      Cursor.spanTo_after cs.length hi (by simp)
    rw [hr, hhere, hnewline]
    rfl
  refine Reads.get_bind ?_
  rw [Cursor.rest_after, List.drop_zero]
  split
  · refine (restOfLine_reads).bind fun run i hi ⟨hsplit, hrun, hend⟩ => ?_
    rw [List.drop_zero] at hsplit
    obtain ⟨body, rfl⟩ := marks_in_line hsplit hend rfl rfl
    have hfirst : Hashbang _ (List.drop i _) := ⟨body, hsplit, fun c hc => hrun c (by simp [hc]), hend⟩
    have hlt : 0 < i := by
      have hlength := congrArg List.length hsplit
      simp only [List.length_append, List.length_cons, List.length_drop] at hlength
      omega
    refine hrest.mono fun lexemes _ _ _ ⟨found, last, hlexemes, htiles, hgap⟩ => ?_
    obtain ⟨last', htiles', hgap', hbreaks⟩ := htiles.after_hashbang hfirst rfl hlt hgap
    exact ⟨found, last', by rw [hlexemes, endOfInput, endOfInput, hbreaks], htiles', hgap'⟩
  · exact hrest

/-- Tokens in the order of their bytes, none of them empty, and the tokens of their substitutions ordered
inside them. -/
inductive Ordered : Nat → List Lexeme → Nat → Prop
  | nil {lo hi : Nat} (h : lo ≤ hi) : Ordered lo [] hi
  | cons {lo hi : Nat} {l : Lexeme} {rest : List Lexeme} (hlo : lo ≤ l.span.start)
      (hl : l.span.start < l.span.stop)
      (hinner : ∀ inner ∈ l.token.substitutions, Ordered l.span.start inner l.span.stop)
      (hrest : Ordered l.span.stop rest hi) : Ordered lo (l :: rest) hi

theorem Ordered.mono {lo lo' hi hi' : Nat} {ls : List Lexeme} (h : Ordered lo ls hi) (hlo : lo' ≤ lo)
    (hhi : hi ≤ hi') : Ordered lo' ls hi' := by
  induction h generalizing lo' with
  | nil h => exact .nil (hlo.trans (h.trans hhi))
  | cons hstart hl hinner _ _ ih => exact .cons (hlo.trans hstart) hl hinner (ih le_rfl hhi)

theorem Tiles.le {ls : List Lexeme} (h : Tiles cs i ls j) : i ≤ j := by
  induction ls generalizing i with
  | nil =>
    cases h
    exact le_rfl
  | cons l ls ih =>
    obtain - | ⟨hgap, hstart, -, -, -, hrest⟩ := h
    exact hgap.1.trans (hstart.le.trans (ih hrest))

theorem Substitutions.le {substitutions : List (List Lexeme)} (h : Substitutions cs i substitutions j) :
    i ≤ j := by
  induction substitutions generalizing i with
  | nil =>
    obtain ⟨hij⟩ := h
    exact hij
  | cons inner rest ih =>
    obtain - | ⟨hstart, -, hinner, hgap, -, hrest⟩ := h
    have hlast := hinner.le
    have hstop := hgap.1
    have hend := ih hrest
    omega

theorem Tiles.ordered {ls : List Lexeme} (h : Tiles cs i ls j) :
    Ordered (size (cs.take i)) ls (size (cs.take j)) := by
  refine @Tiles.rec cs (fun i ls j _ => Ordered (size (cs.take i)) ls (size (cs.take j)))
    (fun i substitutions j _ => ∀ inner ∈ substitutions, Ordered (size (cs.take i)) inner (size (cs.take j)))
    ?noTokens ?token ?noSubstitutions ?substitution i ls j h
  case noTokens => exact fun i => .nil le_rfl
  case token =>
    intro i start stop j token rest hgap hstart hstop _ _ _ hinner hrest
    refine .cons (size_take_le cs hgap.1) (size_take_lt cs hstart (by omega)) (fun inner hmem => ?_) hrest
    exact (hinner inner hmem).mono (size_take_le cs (Nat.le_succ start)) le_rfl
  case noSubstitutions =>
    intro i j _ inner hmem
    cases hmem
  case substitution =>
    intro i start last stop j inner rest hstart _ hinner hgap _ hrest ih ihrest inner' hmem
    have hlast := hinner.le
    have hstop := hgap.1
    have hend := hrest.le
    obtain rfl | hmem := List.mem_cons.mp hmem
    · exact ih.mono (size_take_le cs (by omega)) (size_take_le cs (by omega))
    · exact (ihrest inner' hmem).mono (size_take_le cs (by omega)) le_rfl

theorem tokenize_found {source : String} {lexemes : List Lexeme} (h : tokenize source = .ok lexemes) :
    ∃ found last, lexemes = found ++ [endOfInput source.toList last] ∧
      Tiles source.toList 0 found last ∧ Gap source.toList last source.toList.length := by
  obtain ⟨j, -, -, -, hresult⟩ := @Scan.script_reads source.toList (Nat.zero_le _)
  exact hresult lexemes h

/-- The tokens of a script are in its text one after the other, with only blanks, comments and the first
line of a script file between them, and the end of input is at its end. -/
theorem tokenize_tiles {source : String} {lexemes : List Lexeme} (h : tokenize source = .ok lexemes) :
    ∃ found last, lexemes = found ++ [endOfInput source.toList last] ∧
      Tiles source.toList 0 found last ∧ Gap source.toList last source.toList.length ∧
        Ordered 0 found (size source.toList) := by
  obtain ⟨found, last, hlexemes, htiles, hgap⟩ := tokenize_found h
  refine ⟨found, last, hlexemes, htiles, hgap, htiles.ordered.mono (Nat.zero_le _) ?_⟩
  have hend := size_take_le source.toList hgap.1
  rwa [List.take_length] at hend

/-- A script with a first line, a comment between two lines and a template. -/
theorem tokenize_tiles_template :
    let source := "#!\r\n$ // é\n;`x$\x7b\n$\x7d`"
    ∃ lexemes, tokenize source = .ok lexemes ∧
      ∃ found last, lexemes = found ++ [endOfInput source.toList last] ∧
        Tiles source.toList 0 found last ∧ Gap source.toList last source.toList.length ∧
          Ordered 0 found (size source.toList) := by
  have hread : tokenize "#!\r\n$ // é\n;`x$\x7b\n$\x7d`" = .ok
      [.mk (.identifier "$") ⟨4, 5, 2, 1⟩ true, .mk (.punctuator .semicolon) ⟨12, 13, 3, 1⟩ true,
        .mk (.template [⟨some "x", "x"⟩, ⟨some "", ""⟩] [[.mk (.identifier "$") ⟨18, 19, 4, 1⟩ true]])
          ⟨13, 21, 3, 2⟩ false,
        .mk .endOfInput ⟨21, 21, 4, 4⟩ false] := by
    cbv
  exact ⟨_, hread, tokenize_tiles hread⟩

end EcmaScript
