import EcmaScript.Proofs.Token.Tiling

/-! Reading the tokens of a text comes to an end. Loops are given more steps than there are characters left,
and every step passes one. -/
namespace EcmaScript
open EcmaScript.Text

namespace Scan
variable {α β : Type} {cs : List Char} {i : Nat}

def GetsOn (cs : List Char) (i : Nat) (x : Scan α) : Prop :=
  i ≤ cs.length → (x.run (.after cs i)).1 ≠ .error .stuck

def Brief (x : Scan α) : Prop := ∀ c, (x.run c).1 ≠ .error .stuck

namespace Brief
variable {x : Scan α}

theorem pure (a : α) : Brief (Pure.pure a : Scan α) := fun _ => nofun

theorem fail (span : Span) (what : SyntaxFault) : Brief (Scan.fail span what : Scan α) := fun _ => nofun

theorem bind {k : α → Scan β} (hx : Brief x) (hk : ∀ a, Brief (k a)) : Brief (x >>= k) := by
  intro c
  have hx := hx c
  rw [run_bind]
  cases hrun : (x.run c).1 with
  | ok a => exact hk a _
  | error e =>
    rw [hrun] at hx
    intro h
    cases h
    exact hx rfl

theorem ite {b : Prop} [Decidable b] {y : Scan α} (hx : Brief x) (hy : Brief y) :
    Brief (if b then x else y) := by
  split
  · exact hx
  · exact hy

theorem get_bind {k : Cursor → Scan β} (h : ∀ c, Brief (k c)) : Brief (get >>= k) := fun c => h c c

theorem getsOn (hx : Brief x) : GetsOn cs i x := fun _ => hx _

end Brief

theorem skip_brief (n : Nat) : Brief (skip n) := fun _ => nofun

theorem next_brief : Brief next := fun _ => nofun

theorem takeWhile_brief (p : Char → Bool) : Brief (takeWhile p) := fun _ => nofun

theorem peek_brief : Brief peek := fun _ => nofun

theorem here_brief : Brief here := fun _ => nofun

theorem hexDigits_brief (span : Span) (count value : Nat) : Brief (hexDigits span count value) := by
  induction count generalizing value with
  | zero => exact .pure value
  | succ count ih =>
    refine (peek_brief).bind fun c => ?_
    cases c.bind (Number.digitValue? 16) with
    | none => exact .fail span _
    | some d => exact (skip_brief 1).bind fun _ => ih _

theorem lowSurrogate_brief (span : Span) (high : Nat) : Brief (lowSurrogate span high) := by
  refine .get_bind fun before => ?_
  split
  · refine (skip_brief 2).bind fun _ => (hexDigits_brief span 4 0).bind fun low => .ite (.pure _) ?_
    exact fun _ => nofun
  · exact .pure _

theorem unicodeEscape_brief (span : Span) : Brief (unicodeEscape span) := by
  refine (peek_brief).bind fun c => .ite ?_ ((hexDigits_brief span 4 0).bind fun high => ?_)
  · refine (skip_brief 1).bind fun _ => (takeWhile_brief _).bind fun digits => ?_
    refine .ite ((Brief.fail span _).bind fun _ => ?_) ?_
    all_goals
      refine (next_brief).bind fun close => ?_
      exact .ite ((Brief.fail span _).bind fun _ => .pure _) (.pure _)
  · exact .ite (lowSurrogate_brief span high) (.pure _)

theorem octalDigits_brief (count value : Nat) : Brief (octalDigits count value) := by
  induction count generalizing value with
  | zero => exact .pure value
  | succ count ih =>
    refine (peek_brief).bind fun c => ?_
    cases c.bind (Number.digitValue? 8) with
    | none => exact .pure value
    | some d => exact .ite ((skip_brief 1).bind fun _ => ih _) (.pure value)

theorem escape_brief (span : Span) : Brief (escape span) := by
  refine (next_brief).bind fun c => ?_
  split
  case h_1 => exact .fail span _
  case h_8 => exact (hexDigits_brief span 2 0).bind fun _ => .pure _
  case h_9 => exact (unicodeEscape_brief span).bind fun _ => .pure _
  case h_10 =>
    refine (peek_brief).bind fun following => ?_
    exact .ite ((skip_brief 1).bind fun _ => .pure _) (.pure _)
  case h_14 =>
    refine (peek_brief).bind fun following => .ite (.pure _) ?_
    split
    · exact (octalDigits_brief _ _).bind fun _ => .pure _
    · exact .pure _
  all_goals exact .pure _

theorem finishNumber_brief (start : Span) (value : Float) : Brief (finishNumber start value) :=
  (peek_brief).bind fun _ => .ite ((Brief.fail start _).bind fun _ => .pure _) (.pure _)

theorem separatedDigits_brief (radix : Nat) : Brief (separatedDigits radix) :=
  (takeWhile_brief _).bind fun _ => .pure _

theorem radixNumber_brief (start : Span) (radix : Nat) : Brief (radixNumber start radix) := by
  refine (skip_brief 2).bind fun _ => (separatedDigits_brief radix).bind fun digits => ?_
  refine .ite ((Brief.fail start _).bind fun _ => ?_) ?_
  all_goals
    refine (peek_brief).bind fun following => .ite ((skip_brief 1).bind fun _ => .pure _) ?_
    exact finishNumber_brief start _

theorem exponent_brief : Brief exponent := by
  refine .get_bind fun c => ?_
  split
  · exact (skip_brief _).bind fun _ => .pure _
  · exact .pure _

theorem decimalNumber_brief (start : Span) : Brief (decimalNumber start) := by
  refine (separatedDigits_brief 10).bind fun whole => (peek_brief).bind fun following => ?_
  refine .ite (finishNumber_brief start _) (.ite ((skip_brief 1).bind fun _ => .pure _) ?_)
  refine .ite ((skip_brief 1).bind fun _ => (separatedDigits_brief 10).bind fun _ => ?_)
    ((Brief.pure _).bind fun _ => ?_)
  all_goals exact (exponent_brief).bind fun e => finishNumber_brief start _

theorem number_brief : Brief number := by
  refine (here_brief).bind fun start => .get_bind fun c => ?_
  split
  case h_7 => exact decimalNumber_brief start
  all_goals exact radixNumber_brief start _

theorem punctuator_brief : Brief punctuator := by
  refine .get_bind fun c => ?_
  split
  · exact (skip_brief _).bind fun _ => .pure _
  · exact (here_brief).bind fun _ => .fail _ _

theorem chunkEscape_brief (chunk : Chunk) : Brief (chunkEscape chunk) := by
  refine .get_bind fun before => (skip_brief 1).bind fun _ => ?_
  have hcaught : Brief (tryCatch (do return Except.ok (← escape before.here))
      fun e => return Except.error e : Scan (Except ReadError (Option Char))) := by
    intro c
    rw [run_tryCatch, run_bind]
    cases ((escape before.here).run c).1 <;> exact nofun
  refine hcaught.bind fun outcome => .get_bind fun after => ?_
  split <;> exact .pure _

namespace GetsOn
variable {x : Scan α} {Q : α → Nat → Prop}

theorem bind {k : α → Scan β} (hx : GetsOn cs i x) (hreads : Reads cs i x Q)
    (hk : ∀ a j, i ≤ j → Q a j → GetsOn cs j (k a)) : GetsOn cs i (x >>= k) := by
  intro hi
  have hx := hx hi
  obtain ⟨j, hij, hj, hstop, hresult⟩ := hreads hi
  rw [run_bind]
  cases hrun : (x.run (.after cs i)).1 with
  | ok a =>
    rw [hstop]
    exact hk a j hij (hresult a hrun) hj
  | error e =>
    rw [hrun] at hx
    intro h
    cases h
    exact hx rfl

theorem ite {b : Prop} [Decidable b] {y : Scan α} (hx : b → GetsOn cs i x) (hy : ¬ b → GetsOn cs i y) :
    GetsOn cs i (if b then x else y) := by
  split
  · exact hx ‹_›
  · exact hy ‹_›

theorem fail_bind {γ : Type} {span : Span} {what : SyntaxFault} {k : γ → Scan α} :
    GetsOn cs i (Scan.fail span what >>= k) := fun _ => nofun

theorem pure_bind {a : α} {k : α → Scan β} (h : GetsOn cs i (k a)) : GetsOn cs i (Pure.pure a >>= k) := h

theorem get_bind {k : Cursor → Scan β} (h : GetsOn cs i (k (.after cs i))) : GetsOn cs i (get >>= k) := h

theorem here_bind {k : Span → Scan β} (h : GetsOn cs i (k (Cursor.after cs i).here)) :
    GetsOn cs i (here >>= k) := h

theorem bound_bind {k : Nat → Scan β} (h : GetsOn cs i (k ((cs.drop i).length + 1))) :
    GetsOn cs i (bound >>= k) := by
  rw [← Cursor.rest_after] at h
  exact h

theorem peek_bind {k : Option Char → Scan β} (h : GetsOn cs i (k (cs.drop i).head?)) :
    GetsOn cs i (peek >>= k) := by
  rw [← Cursor.rest_after] at h
  exact h

theorem peekAt_bind {n : Nat} {k : Option Char → Scan β}
    (h : GetsOn cs i (k ((cs.drop i).drop n).head?)) : GetsOn cs i (peekAt n >>= k) := by
  rw [← Cursor.rest_after cs i] at h
  exact h

theorem skip_bind {n : Nat} {k : Unit → Scan β} {c : Char} (hn : 0 < n) (hc : (cs.drop i).head? = some c)
    (hk : ∀ j, i < j → GetsOn cs j (k ())) : GetsOn cs i (skip n >>= k) := by
  have hi := lt_of_head? hc
  exact bind (skip_brief n).getsOn (skip_reads n) fun _ j _ hj => hk j (by omega)

theorem next_bind {k : Option Char → Scan β} (hnone : GetsOn cs i (k none))
    (hsome : ∀ c j, i < j → GetsOn cs j (k (some c))) : GetsOn cs i (next >>= k) := by
  refine bind (next_brief).getsOn next_reads fun c j hij ⟨hc, hj⟩ hle => ?_
  cases c with
  | none =>
    have hend : cs.length ≤ i := by rw [← List.drop_eq_nil_iff, ← List.head?_eq_none_iff, hc]
    obtain rfl : j = i := by omega
    exact hnone hle
  | some c =>
    have hi := lt_of_head? hc.symm
    exact hsome c j (by omega) hle

end GetsOn

theorem Brief.then {x : Scan α} {k : α → Scan β} (hx : Brief x) (hforward : Forward x)
    (hk : ∀ a j, i ≤ j → GetsOn cs j (k a)) : GetsOn cs i (x >>= k) :=
  .bind hx.getsOn (hforward cs i) fun a j hij _ => hk a j hij

theorem nameRest_getsOn {fuel : Nat} (name : String) (hfuel : cs.length < i + fuel) :
    GetsOn cs i (nameRest fuel name) := by
  induction fuel generalizing i name with
  | zero => exact fun hi => absurd hfuel (by omega)
  | succ fuel ih =>
    refine .peek_bind ?_
    split
    · next hc =>
      refine .here_bind (.skip_bind Nat.one_pos hc fun j hj => (next_brief).then next_forward fun u l hl => ?_)
      refine .ite (fun _ => .fail_bind) fun _ => ?_
      exact (unicodeEscape_brief _).then (unicodeEscape_forward _) fun d n hn => ih _ (by omega)
    · next hc =>
      exact .ite (fun _ => .skip_bind Nat.one_pos hc fun j hj => ih _ (by omega))
        fun _ => (Brief.pure _).getsOn
    · exact (Brief.pure _).getsOn

theorem stringRest_getsOn (start : Span) (quote : Char) {fuel : Nat} (value : String)
    (hfuel : cs.length < i + fuel) : GetsOn cs i (stringRest start quote fuel value) := by
  induction fuel generalizing i value with
  | zero => exact fun hi => absurd hfuel (by omega)
  | succ fuel ih =>
    refine .peek_bind ?_
    split
    · exact (Brief.fail start _).getsOn
    · next c hc =>
      refine .ite (fun _ => ((skip_brief 1).bind fun _ => .pure value).getsOn) fun _ => .ite (fun _ => ?_)
        fun _ => .ite (fun _ => (Brief.fail start _).getsOn) fun _ => ?_
      · refine .here_bind (.skip_bind Nat.one_pos hc fun j hj => ?_)
        refine (escape_brief _).then (escape_forward _) fun d l hl => ?_
        split
        · exact ih _ (by omega)
        · exact ih _ (by omega)
      · exact .skip_bind Nat.one_pos hc fun j hj => ih _ (by omega)

theorem regExpRest_getsOn (start : Span) {fuel : Nat} (inClass : Bool) (pattern : String)
    (hfuel : cs.length < i + fuel) : GetsOn cs i (regExpRest start fuel inClass pattern) := by
  induction fuel generalizing i inClass pattern with
  | zero => exact fun hi => absurd hfuel (by omega)
  | succ fuel ih =>
    refine .next_bind (Brief.fail start _).getsOn fun c j hj => ?_
    have hrest (inClass : Bool) (pattern : String) : GetsOn cs j (regExpRest start fuel inClass pattern) :=
      ih inClass pattern (by omega)
    refine .ite (fun _ => (Brief.fail start _).getsOn) fun _ => .ite (fun _ => ?_) fun _ =>
      .ite (fun _ => hrest _ _) fun _ => .ite (fun _ => hrest _ _) fun _ =>
        .ite (fun _ => (Brief.pure pattern).getsOn) fun _ => hrest _ _
    exact .next_bind (hrest _ _) fun d l hl => ih _ _ (by omega)

theorem lt_add_bound (cs : List Char) (i : Nat) : cs.length < i + ((cs.drop i).length + 1) := by
  rw [List.length_drop]
  omega

theorem name_getsOn : GetsOn cs i name := .bound_bind (nameRest_getsOn "" (lt_add_bound cs i))

theorem string_getsOn (quote : Char) : GetsOn cs i (string quote) := by
  refine .here_bind ((skip_brief 1).then (skip_forward 1) fun _ j _ => .bound_bind ?_)
  exact (stringRest_getsOn _ quote "" (lt_add_bound cs j)).bind (stringRest_forward _ _ _ _ cs j)
    fun _ _ _ _ => (Brief.pure _).getsOn

theorem regExp_getsOn : GetsOn cs i regExp := by
  refine .here_bind ((skip_brief 1).then (skip_forward 1) fun _ j _ => .bound_bind ?_)
  refine (regExpRest_getsOn _ false "" (lt_add_bound cs j)).bind (regExpRest_forward _ _ _ _ cs j)
    fun _ _ _ _ => ?_
  exact ((takeWhile_brief _).bind fun _ => .pure _).getsOn

theorem privateName_getsOn : GetsOn cs i privateName := by
  refine .get_bind ((skip_brief 1).then (skip_forward 1) fun _ j _ => .peek_bind ?_)
  refine .ite (fun _ => .fail_bind) fun _ => ?_
  exact (name_getsOn).bind (name_forward cs j) fun _ _ _ _ => (Brief.pure _).getsOn

theorem blockCommentRest_getsOn (start : Span) {fuel : Nat} (newline : Bool) (hfuel : cs.length < i + fuel) :
    GetsOn cs i (blockCommentRest start fuel newline) := by
  induction fuel generalizing i newline with
  | zero => exact fun hi => absurd hfuel (by omega)
  | succ fuel ih =>
    refine .next_bind (Brief.fail start _).getsOn fun c j hj => .peek_bind (.ite (fun _ => ?_) fun _ => ?_)
    · exact ((skip_brief 1).bind fun _ => .pure newline).getsOn
    · exact ih _ (by omega)

theorem trivia_getsOn {fuel : Nat} (newline : Bool) (hfuel : cs.length < i + fuel) :
    GetsOn cs i (trivia fuel newline) := by
  induction fuel generalizing i newline with
  | zero => exact fun hi => absurd hfuel (by omega)
  | succ fuel ih =>
    rw [trivia]
    refine .get_bind ?_
    rw [Cursor.rest_after]
    split
    · next tail hdrop =>
      refine (takeWhile_brief _).getsOn.bind (takeWhile_reads _) fun run j _ hresult => ih _ ?_
      obtain ⟨hrun, hj⟩ := hresult
      rw [hdrop, List.takeWhile_cons, if_pos (by decide)] at hrun
      rw [hrun, List.length_cons] at hj
      omega
    · next tail hdrop =>
      have hc : (cs.drop i).head? = some '/' := by rw [hdrop, List.head?_cons]
      refine .skip_bind Nat.two_pos hc fun j hj => .bound_bind ?_
      refine (blockCommentRest_getsOn _ newline (lt_add_bound cs j)).bind (blockCommentRest_reads _ _ _)
        fun b l hl _ => ih b (by omega)
    · next a tail _ _ hdrop =>
      have hc : (cs.drop i).head? = some a := by rw [hdrop, List.head?_cons]
      refine .ite (fun _ => .skip_bind Nat.one_pos hc fun j hj => ih _ (by omega)) fun _ => ?_
      exact .ite (fun _ => .skip_bind Nat.one_pos hc fun j hj => ih _ (by omega))
        fun _ => (Brief.pure _).getsOn
    · exact (Brief.pure _).getsOn

theorem tokens_step_getsOn {fuel : Nat} (inTemplate : Bool) (depth : Nat) (before : List Lexeme)
    (htokens : ∀ j depth before, i < j → GetsOn cs j (tokens inTemplate fuel depth false before))
    (htemplate : ∀ j start, i < j → GetsOn cs j (template start fuel {} [] [])) :
    GetsOn cs i (tokens inTemplate (fuel + 1) depth false before) := by
  rw [tokens]
  refine .bound_bind ((trivia_getsOn _ (lt_add_bound cs i)).bind (trivia_reads _ _ (Nat.lt_succ_self _))
    fun newline start hi _ => .get_bind ?_)
  split
  · exact .ite (fun _ => .fail_bind) fun _ => (Brief.pure _).getsOn
  · next c hc =>
    have hc : (cs.drop start).head? = some c := by
      rw [← Cursor.rest_after]
      exact hc
    -- Whatever was read and makes a token, the tokens go on after it.
    have hnext {α : Type} {x : Scan α} {f : α → Token × Nat} (hx : GetsOn cs start x)
        (hconsumes : Consumes cs start x) : GetsOn cs start (do
          let r ← x
          let found ← Pure.pure (f r)
          let stop ← get
          tokens inTemplate fuel found.2 false
            (Lexeme.mk found.1 ((Cursor.after cs start).spanTo stop) newline :: before)) :=
      hx.bind hconsumes fun _ _ _ hlt => .pure_bind (.get_bind (htokens _ _ _ (hi.trans_lt hlt)))
    refine .ite (fun _ => ((skip_brief 1).bind fun _ => .pure _).getsOn) fun _ => .peekAt_bind ?_
    refine .ite (fun h => ?_) fun _ => .ite (fun h => ?_) fun _ => .ite (fun h => ?_) fun _ =>
      .ite (fun h => ?_) fun _ => .ite (fun h => ?_) fun _ => .ite (fun h => ?_) fun _ => ?_
    · exact hnext name_getsOn (name_consumes hc h)
    · have hstart : c.isDigit = true ∨ c = '.' := by
        simp only [Bool.or_eq_true, Bool.and_eq_true, beq_iff_eq] at h
        exact h.imp_right And.left
      exact hnext (number_brief).getsOn (number_consumes hc hstart)
    · exact hnext (string_getsOn c) (string_consumes c hc)
    · refine .skip_bind Nat.one_pos hc fun j hj => ?_
      refine (htemplate j _ (hi.trans_lt hj)).bind ((tokens_reads fuel).2 cs j _ {} [] [])
        fun r stop hstop _ => ?_
      exact .pure_bind (.get_bind (htokens _ _ _ (by omega)))
    · exact hnext privateName_getsOn (privateName_consumes hc)
    · exact hnext regExp_getsOn (regExp_consumes hc)
    · exact hnext (punctuator_brief).getsOn (punctuator_consumes hc)

theorem template_step_getsOn {fuel : Nat} (start : Span) (chunk : Chunk) (chunks : List TemplateChunk)
    (substitutions : List (List Lexeme))
    (htokens : ∀ j, i < j → GetsOn cs j (tokens true fuel 0 false []))
    (htemplate : ∀ j chunk chunks substitutions, i < j →
      GetsOn cs j (template start fuel chunk chunks substitutions)) :
    GetsOn cs i (template start (fuel + 1) chunk chunks substitutions) := by
  rw [template]
  refine .get_bind ?_
  rw [Cursor.rest_after]
  split
  · exact (Brief.fail start _).getsOn
  · exact ((skip_brief 1).bind fun _ => .pure _).getsOn
  · next tail hdrop =>
    have hc : (cs.drop i).head? = some '$' := by rw [hdrop, List.head?_cons]
    refine .skip_bind Nat.two_pos hc fun j hj => ?_
    refine (htokens j hj).bind ((tokens_reads fuel).1 cs j true 0 []) fun inner k hk _ => ?_
    exact htemplate _ _ _ _ (by omega)
  · next tail hdrop =>
    have hc : (cs.drop i).head? = some '\\' := by rw [hdrop, List.head?_cons]
    refine (chunkEscape_brief chunk).getsOn.bind (chunkEscape_consumes chunk hc) fun chunk j _ hj => ?_
    exact htemplate _ _ _ _ hj
  · next rest hdrop =>
    have hc : (cs.drop i).head? = some '\r' := by rw [hdrop, List.head?_cons]
    refine .skip_bind ?_ hc fun j hj => htemplate _ _ _ _ hj
    split <;> decide
  · next c tail _ _ _ _ hdrop =>
    have hc : (cs.drop i).head? = some c := by rw [hdrop, List.head?_cons]
    exact .skip_bind Nat.one_pos hc fun j hj => htemplate _ _ _ _ hj

theorem tokens_getsOn (fuel : Nat) :
    (∀ i inTemplate depth before, cs.length < i + fuel →
      GetsOn cs i (tokens inTemplate fuel depth false before)) ∧
    ∀ i start chunk chunks substitutions, cs.length < i + fuel →
      GetsOn cs i (template start fuel chunk chunks substitutions) := by
  induction fuel with
  | zero =>
    exact ⟨fun i inTemplate depth before hfuel hi => absurd hfuel (by omega),
      fun i start chunk chunks substitutions hfuel hi => absurd hfuel (by omega)⟩
  | succ fuel ih =>
    obtain ⟨htokens, htemplate⟩ := ih
    refine ⟨fun i inTemplate depth before hfuel => ?_, fun i start chunk chunks substitutions hfuel => ?_⟩
    · exact tokens_step_getsOn inTemplate depth before (fun j depth before hj => htokens j _ _ _ (by omega))
        fun j start hj => htemplate j start {} [] [] (by omega)
    · exact template_step_getsOn start chunk chunks substitutions (fun j hj => htokens j _ _ _ (by omega))
        fun j chunk chunks substitutions hj => htemplate j start _ _ _ (by omega)

theorem script_getsOn : GetsOn cs 0 script := by
  have hrest (i : Nat) : GetsOn cs i (do
      let r ← tokens false (← bound) 0 false []
      return r.1 ++ [Lexeme.mk .endOfInput (← here) r.2]) := by
    refine .bound_bind (((tokens_getsOn _).1 i false 0 [] (lt_add_bound cs i)).bind
      ((tokens_reads _).1 cs i false 0 []) fun r j _ _ => ?_)
    exact ((here_brief).bind fun _ => .pure _).getsOn
  refine .get_bind ?_
  split
  · exact (takeWhile_brief _).then (takeWhile_forward _) fun _ j _ => hrest j
  · exact hrest 0

end Scan

theorem tokenize_ne_stuck (source : String) : tokenize source ≠ .error .stuck :=
  @Scan.script_getsOn source.toList (Nat.zero_le _)

end EcmaScript
