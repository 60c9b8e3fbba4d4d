import EcmaScript.Proofs.Token.Place
import EcmaScript.Token.Literal

/-! Readers of characters only go forward, whether they come to a result or fail. There is one rule for
each way to put readers together. -/
namespace EcmaScript

theorem isNamePart_of_start {c : Char} (h : isNameStart c = true) : isNamePart c = true := by
  simp only [isNameStart, Bool.or_eq_true] at h
  obtain (h | h) | h := h <;> simp [isNamePart, h]

namespace Scan
variable {α β : Type} {cs : List Char} {i : Nat}

/-- Started after `i` characters of a text, a reader stays or goes forward inside the text, and where
it stops with a result, `Q` holds of the result and the number of characters before that place. -/
def Reads (cs : List Char) (i : Nat) (x : Scan α) (Q : α → Nat → Prop) : Prop :=
  i ≤ cs.length → ∃ j, i ≤ j ∧ j ≤ cs.length ∧ (x.run (.after cs i)).2 = .after cs j ∧
    ∀ a, (x.run (.after cs i)).1 = .ok a → Q a j

def Forward (x : Scan α) : Prop := ∀ cs i, Reads cs i x fun _ _ => True

theorem run_bind (x : Scan α) (k : α → Scan β) (c : Cursor) :
    (x >>= k).run c = (match (x.run c).1 with
      | .ok a => (k a).run (x.run c).2
      | .error e => (.error e, (x.run c).2)) := by
  show ExceptT.bindCont k (x.run c).1 (x.run c).2 = _
  cases (x.run c).1 <;> rfl

theorem run_get_bind (k : Cursor → Scan β) (c : Cursor) : (get >>= k).run c = (k c).run c := rfl

theorem run_next_bind (k : Option Char → Scan β) (c : Cursor) : (next >>= k).run c = (k c.peek).run c.next := rfl

namespace Reads
variable {x : Scan α} {Q : α → Nat → Prop} {R : β → Nat → Prop}

theorem bind {k : α → Scan β} (hx : Reads cs i x Q)
    (hk : ∀ a j, i ≤ j → Q a j → Reads cs j (k a) R) : Reads cs i (x >>= k) R := by
  intro hi
  obtain ⟨j, hij, hj, hstop, hresult⟩ := hx hi
  rw [run_bind]
  cases hrun : (x.run (.after cs i)).1 with
  | error e => exact ⟨j, hij, hj, hstop, nofun⟩
  | ok a =>
    obtain ⟨l, hjl, hl, hstop', hresult'⟩ := hk a j hij (hresult a hrun) hj
    rw [hstop]
    exact ⟨l, hij.trans hjl, hl, hstop', hresult'⟩

theorem mono {Q' : α → Nat → Prop} (hx : Reads cs i x Q)
    (h : ∀ a j, i ≤ j → j ≤ cs.length → Q a j → Q' a j) : Reads cs i x Q' := by
  intro hi
  obtain ⟨j, hij, hj, hstop, hresult⟩ := hx hi
  exact ⟨j, hij, hj, hstop, fun a ha => h a j hij hj (hresult a ha)⟩

theorem pure {a : α} (h : i ≤ cs.length → Q a i) : Reads cs i (Pure.pure a) Q := by
  intro hi
  refine ⟨i, le_rfl, hi, rfl, fun b hb => ?_⟩
  cases hb
  exact h hi

theorem fail {span : Span} {what : SyntaxFault} : Reads cs i (Scan.fail span what : Scan α) Q :=
  fun hi => ⟨i, le_rfl, hi, rfl, nofun⟩

theorem stuck : Reads cs i (Scan.stuck : Scan α) Q := fun hi => ⟨i, le_rfl, hi, rfl, nofun⟩

theorem fail_bind {γ : Type} {span : Span} {what : SyntaxFault} {k : γ → Scan α} :
    Reads cs i (Scan.fail span what >>= k) Q :=
  fun hi => ⟨i, le_rfl, hi, rfl, nofun⟩

theorem ite {b : Prop} [Decidable b] {y : Scan α} (hx : b → Reads cs i x Q)
    (hy : ¬ b → Reads cs i y Q) : Reads cs i (if b then x else y) Q := by
  split
  · exact hx ‹_›
  · exact hy ‹_›

theorem pure_bind {a : α} {k : α → Scan β} (h : Reads cs i (k a) R) :
    Reads cs i (Pure.pure a >>= k) R := h

theorem get_bind {k : Cursor → Scan β} (h : Reads cs i (k (.after cs i)) R) :
    Reads cs i (get >>= k) R := h

theorem here_bind {k : Span → Scan β} (h : Reads cs i (k (Cursor.after cs i).here) R) :
    Reads cs i (here >>= k) R := h

theorem bound_bind {k : Nat → Scan β} (h : Reads cs i (k ((cs.drop i).length + 1)) R) :
    Reads cs i (bound >>= k) R := by
  rw [← Cursor.rest_after] at h
  exact h

theorem peek_bind {k : Option Char → Scan β} (h : Reads cs i (k (cs.drop i).head?) R) :
    Reads cs i (peek >>= k) R := by
  rw [← Cursor.rest_after] at h
  exact h

theorem peekAt_bind {n : Nat} {k : Option Char → Scan β}
    (h : Reads cs i (k ((cs.drop i).drop n).head?) R) : Reads cs i (peekAt n >>= k) R := by
  rw [← Cursor.rest_after cs i] at h
  exact h

end Reads

theorem skip_reads (n : Nat) : Reads cs i (skip n) fun _ j => j = min (i + n) cs.length := by
  intro hi
  refine ⟨min (i + n) cs.length, by omega, by omega, ?_, fun _ _ => rfl⟩
  rw [Cursor.after_min, Cursor.after_add]
  rfl

theorem next_reads : Reads cs i next fun c j => c = (cs.drop i).head? ∧ j = min (i + 1) cs.length := by
  intro hi
  refine ⟨min (i + 1) cs.length, by omega, by omega, ?_, ?_⟩
  · rw [Cursor.after_min, Cursor.after_add]
    rfl
  · rintro c ⟨⟩
    exact ⟨congrArg List.head? (Cursor.rest_after cs i), rfl⟩

theorem takeWhile_reads (p : Char → Bool) : Reads cs i (takeWhile p) fun run j =>
    run = (cs.drop i).takeWhile p ∧ j = i + run.length := by
  intro hi
  have hlength := (List.takeWhile_sublist (l := cs.drop i) p).length_le
  rw [List.length_drop] at hlength
  refine ⟨i + ((cs.drop i).takeWhile p).length, by omega, by omega, ?_, ?_⟩
  · rw [Cursor.after_add, ← Cursor.rest_after]
    rfl
  · rintro run ⟨⟩
    simp only [Cursor.rest_after, true_and]

/-! Readers that go forward. -/

namespace Forward
variable {x : Scan α}

theorem bind {k : α → Scan β} (hx : Forward x) (hk : ∀ a, Forward (k a)) : Forward (x >>= k) :=
  fun cs i => (hx cs i).bind fun a j _ _ => hk a cs j

theorem pure (a : α) : Forward (Pure.pure a : Scan α) := fun _ _ => .pure fun _ => trivial

theorem fail (span : Span) (what : SyntaxFault) : Forward (Scan.fail span what : Scan α) := fun _ _ => .fail

theorem stuck : Forward (Scan.stuck : Scan α) := fun _ _ => .stuck

theorem ite {b : Prop} [Decidable b] {y : Scan α} (hx : Forward x) (hy : Forward y) :
    Forward (if b then x else y) := fun cs i => .ite (fun _ => hx cs i) (fun _ => hy cs i)

theorem get_bind {k : Cursor → Scan β} (h : ∀ c, Forward (k c)) : Forward (get >>= k) :=
  fun cs i => Reads.get_bind (h _ cs i)

end Forward

theorem skip_forward (n : Nat) : Forward (skip n) := fun _ _ => (skip_reads n).mono fun _ _ _ _ _ => trivial

theorem next_forward : Forward next := fun _ _ => (next_reads).mono fun _ _ _ _ _ => trivial

theorem takeWhile_forward (p : Char → Bool) : Forward (takeWhile p) :=
  fun _ _ => (takeWhile_reads p).mono fun _ _ _ _ _ => trivial

theorem peek_forward : Forward peek := fun _ _ hi => ⟨_, le_rfl, hi, rfl, fun _ _ => trivial⟩

theorem here_forward : Forward here := fun _ _ hi => ⟨_, le_rfl, hi, rfl, fun _ _ => trivial⟩

theorem bound_forward : Forward bound := fun _ _ hi => ⟨_, le_rfl, hi, rfl, fun _ _ => trivial⟩

theorem hexDigits_forward (span : Span) (count value : Nat) : Forward (hexDigits span count value) := by
  induction count generalizing value with
  | zero => exact .pure value
  | succ count ih =>
    refine (peek_forward).bind fun c => ?_
    cases c.bind (Number.digitValue? 16) with
    | none => exact .fail span _
    | some d => exact (skip_forward 1).bind fun _ => ih _

/-- A reader may go back to where it started. -/
theorem Reads.lookahead {x : Scan α} {P : α → Nat → Prop} {Q : β → Nat → Prop} {p : α → Prop}
    [DecidablePred p] {f : α → β} {b : β} (hx : Reads cs i x P) (hyes : ∀ a j, P a j → p a → Q (f a) j)
    (hno : ∀ a j, P a j → ¬ p a → Q b i) : Reads cs i (x >>= fun a => if p a then Pure.pure (f a) else do
      set (Cursor.after cs i)
      Pure.pure b) Q := by
  intro hi
  obtain ⟨j, hij, hj, hstop, hresult⟩ := hx hi
  rw [run_bind]
  cases hrun : (x.run (.after cs i)).1 with
  | error e => exact ⟨j, hij, hj, hstop, nofun⟩
  | ok a =>
    by_cases ha : p a
    · simp only [ha, if_true]
      refine ⟨j, hij, hj, hstop, fun b' hb' => ?_⟩
      cases hb'
      exact hyes a j (hresult a hrun) ha
    · simp only [ha, if_false]
      refine ⟨i, le_rfl, hi, rfl, fun b' hb' => ?_⟩
      cases hb'
      exact hno a j (hresult a hrun) ha

theorem lowSurrogate_forward (span : Span) (high : Nat) : Forward (lowSurrogate span high) := by
  intro cs i
  refine Reads.get_bind ?_
  split
  · rw [← bind_assoc]
    exact (((skip_forward 2).bind fun _ => hexDigits_forward span 4 0) cs i).lookahead
      (fun _ _ _ _ => trivial) fun _ _ _ _ => trivial
  · exact .pure fun _ => trivial

theorem unicodeEscape_forward (span : Span) : Forward (unicodeEscape span) := by
  refine (peek_forward).bind fun c => ?_
  refine .ite ?_ ((hexDigits_forward span 4 0).bind fun high => ?_)
  · refine (skip_forward 1).bind fun _ => (takeWhile_forward _).bind fun digits => ?_
    refine .ite ((Forward.fail span _).bind fun _ => ?_) ?_
    all_goals
      refine (next_forward).bind fun close => ?_
      exact .ite ((Forward.fail span _).bind fun _ => .pure _) (.pure _)
  · exact .ite (lowSurrogate_forward span high) (.pure _)

theorem octalDigits_forward (count value : Nat) : Forward (octalDigits count value) := by
  induction count generalizing value with
  | zero => exact .pure value
  | succ count ih =>
    refine (peek_forward).bind fun c => ?_
    cases c.bind (Number.digitValue? 8) with
    | none => exact .pure value
    | some d => exact .ite ((skip_forward 1).bind fun _ => ih _) (.pure value)

theorem escape_forward (span : Span) : Forward (escape span) := by
  refine (next_forward).bind fun c => ?_
  split
  case h_1 => exact .fail span _
  case h_8 => exact (hexDigits_forward span 2 0).bind fun _ => .pure _
  case h_9 => exact (unicodeEscape_forward span).bind fun _ => .pure _
  case h_10 =>
    refine (peek_forward).bind fun following => ?_
    exact .ite ((skip_forward 1).bind fun _ => .pure _) (.pure _)
  case h_14 =>
    refine (peek_forward).bind fun following => .ite (.pure _) ?_
    split
    · exact (octalDigits_forward _ _).bind fun _ => .pure _
    · exact .pure _
  all_goals exact .pure _

theorem nameRest_forward (fuel : Nat) (name : String) : Forward (nameRest fuel name) := by
  induction fuel generalizing name with
  | zero => exact .stuck
  | succ fuel ih =>
    refine (peek_forward).bind fun c => ?_
    split
    · refine (here_forward).bind fun span => (skip_forward 1).bind fun _ => (next_forward).bind fun u => ?_
      refine .ite ((Forward.fail span _).bind fun _ => ?_) ?_
      all_goals exact (unicodeEscape_forward span).bind fun c => ih _
    · exact .ite ((skip_forward 1).bind fun _ => ih _) (.pure name)
    · exact .pure name

theorem name_forward : Forward name := (bound_forward).bind fun fuel => nameRest_forward fuel ""

theorem finishNumber_forward (start : Span) (value : Float) : Forward (finishNumber start value) :=
  (peek_forward).bind fun _ => .ite ((Forward.fail start _).bind fun _ => .pure _) (.pure _)

theorem separatedDigits_forward (radix : Nat) : Forward (separatedDigits radix) :=
  (takeWhile_forward _).bind fun _ => .pure _

theorem exponent_forward : Forward exponent := by
  refine .get_bind fun c => ?_
  split
  · exact (skip_forward _).bind fun _ => .pure _
  · exact .pure _

theorem stringRest_forward (start : Span) (quote : Char) (fuel : Nat) (value : String) :
    Forward (stringRest start quote fuel value) := by
  induction fuel generalizing value with
  | zero => exact .stuck
  | succ fuel ih =>
    refine (peek_forward).bind fun c => ?_
    split
    · exact .fail start _
    · refine .ite ((skip_forward 1).bind fun _ => .pure value) (.ite ?_ (.ite (.fail start _) ?_))
      · refine (here_forward).bind fun span => (skip_forward 1).bind fun _ => ?_
        refine (escape_forward span).bind fun d => ?_
        split
        · exact ih _
        · exact ih _
      · exact (skip_forward 1).bind fun _ => ih _

theorem regExpRest_forward (start : Span) (fuel : Nat) (inClass : Bool) (pattern : String) :
    Forward (regExpRest start fuel inClass pattern) := by
  induction fuel generalizing inClass pattern with
  | zero => exact .stuck
  | succ fuel ih =>
    refine (next_forward).bind fun c => ?_
    split
    · exact .fail start _
    · refine .ite (.fail start _) (.ite ?_ (.ite (ih _ _) (.ite (ih _ _) (.ite (.pure pattern) (ih _ _)))))
      refine (next_forward).bind fun d => ?_
      split
      · exact ih _ _
      · exact ih _ _

/-! Readers of tokens go past at least one character. -/

def Consumes (cs : List Char) (i : Nat) (x : Scan α) : Prop := Reads cs i x fun _ j => i < j

theorem Forward.past {x : Scan α} {j : Nat} (hij : i < j) (hx : Forward x) : Reads cs j x fun _ l => i < l :=
  (hx cs j).mono fun _ _ hjl _ _ => Nat.lt_of_lt_of_le hij hjl

theorem Reads.skip_past {n : Nat} {k : Unit → Scan β} (hn : 0 < n) (hi : i < cs.length)
    (hk : Forward (k ())) : Reads cs i (skip n >>= k) fun _ j => i < j := by
  refine (skip_reads n).bind fun _ j _ hj => hk.past ?_
  omega

variable {c : Char}

theorem lt_of_head? (hc : (cs.drop i).head? = some c) : i < cs.length := by
  by_contra hge
  rw [List.drop_eq_nil_of_le (Nat.le_of_not_lt hge)] at hc
  cases hc

theorem name_consumes (hc : (cs.drop i).head? = some c) (hstart : (isNameStart c || c == '\\') = true) :
    Consumes cs i name := by
  refine Reads.bound_bind (Reads.peek_bind ?_)
  split
  · refine Reads.here_bind (.skip_past Nat.one_pos (lt_of_head? hc) ((next_forward).bind fun u => ?_))
    refine .ite ((Forward.fail _ _).bind fun _ => ?_) ?_
    all_goals exact (unicodeEscape_forward _).bind fun c => nameRest_forward _ _
  · rename_i d hne hd
    obtain rfl : c = d := Option.some.inj (hc.symm.trans hd)
    have hstart : isNameStart c = true := by
      simpa [show c ≠ '\\' from hne] using hstart
    rw [if_pos (isNamePart_of_start hstart)]
    exact .skip_past Nat.one_pos (lt_of_head? hc) (nameRest_forward _ _)
  · rename_i hnone
    rw [hc] at hnone
    cases hnone

theorem string_consumes (quote : Char) (hc : (cs.drop i).head? = some c) : Consumes cs i (string quote) := by
  refine Reads.here_bind (.skip_past Nat.one_pos (lt_of_head? hc) ((bound_forward).bind fun fuel => ?_))
  exact (stringRest_forward _ _ _ _).bind fun _ => .pure _

theorem regExp_consumes (hc : (cs.drop i).head? = some c) : Consumes cs i regExp := by
  refine Reads.here_bind (.skip_past Nat.one_pos (lt_of_head? hc) ((bound_forward).bind fun fuel => ?_))
  exact (regExpRest_forward _ _ _ _).bind fun _ => (takeWhile_forward _).bind fun _ => .pure _

theorem radixNumber_consumes (start : Span) (radix : Nat) (hc : (cs.drop i).head? = some c) :
    Consumes cs i (radixNumber start radix) := by
  refine .skip_past Nat.two_pos (lt_of_head? hc) ((separatedDigits_forward radix).bind fun digits => ?_)
  refine .ite ((Forward.fail start _).bind fun _ => ?_) ?_
  all_goals
    refine (peek_forward).bind fun following => .ite ((skip_forward 1).bind fun _ => .pure _) ?_
    exact finishNumber_forward start _

theorem isSome_digitValue?_ten (h : c.isDigit = true) : (Number.digitValue? 10 c).isSome = true := by
  have hrange : '0' ≤ c ∧ c ≤ '9' := by
    simpa [Char.isDigit, Char.le_def] using h
  have hvalue : c.toNat - 48 < 10 := by
    have h9 : c.toNat ≤ '9'.toNat := hrange.2
    have : '9'.toNat = 57 := rfl
    omega
  simp [Number.digitValue?, hrange, hvalue]

theorem separatedDigits_reads (radix : Nat) : Reads cs i (separatedDigits radix) fun digits j =>
    ∃ run, run = (cs.drop i).takeWhile (fun c => c == '_' || (Number.digitValue? radix c).isSome) ∧
      j = i + run.length ∧ digits = run.filter (· != '_') :=
  (takeWhile_reads _).bind fun run _ _ ⟨hrun, hj⟩ => .pure fun _ => ⟨run, hrun, hj, rfl⟩

theorem decimalNumber_consumes (start : Span) (hc : (cs.drop i).head? = some c)
    (hstart : c.isDigit = true ∨ c = '.') : Consumes cs i (decimalNumber start) := by
  refine (separatedDigits_reads 10).bind fun whole j hij ⟨run, hrun, hj, hwhole⟩ => ?_
  obtain ⟨rest, hdrop⟩ : ∃ rest, cs.drop i = c :: rest := List.head?_eq_some_iff.mp hc
  rw [hdrop, List.takeWhile_cons] at hrun
  obtain hdigit | rfl := hstart
  · have hlt : i < j := by
      rw [if_pos (by simp [isSome_digitValue?_ten hdigit])] at hrun
      rw [hj, hrun, List.length_cons]
      omega
    refine Forward.past hlt ((peek_forward).bind fun following => ?_)
    refine .ite (finishNumber_forward start _) (.ite ((skip_forward 1).bind fun _ => .pure _) ?_)
    refine .ite ((skip_forward 1).bind fun _ => (separatedDigits_forward 10).bind fun _ => ?_)
      ((Forward.pure _).bind fun _ => ?_)
    all_goals exact (exponent_forward).bind fun e => finishNumber_forward start _
  · rw [if_neg (by decide)] at hrun
    subst hrun hwhole
    obtain rfl : j = i := hj
    refine Reads.peek_bind ?_
    rw [hc]
    refine .ite (fun h => absurd h.1 (by decide)) fun _ => ?_
    rw [if_neg (by decide), if_pos rfl]
    refine .skip_past Nat.one_pos (lt_of_head? hc) ((separatedDigits_forward 10).bind fun _ => ?_)
    exact (exponent_forward).bind fun e => finishNumber_forward start _

theorem number_consumes (hc : (cs.drop i).head? = some c) (hstart : c.isDigit = true ∨ c = '.') :
    Consumes cs i number := by
  refine Reads.here_bind (Reads.get_bind ?_)
  split
  all_goals first
    | exact radixNumber_consumes _ _ hc
    | exact decimalNumber_consumes _ hc hstart

end Scan
end EcmaScript
