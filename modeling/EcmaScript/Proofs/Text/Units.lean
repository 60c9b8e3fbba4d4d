import EcmaScript.Text.Utf16
import Mathlib

/-! Characters and their code units. Text is found in text between whole characters only: no match splits a
surrogate pair. -/
namespace EcmaScript.Text

def unitsOf (cs : List Char) : List UInt16 := cs.flatMap unitsOfChar

section Characters
variable {c d : Char} {cs ps : List Char} {xs ys : List UInt16}

@[simp] theorem unitsOf_nil : unitsOf [] = [] := rfl

@[simp] theorem unitsOf_cons : unitsOf (c :: cs) = unitsOfChar c ++ unitsOf cs := rfl

@[simp] theorem unitsOf_append : unitsOf (cs ++ ps) = unitsOf cs ++ unitsOf ps := List.flatMap_append

theorem charOfCode_toNat : charOfCode c.toNat = c := by
  rw [charOfCode, if_pos (show c.toNat.isValidChar from c.valid), Char.ofNat_toNat]

theorem toNat_toUInt16 {n : Nat} (hn : n < 65536) : n.toUInt16.toNat = n := Nat.mod_eq_of_lt hn

theorem isHighSurrogate_toUInt16 {n : Nat} (hn : n < 65536) :
    isHighSurrogate n.toUInt16 = (decide (0xD800 ≤ n) && decide (n < 0xDC00)) := by
  simp [isHighSurrogate, UInt16.le_iff_toNat_le, UInt16.lt_iff_toNat_lt, toNat_toUInt16 hn]

theorem isLowSurrogate_toUInt16 {n : Nat} (hn : n < 65536) :
    isLowSurrogate n.toUInt16 = (decide (0xDC00 ≤ n) && decide (n < 0xE000)) := by
  simp [isLowSurrogate, UInt16.le_iff_toNat_le, UInt16.lt_iff_toNat_lt, toNat_toUInt16 hn]

/-- A character is one unit that is no surrogate, or a surrogate pair. -/
theorem unitsOfChar_cases (c : Char) :
    (∃ u, unitsOfChar c = [u] ∧ isHighSurrogate u = false ∧ isLowSurrogate u = false ∧
      charOfCode u.toNat = c) ∨
    ∃ u v, unitsOfChar c = [u, v] ∧ isHighSurrogate u = true ∧ isLowSurrogate v = true ∧
      charOfCode (pairCode u v) = c := by
  have hvalid : c.toNat < 0xD800 ∨ 0xDFFF < c.toNat ∧ c.toNat < 0x110000 := c.valid
  by_cases hn : c.toNat < 0x10000
  · refine .inl ⟨c.toNat.toUInt16, by rw [unitsOfChar]; exact if_pos hn, ?_, ?_, ?_⟩
    · rw [isHighSurrogate_toUInt16 hn, Bool.and_eq_false_iff, decide_eq_false_iff_not, decide_eq_false_iff_not]
      omega
    · rw [isLowSurrogate_toUInt16 hn, Bool.and_eq_false_iff, decide_eq_false_iff_not, decide_eq_false_iff_not]
      omega
    · rw [toNat_toUInt16 hn, charOfCode_toNat]
  · have hhigh : 0xD800 + (c.toNat - 0x10000) / 0x400 < 0xDC00 := by omega
    have hlow : 0xDC00 + (c.toNat - 0x10000) % 0x400 < 0xE000 := by omega
    refine .inr ⟨_, _, by rw [unitsOfChar]; exact if_neg hn, ?_, ?_, ?_⟩
    · rw [isHighSurrogate_toUInt16 (by omega)]
      simp [hhigh]
    · rw [isLowSurrogate_toUInt16 (by omega)]
      simp [hlow]
    · have hpair : pairCode (0xD800 + (c.toNat - 0x10000) / 0x400).toUInt16
          (0xDC00 + (c.toNat - 0x10000) % 0x400).toUInt16 = c.toNat := by
        have hu := toNat_toUInt16 (hhigh.trans (by decide))
        have hv := toNat_toUInt16 (hlow.trans (by decide))
        unfold pairCode
        omega
      rw [hpair, charOfCode_toNat]

theorem unitsOfChar_eq_cons (c : Char) : ∃ u rest, unitsOfChar c = u :: rest ∧ isLowSurrogate u = false := by
  obtain ⟨u, hu, -, hlow, -⟩ | ⟨u, v, huv, hhigh, -⟩ := unitsOfChar_cases c
  · exact ⟨u, [], hu, hlow⟩
  · refine ⟨u, [v], huv, ?_⟩
    simp only [isHighSurrogate, isLowSurrogate, Bool.and_eq_true, decide_eq_true_iff, Bool.and_eq_false_iff,
      decide_eq_false_iff_not] at hhigh ⊢
    exact .inl (UInt16.not_le.mpr hhigh.2)

theorem charsOfUnits_unitsOf (cs : List Char) : charsOfUnits (unitsOf cs) = cs := by
  induction cs with
  | nil => rfl
  | cons c cs ih =>
    obtain ⟨u, hu, hhigh, -, hc⟩ | ⟨u, v, huv, hhigh, hlow, hc⟩ := unitsOfChar_cases c
    · rw [unitsOf_cons, hu, List.singleton_append]
      cases hrest : unitsOf cs with
      | nil =>
        rw [hrest] at ih
        rw [charsOfUnits, hc, ← ih]
        rfl
      | cons v rest => rw [charsOfUnits, hhigh, Bool.false_and, if_neg Bool.false_ne_true, hc, ← hrest, ih]
    · rw [unitsOf_cons, huv, List.cons_append, List.singleton_append, charsOfUnits, hhigh, hlow,
        Bool.and_self, if_pos rfl, hc, ih]

theorem unitsOfChar_ne_nil : unitsOfChar c ≠ [] := by
  obtain ⟨u, rest, hu, -⟩ := unitsOfChar_eq_cons c
  simp [hu]

theorem length_unitsOf_pos (h : cs ≠ []) : 0 < (unitsOf cs).length := by
  obtain ⟨c, cs, rfl⟩ := List.exists_cons_of_ne_nil h
  rw [unitsOf_cons, List.length_append]
  exact Nat.add_pos_left (List.length_pos_iff.mpr unitsOfChar_ne_nil) _

theorem unitsOfChar_append_inj (h : unitsOfChar c ++ xs = unitsOfChar d ++ ys) : c = d ∧ xs = ys := by
  obtain ⟨u, hu, hhigh, -, hc⟩ | ⟨u, v, hu, hhigh, -, hc⟩ := unitsOfChar_cases c <;>
    obtain ⟨u', hu', hhigh', -, hd⟩ | ⟨u', v', hu', hhigh', -, hd⟩ := unitsOfChar_cases d <;>
    rw [hu, hu'] at h
  · obtain ⟨rfl, rfl⟩ := List.cons.inj h
    exact ⟨hc.symm.trans hd, rfl⟩
  · obtain ⟨rfl, -⟩ := List.cons.inj h
    cases hhigh.symm.trans hhigh'
  · obtain ⟨rfl, -⟩ := List.cons.inj h
    cases hhigh.symm.trans hhigh'
  · obtain ⟨rfl, htail⟩ := List.cons.inj h
    obtain ⟨rfl, rfl⟩ := List.cons.inj htail
    exact ⟨hc.symm.trans hd, rfl⟩

theorem unitsOf_prefix (h : unitsOf ps ++ ys = unitsOf cs) : ∃ b, cs = ps ++ b ∧ ys = unitsOf b := by
  induction ps generalizing cs with
  | nil => exact ⟨cs, rfl, h⟩
  | cons p ps ih =>
    cases cs with
    | nil => simp [unitsOfChar_ne_nil] at h
    | cons c cs =>
      rw [unitsOf_cons, unitsOf_cons, List.append_assoc] at h
      obtain ⟨rfl, hrest⟩ := unitsOfChar_append_inj h
      obtain ⟨b, rfl, rfl⟩ := ih hrest
      exact ⟨b, rfl, rfl⟩

theorem unitsOf_infix (hps : ps ≠ []) (h : xs ++ unitsOf ps ++ ys = unitsOf cs) :
    ∃ a b, cs = a ++ ps ++ b ∧ xs = unitsOf a ∧ ys = unitsOf b := by
  induction cs generalizing xs with
  | nil =>
    have hempty : unitsOf ps = [] := (List.append_eq_nil_iff.mp (List.append_eq_nil_iff.mp h).1).2
    exact absurd (length_unitsOf_pos hps) (by simp [hempty])
  | cons c cs ih =>
    cases xs with
    | nil =>
      obtain ⟨b, hb, rfl⟩ := unitsOf_prefix h
      exact ⟨[], b, hb, rfl, rfl⟩
    | cons x xs =>
      rw [unitsOf_cons] at h
      obtain ⟨u, hu, -⟩ | ⟨u, v, huv, -, hlow, -⟩ := unitsOfChar_cases c
      · rw [hu] at h
        obtain ⟨rfl, hrest⟩ := List.cons.inj h
        obtain ⟨a, b, rfl, rfl, rfl⟩ := ih hrest
        exact ⟨c :: a, b, rfl, by rw [unitsOf_cons, hu]; rfl, rfl⟩
      · rw [huv] at h
        obtain ⟨rfl, hrest⟩ := List.cons.inj h
        cases xs with
        | nil =>
          -- No character starts between the units of a pair.
          obtain ⟨p, ps, rfl⟩ := List.exists_cons_of_ne_nil hps
          obtain ⟨w, ws, hw, hlow'⟩ := unitsOfChar_eq_cons p
          rw [unitsOf_cons, hw] at hrest
          obtain ⟨rfl, -⟩ := List.cons.inj hrest
          cases hlow.symm.trans hlow'
        | cons x' xs =>
          obtain ⟨rfl, hrest'⟩ := List.cons.inj hrest
          obtain ⟨a, b, rfl, rfl, rfl⟩ := ih hrest'
          exact ⟨c :: a, b, rfl, by rw [unitsOf_cons, huv]; rfl, rfl⟩

end Characters
end EcmaScript.Text
