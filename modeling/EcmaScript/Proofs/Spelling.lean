import EcmaScript.Number.Text
import EcmaScript.Proofs.Whole
import EcmaScript.Value.Basic

/-! How keys are spelled. The digits of an index stand for that index and for no other, so each string is
the spelling of one key. -/
namespace EcmaScript

namespace Number
variable {n : Nat} {c : Char} {cs : List Char}

theorem digitChar_digit (h : c.isDigit = true) : c.toNat - 48 < 10 ∧ Nat.digitChar (c.toNat - 48) = c := by
  have hrange : 48 ≤ c.toNat ∧ c.toNat ≤ 57 := by
    simpa [Char.isDigit, UInt32.le_iff_toNat_le] using h
  refine ⟨by omega, Char.toNat_inj.mp ?_⟩
  rw [Nat.toNat_digitChar_of_lt_ten (by omega)]
  omega

theorem toDigits_digit (h : c.isDigit = true) (hn : 0 < n) :
    Nat.toDigits 10 (n * 10 + (c.toNat - 48)) = Nat.toDigits 10 n ++ [c] := by
  obtain ⟨hlt, hdigit⟩ := digitChar_digit h
  rw [Nat.mul_comm, ← Nat.toDigits_append_toDigits (by decide) hn hlt, Nat.toDigits_of_lt_base hlt, hdigit]

theorem toDigits_foldl (hdigits : cs.all Char.isDigit = true) (hn : 0 < n) :
    Nat.toDigits 10 (cs.foldl (fun n c => n * 10 + (c.toNat - 48)) n) = Nat.toDigits 10 n ++ cs := by
  induction cs generalizing n with
  | nil => simp
  | cons c rest ih =>
    obtain ⟨hdigit, hrest⟩ := Bool.and_eq_true_iff.mp hdigits
    rw [List.foldl_cons, ih hrest (by omega), toDigits_digit hdigit hn]
    simp

theorem toDigits_natOfDigits (hdigits : cs.all Char.isDigit = true) (hsome : cs ≠ [])
    (hzero : cs.length = 1 ∨ cs.head? ≠ some '0') : Nat.toDigits 10 (natOfDigits cs) = cs := by
  cases cs with
  | nil => exact absurd rfl hsome
  | cons c rest =>
    obtain ⟨hdigit, hrest⟩ := Bool.and_eq_true_iff.mp hdigits
    obtain ⟨hlt, hchar⟩ := digitChar_digit hdigit
    have hfirst : Nat.toDigits 10 (c.toNat - 48) = [c] := by rw [Nat.toDigits_of_lt_base hlt, hchar]
    rw [natOfDigits, List.foldl_cons, Nat.zero_mul, Nat.zero_add]
    by_cases hpos : 0 < c.toNat - 48
    · rw [toDigits_foldl hrest hpos, hfirst, List.singleton_append]
    · -- The number is zero.
      obtain rfl : c = '0' := by
        rw [← hchar, Nat.eq_zero_of_not_pos hpos]
        rfl
      obtain rfl : rest = [] := by simpa using hzero
      exact hfirst

theorem natOfDigits_toDigits : natOfDigits (Nat.toDigits 10 n) = n := by
  have hstep : (fun n (c : Char) => n * 10 + (c.toNat - 48)) =
      fun n (c : Char) => 10 * n + (c.toNat - '0'.toNat) := by
    funext n c
    rw [Nat.mul_comm]
    rfl
  rw [natOfDigits, hstep]
  exact Nat.ofDigitChars_toDigits (by decide) (by decide)

theorem natText_injective : Function.Injective natText := fun n m h => by
  have hdigits : Nat.toDigits 10 n = Nat.toDigits 10 m := String.ofList_injective h
  rw [← natOfDigits_toDigits (n := n), hdigits, natOfDigits_toDigits]

theorem head_toDigits (hn : 0 < n) : (Nat.toDigits 10 n).head? ≠ some '0' := by
  induction n using Nat.strongRecOn with
  | ind n ih =>
    by_cases hlt : n < 10
    · rw [Nat.toDigits_of_lt_base hlt]
      intro hzero
      have hchar : Nat.digitChar n = '0' := Option.some.inj hzero
      have hvalue := Nat.toNat_digitChar_of_lt_ten hlt
      rw [hchar] at hvalue
      simp at hvalue
      omega
    · have hrest := ih (n / 10) (by omega) (by omega)
      obtain ⟨first, rest, hdigits⟩ := List.exists_cons_of_ne_nil (Nat.toDigits_ne_nil (n := n / 10) (b := 10))
      rw [hdigits] at hrest
      rw [Nat.toDigits_of_base_le (by decide) (by omega), hdigits, List.cons_append]
      exact hrest

end Number

namespace PropertyKey
variable {n : ArrayIndex} {name : String} {key : PropertyKey}

theorem index?_natText : index? (Number.natText n.val) = some n := by
  have hlength : (Nat.toDigits 10 n.val).length ≤ 10 :=
    (Nat.length_toDigits_le_iff (by decide) (by decide)).mpr (Nat.lt_trans n.isLt (by decide))
  have hdigits : (Nat.toDigits 10 n.val).all Char.isDigit = true :=
    List.all_eq_true.mpr fun c hc => Nat.isDigit_of_mem_toDigits (by decide) (by decide) hc
  have hzero : (decide (1 < (Nat.toDigits 10 n.val).length) && (Nat.toDigits 10 n.val).head? == some '0')
      = false := by
    by_cases hn : n.val = 0
    · rw [hn]
      rfl
    · simp [Number.head_toDigits (Nat.pos_of_ne_zero hn)]
  simp [index?, Number.natText, hdigits, hzero, Nat.not_lt.mpr hlength, Number.natOfDigits_toDigits,
    Nat.toDigits_ne_nil]

theorem natText_of_index? (h : index? name = some n) : Number.natText n.val = name := by
  unfold index? at h
  dsimp only at h
  split at h
  · cases h
  · rename_i hshape
    split at h
    · obtain rfl := Option.some.inj h
      simp only [Bool.or_eq_true, not_or, Bool.not_eq_true, Bool.and_eq_false_iff, Bool.not_eq_false',
        List.isEmpty_eq_false_iff, decide_eq_false_iff_not] at hshape
      obtain ⟨⟨⟨hsome, -⟩, hzero⟩, hdigits⟩ := hshape
      have hlength : 0 < name.toList.length := List.length_pos_iff.mpr hsome
      rw [Number.natText, Number.toDigits_natOfDigits hdigits hsome, String.ofList_toList]
      rcases hzero with hshort | hhead
      · exact .inl (by omega)
      · exact .inr fun hhead' => by simp [hhead'] at hhead
    · cases h

theorem index?_eq_some_iff : index? name = some n ↔ Number.natText n.val = name :=
  ⟨natText_of_index?, fun h => h ▸ index?_natText⟩

theorem ofString_eq_index_iff : ofString name = .index n ↔ Number.natText n.val = name := by
  rw [← index?_eq_some_iff, ofString]
  cases index? name <;> simp

theorem ofString_eq_name_iff : ofString name = .name name ↔ index? name = none := by
  rw [ofString]
  cases index? name <;> simp

theorem string?_ofNat (k : Nat) : (ofNat k).string? = some (Number.natText k) := by
  unfold ofNat
  split <;> rfl

theorem map_index?_eq_some_iff {k : Nat} :
    (index? name).map Fin.val = some k ↔ k < indexLimit ∧ (ofNat k).string? = some name := by
  rw [string?_ofNat, Option.some_inj, Option.map_eq_some_iff]
  constructor
  · rintro ⟨n, hn, rfl⟩
    exact ⟨n.isLt, natText_of_index? hn⟩
  · rintro ⟨hk, rfl⟩
    exact ⟨_, index?_natText (n := ⟨k, hk⟩), rfl⟩

theorem ofString_natText (k : Nat) : ofString (Number.natText k) = ofNat k := by
  rw [ofNat]
  split
  · exact (ofString_eq_index_iff).mpr rfl
  · next hk =>
    refine (ofString_eq_name_iff).mpr (Option.eq_none_iff_forall_ne_some.mpr fun n hn => hk ?_)
    rw [← Number.natText_injective (natText_of_index? hn)]
    exact n.isLt

theorem string?_ofString : (ofString name).string? = some name := by
  unfold ofString
  split
  · exact congrArg some (natText_of_index? ‹_›)
  · rfl

/-- The indices are canonical. A string is read as `k` exactly if `k` is below the limit and the string is the
one that its key is spelled with, so each index has one string, and what spells no number below the limit
stays a name. -/
theorem canonical_indices :
    (∀ (s : String) (k : Nat),
      (index? s).map Fin.val = some k ↔ k < 2 ^ 32 - 1 ∧ (ofNat k).string? = some s) ∧
    (∀ k : Nat, ofString (Number.natText k) = ofNat k) ∧
    (∀ n : ArrayIndex, ∃! s, ofString s = .index n) ∧
    ∀ s : String, ofString s = .name s ↔ ¬ ∃ k < 2 ^ 32 - 1, (ofNat k).string? = some s := by
  refine ⟨fun s k => map_index?_eq_some_iff, ofString_natText, fun n => ?_, fun s => ?_⟩
  · exact ⟨Number.natText n.val, (ofString_eq_index_iff).mpr rfl, fun s hs => ((ofString_eq_index_iff).mp hs).symm⟩
  · have hread : (index? s).map Fin.val = none ↔ ∀ k, ¬(k < 2 ^ 32 - 1 ∧ (ofNat k).string? = some s) := by
      rw [Option.eq_none_iff_forall_ne_some]
      exact forall_congr' fun k => not_congr map_index?_eq_some_iff
    rw [ofString_eq_name_iff, ← Option.map_eq_none_iff, hread, not_exists]

def Spelled (key : PropertyKey) : Prop := ∀ text, key = .name text → index? text = none

theorem Spelled.eq_ofString (h : key.Spelled) (hname : key.string? = some name) : key = ofString name := by
  cases key with
  | index n =>
    obtain rfl : Number.natText n.val = name := Option.some.inj hname
    rw [ofString, index?_natText]
  | name text =>
    obtain rfl : text = name := Option.some.inj hname
    rw [ofString, h text rfl]
  | symbol => cases hname

end PropertyKey
end EcmaScript

/-! How integers are written: by their decimal digits, as long as every integer near them is a number. -/
namespace EcmaScript.Number
open Float.Model Float.Model.UnpackedFloat Binary64

variable {x : Float} {t : Int} {n d k : Nat}

def intText (t : Int) : String := if t < 0 then "-" ++ natText t.natAbs else natText t.natAbs

theorem isWhole_ofInt (h : t.natAbs < 2 ^ 53) : IsWhole (Float.ofInt t) t := by
  cases t with
  | ofNat n => exact isWhole_ofNat h
  | negSucc n => exact (isWhole_ofNat h).neg

namespace IsWhole

theorem isNaN_eq (h : IsWhole x t) : x.isNaN = false := by
  have hwhole : ∀ {u : UnpackedFloat}, Represents u t → u.isNaN = false := fun h => by cases h <;> rfl
  exact hwhole h

theorem isInf_eq (h : IsWhole x t) : x.isInf = false := by
  have hwhole : ∀ {u : UnpackedFloat}, Represents u t → u.isInf = false := fun h => by cases h <;> rfl
  exact hwhole h

theorem beq_trunc (h : IsWhole x t) : (trunc x == x) = true := by
  rcases small_or_large x.toModel.toBits.toBitVec with hnan | ⟨u, hsmall⟩ | ⟨s, hlarge⟩
  · have hx : x.toModel.unpack = .notANumber := hnan
    rw [IsWhole, hx] at h
    cases h
  · have hu : u = t := (hsmall.toInt_eq 0 0).symm.trans (Represents.toInt_eq h 0 0)
    exact ((isWhole_trunc hsmall).beq_iff h).mpr hu
  · rw [trunc_of_large hlarge]
    exact (h.beq_iff h).mpr rfl

theorem lt_safe (h : IsWhole x t) : x < 9007199254740992.0 := by
  have hunpack : (9007199254740992.0 : Float).toModel.unpack =
    .finite .positive (2 ^ 52) 1 (Nat.two_pow_pos 52) := rfl
  rw [lt_iff_compare, hunpack]
  rw [IsWhole] at h
  generalize x.toModel.unpack = u at h
  cases h with
  | zero => rfl
  | @finite s m hpos hm =>
    have hexp : compare (-(gap m : Int)) 1 = .lt := compare_lt_iff_lt.mpr (by omega)
    cases s <;> simp [UnpackedFloat.compare, hexp]

end IsWhole

theorem natText_zeros (hd : 0 < d) : natText d ++ zeros k = natText (d * 10 ^ k) := by
  induction k with
  | zero => simp [zeros]
  | succ k ih =>
    have hdigit := toDigits_digit (n := d * 10 ^ k) (c := '0') rfl (Nat.mul_pos hd (Nat.pow_pos (by decide)))
    have hzeros : zeros (k + 1) = zeros k ++ "0" := by
      rw [← String.toList_inj]
      simp [zeros, List.replicate_succ']
    rw [hzeros, ← String.append_assoc, ih, natText, natText, ← String.toList_inj, Nat.pow_succ, ← Nat.mul_assoc]
    simpa using hdigit.symm

theorem strip_eq {fuel : Nat} {e : Int} (hn : 0 < n) :
    ∃ d k : Nat, Decimal.strip fuel ⟨n, e⟩ = ⟨d, e + k⟩ ∧ n = d * 10 ^ k := by
  induction fuel generalizing n e with
  | zero => exact ⟨n, 0, by simp [Decimal.strip], by simp⟩
  | succ fuel ih =>
    rw [Decimal.strip]
    dsimp only
    split
    · next h =>
      obtain ⟨d, k, hstrip, hd⟩ := ih (n := n / 10) (e := e + 1) (by omega)
      refine ⟨d, k + 1, ?_, ?_⟩
      · rw [hstrip]
        congr 1
        omega
      · rw [Nat.pow_succ, ← Nat.mul_assoc, ← hd]
        omega
    · exact ⟨n, 0, by simp, by simp⟩

theorem positiveText_whole (h : IsWhole x n) (hn : 0 < n) : positiveText x = natText n := by
  have hshortest : shortest x = Decimal.strip 16 ⟨n, 0⟩ := by
    have hnat : x.toUInt64.toNat = n := h.toNat_eq
    rw [shortest, hnat, if_pos (by simp [h.lt_safe, h.beq_trunc])]
  obtain ⟨d, k, hstrip, rfl⟩ : ∃ d k : Nat, Decimal.strip 16 ⟨n, 0⟩ = ⟨d, 0 + k⟩ ∧ n = d * 10 ^ k := strip_eq hn
  have hd : 0 < d := Nat.pos_of_mul_pos_right hn
  have hdigits : digitCount d + k = digitCount (d * 10 ^ k) := by
    have htext := congrArg String.length (natText_zeros (k := k) hd)
    simpa [natText, zeros, digitCount] using htext
  have hshort : digitCount (d * 10 ^ k) ≤ 16 := by
    have hlt := Represents.natAbs_lt h
    exact (Nat.length_toDigits_le_iff (by decide) (by decide)).mpr (by omega)
  have hpoint : positionalText d (digitCount d + (0 + k : Int)) = natText d ++ zeros k := by
    have hlength : (natText d).length = digitCount d := by simp [natText, digitCount]
    rw [positionalText, hlength]
    rw [if_pos (by omega)]
    congr 2
    omega
  rw [positiveText, hshortest, hstrip]
  dsimp only
  rw [if_pos (by omega), hpoint, natText_zeros hd]

theorem text_whole (h : IsWhole x t) : text x = intText t := by
  have hzero : (x == 0.0) = true ↔ t = 0 := h.beq_iff isWhole_zero
  have hneg : x < 0.0 ↔ t < 0 := h.lt_iff isWhole_zero
  rw [text, h.isNaN_eq, h.isInf_eq, if_neg Bool.false_ne_true, if_neg Bool.false_ne_true, intText]
  split
  · next h0 =>
    rw [hzero.mp h0]
    rfl
  · next h0 =>
    have ht : t ≠ 0 := fun heq => h0 (hzero.mpr heq)
    split
    · next hlt =>
      have ht' := hneg.mp hlt
      have hminus : IsWhole (-x) t.natAbs := by
        rw [show (t.natAbs : Int) = -t by omega]
        exact h.neg
      rw [if_pos ht', positiveText_whole hminus (by omega)]
    · next hlt =>
      have ht' : ¬ t < 0 := fun ht' => hlt (hneg.mpr ht')
      have hplus : IsWhole x t.natAbs := by rwa [show (t.natAbs : Int) = t by omega]
      rw [if_neg ht', positiveText_whole hplus (by omega)]

end EcmaScript.Number
