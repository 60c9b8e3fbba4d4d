import EcmaScript.Value.Basic
import Mathlib

/-! Natural numbers below `2 ^ 53` are exact as numbers of the language. -/
namespace EcmaScript.Binary64
open Float.Model Float.Model.UnpackedFloat

abbrev format : Format := .binary64

theorem log2_mul_pow {a : Nat} (ha : 0 < a) (j : Nat) : (a * 2 ^ j).log2 = a.log2 + j := by
  have hpow := Nat.two_pow_pos j
  have h := (Nat.log2_eq_iff (n := a) (k := a.log2) (Nat.pos_iff_ne_zero.mp ha)).mp rfl
  rw [Nat.log2_eq_iff (Nat.pos_iff_ne_zero.mp (Nat.mul_pos ha hpow)), Nat.pow_add,
    Nat.add_right_comm, Nat.pow_add 2 (a.log2 + 1)]
  exact ⟨Nat.mul_le_mul_right _ h.1, Nat.mul_lt_mul_of_pos_right h.2 hpow⟩

theorem shiftRight_mul_pow (a j : Nat) :
    (⟨a * 2 ^ j, false, false⟩ : ExtendedMantissa) >>> j = ⟨a, false, false⟩ := by
  show j.repeat ExtendedMantissa.shiftRightOne _ = _
  induction j generalizing a with
  | zero => simp [Nat.repeat]
  | succ j ih =>
    rw [Nat.repeat, show a * 2 ^ (j + 1) = a * 2 * 2 ^ j by ring, ih]
    simp [ExtendedMantissa.shiftRightOne]

theorem shiftToExponent_mul_pow (a j : Nat) (e : Int) :
    shiftToExponent (a * 2 ^ j) e .exact (e + j) = (⟨a, false, false⟩, e + j) := by
  simp [shiftToExponent, ExtendedMantissa.ofMantissaAndAccuracy, shiftRight_mul_pow]

theorem roundWithAccuracy_mul_pow {a : Nat} (ha : a.log2 = 52) (hpos : 0 < a) (j : Nat) {e : Int}
    (he : -1074 ≤ e + j) (s : Sign) :
    roundWithAccuracy format s (a * 2 ^ j) e .exact = .finite s a (e + j) hpos := by
  have htarget (j : Nat) {e : Int} (he : -1074 ≤ e + j) :
      format.targetExponent (totalExponent (a * 2 ^ j) e) = e + j := by
    rw [totalExponent, log2_mul_pow hpos, ha, Format.targetExponent, Format.minExponent,
      Format.mantissaBits]
    simp only [Nat.cast_add, Nat.cast_ofNat]
    omega
  have hshift (j : Nat) {e : Int} (he : -1074 ≤ e + j) :
      shiftToTargetExponent format (a * 2 ^ j) e .exact = (⟨a, false, false⟩, e + j) := by
    rw [shiftToTargetExponent, htarget j he, shiftToExponent_mul_pow]
  have hagain : shiftToTargetExponent format a (e + j) .exact = (⟨a, false, false⟩, e + j) := by
    simpa using hshift 0 (e := e + j) (by simpa using he)
  simp [roundWithAccuracy, hshift j he, ExtendedMantissa.roundedMantissa,
    ExtendedMantissa.accuracy, Accuracy.roundToNearestEven, hagain, Nat.pos_iff_ne_zero.mp hpos]

theorem unpackSign_packComponents {spec : Format} {s : Sign} {e : BitVec spec.exponentBits}
    {a : BitVec spec.mantissaBitsWithoutImplicit} :
    unpackSign (packComponents spec s e a) = s.toBitVec := by
  ext i hi
  have : ¬ spec.mantissaBitsWithoutImplicit + spec.exponentBits + i <
      spec.mantissaBitsWithoutImplicit := by omega
  have : spec.mantissaBitsWithoutImplicit + spec.exponentBits + i -
      spec.mantissaBitsWithoutImplicit = spec.exponentBits + i := by omega
  simp [unpackSign, packComponents, BitVec.getLsbD_eq_getElem, BitVec.getLsbD_append, *]

/-- A number with a mantissa of the right size and an exponent that is not too big is the same after
it has been packed. -/
theorem unpack_pack_finite {a : Nat} (ha : a.log2 = 52) (hpos : 0 < a) {e : Int} (hlow : -1074 ≤ e)
    (hhigh : e < 971) (s : Sign) :
    UnpackedFloat.unpack format (UnpackedFloat.pack format (.finite s a e hpos)) =
      .finite s a e hpos := by
  have hlt : 2 ^ 52 ≤ a ∧ a < 2 ^ 53 := (Nat.log2_eq_iff (Nat.pos_iff_ne_zero.mp hpos)).mp ha
  have hexp : (e + (format.exponentBias : Int) + (format.mantissaBitsWithoutImplicit : Int)).toNat =
      (e + 1075).toNat := by
    simp [Format.exponentBias]
    omega
  have hsign : Sign.ofBitVec s.toBitVec = s := by cases s <;> rfl
  have hbits : (BitVec.ofNat 11 (e + 1075).toNat).toNat = (e + 1075).toNat :=
    Nat.mod_eq_of_lt (by omega)
  have hones : BitVec.ofNat 11 (e + 1075).toNat ≠ -1#11 := by
    intro h
    have := congrArg BitVec.toNat h
    rw [hbits] at this
    simp at this
    omega
  have hzero : BitVec.ofNat 11 (e + 1075).toNat ≠ 0#11 := by
    intro h
    have := congrArg BitVec.toNat h
    rw [hbits] at this
    simp at this
    omega
  have hmantissa : (1#1 ++ BitVec.ofNat 52 a).toNat = a := by
    have hrest : (BitVec.ofNat 52 a).toNat = a - 2 ^ 52 := by
      rw [BitVec.toNat_ofNat]
      omega
    rw [BitVec.toNat_append, hrest, ← Nat.shiftLeft_add_eq_or_of_lt (by omega)]
    simp [Nat.shiftLeft_eq]
    omega
  rw [UnpackedFloat.pack]
  simp only [hexp]
  rw [if_neg (by simp; omega), if_pos (by simp [ha, Format.mantissaBits])]
  simp only [UnpackedFloat.unpack, unpackExponent_packComponents, unpackMantissa_packComponents,
    unpackSign_packComponents]
  rw [if_neg hones, if_neg hzero]
  simp only [hsign, UnpackedFloat.finite.injEq, true_and]
  refine ⟨hmantissa, ?_⟩
  rw [show (BitVec.ofNat format.exponentBits (e + 1075).toNat).toNat = (e + 1075).toNat from hbits]
  simp [Format.exponentBias]
  omega

section Whole
variable {n : Nat}

def gap (n : Nat) : Nat := 52 - n.log2

theorem log2_scaled (hpos : 0 < n) (hn : n < 2 ^ 53) : (n * 2 ^ gap n).log2 = 52 := by
  have hle : n.log2 < 53 := (Nat.log2_lt (Nat.pos_iff_ne_zero.mp hpos)).mpr hn
  rw [log2_mul_pow hpos, gap]
  omega

theorem scaled_pos (hpos : 0 < n) : 0 < n * 2 ^ gap n := Nat.mul_pos hpos (Nat.two_pow_pos _)

theorem unpackedOfNat (hpos : 0 < n) (hn : n < 2 ^ 53) : UnpackedFloat.ofNat format n =
    .finite .positive (n * 2 ^ gap n) (-(gap n : Int)) (scaled_pos hpos) := by
  have hle : n.log2 < 53 := (Nat.log2_lt (Nat.pos_iff_ne_zero.mp hpos)).mpr hn
  have htarget : format.targetExponent (totalExponent n 0) = -(gap n : Int) := by
    rw [totalExponent, Format.targetExponent, Format.minExponent, Format.mantissaBits, gap]
    simp only [Nat.cast_add, Nat.cast_ofNat]
    omega
  have hround := roundWithAccuracy_mul_pow (log2_scaled hpos hn) (scaled_pos hpos) 0
    (e := -(gap n : Int)) (by unfold gap; omega) .positive
  have hcompare : compare (n : Int) 0 = .gt := by
    rw [compare_gt_iff_gt]
    omega
  simp only [UnpackedFloat.ofNat, UnpackedFloat.ofInt, UnpackedFloat.normalize, hcompare, Int.toNat_natCast,
    UnpackedFloat.round, htarget, decreaseExponent, Nat.shiftLeft_eq]
  simpa using hround

theorem unpack_pack_scaled (hpos : 0 < n) (hn : n < 2 ^ 53) :
    UnpackedFloat.unpack format (UnpackedFloat.pack format
      (.finite .positive (n * 2 ^ gap n) (-(gap n : Int)) (scaled_pos hpos))) =
      .finite .positive (n * 2 ^ gap n) (-(gap n : Int)) (scaled_pos hpos) :=
  unpack_pack_finite (log2_scaled hpos hn) _ (by unfold gap; omega) (by omega) _

theorem unpack_ofNat (hpos : 0 < n) (hn : n < 2 ^ 53) : (Float.ofNat n).toModel.unpack =
    .finite .positive (n * 2 ^ gap n) (-(gap n : Int)) (scaled_pos hpos) := by
  have hmul : Float.ofNat n = n.toUInt64.toFloat * Float.ofBits 0x3FF0000000000000 := by
    have hlt : n < 2 ^ 53 ∧ 0 ≤ 22 := ⟨hn, by omega⟩
    simp only [Float.ofNat, OfScientific.ofScientific, Float.ofScientific, dif_pos hlt]
    rfl
  have hone : (Float.ofBits 0x3FF0000000000000).toModel.unpack =
      .finite .positive (2 ^ 52) (-52) (by decide) := by rfl
  have hmodel : (Float.ofNat n).toModel = Float.Model.pack (UnpackedFloat.mul format
      (Float.Model.ofUInt64 n.toUInt64).unpack (Float.ofBits 0x3FF0000000000000).toModel.unpack) := by
    rw [hmul]
    rfl
  have hto : n.toUInt64.toNat = n := Nat.mod_eq_of_lt (by omega)
  have hleft : (Float.Model.ofUInt64 n.toUInt64).unpack =
      .finite .positive (n * 2 ^ gap n) (-(gap n : Int)) (scaled_pos hpos) := by
    rw [Float.Model.ofUInt64, UnpackedFloat.ofUInt64, hto, unpackedOfNat hpos hn]
    exact unpack_pack_scaled hpos hn
  have hround := roundWithAccuracy_mul_pow (log2_scaled hpos hn) (scaled_pos hpos) 52
    (e := -(gap n : Int) + -52) (by unfold gap; omega) .positive
  rw [hmodel, hleft, hone, UnpackedFloat.mul]
  have hexp : -(gap n : Int) + -52 + (52 : Nat) = -(gap n : Int) := by omega
  have hsign : Sign.positive * Sign.positive = Sign.positive := rfl
  simp only [hexp] at hround
  rw [hsign, hround]
  exact unpack_pack_scaled hpos hn

theorem toUInt32_ofNat (hn : n < 2 ^ 32) : (Float.ofNat n).toUInt32.toNat = n := by
  rcases Nat.eq_zero_or_pos n with rfl | hpos
  · rfl
  have hunpack : (Float.ofNat n).toUInt32 = UnpackedFloat.toUInt32 (Float.ofNat n).toModel.unpack := rfl
  have hround : roundToInt .positive (n * 2 ^ gap n) (-(gap n : Int)) = n := by
    have hshift := shiftToExponent_mul_pow n (gap n) (-(gap n : Int))
    rw [show -(gap n : Int) + gap n = 0 by omega] at hshift
    have hdecrease : decreaseExponent (n * 2 ^ gap n) (-(gap n : Int)) 0 =
        (n * 2 ^ gap n, -(gap n : Int)) := by simp [decreaseExponent]
    rw [roundToInt, hdecrease]
    simp [hshift, Sign.apply]
  rw [hunpack, unpack_ofNat hpos (by omega), UnpackedFloat.toUInt32, UnpackedFloat.toInt, hround]
  rw [Int.toNat_natCast, UInt32.ofNatClamp, dif_pos (c := n < UInt32.size) hn]
  simp

end Whole

section Bits
variable {b b' : BitVec format.numBits}

theorem toNat_unpackMantissa : (@unpackMantissa format b).toNat = b.toNat % 2 ^ 52 := by
  simp [unpackMantissa]

theorem toNat_unpackExponent :
    (@unpackExponent format b).toNat = b.toNat / 2 ^ 52 % 2 ^ 11 := by
  simp [unpackExponent, Nat.shiftRight_eq_div_pow]

theorem toNat_unpackSign : (@unpackSign format b).toNat = b.toNat / 2 ^ 63 := by
  have : b.toNat < 2 ^ 64 := b.isLt
  simp [unpackSign, Nat.shiftRight_eq_div_pow]
  omega

theorem eq_of_components (hs : @unpackSign format b = unpackSign b')
    (he : @unpackExponent format b = unpackExponent b')
    (hm : @unpackMantissa format b = unpackMantissa b') : b = b' := by
  have hs := congrArg BitVec.toNat hs
  have he := congrArg BitVec.toNat he
  have hm := congrArg BitVec.toNat hm
  rw [toNat_unpackSign, toNat_unpackSign] at hs
  rw [toNat_unpackExponent, toNat_unpackExponent] at he
  rw [toNat_unpackMantissa, toNat_unpackMantissa] at hm
  refine BitVec.eq_of_toNat_eq ?_
  omega

/-- What a number shows of its bits. -/
def Shows (E M : Nat) : UnpackedFloat → Prop
  | .infinity _ => E = 2047 ∧ M = 0
  | .zero _ => E = 0 ∧ M = 0
  | .finite _ m e _ => E = 0 ∧ m = M ∧ e = -1074 ∨ E ≠ 0 ∧ m = 2 ^ 52 + M ∧ e = E - 1075
  | .notANumber => True

theorem unpack_shows : Shows (@unpackExponent format b).toNat
    (@unpackMantissa format b).toNat (UnpackedFloat.unpack format b) := by
  unfold UnpackedFloat.unpack
  dsimp only
  split
  · rename_i he
    split
    · rename_i hm
      exact ⟨by rw [he]; rfl, by rw [hm]; rfl⟩
    · trivial
  · split
    · rename_i he
      split
      · rename_i hm
        exact ⟨by rw [he]; rfl, by rw [hm]; rfl⟩
      · exact .inl ⟨by rw [he]; rfl, rfl, by rw [he]; rfl⟩
    · rename_i he
      refine .inr ⟨fun h => he (BitVec.eq_of_toNat_eq h), ?_, ?_⟩
      · have hlt : (@unpackMantissa format b).toNat < 2 ^ 52 := BitVec.isLt _
        rw [BitVec.toNat_append, ← Nat.shiftLeft_add_eq_or_of_lt hlt]
        rfl
      · simp [Format.exponentBias]

theorem eq_of_compare (hs : @unpackSign format b = unpackSign b')
    (h : UnpackedFloat.compare (UnpackedFloat.unpack format b) (UnpackedFloat.unpack format b') =
      some .eq) : b = b' := by
  have hb := unpack_shows (b := b)
  have hb' := unpack_shows (b := b')
  have hM : (@unpackMantissa format b).toNat < 2 ^ 52 := BitVec.isLt _
  have hM' : (@unpackMantissa format b').toNat < 2 ^ 52 := BitVec.isLt _
  suffices heq : (@unpackExponent format b).toNat = (unpackExponent b').toNat ∧
      (@unpackMantissa format b).toNat = (unpackMantissa b').toNat from
    eq_of_components hs (BitVec.eq_of_toNat_eq heq.1) (BitVec.eq_of_toNat_eq heq.2)
  generalize (@unpackExponent format b).toNat = E at *
  generalize (@unpackExponent format b').toNat = E' at *
  generalize (@unpackMantissa format b).toNat = M at *
  generalize (@unpackMantissa format b').toNat = M' at *
  generalize UnpackedFloat.unpack format b = x at *
  generalize UnpackedFloat.unpack format b' = x' at *
  have hthen {e e' : Int} {m m' : Nat} :
      (compare e e').then (compare m m') = .eq ↔ e = e' ∧ m = m' := by
    rw [Ordering.then_eq_eq, compare_eq_iff_eq, compare_eq_iff_eq]
  unfold UnpackedFloat.compare at h
  split at h <;> simp_all only [Shows, Option.some.injEq, reduceCtorEq, Ordering.swap_eq_eq,
    and_self]
  all_goals omega

theorem compare_self {x : UnpackedFloat} (hx : x.isNaN = false) : x.compare x = some .eq := by
  have hsign (s : Sign) : compare s s = .eq := by cases s <;> rfl
  cases x with
  | notANumber => cases hx
  | infinity s => simp [UnpackedFloat.compare, hsign]
  | zero s => rfl
  | finite s m e h => cases s <;> simp [UnpackedFloat.compare]

theorem eq_packedNaN (hb : format.Valid b) (h : (UnpackedFloat.unpack format b).isNaN = true) :
    b = packedNaN format := by
  unfold UnpackedFloat.unpack at h
  dsimp only at h
  split at h
  · split at h
    · cases h
    · exact hb.eq_packedNaN ‹_› ‹_›
  · split at h
    · split at h <;> cases h
    · cases h

end Bits

end EcmaScript.Binary64

namespace EcmaScript

theorem Number.same_iff {x y : Float} : Number.same x y = true ↔ x = y := by
  have heq (h : x.toModel.toBits.toBitVec = y.toModel.toBits.toBitVec) : x = y := by
    obtain ⟨⟨⟨bx⟩, hx⟩⟩ := x
    obtain ⟨⟨⟨bY⟩, hy⟩⟩ := y
    cases h
    rfl
  unfold same
  constructor
  · intro h
    split at h
    · rename_i hnan
      rw [Bool.and_eq_true] at hnan
      exact heq ((Binary64.eq_packedNaN x.toModel.valid hnan.1).trans
        (Binary64.eq_packedNaN y.toModel.valid hnan.2).symm)
    · rw [Bool.and_eq_true] at h
      have hcompare : x.toModel.unpack.compare y.toModel.unpack = some .eq := eq_of_beq h.1
      refine heq (Binary64.eq_of_compare (BitVec.eq_of_toNat_eq ?_) hcompare)
      rw [Binary64.toNat_unpackSign, Binary64.toNat_unpackSign]
      have hnegative (x : Float) :
          isNegative x = decide (x.toModel.toBits.toBitVec.toNat / 2 ^ 63 = 1) := by
        have hshift : (x.toModel.toBits >>> 63).toNat = x.toModel.toBits.toNat / 2 ^ 63 := by
          simp [UInt64.toNat_shiftRight, Nat.shiftRight_eq_div_pow]
        show (x.toModel.toBits >>> 63 == 1) = _
        rw [Bool.eq_iff_iff, beq_iff_eq, decide_eq_true_iff, ← UInt64.toNat_inj, hshift]
        rfl
      have hx : x.toModel.toBits.toBitVec.toNat < 2 ^ 64 := BitVec.isLt _
      have hy : y.toModel.toBits.toBitVec.toNat < 2 ^ 64 := BitVec.isLt _
      have hsign := h.2
      rw [hnegative, hnegative, beq_iff_eq, decide_eq_decide] at hsign
      omega
  · rintro rfl
    split
    · rfl
    · rename_i hnan
      have hcompare := Binary64.compare_self (x := x.toModel.unpack)
        (by rw [Bool.and_self, Bool.not_eq_true] at hnan; exact hnan)
      have hbeq : (x == x) = true := by
        show x.toModel.unpack.beq x.toModel.unpack = true
        rw [Float.Model.UnpackedFloat.beq, hcompare]
        rfl
      rw [hbeq, Bool.true_and, beq_self_eq_true]

theorem Value.same_iff {v v' : Value} : v.same v' = true ↔ v = v' := by
  cases v <;> cases v' <;> simp [same, strictEq, Number.same_iff]

end EcmaScript
