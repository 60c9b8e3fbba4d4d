import EcmaScript.Object.Convert
import EcmaScript.Proofs.Collection.Key

/-! Whole numbers below `2 ^ 53` are added and compared exactly, and every number has a whole part. -/
namespace EcmaScript

namespace Binary64
open Float.Model Float.Model.UnpackedFloat

theorem mantissa_shiftRight (a : ExtendedMantissa) (k : Nat) :
    (a >>> k).mantissa = a.mantissa / 2 ^ k := by
  show (k.repeat ExtendedMantissa.shiftRightOne a).mantissa = _
  induction k with
  | zero => simp [Nat.repeat]
  | succ k ih =>
    rw [Nat.repeat, ExtendedMantissa.shiftRightOne, ih, Nat.div_div_eq_div_mul, Nat.pow_succ]

theorem roundToInt_neg (s : Sign) (m k : Nat) :
    roundToInt s m (-(k : Int)) = s.apply (m / 2 ^ k : Nat) := by
  simp [roundToInt, decreaseExponent, shiftToExponent, mantissa_shiftRight,
    ExtendedMantissa.ofMantissaAndAccuracy]

theorem roundToInt_nat (s : Sign) (m k : Nat) : roundToInt s m k = s.apply (m * 2 ^ k : Nat) := by
  simp [roundToInt, decreaseExponent, shiftToExponent, mantissa_shiftRight,
    ExtendedMantissa.ofMantissaAndAccuracy, Nat.shiftLeft_eq]

theorem apply_mul (s : Sign) (a b : Int) : s.apply (a * b) = s.apply a * b := by
  cases s <;> simp [Sign.apply]

@[simp] theorem natAbs_apply (s : Sign) (n : Nat) : (s.apply n).natAbs = n := by
  cases s <;> simp [Sign.apply]

/-- A number is exactly an integer of less than 54 bits. -/
inductive Represents : UnpackedFloat → Int → Prop where
  | zero (s : Sign) : Represents (.zero s) 0
  | finite (s : Sign) {n : Nat} (hpos : 0 < n) (hn : n < 2 ^ 53) :
    Represents (.finite s (n * 2 ^ gap n) (-(gap n : Int)) (scaled_pos hpos)) (s.apply n)

theorem round_scaled {n : Nat} (hpos : 0 < n) (hn : n < 2 ^ 53) (j : Nat) (s : Sign) :
    UnpackedFloat.round format s (n * 2 ^ j) (-(j : Int)) =
      .finite s (n * 2 ^ gap n) (-(gap n : Int)) (scaled_pos hpos) := by
  have hlog : n.log2 < 53 := (Nat.log2_lt (Nat.pos_iff_ne_zero.mp hpos)).mpr hn
  have htarget : format.targetExponent (totalExponent (n * 2 ^ j) (-(j : Int))) = -(gap n : Int) := by
    rw [totalExponent, log2_mul_pow hpos, Format.targetExponent, Format.minExponent,
      Format.mantissaBits, gap]
    simp only [Nat.cast_add, Nat.cast_ofNat]
    omega
  have hgap : gap n ≤ 52 := Nat.sub_le _ _
  simp only [UnpackedFloat.round, htarget, decreaseExponent, Nat.shiftLeft_eq]
  rcases Nat.le_total j (gap n) with hle | hle
  · have hshift : (-(j : Int) - -(gap n : Int)).toNat = gap n - j := by omega
    have hround := roundWithAccuracy_mul_pow (log2_scaled hpos hn) (scaled_pos hpos) 0
      (e := -(gap n : Int)) (by omega) s
    rw [hshift, Nat.mul_assoc, ← Nat.pow_add, Nat.add_sub_cancel' hle,
      show -(j : Int) - (gap n - j : Nat) = -(gap n : Int) by omega]
    simpa using hround
  · have hshift : (-(j : Int) - -(gap n : Int)).toNat = 0 := by omega
    have hround := roundWithAccuracy_mul_pow (log2_scaled hpos hn) (scaled_pos hpos) (j - gap n)
      (e := -(j : Int)) (by omega) s
    rw [Nat.mul_assoc, ← Nat.pow_add, Nat.add_sub_cancel' hle] at hround
    simp only [hshift, Nat.pow_zero, Nat.mul_one, Nat.cast_zero, Int.sub_zero, hround]
    congr 1
    omega

theorem compare_scaled {n k : Nat} (hn : 0 < n) (hk : 0 < k) (hn' : n < 2 ^ 53) (hk' : k < 2 ^ 53) :
    (compare (-(gap n : Int)) (-(gap k : Int))).then (compare (n * 2 ^ gap n) (k * 2 ^ gap k)) =
      compare n k := by
  have hlt {n k : Nat} (hn : 0 < n) (hk' : k < 2 ^ 53) (h : n < k) :
      (compare (-(gap n : Int)) (-(gap k : Int))).then
        (compare (n * 2 ^ gap n) (k * 2 ^ gap k)) = .lt := by
    have hlog : k.log2 < 53 := (Nat.log2_lt (by omega)).mpr hk'
    have hmono : n.log2 ≤ k.log2 :=
      (Nat.le_log2 (by omega)).mpr ((Nat.log2_self_le (by omega)).trans h.le)
    rw [Ordering.then_eq_lt]
    rcases Nat.lt_or_ge (gap k) (gap n) with hgap | hgap
    · exact .inl (compare_lt_iff_lt.mpr (by omega))
    · have heq : gap n = gap k := by
        unfold gap at *
        omega
      refine .inr ⟨compare_eq_iff_eq.mpr (by rw [heq]), compare_lt_iff_lt.mpr ?_⟩
      rw [heq]
      exact Nat.mul_lt_mul_of_pos_right h (Nat.two_pow_pos _)
  rcases Nat.lt_trichotomy n k with h | rfl | h
  · rw [hlt hn hk' h, compare_lt_iff_lt.mpr h]
  · simp
  · have hswap : (compare (-(gap n : Int)) (-(gap k : Int))).then
        (compare (n * 2 ^ gap n) (k * 2 ^ gap k)) =
        ((compare (-(gap k : Int)) (-(gap n : Int))).then
          (compare (k * 2 ^ gap k) (n * 2 ^ gap n))).swap := by
      rw [Ordering.swap_then, ← Std.OrientedCmp.eq_swap, ← Std.OrientedCmp.eq_swap]
    rw [hswap, hlt hk hn' h, compare_gt_iff_gt.mpr h]
    rfl

namespace Represents
variable {x y : UnpackedFloat} {t u : Int}

theorem natAbs_lt (h : Represents x t) : t.natAbs < 2 ^ 53 := by
  cases h with
  | zero => decide
  | finite s hpos hn => rwa [natAbs_apply]

theorem unpack_pack (h : Represents x t) :
    UnpackedFloat.unpack format (UnpackedFloat.pack format x) = x := by
  cases h with
  | zero s => cases s <;> rfl
  | finite s hpos hn =>
    exact unpack_pack_finite (log2_scaled hpos hn) _ (by unfold gap; omega) (by omega) s

theorem toInt_eq (h : Represents x t) (low high : Int) : x.toInt low high = t := by
  cases h with
  | zero => rfl
  | @finite s n hpos hn =>
    rw [UnpackedFloat.toInt, roundToInt_neg, Nat.mul_div_cancel _ (Nat.two_pow_pos _)]

theorem compare_eq (hx : Represents x t) (hy : Represents y u) :
    x.compare y = some (compare t u) := by
  cases hx with
  | zero s =>
    cases hy with
    | zero => rfl
    | @finite s' k hk hk' =>
      cases s' with
      | negative => exact congrArg some (compare_gt_iff_gt.mpr (show -(k : Int) < 0 by omega)).symm
      | positive => exact congrArg some (compare_lt_iff_lt.mpr (show (0 : Int) < k by omega)).symm
  | @finite s n hn hn' =>
    cases hy with
    | zero =>
      cases s with
      | negative => exact congrArg some (compare_lt_iff_lt.mpr (show -(n : Int) < 0 by omega)).symm
      | positive => exact congrArg some (compare_gt_iff_gt.mpr (show (0 : Int) < n by omega)).symm
    | @finite s' k hk hk' =>
      cases s <;> cases s' <;> simp only [UnpackedFloat.compare, compare_scaled hn hk hn' hk',
        Sign.apply, Option.some.injEq]
      · rw [← Std.OrientedCmp.eq_swap]
        rcases Nat.lt_trichotomy k n with h | rfl | h
        · rw [compare_lt_iff_lt.mpr h, compare_lt_iff_lt.mpr (show -(n : Int) < -k by omega)]
        · simp
        · rw [compare_gt_iff_gt.mpr h, compare_gt_iff_gt.mpr (show -(k : Int) < -n by omega)]
      · exact (compare_lt_iff_lt.mpr (by omega)).symm
      · exact (compare_gt_iff_gt.mpr (by omega)).symm
      · rcases Nat.lt_trichotomy n k with h | rfl | h
        · rw [compare_lt_iff_lt.mpr h, compare_lt_iff_lt.mpr (show (n : Int) < k by omega)]
        · simp
        · rw [compare_gt_iff_gt.mpr h, compare_gt_iff_gt.mpr (show (k : Int) < n by omega)]

theorem normalize {k : Int} (hk : k.natAbs < 2 ^ 53) (j : Nat) (z : Sign) :
    Represents (UnpackedFloat.normalize format (k * (2 ^ j : Nat)) (-(j : Int)) z) k := by
  have hpow : (0 : Int) < (2 ^ j : Nat) := by exact_mod_cast Nat.two_pow_pos j
  rcases Int.lt_trichotomy k 0 with h | rfl | h
  · obtain ⟨n, rfl⟩ : ∃ n : Nat, k = -(n : Int) := ⟨k.natAbs, by omega⟩
    have hpos : 0 < n := by omega
    have hmantissa : (-(-(n : Int) * (2 ^ j : Nat))).toNat = n * 2 ^ j := by
      rw [Int.neg_mul, Int.neg_neg, ← Int.natCast_mul, Int.toNat_natCast]
    rw [UnpackedFloat.normalize, compare_lt_iff_lt.mpr (Int.mul_neg_of_neg_of_pos h hpow)]
    simp only [hmantissa, round_scaled hpos (by omega)]
    exact .finite .negative hpos (by omega)
  · rw [Int.zero_mul]
    exact .zero z
  · obtain ⟨n, rfl⟩ : ∃ n : Nat, k = n := ⟨k.toNat, by omega⟩
    have hpos : 0 < n := by omega
    have hmantissa : ((n : Int) * (2 ^ j : Nat)).toNat = n * 2 ^ j := by
      rw [← Int.natCast_mul, Int.toNat_natCast]
    rw [UnpackedFloat.normalize, compare_gt_iff_gt.mpr (Int.mul_pos h hpow)]
    simp only [hmantissa, round_scaled hpos (by omega)]
    exact .finite .positive hpos (by omega)

theorem add (hx : Represents x t) (hy : Represents y u) (h : (t + u).natAbs < 2 ^ 53) :
    Represents (UnpackedFloat.add format x y) (t + u) := by
  cases hx with
  | zero s =>
    rw [Int.zero_add]
    cases hy with
    | zero s' => cases s <;> cases s' <;> exact .zero _
    | finite s' hk hk' => exact .finite s' hk hk'
  | @finite s n hn hn' =>
    cases hy with
    | zero =>
      rw [Int.add_zero]
      exact .finite s hn hn'
    | @finite s' k hk hk' =>
      have hmin : min (-(gap n : Int)) (-(gap k : Int)) = -(max (gap n) (gap k) : Nat) := by omega
      have hshift (a b : Nat) : a * 2 ^ gap a * 2 ^ (-(gap a : Int) - -((max (gap a) b : Nat) : Int)).toNat =
          a * 2 ^ max (gap a) b := by
        rw [Nat.mul_assoc, ← Nat.pow_add]
        congr 2
        omega
      have hshift' : k * 2 ^ gap k * 2 ^ (-(gap k : Int) - -((max (gap n) (gap k) : Nat) : Int)).toNat =
          k * 2 ^ max (gap n) (gap k) := by
        rw [Nat.max_comm]
        exact hshift k _
      simp only [UnpackedFloat.add, hmin, decreaseExponent, Nat.shiftLeft_eq, hshift, hshift',
        Int.natCast_mul, apply_mul, ← Int.add_mul]
      exact normalize h _ _

theorem neg (h : Represents x t) : Represents x.neg (-t) := by
  cases h with
  | zero s => exact .zero _
  | @finite s n hpos hn =>
    have hsign : -s.apply n = (-s).apply n := by
      cases s
      · exact Int.neg_neg _
      · rfl
    rw [hsign]
    exact .finite (-s) hpos hn

end Represents
end Binary64


namespace Binary64
open Float.Model Float.Model.UnpackedFloat

def limit (s : Sign) : UnpackedFloat := .finite s (2 ^ 52) 0 (Nat.two_pow_pos 52)

/-- A number of so many bits that it has no fraction, or an infinity. -/
inductive Large (s : Sign) : UnpackedFloat → Prop where
  | infinity : Large s (.infinity s)
  | finite {m : Nat} (e : Nat) (hm : 2 ^ 52 ≤ m) (hpos : 0 < m) : Large s (.finite s m e hpos)

/-- A number with a fraction, or a small one. -/
inductive Small : UnpackedFloat → Int → Prop where
  | zero (s : Sign) : Small (.zero s) 0
  | finite (s : Sign) {m : Nat} {e : Nat} (he : 0 < e) (hm : m < 2 ^ 53) (hpos : 0 < m) :
    Small (.finite s m (-(e : Int)) hpos) (s.apply (m / 2 ^ e : Nat))

theorem small_or_large (b : BitVec format.numBits) :
    UnpackedFloat.unpack format b = .notANumber ∨ (∃ t, Small (UnpackedFloat.unpack format b) t) ∨
      ∃ s, Large s (UnpackedFloat.unpack format b) := by
  have hshows := unpack_shows (b := b)
  have hM : (@unpackMantissa format b).toNat < 2 ^ 52 := BitVec.isLt _
  generalize (@unpackMantissa format b).toNat = M at *
  generalize (@unpackExponent format b).toNat = E at *
  cases hx : UnpackedFloat.unpack format b with
  | notANumber => exact .inl rfl
  | infinity s => exact .inr (.inr ⟨s, .infinity⟩)
  | zero s => exact .inr (.inl ⟨0, .zero s⟩)
  | finite s m e hpos =>
    rw [hx] at hshows
    have hm : m < 2 ^ 53 ∧ (0 ≤ e → 2 ^ 52 ≤ m) := by
      rcases hshows with ⟨-, rfl, rfl⟩ | ⟨-, rfl, rfl⟩ <;> omega
    rcases Int.lt_or_le e 0 with he | he
    · obtain ⟨k, rfl⟩ : ∃ k : Nat, e = -(k : Int) := ⟨(-e).toNat, by omega⟩
      exact .inr (.inl ⟨_, .finite s (by omega) hm.1 hpos⟩)
    · obtain ⟨k, rfl⟩ : ∃ k : Nat, e = k := ⟨e.toNat, by omega⟩
      exact .inr (.inr ⟨s, .finite k (hm.2 he) hpos⟩)

namespace Small
variable {x : UnpackedFloat} {t : Int}

theorem natAbs_lt (h : Small x t) : t.natAbs < 2 ^ 52 := by
  cases h with
  | zero => decide
  | @finite s m e he hm hpos =>
    have hdiv : m / 2 ^ e < 2 ^ 52 := by
      rw [Nat.div_lt_iff_lt_mul (Nat.two_pow_pos e)]
      calc m < 2 ^ 52 * 2 ^ 1 := hm
        _ ≤ 2 ^ 52 * 2 ^ e := Nat.mul_le_mul_left _ (Nat.pow_le_pow_right (by omega) he)
    rwa [natAbs_apply]

theorem isNaN_eq (h : Small x t) : x.isNaN = false := by
  cases h <;> rfl

theorem toInt_eq (h : Small x t) (low high : Int) : x.toInt low high = t := by
  cases h with
  | zero => rfl
  | finite s he hm hpos => exact roundToInt_neg s _ _

end Small

namespace Large
variable {x y : UnpackedFloat} {s : Sign} {t : Int}

theorem isNaN_eq (hx : Large s x) : x.isNaN = false := by
  cases hx <;> rfl

theorem sign?_eq (hx : Large s x) : sign? x = some s := by
  cases hx <;> rfl

theorem compare_eq (hx : Large s x) (hy : Represents y t) (ht : t.natAbs < 2 ^ 52) :
    x.compare y = some (match s with | .negative => .lt | .positive => .gt) := by
  cases hy with
  | zero => cases hx <;> cases s <;> rfl
  | @finite s' n hn hn' =>
    have hgap : 0 < gap n := by
      rw [natAbs_apply] at ht
      have := (Nat.log2_lt (Nat.pos_iff_ne_zero.mp hn)).mpr ht
      unfold gap
      omega
    cases hx with
    | infinity => cases s <;> cases s' <;> rfl
    | finite e hm hpos =>
      have hexp : compare (e : Int) (-(gap n : Int)) = .gt := compare_gt_iff_gt.mpr (by omega)
      cases s <;> cases s' <;> simp [UnpackedFloat.compare, hexp]

theorem toInt_positive (hx : Large .positive x) (low high : Int) :
    min high (2 ^ 52) ≤ x.toInt low high := by
  cases hx with
  | infinity => exact Int.min_le_left _ _
  | @finite m e hm hpos =>
    have hle : 2 ^ 52 ≤ m * 2 ^ e := hm.trans (Nat.le_mul_of_pos_right _ (Nat.two_pow_pos e))
    rw [UnpackedFloat.toInt, roundToInt_nat]
    simp only [Sign.apply]
    omega

theorem toInt_negative (hx : Large .negative x) (low high : Int) :
    x.toInt low high ≤ max low (-2 ^ 52) := by
  cases hx with
  | infinity => exact Int.le_max_left _ _
  | @finite m e hm hpos =>
    have hle : 2 ^ 52 ≤ m * 2 ^ e := hm.trans (Nat.le_mul_of_pos_right _ (Nat.two_pow_pos e))
    rw [UnpackedFloat.toInt, roundToInt_nat]
    simp only [Sign.apply]
    omega

theorem not_lt_limit (hx : Large .positive x) : x.compare (limit .positive) ≠ some .lt := by
  cases hx with
  | infinity => simp [UnpackedFloat.compare, limit]
  | @finite m e hm hpos =>
    have hexp : compare (e : Int) 0 ≠ .lt := by
      rw [ne_eq, compare_lt_iff_lt]
      omega
    have hmantissa : compare m (2 ^ 52) ≠ .lt := by
      rw [ne_eq, compare_lt_iff_lt]
      omega
    simp only [UnpackedFloat.compare, limit, ne_eq, Option.some.injEq, Ordering.then_eq_lt]
    tauto

theorem not_limit_lt (hx : Large .negative x) : (limit .negative).compare x ≠ some .lt := by
  cases hx with
  | infinity => simp [UnpackedFloat.compare, limit]
  | @finite m e hm hpos =>
    have hexp : compare 0 (e : Int) ≠ .gt := by
      rw [ne_eq, compare_gt_iff_gt]
      omega
    have hmantissa : compare (2 ^ 52) m ≠ .gt := by
      rw [ne_eq, compare_gt_iff_gt]
      omega
    simp only [UnpackedFloat.compare, limit, ne_eq, Option.some.injEq, Ordering.swap_eq_lt,
      Ordering.then_eq_gt]
    tauto

end Large

def Negative : UnpackedFloat → Prop
  | .infinity s | .zero s | .finite s .. => s = .negative
  | .notANumber => False

theorem negative_round (m : Nat) (e : Int) : Negative (UnpackedFloat.round format .negative m e) := by
  simp only [UnpackedFloat.round, roundWithAccuracy]
  split <;> rfl

theorem unpackSign_pack {x : UnpackedFloat} (hx : Negative x) :
    @unpackSign format (UnpackedFloat.pack format x) = 1#1 := by
  have hcomponents {e m} : @unpackSign format (packComponents format .negative e m) = 1#1 :=
    Binary64.unpackSign_packComponents
  cases x with
  | notANumber => cases hx
  | infinity s | zero s =>
    obtain rfl : s = .negative := hx
    exact hcomponents
  | finite s m e hpos =>
    obtain rfl : s = .negative := hx
    rw [UnpackedFloat.pack]
    dsimp only
    split
    · exact hcomponents
    · split <;> exact hcomponents

theorem toInt_le_zero {b : BitVec format.numBits} (hb : unpackSign b = 1#1) (high : Int) :
    (UnpackedFloat.unpack format b).toInt 0 high ≤ 0 := by
  have hsign {s : Sign} (hs : sign? (UnpackedFloat.unpack format b) = some s) : s = .negative := by
    rw [← unpackSign_of_sign? hs, hb]
    rfl
  cases hx : UnpackedFloat.unpack format b with
  | notANumber | zero s => exact Int.le_refl _
  | infinity s =>
    obtain rfl : s = .negative := hsign (by rw [hx]; rfl)
    exact Int.le_refl _
  | finite s m e hpos =>
    obtain rfl : s = .negative := hsign (by rw [hx]; rfl)
    rcases Int.le_total 0 e with he | he
    · obtain ⟨k, rfl⟩ : ∃ k : Nat, e = k := ⟨e.toNat, by omega⟩
      rw [UnpackedFloat.toInt, roundToInt_nat]
      exact Int.neg_nonpos_of_nonneg (Int.natCast_nonneg _)
    · obtain ⟨k, rfl⟩ : ∃ k : Nat, e = -(k : Int) := ⟨(-e).toNat, by omega⟩
      rw [UnpackedFloat.toInt, roundToInt_neg]
      exact Int.neg_nonpos_of_nonneg (Int.natCast_nonneg _)

theorem Large.negative_add {x y : UnpackedFloat} {t : Int} (hx : Large .negative x)
    (hy : Represents y t) (ht : t.natAbs < 2 ^ 52) : Negative (UnpackedFloat.add format y x) := by
  cases hx with
  | infinity => cases hy <;> rfl
  | @finite m e hm hpos =>
    cases hy with
    | zero => rfl
    | @finite s k hk hk' =>
      have hmin : min (-(gap k : Int)) (e : Int) = -(gap k : Int) := by omega
      have hshift : (-(gap k : Int) - -(gap k : Int)).toNat = 0 := by omega
      have hshift' : ((e : Int) - -(gap k : Int)).toNat = e + gap k := by omega
      have hlt : k * 2 ^ gap k < m * 2 ^ (e + gap k) := by
        rw [Nat.pow_add, ← Nat.mul_assoc]
        refine Nat.mul_lt_mul_of_pos_right ?_ (Nat.two_pow_pos _)
        rw [natAbs_apply] at ht
        have := Nat.le_mul_of_pos_right m (Nat.two_pow_pos e)
        omega
      have hneg : s.apply (k * 2 ^ gap k : Nat) + Sign.negative.apply (m * 2 ^ (e + gap k) : Nat) < 0 := by
        cases s <;> simp only [Sign.apply] <;> omega
      simp only [UnpackedFloat.add, hmin, decreaseExponent, Nat.shiftLeft_eq, hshift, hshift',
        Nat.pow_zero, Nat.mul_one, UnpackedFloat.normalize]
      rw [compare_lt_iff_lt.mpr hneg]
      exact negative_round _ _

end Binary64

namespace Number
open Float.Model Float.Model.UnpackedFloat Binary64

variable {x y : Float} {t u : Int}

def IsWhole (x : Float) (t : Int) : Prop := Represents x.toModel.unpack t

theorem isWhole_ofNat {n : Nat} (hn : n < 2 ^ 53) : IsWhole (Float.ofNat n) n := by
  rcases Nat.eq_zero_or_pos n with rfl | hpos
  · exact .zero .positive
  · rw [IsWhole, unpack_ofNat hpos hn]
    exact .finite .positive hpos hn

theorem represents_ofNat {n : Nat} (hn : n < 2 ^ 53) : Represents (UnpackedFloat.ofNat format n) n := by
  simpa [UnpackedFloat.ofNat, UnpackedFloat.ofInt] using
    Represents.normalize (k := n) (by simpa using hn) 0 .positive

theorem isWhole_pack {v : UnpackedFloat} (h : Represents v t) :
    IsWhole (.ofModel (.pack v)) t := by
  show Represents (UnpackedFloat.unpack format (UnpackedFloat.pack format v)) t
  rwa [h.unpack_pack]

theorem lt_iff_compare : x < y ↔ x.toModel.unpack.compare y.toModel.unpack = some .lt := by
  have hlt : x < y ↔ x.toModel.unpack.lt y.toModel.unpack = true := by
    show decide (x.toModel < y.toModel) = true ↔ _
    rw [decide_eq_true_iff]
    rfl
  rw [hlt, UnpackedFloat.lt, beq_iff_eq]

theorem toNat_eq_min :
    toNat x = min (x.toModel.unpack.toInt 0 (2 ^ 64 - 1)).toNat (2 ^ 64 - 1) := by
  have htoInt : x.toUInt64 = UInt64.ofNatClamp (x.toModel.unpack.toInt 0 (2 ^ 64 - 1)).toNat := rfl
  rw [toNat, htoInt, UInt64.ofNatClamp]
  split
  · rename_i hlt
    rw [UInt64.toNat_ofNatLT]
    unfold UInt64.size at hlt
    omega
  · rename_i hge
    rw [UInt64.toNat_ofNatLT]
    unfold UInt64.size at *
    omega

namespace IsWhole

theorem add (hx : IsWhole x t) (hy : IsWhole y u) (h : (t + u).natAbs < 2 ^ 53) :
    IsWhole (x + y) (t + u) :=
  isWhole_pack (Represents.add hx hy h)

theorem lt_iff (hx : IsWhole x t) (hy : IsWhole y u) : x < y ↔ t < u := by
  rw [lt_iff_compare, Represents.compare_eq hx hy, Option.some.injEq, compare_lt_iff_lt]

theorem le_iff (hx : IsWhole x t) (hy : IsWhole y u) : x ≤ y ↔ t ≤ u := by
  have hle : x ≤ y ↔ x.toModel.unpack.le y.toModel.unpack = true := by
    show decide (x.toModel ≤ y.toModel) = true ↔ _
    rw [decide_eq_true_iff]
    rfl
  rw [hle, UnpackedFloat.le, Represents.compare_eq hx hy, Option.any_some, Ordering.isLE_iff_ne_gt,
    compare_gt_iff_gt, Int.not_lt]

theorem beq_iff (hx : IsWhole x t) (hy : IsWhole y u) : (x == y) = true ↔ t = u := by
  have hbeq : (x == y) = x.toModel.unpack.beq y.toModel.unpack := rfl
  rw [hbeq, UnpackedFloat.beq, Represents.compare_eq hx hy, beq_iff_eq, Option.some.injEq,
    compare_eq_iff_eq]

theorem toNat_eq (hx : IsWhole x t) : toNat x = t.toNat := by
  have hlt := Represents.natAbs_lt hx
  rw [toNat_eq_min, Represents.toInt_eq hx]
  omega

end IsWhole

theorem unpack_limit : (4503599627370496.0 : Float).toModel.unpack = limit .positive := rfl

theorem unpack_neg_limit : (-4503599627370496.0 : Float).toModel.unpack = limit .negative := rfl

theorem zero_lt_iff : 0.0 < x ↔ sign? x.toModel.unpack = some .positive := by
  rw [lt_iff_compare, unpack_zero]
  cases x.toModel.unpack with
  | infinity s | finite s => cases s <;> simp [UnpackedFloat.compare, sign?]
  | _ => simp [UnpackedFloat.compare, sign?]

theorem lt_zero_iff : x < 0.0 ↔ sign? x.toModel.unpack = some .negative := by
  rw [lt_iff_compare, unpack_zero]
  cases x.toModel.unpack with
  | infinity s | finite s => cases s <;> simp [UnpackedFloat.compare, sign?]
  | _ => simp [UnpackedFloat.compare, sign?]

theorem unpack_neg (hx : x.toModel.unpack ≠ .notANumber) :
    (-x).toModel.unpack = x.toModel.unpack.neg := by
  let b : BitVec format.numBits := x.toModel.toBits.toBitVec
  have hflip (s : BitVec 1) : Sign.ofBitVec (-Sign.ofBitVec s).toBitVec = -Sign.ofBitVec s := by
    cases Sign.ofBitVec s <;> rfl
  have hb : UnpackedFloat.unpack format b ≠ .notANumber := hx
  let b' := packComponents format (-Sign.ofBitVec (unpackSign b)) (unpackExponent b) (unpackMantissa b)
  have hunpack : UnpackedFloat.unpack format b' = (UnpackedFloat.unpack format b).neg := by
    unfold UnpackedFloat.unpack
    simp only [b', unpackExponent_packComponents, unpackMantissa_packComponents,
      Binary64.unpackSign_packComponents, hflip]
    split
    · split <;> rfl
    · split
      · split <;> rfl
      · rfl
  have hvalid : format.Valid b' := by
    refine ⟨fun he hm => absurd ?_ hb⟩
    simp only [b', unpackExponent_packComponents, unpackMantissa_packComponents] at he hm
    unfold UnpackedFloat.unpack
    rw [if_pos he, if_neg hm]
  show UnpackedFloat.unpack format (UnpackedFloat.pack format (UnpackedFloat.unpack format b).neg) = _
  rw [← hunpack, Binary64.pack_unpack hvalid, hunpack]
  rfl

theorem IsWhole.neg (h : IsWhole x t) : IsWhole (-x) (-t) := by
  have hx : x.toModel.unpack ≠ .notANumber := by
    intro hx
    rw [IsWhole, hx] at h
    cases h
  rw [IsWhole, unpack_neg hx]
  exact Represents.neg h

theorem isWhole_toUInt64 (h : Small x.toModel.unpack t) (ht : 0 ≤ t) : IsWhole x.toUInt64.toFloat t := by
  have hbits := h.natAbs_lt
  have hnat : x.toUInt64.toNat = t.toNat := by
    rw [← toNat, toNat_eq_min, h.toInt_eq]
    omega
  have hrep := represents_ofNat (n := t.toNat) (by omega)
  refine isWhole_pack (v := UnpackedFloat.ofNat format x.toUInt64.toNat) ?_
  rwa [hnat, ← Int.toNat_of_nonneg ht]

theorem isWhole_trunc (h : Small x.toModel.unpack t) : IsWhole (trunc x) t := by
  cases hx : x.toModel.unpack with
  | zero s =>
    rw [hx] at h
    cases h
    simp [trunc, zero_lt_iff, lt_zero_iff, hx, sign?, IsWhole, Represents.zero]
  | finite s m e hpos =>
    have hs := h
    rw [hx] at hs
    obtain _ | @⟨_, _, k, hk, hm, -⟩ := hs
    have hexp : compare (-(k : Int)) 0 = .lt := compare_lt_iff_lt.mpr (by omega)
    have hexp' : compare 0 (-(k : Int)) = .gt := compare_gt_iff_gt.mpr (by omega)
    cases s with
    | positive =>
      have hlt : x < 4503599627370496.0 := by
        rw [lt_iff_compare, unpack_limit, hx]
        simp [UnpackedFloat.compare, limit, hexp]
      rw [trunc, if_pos (by simp [zero_lt_iff, hx, sign?, hlt])]
      exact isWhole_toUInt64 h (Int.natCast_nonneg _)
    | negative =>
      have hlt : -4503599627370496.0 < x := by
        rw [lt_iff_compare, unpack_neg_limit, hx]
        simp [UnpackedFloat.compare, limit, hexp']
      have hneg : Small (-x).toModel.unpack (m / 2 ^ k : Nat) := by
        rw [unpack_neg (by simp [hx]), hx]
        exact .finite .positive hk hm hpos
      rw [trunc, if_neg (by simp [zero_lt_iff, hx, sign?]),
        if_pos (by simp [lt_zero_iff, hx, sign?, hlt])]
      exact (isWhole_toUInt64 hneg (Int.natCast_nonneg _)).neg
  | _ =>
    rw [hx] at h
    cases h

theorem trunc_of_large {s : Sign} (h : Large s x.toModel.unpack) : trunc x = x := by
  cases s with
  | positive =>
    have hlt : ¬ x < 4503599627370496.0 := by
      rw [lt_iff_compare, unpack_limit]
      exact h.not_lt_limit
    rw [trunc, if_neg (by simp [hlt]), if_neg (by simp [lt_zero_iff, h.sign?_eq])]
  | negative =>
    have hlt : ¬ -4503599627370496.0 < x := by
      rw [lt_iff_compare, unpack_neg_limit]
      exact h.not_limit_lt
    rw [trunc, if_neg (by simp [zero_lt_iff, h.sign?_eq]), if_neg (by simp [hlt])]

/-- The integer part of a number, toward zero. What is not a number counts as zero, and an infinity as
the bound. -/
def integerPart (bound : Nat) (x : Float) : Int := x.toModel.unpack.toInt (-bound) bound

theorem toIntegerOrInfinity_cases (x : Float) :
    (∃ t, t.natAbs < 2 ^ 52 ∧ (∀ bound, integerPart bound x = t) ∧ IsWhole (toIntegerOrInfinity x) t) ∨
      ∃ s, Large s x.toModel.unpack ∧ toIntegerOrInfinity x = x := by
  rcases small_or_large x.toModel.toBits.toBitVec with hnan | ⟨t, h⟩ | ⟨s, h⟩
  · have hx : x.isNaN = true := by
      show x.toModel.unpack.isNaN = true
      rw [show x.toModel.unpack = .notANumber from hnan]
      rfl
    refine .inl ⟨0, by decide, fun bound => ?_, ?_⟩
    · rw [integerPart, show x.toModel.unpack = .notANumber from hnan]
      rfl
    · rw [toIntegerOrInfinity, if_pos hx]
      exact .zero .positive
  · have hx : x.isNaN = false := h.isNaN_eq
    have hbits := h.natAbs_lt
    refine .inl ⟨t, hbits, fun bound => h.toInt_eq _ _, ?_⟩
    rw [toIntegerOrInfinity, hx, if_neg Bool.false_ne_true]
    have := (isWhole_trunc h).add (y := 0.0) (u := 0) (.zero .positive) (by omega)
    rwa [Int.add_zero] at this
  · have hx : x.isNaN = false := h.isNaN_eq
    have hzero : ¬ (x == 0.0) = true := by
      rw [beq_zero]
      rintro ⟨s', hs'⟩
      have := h.sign?_eq
      rw [show UnpackedFloat.unpack format x.toModel.toBits.toBitVec = .zero s' from hs'] at this
      cases this
    refine .inr ⟨s, h, ?_⟩
    rw [toIntegerOrInfinity, hx, if_neg Bool.false_ne_true, trunc_of_large h, add_zero hx, if_neg hzero]

theorem IsWhole.toIntegerOrInfinity (h : IsWhole x t) (ht : t.natAbs < 2 ^ 52) :
    IsWhole (toIntegerOrInfinity x) t := by
  rcases toIntegerOrInfinity_cases x with ⟨u, -, hpart, hwhole⟩ | ⟨s, hlarge, -⟩
  · rwa [show t = u from (Represents.toInt_eq h 0 0).symm.trans (hpart 0)]
  · have heq := Represents.toInt_eq h (-2 ^ 52) (2 ^ 52)
    cases s with
    | negative =>
      have := hlarge.toInt_negative (-2 ^ 52) (2 ^ 52)
      omega
    | positive =>
      have := hlarge.toInt_positive (-2 ^ 52) (2 ^ 52)
      omega

theorem isWhole_zero : IsWhole 0.0 0 := .zero .positive

theorem isWhole_maxLength : IsWhole Exec.maxLength (2 ^ 53 - 1) := by
  have hgap : gap (2 ^ 53 - 1) = 0 := by decide
  have hrep := Represents.finite .positive (n := 2 ^ 53 - 1) (by decide) (by decide)
  simp only [hgap] at hrep
  exact hrep

theorem isWhole_ofUInt32 (n : UInt32) : IsWhole n.toFloat n.toNat := by
  have hn : n.toNat < 2 ^ 32 := n.toNat_lt
  exact isWhole_pack (v := UnpackedFloat.ofNat format n.toNat) (represents_ofNat (by omega))

theorem toNat_toUInt32 {n : Nat} (hn : n < 2 ^ 32) : (toUInt32 (Float.ofNat n)).toNat = n := by
  have hwhole := isWhole_ofNat (n := n) (by omega)
  have hlimit : IsWhole 4294967296.0 (2 ^ 32) := by
    have hgap : gap (2 ^ 32) = 20 := by decide
    have hrep := Represents.finite .positive (n := 2 ^ 32) (by decide) (by decide)
    simp only [hgap] at hrep
    exact hrep
  have hinside : (decide (0.0 ≤ Float.ofNat n) && decide (Float.ofNat n < 4294967296.0)) = true := by
    rw [Bool.and_eq_true, decide_eq_true_iff, decide_eq_true_iff, (isWhole_zero).le_iff hwhole,
      hwhole.lt_iff hlimit]
    omega
  rw [toUInt32, if_pos hinside]
  exact toUInt32_ofNat hn

def placeIn (length : Nat) (t : Int) : Nat := (if t < 0 then length + t else min t length).toNat

theorem relativeIndex_eq {length : Nat} (h : length < 2 ^ 52) :
    relativeIndex x length = placeIn length (integerPart length x) := by
  have hlength := isWhole_ofNat (n := length) (by omega)
  have hzero : IsWhole 0.0 0 := .zero .positive
  rcases toIntegerOrInfinity_cases x with ⟨t, ht, hpart, hwhole⟩ | ⟨s, hlarge, heq⟩
  · have hsum := hlength.add hwhole (by omega)
    simp only [relativeIndex, hwhole.lt_iff hzero, hsum.lt_iff hzero, hwhole.lt_iff hlength,
      hsum.toNat_eq, hwhole.toNat_eq, hpart, placeIn]
    split <;> split <;> omega
  · have hpart : integerPart length x = x.toModel.unpack.toInt (-length) length := rfl
    simp only [relativeIndex, heq]
    cases s with
    | negative =>
      have hle := hlarge.toInt_negative (-length) length
      have hnat : toNat (Float.ofNat length + x) = 0 := by
        have hsign := toInt_le_zero (unpackSign_pack (hlarge.negative_add hlength (by omega))) (2 ^ 64 - 1)
        rw [toNat_eq_min]
        exact Nat.le_zero.mp ((Nat.min_le_left _ _).trans (Int.toNat_of_nonpos hsign).le)
      rw [if_pos ((lt_zero_iff).mpr hlarge.sign?_eq), hnat, ite_self]
      unfold placeIn
      split <;> omega
    | positive =>
      have hge := hlarge.toInt_positive (-length) length
      rw [if_neg (by simp [lt_zero_iff, hlarge.sign?_eq]), if_neg]
      · unfold placeIn
        split <;> omega
      · rw [lt_iff_compare, hlarge.compare_eq hlength (by omega)]
        simp

theorem min_toNat_eq {length k : Nat} (h : length < 2 ^ 52) (hk : k ≤ length) :
    min (toNat (toIntegerOrInfinity x)) k = min (integerPart length x).toNat k := by
  rcases toIntegerOrInfinity_cases x with ⟨t, ht, hpart, hwhole⟩ | ⟨s, hlarge, heq⟩
  · rw [hwhole.toNat_eq, hpart]
  · have hpart : integerPart length x = x.toModel.unpack.toInt (-length) length := rfl
    rw [heq, toNat_eq_min, hpart]
    cases s with
    | negative =>
      have hle := hlarge.toInt_negative 0 (2 ^ 64 - 1)
      have hle' := hlarge.toInt_negative (-length) length
      omega
    | positive =>
      have hge := hlarge.toInt_positive 0 (2 ^ 64 - 1)
      have hge' := hlarge.toInt_positive (-length) length
      omega

end Number

end EcmaScript
