import EcmaScript.Collection.KeyedTable
import EcmaScript.Proofs.Number

/-! When two keys of a collection are one: the two zeros are the same key, and all that are not a number
are, and nothing else is. -/
namespace EcmaScript

namespace Binary64
open Float.Model Float.Model.UnpackedFloat

variable {b : BitVec format.numBits} {e : BitVec format.exponentBits}
  {m : BitVec format.mantissaBitsWithoutImplicit}

theorem toBitVec_ofBitVec (s : BitVec 1) : (Sign.ofBitVec s).toBitVec = s := by
  revert s
  decide

theorem packComponents_parts (he : unpackExponent b = e) (hm : unpackMantissa b = m) :
    packComponents format (Sign.ofBitVec (unpackSign b)) e m = b := by
  refine eq_of_components ?_ ?_ ?_
  · rw [unpackSign_packComponents, toBitVec_ofBitVec]
  · rw [unpackExponent_packComponents, he]
  · rw [unpackMantissa_packComponents, hm]

theorem toNat_implicit : (1#1 ++ @unpackMantissa format b).toNat = 2 ^ 52 + (unpackMantissa b).toNat := by
  have hlt : (@unpackMantissa format b).toNat < 2 ^ 52 := BitVec.isLt _
  rw [BitVec.toNat_append, ← Nat.shiftLeft_add_eq_or_of_lt hlt]
  rfl

theorem log2_subnormal : (unpackMantissa b).toNat.log2 + 1 ≠ format.mantissaBits := by
  have hbits : format.mantissaBits = 53 := rfl
  have hlt : (@unpackMantissa format b).toNat < 2 ^ 52 := BitVec.isLt _
  intro hlog
  rcases Nat.eq_zero_or_pos (@unpackMantissa format b).toNat with hzero | hpos
  · rw [hzero] at hlog
    exact absurd hlog (by decide)
  · have hle := Nat.log2_self_le (Nat.pos_iff_ne_zero.mp hpos)
    rw [show (@unpackMantissa format b).toNat.log2 = 52 by omega] at hle
    omega

theorem log2_normal : (1#1 ++ unpackMantissa b).toNat.log2 + 1 = format.mantissaBits := by
  have hbits : format.mantissaBits = 53 := rfl
  have hlt : (@unpackMantissa format b).toNat < 2 ^ 52 := BitVec.isLt _
  have hlog : (2 ^ 52 + (@unpackMantissa format b).toNat).log2 = 52 :=
    (Nat.log2_eq_iff (by omega)).mpr ⟨by omega, by omega⟩
  rw [toNat_implicit, hlog, hbits]

theorem pack_unpack (hb : format.Valid b) :
    UnpackedFloat.pack format (UnpackedFloat.unpack format b) = b := by
  have hbias : ((format.exponentBias : Nat) : Int) = 1023 := rfl
  have hbits : ((format.mantissaBitsWithoutImplicit : Nat) : Int) = 52 := rfl
  unfold UnpackedFloat.unpack
  dsimp only
  split
  · rename_i hones
    split
    · exact packComponents_parts hones ‹_›
    · exact (hb.eq_packedNaN hones ‹_›).symm
  · rename_i hones
    split
    · rename_i hzero
      split
      · exact packComponents_parts hzero ‹_›
      · have hbiased : (((@unpackExponent format b).toNat : Int) -
            ((format.exponentBias : Nat) + (format.mantissaBitsWithoutImplicit : Nat)) + 1 +
              (format.exponentBias : Nat) + (format.mantissaBitsWithoutImplicit : Nat)).toNat = 1 := by
          rw [hzero, hbias, hbits]
          rfl
        simp only [UnpackedFloat.pack, hbiased]
        rw [if_neg (by decide), if_neg log2_subnormal]
        exact packComponents_parts hzero (by rw [BitVec.ofNat_toNat, BitVec.setWidth_eq])
    · have hlt : (@unpackExponent format b).toNat < 2 ^ 11 := BitVec.isLt _
      have hne : (@unpackExponent format b).toNat ≠ 2 ^ 11 - 1 := fun h =>
        hones (BitVec.eq_of_toNat_eq h)
      have hbiased : (((@unpackExponent format b).toNat : Int) -
          ((format.exponentBias : Nat) + (format.mantissaBitsWithoutImplicit : Nat)) +
            (format.exponentBias : Nat) + (format.mantissaBitsWithoutImplicit : Nat)).toNat =
              (@unpackExponent format b).toNat := by
        rw [hbias, hbits]
        omega
      simp only [UnpackedFloat.pack, hbiased]
      rw [if_neg (show ¬ 2 ^ 11 ≤ _ by omega), if_pos log2_normal]
      refine packComponents_parts (by rw [BitVec.ofNat_toNat, BitVec.setWidth_eq]) ?_
      have hlt : (@unpackMantissa format b).toNat < 2 ^ 52 := BitVec.isLt _
      refine BitVec.eq_of_toNat_eq ?_
      rw [BitVec.toNat_ofNat, toNat_implicit, show 2 ^ format.mantissaBitsWithoutImplicit = 2 ^ 52 from rfl]
      omega

def sign? : UnpackedFloat → Option Sign
  | .infinity s => some s
  | .finite s .. => some s
  | _ => none

theorem unpackSign_of_sign? {s : Sign} (h : sign? (UnpackedFloat.unpack format b) = some s) :
    Sign.ofBitVec (unpackSign b) = s := by
  unfold UnpackedFloat.unpack at h
  dsimp only at h
  split at h
  · split at h
    · exact Option.some.inj h
    · cases h
  · split at h
    · split at h
      · cases h
      · exact Option.some.inj h
    · exact Option.some.inj h

theorem sign?_eq_of_compare {x y : UnpackedFloat} (h : x.compare y = some .eq) :
    (∃ s, sign? x = some s ∧ sign? y = some s) ∨ ∃ s s', x = .zero s ∧ y = .zero s' := by
  cases x with
  | notANumber => cases h
  | zero s =>
    cases y with
    | zero s' => exact .inr ⟨s, s', rfl, rfl⟩
    | notANumber => cases h
    | infinity s' | finite s' => cases s' <;> cases h
  | infinity s =>
    cases y with
    | infinity s' => cases s <;> cases s' <;> first | exact .inl ⟨_, rfl, rfl⟩ | cases h
    | notANumber => cases h
    | zero | finite => cases s <;> cases h
  | finite s =>
    cases y with
    | finite s' => cases s <;> cases s' <;> first | exact .inl ⟨_, rfl, rfl⟩ | cases h
    | notANumber => cases h
    | zero => cases s <;> cases h
    | infinity s' => cases s' <;> cases h

end Binary64

namespace Number
open Float.Model

variable {x y : Float}

theorem eq_of_toBits (h : x.toBits = y.toBits) : x = y := by
  obtain ⟨⟨bx, hx⟩⟩ := x
  obtain ⟨⟨bY, hy⟩⟩ := y
  cases h
  rfl

theorem unpack_zero : (0.0 : Float).toModel.unpack = .zero .positive := by
  rfl

theorem pack_unpack : Float.ofModel (Float.Model.pack x.toModel.unpack) = x :=
  eq_of_toBits (congrArg UInt64.ofBitVec (Binary64.pack_unpack x.toModel.valid))

theorem beq_zero : (x == 0.0) = true ↔ ∃ s, x.toModel.unpack = .zero s := by
  show UnpackedFloat.beq x.toModel.unpack (0.0 : Float).toModel.unpack = true ↔ _
  rw [unpack_zero]
  cases x.toModel.unpack with
  | infinity s => cases s <;> simp [UnpackedFloat.beq, UnpackedFloat.compare]
  | finite s => cases s <;> simp [UnpackedFloat.beq, UnpackedFloat.compare]
  | _ => simp [UnpackedFloat.beq, UnpackedFloat.compare]

theorem add_zero (hx : x.isNaN = false) : x + 0.0 = if x == 0.0 then 0.0 else x := by
  have hadd : x + 0.0 = Float.ofModel (Float.Model.pack
      (UnpackedFloat.add Binary64.format x.toModel.unpack (.zero .positive))) := by
    rw [← unpack_zero]
    rfl
  have hnan : x.toModel.unpack.isNaN = false := hx
  by_cases hzero : (x == 0.0) = true
  · obtain ⟨s, hs⟩ := (beq_zero).mp hzero
    rw [if_pos hzero, hadd, hs]
    cases s <;> rfl
  · rw [if_neg hzero, hadd]
    rw [beq_zero] at hzero
    refine Eq.trans ?_ pack_unpack
    cases hu : x.toModel.unpack with
    | notANumber =>
      rw [hu] at hnan
      cases hnan
    | zero s => exact absurd ⟨s, hu⟩ hzero
    | infinity | finite => rfl

theorem eq_nan (hx : x.isNaN = true) (hy : y.isNaN = true) : x = y := by
  rw [← same_iff, same, hx, hy]
  rfl

theorem not_beq_of_isNaN (hx : x.isNaN = true) : (x == y) = false := by
  have hu : x.toModel.unpack = .notANumber := by
    have hnan : x.toModel.unpack.isNaN = true := hx
    cases hu : x.toModel.unpack with
    | notANumber => rfl
    | _ =>
      rw [hu] at hnan
      cases hnan
  show UnpackedFloat.beq x.toModel.unpack y.toModel.unpack = false
  rw [hu]
  rfl

theorem beq_self (hx : x.isNaN = false) : (x == x) = true := by
  have hnan : x.toModel.unpack.isNaN = false := hx
  show UnpackedFloat.beq x.toModel.unpack x.toModel.unpack = true
  rw [UnpackedFloat.beq, Binary64.compare_self hnan]
  rfl

theorem beq_cases (h : (x == y) = true) : x = y ∨ (x == 0.0) = true ∧ (y == 0.0) = true := by
  have hcompare : x.toModel.unpack.compare y.toModel.unpack = some .eq := LawfulBEq.eq_of_beq h
  obtain ⟨s, hx, hy⟩ | ⟨s, s', hx, hy⟩ := Binary64.sign?_eq_of_compare hcompare
  · left
    refine eq_of_toBits (congrArg UInt64.ofBitVec (Binary64.eq_of_compare ?_ hcompare))
    rw [← Binary64.toBitVec_ofBitVec (UnpackedFloat.unpackSign _), Binary64.unpackSign_of_sign? hx,
      ← Binary64.unpackSign_of_sign? hy, Binary64.toBitVec_ofBitVec]
  · exact .inr ⟨(beq_zero).mpr ⟨s, hx⟩, (beq_zero).mpr ⟨s', hy⟩⟩

def stored (x : Float) : Float := if x == 0.0 then 0.0 else x

theorem sameZero_iff : sameZero x y = true ↔ stored x = stored y := by
  have hself (x : Float) : sameZero x x = true := by
    unfold sameZero
    cases hx : x.isNaN with
    | true => simp
    | false => rw [beq_self hx, Bool.true_or]
  have hzeros (hx : (x == 0.0) = true) (hy : (y == 0.0) = true) : sameZero x y = true := by
    obtain ⟨s, hx⟩ := (beq_zero).mp hx
    obtain ⟨s', hy⟩ := (beq_zero).mp hy
    have hbeq : (x == y) = true := by
      show UnpackedFloat.beq x.toModel.unpack y.toModel.unpack = true
      rw [hx, hy]
      rfl
    rw [sameZero, hbeq, Bool.true_or]
  constructor
  · intro h
    rcases Bool.or_eq_true _ _ ▸ h with hbeq | hnan
    · rcases beq_cases hbeq with rfl | ⟨hx, hy⟩
      · rfl
      · rw [stored, stored, if_pos hx, if_pos hy]
    · rw [Bool.and_eq_true] at hnan
      rw [eq_nan hnan.1 hnan.2]
  · intro h
    have hzero : ((0.0 : Float) == 0.0) = true := beq_self rfl
    unfold stored at h
    split at h <;> split at h
    · exact hzeros ‹_› ‹_›
    · rename_i hy
      exact absurd (h ▸ hzero) hy
    · rename_i hx _
      exact absurd (h ▸ hzero) hx
    · rw [h]
      exact hself y

theorem keyBits_eq : (if x.isNaN = true then nan.toBits else (x + 0.0).toBits) = (stored x).toBits := by
  cases hx : x.isNaN with
  | true =>
    have hnan : nan.isNaN = true := rfl
    rw [if_pos rfl, stored, not_beq_of_isNaN hx, eq_nan hx hnan]
    rfl
  | false => rw [if_neg Bool.false_ne_true, add_zero hx, stored]

end Number

section Keys
variable {key key' : Value}

theorem TableKey.of_eq_iff_storedKey :
    TableKey.of key = TableKey.of key' ↔ KeyedTable.storedKey key = KeyedTable.storedKey key' := by
  have hbits {x y : Float} : (Number.stored x).toBits = (Number.stored y).toBits ↔
      Number.stored x = Number.stored y := ⟨Number.eq_of_toBits, congrArg Float.toBits⟩
  have hnumber (x y : Float) : TableKey.of (.number x) = .of (.number y) ↔
      Value.number (Number.stored x) = .number (Number.stored y) := by
    simp only [TableKey.of, Number.keyBits_eq, TableKey.number.injEq, Value.number.injEq, hbits]
  cases key <;> cases key' <;> first | exact hnumber _ _ | simp [TableKey.of, KeyedTable.storedKey]

theorem Value.sameZero_iff : key.sameZero key' = true ↔
    KeyedTable.storedKey key = KeyedTable.storedKey key' := by
  cases key <;> cases key' <;>
    simp [KeyedTable.storedKey, sameZero, strictEq, Number.sameZero_iff, Number.stored]

theorem TableKey.of_eq_iff : TableKey.of key = TableKey.of key' ↔ key.sameZero key' = true :=
  (of_eq_iff_storedKey).trans (Value.sameZero_iff).symm

end Keys
end EcmaScript
