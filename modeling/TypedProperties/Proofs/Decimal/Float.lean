import Mathlib
import TypedProperties.Decimal.Binary

/-! Floats by their parts: a float is given by its sign and its pattern, there is one float that is no
number, and dividing by one changes none. -/
namespace TypedProperties
namespace Binary

open Float.Model (UnpackedFloat Format totalExponent)
open Float.Model.UnpackedFloat

abbrev Word := BitVec Format.binary64.numBits

section Words

variable (b : Word)

theorem toNat_implicit (m : BitVec 52) : (1#1 ++ m).toNat = 2 ^ 52 + m.toNat := by
  rw [BitVec.toNat_append, ← Nat.shiftLeft_add_eq_or_of_lt m.isLt]
  rfl

def Fits (m : Nat) (e : Int) : Prop :=
  (2 ^ 52 ≤ m ∧ m < 2 ^ 53 ∧ -1074 ≤ e ∧ e ≤ 971) ∨ (0 < m ∧ m < 2 ^ 52 ∧ e = -1074)

theorem fits_unpack {s : Sign} {m : Nat} {e : Int} {h : 0 < m}
    (unpacked : unpack Format.binary64 b = .finite s m e h) : Fits m e := by
  have he : (unpackExponent b).toNat < 2 ^ 11 := (unpackExponent b).isLt
  have hm : (unpackMantissa b).toNat < 2 ^ 52 := (unpackMantissa b).isLt
  rw [unpack] at unpacked
  split at unpacked
  · split at unpacked <;> cases unpacked
  next infinite =>
    have infinite : (unpackExponent b).toNat ≠ 2047 := fun h => infinite (BitVec.eq_of_toNat_eq h)
    split at unpacked
    next zero =>
      have zero : (unpackExponent b).toNat = 0 := congrArg BitVec.toNat zero
      split at unpacked
      · cases unpacked
      · obtain ⟨-, rfl, rfl⟩ := UnpackedFloat.finite.inj unpacked
        refine .inr ⟨h, hm, ?_⟩
        rw [zero]
        rfl
    next zero =>
      have zero : (unpackExponent b).toNat ≠ 0 := fun h => zero (BitVec.eq_of_toNat_eq h)
      obtain ⟨-, rfl, rfl⟩ := UnpackedFloat.finite.inj unpacked
      rw [toNat_implicit]
      have bias : ((Format.binary64.exponentBias : Int) +
        Format.binary64.mantissaBitsWithoutImplicit) = 1075 := rfl
      rw [bias]
      exact .inl (by omega)

theorem log2_normal {m : Nat} (low : 2 ^ 52 ≤ m) (high : m < 2 ^ 53) : m.log2 = 52 :=
  (Nat.log2_eq_iff (by omega)).mpr ⟨low, high⟩

end Words

@[simp] theorem toFloat_magnitude (x : Float) : toFloat (isNegative x) (magnitude x) = x := by
  have h : x.toBits.toNat < 2 ^ 64 := x.toBits.toNat_lt
  have bits : (if isNegative x then Nat.pow 2 63 + magnitude x else magnitude x) =
      x.toBits.toNat := by
    simp only [isNegative, magnitude, decide_eq_true_eq]
    change (if 2 ^ 63 ≤ _ then 2 ^ 63 + _ % 2 ^ 63 else _ % 2 ^ 63) = _
    split <;> omega
  rw [toFloat, bits, UInt64.ofNat_toNat, Float.ofBits_toBits]

theorem toNat_unpackExponent (b : Word) : (unpackExponent b).toNat = b.toNat / 2 ^ 52 % 2 ^ 11 := by
  simp [unpackExponent, Nat.shiftRight_eq_div_pow]

theorem toNat_unpackMantissa (b : Word) : (unpackMantissa b).toNat = b.toNat % 2 ^ 52 := by
  simp [unpackMantissa]

theorem toFloat_notANumber {x : Float} (h : infinity < magnitude x) :
    toFloat false (infinity + Nat.pow 2 51) = x := by
  change 0x7ff * 2 ^ 52 < x.toBits.toNat % 2 ^ 63 at h
  have infinite : @unpackExponent Format.binary64 x.toBits.toBitVec = -1#11 := by
    refine BitVec.eq_of_toNat_eq ?_
    rw [toNat_unpackExponent]
    change x.toBits.toNat / 2 ^ 52 % 2 ^ 11 = 2047
    omega
  have inexact : @unpackMantissa Format.binary64 x.toBits.toBitVec ≠ 0#52 := by
    intro zero
    have zero := congrArg BitVec.toNat zero
    rw [toNat_unpackMantissa] at zero
    change x.toBits.toNat % 2 ^ 52 = 0 at zero
    omega
  have bits := x.toModel.valid.eq_packedNaN infinite inexact
  have same : x.toBits = UInt64.ofNat (infinity + Nat.pow 2 51) := UInt64.toBitVec_inj.mp bits
  rw [← Float.ofBits_toBits x, same]
  rfl

theorem unpack_one : (1.0 : Float).toModel.unpack =
    .finite .positive (2 ^ 52) (-52) (by decide) := by
  have bits : (1.0 : Float) = Float.ofBits 0x3ff0000000000000 := by decide +kernel
  rw [bits]
  rfl

theorem targetExponent_of_fits {m : Nat} {e : Int} (h : Fits m e) :
    Format.binary64.targetExponent (totalExponent m e) = e := by
  change max ((m.log2 : Int) + 1 + e - 53) (-1074) = e
  rcases h with ⟨low, high, least, -⟩ | ⟨pos, high, rfl⟩
  · rw [log2_normal low high]
    omega
  · have := (Nat.log2_lt (by omega)).mpr high
    omega

theorem shift_of_fits {m : Nat} {e : Int} (h : Fits m e) :
    shiftToTargetExponent Format.binary64 m e .exact = (⟨m, false, false⟩, e) := by
  rw [shiftToTargetExponent, targetExponent_of_fits h]
  simp [shiftToExponent, ExtendedMantissa.ofMantissaAndAccuracy, HShiftRight.hShiftRight, Nat.repeat]

theorem round_of_shift {m m' : Nat} {e e' : Int} (h : Fits m e) (pos : 0 < m) (s : Sign)
    (shift : shiftToTargetExponent Format.binary64 m' e' .exact = (⟨m, false, false⟩, e)) :
    roundWithAccuracy Format.binary64 s m' e' .exact = .finite s m e pos := by
  have whole : (⟨m, false, false⟩ : ExtendedMantissa).roundedMantissa = m := rfl
  rw [roundWithAccuracy, shift]
  simp only [whole, shift_of_fits h]
  rw [dif_neg (by omega)]

theorem positive_div (s : Sign) : s / Sign.positive = s := by
  cases s <;> rfl

theorem divCore_one {m : Nat} {e : Int} {k : Nat}
    (place : min (e + 52) (Format.binary64.targetExponent
      (totalExponent m e - totalExponent (2 ^ 52) (-52))) = e - k) :
    divCore Format.binary64 m e (2 ^ 52) (-52) = (m * 2 ^ k, e - k, .exact) := by
  have whole : m <<< (52 + k) = 2 ^ 52 * (m * 2 ^ k) := by
    rw [Nat.shiftLeft_eq, Nat.pow_add]
    ac_rfl
  have shift : (e + 52 - (e - k)).toNat = 52 + k := by omega
  rw [divCore, Int.sub_neg, place, shift, whole, Nat.mul_div_cancel_left _ (by decide),
    Nat.mul_mod_right]
  rfl

theorem shift_double {m : Nat} {e : Int} (low : 2 ^ 52 ≤ m) (high : m < 2 ^ 53) (least : -1074 ≤ e) :
    shiftToTargetExponent Format.binary64 (m * 2 ^ 1) (e - 1) .exact = (⟨m, false, false⟩, e) := by
  have log : (m * 2 ^ 1).log2 = 53 := (Nat.log2_eq_iff (by omega)).mpr ⟨by omega, by omega⟩
  have target : Format.binary64.targetExponent (totalExponent (m * 2 ^ 1) (e - 1)) = e := by
    change max (((m * 2 ^ 1).log2 : Int) + 1 + (e - 1) - 53) (-1074) = e
    rw [log]
    omega
  have shift : (e - (e - 1)).toNat = 1 := by omega
  rw [shiftToTargetExponent, target, shiftToExponent, shift]
  simp [ExtendedMantissa.ofMantissaAndAccuracy, HShiftRight.hShiftRight, Nat.repeat,
    ExtendedMantissa.shiftRightOne]

/-- Dividing by one leaves the significand as it is, or first doubles it in the next lower place. -/
theorem div_finite_one {m : Nat} {e : Int} (h : Fits m e) (pos : 0 < m) (s : Sign) :
    UnpackedFloat.div Format.binary64 (.finite s m e pos)
      (.finite .positive (2 ^ 52) (-52) (by decide)) = .finite s m e pos := by
  have target : Format.binary64.targetExponent
      (totalExponent m e - totalExponent (2 ^ 52) (-52)) = max (e - 1) (-1074) := by
    have := targetExponent_of_fits h
    have one : totalExponent (2 ^ 52) (-52) = 1 := by decide
    rw [one]
    change max (totalExponent m e - 53) (-1074) = e at this
    change max (totalExponent m e - 1 - 53) (-1074) = _
    omega
  rw [UnpackedFloat.div, positive_div]
  by_cases least : e = -1074
  · rw [divCore_one (show _ = e - (0 : Nat) by rw [target]; omega)]
    refine round_of_shift h pos s ?_
    simpa using shift_of_fits h
  · have normal : 2 ^ 52 ≤ m ∧ m < 2 ^ 53 ∧ -1074 ≤ e := by
      unfold Fits at h
      omega
    rw [divCore_one (show _ = e - (1 : Nat) by rw [target]; omega)]
    exact round_of_shift h pos s (shift_double normal.1 normal.2.1 normal.2.2)

theorem div_one (x : Float) : x / 1.0 = x := by
  refine congrArg Float.ofModel ?_
  change Float.Model.pack
    (UnpackedFloat.div Format.binary64 x.toModel.unpack (1.0 : Float).toModel.unpack) = x.toModel
  have self : Float.Model.pack x.toModel.unpack = x.toModel := congrArg Float.toModel x.ofBits_toBits
  rw [unpack_one]
  cases u : x.toModel.unpack with
  | notANumber => rw [← self, u]; rfl
  | infinity s => rw [← self, u]; cases s <;> rfl
  | zero s => rw [← self, u]; cases s <;> rfl
  | finite s m e pos => rw [div_finite_one (fits_unpack _ u), ← u, self]

end Binary
end TypedProperties
