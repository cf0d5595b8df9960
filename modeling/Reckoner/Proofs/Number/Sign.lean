import Reckoner.Number.Decimal
import Reckoner.Proofs.Number.Canonical

/-!
# The numbers of formulas have no sign

A number in a formula is a run of digits, or the NaN that a lenient reading puts in the place
of one. Rounding a ratio of natural numbers never sets the sign bit, and packing keeps it
clear also where a number is too large and becomes an infinity.
-/

set_option autoImplicit false

namespace Reckoner

namespace Number

open Float.Model (Format UnpackedFloat)
open Float.Model.UnpackedFloat

/-- The sign of the parts of a number, positive for what is not a number. -/
def signOf : UnpackedFloat → Sign
  | .notANumber => .positive
  | .infinity sign | .zero sign | .finite sign _ _ _ => sign

/-- A number whose parts have a positive sign has no minus sign. -/
theorem isNegative_eq_false {x : Float} (h : signOf x.toModel.unpack = .positive) :
    isNegative x = false := by
  unfold isNegative
  cases hx : x.toModel.unpack with
  | notANumber => rfl
  | _ sign =>
    rw [hx] at h
    obtain rfl : sign = .positive := h
    rfl

/-- What a word without the sign bit stands for has no sign. -/
theorem signOf_unpack {b : BitVec Format.binary64.numBits}
    (h : Sign.ofBitVec (unpackSign b) = .positive) :
    signOf (UnpackedFloat.unpack .binary64 b) = .positive := by
  unfold UnpackedFloat.unpack
  dsimp only
  split
  case isTrue => split <;> simp [signOf, h]
  case isFalse =>
    split
    case isTrue => split <;> exact h
    case isFalse => exact h

/-- The word that parts are packed to has their sign bit, whatever becomes of the mantissa
and the exponent. -/
theorem exists_packComponents_eq (u : UnpackedFloat) :
    ∃ exponent mantissa, UnpackedFloat.pack .binary64 u =
      packComponents .binary64 (signOf u) exponent mantissa := by
  cases u with
  | finite sign m e hm =>
    simp only [UnpackedFloat.pack]
    split
    case isTrue => exact ⟨_, _, rfl⟩
    case isFalse => split <;> exact ⟨_, _, rfl⟩
  | _ => exact ⟨_, _, rfl⟩

/-- Packed parts with a positive sign make a number without a minus sign. -/
theorem isNegative_pack {u : UnpackedFloat} (h : signOf u = .positive) :
    isNegative (.ofModel (.pack u)) = false := by
  obtain ⟨exponent, mantissa, hpack⟩ := exists_packComponents_eq u
  apply isNegative_eq_false
  show signOf (UnpackedFloat.unpack .binary64 (UnpackedFloat.pack .binary64 u)) = .positive
  apply signOf_unpack
  rw [hpack, unpackSign_packComponents, ofBitVec_toBitVec, h]

/-- NaN has no minus sign. -/
@[simp] theorem isNegative_nan : isNegative nan = false :=
  isNegative_pack rfl

/-- A ratio of natural numbers has no minus sign, however it is rounded. -/
@[simp] theorem isNegative_ofRatio (n d : Nat) : isNegative (ofRatio n d) = false := by
  apply isNegative_pack
  unfold roundWithAccuracy
  dsimp only
  split <;> rfl

end Number

/-- A decimal is read as a number without a minus sign. -/
@[simp] theorem Decimal.isNegative_toFloat (d : Decimal) : Number.isNegative d.toFloat = false :=
  Number.isNegative_ofRatio _ _

end Reckoner
