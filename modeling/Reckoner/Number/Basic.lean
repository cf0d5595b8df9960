/-!
# Numbers

The values of the calculator are the 64-bit floating-point numbers of Lean, whose finite
members are `± m · 2 ^ e` with natural `m`. This file makes them from such parts: the
special values, the number nearest to a dyadic fraction or to a ratio, and the sign bit.
There is one NaN, so two numbers are the same exactly if their bits are.
-/

set_option autoImplicit false

namespace Reckoner.Number

open Float.Model (UnpackedFloat)
open Float.Model.UnpackedFloat (Sign)

/-- The one number that is not a number. -/
def nan : Float := .ofModel (.pack .notANumber)

/-- The infinity of the given sign. -/
def infinity (sign : Sign) : Float := .ofModel (.pack (.infinity sign))

/-- The floating-point number nearest to `± m · 2 ^ e`; zero keeps the sign it is given. -/
def ofDyadic (sign : Sign) (m : Nat) (e : Int) : Float :=
  .ofModel (.pack (UnpackedFloat.round .binary64 sign m e))

/-- The floating-point number nearest to `n / d`, a tie going to the one with an even
mantissa. The quotient is cut at the place where the mantissa of the answer ends or one
bit below it, and how it compares with half a unit there decides. -/
def ofRatio (n d : Nat) : Float :=
  let e := Float.Model.Format.binary64.targetExponent ((n.log2 : Int) - d.log2)
  let n' := n <<< (-e).toNat
  let d' := d <<< e.toNat
  .ofModel (.pack (UnpackedFloat.roundWithAccuracy .binary64 .positive (n' / d') e
    (UnpackedFloat.accuracyOfFraction (n' % d') d')))

/-- The sign bit is set: for `-0` and `-∞` too, but never for NaN, as the one NaN has no sign. -/
def isNegative (x : Float) : Bool :=
  match x.toModel.unpack with
  | .infinity .negative | .zero .negative | .finite .negative _ _ _ => true
  | _ => false

end Reckoner.Number
