import Reckoner.Number.Basic

/-!
# Rounding to whole numbers, and remainders

Rounding a finite number `± m · 2 ^ e` to a whole number and taking a remainder are
integer questions: everything below unpacks the number, answers in `Nat`, and packs the
answer again. Zeros, infinities and NaN are their own roundings, and a number that
rounds to zero keeps its sign (`ceil (-0.5)` is `-0`).
-/

set_option autoImplicit false

namespace Reckoner.Number

open Float.Model.UnpackedFloat (Sign)

/-- Rounds to a neighbouring whole number. A number between two of them is
`± (q + r / d)` with `0 ≤ r < d`, and `outward sign r d` says whether its magnitude
becomes `q + 1` instead of `q`. -/
def roundWith (outward : Sign → Nat → Nat → Bool) (x : Float) : Float :=
  match x.toModel.unpack with
  | .finite sign m e _ =>
    if 0 ≤ e then x
    else
      let d := 1 <<< (-e).toNat
      ofDyadic sign (m / d + (if outward sign (m % d) d then 1 else 0)) 0
  | _ => x

/-- The greatest whole number that is not above `x`. -/
def floor : Float → Float :=
  roundWith fun sign r _ => sign == .negative && r != 0

/-- The least whole number that is not below `x`. -/
def ceil : Float → Float :=
  roundWith fun sign r _ => sign == .positive && r != 0

/-- The nearest whole number, a half going away from zero. -/
def roundAway : Float → Float :=
  roundWith fun _ r d => d ≤ 2 * r

/-- The nearest whole number, a half going up: `2.5` to `3` and `-2.5` to `-2`. The
halves are found by a floating-point subtraction, which is inexact just below zero,
but there the ceiling is the nearest whole number as well. -/
def roundHalfUp (x : Float) : Float :=
  if x - floor x == 0.5 then ceil x else roundAway x

/-- The remainder of the division whose quotient is cut toward zero. It is exact and
has the sign of `x`; an infinite `x` and a zero `y` have none, and an infinite `y`
leaves `x` as it is. -/
def remainder (x y : Float) : Float :=
  match x.toModel.unpack, y.toModel.unpack with
  | .finite sign m e _, .finite _ n f _ =>
    let g := min e f
    ofDyadic sign ((m <<< (e - g).toNat) % (n <<< (f - g).toNat)) g
  | .finite .., .infinity _ | .zero _, .infinity _ | .zero _, .finite .. => x
  | _, _ => nan

end Reckoner.Number
