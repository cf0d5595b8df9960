import Reckoner.Number.Basic

/-!
# Greatest and least of many numbers

The greatest and the least of a list of numbers. NaN is not comparable, so a list that
holds it anywhere has NaN for both; an empty list has the neutral elements, the two
infinities.
-/

set_option autoImplicit false

namespace Reckoner.Number

open Float.Model.UnpackedFloat (Sign)

/-- Folds `choose` over the values from `start`, unless one of them is NaN: then the
answer is NaN, wherever it stands. -/
def extremum (choose : Float → Float → Float) (start : Float) (xs : List Float) : Float :=
  if xs.any Float.isNaN then nan else xs.foldl choose start

/-- The greatest of the values, `-∞` if there are none and NaN if one is NaN. -/
def maximum (xs : List Float) : Float :=
  extremum (fun a b => if a ≤ b then b else a) (infinity .negative) xs

/-- The least of the values, `+∞` if there are none and NaN if one is NaN. -/
def minimum (xs : List Float) : Float :=
  extremum (fun a b => if a ≤ b then a else b) (infinity .positive) xs

end Reckoner.Number
