import Reckoner.Number.Decimal

/-!
# The shortest decimal of a floating-point number

A floating-point number is written with the fewest significant digits that read back
to it, the nearest such decimal winning. Every finite number is itself a decimal, with
hundreds of digits at worst, so the search starts from that one: on the grid that
keeps its first `n` digits only the two neighbours can be nearest, and the grids are
tried from the coarsest, which keeps none, to the one with seventeen, where one of the
two always reads back. A decimal is accepted only if reading it gives the number, and
the exact decimal stands at the end of the search, so whatever is written reads back.
-/

set_option autoImplicit false

namespace Reckoner

open Float.Model.UnpackedFloat (Sign)

namespace Decimal

/-- The decimal that is exactly `m · 2 ^ e`. -/
def ofDyadic (m : Nat) (e : Int) : Decimal :=
  if 0 ≤ e then ⟨m <<< e.toNat, 0⟩ else ⟨m * Nat.pow 5 (-e).toNat, (-e).toNat⟩

/-- The `n`-th point of the grid that `d` falls on when its last `dropped` digits are
cut off. -/
def gridPoint (d : Decimal) (dropped n : Nat) : Decimal :=
  ⟨n * Nat.pow 10 (dropped - d.places), d.places - dropped⟩

/-- The neighbours of `d` on the grid without its last `dropped` digits: first the nearer
one, which is the upper one when `d` lies halfway. -/
def neighbours (d : Decimal) (dropped : Nat) : List Decimal :=
  let unit := Nat.pow 10 dropped
  let below := d.gridPoint dropped (d.coefficient / unit)
  let above := d.gridPoint dropped (d.coefficient / unit + 1)
  if 2 * (d.coefficient % unit) < unit then [below, above] else [above, below]

/-- The first decimal that reads back as `x`, among the neighbours of `exact` on the
grids that keep `0` to `17` of its digits. -/
def shortest? (x : Float) (exact : Decimal) : Option Decimal :=
  let length := (Nat.toDigits 10 exact.coefficient).length
  (List.range 18).findSome? fun kept =>
    (exact.neighbours (length - kept)).find? fun d => d.toFloat = x

/-- The decimal written for the finite number `m · 2 ^ e`. -/
def shortest (m : Nat) (e : Int) : Decimal :=
  let exact := ofDyadic m e
  (shortest? (Number.ofDyadic .positive m e) exact).getD exact

end Decimal

namespace Number

/-- The text of a number: its shortest decimal, positional however long, without a point
if it is whole; `inf` and `NaN` for the rest, and a minus sign if the sign bit is set. -/
def text (x : Float) : String :=
  let sign := if isNegative x then "-" else ""
  match x.toModel.unpack with
  | .notANumber => "NaN"
  | .infinity _ => sign ++ "inf"
  | .zero _ => sign ++ "0"
  | .finite _ m e _ => sign ++ String.ofList (Decimal.shortest m e).chars

end Number

end Reckoner
