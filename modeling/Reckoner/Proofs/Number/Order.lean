import Reckoner.Proofs.Number.Canonical

/-!
# The order of numbers

Numbers are compared by their parts: the infinities lie outside of all others, negative numbers
below zero and positive ones above it, and of two numbers with the same sign the exponents are
compared before the mantissas. Hence every number other than NaN has a place in a linear order
(`place`), comparing numbers is comparing their places, and numbers are equal exactly if they
have the same place, as the two zeros have.
-/

set_option autoImplicit false

namespace Reckoner.Number

open Float.Model (UnpackedFloat)
open Float.Model.UnpackedFloat

/-- The place of the parts of a number, which starts with a code of their kind. NaN has none;
it is put beside zero. -/
def placeOf : UnpackedFloat → ℤ ×ₗ ℤ ×ₗ ℤ
  | .infinity .negative => toLex (-2, toLex (0, 0))
  | .finite .negative m e _ => toLex (-1, toLex (-e, -m))
  | .zero _ | .notANumber => toLex (0, toLex (0, 0))
  | .finite .positive m e _ => toLex (1, toLex (e, m))
  | .infinity .positive => toLex (2, toLex (0, 0))

/-- The place of a number. -/
def place (x : Float) : ℤ ×ₗ ℤ ×ₗ ℤ :=
  placeOf x.toModel.unpack

/-! ## Comparing places -/

section Compare

variable {α β : Type} [LinearOrder α] [LinearOrder β]

/-- Pairs are compared by their first parts, and by the second where these are equal. -/
theorem compare_toLex (a a' : α) (b b' : β) :
    compare (toLex (a, b)) (toLex (a', b')) = (compare a a').then (compare b b') := by
  rw [Prod.Lex.compare_def]
  rfl

/-- Natural numbers compare as integers do. -/
theorem compare_natCast (m n : ℕ) : compare (m : ℤ) n = compare m n := by
  rw [← cmp_eq_compare, ← cmp_eq_compare, Nat.strictMono_cast.cmp_map_eq]

/-- With both signs changed the order is the other way round. -/
theorem compare_neg (a b : ℤ) : compare (-a) (-b) = (compare a b).swap := by
  have hneg : StrictAnti fun n : ℤ => -n := strictMono_id.neg
  rw [← cmp_eq_compare, ← cmp_eq_compare, cmp_swap]
  exact hneg.cmp_map_eq a b

end Compare

/-- The parts of an infinity are those it is made of. -/
theorem place_infinity (sign : Sign) : place (infinity sign) = placeOf (.infinity sign) := by
  rw [place, infinity]
  exact congrArg placeOf (unpack_pack trivial)

/-- No place comes before that of minus infinity. -/
theorem place_infinity_negative_le (x : Float) : place (infinity .negative) ≤ place x := by
  rw [place_infinity, place]
  rcases x.toModel.unpack with ⟨_ | _⟩ | _ | _ | ⟨_ | _, m, e, _⟩
  all_goals simp [placeOf, Prod.Lex.toLex_le_toLex]

/-- No place comes behind that of infinity. -/
theorem place_le_infinity_positive (x : Float) : place x ≤ place (infinity .positive) := by
  rw [place_infinity, place]
  rcases x.toModel.unpack with ⟨_ | _⟩ | _ | _ | ⟨_ | _, m, e, _⟩
  all_goals simp [placeOf, Prod.Lex.toLex_le_toLex]

/-- Parts of numbers other than NaN are compared as their places are. -/
theorem compare_eq_compare_placeOf {u w : UnpackedFloat} (hu : u ≠ .notANumber)
    (hw : w ≠ .notANumber) : u.compare w = some (compare (placeOf u) (placeOf w)) := by
  rcases u with sign | _ | sign | ⟨sign, m, e, hm⟩
  case notANumber => contradiction
  all_goals rcases w with sign' | _ | sign' | ⟨sign', m', e', hm'⟩
  case infinity.notANumber | zero.notANumber | finite.notANumber => contradiction
  case finite.finite =>
    -- only numbers of one sign are compared by exponent and mantissa
    cases sign <;> cases sign'
    case negative.negative =>
      simp only [UnpackedFloat.compare, placeOf, compare_toLex, compare_neg, compare_natCast,
        Ordering.swap_then]
      rfl
    case positive.positive =>
      simp only [UnpackedFloat.compare, placeOf, compare_toLex, compare_natCast]
      rfl
    case negative.positive | positive.negative => rfl
  all_goals cases sign <;> cases sign' <;> rfl

/-! ## Comparing numbers -/

/-- The parts of a number are not those of NaN. -/
theorem unpack_ne_notANumber {x : Float} (h : x.isNaN = false) :
    x.toModel.unpack ≠ .notANumber := by
  intro hnan
  have hisNaN : x.toModel.unpack.isNaN = false := h
  rw [hnan] at hisNaN
  contradiction

section

variable {x y : Float}

/-- Numbers compare as their places do. -/
theorem compare_unpack (hx : x.isNaN = false) (hy : y.isNaN = false) :
    x.toModel.unpack.compare y.toModel.unpack = some (compare (place x) (place y)) :=
  compare_eq_compare_placeOf (unpack_ne_notANumber hx) (unpack_ne_notANumber hy)

/-- A number is at most another if its place is. -/
theorem le_iff_place_le (hx : x.isNaN = false) (hy : y.isNaN = false) :
    x ≤ y ↔ place x ≤ place y := by
  have hle : x ≤ y ↔ x.toModel.unpack.le y.toModel.unpack = true := decide_eq_true_iff
  rw [hle, UnpackedFloat.le, compare_unpack hx hy, Option.any_some, ← compare_le_iff_le]
  exact Ordering.isLE_iff_ne_gt

/-- A number is less than another if its place is. -/
theorem lt_iff_place_lt (hx : x.isNaN = false) (hy : y.isNaN = false) :
    x < y ↔ place x < place y := by
  have hlt : x < y ↔ x.toModel.unpack.lt y.toModel.unpack = true := decide_eq_true_iff
  rw [hlt, UnpackedFloat.lt, compare_unpack hx hy, beq_iff_eq, Option.some.injEq,
    compare_lt_iff_lt]

/-- Equal numbers have the same place. -/
theorem beq_iff_place_eq (hx : x.isNaN = false) (hy : y.isNaN = false) :
    (x == y) = true ↔ place x = place y := by
  show x.toModel.unpack.beq y.toModel.unpack = true ↔ _
  rw [UnpackedFloat.beq, compare_unpack hx hy, beq_iff_eq, Option.some.injEq,
    compare_eq_iff_eq]

/-- What is equal to a number is not NaN. -/
theorem isNaN_eq_false_of_beq (h : (x == y) = true) : x.isNaN = false ∧ y.isNaN = false := by
  obtain ⟨hx, hy, -⟩ := Float.beq_iff_ne_nan_and_eq.mp h
  simp [hx, hy]

end

end Reckoner.Number
