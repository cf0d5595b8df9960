import Reckoner.MathFunction
import Reckoner.Proofs.Number.Value

/-!
# Rounding to whole numbers is exact

Whole numbers between finite numbers are finite numbers themselves, so the floor, the ceiling
and the nearest whole number of a finite number are those of its value. Halves are found by
subtracting the floor. That difference is exact as long as it is at most one half, where it
has the exponent of the number and not more bits. A larger one may be rounded to one half,
but then the ceiling is the nearest whole number as well.
-/

set_option autoImplicit false

namespace Reckoner.Number

open Float.Model (UnpackedFloat)
open Float.Model.UnpackedFloat

/-- The whole number nearest to a rational, a half going away from zero. -/
def halfAway (v : ℚ) : ℤ :=
  if 0 ≤ v then ⌊v + 1 / 2⌋ else -⌊-v + 1 / 2⌋

/-- The test of the remainder rounds the magnitude of a rational as the function rounds the
rational. -/
structure Rounds (outward : Sign → ℕ → ℕ → Bool) (f : ℚ → ℤ) : Prop where
  intCast (n : ℤ) : f n = n
  positive (q : ℕ) {r d : ℕ} (h : r < d) :
    f (q + r / d) = q + if outward .positive r d then 1 else 0
  negative (q : ℕ) {r d : ℕ} (h : r < d) :
    f (-(q + r / d)) = -(q + if outward .negative r d then 1 else 0)

/-! ## The three tests of the remainder -/

section Remainder

variable {r d : ℕ}

/-- A remainder makes less than one. -/
theorem fraction_lt_one (h : r < d) : (r / d : ℚ) < 1 := by
  have hd : (0 : ℚ) < d := by exact_mod_cast Nat.zero_lt_of_lt h
  rw [div_lt_one hd]
  exact_mod_cast h

/-- A remainder that is not zero makes more than nothing. -/
theorem fraction_pos (h : r < d) (hr : r ≠ 0) : (0 : ℚ) < r / d := by
  have hd : (0 : ℚ) < d := by exact_mod_cast Nat.zero_lt_of_lt h
  have : (0 : ℚ) < r := by exact_mod_cast Nat.pos_of_ne_zero hr
  positivity

/-- A remainder makes a half or more if twice the remainder reaches the divisor. -/
theorem half_le_fraction_iff (h : r < d) : (1 / 2 : ℚ) ≤ r / d ↔ d ≤ 2 * r := by
  have hd : (0 : ℚ) < d := by exact_mod_cast Nat.zero_lt_of_lt h
  rw [div_le_div_iff₀ two_pos hd, one_mul, mul_comm]
  exact_mod_cast Iff.rfl

/-- The fraction is dropped on the way down. -/
theorem floor_add_fraction (q : ℕ) (h : r < d) : ⌊(q + r / d : ℚ)⌋ = q := by
  have hlt := fraction_lt_one h
  have hnonneg : (0 : ℚ) ≤ r / d := by positivity
  rw [Int.floor_eq_iff, Int.cast_natCast]
  constructor <;> linarith

/-- Any fraction makes one more on the way up. -/
theorem ceil_add_fraction (q : ℕ) (h : r < d) :
    ⌈(q + r / d : ℚ)⌉ = q + if r != 0 then 1 else 0 := by
  by_cases hr : r = 0
  · simp [hr]
  · have hlt := fraction_lt_one h
    have hpos := fraction_pos h hr
    rw [if_pos (bne_iff_ne.mpr hr), Int.ceil_eq_iff]
    push_cast
    constructor <;> linarith

/-- A half is added to a magnitude by adding one where the remainder is at least a half. -/
theorem floor_add_half (q : ℕ) (h : r < d) :
    ⌊(q + r / d + 1 / 2 : ℚ)⌋ = q + if d ≤ 2 * r then 1 else 0 := by
  have hlt := fraction_lt_one h
  have hnonneg : (0 : ℚ) ≤ r / d := by positivity
  have hhalf := half_le_fraction_iff h
  rw [Int.floor_eq_iff]
  split
  case isTrue hle =>
    have := hhalf.mpr hle
    push_cast
    constructor <;> linarith
  case isFalse hlt =>
    have := not_le.mp (mt hhalf.mp hlt)
    push_cast
    constructor <;> linarith

end Remainder

/-- Rounding down goes outward for negative values that are not whole. -/
theorem rounds_floor : Rounds (fun sign r _ => sign == .negative && r != 0) (fun v => ⌊v⌋) where
  intCast := Int.floor_intCast
  positive q _ _ h := by
    rw [floor_add_fraction q h]
    exact (add_zero _).symm
  negative q _ _ h := by
    rw [Int.floor_neg, ceil_add_fraction q h]
    rfl

/-- Rounding up goes outward for positive values that are not whole. -/
theorem rounds_ceil : Rounds (fun sign r _ => sign == .positive && r != 0) (fun v => ⌈v⌉) where
  intCast := Int.ceil_intCast
  positive q _ _ h := by
    rw [ceil_add_fraction q h]
    rfl
  negative q _ _ h := by
    rw [Int.ceil_neg, floor_add_fraction q h]
    exact congrArg (-·) (add_zero _).symm

/-- A half above a whole number is rounded down to it. -/
theorem floor_intCast_add_half (n : ℤ) : ⌊(n + 1 / 2 : ℚ)⌋ = n := by
  rw [Int.floor_eq_iff]
  constructor <;> linarith

/-- Away from zero is toward the other side on the other side of zero. -/
theorem halfAway_neg (v : ℚ) : halfAway (-v) = -halfAway v := by
  obtain hv | rfl | hv := lt_trichotomy v 0
  · rw [halfAway, halfAway, if_pos (by linarith), if_neg (by linarith), Int.neg_neg]
  · norm_num [halfAway]
  · rw [halfAway, halfAway, if_neg (by linarith), if_pos (by linarith), InvolutiveNeg.neg_neg]

/-- Rounding to the nearest goes outward from a half on, whatever the sign. -/
theorem rounds_halfAway : Rounds (fun _ r d => d ≤ 2 * r) halfAway := by
  have hpositive (q : ℕ) {r d : ℕ} (h : r < d) :
      halfAway (q + r / d) = q + if d ≤ 2 * r then 1 else 0 := by
    rw [halfAway, if_pos (by positivity), floor_add_half q h]
  refine ⟨fun n => ?_, fun q _ _ h => ?_, fun q _ _ h => ?_⟩
  · unfold halfAway
    split
    · exact floor_intCast_add_half n
    · rw [← Int.cast_neg, floor_intCast_add_half, Int.neg_neg]
  · simp only [decide_eq_true_eq, hpositive q h]
  · simp only [decide_eq_true_eq, halfAway_neg, hpositive q h]

/-! ## Exact rounding -/

/-- The magnitude is the quotient and the fraction that remains. -/
theorem Rounds.apply_div {outward : Sign → ℕ → ℕ → Bool} {f : ℚ → ℤ} (h : Rounds outward f)
    (sign : Sign) (m : ℕ) {d : ℕ} (hd : 0 < d) :
    f (sign.apply m / d) = sign.apply (m / d + if outward sign (m % d) d then 1 else 0 : ℕ) := by
  have hne : (d : ℚ) ≠ 0 := by exact_mod_cast Nat.ne_of_gt hd
  have hquotient : (m / d : ℚ) = (m / d : ℕ) + (m % d : ℕ) / d := by
    have hm : (m : ℚ) = d * (m / d : ℕ) + (m % d : ℕ) := by
      exact_mod_cast (Nat.div_add_mod m d).symm
    rw [div_eq_iff hne, add_mul, div_mul_cancel₀ _ hne, mul_comm, ← hm]
  cases sign with
  | positive =>
    show f ((m : ℤ) / d) = _
    rw [Int.cast_natCast, hquotient, h.positive _ (Nat.mod_lt m hd)]
    push_cast
    rfl
  | negative =>
    show f ((-m : ℤ) / d) = _
    rw [Int.cast_neg, Int.cast_natCast, neg_div, hquotient, h.negative _ (Nat.mod_lt m hd)]
    push_cast
    rfl

/-- A whole number of 53 bits has the value that it is written as. -/
theorem hasValue_whole (sign : Sign) {n : ℕ} (h : n < 2 ^ 53) :
    HasValue (ofDyadic sign n 0) (sign.apply n : ℤ) := by
  have hvalue : ((sign.apply n : ℤ) : ℚ) = sign.apply n * 2 ^ (0 : ℤ) := by
    rw [zpow_zero, mul_one]
  rw [hvalue]
  exact hasValue_ofDyadic sign ⟨n, 0, h, by decide, by decide, abs_apply_mul sign n 0⟩

/-- Dividing by a power of two is multiplying by its inverse. -/
theorem div_two_pow (q : ℚ) (k : ℕ) : q / (2 ^ k : ℕ) = q * 2 ^ (-k : ℤ) := by
  rw [zpow_neg, zpow_natCast, div_eq_mul_inv, Nat.cast_pow, Nat.cast_ofNat]

/-- A finite number is whole and its own rounding, or a fraction with at least one binary
place whose quotient is rounded. -/
theorem HasValue.whole_or_fraction {x : Float} {v : ℚ} (hx : HasValue x v) :
    ((∃ n : ℤ, v = n) ∧ ∀ outward, roundWith outward x = x) ∨
      ∃ (sign : Sign) (m k : ℕ), Canonical m (-k) ∧ 0 < k ∧ v = sign.apply m / (2 ^ k : ℕ) ∧
        ∀ outward, roundWith outward x =
          ofDyadic sign (m / 2 ^ k + if outward sign (m % 2 ^ k) (2 ^ k) then 1 else 0) 0 := by
  obtain ⟨hcanonical, hfinite, hvalue⟩ := hx.represents
  unfold roundWith
  cases hu : x.toModel.unpack with
  | notANumber | infinity =>
    rw [hu] at hfinite
    contradiction
  | zero sign =>
    rw [hu] at hvalue
    exact .inl ⟨⟨0, hvalue.symm⟩, fun _ => rfl⟩
  | finite sign m e hm =>
    rw [hu] at hcanonical hvalue
    have hv : v = sign.apply m * 2 ^ e := hvalue.symm
    dsimp only
    obtain ⟨k, rfl | rfl⟩ := e.eq_nat_or_neg
    · left
      refine ⟨⟨sign.apply m * 2 ^ k, ?_⟩, fun _ => if_pos (Int.natCast_nonneg k)⟩
      rw [hv]
      push_cast
      rfl
    · obtain rfl | hk := k.eq_zero_or_pos
      · exact .inl ⟨⟨sign.apply m, by rw [hv]; simp⟩, fun _ => rfl⟩
      · right
        refine ⟨sign, m, k, hcanonical, hk, ?_, fun outward => ?_⟩
        · rw [hv, div_two_pow]
        · rw [if_neg (by omega), Int.neg_neg, Int.toNat_natCast, Nat.shiftLeft_eq, Nat.one_mul]

/-- What is rounded to a whole number is one already, or so small that the whole numbers next
to it are numbers. -/
theorem Rounds.hasValue {outward : Sign → ℕ → ℕ → Bool} {f : ℚ → ℤ} (h : Rounds outward f)
    {x : Float} {v : ℚ} (hx : HasValue x v) : HasValue (roundWith outward x) (f v) := by
  obtain ⟨⟨n, rfl⟩, hself⟩ | ⟨sign, m, k, hcanonical, hk, rfl, hround⟩ := hx.whole_or_fraction
  · rwa [hself, h.intCast]
  · rw [hround, h.apply_div sign m (Nat.two_pow_pos k)]
    apply hasValue_whole
    -- the fraction has at least one bit, so that there is room to go up by one
    have hle : m / 2 ^ k ≤ m / 2 := Nat.div_le_div_left (Nat.le_self_pow (by omega) 2) two_pos
    have hlt := hcanonical.lt
    split <;> omega

/-- Rounding down gives the floor of the value. -/
theorem HasValue.floor {x : Float} {v : ℚ} (hx : HasValue x v) : HasValue (floor x) ⌊v⌋ :=
  rounds_floor.hasValue hx

/-- Rounding up gives the ceiling of the value. -/
theorem HasValue.ceil {x : Float} {v : ℚ} (hx : HasValue x v) : HasValue (ceil x) ⌈v⌉ :=
  rounds_ceil.hasValue hx

/-- Rounding to the nearest gives the nearest whole number, and of two the one away from zero. -/
theorem HasValue.roundAway {x : Float} {v : ℚ} (hx : HasValue x v) :
    HasValue (roundAway x) (halfAway v) :=
  rounds_halfAway.hasValue hx

/-! ## The difference from the floor -/

/-- Zero fits. -/
theorem fits_zero : Fits 0 :=
  ⟨0, 0, by decide, by decide, by decide, by simp⟩

/-- A fraction has the binary places of the number, and not more bits if it is not greater. -/
theorem HasValue.fits_fract {x : Float} {v : ℚ} (hx : HasValue x v) (hle : Int.fract v ≤ |v|) :
    Fits (Int.fract v) := by
  obtain ⟨⟨n, rfl⟩, -⟩ | ⟨sign, m, k, hcanonical, -, rfl, -⟩ := hx.whole_or_fraction
  · rw [Int.fract_intCast]
    exact fits_zero
  · have hpow : (0 : ℚ) < (2 ^ k : ℕ) := by exact_mod_cast Nat.two_pow_pos k
    obtain ⟨n, hn⟩ := Int.eq_ofNat_of_zero_le
      (Int.emod_nonneg (sign.apply m) (by positivity : ((2 ^ k : ℕ) : ℤ) ≠ 0))
    have hfract : Int.fract (sign.apply m / (2 ^ k : ℕ) : ℚ) = n / (2 ^ k : ℕ) := by
      rw [Int.fract_div_intCast_eq_div_intCast_mod, hn, Int.cast_natCast]
    have habs : |(sign.apply m / (2 ^ k : ℕ) : ℚ)| = m / (2 ^ k : ℕ) := by
      rw [div_two_pow, div_two_pow, abs_apply_mul]
    rw [hfract] at hle ⊢
    rw [habs, div_le_div_iff_of_pos_right hpow, Nat.cast_le] at hle
    refine ⟨n, -k, hle.trans_lt hcanonical.lt, hcanonical.min_le, hcanonical.le_max, ?_⟩
    rw [abs_of_nonneg (by positivity), div_two_pow]

/-- A fraction of at most one half is not greater than the number it belongs to. -/
theorem fract_le_abs {v : ℚ} (h : Int.fract v ≤ 1 / 2) : Int.fract v ≤ |v| := by
  have hsum := Int.floor_add_fract v
  obtain hv | hv := le_or_gt 0 v
  · have hfloor : (0 : ℚ) ≤ ⌊v⌋ := by exact_mod_cast Int.floor_nonneg.mpr hv
    rw [abs_of_nonneg hv]
    linarith
  · have hfloor : (⌊v⌋ : ℚ) ≤ -1 := by
      have : ⌊v⌋ < 0 := Int.floor_lt_zero.mpr hv
      exact_mod_cast Int.le_sub_one_of_lt this
    rw [abs_of_neg hv]
    linarith

/-- A fraction of at most one half is subtracted exactly. -/
theorem HasValue.sub_floor {x : Float} {v : ℚ} (hx : HasValue x v) (h : Int.fract v ≤ 1 / 2) :
    HasValue (x - Number.floor x) (Int.fract v) :=
  hx.sub hx.floor (hx.fits_fract (fract_le_abs h))

/-- A half is exact. -/
theorem hasValue_half : HasValue 0.5 (1 / 2) := by
  refine ⟨rfl, ?_⟩
  have hunpack : (0.5 : Float).toModel.unpack = .finite .positive (2 ^ 52) (-53) (by decide) := rfl
  rw [toRat, hunpack]
  norm_num [valueOf, Sign.apply]

/-- What is found to be a half is one, or it is more than a half. -/
theorem HasValue.half_le_fract {x : Float} {v : ℚ} (hx : HasValue x v)
    (h : (x - Number.floor x == 0.5) = true) : 1 / 2 ≤ Int.fract v := by
  by_contra! hlt
  have hexact := (hx.sub_floor hlt.le).beq_iff hasValue_half
  exact hlt.ne (hexact.mp h)

/-- Every half is found. -/
theorem HasValue.fract_ne_half {x : Float} {v : ℚ} (hx : HasValue x v)
    (h : ¬ (x - Number.floor x == 0.5) = true) : Int.fract v ≠ 1 / 2 := by
  intro hhalf
  exact h (((hx.sub_floor hhalf.le).beq_iff hasValue_half).mpr hhalf)

/-! ## Halves go up -/

/-- From a half on, the whole number above is the nearest one. -/
theorem ceil_eq_floor_add_half {v : ℚ} (h : 1 / 2 ≤ Int.fract v) : ⌈v⌉ = ⌊v + 1 / 2⌋ := by
  have hsum := Int.floor_add_fract v
  have hlt := Int.fract_lt_one v
  have hceil : ⌈v⌉ = ⌊v⌋ + 1 := by
    rw [Int.ceil_eq_iff]
    push_cast
    constructor <;> linarith
  rw [hceil, eq_comm, Int.floor_eq_iff]
  push_cast
  constructor <;> linarith

/-- Apart from halves, the side to which a half would go does not matter. -/
theorem halfAway_eq_floor_add_half {v : ℚ} (h : Int.fract v ≠ 1 / 2) :
    halfAway v = ⌊v + 1 / 2⌋ := by
  unfold halfAway
  split
  case isTrue => rfl
  case isFalse =>
    have hle := Int.floor_le (v + 1 / 2)
    have hlt := Int.lt_floor_add_one (v + 1 / 2)
    have hne : (⌊v + 1 / 2⌋ : ℚ) ≠ v + 1 / 2 := by
      intro heq
      apply h
      rw [Int.fract_eq_iff]
      refine ⟨by norm_num, by norm_num, ⌊v + 1 / 2⌋ - 1, ?_⟩
      push_cast
      linarith
    have hdown : ⌊-v + 1 / 2⌋ = -⌊v + 1 / 2⌋ := by
      have := lt_of_le_of_ne hle hne
      rw [Int.floor_eq_iff]
      push_cast
      constructor <;> linarith
    rw [hdown, Int.neg_neg]

/-- Rounding half up gives the floor of the value with a half added, as if that sum were exact. -/
theorem HasValue.roundHalfUp {x : Float} {v : ℚ} (hx : HasValue x v) :
    HasValue (roundHalfUp x) ⌊v + 1 / 2⌋ := by
  unfold Number.roundHalfUp
  split
  case isTrue hfound =>
    rw [← ceil_eq_floor_add_half (hx.half_le_fract hfound)]
    exact hx.ceil
  case isFalse hother =>
    rw [← halfAway_eq_floor_add_half (hx.fract_ne_half hother)]
    exact hx.roundAway

/-- **Halves go up.** The floor and the ceiling of a finite number and the nearest whole number
with halves going away from zero are those of its value, and the nearest whole number with halves
going up is the floor of the value and one half. So it is also for the function of formulas. The
difference by which halves are found may be inexact, but then it decides between equal whole
numbers. -/
theorem roundHalfUp_exact {x : Float} (hx : x.isFinite = true) :
    HasValue (floor x) ⌊toRat x⌋ ∧ HasValue (ceil x) ⌈toRat x⌉ ∧
      HasValue (roundAway x) (halfAway (toRat x)) ∧
      HasValue (roundHalfUp x) ⌊toRat x + 1 / 2⌋ ∧
      ∀ sample, HasValue (MathFunction.round.call sample [x]) ⌊toRat x + 1 / 2⌋ := by
  have hvalue : HasValue x (toRat x) := ⟨hx, rfl⟩
  exact ⟨hvalue.floor, hvalue.ceil, hvalue.roundAway, hvalue.roundHalfUp,
    fun _ => hvalue.roundHalfUp⟩

/-- The number just above minus one half has a full mantissa. -/
theorem toRat_above_minus_half :
    toRat (-0.49999999999999994) = -((2 ^ 53 - 1) / 2 ^ 54) := by
  have hunpack : (-0.49999999999999994 : Float).toModel.unpack =
      .finite .negative (2 ^ 53 - 1) (-54) (by decide) := rfl
  rw [toRat, hunpack]
  norm_num [valueOf, Sign.apply]

/-- The number just above minus one half is taken for a half, and rounded to zero all the
same. -/
theorem roundHalfUp_exact_above_minus_half :
    (-0.49999999999999994 : Float).isFinite = true ∧
      ((-0.49999999999999994 : Float) - floor (-0.49999999999999994) == 0.5) = true ∧
      1 / 2 < Int.fract (toRat (-0.49999999999999994)) ∧
      HasValue (roundHalfUp (-0.49999999999999994)) 0 := by
  have hfloor : ⌊toRat (-0.49999999999999994) + 1 / 2⌋ = 0 := by
    rw [toRat_above_minus_half, Int.floor_eq_iff]
    norm_num
  have hrounded := (roundHalfUp_exact (x := -0.49999999999999994) rfl).2.2.2.1
  rw [hfloor] at hrounded
  have hfract : Int.fract (toRat (-0.49999999999999994)) = 1 / 2 + 1 / 2 ^ 54 := by
    rw [toRat_above_minus_half, Int.fract_eq_iff]
    exact ⟨by norm_num, by norm_num, -1, by norm_num⟩
  refine ⟨rfl, rfl, ?_, hrounded⟩
  rw [hfract]
  norm_num

end Reckoner.Number
