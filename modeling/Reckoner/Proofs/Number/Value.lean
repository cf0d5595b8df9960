import Reckoner.Proofs.Number.Exact

/-!
# Numbers as exact rationals

A finite number stands for a rational number, and an operation on numbers is exact where the
result of the operation on rationals is one that a number stands for. Rounding keeps such a
result, in whatever way it is written as a mantissa and an exponent, because its canonical parts
are determined by its value. Hence a difference that fits into a number is exact, and finite
numbers are equal exactly if their values are.
-/

set_option autoImplicit false

namespace Reckoner.Number

open Float.Model (Format UnpackedFloat totalExponent)
open Float.Model.UnpackedFloat

/-- The rational number that the parts of a finite number stand for, and zero for others. -/
def valueOf : UnpackedFloat → ℚ
  | .finite sign m e _ => sign.apply m * 2 ^ e
  | _ => 0

/-- The value of a finite number, and zero for others. -/
def toRat (x : Float) : ℚ :=
  valueOf x.toModel.unpack

/-- The number is finite and stands for the value. -/
structure HasValue (x : Float) (v : ℚ) : Prop where
  isFinite : x.isFinite = true
  toRat_eq : toRat x = v

/-- The magnitude of the value is an integer of 53 bits at an exponent that numbers have. -/
def Fits (v : ℚ) : Prop :=
  ∃ (n : ℕ) (g : ℤ), n < 2 ^ 53 ∧ -1074 ≤ g ∧ g ≤ 971 ∧ |v| = n * 2 ^ g

/-! ## A value determines its canonical parts -/

section Parts

variable {m n : ℕ} {e g : ℤ}

/-- At the lower exponent a mantissa has superfluous zero bits. -/
theorem eq_mul_two_pow (hle : g ≤ e) (hvalue : (n : ℚ) * 2 ^ g = m * 2 ^ e) :
    n = m * 2 ^ (e - g).toNat := by
  have hne : (2 : ℚ) ^ g ≠ 0 := zpow_ne_zero _ two_ne_zero
  have hexponent : e = (e - g).toNat + g := by omega
  rw [hexponent, zpow_add₀ two_ne_zero, zpow_natCast, ← mul_assoc] at hvalue
  have hmantissa := mul_right_cancel₀ hne hvalue
  have hgap : ((e - g).toNat + g - g).toNat = (e - g).toNat := by omega
  rw [hexponent, hgap]
  exact_mod_cast hmantissa

/-- The total exponent does not depend on how the value is written. -/
theorem totalExponent_eq_of_value (hm : m ≠ 0) (hle : g ≤ e)
    (hvalue : (n : ℚ) * 2 ^ g = m * 2 ^ e) : totalExponent n g = totalExponent m e := by
  rw [eq_mul_two_pow hle hvalue, totalExponent, totalExponent, log2_mul_two_pow hm]
  omega

/-- A value is rounded to its canonical parts, however it is written. -/
theorem round_eq_finite (h : Canonical m e) (hvalue : (n : ℚ) * 2 ^ g = m * 2 ^ e)
    (sign : Sign) : round .binary64 sign n g = .finite sign m e h.pos := by
  have hm : m ≠ 0 := Nat.ne_of_gt h.pos
  unfold UnpackedFloat.round decreaseExponent
  dsimp only
  obtain hle | hle := le_total g e
  · -- superfluous bits, which rounding shifts out
    rw [totalExponent_eq_of_value hm hle hvalue, h.targetExponent]
    have hshift : (g - e).toNat = 0 := by omega
    have hexponent : g - ((0 : ℕ) : ℤ) = e - ((e - g).toNat : ℤ) := by omega
    rw [hshift, Nat.shiftLeft_zero, hexponent, eq_mul_two_pow hle hvalue,
      roundWithAccuracy_exact h]
  · -- bits that are missing are put in before the rounding
    have hmantissa := eq_mul_two_pow hle hvalue.symm
    have hn : n ≠ 0 := by
      rintro rfl
      rw [Nat.zero_mul] at hmantissa
      exact hm hmantissa
    rw [← totalExponent_eq_of_value hn hle hvalue.symm, h.targetExponent]
    have hexponent : g - ((g - e).toNat : ℤ) = e - ((0 : ℕ) : ℤ) := by omega
    have hexact := roundWithAccuracy_exact h sign 0
    rw [Nat.pow_zero, Nat.mul_one] at hexact
    rw [Nat.shiftLeft_eq, ← hmantissa, hexponent, hexact]

/-- Different canonical parts have different values. -/
theorem Canonical.eq_of_value {m' : ℕ} {e' : ℤ} (h : Canonical m e) (h' : Canonical m' e')
    (hvalue : (m : ℚ) * 2 ^ e = m' * 2 ^ e') : m = m' ∧ e = e' := by
  have hparts := round_eq_finite h rfl .positive
  rw [round_eq_finite h' hvalue] at hparts
  injection hparts with _ hm he
  exact ⟨hm.symm, he.symm⟩

/-- An integer of at most 53 bits has canonical parts at any exponent that numbers have. -/
theorem exists_canonical (hpos : 0 < n) (hlt : n < 2 ^ 53) (hmin : -1074 ≤ g) (hmax : g ≤ 971) :
    ∃ (m : ℕ) (e : ℤ), Canonical m e ∧ (n : ℚ) * 2 ^ g = m * 2 ^ e := by
  have hn : n ≠ 0 := Nat.ne_of_gt hpos
  have hlog : n.log2 < 53 := (Nat.log2_lt hn).mpr hlt
  -- so many bits are missing, if there is room for them above the least exponent
  obtain ⟨k, hk⟩ : ∃ k : ℕ, k = min (52 - n.log2) (g + 1074).toNat := ⟨_, rfl⟩
  have hpow : n * 2 ^ k ≠ 0 := Nat.mul_ne_zero hn (Nat.ne_of_gt (Nat.two_pow_pos k))
  refine ⟨n * 2 ^ k, g - k, ⟨Nat.pos_of_ne_zero hpow, ?_, by omega, by omega, ?_⟩, ?_⟩
  · rw [← Nat.log2_lt hpow, log2_mul_two_pow hn]
    omega
  · by_cases hroom : 52 - n.log2 ≤ (g + 1074).toNat
    · left
      rw [← Nat.le_log2 hpow, log2_mul_two_pow hn]
      omega
    · right
      omega
  · rw [Nat.cast_mul, Nat.cast_pow, Nat.cast_ofNat, zpow_sub₀ two_ne_zero, zpow_natCast]
    field_simp

/-- Zero is rounded to a zero with the same sign. -/
theorem round_zero (sign : Sign) (g : ℤ) : round .binary64 sign 0 g = .zero sign := by
  have hshift (k : ℕ) : ExtendedMantissa.mk 0 false false >>> k = ⟨0, false, false⟩ := by
    have := shiftRight_mul_two_pow 0 k
    rwa [Nat.zero_mul] at this
  have hrounded : ExtendedMantissa.roundedMantissa ⟨0, false, false⟩ = 0 := rfl
  simp [UnpackedFloat.round, decreaseExponent, roundWithAccuracy, shiftToTargetExponent,
    shiftToExponent, ExtendedMantissa.ofMantissaAndAccuracy, hshift, hrounded]

end Parts

/-! ## Exact results -/

/-- The parts are canonical, and those of a finite number with the value. -/
structure Represents (u : UnpackedFloat) (v : ℚ) : Prop where
  isCanonical : IsCanonical u
  isFinite : u.isFinite = true
  valueOf_eq : valueOf u = v

/-- The parts of a number represent its value. -/
theorem HasValue.represents {x : Float} {v : ℚ} (h : HasValue x v) :
    Represents x.toModel.unpack v :=
  ⟨isCanonical_unpack x.toModel, h.isFinite, h.toRat_eq⟩

/-- Packing keeps the value. -/
theorem Represents.hasValue {u : UnpackedFloat} {v : ℚ} (h : Represents u v) :
    HasValue (.ofModel (.pack u)) v := by
  have hunpack : (Float.Model.pack u).unpack = u := unpack_pack h.isCanonical
  constructor
  · show (Float.Model.pack u).unpack.isFinite = true
    rw [hunpack, h.isFinite]
  · show valueOf (Float.Model.pack u).unpack = v
    rw [hunpack, h.valueOf_eq]

/-- Zeros of both signs represent zero. -/
theorem represents_zero (sign : Sign) : Represents (.zero sign) 0 :=
  ⟨trivial, rfl, rfl⟩

/-- A sign in front of a magnitude is a sign in front of its mantissa. -/
theorem apply_mul (sign : Sign) (n : ℕ) (q : ℚ) :
    (sign.apply n : ℚ) * q = match sign with | .positive => n * q | .negative => -(n * q) := by
  cases sign with
  | positive => rfl
  | negative => simp [Sign.apply]

/-- A sign does not change the magnitude. -/
theorem abs_apply_mul (sign : Sign) (n : ℕ) (g : ℤ) :
    |(sign.apply n : ℚ) * 2 ^ g| = n * 2 ^ g := by
  have hnonneg : (0 : ℚ) ≤ n * 2 ^ g := by positivity
  rw [apply_mul]
  cases sign with
  | positive => exact abs_of_nonneg hnonneg
  | negative => rw [abs_neg, abs_of_nonneg hnonneg]

/-- Rounding is exact if there is a number with the value. -/
theorem represents_round (sign : Sign) {n : ℕ} {g : ℤ} (h : Fits (sign.apply n * 2 ^ g)) :
    Represents (round .binary64 sign n g) (sign.apply n * 2 ^ g) := by
  obtain ⟨n', g', hlt, hmin, hmax, hvalue⟩ := h
  rw [abs_apply_mul] at hvalue
  obtain rfl | hpos := n.eq_zero_or_pos
  · rw [round_zero]
    cases sign <;> simpa [Sign.apply] using represents_zero _
  · have hpos' : 0 < n' := by
      rw [Nat.pos_iff_ne_zero]
      rintro rfl
      have : (0 : ℚ) < n * 2 ^ g := by positivity
      rw [hvalue, Nat.cast_zero, zero_mul] at this
      exact lt_irrefl 0 this
    obtain ⟨m, e, hcanonical, hparts⟩ := exists_canonical hpos' hlt hmin hmax
    rw [round_eq_finite hcanonical (hvalue.trans hparts)]
    refine ⟨hcanonical, rfl, ?_⟩
    rw [valueOf, apply_mul, apply_mul, hvalue, hparts]

/-- A value that fits is rounded to a number with that value. -/
theorem hasValue_ofDyadic (sign : Sign) {n : ℕ} {g : ℤ} (h : Fits (sign.apply n * 2 ^ g)) :
    HasValue (ofDyadic sign n g) (sign.apply n * 2 ^ g) :=
  (represents_round sign h).hasValue

/-- A mantissa with a sign is rounded like its magnitude. -/
theorem represents_normalize {m : ℤ} {g : ℤ} (zeroSign : Sign) (h : Fits (m * 2 ^ g)) :
    Represents (UnpackedFloat.normalize .binary64 m g zeroSign) (m * 2 ^ g) := by
  unfold UnpackedFloat.normalize
  split
  case h_1 hneg =>
    have hm : m = Sign.apply .negative (-m).toNat := by
      have := Int.compare_eq_lt.mp hneg
      simp only [Sign.apply]
      omega
    rw [hm] at h
    conv => rhs; rw [hm]
    exact represents_round .negative h
  case h_2 hzero =>
    rw [Int.compare_eq_eq.mp hzero, Int.cast_zero, zero_mul]
    exact represents_zero zeroSign
  case h_3 hpos =>
    have hm : m = Sign.apply .positive m.toNat := by
      have := Int.compare_eq_gt.mp hpos
      simp only [Sign.apply]
      omega
    rw [hm] at h
    conv => rhs; rw [hm]
    exact represents_round .positive h

/-- The opposite sign gives the opposite value. -/
theorem apply_neg (sign : Sign) (n : ℤ) : (-sign).apply n = -sign.apply n := by
  cases sign with
  | positive => rfl
  | negative => exact (Int.neg_neg n).symm

/-- At a lower exponent the mantissa becomes longer, and the value stays. -/
theorem apply_decreaseExponent (sign : Sign) (m : ℕ) {e g : ℤ} (hle : g ≤ e) :
    (sign.apply (decreaseExponent m e g).1 : ℚ) * 2 ^ g = sign.apply m * 2 ^ e := by
  have hexponent : (2 : ℚ) ^ e = 2 ^ (e - g).toNat * 2 ^ g := by
    rw [← zpow_natCast, ← zpow_add₀ two_ne_zero]
    congr 1
    omega
  rw [decreaseExponent, Nat.shiftLeft_eq, hexponent]
  cases sign <;> simp only [Sign.apply] <;> push_cast <;> ring

/-- A difference that fits is computed exactly. -/
theorem Represents.sub {u u' : UnpackedFloat} {v v' : ℚ} (hu : Represents u v)
    (hu' : Represents u' v') (h : Fits (v - v')) :
    Represents (UnpackedFloat.sub .binary64 u u') (v - v') := by
  obtain ⟨hcanonical, hfinite, rfl⟩ := hu
  obtain ⟨hcanonical', hfinite', rfl⟩ := hu'
  rcases u with _ | _ | sign | ⟨sign, m, e, hm⟩
  case infinity | notANumber => contradiction
  all_goals rcases u' with _ | _ | sign' | ⟨sign', m', e', hm'⟩
  case zero.infinity | zero.notANumber | finite.infinity | finite.notANumber => contradiction
  case zero.zero =>
    cases sign <;> cases sign' <;> exact ⟨trivial, rfl, (sub_zero 0).symm⟩
  case zero.finite =>
    refine ⟨hcanonical', rfl, ?_⟩
    simp [UnpackedFloat.sub, valueOf, apply_neg]
  case finite.zero =>
    refine ⟨hcanonical, rfl, ?_⟩
    simp [UnpackedFloat.sub, valueOf]
  case finite.finite =>
    -- the mantissas are subtracted at the lower of the exponents
    have hleft := apply_decreaseExponent sign m (min_le_left e e')
    have hright := apply_decreaseExponent sign' m' (min_le_right e e')
    rw [valueOf, valueOf, ← hleft, ← hright, ← sub_mul, ← Int.cast_sub] at h ⊢
    exact represents_normalize .positive h

/-- A difference is exact if there is a number with its value. -/
theorem HasValue.sub {x y : Float} {v w : ℚ} (hx : HasValue x v) (hy : HasValue y w)
    (h : Fits (v - w)) : HasValue (x - y) (v - w) :=
  (hx.represents.sub hy.represents h).hasValue

/-! ## Equality -/

/-- A mantissa that is not zero makes a value that is not zero. -/
theorem apply_mul_ne_zero (sign : Sign) {m : ℕ} (e : ℤ) (hm : 0 < m) :
    (sign.apply m * 2 ^ e : ℚ) ≠ 0 := by
  rw [← abs_pos, abs_apply_mul]
  positivity

/-- Canonical parts of the same value are the same. -/
theorem Canonical.eq_of_apply_eq {m m' : ℕ} {e e' : ℤ} (h : Canonical m e) (h' : Canonical m' e')
    {sign sign' : Sign} (hvalue : (sign.apply m * 2 ^ e : ℚ) = sign'.apply m' * 2 ^ e') :
    sign = sign' ∧ m = m' ∧ e = e' := by
  have hparts := congrArg (|·|) hvalue
  simp only [abs_apply_mul] at hparts
  obtain ⟨rfl, rfl⟩ := h.eq_of_value h' hparts
  have hmantissa := mul_right_cancel₀ (zpow_ne_zero _ two_ne_zero) hvalue
  have hpos := h.pos
  refine ⟨?_, rfl, rfl⟩
  cases sign <;> cases sign' <;> simp only [Sign.apply, Int.cast_inj] at hmantissa ⊢ <;> omega

/-- Parts that represent the same value are equal. -/
theorem Represents.beq {u w : UnpackedFloat} {v : ℚ} (hu : Represents u v)
    (hw : Represents w v) : u.beq w = true := by
  obtain ⟨hu, hfinite, rfl⟩ := hu
  obtain ⟨hw, hfinite', hvalue⟩ := hw
  rcases u with _ | _ | sign | ⟨sign, m, e, hm⟩
  case infinity | notANumber => contradiction
  all_goals rcases w with _ | _ | sign' | ⟨sign', m', e', hm'⟩
  case zero.infinity | zero.notANumber | finite.infinity | finite.notANumber => contradiction
  case zero.zero => rfl
  case zero.finite => exact absurd hvalue (apply_mul_ne_zero sign' e' hm')
  case finite.zero => exact absurd hvalue.symm (apply_mul_ne_zero sign e hm)
  case finite.finite =>
    obtain ⟨rfl, rfl, rfl⟩ := Canonical.eq_of_apply_eq hw hu hvalue
    rw [UnpackedFloat.beq_iff_ne_notANumber_and_eq]
    exact ⟨nofun, nofun, .inl rfl⟩

/-- Equal numbers have the same value. -/
theorem toRat_eq_of_beq {x y : Float} (h : (x == y) = true) : toRat x = toRat y := by
  obtain ⟨-, -, rfl | ⟨rfl, rfl⟩ | ⟨rfl, rfl⟩⟩ := Float.beq_iff_ne_nan_and_eq.mp h <;> rfl

/-- Finite numbers are equal exactly if their values are. -/
theorem HasValue.beq_iff {x y : Float} {v w : ℚ} (hx : HasValue x v) (hy : HasValue y w) :
    (x == y) = true ↔ v = w := by
  constructor
  · intro h
    rw [← hx.toRat_eq, ← hy.toRat_eq, toRat_eq_of_beq h]
  · rintro rfl
    exact hx.represents.beq hy.represents

end Reckoner.Number
