import Reckoner.Proofs.Number.Canonical

/-!
# Rounding what needs no rounding

A dyadic fraction or a ratio whose value is that of a number is rounded to that number.
Superfluous zero bits of a mantissa are shifted out, nothing is lost with them, and what
remains is at the exponent where a mantissa of its length belongs. A ratio is cut at that
exponent or below it, and the division has no remainder there.
-/

set_option autoImplicit false

namespace Reckoner.Number

open Float.Model (Format UnpackedFloat totalExponent)
open Float.Model.UnpackedFloat

variable {m : Nat} {e : Int}

/-- A number is rounded to 53 bits, or to the least exponent. -/
theorem targetExponent_eq (t : Int) :
    Format.binary64.targetExponent t = max (t - 53) (-1074) := rfl

/-- Canonical parts have the exponent that they would be rounded to. -/
theorem Canonical.targetExponent (h : Canonical m e) :
    Format.binary64.targetExponent (totalExponent m e) = e := by
  have hlt := h.log2_lt
  have hmin := h.min_le
  have hfull := h.log2_eq_iff
  rw [targetExponent_eq, totalExponent]
  rcases h.full_or_min with hm | he
  · have := hfull.mpr hm
    omega
  · omega

/-- Zeros at the end of a mantissa are shifted out without loss. -/
theorem shiftRight_mul_two_pow (m k : Nat) :
    ExtendedMantissa.mk (m * 2 ^ k) false false >>> k = ⟨m, false, false⟩ := by
  suffices h : ∀ a : Nat, Nat.repeat ExtendedMantissa.shiftRightOne k ⟨a * 2 ^ k, false, false⟩ =
      ⟨a, false, false⟩ from h m
  induction k with
  | zero =>
    intro a
    rw [Nat.pow_zero, Nat.mul_one]
    rfl
  | succ k ih =>
    intro a
    have hpow : a * 2 ^ (k + 1) = a * 2 * 2 ^ k := by
      rw [Nat.pow_succ, Nat.mul_comm (2 ^ k), Nat.mul_assoc]
    rw [hpow]
    show ExtendedMantissa.shiftRightOne
      (Nat.repeat ExtendedMantissa.shiftRightOne k ⟨a * 2 * 2 ^ k, false, false⟩) = _
    rw [ih (a * 2)]
    simp [ExtendedMantissa.shiftRightOne]

/-- A factor that is a power of two adds its exponent to the number of bits. -/
theorem log2_mul_two_pow {a : Nat} (ha : a ≠ 0) (k : Nat) :
    (a * 2 ^ k).log2 = a.log2 + k := by
  induction k with
  | zero => rw [Nat.pow_zero, Nat.mul_one]; rfl
  | succ k ih =>
    have hne : a * 2 ^ k ≠ 0 := Nat.mul_ne_zero ha (Nat.ne_of_gt (Nat.two_pow_pos k))
    rw [Nat.pow_succ, ← Nat.mul_assoc, Nat.mul_comm, Nat.log2_two_mul hne, ih]
    rfl

/-- Canonical parts with zeros behind the mantissa are found again at the target exponent, and
exactly. -/
theorem shiftToTargetExponent_exact (h : Canonical m e) (k : Nat) :
    shiftToTargetExponent .binary64 (m * 2 ^ k) (e - k) .exact = (⟨m, false, false⟩, e) := by
  have htotal : totalExponent (m * 2 ^ k) (e - k) = totalExponent m e := by
    rw [totalExponent, totalExponent, log2_mul_two_pow (Nat.ne_of_gt h.pos)]
    omega
  have hshift : (e - (e - k)).toNat = k := by omega
  unfold shiftToTargetExponent shiftToExponent
  dsimp only
  rw [htotal, h.targetExponent, hshift]
  simp only [ExtendedMantissa.ofMantissaAndAccuracy, shiftRight_mul_two_pow]
  congr 1
  omega

/-- A value that has canonical parts is rounded to them, when it is given exactly and with
any number of superfluous bits. -/
theorem roundWithAccuracy_exact (h : Canonical m e) (sign : Sign) (k : Nat) :
    roundWithAccuracy .binary64 sign (m * 2 ^ k) (e - k) .exact = .finite sign m e h.pos := by
  have hfirst := shiftToTargetExponent_exact h k
  have hsecond := shiftToTargetExponent_exact h 0
  have hm : m * 2 ^ 0 = m := by omega
  have he : e - (0 : Nat) = e := by omega
  rw [hm, he] at hsecond
  have hne : m ≠ 0 := Nat.ne_of_gt h.pos
  have hround : ExtendedMantissa.roundedMantissa ⟨m, false, false⟩ = m := rfl
  simp only [roundWithAccuracy, hfirst, hround, hsecond, hne, dif_neg, not_false_eq_true]

/-- Canonical parts are rounded to the number that has them. -/
theorem ofDyadic_canonical (h : Canonical m e) (sign : Sign) :
    ofDyadic sign m e = .ofModel (.pack (.finite sign m e h.pos)) := by
  have hround := roundWithAccuracy_exact h sign 0
  have hshift : (e - e).toNat = 0 := by omega
  unfold ofDyadic UnpackedFloat.round decreaseExponent
  dsimp only
  rw [h.targetExponent, hshift, Nat.shiftLeft_zero]
  rw [Nat.pow_zero, Nat.mul_one] at hround
  rw [← hround]

/-- A product has at most as many bits as its factors together. -/
theorem log2_mul_le {a b : Nat} (hab : a * b ≠ 0) : (a * b).log2 ≤ a.log2 + b.log2 + 1 := by
  apply Nat.le_of_lt_succ
  rw [Nat.log2_lt hab]
  have hpow : 2 ^ (a.log2 + b.log2 + 1).succ = 2 ^ (a.log2 + 1) * 2 ^ (b.log2 + 1) := by
    rw [← Nat.pow_add]
    congr 1
    omega
  rw [hpow]
  exact Nat.mul_lt_mul'' Nat.lt_log2_self Nat.lt_log2_self

/-- A ratio whose value has canonical parts is not cut above their exponent. -/
theorem targetExponent_ratio (h : Canonical m e) {n d : Nat} (hd : d ≠ 0)
    (hvalue : n * 2 ^ (-e).toNat = m * d * 2 ^ e.toNat) :
    ∃ k : Nat, Format.binary64.targetExponent ((n.log2 : Int) - d.log2) = e - k := by
  have hm : m ≠ 0 := Nat.ne_of_gt h.pos
  have hmd : m * d ≠ 0 := Nat.mul_ne_zero hm hd
  have hn : n ≠ 0 := by
    intro h0
    rw [h0, Nat.zero_mul] at hvalue
    exact Nat.mul_ne_zero hmd (Nat.ne_of_gt (Nat.two_pow_pos _)) hvalue.symm
  have hlog := congrArg Nat.log2 hvalue
  rw [log2_mul_two_pow hn, log2_mul_two_pow hmd] at hlog
  have hle := log2_mul_le hmd
  have htarget := h.targetExponent
  rw [targetExponent_eq, totalExponent] at htarget
  rw [targetExponent_eq]
  have hmin := h.min_le
  refine ⟨(e - max ((n.log2 : Int) - d.log2 - 53) (-1074)).toNat, ?_⟩
  omega

/-- The quotient at an exponent not above that of the canonical parts is the mantissa
with as many zero bits behind it, and nothing remains. -/
theorem ratio_at_exponent {n d k : Nat}
    (hvalue : n * 2 ^ (-e).toNat = m * d * 2 ^ e.toNat) :
    n * 2 ^ (-(e - k)).toNat = m * 2 ^ k * (d * 2 ^ (e - k).toNat) := by
  have hexponents : e.toNat + (-(e - k)).toNat = k + (e - k).toNat + (-e).toNat := by omega
  apply Nat.eq_of_mul_eq_mul_right (Nat.two_pow_pos (-e).toNat)
  calc n * 2 ^ (-(e - k)).toNat * 2 ^ (-e).toNat
      = n * 2 ^ (-e).toNat * 2 ^ (-(e - k)).toNat := Nat.mul_right_comm _ _ _
    _ = m * d * (2 ^ e.toNat * 2 ^ (-(e - k)).toNat) := by rw [hvalue, Nat.mul_assoc]
    _ = m * d * (2 ^ k * 2 ^ (e - k).toNat * 2 ^ (-e).toNat) := by
      rw [← Nat.pow_add, hexponents, Nat.pow_add, Nat.pow_add]
    _ = m * 2 ^ k * (d * 2 ^ (e - k).toNat) * 2 ^ (-e).toNat := by
      rw [← Nat.mul_assoc, Nat.mul_mul_mul_comm]

/-- The number nearest to a ratio whose value has canonical parts is the number with these
parts. -/
theorem ofRatio_exact (h : Canonical m e) {n d : Nat} (hd : d ≠ 0)
    (hvalue : n * 2 ^ (-e).toNat = m * d * 2 ^ e.toNat) :
    ofRatio n d = .ofModel (.pack (.finite .positive m e h.pos)) := by
  obtain ⟨k, hexponent⟩ := targetExponent_ratio h hd hvalue
  have hquotient := ratio_at_exponent (k := k) hvalue
  have hpos : 0 < d * 2 ^ (e - k).toNat :=
    Nat.mul_pos (Nat.pos_of_ne_zero hd) (Nat.two_pow_pos _)
  unfold ofRatio
  dsimp only
  rw [hexponent, Nat.shiftLeft_eq, Nat.shiftLeft_eq, hquotient, Nat.mul_div_cancel _ hpos,
    Nat.mul_mod_left]
  have hexact : accuracyOfFraction 0 (d * 2 ^ (e - k).toNat) = .exact := rfl
  rw [hexact, roundWithAccuracy_exact h]

end Reckoner.Number
