import Reckoner.Number.Basic

/-!
# Positional decimals

A decimal is written as a run of digits with at most one point. What the run stands
for is kept exactly, as a coefficient and the number of its places after the point;
only `Decimal.toFloat` rounds. Every decimal is the reading of its own text
(`ofChars_chars`), and all texts are plain positional ones: no sign, no exponent.
-/

set_option autoImplicit false

namespace Reckoner

/-- The number `coefficient / 10 ^ places`. -/
structure Decimal where
  coefficient : Nat
  places : Nat
  deriving DecidableEq, Repr

namespace Decimal

/-- What a run of digits and points stands for: the coefficient takes all digits, the
ones after the first point are its places. -/
def ofChars (run : List Char) : Decimal :=
  let whole := run.takeWhile (· != '.')
  let fraction := (run.dropWhile (· != '.')).drop 1
  ⟨Nat.ofDigitChars 10 (whole ++ fraction) 0, fraction.length⟩

/-- Reads a run of digits and points; it is a decimal if it has a digit and at most one
point, which may come first or last. -/
def ofRun? (run : List Char) : Option Decimal :=
  if run.any Char.isDigit && run.count '.' ≤ 1 then some (ofChars run) else none

/-- The digits of the decimal with a point before its places, and at least one digit
before the point. -/
def chars (d : Decimal) : List Char :=
  let digits := Nat.toDigits 10 d.coefficient
  if d.places = 0 then digits
  else
    let padded := List.replicate (d.places + 1 - digits.length) '0' ++ digits
    let whole := padded.length - d.places
    padded.take whole ++ '.' :: padded.drop whole

/-- The floating-point number nearest to the decimal, ties going to the even one. -/
def toFloat (d : Decimal) : Float :=
  Number.ofRatio d.coefficient (Nat.pow 10 d.places)

/-- A digit is no point. -/
private theorem ne_point_of_isDigit {c : Char} (h : c.isDigit = true) : (c != '.') = true := by
  simp only [bne_iff_ne, ne_eq]
  rintro rfl
  simp at h

/-- A run of digits with a point somewhere is read digit by digit. -/
theorem ofChars_append_point {whole fraction : List Char} (h : ∀ c ∈ whole, c.isDigit = true) :
    ofChars (whole ++ '.' :: fraction) =
      ⟨Nat.ofDigitChars 10 (whole ++ fraction) 0, fraction.length⟩ := by
  have hw : ∀ c ∈ whole, (c != '.') = true := fun c hc => ne_point_of_isDigit (h c hc)
  simp [ofChars, List.takeWhile_append_of_pos hw, List.dropWhile_append_of_pos hw]

/-- A run of digits alone has no places. -/
theorem ofChars_of_isDigit {run : List Char} (h : ∀ c ∈ run, c.isDigit = true) :
    ofChars run = ⟨Nat.ofDigitChars 10 run 0, 0⟩ := by
  have hw : ∀ c ∈ run, (c != '.') = true := fun c hc => ne_point_of_isDigit (h c hc)
  have ht : (run ++ []).takeWhile (· != '.') = run := by
    rw [List.takeWhile_append_of_pos hw]; simp
  have hd : (run ++ []).dropWhile (· != '.') = [] := by
    rw [List.dropWhile_append_of_pos hw]; rfl
  rw [List.append_nil] at ht hd
  simp [ofChars, ht, hd]

/-- Reading the text of a decimal gives back its coefficient and its places. -/
theorem ofChars_chars (d : Decimal) : ofChars d.chars = d := by
  obtain ⟨c, k⟩ := d
  have hdigit : ∀ x ∈ Nat.toDigits 10 c, x.isDigit = true := fun x hx =>
    Nat.isDigit_of_mem_toDigits (by decide) (by decide) hx
  have hpad : ∀ x ∈ List.replicate (k + 1 - (Nat.toDigits 10 c).length) '0' ++ Nat.toDigits 10 c,
      x.isDigit = true := by
    intro x hx
    rcases List.mem_append.1 hx with h | h
    · rw [List.eq_of_mem_replicate h]; rfl
    · exact hdigit x h
  by_cases hk : k = 0
  · subst hk
    simp [chars, ofChars_of_isDigit hdigit, Nat.ofDigitChars_ten_toDigits]
  · simp only [chars, hk, if_false]
    rw [ofChars_append_point fun x hx => hpad x (List.mem_of_mem_take hx), List.take_append_drop]
    congr 1
    · rw [Nat.ofDigitChars_append, Nat.ofDigitChars_replicate_zero]
      simp [Nat.ofDigitChars_ten_toDigits]
    · simp; omega

end Decimal

end Reckoner
