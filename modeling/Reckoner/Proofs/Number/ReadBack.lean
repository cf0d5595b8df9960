import Reckoner.Token.Scan
import Reckoner.Proofs.Number.Exact

/-!
# The text of a number reads back

A finite number whose sign bit is clear is written as a decimal: a run of digits with at
most one point. The run is well formed and stands for the decimal that was written, and the
number nearest to this decimal is the one that was written. For a decimal that the search
for a short one accepts, this is what it was accepted for; the exact decimal, which is
written if the search fails, is a ratio with the value of the number.
-/

set_option autoImplicit false

namespace Reckoner

namespace Decimal

open Float.Model.UnpackedFloat
open Number (Canonical)

variable {m : Nat} {e : Int}

/-- The decimal that is exactly a number reads back as the number. -/
theorem toFloat_ofDyadic (h : Canonical m e) :
    (ofDyadic m e).toFloat = .ofModel (.pack (.finite .positive m e h.pos)) := by
  unfold toFloat
  apply Number.ofRatio_exact h
  · exact Nat.ne_of_gt (Nat.pow_pos (by decide))
  · unfold ofDyadic
    split
    case isTrue he =>
      have hneg : (-e).toNat = 0 := by omega
      dsimp only
      rw [hneg, Nat.shiftLeft_eq]
      simp only [Nat.pow_eq, Nat.pow_zero, Nat.mul_one]
    case isFalse he =>
      have hpos : e.toNat = 0 := by omega
      dsimp only
      rw [hpos, Nat.pow_zero, Nat.mul_one]
      show m * 5 ^ (-e).toNat * 2 ^ (-e).toNat = m * 10 ^ (-e).toNat
      rw [Nat.mul_assoc, ← Nat.mul_pow]

/-- A decimal that is found for a number is read as that number. -/
theorem shortest?_eq_some {x : Float} {exact d : Decimal} (h : shortest? x exact = some d) :
    d.toFloat = x := by
  obtain ⟨kept, -, hfound⟩ := List.exists_of_findSome?_eq_some h
  simpa using List.find?_some hfound

/-- Whatever is written for a number reads back as the number. -/
theorem toFloat_shortest (h : Canonical m e) :
    (shortest m e).toFloat = .ofModel (.pack (.finite .positive m e h.pos)) := by
  unfold shortest
  dsimp only
  rw [Number.ofDyadic_canonical h]
  cases hshortest : shortest? (.ofModel (.pack (.finite .positive m e h.pos))) (ofDyadic m e) with
  | none => exact toFloat_ofDyadic h
  | some d => exact shortest?_eq_some hshortest

/-- Digits belong to numbers. -/
theorem isNumberChar_of_isDigit {c : Char} (h : c.isDigit = true) : isNumberChar c = true := by
  rw [isNumberChar, h, Bool.true_or]

/-- The text of a decimal: digits, and after them maybe a point and further digits. -/
theorem exists_chars_eq (d : Decimal) :
    ∃ whole tail : List Char, d.chars = whole ++ tail ∧ whole ≠ [] ∧
      (∀ c ∈ whole, c.isDigit = true) ∧
      (tail = [] ∨ ∃ fraction, tail = '.' :: fraction ∧ ∀ c ∈ fraction, c.isDigit = true) := by
  have hdigits : ∀ c ∈ Nat.toDigits 10 d.coefficient, c.isDigit = true := by
    intro c hc
    exact Nat.isDigit_of_mem_toDigits (by decide) (by decide) hc
  unfold chars
  dsimp only
  split
  case isTrue =>
    exact ⟨_, [], (List.append_nil _).symm, Nat.toDigits_ne_nil, hdigits, .inl rfl⟩
  case isFalse hplaces =>
    -- zeros in front make sure that a digit is left before the point
    generalize hpadded :
      List.replicate (d.places + 1 - (Nat.toDigits 10 d.coefficient).length) '0' ++
        Nat.toDigits 10 d.coefficient = padded
    have hall : ∀ c ∈ padded, c.isDigit = true := by
      intro c hc
      rw [← hpadded, List.mem_append] at hc
      rcases hc with hc | hc
      · rw [List.eq_of_mem_replicate hc]
        rfl
      · exact hdigits c hc
    have hlength : d.places + 1 ≤ padded.length := by
      rw [← hpadded, List.length_append, List.length_replicate]
      omega
    refine ⟨_, _, rfl, ?_, fun c hc => hall c (List.mem_of_mem_take hc),
      .inr ⟨_, rfl, fun c hc => hall c (List.mem_of_mem_drop hc)⟩⟩
    rw [ne_eq, List.take_eq_nil_iff]
    rintro (hzero | hnil)
    · omega
    · rw [hnil, List.length_nil] at hlength
      omega

/-- A decimal is written in characters that belong to numbers. -/
theorem isNumberChar_of_mem_chars {d : Decimal} {c : Char} (hc : c ∈ d.chars) :
    isNumberChar c = true := by
  obtain ⟨whole, tail, hchars, -, hwhole, htail⟩ := d.exists_chars_eq
  rw [hchars, List.mem_append] at hc
  rcases hc with hc | hc
  · exact isNumberChar_of_isDigit (hwhole c hc)
  · obtain rfl | ⟨fraction, rfl, hfraction⟩ := htail
    · contradiction
    · rcases List.mem_cons.mp hc with rfl | hc
      · rfl
      · exact isNumberChar_of_isDigit (hfraction c hc)

/-- There is no point among digits. -/
theorem count_point_eq_zero {cs : List Char} (h : ∀ c ∈ cs, c.isDigit = true) :
    cs.count '.' = 0 := by
  apply List.count_eq_zero_of_not_mem
  intro hpoint
  have := h '.' hpoint
  contradiction

/-- The text of a decimal is well formed, and read as the decimal. -/
theorem ofRun?_chars (d : Decimal) : ofRun? d.chars = some d := by
  obtain ⟨whole, tail, hchars, hne, hwhole, htail⟩ := d.exists_chars_eq
  have hdigit : d.chars.any Char.isDigit = true := by
    obtain ⟨c, hc⟩ := List.exists_mem_of_ne_nil whole hne
    rw [hchars, List.any_append, List.any_eq_true.mpr ⟨c, hc, hwhole c hc⟩, Bool.true_or]
  have hpoints : d.chars.count '.' ≤ 1 := by
    rw [hchars, List.count_append, count_point_eq_zero hwhole]
    obtain rfl | ⟨fraction, rfl, hfraction⟩ := htail
    · exact Nat.zero_le 1
    · have hpoint := count_point_eq_zero hfraction
      rw [List.count_cons_self]
      omega
  rw [ofRun?, hdigit, decide_eq_true hpoints, ofChars_chars]
  rfl

end Decimal

namespace Number

open Float.Model.UnpackedFloat

variable {x : Float}

/-- A change of sign keeps a number finite. -/
theorem isFinite_neg (x : Float) : (-x).isFinite = x.isFinite := by
  show (-x).toModel.unpack.isFinite = x.toModel.unpack.isFinite
  rw [unpack_neg]
  cases x.toModel.unpack <;> rfl

/-- The opposite of a number with a minus sign has none. -/
theorem isNegative_neg (h : isNegative x = true) : isNegative (-x) = false := by
  unfold isNegative at h ⊢
  rw [unpack_neg]
  rcases hx : x.toModel.unpack with sign | _ | sign | ⟨sign, m, e, hm⟩
  case notANumber => rfl
  all_goals
    rw [hx] at h
    cases sign with
    | negative => rfl
    | positive => contradiction

/-- A finite number without a sign is written as a decimal that reads back as the number. -/
theorem exists_text_eq (hfinite : x.isFinite = true) (hsign : isNegative x = false) :
    ∃ d : Decimal, text x = String.ofList d.chars ∧ d.toFloat = x := by
  have hcanonical := isCanonical_unpack x.toModel
  change x.toModel.unpack.isFinite = true at hfinite
  unfold text
  simp only [hsign, Bool.false_eq_true, if_false, String.empty_append]
  unfold isNegative at hsign
  rcases hx : x.toModel.unpack with sign | _ | sign | ⟨sign, m, e, hm⟩
  all_goals rw [hx] at hfinite hsign hcanonical
  case infinity | notANumber => contradiction
  case zero =>
    cases sign with
    | negative => contradiction
    | positive =>
      refine ⟨⟨0, 0⟩, rfl, ?_⟩
      rw [eq_of_unpack_eq hx]
      rfl
  case finite =>
    cases sign with
    | negative => contradiction
    | positive =>
      refine ⟨Decimal.shortest m e, rfl, ?_⟩
      rw [eq_of_unpack_eq hx, Decimal.toFloat_shortest hcanonical]

end Number

end Reckoner
