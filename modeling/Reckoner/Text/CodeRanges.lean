/-!
# Sets of characters as ranges of code points

A property of characters that Unicode lists is kept as the ranges of its code points,
in increasing order and apart from each other. The lists are those of Unicode 17.0.
-/

set_option autoImplicit false

namespace Reckoner.Text

/-- Ranges of code points, each given by its first and its last one. -/
abbrev CodeRanges := List (Nat × Nat)

/-- The character lies in one of the ranges. They are in increasing order, so the first
one that does not end before the character decides. -/
def CodeRanges.contains (ranges : CodeRanges) (c : Char) : Bool :=
  match ranges.find? (c.toNat ≤ ·.2) with
  | some range => range.1 ≤ c.toNat
  | none => false

/-- The ranges are increasing, not empty and apart. -/
def CodeRanges.ordered : CodeRanges → Bool
  | [] => true
  | [range] => range.1 ≤ range.2
  | range :: next :: rest => range.1 ≤ range.2 && range.2 < next.1 && ordered (next :: rest)

/-- The ranges behind the first one are increasing and apart as well. -/
private theorem ordered_tail {range : Nat × Nat} {ranges : CodeRanges}
    (h : CodeRanges.ordered (range :: ranges) = true) : ranges.ordered = true := by
  cases ranges with
  | nil => rfl
  | cons next rest => simp_all [CodeRanges.ordered]

/-- The first range is not empty. -/
private theorem first_le_last {range : Nat × Nat} {ranges : CodeRanges}
    (h : CodeRanges.ordered (range :: ranges) = true) : range.1 ≤ range.2 := by
  cases ranges with
  | nil => simpa [CodeRanges.ordered] using h
  | cons next rest => simp_all [CodeRanges.ordered]

/-- The first range ends before all others start. -/
private theorem last_lt_first {range : Nat × Nat} {ranges : CodeRanges}
    (h : CodeRanges.ordered (range :: ranges) = true) : ∀ r ∈ ranges, range.2 < r.1 := by
  induction ranges generalizing range with
  | nil => simp
  | cons next rest ih =>
    have hnext : range.2 < next.1 := by simp_all [CodeRanges.ordered]
    intro r hr
    rcases List.mem_cons.1 hr with rfl | hr
    · exact hnext
    · have := ih (ordered_tail h) r hr
      have := first_le_last (ordered_tail h)
      omega

/-- On ordered ranges the look-up says whether some range holds the character. -/
theorem CodeRanges.contains_iff {ranges : CodeRanges} (h : ranges.ordered = true) (c : Char) :
    ranges.contains c = true ↔ ∃ r ∈ ranges, r.1 ≤ c.toNat ∧ c.toNat ≤ r.2 := by
  induction ranges with
  | nil => simp [contains]
  | cons range rest ih =>
    by_cases hc : c.toNat ≤ range.2
    · simp only [contains, List.find?_cons, hc, decide_true, decide_eq_true_eq]
      constructor
      · exact fun hfirst => ⟨range, List.mem_cons_self, hfirst, hc⟩
      · rintro ⟨r, hr, hfirst, _⟩
        rcases List.mem_cons.1 hr with rfl | hr
        · exact hfirst
        · have := last_lt_first h r hr
          omega
    · have hskip : CodeRanges.contains (range :: rest) c = CodeRanges.contains rest c := by
        simp [contains, hc]
      rw [hskip, ih (ordered_tail h)]
      constructor
      · rintro ⟨r, hr, hb⟩
        exact ⟨r, List.mem_cons_of_mem _ hr, hb⟩
      · rintro ⟨r, hr, hb⟩
        rcases List.mem_cons.1 hr with rfl | hr
        · exact absurd hb.2 hc
        · exact ⟨r, hr, hb⟩

end Reckoner.Text
