import Reckoner.Proofs.Scan.Lexemes

/-!
# Texts in front of a boundary

A text is cut into the same lexemes whatever stands behind it, as long as that does not go on
with the last of them: with no character of a name or a number, and with no star. This holds
of texts with anomalies too. What stands behind is then cut into its own lexemes
(`contents_append`).

The boundary matters to each kind of lexeme alone, because a lexeme ends where a class of
characters ends, and no point stands behind the boundary that would make `Math` a prefix.
-/

set_option autoImplicit false

namespace Reckoner

variable {more : List Char}

/-- A run that stops in front of two texts stops in front of both together. -/
theorem Stops.append {p : Char → Bool} {cs : List Char} (h : Stops p cs) (hmore : Stops p more) :
    Stops p (cs ++ more) := by
  cases cs with
  | nil => exact hmore
  | cons c cs => exact stops_cons (h c rfl) _

/-- The start of a text in a class of characters ends where it ends, or in front of what the
text is followed by. -/
theorem takeWhile_append_of_stops {p : Char → Bool} (hmore : Stops p more) (cs : List Char) :
    (cs ++ more).takeWhile p = cs.takeWhile p ∧
      (cs ++ more).dropWhile p = cs.dropWhile p ++ more := by
  have hstart : ∀ c ∈ cs.takeWhile p, p c = true := fun c hc => List.mem_takeWhile_imp hc
  have hsplit : cs ++ more = cs.takeWhile p ++ (cs.dropWhile p ++ more) := by
    rw [← List.append_assoc, List.takeWhile_append_dropWhile]
  rw [hsplit]
  exact takeWhile_append_boundary hstart ((stops_dropWhile p cs).append hmore)

/-- A boundary does not complete the prefix of a function. -/
theorem math_prefix_append_iff (hmore : IsBoundary more) (cs : List Char) :
    "Math.".toList <+: cs ++ more ↔ "Math.".toList <+: cs := by
  constructor
  · intro hmath
    have hstart : ∀ c ∈ cs.takeWhile isNameChar, isNameChar c = true :=
      fun c hc => List.mem_takeWhile_imp hc
    have hstops := stops_dropWhile isNameChar cs
    have hsplit := List.takeWhile_append_dropWhile (p := isNameChar) (l := cs)
    rw [← hsplit, List.append_assoc, math_prefix_iff hstart (hstops.append hmore.name)] at hmath
    obtain ⟨hword, hpoint⟩ := hmath
    rw [← hsplit, math_prefix_iff hstart hstops]
    refine ⟨hword, ?_⟩
    cases hrest : cs.dropWhile isNameChar with
    | nil =>
      rw [hrest] at hpoint
      exact absurd (hmore.number '.' hpoint) (by decide)
    | cons c rest =>
      rw [hrest] at hpoint
      exact hpoint
  · rintro ⟨rest, rfl⟩
    exact ⟨rest ++ more, (List.append_assoc _ _ _).symm⟩

namespace Lexeme

/-- The lexeme with further characters behind those that stand behind it. -/
def followedBy (lexeme : Lexeme) (more : List Char) : Lexeme :=
  { lexeme with rest := lexeme.rest ++ more }

/-- Further characters that begin with no star do not change what a star is. -/
theorem ofStar_append (hmore : Stops (· == '*') more) (cs : List Char) :
    ofStar (cs ++ more) = (ofStar cs).followedBy more := by
  cases cs with
  | nil =>
    have hfirst := first_star hmore
    rw [first, if_pos rfl] at hfirst
    exact hfirst
  | cons c cs =>
    by_cases hc : c = '*'
    · subst hc
      rfl
    · have hstops : ∀ ds, Stops (· == '*') (c :: ds) := stops_cons (by simpa using hc)
      have hfirst := first_star (hstops (cs ++ more))
      have hfirst' := first_star (hstops cs)
      rw [first, if_pos rfl] at hfirst hfirst'
      rw [List.cons_append, hfirst, hfirst']
      rfl

/-- Further characters that continue no number do not change a number. -/
theorem ofNumber_append_of_stops (hmore : Stops isNumberChar more) (cs : List Char) :
    ofNumber (cs ++ more) = (ofNumber cs).followedBy more := by
  obtain ⟨htake, hdrop⟩ := takeWhile_append_of_stops hmore cs
  simp only [ofNumber, htake, hdrop, followedBy]

/-- Further characters that continue neither a name nor a number do not change a name. -/
theorem ofName_append_of_boundary (hmore : IsBoundary more) (cs : List Char) :
    ofName (cs ++ more) = (ofName cs).followedBy more := by
  cases hmath : afterMath? cs with
  | some rest =>
    obtain rfl := afterMath?_eq_some hmath
    obtain ⟨htake, hdrop⟩ := takeWhile_append_of_stops hmore.name rest
    have hmore : afterMath? ('M' :: 'a' :: 't' :: 'h' :: '.' :: rest ++ more) =
        some (rest ++ more) := rfl
    simp only [ofName, hmath, hmore, htake, hdrop, followedBy]
  | none =>
    obtain ⟨htake, hdrop⟩ := takeWhile_append_of_stops hmore.name cs
    have hnone : afterMath? (cs ++ more) = none := by
      rw [afterMath?_eq_none_iff, math_prefix_append_iff hmore, ← afterMath?_eq_none_iff, hmath]
    simp only [ofName, hmath, hnone, htake, hdrop, followedBy]

/-- The first lexeme of a text is the same in front of a boundary. -/
theorem first_append (hmore : IsBoundary more) (hstar : Stops (· == '*') more) (c : Char)
    (cs : List Char) : first c (cs ++ more) = (first c cs).followedBy more := by
  unfold first
  split
  case isTrue => exact ofStar_append hstar cs
  case isFalse =>
    split
    case h_1 => rfl
    case h_2 =>
      split
      case isTrue => exact ofNumber_append_of_stops hmore.number (c :: cs)
      case isFalse =>
        split
        case isTrue => exact ofName_append_of_boundary hmore (c :: cs)
        case isFalse => rfl

end Lexeme

/-- **Locality.** In front of a boundary a text has its own lexemes, and so has what stands
behind the boundary. -/
theorem contents_append (hmore : IsBoundary more) (hstar : Stops (· == '*') more)
    (cs : List Char) : contents (cs ++ more) = contents cs ++ contents more := by
  -- the place does not matter to the contents, the recursion of the scan does
  suffices h : ∀ (p : Nat) (cs : List Char), contents (cs ++ more) = contents cs ++ contents more
    from h 0 cs
  intro p cs
  induction p, cs using scanFrom.induct with
  | case1 p => rw [contents_nil, List.nil_append, List.nil_append]
  | case2 p c cs hblank ih =>
    rw [List.cons_append, contents_blank hblank, contents_blank hblank, ih]
  | case3 p c cs hblank lexeme ih =>
    have hrest : (lexeme.followedBy more).rest = lexeme.rest ++ more := rfl
    have hfirst : Lexeme.first c (cs ++ more) = lexeme.followedBy more :=
      Lexeme.first_append hmore hstar c cs
    rw [List.cons_append, contents_first hblank, contents_first hblank, hfirst, hrest, ih]
    rfl

end Reckoner
