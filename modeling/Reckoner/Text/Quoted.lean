import Reckoner.Text.DefaultIgnorable
import Reckoner.Text.ExtendingMark
import Reckoner.Text.Unprintable

/-!
# Quoted text

Messages show characters in single and strings in double quotes, on one line and so
that every character can be seen: NUL, tab, carriage return, line feed, the backslash
and the quote around the text are written with a backslash; a character that is drawn
onto its neighbour, or not drawn at all, by its code point; any other as itself.
-/

set_option autoImplicit false

namespace Reckoner.Text

/-- The character can be seen where it stands: it is drawn, and in a place of its own. -/
def isVisible (c : Char) : Bool :=
  !(extendingMarks.contains c || defaultIgnorable.contains c || unprintable.contains c)

/-- A character can be seen exactly if it lies in none of the ranges of the three tables. -/
theorem isVisible_iff (c : Char) :
    isVisible c = true ↔ ∀ table ∈ [extendingMarks, defaultIgnorable, unprintable],
      ∀ range ∈ table, ¬(range.1 ≤ c.toNat ∧ c.toNat ≤ range.2) := by
  have hcontains : ∀ table : CodeRanges, table.ordered = true →
      (table.contains c = false ↔ ∀ range ∈ table, ¬(range.1 ≤ c.toNat ∧ c.toNat ≤ range.2)) := by
    intro table hordered
    rw [← Bool.not_eq_true, CodeRanges.contains_iff hordered]
    simp only [not_exists, not_and]
  simp only [isVisible, Bool.not_eq_true', Bool.or_eq_false_iff, List.forall_mem_cons,
    hcontains _ extendingMarks_ordered, hcontains _ defaultIgnorable_ordered,
    hcontains _ unprintable_ordered]
  simp [and_assoc]

/-- A code point between braces, in the fewest lowercase hexadecimal digits. -/
def codePoint (c : Char) : String :=
  "\\u\x7b" ++ String.ofList (Nat.toDigits 16 c.toNat) ++ "\x7d"

/-- A character as it stands between two of the given quotes. -/
def escaped (quote c : Char) : String :=
  if c = '\x00' then "\\0"
  else if c = '\t' then "\\t"
  else if c = '\r' then "\\r"
  else if c = '\n' then "\\n"
  else if c = '\\' ∨ c = quote then String.ofList ['\\', c]
  else if isVisible c then c.toString
  else codePoint c

/-- A character in single quotes. -/
def quotedChar (c : Char) : String :=
  "'" ++ escaped '\'' c ++ "'"

/-- A string in double quotes. -/
def quoted (s : String) : String :=
  "\"" ++ String.join (s.toList.map (escaped '"')) ++ "\""

end Reckoner.Text
