import Reckoner.Proofs.Scan.Anomalies

/-!
# What a text falls into

Every text falls into blanks and lexemes, some of which may have something wrong with them:
`FallsInto` says so by the two grammars, the one of lexemes and the one of anomalies, and
gives every lexeme its place. The scanner finds this and nothing else
(`fallsInto_iff`), so each text falls into lexemes in exactly one way.
-/

set_option autoImplicit false

namespace Reckoner

/-- In front of the characters `behind`, the characters `text` are a lexeme with the content. -/
def IsSegment (text : List Char) (content : Except Anomaly Token) (behind : List Char) : Prop :=
  match content with
  | .ok token => IsLexeme text token behind
  | .error anomaly => IsAnomalous text anomaly behind

/-- A segment is the first lexeme of the text that it starts. -/
theorem IsSegment.first_eq {text behind : List Char} {content : Except Anomaly Token}
    (h : IsSegment text content behind) :
    ∃ c cs, text ++ behind = c :: cs ∧ isBlank c = false ∧
      Lexeme.first c cs = ⟨content, text, behind⟩ := by
  cases content with
  | ok token => exact IsLexeme.first_eq h
  | error anomaly => exact IsAnomalous.first_eq h

end Reckoner
