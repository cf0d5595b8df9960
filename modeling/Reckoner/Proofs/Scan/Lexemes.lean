import Reckoner.Proofs.Number.ReadBack
import Reckoner.Proofs.Scan.Contents
import Reckoner.Proofs.Scan.Division

/-!
# The lexemes at the start of a text

A token that is written at the start of a text is the first of its lexemes, if what stands
behind it cannot be taken for more of it: a name or a number is not followed by a character
of either, and a single star not by another. No name is taken for the prefix `Math.` of a
function, because no point stands behind one.
-/

set_option autoImplicit false

namespace Reckoner

/-- Neither a name nor a number goes on with the characters. -/
def IsBoundary (rest : List Char) : Prop :=
  ∀ c, rest.head? = some c → isNameChar c = false ∧ isNumberChar c = false

/-- The end of a text ends numbers and names. -/
theorem isBoundary_nil : IsBoundary [] := by
  intro c hc
  contradiction

/-- A character that belongs to no number and no name ends both. -/
theorem isBoundary_cons {c : Char} (hname : isNameChar c = false)
    (hnumber : isNumberChar c = false) (cs : List Char) : IsBoundary (c :: cs) := by
  intro d hd
  obtain rfl := Option.some.inj hd
  exact ⟨hname, hnumber⟩

/-- A boundary ends names. -/
theorem IsBoundary.name {rest : List Char} (h : IsBoundary rest) : Stops isNameChar rest := by
  intro c hc
  exact (h c hc).1

/-- A boundary ends numbers. -/
theorem IsBoundary.number {rest : List Char} (h : IsBoundary rest) : Stops isNumberChar rest := by
  intro c hc
  exact (h c hc).2

/-- A lexeme at the front is the first that is found. -/
theorem IsLexeme.contents_eq {text behind : List Char} {token : Token}
    (h : IsLexeme text token behind) :
    contents (text ++ behind) = .ok token :: contents behind := by
  rw [contents, h.scanFrom_eq, List.map_cons]
  exact congrArg _ (map_value_scanFrom _ _ _)

/-- A character of punctuation is its token. -/
theorem contents_punctuation {c : Char} {token : Token} (h : punctuation? c = some token)
    (cs : List Char) : contents (c :: cs) = .ok token :: contents cs :=
  (isLexeme_of_punctuation? h cs).contents_eq

/-- The token of an operation. -/
def BinaryOp.sign : BinaryOp → Operator
  | add => .plus
  | sub => .minus
  | mul => .star
  | div => .slash
  | rem => .percent
  | pow => .starStar

/-- An operation is written as its operator is. -/
theorem BinaryOp.text_sign (op : BinaryOp) : op.sign.text = op.symbol := by
  cases op <;> rfl

/-- The symbol of an operation is its operator, unless a star follows. -/
theorem contents_symbol (op : BinaryOp) {cs : List Char} (hcs : Stops (· == '*') cs) :
    contents (op.symbol.toList ++ cs) = .ok (.operator op.sign) :: contents cs := by
  have hlexeme : IsLexeme op.sign.text.toList (.operator op.sign) cs := .operator _ fun _ => hcs
  rw [← op.text_sign, hlexeme.contents_eq]

/-- The characters of a decimal are read as its number. -/
theorem contents_decimal (d : Decimal) {rest : List Char} (hrest : IsBoundary rest) :
    contents (d.chars ++ rest) = .ok (.number d.toFloat) :: contents rest := by
  obtain ⟨hdigit, hpoints, hvalue⟩ := Decimal.ofRun?_eq_some_iff.mp d.ofRun?_chars
  have hrun : ∀ c ∈ d.chars, isNumberChar c = true := by
    intro c hc
    exact Decimal.isNumberChar_of_mem_chars hc
  have hlexeme := IsLexeme.number hrun hdigit hpoints hrest.number
  rw [hvalue] at hlexeme
  exact hlexeme.contents_eq

/-- A name without points does not begin as members do. -/
theorem not_math_isPrefix {word rest : List Char} (hword : ∀ c ∈ word, isNameChar c = true)
    (hrest : IsBoundary rest) : ¬ "Math.".toList <+: word ++ rest := by
  rw [math_prefix_iff hword hrest.name]
  rintro ⟨-, hpoint⟩
  exact absurd (hrest.number '.' hpoint) (by decide)

/-- A name is read as that name. -/
theorem contents_name {name : String} (hname : IsName name) {rest : List Char}
    (hrest : IsBoundary rest) :
    contents (name.toList ++ rest) = .ok (.identifier name) :: contents rest := by
  have hmath := not_math_isPrefix hname.isNameChar hrest
  exact (IsLexeme.identifier hname hrest.name hmath).contents_eq

end Reckoner
