import Reckoner.MathFunction
import Reckoner.Token

/-!
# From text to tokens

A text is cut into lexemes from the left, blanks between them skipped. Each lexeme is as
long as it can be, and it either is a token or has something wrong with it, an
`Anomaly`; in both cases the cutting goes on behind it, so the lexemes of a text do not
depend on how strictly it is read (`scan`). Strictness is decided afterwards: a strict
reading fails at the first anomaly (`Scanned.strict`), a lenient one leaves anomalies
out or mends them (`Scanned.lenient`) and can tell what they were
(`Scanned.anomalies`). No lexeme loses or invents a character
(`Lexeme.text_append_rest`).
-/

set_option autoImplicit false

namespace Reckoner

/-- What can be wrong with a lexeme. -/
inductive Anomaly where
  /-- A character with which no token starts. -/
  | strayChar (char : Char)
  /-- A run of digits and points with no digit, or with more than one point. -/
  | malformedNumber (run : String)
  /-- A name behind `Math.` that is not on the allow-list, maybe an empty one. -/
  | unknownMember (name : String)
  deriving DecidableEq, Repr

/-- The part of a run of digits and points that stands before its second point. -/
def beforeSecondPoint (run : List Char) : List Char :=
  let whole := run.takeWhile (· != '.')
  match run.dropWhile (· != '.') with
  | [] => whole
  | point :: rest => whole ++ point :: rest.takeWhile (· != '.')

/-- What a lenient reading makes of an anomaly. A malformed number becomes the number
before its second point, or NaN if there is no digit; the others are dropped. -/
def Anomaly.mended : Anomaly → Option Token
  | .malformedNumber run =>
    match Decimal.ofRun? (beforeSecondPoint run.toList) with
    | some d => some (.number d.toFloat)
    | none => some (.number Number.nan)
  | _ => none

/-- The blanks: space, tab, line feed, form feed and carriage return. -/
def isBlank (c : Char) : Bool :=
  c == ' ' || c == '\t' || c == '\n' || c == '\x0c' || c == '\r'

/-- Runs of these characters are numbers, or should be. -/
def isNumberChar (c : Char) : Bool :=
  c.isDigit || c == '.'

/-- A name starts with a letter of the English alphabet or an underscore. -/
def isNameStart (c : Char) : Bool :=
  c.isAlpha || c == '_'

/-- A name goes on with letters, digits and underscores. -/
def isNameChar (c : Char) : Bool :=
  c.isAlphanum || c == '_'

/-- The tokens that are one character and that no other token starts with. -/
def punctuation? : Char → Option Token
  | '(' => some .openParen
  | ')' => some .closeParen
  | ',' => some .comma
  | '+' => some (.operator .plus)
  | '-' => some (.operator .minus)
  | '/' => some (.operator .slash)
  | '%' => some (.operator .percent)
  | '^' => some (.operator .caret)
  | _ => none

/-- What stands behind `Math.` at the start of the characters, if they start so. -/
def afterMath? : List Char → Option (List Char)
  | 'M' :: 'a' :: 't' :: 'h' :: '.' :: rest => some rest
  | _ => none

/-- The first lexeme of a text, its characters, and the characters behind it. -/
structure Lexeme where
  content : Except Anomaly Token
  text : List Char
  rest : List Char

namespace Lexeme

/-- A star, or two of them as one token. -/
def ofStar : List Char → Lexeme
  | '*' :: rest => ⟨.ok (.operator .starStar), ['*', '*'], rest⟩
  | rest => ⟨.ok (.operator .star), ['*'], rest⟩

/-- The run of digits and points at the start of the characters. -/
def ofNumber (cs : List Char) : Lexeme :=
  let run := cs.takeWhile isNumberChar
  let content := match Decimal.ofRun? run with
    | some d => .ok (.number d.toFloat)
    | none => .error (.malformedNumber (String.ofList run))
  ⟨content, run, cs.dropWhile isNumberChar⟩

/-- The name at the start of the characters, or the name of a function with `Math.`
before it. -/
def ofName (cs : List Char) : Lexeme :=
  match afterMath? cs with
  | some rest =>
    let name := rest.takeWhile isNameChar
    let member := String.ofList name
    let content := if MathFunction.isAllowed member then .ok (.member member)
      else .error (.unknownMember member)
    ⟨content, 'M' :: 'a' :: 't' :: 'h' :: '.' :: name, rest.dropWhile isNameChar⟩
  | none =>
    let name := cs.takeWhile isNameChar
    ⟨.ok (.identifier (String.ofList name)), name, cs.dropWhile isNameChar⟩

/-- The lexeme that starts with the character `c` in front of the characters `cs`. -/
def first (c : Char) (cs : List Char) : Lexeme :=
  if c = '*' then ofStar cs
  else match punctuation? c with
    | some token => ⟨.ok token, [c], cs⟩
    | none =>
      if isNumberChar c then ofNumber (c :: cs)
      else if isNameStart c then ofName (c :: cs)
      else ⟨.error (.strayChar c), [c], cs⟩

/-- What stands behind `Math.` does so. -/
theorem afterMath?_eq_some {cs rest : List Char} (h : afterMath? cs = some rest) :
    cs = 'M' :: 'a' :: 't' :: 'h' :: '.' :: rest := by
  unfold afterMath? at h
  split at h
  · simp_all
  · cases h

/-- A character with which a name starts can also go on with it. -/
theorem isNameChar_of_isNameStart {c : Char} (h : isNameStart c = true) : isNameChar c = true := by
  simp only [isNameStart, isNameChar, Char.isAlphanum, Bool.or_eq_true] at *
  rcases h with h | h
  · exact .inl (.inl h)
  · exact .inr h

/-- A lexeme and what stands behind it are the text that was given. -/
theorem text_append_rest (c : Char) (cs : List Char) :
    (first c cs).text ++ (first c cs).rest = c :: cs := by
  unfold first
  split
  · subst c
    unfold ofStar
    split <;> rfl
  · split
    · rfl
    · split
      · simp [ofNumber]
      · split
        · unfold ofName
          split
          · rename_i rest h
            rw [afterMath?_eq_some h]
            simp
          · simp
        · rfl

/-- A lexeme has at least one character. -/
theorem text_ne_nil (c : Char) (cs : List Char) : (first c cs).text ≠ [] := by
  unfold first
  split
  · unfold ofStar
    split <;> simp
  · split
    · simp
    · split
      · rename_i h
        simp [ofNumber, h]
      · split
        · rename_i h
          unfold ofName
          split
          · simp
          · simp [isNameChar_of_isNameStart h]
        · simp

/-- The characters behind a lexeme are fewer than those it was taken from. -/
theorem length_rest_le (c : Char) (cs : List Char) : (first c cs).rest.length ≤ cs.length := by
  have happend := congrArg List.length (text_append_rest c cs)
  have htext := List.length_pos_iff.2 (text_ne_nil c cs)
  simp only [List.length_append, List.length_cons] at happend
  omega

end Lexeme

/-- The number of bytes that the characters take. -/
def byteLength : List Char → Nat
  | [] => 0
  | c :: cs => c.utf8Size + byteLength cs

/-- Characters take as many bytes as their two parts. -/
theorem byteLength_append (cs ds : List Char) :
    byteLength (cs ++ ds) = byteLength cs + byteLength ds := by
  induction cs with
  | nil => simp [byteLength]
  | cons c cs ih => simp [byteLength, ih, Nat.add_assoc]

/-- The lexemes of a text, each with its place, and the number of the bytes of the text. -/
structure Scanned where
  lexemes : List (Located (Except Anomaly Token))
  endPosition : Nat

/-- The lexemes of the characters, the first of which stands at `position`. -/
def scanFrom (position : Nat) : List Char → Scanned
  | [] => ⟨[], position⟩
  | c :: cs =>
    if isBlank c then scanFrom (position + c.utf8Size) cs
    else
      let lexeme := Lexeme.first c cs
      let scanned := scanFrom (position + byteLength lexeme.text) lexeme.rest
      ⟨⟨lexeme.content, position⟩ :: scanned.lexemes, scanned.endPosition⟩
  termination_by cs => cs.length
  decreasing_by
    · simp
    · exact Nat.lt_succ_of_le (Lexeme.length_rest_le c cs)

/-- Cuts a text into its lexemes. -/
def scan (text : String) : Scanned :=
  scanFrom 0 text.toList

/-- The tokens of the lexemes, or the first anomaly among them. -/
def strictTokens : List (Located (Except Anomaly Token)) →
    Except (Located Anomaly) (List (Located Token))
  | [] => .ok []
  | ⟨.ok token, position⟩ :: rest => (⟨token, position⟩ :: ·) <$> strictTokens rest
  | ⟨.error anomaly, position⟩ :: _ => .error ⟨anomaly, position⟩

/-- What a lenient reading keeps of a lexeme. -/
def lenientToken? : Located (Except Anomaly Token) → Option (Located Token)
  | ⟨.ok token, position⟩ => some ⟨token, position⟩
  | ⟨.error anomaly, position⟩ => anomaly.mended.map (⟨·, position⟩)

/-- The anomaly of a lexeme, if it has one. -/
def anomaly? : Located (Except Anomaly Token) → Option (Located Anomaly)
  | ⟨.ok _, _⟩ => none
  | ⟨.error anomaly, position⟩ => some ⟨anomaly, position⟩

namespace Scanned

/-- The strict reading: all tokens, if no lexeme has anything wrong with it, and the
first anomaly otherwise. -/
def strict (scanned : Scanned) : Except (Located Anomaly) TokenStream :=
  (⟨·, scanned.endPosition⟩) <$> strictTokens scanned.lexemes

/-- The lenient reading: the tokens, with the anomalies mended or dropped. -/
def lenient (scanned : Scanned) : TokenStream :=
  ⟨scanned.lexemes.filterMap lenientToken?, scanned.endPosition⟩

/-- What a lenient reading passes over, in the order of the text. -/
def anomalies (scanned : Scanned) : List (Located Anomaly) :=
  scanned.lexemes.filterMap anomaly?

end Scanned

end Reckoner
