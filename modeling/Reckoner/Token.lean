import Reckoner.Number.Shortest

/-!
# Tokens

A formula is read in two steps, and tokens are what lies between them: the words of the
text, each with the place where it starts. Places are counted in bytes of the UTF-8
encoding, from the start of the text. A stream of tokens has no token for the end of the
text; it records where the end is.
-/

set_option autoImplicit false

namespace Reckoner

/-- The operator signs. Two of them, `**` and `^`, mean the same. -/
inductive Operator where
  | plus | minus | star | starStar | slash | percent | caret
  deriving DecidableEq, Repr

/-- The sign as it is written. -/
def Operator.text : Operator → String
  | .plus => "+"
  | .minus => "-"
  | .star => "*"
  | .starStar => "**"
  | .slash => "/"
  | .percent => "%"
  | .caret => "^"

/-- A word of a formula. -/
inductive Token where
  /-- A number, read from its digits. -/
  | number (value : Float)
  /-- A name: a variable, or a function if a parenthesis follows. -/
  | identifier (name : String)
  /-- The name of a function, written behind `Math.`; it can only be called. -/
  | member (name : String)
  /-- An operator sign. -/
  | operator (sign : Operator)
  | openParen
  | closeParen
  | comma
  deriving DecidableEq

/-- The token as messages name it. -/
def Token.text : Token → String
  | .number value => "number " ++ Number.text value
  | .identifier name => "identifier '" ++ name ++ "'"
  | .member name => "function 'Math." ++ name ++ "'"
  | .operator sign => "'" ++ sign.text ++ "'"
  | .openParen => "'('"
  | .closeParen => "')'"
  | .comma => "','"

/-- A thing found in a text, and the byte at which it starts. -/
structure Located (α : Type) where
  value : α
  position : Nat
  deriving DecidableEq, Repr

/-- The tokens of a text, and the number of its bytes. -/
structure TokenStream where
  tokens : List (Located Token)
  endPosition : Nat
  deriving DecidableEq

end Reckoner
