import Reckoner.Expr.Eval
import Reckoner.Expr.OfTokens
import Reckoner.Text.Quoted
import Reckoner.Token.Scan

/-!
# Errors and their messages

A formula can fail in three ways: its text does not fall into tokens, its tokens are no
expression, or its expression has no value. The errors hold causes; what a reader is
told about them is decided here.
-/

set_option autoImplicit false

namespace Reckoner

/-- Why a formula has no value. -/
inductive Error where
  | lexical (anomaly : Located Anomaly)
  | syntactic (error : SyntaxError)
  | evaluation (error : EvalError)
  deriving DecidableEq

/-- The message of a strict reading that fails at the anomaly. -/
def Anomaly.message (position : Nat) : Anomaly → String
  | .strayChar c =>
    "unexpected character " ++ Text.quotedChar c ++ " at " ++ position.repr
  | .malformedNumber run =>
    "malformed number '" ++ run ++ "' at " ++ position.repr
  | .unknownMember name =>
    "'Math." ++ name ++ "' at " ++ position.repr ++ " is not an allowed function"

/-- A token as a message names it and its place. -/
def foundAt (found : Located Token) : String :=
  found.value.text ++ " at " ++ found.position.repr

/-- The message about tokens that are no expression. -/
def SyntaxError.message : SyntaxError → String
  | .expectedCallParen name position =>
    "expected '(' after function '" ++ name ++ "' at " ++ position.repr
  | .expectedArgSeparator found =>
    "expected ',' or ')' in argument list, found " ++ foundAt found
  | .expectedCloseParen found => "expected ')', found " ++ foundAt found
  | .unexpectedEnd => "unexpected end of input"
  | .unexpectedToken found => "unexpected " ++ foundAt found
  | .trailingTokens found => "trailing tokens starting with " ++ foundAt found
  | .tooDeep limit => "expression nests deeper than " ++ limit.repr ++ " levels"

/-- The message about an expression that has no value. -/
def EvalError.message : EvalError → String
  | .unknownVariable name => "unknown variable: " ++ name
  | .functionNotAllowed name => "function not allowed: " ++ name
  | .wrongArity name expected got =>
    "function " ++ name ++ " takes " ++ expected.text ++ " argument(s), got " ++ got.repr

/-- The message about a formula without a value. -/
def Error.message : Error → String
  | .lexical anomaly => anomaly.value.message anomaly.position
  | .syntactic error => error.message
  | .evaluation error => error.message

end Reckoner
