import Reckoner.Expr
import Reckoner.Number.Shortest

/-!
# The text of an expression

An expression is written as a formula that is read back to it, with a pair of
parentheses around every operation, so that no rule of precedence is needed. A literal
whose sign bit is set has to be written as a negation, because the numbers of a formula
have no sign.
-/

set_option autoImplicit false

namespace Reckoner.Expr

/-- The text of a literal. There is one NaN and it has no sign, so it is always written `NaN`;
where NaNs have a sign bit, one that has it set is written `(-NaN)`, which this leaves out. -/
def literalText (value : Float) : String :=
  if Number.isNegative value then "(-" ++ Number.text (-value) ++ ")" else Number.text value

mutual

/-- The formula of the tree, every operation in parentheses. -/
def text : Expr → String
  | literal value => literalText value
  | var name => name
  | neg operand => "(-" ++ operand.text ++ ")"
  | binary op left right => "(" ++ left.text ++ " " ++ op.symbol ++ " " ++ right.text ++ ")"
  | call name args => name ++ "(" ++ ", ".intercalate (texts args) ++ ")"

/-- The formulas of the trees. -/
def texts : List Expr → List String
  | [] => []
  | e :: es => e.text :: texts es

end

end Reckoner.Expr
