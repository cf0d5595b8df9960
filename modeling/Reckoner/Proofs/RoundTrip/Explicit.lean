import Reckoner.Expr.Eval
import Reckoner.Expr.Text
import Reckoner.Proofs.Grammar
import Reckoner.Proofs.Number.Canonical
import Reckoner.Proofs.Scan.Lexemes

/-!
# What the text of an expression stands for

The text of a tree puts every operation in parentheses, so its tokens are an operand of the
grammar whatever the operation is. They stand for the same tree with one difference: a
number has no sign in a formula, so a literal whose sign bit is set comes back as a
negation. Such a tree is evaluated alike, because negating a number twice gives the number.

The text needs two levels for every minus sign, which has parentheses around it, and one
for every binary operation and every argument list; the tree itself is not higher.
-/

set_option autoImplicit false

namespace Reckoner

/-- The operation that the sign stands for. -/
def Operator.operation : Operator → BinaryOp
  | plus => .add
  | minus => .sub
  | star => .mul
  | slash => .div
  | percent => .rem
  | starStar | caret => .pow

/-- The sign of an operation stands for that operation. -/
theorem BinaryOp.operation_sign (op : BinaryOp) : op.sign.operation = op := by
  cases op <;> rfl

namespace Grammar

/-- Every operator stands for its operation at some level. -/
theorem exists_denotes_operation (sign : Operator) :
    ∃ level, Denotes level sign sign.operation := by
  cases sign with
  | plus => exact ⟨.sum, .plus⟩
  | minus => exact ⟨.sum, .minus⟩
  | star => exact ⟨.product, .star⟩
  | slash => exact ⟨.product, .slash⟩
  | percent => exact ⟨.product, .percent⟩
  | starStar => exact ⟨.power, .starStar⟩
  | caret => exact ⟨.power, .caret⟩

/-- Two plain operands with any operator between them are a formula. -/
theorem Derives.operationOfPrimary {level : Level} {sign : Operator} {op : BinaryOp}
    (hsign : Denotes level sign op) {left right : List Token} {a b : Expr} {m n : Nat}
    (hleft : Derives .primary left a m) (hright : Derives .primary right b n) :
    Derives .formula (left ++ .operator sign :: right) (.binary op a b) (max m n) := by
  have hoperation := Derives.operation (hleft.ofPrimary (.operations level)) hsign
    (hright.ofPrimary level.operand)
  exact hoperation.toFormula

/-- A minus sign and a plain operand with parentheses around both are a plain operand. -/
theorem Derives.negatedOfPrimary {tokens : List Token} {tree : Expr} {nesting : Nat}
    (h : Derives .primary tokens tree nesting) :
    Derives .primary (.openParen :: .operator .minus :: (tokens ++ [.closeParen])) (.neg tree)
      (nesting + 2) := by
  have hminus := Derives.minus (.unsigned h)
  have hpower : Derives (.operations .power) _ _ _ := .operand hminus
  exact .group hpower.toFormula

end Grammar

namespace Expr

open Grammar

mutual

/-- The tree with negations in the place of literals with a sign. -/
def explicit : Expr → Expr
  | literal value => if Number.isNegative value then neg (literal (-value)) else literal value
  | var name => var name
  | neg operand => neg operand.explicit
  | binary op left right => binary op left.explicit right.explicit
  | call name args => call name (explicitList args)

/-- The same for arguments. -/
def explicitList : List Expr → List Expr
  | [] => []
  | e :: es => e.explicit :: explicitList es

end

mutual

/-- How many parentheses, argument lists and minus signs the text of the tree has around the
leaf that has most of them. -/
def textNesting : Expr → Nat
  | literal value => if Number.isNegative value then 2 else 0
  | var _ => 0
  | neg operand => operand.textNesting + 2
  | binary _ left right => max left.textNesting right.textNesting + 1
  | call _ args => argsNesting args

/-- The same for arguments, each of which is inside the list. -/
def argsNesting : List Expr → Nat
  | [] => 0
  | e :: es => max (e.textNesting + 1) (argsNesting es)

end

mutual

/-- The tokens of the text of the tree. -/
def textTokens : Expr → List Token
  | literal value =>
    if Number.isNegative value then
      [.openParen, .operator .minus, .number (-value), .closeParen]
    else [.number value]
  | var name => [.identifier name]
  | neg operand => .openParen :: .operator .minus :: (operand.textTokens ++ [.closeParen])
  | binary op left right =>
    .openParen :: (left.textTokens ++ .operator op.sign :: right.textTokens ++ [.closeParen])
  | call name args =>
    .identifier name :: .openParen ::
      ([Token.comma].intercalate (textTokensList args) ++ [.closeParen])

/-- The tokens of the texts of the trees. -/
def textTokensList : List Expr → List (List Token)
  | [] => []
  | e :: es => e.textTokens :: textTokensList es

end

/-- The tree as an argument of a call. -/
def argument (e : Expr) : Argument :=
  ⟨e.textTokens, e.explicit, e.textNesting + 1⟩

/-- The tokens of the texts are those of the arguments. -/
theorem textTokensList_eq (es : List Expr) :
    textTokensList es = (es.map argument).map Argument.tokens := by
  induction es with
  | nil => rfl
  | cons e es ih => rw [textTokensList, ih]; rfl

/-- The explicit trees are those of the arguments. -/
theorem explicitList_eq (es : List Expr) :
    explicitList es = (es.map argument).map Argument.tree := by
  induction es with
  | nil => rfl
  | cons e es ih => rw [explicitList, ih]; rfl

/-- A list of arguments is nested one level less deeply than the call. -/
theorem argsNesting_eq (es : List Expr) :
    argsNesting es + 1 = callNesting (es.map argument) := by
  induction es with
  | nil => rfl
  | cons e es ih =>
    have hnesting : e.argument.nesting = e.textNesting + 1 := rfl
    rw [argsNesting, List.map_cons, callNesting, ← ih, hnesting]
    omega

mutual

/-- The tokens of the text of a tree are an operand, of the tree with negations in the place
of signs. -/
theorem derives_textTokens :
    ∀ e : Expr, Derives .primary e.textTokens e.explicit (e.textNesting + 1)
  | literal value => by
    rw [textTokens, explicit, textNesting]
    cases Number.isNegative value with
    | false => exact .number value
    | true => exact (Derives.number (-value)).negatedOfPrimary
  | var name => .var name
  | neg operand => by
    have hoperand := derives_textTokens operand
    exact hoperand.negatedOfPrimary
  | binary op left right => by
    have hleft := derives_textTokens left
    have hright := derives_textTokens right
    obtain ⟨level, hsign⟩ := exists_denotes_operation op.sign
    rw [op.operation_sign] at hsign
    have hgroup := Derives.group (Derives.operationOfPrimary hsign hleft hright)
    rw [textTokens, explicit, textNesting]
    rw [← Nat.add_max_add_right]
    exact hgroup
  | call name args => by
    have hcall := Derives.call (.identifier name) (derives_arguments args)
    rw [textTokens, explicit, textNesting, textTokensList_eq, explicitList_eq, argsNesting_eq]
    exact hcall

/-- Every argument is a formula. -/
theorem derives_arguments :
    ∀ es : List Expr, ∀ x ∈ es.map argument, Derives .formula x.tokens x.tree x.nesting
  | [] => by
    intro x hx
    contradiction
  | e :: es => by
    intro x hx
    rcases List.mem_cons.mp hx with rfl | hx
    · exact (derives_textTokens e).ofPrimary _
    · exact derives_arguments es x hx

end

mutual

/-- The tree that is read back is no higher than the text is nested. -/
theorem height_explicit_le : ∀ e : Expr, e.explicit.height ≤ e.textNesting + 1
  | literal value => by
    rw [explicit, textNesting]
    cases Number.isNegative value with
    | false => exact Nat.le_refl 1
    | true => exact Nat.le_succ 2
  | var name => Nat.le_refl 1
  | neg operand => by
    have hoperand := height_explicit_le operand
    rw [explicit, textNesting, height]
    omega
  | binary op left right => by
    have hleft := height_explicit_le left
    have hright := height_explicit_le right
    rw [explicit, textNesting, height]
    omega
  | call name args => by
    have hargs := heightList_explicitList_le args
    rw [explicit, textNesting, height]
    omega

/-- Explicit arguments are no higher than their texts are nested. -/
theorem heightList_explicitList_le :
    ∀ es : List Expr, heightList (explicitList es) ≤ argsNesting es
  | [] => Nat.le_refl 0
  | e :: es => by
    have he := height_explicit_le e
    have hes := heightList_explicitList_le es
    rw [explicitList, heightList, argsNesting]
    omega

end

/-- There are as many explicit arguments as arguments. -/
theorem length_explicitList (es : List Expr) : (explicitList es).length = es.length := by
  rw [explicitList_eq, List.length_map, List.length_map]

variable (context : Context)

mutual

/-- Negations in the place of signs make no difference to an evaluation. -/
theorem eval_explicit : ∀ e : Expr, e.explicit.eval context = e.eval context
  | literal value => by
    rw [explicit]
    cases Number.isNegative value with
    | false => rfl
    | true =>
      simp only [if_true]
      rw [eval, eval, eval, pure_bind, Number.neg_neg]
  | var name => rfl
  | neg operand => by
    rw [explicit, eval, eval, eval_explicit operand]
  | binary op left right => by
    rw [explicit, eval, eval, eval_explicit left, eval_explicit right]
  | call name args => by
    rw [explicit, eval, eval, length_explicitList, evalList_explicitList args]

/-- Explicit arguments are evaluated as the arguments are. -/
theorem evalList_explicitList :
    ∀ es : List Expr, evalList context (explicitList es) = evalList context es
  | [] => rfl
  | e :: es => by
    rw [explicitList, evalList, evalList, eval_explicit e, evalList_explicitList es]

end

end Expr

end Reckoner
