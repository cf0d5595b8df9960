import Reckoner.Expr

/-!
# Folding constants

An operation whose operands are literals is replaced by the literal of its value, from
the leaves upward, so that a subtree of operations on literals becomes one literal.
Calls stay: `random` has no fixed value, and a call of a function that does not exist
has to fail when it is evaluated. One pass leaves nothing to fold; `foldRounds` repeats
the pass until the tree stays the same and is the way to check that.
-/

set_option autoImplicit false

namespace Reckoner.Expr

/-- The negation of a tree, carried out if it is a literal. -/
def foldedNeg : Expr → Expr
  | literal v => literal (-v)
  | e => neg e

/-- The operation on two trees, carried out if both are literals. -/
def foldedBinary (op : BinaryOp) : Expr → Expr → Expr
  | literal a, literal b => literal (op.apply a b)
  | left, right => binary op left right

mutual

/-- The tree with all operations on literals carried out. -/
def fold : Expr → Expr
  | literal v => literal v
  | var name => var name
  | neg operand => foldedNeg operand.fold
  | binary op left right => foldedBinary op left.fold right.fold
  | call name args => call name (foldList args)

/-- The folded trees. -/
def foldList : List Expr → List Expr
  | [] => []
  | e :: es => e.fold :: foldList es

end

/-- Trees in a list are folded one by one. -/
theorem foldList_eq_map (es : List Expr) : foldList es = es.map fold := by
  induction es with
  | nil => rfl
  | cons e es ih => simp [foldList, ih]

/-- Folds until the tree stays the same, at most the given number of times. -/
def foldRounds : Nat → Expr → Expr
  | 0, e => e
  | n + 1, e =>
    let next := e.fold
    if next.identical e then next else foldRounds n next

/-- The tree as it is kept when constants are folded: one round folds all there is, and
the second one finds nothing left. -/
def folded (e : Expr) : Expr :=
  foldRounds 2 e

end Reckoner.Expr
