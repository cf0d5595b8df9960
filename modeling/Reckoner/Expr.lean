import Reckoner.Number.Rounding

/-!
# Expressions

An expression is the tree that a formula stands for. Parentheses leave no trace in it.
The names of variables and functions are kept as they were written: whether a variable
is bound and whether a function exists is asked only when the expression is evaluated.

Trees are compared in two ways. `Expr.identical` compares numbers by their bits and
decides whether two trees are the same (`Expr.identical_iff`). `Expr.alike` compares them
as numbers, so `0` and `-0` are alike and NaN is not alike to itself.
-/

set_option autoImplicit false

namespace Reckoner

/-- The operations with two operands. -/
inductive BinaryOp where
  | add | sub | mul | div | rem | pow
  deriving DecidableEq, Repr

namespace BinaryOp

/-- The sign of the operation. A power is written with two stars. -/
def symbol : BinaryOp → String
  | add => "+"
  | sub => "-"
  | mul => "*"
  | div => "/"
  | rem => "%"
  | pow => "**"

/-- The value of the operation, by the rules of floating-point arithmetic: dividing by
zero gives an infinity or NaN. -/
def apply : BinaryOp → Float → Float → Float
  | add, a, b => a + b
  | sub, a, b => a - b
  | mul, a, b => a * b
  | div, a, b => a / b
  | rem, a, b => Number.remainder a b
  | pow, a, b => Float.pow a b

end BinaryOp

/-- The tree of a formula. -/
inductive Expr where
  | literal (value : Float)
  | var (name : String)
  | neg (operand : Expr)
  | binary (op : BinaryOp) (left right : Expr)
  | call (name : String) (args : List Expr)

namespace Expr

mutual

/-- The number of levels of the tree. A call without arguments is one level, like a
literal. -/
def height : Expr → Nat
  | literal _ => 1
  | var _ => 1
  | neg operand => operand.height + 1
  | binary _ left right => max left.height right.height + 1
  | call _ args => heightList args + 1

/-- The height of the tallest of the trees, and zero if there are none. -/
def heightList : List Expr → Nat
  | [] => 0
  | e :: es => max e.height (heightList es)

end

/-- The trees are no taller than `n` if none of them is. -/
theorem heightList_le_iff {es : List Expr} {n : Nat} :
    heightList es ≤ n ↔ ∀ e ∈ es, e.height ≤ n := by
  induction es with
  | nil => simp [heightList]
  | cons e es ih => rw [heightList, Nat.max_le, List.forall_mem_cons, ih]

mutual

/-- The names of the variables in the tree from left to right, as often as they occur. -/
def variableOccurrences : Expr → List String
  | literal _ => []
  | var name => [name]
  | neg operand => operand.variableOccurrences
  | binary _ left right => left.variableOccurrences ++ right.variableOccurrences
  | call _ args => variableOccurrencesList args

/-- The variables of the trees, one tree after the other. -/
def variableOccurrencesList : List Expr → List String
  | [] => []
  | e :: es => e.variableOccurrences ++ variableOccurrencesList es

end

mutual

/-- The names of the functions called in the tree, as often as they occur, a call before
the calls in its arguments. -/
def callOccurrences : Expr → List String
  | literal _ => []
  | var _ => []
  | neg operand => operand.callOccurrences
  | binary _ left right => left.callOccurrences ++ right.callOccurrences
  | call name args => name :: callOccurrencesList args

/-- The functions called in the trees, one tree after the other. -/
def callOccurrencesList : List Expr → List String
  | [] => []
  | e :: es => e.callOccurrences ++ callOccurrencesList es

end

/-- The variables of trees are those of each tree, in the order of the trees. -/
theorem variableOccurrencesList_eq (es : List Expr) :
    variableOccurrencesList es = es.flatMap variableOccurrences := by
  induction es with
  | nil => rfl
  | cons e es ih => simp [variableOccurrencesList, ih]

/-- The calls in trees are those in each tree, in the order of the trees. -/
theorem callOccurrencesList_eq (es : List Expr) :
    callOccurrencesList es = es.flatMap callOccurrences := by
  induction es with
  | nil => rfl
  | cons e es ih => simp [callOccurrencesList, ih]

/-- The variables of the tree in the order of their first occurrence. -/
def variableNames (e : Expr) : List String :=
  e.variableOccurrences.eraseDups

/-- The functions that the tree calls, whether they exist or not, in the order of their
first occurrence. -/
def calledNames (e : Expr) : List String :=
  e.callOccurrences.eraseDups

mutual

/-- The trees agree in everything but their literals, and `same` holds of the literals
that stand at the same place. -/
def eqWith (same : Float → Float → Bool) : Expr → Expr → Bool
  | literal x, literal y => same x y
  | var x, var y => x == y
  | neg a, neg b => eqWith same a b
  | binary op a b, binary op' a' b' => op == op' && eqWith same a a' && eqWith same b b'
  | call name args, call name' args' => name == name' && eqWithList same args args'
  | _, _ => false

/-- The lists are equally long, and the trees at the same place agree. -/
def eqWithList (same : Float → Float → Bool) : List Expr → List Expr → Bool
  | [], [] => true
  | a :: as, b :: bs => eqWith same a b && eqWithList same as bs
  | _, _ => false

end

/-- The trees are the same, to the bits of their literals. -/
def identical : Expr → Expr → Bool :=
  eqWith fun x y => x.toBits == y.toBits

/-- The trees agree, their literals compared as numbers. -/
def alike : Expr → Expr → Bool :=
  eqWith fun x y => x == y

mutual

/-- Where exactly equal literals agree, exactly equal trees do. -/
private theorem eqWith_iff {same : Float → Float → Bool}
    (hsame : ∀ x y, same x y = true ↔ x = y) :
    ∀ a b : Expr, eqWith same a b = true ↔ a = b
  | literal x, b => by cases b <;> simp [eqWith, hsame]
  | var x, b => by cases b <;> simp [eqWith]
  | neg a, b => by cases b <;> simp [eqWith, eqWith_iff hsame a]
  | binary op l r, b => by
    cases b <;> simp [eqWith, eqWith_iff hsame l, eqWith_iff hsame r, and_assoc]
  | call name args, b => by cases b <;> simp [eqWith, eqWithList_iff hsame args]

/-- Where exactly equal literals agree, exactly equal lists of trees do. -/
private theorem eqWithList_iff {same : Float → Float → Bool}
    (hsame : ∀ x y, same x y = true ↔ x = y) :
    ∀ as bs : List Expr, eqWithList same as bs = true ↔ as = bs
  | [], bs => by cases bs <;> simp [eqWithList]
  | a :: as, bs => by
    cases bs <;> simp [eqWithList, eqWith_iff hsame a, eqWithList_iff hsame as]

end

/-- A number is its bits. -/
private theorem eq_of_toBits_eq {x y : Float} (h : x.toBits = y.toBits) : x = y := by
  obtain ⟨⟨m, hm⟩⟩ := x
  obtain ⟨⟨n, hn⟩⟩ := y
  cases (show m = n from h)
  rfl

/-- Comparing bits decides whether numbers are the same. -/
private theorem toBits_beq_iff (x y : Float) : (x.toBits == y.toBits) = true ↔ x = y :=
  ⟨fun h => eq_of_toBits_eq (eq_of_beq h), fun h => h ▸ beq_self_eq_true _⟩

/-- Comparing the bits of the literals tells different trees apart. -/
theorem identical_iff {a b : Expr} : a.identical b = true ↔ a = b :=
  eqWith_iff toBits_beq_iff a b

/-- Whether two trees are the same can be decided by comparing them to the bits. -/
instance : DecidableEq Expr := fun _ _ =>
  decidable_of_iff _ identical_iff

end Expr

end Reckoner
