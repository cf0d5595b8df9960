import Reckoner.Bindings
import Reckoner.Expr
import Reckoner.MathFunction
import Reckoner.Random

/-!
# Evaluating an expression

The tree is walked from left to right. Arithmetic never fails: what has no value is an
infinity or NaN and is calculated with further. An evaluation stops at the first
variable without a value and at the first call that is not to an allowed function with
a number of arguments that it accepts; such a call is refused before its arguments are
looked at. Which variables were asked for and how many random numbers were drawn is
recorded in a `Trace`, for a failing evaluation up to the failure.
-/

set_option autoImplicit false

namespace Reckoner

/-- Why an expression has no value. -/
inductive EvalError where
  | unknownVariable (name : String)
  | functionNotAllowed (name : String)
  | wrongArity (name : String) (expected : Arity) (got : Nat)
  deriving DecidableEq, Repr

/-- What an evaluation is given: the values of variables, and a sequence of numbers from
which `random` takes its values. -/
structure Context where
  bindings : Bindings
  random : Nat → Float := Random.uniform 0

/-- What an evaluation has asked of its context: the variables, in order and with
repetitions, and how many random numbers. -/
structure Trace where
  reads : Array String := #[]
  draws : Nat := 0
  deriving DecidableEq, Repr

/-- A step of an evaluation: a value or an error, and in both cases a longer trace. -/
abbrev EvalM := ExceptT EvalError (StateM Trace)

namespace Context

/-- Asks for the value of a variable. -/
def read (context : Context) (name : String) : EvalM Float := do
  modify fun trace => { trace with reads := trace.reads.push name }
  match context.bindings name with
  | some value => pure value
  | none => throw (.unknownVariable name)

/-- Calls a function with the next random number at hand. -/
def call (context : Context) (f : MathFunction) (values : List Float) : EvalM Float := do
  let trace ← get
  set { trace with draws := trace.draws + f.draws }
  pure (f.call (context.random trace.draws) values)

end Context

/-- The function that a call means, if it is allowed and accepts so many arguments. -/
def checkedFunction (name : String) (count : Nat) : Except EvalError MathFunction :=
  match MathFunction.ofName? name with
  | none => .error (.functionNotAllowed name)
  | some f =>
    if f.arity.accepts count then .ok f else .error (.wrongArity name f.arity count)

namespace Expr

mutual

/-- The value of the tree. -/
def eval (context : Context) : Expr → EvalM Float
  | literal v => pure v
  | var name => context.read name
  | neg operand => do
    let v ← operand.eval context
    pure (-v)
  | binary op left right => do
    let a ← left.eval context
    let b ← right.eval context
    pure (op.apply a b)
  | call name args => do
    let f ← ExceptT.mk (pure (checkedFunction name args.length))
    let values ← evalList context args
    context.call f values

/-- The values of the trees, from left to right. -/
def evalList (context : Context) : List Expr → EvalM (List Float)
  | [] => pure []
  | e :: es => do
    let v ← e.eval context
    let vs ← evalList context es
    pure (v :: vs)

end

/-- Evaluates the tree from an empty trace. -/
def run (e : Expr) (context : Context) : Except EvalError Float × Trace :=
  ((e.eval context).run).run {}

/-- The value of the tree, or why it has none. -/
def value (e : Expr) (context : Context) : Except EvalError Float :=
  (e.run context).1

end Expr

end Reckoner
