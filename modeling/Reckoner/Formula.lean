import Reckoner.Expr.Eval

/-!
# Formulas with parameters

A formula is an expression whose variables are bound by position: it is called with a
list of numbers, the first for the first parameter and so on. Numbers that are not given
are zero and numbers without a parameter are ignored, so every call binds exactly the
parameters, and a variable that is none of them has no value in any call.
-/

set_option autoImplicit false

namespace Reckoner

/-- The position of a name in a list of names; of several positions it is the last one. -/
def lastPosition? (name : String) : List String → Option Nat
  | [] => none
  | first :: rest =>
    match lastPosition? name rest with
    | some i => some (i + 1)
    | none => if first = name then some 0 else none

/-- A name has a position in the list if it occurs there. -/
theorem isSome_lastPosition? {name : String} {names : List String} :
    (lastPosition? name names).isSome = true ↔ name ∈ names := by
  induction names with
  | nil => simp [lastPosition?]
  | cons first rest ih =>
    rw [List.mem_cons, ← ih]
    cases h : lastPosition? name rest with
    | some i => simp [lastPosition?, h]
    | none =>
      by_cases hname : first = name
      · simp [lastPosition?, h, hname]
      · simp [lastPosition?, h, hname, Ne.symm hname]

/-- An expression and its parameters in order. A parameter that is named twice is bound at
its last position. -/
structure Formula where
  body : Expr
  parameters : List String
  deriving DecidableEq

namespace Formula

/-- The variables of the expression in the order of their first occurrence. -/
def variableNames (f : Formula) : List String :=
  f.body.variableNames

/-- The variables that no parameter binds. -/
def unbound (f : Formula) : List String :=
  f.variableNames.filter (· ∉ f.parameters)

/-- Binds each parameter to the argument at its position, which is zero if there are not
so many arguments. -/
def bindings (f : Formula) (args : List Float) : Bindings :=
  fun name => (lastPosition? name f.parameters).map fun i => args.getD i 0

/-- Evaluates the expression at the arguments; `random` is the source of random numbers. -/
def run (f : Formula) (args : List Float) (random : Nat → Float) :
    Except EvalError Float × Trace :=
  f.body.run ⟨f.bindings args, random⟩

/-- The value of the expression at the arguments, or why it has none. -/
def call (f : Formula) (args : List Float) (random : Nat → Float) : Except EvalError Float :=
  (f.run args random).1

end Formula

end Reckoner
