import Reckoner.Number.Extremum
import Reckoner.Number.Rounding

/-!
# The functions a formula may call

A formula can call the eighteen functions listed here and nothing else: a name stands
for one of them or for none (`MathFunction.ofName?_eq_some_iff`). Each has a number of
arguments that it accepts, which is checked where a call is evaluated. `random` is the
one function that is not determined by its arguments; it is given the next number of a
source that the caller of the evaluation provides.
-/

set_option autoImplicit false

namespace Reckoner

/-- How many arguments a function accepts. -/
inductive Arity where
  | exactly (count : Nat)
  | atLeast (count : Nat)
  deriving DecidableEq, Repr

namespace Arity

/-- The function may be called with `n` arguments. -/
def accepts (n : Nat) : Arity → Bool
  | exactly count => n == count
  | atLeast count => count ≤ n

/-- The arity as messages give it. -/
def text : Arity → String
  | exactly count => count.repr
  | atLeast count => "at least " ++ count.repr

end Arity

/-- The functions of the allow-list. -/
inductive MathFunction where
  | abs | acos | asin | atan | atan2 | ceil | cos | exp | floor | log | max | min | pow
  | random | round | sin | sqrt | tan
  deriving DecidableEq, Repr

namespace MathFunction

/-- All functions, in alphabetical order. -/
def all : List MathFunction :=
  [abs, acos, asin, atan, atan2, ceil, cos, exp, floor, log, max, min, pow, random, round,
    sin, sqrt, tan]

/-- The name by which a formula calls the function. -/
def name : MathFunction → String
  | abs => "abs"
  | acos => "acos"
  | asin => "asin"
  | atan => "atan"
  | atan2 => "atan2"
  | ceil => "ceil"
  | cos => "cos"
  | exp => "exp"
  | floor => "floor"
  | log => "log"
  | max => "max"
  | min => "min"
  | pow => "pow"
  | random => "random"
  | round => "round"
  | sin => "sin"
  | sqrt => "sqrt"
  | tan => "tan"

/-- The function of that name, if it is on the list. Names are told apart by case. -/
def ofName? (name : String) : Option MathFunction :=
  all.find? (·.name == name)

/-- The name is on the allow-list. -/
def isAllowed (name : String) : Bool :=
  (ofName? name).isSome

/-- The arguments that the function accepts. -/
def arity : MathFunction → Arity
  | random => .exactly 0
  | max | min => .atLeast 1
  | atan2 | pow => .exactly 2
  | _ => .exactly 1

/-- The value of the function at the arguments; `sample` is the value of `random`. The
number of arguments is not checked here: one that is not given makes the value NaN, and
those that the function has no use for are ignored. Of no numbers the greatest is `-∞` and
the least is `∞`. -/
def call (sample : Float) : MathFunction → List Float → Float
  | random, _ => sample
  | max, xs => Number.maximum xs
  | min, xs => Number.minimum xs
  | atan2, y :: x :: _ => Float.atan2 y x
  | pow, x :: y :: _ => Float.pow x y
  | abs, x :: _ => Float.abs x
  | acos, x :: _ => Float.acos x
  | asin, x :: _ => Float.asin x
  | atan, x :: _ => Float.atan x
  | ceil, x :: _ => Number.ceil x
  | cos, x :: _ => Float.cos x
  | exp, x :: _ => Float.exp x
  | floor, x :: _ => Number.floor x
  | log, x :: _ => Float.log x
  | round, x :: _ => Number.roundHalfUp x
  | sin, x :: _ => Float.sin x
  | sqrt, x :: _ => Float.sqrt x
  | tan, x :: _ => Float.tan x
  | _, _ => Number.nan

/-- How many numbers a call takes from the source of random numbers. -/
def draws : MathFunction → Nat
  | random => 1
  | _ => 0

/-- The list of all functions leaves none out. -/
theorem mem_all (f : MathFunction) : f ∈ all := by
  cases f <;> decide

/-- No two functions bear the same name. -/
theorem name_injective {f g : MathFunction} : f.name = g.name → f = g := by
  cases f <;> cases g <;> simp [name]

/-- A name stands for the one function that bears it. -/
theorem ofName?_eq_some_iff {s : String} {f : MathFunction} : ofName? s = some f ↔ f.name = s := by
  constructor
  · intro h
    simpa using List.find?_some h
  · rintro rfl
    cases h : ofName? f.name with
    | none => simpa using List.find?_eq_none.1 h f (mem_all f)
    | some g => rw [name_injective (by simpa using List.find?_some h : g.name = f.name)]

end MathFunction

end Reckoner
