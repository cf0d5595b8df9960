import Reckoner.Cache
import Reckoner.Formula
import Reckoner.Settings

/-!
# The calculator

A calculator reads formulas by its settings and may keep the expressions that it has
read in a cache. Only expressions are kept, never values, so the same text can be
evaluated with other bindings every time. Every operation gives its result, the
calculator as it is afterwards, and the records of what was done, in order.
-/

set_option autoImplicit false

namespace Reckoner

/-- Settings, and a cache or none. -/
structure Calculator where
  settings : Settings := {}
  cache : Option Cache := none

/-- What comes of an operation of a calculator. -/
structure Outcome (α : Type) where
  result : Except Error α
  calculator : Calculator
  log : List LogRecord
  /-- What an evaluation asked of its context, if there was one. -/
  trace : Trace := {}

namespace Calculator

/-- The calculator with an empty cache of the given capacity. -/
def withCache (calculator : Calculator) (capacity : Nat) : Calculator :=
  { calculator with cache := some (.ofCapacity capacity) }

/-- The number of expressions in the cache, zero without one. -/
def cachedCount (calculator : Calculator) : Nat :=
  match calculator.cache with
  | some cache => cache.size
  | none => 0

/-- Empties the cache, if there is one. -/
def clearCache (calculator : Calculator) : Calculator :=
  { calculator with cache := calculator.cache.map Cache.clear }

/-- Reads a text that is not in the cache, and keeps its expression if it has one. -/
def parseUncached (calculator : Calculator) (cache : Cache) (text : String) : Outcome Expr :=
  let (result, log) := calculator.settings.report text
  match result with
  | .error error => ⟨.error error, calculator, log, {}⟩
  | .ok tree =>
    let overflow := if cache.isFull then [.cacheFull cache.size] else []
    ⟨.ok tree, { calculator with cache := some (cache.insert text tree) }, log ++ overflow, {}⟩

/-- The expression of a text, from the cache if it is there. -/
def parse (calculator : Calculator) (text : String) : Outcome Expr :=
  match calculator.cache with
  | none =>
    let (result, log) := calculator.settings.report text
    ⟨result, calculator, log, {}⟩
  | some cache =>
    match cache.find? text with
    | some tree => ⟨.ok tree, calculator, [.cacheHit text], {}⟩
    | none => calculator.parseUncached cache text

/-- The value of a text. -/
def evaluate (calculator : Calculator) (text : String) (context : Context) : Outcome Float :=
  let parsed := calculator.parse text
  match parsed.result with
  | .error error => ⟨.error error, parsed.calculator, parsed.log, {}⟩
  | .ok tree =>
    let (value, trace) := tree.run context
    ⟨value.mapError .evaluation, parsed.calculator, parsed.log, trace⟩

/-- The formula of a text with the given parameters. -/
def formula (calculator : Calculator) (text : String) (parameters : List String) :
    Outcome Formula :=
  let parsed := calculator.parse text
  ⟨(⟨·, parameters⟩) <$> parsed.result, parsed.calculator, parsed.log, {}⟩

end Calculator

end Reckoner
