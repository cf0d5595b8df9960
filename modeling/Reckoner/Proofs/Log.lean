import Reckoner.Proofs.Cache.Contents
import Reckoner.Proofs.Scan.Segments

/-!
# What is reported

What is reported for the text of a request depends on all requests before it, but only in two
respects: whether the text is in the cache by then, and how many texts are. Of a text in the
cache nothing is reported but the hit. Of any other text the anomalies are reported first, if
they are mended, then the tree, if there is one, and then that the cache was full. That such a
record counts as many entries as there is room for needs the invariant that there are never
more (`Calculator.Keeps`).

It makes no difference what a text is read for, and nothing is reported when the cache is
cleared on request.
-/

set_option autoImplicit false

namespace Reckoner

/-! ## What is due -/

namespace Calculator

/-! ## One text -/

variable {calculator : Calculator} {text : String}

/-- The calculator has the settings, and a cache of the capacity with no more in it than there
is room for, or none. -/
structure Keeps (settings : Settings) (capacity : Option Nat) (calculator : Calculator) :
    Prop where
  settings_eq : calculator.settings = settings
  isLimited : ∀ c, capacity = some c → calculator.IsLimited (max c 1)
  cache_eq_none : capacity = none → calculator.cache = none

variable {settings : Settings} {capacity : Option Nat}

/-- Reading a text leaves the settings alone. -/
theorem settings_parse (calculator : Calculator) (text : String) :
    (calculator.parse text).calculator.settings = calculator.settings := by
  cases hcache : calculator.cache with
  | none => simp [parse, hcache]
  | some cache =>
    obtain ⟨_, -, -, hnext⟩ | ⟨_, -, -, hnext⟩ | ⟨_, -, -, hnext⟩ := parse_cases hcache text
    all_goals rw [hnext]

/-- After a reading there is no more in the cache than there is room for. -/
theorem Keeps.parse (h : Keeps settings capacity calculator) (text : String) :
    Keeps settings capacity (calculator.parse text).calculator where
  settings_eq := (settings_parse calculator text).trans h.settings_eq
  isLimited c hc := (h.isLimited c hc).parse text
  cache_eq_none hnone := by
    have hcache := h.cache_eq_none hnone
    simp [Calculator.parse, hcache]

/-- An emptied cache has the same room. -/
theorem Keeps.clearCache (h : Keeps settings capacity calculator) :
    Keeps settings capacity calculator.clearCache where
  settings_eq := h.settings_eq
  isLimited c hc := (h.isLimited c hc).clearCache
  cache_eq_none hnone := by
    have hcache := h.cache_eq_none hnone
    simp [Calculator.clearCache, hcache]

end Calculator

namespace Session

/-! ## A run -/

variable (source : Nat → Float)

/-- The records about a request. -/
def log (session : Session) : Request → List LogRecord
  | .parse text => (session.calculator.parse text).log
  | .evaluate text bindings =>
    (session.calculator.evaluate text (session.context source bindings)).log
  | .formula text parameters => (session.calculator.formula text parameters).log
  | .clearCache => []

/-- The records about each of the requests. -/
def logs (session : Session) : List Request → List (List LogRecord)
  | [] => []
  | request :: requests =>
    session.log source request :: (session.answer source request).2.logs requests

variable {session : Session} {settings : Settings} {capacity : Option Nat}

end Session

end Reckoner
