import Std.Data.HashMap
import Std.Data.TreeMap

/-!
# Bindings of variables

An evaluation asks for the value of a variable by its name; where the values come from
is up to the caller. Any function from names to values will do, and the usual stores of
names are turned into one here. A function gives one answer for a name, however often and
whenever it is asked: a scope whose answers change between two questions of one evaluation
is left out.
-/

set_option autoImplicit false

namespace Reckoner

/-- The value of each bound variable, the same at every question. -/
abbrev Bindings := String → Option Float

namespace Bindings

/-- No variable is bound. -/
def empty : Bindings :=
  fun _ => none

/-- The variables of the pairs; of two pairs with one name the later counts. -/
def ofPairs (pairs : List (String × Float)) : Bindings :=
  fun name => (pairs.reverse.find? (·.1 == name)).map (·.2)

/-- The variables of a hash map. -/
def ofHashMap (values : Std.HashMap String Float) : Bindings :=
  fun name => values[name]?

/-- The variables of an ordered map. -/
def ofTreeMap (values : Std.TreeMap String Float) : Bindings :=
  fun name => values[name]?

end Bindings

end Reckoner
