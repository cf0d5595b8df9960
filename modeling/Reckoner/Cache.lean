import Std.Data.HashMap
import Reckoner.Expr

/-!
# A cache of expressions

Expressions are kept under the text that they were read from. The cache holds a limited
number of them, at least one; when it is full, it forgets all before it takes the next.
-/

set_option autoImplicit false

namespace Reckoner

/-- Expressions by the text they were read from, and how many may be kept. -/
structure Cache where
  capacity : Nat
  capacity_pos : 0 < capacity
  entries : Std.HashMap String Expr := {}

namespace Cache

/-- An empty cache. A capacity of zero counts as one. -/
def ofCapacity (capacity : Nat) : Cache :=
  { capacity := max capacity 1, capacity_pos := Nat.le_max_right capacity 1 }

/-- The number of expressions kept. -/
def size (cache : Cache) : Nat :=
  cache.entries.size

/-- The expression kept for the text. -/
def find? (cache : Cache) (text : String) : Option Expr :=
  cache.entries[text]?

/-- No further expression can be taken. -/
def isFull (cache : Cache) : Bool :=
  cache.capacity ≤ cache.size

/-- Forgets all expressions. -/
def clear (cache : Cache) : Cache :=
  { cache with entries := {} }

/-- Keeps the expression of a text, in an empty cache if it was full. -/
def insert (cache : Cache) (text : String) (tree : Expr) : Cache :=
  let room := if cache.isFull then cache.clear else cache
  { room with entries := room.entries.insert text tree }

/-- Nothing is found in a cache that was emptied. -/
@[simp] theorem find?_clear (cache : Cache) (text : String) : cache.clear.find? text = none := by
  simp [find?, clear]

/-- What was kept last can be found, and the rest if the cache was not full. -/
theorem find?_insert (cache : Cache) (text other : String) (tree : Expr) :
    (cache.insert text tree).find? other =
      if text = other then some tree else if cache.isFull then none else cache.find? other := by
  unfold insert
  cases cache.isFull <;> by_cases h : text = other <;>
    simp [find?, clear, Std.HashMap.getElem?_insert, h]

/-- The cache never holds more than its capacity. -/
theorem size_insert_le {cache : Cache} (hsize : cache.size ≤ cache.capacity) (text : String)
    (tree : Expr) : (cache.insert text tree).size ≤ cache.capacity := by
  have hpos := cache.capacity_pos
  have hle : ∀ m : Std.HashMap String Expr, (m.insert text tree).size ≤ m.size + 1 :=
    fun m => Std.HashMap.size_insert_le
  by_cases hfull : cache.isFull = true
  · have := hle {}
    rw [Std.HashMap.size_empty] at this
    simp only [insert, hfull, if_true]
    show (Std.HashMap.insert {} text tree).size ≤ cache.capacity
    omega
  · have := hle cache.entries
    have hroom : cache.entries.size < cache.capacity :=
      Nat.lt_of_not_le fun h => hfull (decide_eq_true h)
    simp only [insert, hfull, Bool.false_eq_true, if_false]
    show (cache.entries.insert text tree).size ≤ cache.capacity
    omega

end Cache

end Reckoner
