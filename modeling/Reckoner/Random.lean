import Reckoner.Number.Basic

/-!
# Random numbers from a seed

The function `random` takes its values from a sequence of numbers in the interval from
zero to one, one excluded. Here the sequence is a function of a seed: the counter is
multiplied by an odd constant and its bits are mixed, and the upper 53 bits of the
result are read as a binary fraction.
-/

set_option autoImplicit false

namespace Reckoner.Random

/-- Mixes the bits of a word so that neighbouring words become unlike. The map is
one-to-one: each step can be undone. -/
def mixed (word : UInt64) : UInt64 :=
  let word := (word ^^^ (word >>> 30)) * 0xbf58476d1ce4e5b9
  let word := (word ^^^ (word >>> 27)) * 0x94d049bb133111eb
  word ^^^ (word >>> 31)

/-- The number `k / 2 ^ 53` for the upper 53 bits `k` of the word. -/
def fraction (word : UInt64) : Float :=
  Number.ofDyadic .positive (word >>> 11).toNat (-53)

/-- The `n`-th random number that belongs to the seed. -/
def uniform (seed : UInt64) (n : Nat) : Float :=
  fraction (mixed (seed + (UInt64.ofNat n + 1) * 0x9e3779b97f4a7c15))

end Reckoner.Random
