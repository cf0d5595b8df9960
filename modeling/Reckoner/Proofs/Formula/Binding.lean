import Mathlib.Data.List.Induction
import Std.Data.HashMap.Lemmas
import Std.Data.TreeMap.Lemmas
import Reckoner.Formula

/-!
# Parameters are bound by position and by name

A call binds the parameters by their positions. The same values can be given by name, as a list
of pairs or in a map into which the pairs were put one after the other, and an evaluation cannot
tell these apart: where a name comes up repeatedly, the last value counts in all of them.

`lastValue?` is what they have in common. A list of pairs is searched for it from the end, a map
that keeps its promise to give back what was put in last (`NameStore`) holds it after the pairs
have been put in, and the position that a call looks up is that of a table of names and positions
(`lastPosition?_eq_lastValue?`).
-/

set_option autoImplicit false

namespace Reckoner

variable {β γ σ : Type}

/-! ## The last pair with a name -/

/-- The value in the last pair with that name. -/
def lastValue? (pairs : List (String × β)) (name : String) : Option β :=
  (pairs.reverse.find? (·.1 == name)).map (·.2)

/-- A pair at the end is the last one with its name. -/
theorem lastValue?_concat (pairs : List (String × β)) (key : String) (value : β) (name : String) :
    lastValue? (pairs ++ [(key, value)]) name =
      if key = name then some value else lastValue? pairs name := by
  rw [lastValue?, List.reverse_concat, lastValue?]
  by_cases h : key = name <;> simp [h]

/-- A pair at the front counts if no other one has its name. -/
theorem lastValue?_cons (pairs : List (String × β)) (key : String) (value : β) (name : String) :
    lastValue? ((key, value) :: pairs) name =
      (lastValue? pairs name).or (if key = name then some value else none) := by
  rw [lastValue?, List.reverse_cons, List.find?_append, Option.map_or, lastValue?]
  by_cases h : key = name <;> simp [h]

/-- Values that are changed one by one are changed where they are found. -/
theorem lastValue?_map (f : β → γ) (pairs : List (String × β)) (name : String) :
    lastValue? (pairs.map fun pair => (pair.1, f pair.2)) name =
      (lastValue? pairs name).map f := by
  rw [lastValue?, ← List.map_reverse, List.find?_map, Option.map_map, lastValue?, Option.map_map]
  rfl

/-! ## Maps -/

/-- A way to keep values under names, in which what was put in last under a name is found. -/
structure NameStore (σ β : Type) where
  empty : σ
  insert : σ → String → β → σ
  find? : σ → String → Option β
  find?_empty : ∀ name, find? empty name = none
  find?_insert : ∀ store key value name,
    find? (insert store key value) name = if key = name then some value else find? store name

namespace NameStore

/-- Puts in the pairs one after the other. -/
def ofPairs (store : NameStore σ β) (pairs : List (String × β)) : σ :=
  pairs.foldl (fun values pair => store.insert values pair.1 pair.2) store.empty

/-- Hash maps. -/
def hashMap : NameStore (Std.HashMap String β) β where
  empty := ∅
  insert := Std.HashMap.insert
  find? values name := values[name]?
  find?_empty _ := Std.HashMap.getElem?_empty
  find?_insert values key value name := by
    simp only [Std.HashMap.getElem?_insert, beq_iff_eq]

/-- Ordered maps. -/
def treeMap : NameStore (Std.TreeMap String β) β where
  empty := ∅
  insert := Std.TreeMap.insert
  find? values name := values[name]?
  find?_empty _ := Std.TreeMap.getElem?_emptyc
  find?_insert values key value name := by
    simp only [Std.TreeMap.getElem?_insert, Std.LawfulEqCmp.compare_eq_iff_eq]

/-- Whatever map the pairs are put in, the last one with a name is found. -/
theorem find?_ofPairs (store : NameStore σ β) (pairs : List (String × β)) (name : String) :
    store.find? (store.ofPairs pairs) name = lastValue? pairs name := by
  -- from the end: the pair put in last covers what was under its name
  induction pairs using List.reverseRecOn with
  | nil => exact store.find?_empty name
  | append_singleton pairs pair ih =>
    rw [ofPairs, List.foldl_append, List.foldl_cons, List.foldl_nil, store.find?_insert,
      lastValue?_concat, ← ih, ofPairs]

end NameStore

/-! ## Positions -/

/-- A position is the last one of a name if the name stands there and not behind. -/
theorem lastPosition?_eq_some_iff {name : String} {names : List String} {i : Nat} :
    lastPosition? name names = some i ↔ names[i]? = some name ∧ name ∉ names.drop (i + 1) := by
  induction names generalizing i with
  | nil => simp [lastPosition?]
  | cons first rest ih =>
    have hrest : name ∈ rest ↔ (lastPosition? name rest).isSome = true :=
      isSome_lastPosition?.symm
    cases i with
    | zero => cases h : lastPosition? name rest <;> simp [lastPosition?, h, hrest]
    | succ i =>
      rw [List.getElem?_cons_succ, List.drop_succ_cons, ← ih]
      cases h : lastPosition? name rest <;> simp [lastPosition?, h]

/-- The position of a name is the last one with it in a table of positions. -/
theorem lastPosition?_eq_lastValue? (name : String) (names : List String) :
    lastPosition? name names = lastValue? names.zipIdx name := by
  induction names with
  | nil => rfl
  | cons first rest ih =>
    -- in the whole list the names of the rest stand one place further back
    have hshift : rest.zipIdx 1 = rest.zipIdx.map fun pair => (pair.1, pair.2 + 1) :=
      List.zipIdx_succ
    rw [List.zipIdx_cons, lastValue?_cons, hshift, lastValue?_map (· + 1), ← ih, lastPosition?]
    cases lastPosition? name rest <;> rfl

namespace Formula

/-- The parameters with their arguments, which are zero if there are not so many. -/
def pairs (f : Formula) (args : List Float) : List (String × Float) :=
  f.parameters.zipIdx.map fun pair => (pair.1, args.getD pair.2 0)

/-- A formula binds a name to the last value that its pairs give to it. -/
theorem bindings_eq_lastValue? (f : Formula) (args : List Float) :
    f.bindings args = lastValue? (f.pairs args) := by
  funext name
  rw [bindings, lastPosition?_eq_lastValue?, pairs, lastValue?_map (fun i => args.getD i 0)]

/-- Only so many arguments are looked up as there are parameters. -/
theorem bindings_take (f : Formula) (args : List Float) :
    f.bindings (args.take f.parameters.length) = f.bindings args := by
  funext name
  rw [bindings, bindings]
  cases h : lastPosition? name f.parameters with
  | none => rfl
  | some i =>
    obtain ⟨hname, -⟩ := lastPosition?_eq_some_iff.mp h
    obtain ⟨hlt, -⟩ := List.getElem?_eq_some_iff.mp hname
    rw [Option.map_some, Option.map_some, List.getD_eq_getElem?_getD, List.getElem?_take_of_lt hlt,
      List.getD_eq_getElem?_getD]

/-- A parameter is bound at its last position, whether arguments reach as far or not. -/
theorem bindings_of_last {f : Formula} {name : String} {i : Nat}
    (hname : f.parameters[i]? = some name) (hlast : name ∉ f.parameters.drop (i + 1))
    (args : List Float) : f.bindings args name = some (args.getD i 0) := by
  rw [bindings, lastPosition?_eq_some_iff.mpr ⟨hname, hlast⟩, Option.map_some]

/-- A formula binds its parameters and nothing else. -/
theorem isSome_bindings {f : Formula} {args : List Float} {name : String} :
    (f.bindings args name).isSome = true ↔ name ∈ f.parameters := by
  rw [bindings, Option.isSome_map, isSome_lastPosition?]

end Formula

/-- **Binding by position is binding by name.** A call evaluates the expression as if each
parameter and the argument at its position, zero if there is none, were given as a pair: in a
list of pairs, or in a hash map, an ordered map or any other map into which they were put in
this order. The result is the same, and so are the questions and the random numbers drawn. It is
also the same as looking up the position of a name in a map into which the parameters were put
with their positions. Arguments beyond the parameters have no effect, what is no parameter is
not bound, and a parameter that is named repeatedly is bound to the argument at its last
position, which is zero if the arguments end before it. -/
theorem positional_binding_is_named_binding (f : Formula) (args : List Float)
    (random : Nat → Float) :
    (f.run args random = f.body.run ⟨.ofPairs (f.pairs args), random⟩ ∧
      f.run args random =
        f.body.run ⟨.ofHashMap (NameStore.hashMap.ofPairs (f.pairs args)), random⟩ ∧
      f.run args random =
        f.body.run ⟨.ofTreeMap (NameStore.treeMap.ofPairs (f.pairs args)), random⟩ ∧
      ∀ {σ : Type} (store : NameStore σ Float),
        f.run args random = f.body.run ⟨store.find? (store.ofPairs (f.pairs args)), random⟩) ∧
    (∀ name, f.bindings args name =
      (NameStore.hashMap.find? (NameStore.hashMap.ofPairs f.parameters.zipIdx) name).map
        fun i => args.getD i 0) ∧
    f.run (args.take f.parameters.length) random = f.run args random ∧
    (∀ name ∉ f.parameters, f.bindings args name = none) ∧
    ∀ name i, f.parameters[i]? = some name → name ∉ f.parameters.drop (i + 1) →
      f.bindings args name = some (args.getD i 0) := by
  have hstore : ∀ {σ : Type} (store : NameStore σ Float),
      f.run args random = f.body.run ⟨store.find? (store.ofPairs (f.pairs args)), random⟩ := by
    intro σ store
    have hfind : store.find? (store.ofPairs (f.pairs args)) = f.bindings args := by
      rw [f.bindings_eq_lastValue?]
      exact funext (store.find?_ofPairs _)
    rw [hfind, Formula.run]
  refine ⟨⟨?_, hstore .hashMap, hstore .treeMap, hstore⟩, ?_, ?_, ?_, ?_⟩
  · have hpairs : Bindings.ofPairs (f.pairs args) = f.bindings args :=
      (f.bindings_eq_lastValue? args).symm
    rw [hpairs, Formula.run]
  · intro name
    rw [NameStore.find?_ofPairs, ← lastPosition?_eq_lastValue?, Formula.bindings]
  · rw [Formula.run, Formula.run, f.bindings_take]
  · intro name hname
    rw [← Option.not_isSome_iff_eq_none, Formula.isSome_bindings]
    exact hname
  · intro name i hname hlast
    exact Formula.bindings_of_last hname hlast args

/-- The formula is `x - y` with the parameters `x`, `y` and `x` again, called with `7` and `2`:
the `7` is given for the first position of `x`, but its last position is left without one. -/
theorem positional_binding_is_named_binding_repeated :
    let f : Formula := ⟨.binary .sub (.var "x") (.var "y"), ["x", "y", "x"]⟩
    let random : Nat → Float := Random.uniform 0
    f.parameters[2]? = some "x" ∧ "x" ∉ f.parameters.drop 3 ∧
      f.bindings [7, 2] "x" = some 0 ∧
      f.run [7, 2] random = (.ok (-2), { reads := #["x", "y"] }) ∧
      f.body.run ⟨.ofPairs [("x", 7), ("y", 2), ("x", 0)], random⟩ = f.run [7, 2] random := by
  intro f random
  have hlast : f.parameters[2]? = some "x" ∧ "x" ∉ f.parameters.drop 3 := by decide
  obtain ⟨⟨hpairs, -⟩, -, -, -, hbound⟩ := positional_binding_is_named_binding f [7, 2] random
  exact ⟨hlast.1, hlast.2, hbound "x" 2 hlast.1 hlast.2, rfl, hpairs.symm⟩

end Reckoner
