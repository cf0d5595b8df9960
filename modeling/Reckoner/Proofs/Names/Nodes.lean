import Mathlib.Data.List.Basic
import Mathlib.Data.List.Induction
import Reckoner.Proofs.Evaluation.Variables

/-!
# The nodes of a tree and the names in them

The nodes of a tree are listed as they begin in its text when every operation is written as a
call: a node stands before the nodes below it, and operands and arguments from left to right.
Whatever a traversal of the tree collects can be read off this one list: the checks of an
evaluation, the variables and the called functions are the contributions of the single nodes
(`Expr.filterMap_check?_nodes`).

What a list of names has to do with a sequence in which names come up repeatedly is
`FirstOccurrences`: each name of the sequence once, in the order in which they come up first.
There is one such list for every sequence, and it can be made name by name.
-/

set_option autoImplicit false

namespace Reckoner

/-! ## Nodes -/

namespace Check

variable {bindings : Bindings} {name : String}

/-- A variable can be read if it is bound. -/
theorem defect?_read_eq_none_iff :
    (read name).defect? bindings = none ↔ (bindings name).isSome = true := by
  rw [defect?]
  split
  case isTrue hbound => exact iff_of_true rfl hbound
  case isFalse hunbound => exact iff_of_false (Option.some_ne_none _) hunbound

/-- A call can be made if the name is that of a function and the function accepts the number of
arguments. -/
theorem defect?_call_eq_none_iff {count : Nat} :
    (call name count).defect? bindings = none ↔
      ∃ f, MathFunction.ofName? name = some f ∧ f.arity.accepts count = true := by
  rw [defect?]
  cases MathFunction.ofName? name with
  | none => simp
  | some f => cases hcount : f.arity.accepts count <;> simp [hcount]

end Check

namespace Expr

mutual

/-- The nodes of the tree, each with all that is below it. -/
def nodes : Expr → List Expr
  | literal v => [literal v]
  | var name => [var name]
  | neg operand => neg operand :: operand.nodes
  | binary op left right => binary op left right :: (left.nodes ++ right.nodes)
  | call name args => call name args :: nodesList args

/-- The nodes of the trees, one tree after the other. -/
def nodesList : List Expr → List Expr
  | [] => []
  | e :: es => e.nodes ++ nodesList es

end

/-- The variable that the node is. -/
def varName? : Expr → Option String
  | var name => some name
  | _ => none

/-- The function that the node calls. -/
def calledName? : Expr → Option String
  | call name _ => some name
  | _ => none

/-- What an evaluation checks at the node. -/
def check? : Expr → Option Check
  | var name => some (.read name)
  | call name args => some (.call name args.length)
  | _ => none

/-- The variables of the nodes, from left to right. -/
def nodeVariables (e : Expr) : List String :=
  e.nodes.filterMap varName?

/-- The functions that the nodes call, a call before those in its arguments. -/
def nodeCalls (e : Expr) : List String :=
  e.nodes.filterMap calledName?

mutual

/-- An evaluation reaches the checks in the order of the nodes. -/
theorem filterMap_check?_nodes : ∀ e : Expr, e.nodes.filterMap check? = e.checks
  | literal v => rfl
  | var name => rfl
  | neg e => filterMap_check?_nodes e
  | binary op a b => by
    rw [nodes, List.filterMap_cons_none rfl, List.filterMap_append, filterMap_check?_nodes a,
      filterMap_check?_nodes b, checks]
  | call name args => by
    rw [nodes, checks, ← filterMap_check?_nodesList args]
    rfl

/-- The same for arguments, one after the other. -/
theorem filterMap_check?_nodesList :
    ∀ es : List Expr, (nodesList es).filterMap check? = checksList es
  | [] => rfl
  | e :: es => by
    rw [nodesList, List.filterMap_append, filterMap_check?_nodes e, filterMap_check?_nodesList es,
      checksList]

end

/-- The variables are the reads among the checks. -/
theorem nodeVariables_eq (e : Expr) : e.nodeVariables = e.variableOccurrences := by
  have hnode : varName? = fun node => (check? node).bind Check.name? := by
    funext node
    cases node <;> rfl
  rw [nodeVariables, ← e.filterMap_name?_checks, ← e.filterMap_check?_nodes,
    List.filterMap_filterMap, hnode]

mutual

/-- The functions of the nodes are the calls that occur in the tree. -/
theorem nodeCalls_eq : ∀ e : Expr, e.nodeCalls = e.callOccurrences
  | literal v => rfl
  | var name => rfl
  | neg e => nodeCalls_eq e
  | binary op a b => by
    rw [nodeCalls, nodes, List.filterMap_cons_none rfl, List.filterMap_append,
      ← nodeCalls, ← nodeCalls, nodeCalls_eq a, nodeCalls_eq b, callOccurrences]
  | call name args => by
    rw [nodeCalls, nodes, callOccurrences, ← filterMap_calledName?_nodesList args]
    rfl

/-- The same for arguments, one after the other. -/
theorem filterMap_calledName?_nodesList :
    ∀ es : List Expr, (nodesList es).filterMap calledName? = callOccurrencesList es
  | [] => rfl
  | e :: es => by
    rw [nodesList, List.filterMap_append, ← nodeCalls, nodeCalls_eq e,
      filterMap_calledName?_nodesList es, callOccurrencesList]

end

/-- A name is among the variables of the nodes if a node is that variable. -/
theorem mem_nodeVariables_iff {e : Expr} {name : String} :
    name ∈ e.nodeVariables ↔ var name ∈ e.nodes := by
  rw [nodeVariables, List.mem_filterMap]
  constructor
  · rintro ⟨node, hnode, hname⟩
    cases node with
    | var other => exact Option.some.inj hname ▸ hnode
    | _ => contradiction
  · intro hnode
    exact ⟨var name, hnode, rfl⟩

/-- A name is among the functions of the nodes if a node calls it. -/
theorem mem_nodeCalls_iff {e : Expr} {name : String} :
    name ∈ e.nodeCalls ↔ ∃ args, call name args ∈ e.nodes := by
  rw [nodeCalls, List.mem_filterMap]
  constructor
  · rintro ⟨node, hnode, hname⟩
    cases node with
    | call other args => exact ⟨args, Option.some.inj hname ▸ hnode⟩
    | _ => contradiction
  · rintro ⟨args, hnode⟩
    exact ⟨call name args, hnode, rfl⟩

/-- No check of a tree is defective if its variables are bound and its calls are to functions
that exist and accept as many arguments. -/
theorem firstDefect?_checks_eq_none_iff {e : Expr} {bindings : Bindings} :
    firstDefect? bindings e.checks = none ↔
      (∀ name, var name ∈ e.nodes → (bindings name).isSome = true) ∧
        ∀ name args, call name args ∈ e.nodes →
          ∃ f, MathFunction.ofName? name = some f ∧ f.arity.accepts args.length = true := by
  rw [firstDefect?_eq_none_iff, ← e.filterMap_check?_nodes]
  simp only [List.mem_filterMap]
  constructor
  · intro hchecks
    refine ⟨?_, ?_⟩
    · intro name hnode
      exact Check.defect?_read_eq_none_iff.mp (hchecks _ ⟨_, hnode, rfl⟩)
    · intro name args hnode
      exact Check.defect?_call_eq_none_iff.mp (hchecks _ ⟨_, hnode, rfl⟩)
  · rintro ⟨hvars, hcalls⟩ check ⟨node, hnode, hcheck⟩
    cases node with
    | var name =>
      obtain rfl := Option.some.inj hcheck
      exact Check.defect?_read_eq_none_iff.mpr (hvars name hnode)
    | call name args =>
      obtain rfl := Option.some.inj hcheck
      exact Check.defect?_call_eq_none_iff.mpr (hcalls name args hnode)
    | _ => contradiction

end Expr

/-! ## First occurrences -/

/-- The list has each name of the sequence once, in the order in which they first come up. -/
structure FirstOccurrences (sequence names : List String) : Prop where
  mem_iff : ∀ name, name ∈ names ↔ name ∈ sequence
  ordered : names.Pairwise fun a b => sequence.idxOf a < sequence.idxOf b

namespace FirstOccurrences

variable {sequence names : List String}

/-- No name comes twice. -/
theorem nodup (h : FirstOccurrences sequence names) : names.Nodup := by
  refine h.ordered.imp ?_
  rintro a b hlt rfl
  exact Nat.lt_irrefl _ hlt

/-- A sequence determines the list. -/
theorem unique {other : List String} (h : FirstOccurrences sequence names)
    (h' : FirstOccurrences sequence other) : names = other := by
  have hperm : names.Perm other :=
    (List.perm_ext_iff_of_nodup h.nodup h'.nodup).mpr fun name =>
      (h.mem_iff name).trans (h'.mem_iff name).symm
  refine List.Perm.eq_of_pairwise ?_ h.ordered h'.ordered hperm
  intro a b _ _ hab hba
  exact absurd hab (Nat.lt_asymm hba)

/-- Nothing occurs in nothing. -/
theorem nil : FirstOccurrences [] [] :=
  ⟨fun _ => Iff.rfl, List.Pairwise.nil⟩

/-- What comes behind the sequence does not change the order. -/
theorem ordered_append (h : FirstOccurrences sequence names) (more : List String) :
    names.Pairwise fun a b => (sequence ++ more).idxOf a < (sequence ++ more).idxOf b := by
  refine h.ordered.imp_of_mem ?_
  intro a b ha hb hlt
  rwa [List.idxOf_append_of_mem ((h.mem_iff a).mp ha),
    List.idxOf_append_of_mem ((h.mem_iff b).mp hb)]

/-- A name that has come up before is left out. -/
theorem concat_of_mem (h : FirstOccurrences sequence names) {name : String}
    (hname : name ∈ names) : FirstOccurrences (sequence ++ [name]) names := by
  refine ⟨?_, h.ordered_append [name]⟩
  intro other
  rw [List.mem_append, List.mem_singleton, h.mem_iff, or_iff_left_of_imp]
  rintro rfl
  exact (h.mem_iff other).mp hname

/-- A name that has not come up before is put at the end. -/
theorem concat_of_not_mem (h : FirstOccurrences sequence names) {name : String}
    (hname : name ∉ names) : FirstOccurrences (sequence ++ [name]) (names ++ [name]) := by
  have hnew : name ∉ sequence := fun hold => hname ((h.mem_iff name).mpr hold)
  refine ⟨?_, List.pairwise_append.mpr ⟨h.ordered_append [name], List.pairwise_singleton _ _, ?_⟩⟩
  · intro other
    rw [List.mem_append, List.mem_append, h.mem_iff]
  · intro a ha b hb
    have hold : a ∈ sequence := (h.mem_iff a).mp ha
    obtain rfl := List.mem_singleton.mp hb
    rw [List.idxOf_append_of_mem hold, List.idxOf_append_of_notMem hnew]
    exact Nat.lt_of_lt_of_le (List.idxOf_lt_length_of_mem hold) (Nat.le_add_right _ _)

/-- Leaving out the repetitions makes the list. -/
theorem eraseDups (sequence : List String) : FirstOccurrences sequence sequence.eraseDups := by
  -- from the end, where the last name is new or has come up before
  induction sequence using List.reverseRecOn with
  | nil => exact nil
  | append_singleton sequence name ih =>
    rw [List.eraseDups_append]
    by_cases hname : name ∈ sequence
    · have hnone : [name].removeAll sequence = [] := by simp [List.removeAll, hname]
      rw [hnone, List.eraseDups_nil, List.append_nil]
      exact ih.concat_of_mem (List.mem_eraseDups.mpr hname)
    · have hone : [name].removeAll sequence = [name] := by simp [List.removeAll, hname]
      rw [hone]
      exact ih.concat_of_not_mem fun hold => hname (List.mem_eraseDups.mp hold)

/-- What comes first in the sequence comes first in a selection from it. -/
theorem idxOf_filter_lt {keep : String → Bool} {a b : String} (ha : keep a = true)
    (hb : keep b = true) {sequence : List String} (hlt : sequence.idxOf a < sequence.idxOf b) :
    (sequence.filter keep).idxOf a < (sequence.filter keep).idxOf b := by
  induction sequence with
  | nil => exact hlt
  | cons name sequence ih =>
    -- `b` is not the first name, since `a` comes before it
    have hname : name ≠ b := by
      rintro rfl
      rw [List.idxOf_cons_self] at hlt
      exact Nat.not_lt_zero _ hlt
    rw [List.idxOf_cons_ne _ hname] at hlt
    by_cases hfirst : name = a
    · rw [hfirst, List.filter_cons_of_pos ha, List.idxOf_cons_self,
        List.idxOf_cons_ne _ (hfirst ▸ hname)]
      exact Nat.succ_pos _
    · rw [List.idxOf_cons_ne _ hfirst] at hlt
      have hrest := ih (Nat.lt_of_succ_lt_succ hlt)
      cases hkeep : keep name with
      | true =>
        rw [List.filter_cons_of_pos hkeep, List.idxOf_cons_ne _ hfirst, List.idxOf_cons_ne _ hname]
        exact Nat.succ_lt_succ hrest
      | false =>
        rw [List.filter_cons_of_neg (by simp [hkeep])]
        exact hrest

/-- Selecting names from the list is the same as selecting them from the sequence. -/
theorem filter (h : FirstOccurrences sequence names) (keep : String → Bool) :
    FirstOccurrences (sequence.filter keep) (names.filter keep) := by
  refine ⟨?_, ?_⟩
  · intro name
    rw [List.mem_filter, List.mem_filter, h.mem_iff]
  · refine (h.ordered.filter keep).imp_of_mem ?_
    intro a b ha hb hlt
    exact idxOf_filter_lt (List.mem_filter.mp ha).2 (List.mem_filter.mp hb).2 hlt

end FirstOccurrences

end Reckoner
