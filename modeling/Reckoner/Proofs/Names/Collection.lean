import Std.Data.HashSet
import Reckoner.Proofs.Names.Nodes

/-!
# Collecting names

The names in a tree can be collected in one walk that is handed what was collected before. The
walk for the variables keeps a set of the names seen, beside the list of them; the walk for the
called functions searches the list itself. Both add a name only if it is new.

If what such a walk starts from are the first occurrences of some sequence, then it ends with
the first occurrences of this sequence with the names of the tree behind it. This is what makes
the walk along operands and argument lists go through, and from nothing it gives the names that
`Expr.variableNames` and `Expr.calledNames` give.

An evaluation is a third walk, which may stop early: what it asks for is the beginning of the
sequence of the variables, so its first occurrences are the beginning of the names.
-/

set_option autoImplicit false

namespace Reckoner

/-! ## Collecting in one walk -/

/-- Names in the order in which they were collected, and the set of them. -/
structure Gathered where
  names : Array String := #[]
  seen : Std.HashSet String := {}
  mem_seen : ∀ name, name ∈ seen ↔ name ∈ names := by simp

/-- Adds a name if it has not been seen. -/
def Gathered.add (gathered : Gathered) (name : String) : Gathered :=
  if name ∈ gathered.seen then gathered
  else
    { names := gathered.names.push name
      seen := gathered.seen.insert name
      mem_seen := by
        intro other
        rw [Std.HashSet.mem_insert, Array.mem_push, gathered.mem_seen, beq_iff_eq, or_comm,
          eq_comm] }

namespace Expr

mutual

/-- Adds the variables of the tree. -/
def gatherVariables : Expr → Gathered → Gathered
  | literal _, gathered => gathered
  | var name, gathered => gathered.add name
  | neg operand, gathered => operand.gatherVariables gathered
  | binary _ left right, gathered => right.gatherVariables (left.gatherVariables gathered)
  | call _ args, gathered => gatherVariablesList args gathered

/-- Adds the variables of the trees, one tree after the other. -/
def gatherVariablesList : List Expr → Gathered → Gathered
  | [], gathered => gathered
  | e :: es, gathered => gatherVariablesList es (e.gatherVariables gathered)

end

mutual

/-- Adds the functions that the tree calls, a call before those in its arguments. -/
def gatherCalls : Expr → Array String → Array String
  | literal _, names => names
  | var _, names => names
  | neg operand, names => operand.gatherCalls names
  | binary _ left right, names => right.gatherCalls (left.gatherCalls names)
  | call name args, names =>
    gatherCallsList args (if name ∈ names then names else names.push name)

/-- Adds the functions that the trees call, one tree after the other. -/
def gatherCallsList : List Expr → Array String → Array String
  | [], names => names
  | e :: es, names => gatherCallsList es (e.gatherCalls names)

end

end Expr

namespace FirstOccurrences

variable {sequence : List String}

/-- Adding a name to an array, if it is not there, counts it as the next of the sequence. -/
theorem push {names : Array String} (h : FirstOccurrences sequence names.toList)
    (name : String) :
    FirstOccurrences (sequence ++ [name])
      (if name ∈ names then names else names.push name).toList := by
  split
  case isTrue hname => exact h.concat_of_mem (Array.mem_toList_iff.mpr hname)
  case isFalse hname =>
    rw [Array.toList_push]
    exact h.concat_of_not_mem fun hold => hname (Array.mem_toList_iff.mp hold)

/-- The set of the names seen decides as the list of them would. -/
theorem add {gathered : Gathered} (h : FirstOccurrences sequence gathered.names.toList)
    (name : String) :
    FirstOccurrences (sequence ++ [name]) (gathered.add name).names.toList := by
  have hnames : (gathered.add name).names =
      if name ∈ gathered.names then gathered.names else gathered.names.push name := by
    simp only [Gathered.add, gathered.mem_seen]
    split <;> rfl
  rw [hnames]
  exact h.push name

mutual

/-- Wherever the walk starts, it counts the variables of the tree as the next of the
sequence. -/
theorem gatherVariables : ∀ (e : Expr) {gathered : Gathered} {sequence : List String},
    FirstOccurrences sequence gathered.names.toList →
      FirstOccurrences (sequence ++ e.variableOccurrences)
        (e.gatherVariables gathered).names.toList
  | .literal v, gathered, sequence, h => by
    rw [Expr.variableOccurrences, List.append_nil]
    exact h
  | .var name, gathered, sequence, h => h.add name
  | .neg e, gathered, sequence, h => gatherVariables e h
  | .binary op a b, gathered, sequence, h => by
    -- the walk through `b` starts behind the sequence with the variables of `a`
    rw [Expr.variableOccurrences, ← List.append_assoc]
    exact gatherVariables b (gatherVariables a h)
  | .call name args, gathered, sequence, h => gatherVariablesList args h

/-- The walk over arguments extends the first occurrences by the variables in them. -/
theorem gatherVariablesList : ∀ (es : List Expr) {gathered : Gathered} {sequence : List String},
    FirstOccurrences sequence gathered.names.toList →
      FirstOccurrences (sequence ++ Expr.variableOccurrencesList es)
        (Expr.gatherVariablesList es gathered).names.toList
  | [], gathered, sequence, h => by
    rw [Expr.variableOccurrencesList, List.append_nil]
    exact h
  | e :: es, gathered, sequence, h => by
    rw [Expr.variableOccurrencesList, ← List.append_assoc]
    exact gatherVariablesList es (gatherVariables e h)

end

mutual

/-- Wherever the walk starts, it counts the calls of the tree as the next of the sequence. -/
theorem gatherCalls : ∀ (e : Expr) {names : Array String} {sequence : List String},
    FirstOccurrences sequence names.toList →
      FirstOccurrences (sequence ++ e.callOccurrences) (e.gatherCalls names).toList
  | .literal v, names, sequence, h => by
    rw [Expr.callOccurrences, List.append_nil]
    exact h
  | .var name, names, sequence, h => by
    rw [Expr.callOccurrences, List.append_nil]
    exact h
  | .neg e, names, sequence, h => gatherCalls e h
  | .binary op a b, names, sequence, h => by
    rw [Expr.callOccurrences, ← List.append_assoc]
    exact gatherCalls b (gatherCalls a h)
  | .call name args, names, sequence, h => by
    -- the call itself is counted before the calls in its arguments
    rw [Expr.callOccurrences, List.append_cons]
    exact gatherCallsList args (h.push name)

/-- The walk over arguments extends the first occurrences by the calls in them. -/
theorem gatherCallsList : ∀ (es : List Expr) {names : Array String} {sequence : List String},
    FirstOccurrences sequence names.toList →
      FirstOccurrences (sequence ++ Expr.callOccurrencesList es)
        (Expr.gatherCallsList es names).toList
  | [], names, sequence, h => by
    rw [Expr.callOccurrencesList, List.append_nil]
    exact h
  | e :: es, names, sequence, h => by
    rw [Expr.callOccurrencesList, ← List.append_assoc]
    exact gatherCallsList es (gatherCalls e h)

end

end FirstOccurrences

namespace Expr

/-! ## The names of a tree -/

/-- The variables of a tree are given once each, in the order in which they first occur. -/
theorem firstOccurrences_variableNames (e : Expr) :
    FirstOccurrences e.nodeVariables e.variableNames := by
  rw [nodeVariables_eq]
  exact .eraseDups _

/-- The functions of a tree are given once each, in the order in which they are first called. -/
theorem firstOccurrences_calledNames (e : Expr) :
    FirstOccurrences e.nodeCalls e.calledNames := by
  rw [nodeCalls_eq]
  exact .eraseDups _

/-- The walk from nothing collects the variables. -/
theorem toList_gatherVariables (e : Expr) :
    (e.gatherVariables {}).names.toList = e.variableNames := by
  have hstart : FirstOccurrences [] ({} : Gathered).names.toList := .nil
  have hwalk := hstart.gatherVariables e
  rw [List.nil_append, ← e.nodeVariables_eq] at hwalk
  exact hwalk.unique e.firstOccurrences_variableNames

/-- The walk from nothing collects the called functions. -/
theorem toList_gatherCalls (e : Expr) : (e.gatherCalls #[]).toList = e.calledNames := by
  have hstart : FirstOccurrences [] (#[] : Array String).toList := .nil
  have hwalk := hstart.gatherCalls e
  rw [List.nil_append, ← e.nodeCalls_eq] at hwalk
  exact hwalk.unique e.firstOccurrences_calledNames

/-! ## What an evaluation asks for -/

variable {e : Expr} {context : Context} {v : Float}

/-- The names that an evaluation asks for, each once, are the first of the variables. -/
theorem exists_prefix_variableNames (e : Expr) (context : Context) :
    ∃ names, names <+: e.variableNames ∧
      FirstOccurrences (e.run context).2.reads.toList names := by
  obtain ⟨later, hlater⟩ := e.reads_run_isPrefix context
  refine ⟨(e.run context).2.reads.toList.eraseDups, ?_, .eraseDups _⟩
  rw [variableNames, ← hlater, List.eraseDups_append]
  exact List.prefix_append _ _

/-- Where there is a value no check has failed. -/
theorem firstDefect?_of_value (h : e.value context = .ok v) :
    firstDefect? context.bindings e.checks = none := by
  rw [← failure?_value, h, failure?]

/-- An evaluation with a value asks for all variables, as often as they occur. -/
theorem toList_reads_run_of_value (h : e.value context = .ok v) :
    (e.run context).2.reads.toList = e.nodeVariables := by
  rw [toList_reads_run, asked, performed_of_none _ (firstDefect?_of_value h),
    filterMap_name?_checks, nodeVariables_eq]

/-- An evaluation with a value calls functions of the allow-list only. -/
theorem isAllowed_of_value (h : e.value context = .ok v) {name : String}
    (hname : name ∈ e.calledNames) : MathFunction.isAllowed name = true := by
  have hcalled := (e.firstOccurrences_calledNames.mem_iff name).mp hname
  obtain ⟨args, hnode⟩ := mem_nodeCalls_iff.mp hcalled
  obtain ⟨-, hcalls⟩ := firstDefect?_checks_eq_none_iff.mp (firstDefect?_of_value h)
  obtain ⟨f, hf, -⟩ := hcalls name args hnode
  rw [MathFunction.isAllowed, hf, Option.isSome_some]

end Expr

/-- **The names in a tree.** The variables of a tree are listed once each in the order in which
they first occur from left to right, and so are the functions it calls, a call before those in
its arguments; one walk that adds what is new collects the same. A name is among the variables
only if it stands in the tree as a variable, though a function may have the same name. Every
evaluation asks for the first few of these variables, in this order when repeated questions are
left out, and one that has a value asks for all of them and calls functions of the allow-list
only. -/
theorem collected_names (e : Expr) :
    (FirstOccurrences e.nodeVariables e.variableNames ∧
      FirstOccurrences e.nodeCalls e.calledNames) ∧
    ((e.gatherVariables {}).names.toList = e.variableNames ∧
      (e.gatherCalls #[]).toList = e.calledNames) ∧
    (e.variableNames.Nodup ∧ e.calledNames.Nodup ∧
      ∀ name ∈ e.variableNames, Expr.var name ∈ e.nodes) ∧
    ∀ context : Context,
      (∃ names, names <+: e.variableNames ∧
        FirstOccurrences (e.run context).2.reads.toList names) ∧
      ∀ v, e.value context = .ok v →
        FirstOccurrences (e.run context).2.reads.toList e.variableNames ∧
          ∀ name ∈ e.calledNames, MathFunction.isAllowed name = true := by
  have hvariables := e.firstOccurrences_variableNames
  have hcalls := e.firstOccurrences_calledNames
  refine ⟨⟨hvariables, hcalls⟩, ⟨e.toList_gatherVariables, e.toList_gatherCalls⟩,
    ⟨hvariables.nodup, hcalls.nodup, ?_⟩, ?_⟩
  · intro name hname
    exact Expr.mem_nodeVariables_iff.mp ((hvariables.mem_iff name).mp hname)
  · intro context
    refine ⟨e.exists_prefix_variableNames context, ?_⟩
    intro v hvalue
    rw [Expr.toList_reads_run_of_value hvalue]
    exact ⟨hvariables, fun name => Expr.isAllowed_of_value hvalue⟩

/-- The expression is `max(y, min(max, y)) - sqrt(abs(y))`, where `max` is also a variable. -/
theorem collected_names_function_as_variable :
    let e : Expr := .binary .sub
      (.call "max" [.var "y", .call "min" [.var "max", .var "y"]])
      (.call "sqrt" [.call "abs" [.var "y"]])
    let context : Context := { bindings := .ofPairs [("max", 2), ("y", 4)] }
    (∃ v, e.value context = .ok v) ∧
      e.variableNames = ["y", "max"] ∧
      e.calledNames = ["max", "min", "sqrt", "abs"] ∧
      (e.run context).2.reads.toList = ["y", "max", "y", "y"] ∧
      FirstOccurrences (e.run context).2.reads.toList e.variableNames ∧
      ∀ name ∈ e.calledNames, MathFunction.isAllowed name = true := by
  intro e context
  obtain ⟨-, -, -, hevaluation⟩ := collected_names e
  have hvalue : ∃ v, e.value context = .ok v := ⟨_, rfl⟩
  obtain ⟨v, hv⟩ := hvalue
  obtain ⟨hreads, hallowed⟩ := (hevaluation context).2 v hv
  exact ⟨⟨v, hv⟩, by decide, by decide, rfl, hreads, hallowed⟩

end Reckoner
