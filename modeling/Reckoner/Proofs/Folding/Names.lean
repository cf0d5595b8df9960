import Reckoner.Proofs.Names.Collection
import Reckoner.Proofs.RoundTrip.Reading

/-!
# What folding leaves as it is

Folding puts literals in the place of operations, and only where the operands have become
literals. Whatever the single nodes of a tree contribute to a list, if literals and operations
contribute nothing and a call does not look into its arguments, the folded tree has the same
list (`Expr.filterMap_nodes_fold`). So the calls keep their names and their numbers of arguments,
the variables and the called functions are the same, and a walk that collects them ends with the
same names, from whatever it starts.

A calculator that folds constants therefore answers questions about a text as one that does not:
what its variables are, which functions it calls, which variables the parameters of a formula
leave unbound. Its tree may be lower, but is not higher, and stays within the limit.
-/

set_option autoImplicit false

namespace Reckoner

namespace Expr

/-- Literals and operations contribute nothing, and a call the same when its arguments are
folded. -/
structure IgnoresFolding {α : Type} (f : Expr → Option α) : Prop where
  literal : ∀ v, f (literal v) = none
  neg : ∀ e, f (neg e) = none
  binary : ∀ op a b, f (binary op a b) = none
  call : ∀ name args, f (call name (foldList args)) = f (call name args)

section Contributions

variable {α : Type} {f : Expr → Option α}

/-- The nodes of a folded minus sign contribute what those of its operand do. -/
theorem filterMap_nodes_foldedNeg (hf : IgnoresFolding f) (e : Expr) :
    e.foldedNeg.nodes.filterMap f = e.nodes.filterMap f := by
  obtain ⟨x, rfl, hfolded⟩ | hfolded := foldedNeg_cases e
  · rw [hfolded, nodes, nodes, List.filterMap_cons_none (hf.literal _),
      List.filterMap_cons_none (hf.literal _)]
  · rw [hfolded, nodes, List.filterMap_cons_none (hf.neg e)]

/-- The nodes of a folded operation contribute what those of its operands do. -/
theorem filterMap_nodes_foldedBinary (hf : IgnoresFolding f) (op : BinaryOp) (a b : Expr) :
    (foldedBinary op a b).nodes.filterMap f = a.nodes.filterMap f ++ b.nodes.filterMap f := by
  obtain ⟨x, y, rfl, rfl, hfolded⟩ | hfolded := foldedBinary_cases op a b
  · simp only [hfolded, nodes, List.filterMap_cons_none (hf.literal _), List.filterMap_nil,
      List.append_nil]
  · rw [hfolded, nodes, List.filterMap_cons_none (hf.binary op a b), List.filterMap_append]

mutual

/-- Folding keeps what the variables and the calls contribute. -/
theorem filterMap_nodes_fold (hf : IgnoresFolding f) :
    ∀ e : Expr, e.fold.nodes.filterMap f = e.nodes.filterMap f
  | .literal v => rfl
  | .var name => rfl
  | .neg e => by
    rw [fold, filterMap_nodes_foldedNeg hf, filterMap_nodes_fold hf e, nodes,
      List.filterMap_cons_none (hf.neg e)]
  | .binary op a b => by
    rw [fold, filterMap_nodes_foldedBinary hf, filterMap_nodes_fold hf a,
      filterMap_nodes_fold hf b, nodes, List.filterMap_cons_none (hf.binary op a b),
      List.filterMap_append]
  | .call name args => by
    rw [fold, nodes, nodes, List.filterMap_cons, List.filterMap_cons, hf.call,
      filterMap_nodesList_foldList hf args]

/-- The nodes of folded arguments contribute what those of the arguments do. -/
theorem filterMap_nodesList_foldList (hf : IgnoresFolding f) :
    ∀ es : List Expr, (nodesList (foldList es)).filterMap f = (nodesList es).filterMap f
  | [] => rfl
  | e :: es => by
    rw [foldList, nodesList, nodesList, List.filterMap_append, List.filterMap_append,
      filterMap_nodes_fold hf e, filterMap_nodesList_foldList hf es]

end

end Contributions

/-- The function that the node calls, and with how many arguments. -/
def callSignature? : Expr → Option (String × Nat)
  | call name args => some (name, args.length)
  | _ => none

/-- A call keeps its name and the number of its arguments. -/
theorem ignoresFolding_callSignature? : IgnoresFolding callSignature? where
  literal _ := rfl
  neg _ := rfl
  binary _ _ _ := rfl
  call name args := by rw [callSignature?, length_foldList, callSignature?]

/-- The calls of a folded tree are those of the tree, with as many arguments. -/
theorem callSignatures_folded (e : Expr) :
    e.folded.nodes.filterMap callSignature? = e.nodes.filterMap callSignature? := by
  rw [folded_eq_fold, filterMap_nodes_fold ignoresFolding_callSignature?]

/-- Folding leaves the names of the functions alone. -/
theorem calledNames_folded (e : Expr) : e.folded.calledNames = e.calledNames := by
  rw [calledNames, folded_eq_fold, callOccurrences_fold, calledNames]

/-! ## Walks -/

mutual

/-- The walk for the variables adds one occurrence after the other. -/
theorem gatherVariables_eq_foldl : ∀ (e : Expr) (gathered : Gathered),
    e.gatherVariables gathered = e.variableOccurrences.foldl Gathered.add gathered
  | literal v, gathered => rfl
  | var name, gathered => rfl
  | neg e, gathered => gatherVariables_eq_foldl e gathered
  | binary op a b, gathered => by
    rw [gatherVariables, variableOccurrences, List.foldl_append, gatherVariables_eq_foldl a,
      gatherVariables_eq_foldl b]
  | call name args, gathered => gatherVariablesList_eq_foldl args gathered

/-- The walk over arguments adds the variables that occur in them one by one. -/
theorem gatherVariablesList_eq_foldl : ∀ (es : List Expr) (gathered : Gathered),
    gatherVariablesList es gathered = (variableOccurrencesList es).foldl Gathered.add gathered
  | [], gathered => rfl
  | e :: es, gathered => by
    rw [gatherVariablesList, variableOccurrencesList, List.foldl_append,
      gatherVariables_eq_foldl e, gatherVariablesList_eq_foldl es]

end

mutual

/-- The walk for the calls adds one occurrence after the other. -/
theorem gatherCalls_eq_foldl : ∀ (e : Expr) (names : Array String),
    e.gatherCalls names =
      e.callOccurrences.foldl (fun ns n => if n ∈ ns then ns else ns.push n) names
  | literal v, names => rfl
  | var name, names => rfl
  | neg e, names => gatherCalls_eq_foldl e names
  | binary op a b, names => by
    rw [gatherCalls, callOccurrences, List.foldl_append, gatherCalls_eq_foldl a,
      gatherCalls_eq_foldl b]
  | call name args, names => by
    rw [gatherCalls, callOccurrences, List.foldl_cons, gatherCallsList_eq_foldl args]

/-- The walk over arguments adds the functions that are called in them one by one, each at its first
call. -/
theorem gatherCallsList_eq_foldl : ∀ (es : List Expr) (names : Array String),
    gatherCallsList es names =
      (callOccurrencesList es).foldl (fun ns n => if n ∈ ns then ns else ns.push n) names
  | [], names => rfl
  | e :: es, names => by
    rw [gatherCallsList, callOccurrencesList, List.foldl_append, gatherCalls_eq_foldl e,
      gatherCallsList_eq_foldl es]

end

/-- From whatever was collected before, the walk through a folded tree collects the same. -/
theorem gatherVariables_folded (e : Expr) (gathered : Gathered) :
    e.folded.gatherVariables gathered = e.gatherVariables gathered := by
  rw [gatherVariables_eq_foldl, folded_eq_fold, variableOccurrences_fold,
    gatherVariables_eq_foldl]

/-- A walk for functions gathers the same from the folded tree, whatever it has gathered before. -/
theorem gatherCalls_folded (e : Expr) (names : Array String) :
    e.folded.gatherCalls names = e.gatherCalls names := by
  rw [gatherCalls_eq_foldl, folded_eq_fold, callOccurrences_fold, gatherCalls_eq_foldl]

end Expr

/-! ## Answers about a text -/

/-- The variables that the parameters leave unbound are the same in a folded tree. -/
theorem Formula.unbound_folded (parameters : List String) (e : Expr) :
    (Formula.unbound ∘ (Formula.mk · parameters)) e.folded =
      (Formula.unbound ∘ (Formula.mk · parameters)) e := by
  simp only [Function.comp_apply, unbound, variableNames, e.variableNames_folded]

/-- An answer that does not change when a tree is folded is the same for a text that is read
with folding. -/
theorem Calculator.map_parse_withFolding {α : Type} {answer : Expr → α}
    (hanswer : ∀ e : Expr, answer e.folded = answer e) (settings : Settings) (text : String) :
    answer <$> (Calculator.parse { settings := settings.withFolding true } text).result =
      answer <$> (Calculator.parse { settings := settings.withFolding false } text).result := by
  show answer <$> (settings.withFolding true).parse text =
    answer <$> (settings.withFolding false).parse text
  rw [settings.parse_withFolding]
  cases (settings.withFolding false).parse text with
  | error error => rfl
  | ok tree => rw [map_ok, map_ok, map_ok, hanswer]

/-- **Folding changes no answer about a tree.** A folded tree has the same variables and calls
the same functions, in the same order, and walks that collect them agree from any start; its
calls have the same names and numbers of arguments, one by one; and it is no higher. Hence a
text has the same variables, the same called functions and, as a formula with any parameters,
the same unbound variables, or the same error, whether constants are folded or not, and also
with folding no tree is higher than the limit. -/
theorem folding_changes_no_static_answer :
    (∀ e : Expr,
      (e.folded.variableNames = e.variableNames ∧
        ∀ gathered, e.folded.gatherVariables gathered = e.gatherVariables gathered) ∧
      (e.folded.calledNames = e.calledNames ∧
        ∀ names, e.folded.gatherCalls names = e.gatherCalls names) ∧
      e.folded.nodes.filterMap Expr.callSignature? = e.nodes.filterMap Expr.callSignature? ∧
      e.folded.height ≤ e.height) ∧
    ∀ (settings : Settings) (text : String),
      let folding : Calculator := { settings := settings.withFolding true }
      let plain : Calculator := { settings := settings.withFolding false }
      Expr.variableNames <$> (folding.parse text).result =
        Expr.variableNames <$> (plain.parse text).result ∧
      Expr.calledNames <$> (folding.parse text).result =
        Expr.calledNames <$> (plain.parse text).result ∧
      (∀ parameters, Formula.unbound <$> (folding.formula text parameters).result =
        Formula.unbound <$> (plain.formula text parameters).result) ∧
      ∀ e, (folding.parse text).result = .ok e → e.height ≤ settings.depthLimit := by
  constructor
  · intro e
    refine ⟨⟨e.variableNames_folded, e.gatherVariables_folded⟩,
      ⟨e.calledNames_folded, e.gatherCalls_folded⟩, e.callSignatures_folded, ?_⟩
    rw [e.folded_eq_fold]
    exact e.height_fold_le
  · intro settings text folding plain
    refine ⟨Calculator.map_parse_withFolding Expr.variableNames_folded settings text,
      Calculator.map_parse_withFolding Expr.calledNames_folded settings text, ?_, ?_⟩
    · intro parameters
      have hunbound :=
        Calculator.map_parse_withFolding (Formula.unbound_folded parameters) settings text
      rw [comp_map, comp_map] at hunbound
      exact hunbound
    · intro e hread
      exact @Settings.height_le_of_parse (settings.withFolding true) _ _ hread

/-- Folding takes a sum out of the arguments and a sign out of the difference; the text has no
more than four levels, and the folded tree has three. -/
theorem folding_changes_no_static_answer_lower :
    let settings : Settings := { depthLimit := 4 }
    let text := "max(1 + 2, y) * (x - -2)"
    let folding : Calculator := { settings := settings.withFolding true }
    let plain : Calculator := { settings := settings.withFolding false }
    let e : Expr := .binary .mul (.call "max" [.literal 3, .var "y"])
      (.binary .sub (.var "x") (.literal (-2)))
    (folding.parse text).result = .ok e ∧ e.height ≤ settings.depthLimit ∧
      Expr.variableNames <$> (plain.parse text).result = .ok ["y", "x"] ∧
      Expr.calledNames <$> (plain.parse text).result = .ok ["max"] ∧
      Formula.unbound <$> (plain.formula text ["x", "z"]).result = .ok ["y"] := by
  intro settings text folding plain e
  have hread : (folding.parse text).result = .ok e := by decide +kernel
  obtain ⟨hvariables, hcalls, hunbound, hheight⟩ :=
    folding_changes_no_static_answer.2 settings text
  refine ⟨hread, hheight e hread, ?_, ?_, ?_⟩
  · rw [← hvariables, hread]
    decide +kernel
  · rw [← hcalls, hread]
    decide +kernel
  · rw [← hunbound]
    decide +kernel

end Reckoner
