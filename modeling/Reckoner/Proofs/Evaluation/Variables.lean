import Reckoner.Proofs.Evaluation.Checks
import Reckoner.Proofs.Folding.Evaluation
import Reckoner.Proofs.Folding.NormalForm

/-!
# An evaluation depends on its own variables only

The reads among the checks of a tree are its variables, from left to right and as often as
they occur. An evaluation goes along the checks, so what it asks for is the start of the list
of the variables, and nothing else of the bindings can make a difference to it: in two
contexts that agree on the variables of the tree the evaluations are the same step
(`Expr.eval_congr`).
-/

set_option autoImplicit false

namespace Reckoner

namespace Expr

/-- The names of a tree are those that occur in it. -/
theorem mem_variableNames_iff {e : Expr} {name : String} :
    name ∈ e.variableNames ↔ name ∈ e.variableOccurrences :=
  List.mem_eraseDups

mutual

/-- The checks that are reads are the variables. -/
theorem filterMap_name?_checks :
    ∀ e : Expr, e.checks.filterMap Check.name? = e.variableOccurrences
  | literal v => rfl
  | var name => rfl
  | neg e => filterMap_name?_checks e
  | binary op a b => by
    rw [checks, List.filterMap_append, filterMap_name?_checks a, filterMap_name?_checks b,
      variableOccurrences]
  | call name args => filterMap_name?_checksList args

/-- The variables of the checks are those that occur in the trees, in the same order. -/
theorem filterMap_name?_checksList :
    ∀ es : List Expr, (checksList es).filterMap Check.name? = variableOccurrencesList es
  | [] => rfl
  | e :: es => by
    rw [checksList, List.filterMap_append, filterMap_name?_checks e,
      filterMap_name?_checksList es, variableOccurrencesList]

end

/-- An evaluation asks for the variables from left to right, until it ends. -/
theorem reads_run_isPrefix (e : Expr) (context : Context) :
    (e.run context).2.reads.toList <+: e.variableOccurrences := by
  rw [e.toList_reads_run, ← e.filterMap_name?_checks, asked, performed]
  exact (List.take_prefix _ _).filterMap _

/-- A run reads only variables of its tree. -/
theorem mem_variableNames_of_read {e : Expr} {context : Context} {name : String}
    (h : name ∈ (e.run context).2.reads) : name ∈ e.variableNames := by
  have hread : name ∈ (e.run context).2.reads.toList := Array.mem_toList_iff.mpr h
  exact mem_variableNames_iff.mpr ((e.reads_run_isPrefix context).subset hread)

/-- Folding leaves the names of the variables alone. -/
theorem variableNames_folded (e : Expr) : e.folded.variableNames = e.variableNames := by
  rw [variableNames, folded_eq_fold, variableOccurrences_fold, variableNames]

end Expr

section Congruence

variable {context other : Context}

/-- A variable with the same binding is read alike. -/
theorem Context.read_congr {name : String} (h : other.bindings name = context.bindings name) :
    other.read name = context.read name := by
  rw [read, read, h]

/-- With the same random numbers a function is applied alike. -/
theorem Context.call_congr (hrandom : other.random = context.random) (f : MathFunction)
    (values : List Float) : other.call f values = context.call f values := by
  rw [call, call, hrandom]

namespace Expr

mutual

/-- In contexts that agree on the variables a tree is evaluated by the same step. -/
theorem eval_congr (hrandom : other.random = context.random) :
    ∀ e : Expr, (∀ name ∈ e.variableOccurrences, other.bindings name = context.bindings name) →
      e.eval other = e.eval context
  | literal v, _ => rfl
  | var name, hagree => Context.read_congr (hagree name List.mem_cons_self)
  | neg e, hagree => by
    rw [eval, eval, eval_congr hrandom e hagree]
  | binary op a b, hagree => by
    rw [variableOccurrences, List.forall_mem_append] at hagree
    rw [eval, eval, eval_congr hrandom a hagree.1, eval_congr hrandom b hagree.2]
  | call name args, hagree => by
    have hcall : other.call = context.call :=
      funext fun f => funext fun values => Context.call_congr hrandom f values
    rw [eval, eval, evalList_congr hrandom args hagree, hcall]

/-- Arguments are evaluated alike where their variables have the same bindings. -/
theorem evalList_congr (hrandom : other.random = context.random) :
    ∀ es : List Expr,
      (∀ name ∈ variableOccurrencesList es, other.bindings name = context.bindings name) →
        evalList other es = evalList context es
  | [], _ => rfl
  | e :: es, hagree => by
    rw [variableOccurrencesList, List.forall_mem_append] at hagree
    rw [evalList, evalList, eval_congr hrandom e hagree.1, evalList_congr hrandom es hagree.2]

end

end Expr

end Congruence

/-- **An expression observes its own variables only.** Two contexts that bind every variable
of an expression alike, to the same number or both to none, and that have the same source of
random numbers, cannot be told apart by it: the result is the same, value or error, and so are
the questions in their order and the number of random numbers drawn. No question is about a
name that is not one of its variables. With constants folded the expression has the same
variables, and all of this is as without folding. -/
theorem evaluation_observes_own_variables (e : Expr) {context other : Context}
    (hagree : ∀ name ∈ e.variableNames, other.bindings name = context.bindings name)
    (hrandom : other.random = context.random) :
    e.run other = e.run context ∧
      (∀ name ∈ (e.run context).2.reads, name ∈ e.variableNames) ∧
      e.folded.variableNames = e.variableNames ∧
      e.folded.run other = e.run context := by
  have hrun : e.run other = e.run context := by
    rw [Expr.run, Expr.run, e.eval_congr hrandom]
    intro name hname
    exact hagree name (Expr.mem_variableNames_iff.mpr hname)
  refine ⟨hrun, fun name => Expr.mem_variableNames_of_read, e.variableNames_folded, ?_⟩
  rw [Expr.run_folded, hrun]

/-- The expression is `max(x, y, x) + z`, and `y` is bound in neither context: both evaluations
stop there, after asking for `x` and `y`, and what is bound to `pin` does not show. -/
theorem evaluation_observes_own_variables_unbound :
    let e : Expr := .binary .add (.call "max" [.var "x", .var "y", .var "x"]) (.var "z")
    let context : Context := { bindings := .ofPairs [("x", 1), ("z", 2)] }
    let other : Context := { bindings := .ofPairs [("pin", 7), ("z", 2), ("x", 1)] }
    (∀ name ∈ e.variableNames, other.bindings name = context.bindings name) ∧
      other.random = context.random ∧
      e.run other = e.run context ∧
      e.run context = (.error (.unknownVariable "y"), { reads := #["x", "y"] }) := by
  intro e context other
  have hagree : ∀ name ∈ e.variableNames, other.bindings name = context.bindings name := by
    decide
  obtain ⟨hrun, -⟩ := evaluation_observes_own_variables e hagree rfl
  exact ⟨hagree, rfl, hrun, rfl⟩

end Reckoner
