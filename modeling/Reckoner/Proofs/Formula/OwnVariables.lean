import Reckoner.Proofs.Cache.Transparency
import Reckoner.Proofs.Evaluation.Variables
import Reckoner.Proofs.Formula.Binding

/-!
# A formula over its own variables

The variables of an expression can be made the parameters of a formula. Bindings that have a
value for each of them then amount to a list of arguments: the values in the order of the
variables. A call with these arguments binds every variable as the bindings do, and since an
expression observes nothing but its variables, the call is the evaluation under the bindings.

Whether the text was kept by the calculator, or another calculator with the same settings reads
it again, the formula has the same expression.
-/

set_option autoImplicit false

namespace Reckoner

/-- Bindings of all of the names give them a list of values. -/
theorem Bindings.exists_values {bindings : Bindings} {names : List String}
    (hbound : ∀ name ∈ names, (bindings name).isSome = true) :
    ∃ values : List Float, values.map some = names.map bindings := by
  refine ⟨names.map fun name => (bindings name).getD 0, ?_⟩
  rw [List.map_map]
  refine List.map_congr_left ?_
  intro name hname
  obtain ⟨value, hvalue⟩ := Option.isSome_iff_exists.mp (hbound name hname)
  rw [Function.comp_apply, hvalue, Option.getD_some]

namespace Formula

variable {bindings : Bindings} {values : List Float}

/-- If the arguments are the values of the parameters, a call binds the parameters to these
values, also with further arguments. -/
theorem bindings_of_values {f : Formula} (hvalues : values.map some = f.parameters.map bindings)
    (more : List Float) {name : String} (hname : name ∈ f.parameters) :
    f.bindings (values ++ more) name = bindings name := by
  obtain ⟨i, hi⟩ := Option.isSome_iff_exists.mp (isSome_lastPosition?.mpr hname)
  obtain ⟨hparameter, -⟩ := lastPosition?_eq_some_iff.mp hi
  have hargument : values[i]?.map some = some (bindings name) := by
    rw [← List.getElem?_map, hvalues, List.getElem?_map, hparameter, Option.map_some]
  obtain ⟨value, hvalue, hbound⟩ := Option.map_eq_some_iff.mp hargument
  obtain ⟨hlt, -⟩ := List.getElem?_eq_some_iff.mp hvalue
  rw [Formula.bindings, hi, Option.map_some, List.getD_eq_getElem?_getD,
    List.getElem?_append_left hlt, hvalue, Option.getD_some, hbound]

/-- A tree with its own variables as parameters has no unbound names. -/
theorem unbound_own (e : Expr) : (Formula.mk e e.variableNames).unbound = [] := by
  refine List.filter_eq_nil_iff.mpr ?_
  intro name hname
  rw [decide_eq_true_iff]
  exact not_not_intro hname

/-- A call with the values of the variables is an evaluation under the bindings. -/
theorem run_own {e : Expr} {context : Context}
    (hvalues : values.map some = e.variableNames.map context.bindings) (more : List Float) :
    (Formula.mk e e.variableNames).run (values ++ more) context.random = e.run context := by
  rw [run, Expr.run, Expr.run, Expr.eval_congr]
  · rfl
  · intro name hname
    exact bindings_of_values hvalues more (Expr.mem_variableNames_iff.mpr hname)

end Formula

/-- **A formula over its own variables is the expression.** If a text is read as an expression,
then a calculator with the same settings, with or without a cache and after any requests, makes
of it a formula with the variables of the expression as parameters. Nothing is unbound in it.
Bindings that bind all of the variables give them one list of values, and the formula called
with this list is the expression evaluated under the bindings: the same value or error, the same
questions and as many random numbers drawn. Further arguments make no difference. -/
theorem formula_over_own_variables (settings : Settings) (capacity : Option Nat)
    (source : Nat → Float) (requests : List Request) {text : String} {e : Expr}
    (hread : settings.parse text = .ok e) (context : Context)
    (hbound : ∀ name ∈ e.variableNames, (context.bindings name).isSome = true) :
    let start : Session := { calculator := { settings, cache := capacity.map Cache.ofCapacity } }
    let calculator := (start.after source requests).calculator
    ∃ (f : Formula) (values : List Float),
      (calculator.formula text e.variableNames).result = .ok f ∧
        f.unbound = [] ∧
        values.map some = e.variableNames.map context.bindings ∧
        f.run values context.random = e.run context ∧
        ∀ more, f.run (values ++ more) context.random = e.run context := by
  intro start calculator
  have hstart : start.calculator.Faithful := Calculator.faithful_mk settings capacity
  obtain ⟨hsettings, hfaithful⟩ := Session.faithful_after source hstart requests
  obtain ⟨values, hvalues⟩ := Bindings.exists_values hbound
  have hparsed : (calculator.parse text).result = .ok e := by
    rw [(hfaithful.parse text).1, hsettings, hread]
  refine ⟨⟨e, e.variableNames⟩, values, ?_, Formula.unbound_own e, hvalues, ?_,
    Formula.run_own hvalues⟩
  · rw [Calculator.formula, hparsed, map_ok]
  · have hrun := Formula.run_own hvalues []
    rwa [List.append_nil] at hrun

/-- The text is `max(y, x, y) - x`, read by a calculator whose cache holds another text, and the
variables are `y` and `x`. -/
theorem formula_over_own_variables_repeated :
    let e : Expr := .binary .sub (.call "max" [.var "y", .var "x", .var "y"]) (.var "x")
    let context : Context := { bindings := .ofPairs [("x", 3), ("z", 1), ("y", 5)] }
    let start : Session := { calculator := { cache := some (.ofCapacity 1) } }
    let calculator := (start.after context.random [.parse "y"]).calculator
    ({} : Settings).parse "max(y, x, y) - x" = .ok e ∧
      (∀ name ∈ e.variableNames, (context.bindings name).isSome = true) ∧
      e.variableNames = ["y", "x"] ∧
      e.run context = (.ok 2, { reads := #["y", "x", "y", "x"] }) ∧
      ∃ (f : Formula) (values : List Float),
        (calculator.formula "max(y, x, y) - x" e.variableNames).result = .ok f ∧
          f.unbound = [] ∧
          values.map some = [some 5, some 3] ∧
          f.run (values ++ [7]) context.random = e.run context := by
  intro e context start calculator
  have hread : ({} : Settings).parse "max(y, x, y) - x" = .ok e := by decide +kernel
  have hbound : ∀ name ∈ e.variableNames, (context.bindings name).isSome = true := by decide
  have hrun : e.run context = (.ok 2, { reads := #["y", "x", "y", "x"] }) := by decide +kernel
  obtain ⟨f, values, hformula, hunbound, hvalues, -, hmore⟩ :=
    formula_over_own_variables {} (some 1) context.random [.parse "y"] hread context hbound
  exact ⟨hread, hbound, by decide, hrun, f, values, hformula, hunbound, hvalues, hmore [7]⟩

end Reckoner
