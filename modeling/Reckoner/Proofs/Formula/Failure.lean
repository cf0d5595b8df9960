import Reckoner.Proofs.Formula.Binding
import Reckoner.Proofs.Names.Collection

/-!
# Whether a formula can be called

A call binds the parameters and nothing else, whatever the arguments are. An evaluation asks of
its bindings only whether a name is bound before it comes to a failure, so whether a formula can
be called, and if not why, is the same for all arguments.

The variables without a parameter are known beforehand, too (`Formula.unbound`). If there is one,
an evaluation that gets to it fails there, and one that does not has failed before. If there is
none, what is left are calls of functions that do not exist or do not accept so many arguments.
-/

set_option autoImplicit false

namespace Reckoner

/-- Asking for a variable is all that fails with an unknown variable. -/
theorem Check.eq_read_of_defect? {bindings : Bindings} {check : Check} {name : String}
    (h : check.defect? bindings = some (.unknownVariable name)) :
    check = .read name ∧ (bindings name).isSome = false := by
  cases check with
  | read other =>
    rw [defect?] at h
    split at h
    case isTrue => contradiction
    case isFalse hunbound =>
      obtain rfl := EvalError.unknownVariable.inj (Option.some.inj h)
      exact ⟨rfl, Bool.not_eq_true _ ▸ hunbound⟩
  | call function count =>
    rw [defect?] at h
    split at h
    case h_1 => cases h
    case h_2 => split at h <;> cases h

namespace Formula

variable {f : Formula}

/-! ## Variables without a parameter -/

/-- The unbound names are the variables of the body that are no parameters, each at its first
occurrence. -/
theorem firstOccurrences_unbound (f : Formula) :
    FirstOccurrences (f.body.nodeVariables.filter (· ∉ f.parameters)) f.unbound :=
  f.body.firstOccurrences_variableNames.filter _

/-- A name is unbound if it is a variable of the body and no parameter. -/
theorem mem_unbound_iff {name : String} :
    name ∈ f.unbound ↔ Expr.var name ∈ f.body.nodes ∧ name ∉ f.parameters := by
  rw [f.firstOccurrences_unbound.mem_iff, List.mem_filter, Expr.mem_nodeVariables_iff,
    decide_eq_true_iff]

/-- If every variable is a parameter, a call binds all of them. -/
theorem unbound_eq_nil_iff {args : List Float} :
    f.unbound = [] ↔
      ∀ name, Expr.var name ∈ f.body.nodes → (f.bindings args name).isSome = true := by
  simp only [List.eq_nil_iff_forall_not_mem, mem_unbound_iff, isSome_bindings, not_and, not_not]

/-! ## Failing calls -/

/-- The failure of a call can be told without its arguments. -/
theorem failure?_call (f : Formula) (args : List Float) (random : Nat → Float) :
    failure? (f.call args random) = firstDefect? (f.bindings []) f.body.checks := by
  have hbound : ∀ name, (f.bindings args name).isSome = (f.bindings [] name).isSome := by
    intro name
    rw [Bool.eq_iff_iff, isSome_bindings, isSome_bindings]
  have hdefect : Check.defect? (f.bindings args) = Check.defect? (f.bindings []) :=
    funext (Check.defect?_congr hbound)
  have hcall : f.call args random = f.body.value ⟨f.bindings args, random⟩ := rfl
  rw [hcall, Expr.failure?_value, firstDefect?, firstDefect?, hdefect]

/-- A call has a value if all variables are parameters and the calls in the expression can be
made. -/
theorem exists_call_eq_ok_iff {args : List Float} {random : Nat → Float} :
    (∃ v, f.call args random = .ok v) ↔
      f.unbound = [] ∧
        ∀ name operands, Expr.call name operands ∈ f.body.nodes →
          ∃ g, MathFunction.ofName? name = some g ∧ g.arity.accepts operands.length = true := by
  rw [← failure?_eq_none_iff, failure?_call, Expr.firstDefect?_checks_eq_none_iff,
    ← unbound_eq_nil_iff]

/-- A variable that a call does not know is none of the parameters. -/
theorem mem_unbound_of_call {args : List Float} {random : Nat → Float} {name : String}
    (h : f.call args random = .error (.unknownVariable name)) : name ∈ f.unbound := by
  rw [← failure?_eq_some_iff, failure?_call] at h
  obtain ⟨check, hcheck, hdefect⟩ := List.exists_of_findSome?_eq_some h
  obtain ⟨rfl, hname⟩ := Check.eq_read_of_defect? hdefect
  refine mem_unbound_iff.mpr ⟨?_, ?_⟩
  · rw [← Expr.mem_nodeVariables_iff, Expr.nodeVariables_eq, ← Expr.filterMap_name?_checks]
    exact List.mem_filterMap.mpr ⟨.read name, hcheck, rfl⟩
  · rw [← Bool.not_eq_true, isSome_bindings] at hname
    exact hname

end Formula

/-- **Whether a formula can be called is known beforehand.** All calls of a formula have a value,
or all of them fail with the same error, with any number of arguments, any arguments and any
random numbers. If the formula has a variable without a parameter every call fails. If it has
none, no call fails for an unknown variable, and the calls have a value exactly if every call in
the expression is to a function of the allow-list with a number of arguments that it accepts. The
variables without a parameter are listed each once in the order of their first occurrence. -/
theorem formula_failure_known_beforehand (f : Formula) :
    (∀ (args args' : List Float) (random random' : Nat → Float),
      ((∃ v, f.call args random = .ok v) ↔ ∃ v, f.call args' random' = .ok v) ∧
        ∀ error, f.call args random = .error error ↔ f.call args' random' = .error error) ∧
    (f.unbound ≠ [] → ∀ args random, ∃ error, f.call args random = .error error) ∧
    (f.unbound = [] → ∀ args random,
      (∀ name, f.call args random ≠ .error (.unknownVariable name)) ∧
        ((∃ v, f.call args random = .ok v) ↔
          ∀ name operands, Expr.call name operands ∈ f.body.nodes →
            ∃ g, MathFunction.ofName? name = some g ∧ g.arity.accepts operands.length = true)) ∧
    f.unbound.Nodup ∧
    FirstOccurrences (f.body.nodeVariables.filter (· ∉ f.parameters)) f.unbound ∧
    ∀ name, name ∈ f.unbound ↔ Expr.var name ∈ f.body.nodes ∧ name ∉ f.parameters := by
  refine ⟨?_, ?_, ?_, f.firstOccurrences_unbound.nodup, f.firstOccurrences_unbound,
    fun name => Formula.mem_unbound_iff⟩
  · intro args args' random random'
    refine ⟨?_, ?_⟩
    · rw [Formula.exists_call_eq_ok_iff, Formula.exists_call_eq_ok_iff]
    · intro error
      rw [← failure?_eq_some_iff, ← failure?_eq_some_iff, f.failure?_call args,
        f.failure?_call args']
  · intro hunbound args random
    cases hcall : f.call args random with
    | ok v => exact absurd (Formula.exists_call_eq_ok_iff.mp ⟨v, hcall⟩).1 hunbound
    | error error => exact ⟨error, rfl⟩
  · intro hbound args random
    refine ⟨?_, ?_⟩
    · intro name hcall
      have hname := Formula.mem_unbound_of_call hcall
      rw [hbound] at hname
      contradiction
    · rw [Formula.exists_call_eq_ok_iff, and_iff_right hbound]

/-- In `max(a, atan2(b))` the parameters `b` and `a` leave nothing unbound, and every call is
refused for `atan2`. In `a + rate` the parameter `a` leaves `rate` unbound. -/
theorem formula_failure_known_beforehand_wrong_arity :
    let complete : Formula := ⟨.call "max" [.var "a", .call "atan2" [.var "b"]], ["b", "a"]⟩
    let lacking : Formula := ⟨.binary .add (.var "a") (.var "rate"), ["a"]⟩
    let random : Nat → Float := Random.uniform 0
    complete.unbound = [] ∧
      complete.call [] random = .error (.wrongArity "atan2" (.exactly 2) 1) ∧
      complete.call [1, 2, 3] random = .error (.wrongArity "atan2" (.exactly 2) 1) ∧
      (∀ name, complete.call [1, 2, 3] random ≠ .error (.unknownVariable name)) ∧
      lacking.unbound = ["rate"] ∧
      ∃ error, lacking.call [5] random = .error error := by
  intro complete lacking random
  have hcomplete : complete.unbound = [] := by decide
  have hlacking : lacking.unbound = ["rate"] := by decide
  have hrefused : complete.call [] random = .error (.wrongArity "atan2" (.exactly 2) 1) := rfl
  obtain ⟨hsame, -, hbound, -⟩ := formula_failure_known_beforehand complete
  obtain ⟨-, hunbound, -⟩ := formula_failure_known_beforehand lacking
  refine ⟨hcomplete, hrefused, ((hsame [] [1, 2, 3] random random).2 _).mp hrefused,
    (hbound hcomplete [1, 2, 3] random).1, hlacking, hunbound ?_ [5] random⟩
  rw [hlacking]
  exact List.cons_ne_nil _ _

end Reckoner
