import Reckoner.Proofs.Evaluation.Sequence

/-!
# The checks of an evaluation

An evaluation can fail at two kinds of places: where the value of a variable is asked for,
and where a function is called. The tree alone says which places these are and in which order
they are reached: operands from left to right, and a call before its arguments (`Expr.checks`).
The bindings say which of the checks are defective, and they are only asked whether a name is
bound (`Check.defect?`).

An evaluation goes along this list and stops at the first defect, and nothing else stops it.
This is shown of the steps of an evaluation (`Walks`): a step that goes along some checks,
with a step behind it that goes along others, goes along both lists one after the other.
-/

set_option autoImplicit false

namespace Reckoner

/-- A place where an evaluation can fail. -/
inductive Check where
  /-- The value of the variable is asked for. -/
  | read (name : String)
  /-- The function is called with so many arguments. -/
  | call (name : String) (count : Nat)
  deriving DecidableEq, Repr

namespace Check

/-- The error with which the check fails, if it does: a variable has to be bound, and a
function has to be on the allow-list and to accept the number of arguments. -/
def defect? (bindings : Bindings) : Check → Option EvalError
  | read name => if (bindings name).isSome then none else some (.unknownVariable name)
  | call name count =>
    match MathFunction.ofName? name with
    | none => some (.functionNotAllowed name)
    | some f =>
      if f.arity.accepts count then none else some (.wrongArity name f.arity count)

/-- The variable that is asked for. -/
def name? : Check → Option String
  | read name => some name
  | call _ _ => none

end Check

namespace Expr

mutual

/-- The checks of the tree, in the order in which an evaluation reaches them. -/
def checks : Expr → List Check
  | literal _ => []
  | var name => [.read name]
  | neg operand => operand.checks
  | binary _ left right => left.checks ++ right.checks
  | call name args => .call name args.length :: checksList args

/-- The checks of the trees, one tree after the other. -/
def checksList : List Expr → List Check
  | [] => []
  | e :: es => e.checks ++ checksList es

end

end Expr

/-! ## Lists of checks -/

section Lists

variable (bindings : Bindings)

/-- The error of the first defective check. -/
def firstDefect? (checks : List Check) : Option EvalError :=
  checks.findSome? (·.defect? bindings)

/-- The checks up to the first defective one, and with it. -/
def performed (checks : List Check) : List Check :=
  checks.take (checks.findIdx (fun check => (check.defect? bindings).isSome) + 1)

/-- The variables that are asked for until a check fails. -/
def asked (checks : List Check) : List String :=
  (performed bindings checks).filterMap Check.name?

/-- The first defect of two lists is that of the front one, or else of the other. -/
theorem firstDefect?_append (checks more : List Check) :
    firstDefect? bindings (checks ++ more) =
      (firstDefect? bindings checks).or (firstDefect? bindings more) :=
  List.findSome?_append

/-- No defect is found just if no check fails. -/
theorem firstDefect?_eq_none_iff {checks : List Check} :
    firstDefect? bindings checks = none ↔ ∀ check ∈ checks, check.defect? bindings = none :=
  List.findSome?_eq_none_iff

/-- A single check is performed, defective or not. -/
theorem asked_singleton (check : Check) : asked bindings [check] = check.name?.toList := by
  have hperformed : performed bindings [check] = [check] :=
    List.take_of_length_le (Nat.le_add_left _ _)
  rw [asked, hperformed]
  cases check <;> rfl

/-- A defective check has an index just if some check fails. -/
theorem findIdx_lt_length_iff {checks : List Check} :
    checks.findIdx (fun check => (check.defect? bindings).isSome) < checks.length ↔
      firstDefect? bindings checks ≠ none := by
  rw [List.findIdx_lt_length, firstDefect?, ← Option.isSome_iff_ne_none,
    List.findSome?_isSome_iff]

/-- Without a defect all checks are performed. -/
theorem performed_append_of_none {checks : List Check}
    (h : firstDefect? bindings checks = none) (more : List Check) :
    performed bindings (checks ++ more) = checks ++ performed bindings more := by
  have hindex : ¬ checks.findIdx (fun check => (check.defect? bindings).isSome) < checks.length :=
    fun hlt => (findIdx_lt_length_iff bindings).mp hlt h
  rw [performed, performed, List.findIdx_append, if_neg hindex, Nat.add_right_comm,
    Nat.add_comm, List.take_length_add_append]

/-- Without a defect all checks are performed. -/
theorem performed_of_none {checks : List Check} (h : firstDefect? bindings checks = none) :
    performed bindings checks = checks := by
  have hall := performed_append_of_none bindings h []
  have hnil : performed bindings [] = [] := List.take_nil
  rwa [List.append_nil, hnil, List.append_nil] at hall

/-- Behind a defect no check is performed. -/
theorem performed_append_of_some {checks : List Check} {error : EvalError}
    (h : firstDefect? bindings checks = some error) (more : List Check) :
    performed bindings (checks ++ more) = performed bindings checks := by
  have hindex := (findIdx_lt_length_iff bindings).mpr (h ▸ Option.some_ne_none error)
  rw [performed, performed, List.findIdx_append, if_pos hindex,
    List.take_append_of_le_length hindex]

/-- Behind checks without a defect the variables of the further checks are asked for as well. -/
theorem asked_append_of_none {checks : List Check}
    (h : firstDefect? bindings checks = none) (more : List Check) :
    asked bindings (checks ++ more) = asked bindings checks ++ asked bindings more := by
  rw [asked, asked, asked, performed_append_of_none bindings h, performed_of_none bindings h,
    List.filterMap_append]

/-- Behind a defect no variable is asked for. -/
theorem asked_append_of_some {checks : List Check} {error : EvalError}
    (h : firstDefect? bindings checks = some error) (more : List Check) :
    asked bindings (checks ++ more) = asked bindings checks := by
  rw [asked, asked, performed_append_of_some bindings h]

end Lists

/-! ## Steps that go along checks -/

/-- The error of a result, if it is one. -/
def failure? {α : Type} : Except EvalError α → Option EvalError
  | .ok _ => none
  | .error error => some error

/-- From any trace the step goes along the checks: it fails at the first defect and with its
error, and it asks for the variables of the checks up to there. -/
def Walks (bindings : Bindings) (checks : List Check) {α : Type} (step : EvalM α) : Prop :=
  ∀ trace, failure? (step.run.run trace).1 = firstDefect? bindings checks ∧
    (step.run.run trace).2.reads.toList = trace.reads.toList ++ asked bindings checks

section Steps

variable {bindings : Bindings} {α β : Type}

/-- A step that only gives a value goes along no checks. -/
theorem walks_pure (a : α) : Walks bindings [] (pure a : EvalM α) := by
  intro trace
  exact ⟨rfl, (List.append_nil _).symm⟩

/-- Two steps, one behind the other, go along the checks of both. -/
theorem Walks.bind {checks more : List Check} {step : EvalM α} {next : α → EvalM β}
    (hstep : Walks bindings checks step) (hnext : ∀ a, Walks bindings more (next a)) :
    Walks bindings (checks ++ more) (step >>= next) := by
  intro trace
  obtain ⟨hfailure, hreads⟩ := hstep trace
  rw [firstDefect?_append]
  cases hrun : step.run.run trace with
  | mk result trace' =>
    rw [hrun] at hfailure hreads
    cases result with
    | ok a =>
      obtain ⟨hfailure', hreads'⟩ := hnext a trace'
      have hnone : firstDefect? bindings checks = none := hfailure.symm
      rw [run_bind_of_ok hrun, hnone, Option.none_or, asked_append_of_none bindings hnone,
        hfailure', hreads', hreads, List.append_assoc]
      exact ⟨rfl, rfl⟩
    | error error =>
      have hsome : firstDefect? bindings checks = some error := hfailure.symm
      rw [run_bind_of_error hrun, hsome, asked_append_of_some bindings hsome]
      exact ⟨rfl, hreads⟩

/-- Reading a variable is one check. -/
theorem walks_read (context : Context) (name : String) :
    Walks context.bindings [.read name] (context.read name) := by
  intro trace
  have hfailure : failure? ((context.read name).run.run trace).1 =
      (Check.read name).defect? context.bindings := by
    simp only [Context.read, Check.defect?]
    cases context.bindings name <;> rfl
  have hreads : ((context.read name).run.run trace).2.reads = trace.reads.push name := by
    unfold Context.read
    cases context.bindings name <;> rfl
  rw [asked_singleton, firstDefect?, List.findSome?_singleton, hreads, Array.toList_push]
  exact ⟨hfailure, rfl⟩

/-- Looking a function up for a call is one check. -/
theorem walks_checkedFunction (name : String) (count : Nat) :
    Walks bindings [.call name count]
      (ExceptT.mk (pure (checkedFunction name count)) : EvalM MathFunction) := by
  intro trace
  have hfailure : failure? (checkedFunction name count) =
      (Check.call name count).defect? bindings := by
    simp only [checkedFunction, Check.defect?]
    cases MathFunction.ofName? name with
    | none => rfl
    | some f => cases hcount : f.arity.accepts count <;> simp [hcount, failure?]
  rw [asked_singleton, firstDefect?, List.findSome?_singleton]
  exact ⟨hfailure, (List.append_nil _).symm⟩

/-- Applying a function that has been looked up cannot fail. -/
theorem walks_call (context : Context) (f : MathFunction) (values : List Float) :
    Walks bindings [] (context.call f values) := by
  intro trace
  exact ⟨rfl, (List.append_nil _).symm⟩

end Steps

/-! ## Evaluations -/

namespace Expr

variable (context : Context)

mutual

/-- An evaluation goes along the checks of its tree. -/
theorem walks_eval : ∀ e : Expr, Walks context.bindings e.checks (e.eval context)
  | literal v => walks_pure v
  | var name => walks_read context name
  | neg e => by
    rw [checks, eval, ← List.append_nil e.checks]
    exact (walks_eval e).bind fun v => walks_pure (-v)
  | binary op a b => by
    rw [checks, eval, ← List.append_nil b.checks]
    exact (walks_eval a).bind fun x => (walks_eval b).bind fun y => walks_pure (op.apply x y)
  | call name args => by
    rw [checks, eval, ← List.append_nil (checksList args), ← List.singleton_append]
    exact (walks_checkedFunction name args.length).bind fun f =>
      (walks_evalList args).bind fun values => walks_call context f values

/-- An evaluation of arguments goes along the checks of all of them. -/
theorem walks_evalList :
    ∀ es : List Expr, Walks context.bindings (checksList es) (evalList context es)
  | [] => walks_pure []
  | e :: es => by
    rw [checksList, evalList, ← List.append_nil (checksList es)]
    exact (walks_eval e).bind fun v => (walks_evalList es).bind fun vs => walks_pure (v :: vs)

end

/-- The value of a tree fails with the first defect of its checks. -/
theorem failure?_value (e : Expr) :
    failure? (e.value context) = firstDefect? context.bindings e.checks :=
  (walks_eval context e {}).1

/-- A run reads the variables that are asked for until a check fails. -/
theorem toList_reads_run (e : Expr) :
    (e.run context).2.reads.toList = asked context.bindings e.checks :=
  (walks_eval context e {}).2

end Expr

/-- A result that is no error is a value. -/
theorem failure?_eq_none_iff {α : Type} {result : Except EvalError α} :
    failure? result = none ↔ ∃ a, result = .ok a := by
  cases result <;> simp [failure?]

/-- The error of a result is the result. -/
theorem failure?_eq_some_iff {α : Type} {result : Except EvalError α} {error : EvalError} :
    failure? result = some error ↔ result = .error error := by
  cases result <;> simp [failure?]

/-- A check asks of the bindings only whether a name is bound. -/
theorem Check.defect?_congr {bindings other : Bindings}
    (h : ∀ name, (other name).isSome = (bindings name).isSome) (check : Check) :
    check.defect? other = check.defect? bindings := by
  cases check with
  | read name => rw [defect?, defect?, h name]
  | call name count => rfl

/-- **An evaluation fails at its first defective check.** It has a value exactly if none of its
checks is defective, and else the error is that of the first one that is; it asks for the
variables of the checks up to there, in their order and as often as they occur. So bindings of
the same names give all of them the same errors and the same questions. -/
theorem evaluation_fails_at_first_defect (e : Expr) (context : Context) :
    ((∃ v, e.value context = .ok v) ↔
      ∀ check ∈ e.checks, check.defect? context.bindings = none) ∧
    (∀ error, e.value context = .error error ↔
      firstDefect? context.bindings e.checks = some error) ∧
    (e.run context).2.reads.toList = asked context.bindings e.checks ∧
    ∀ other : Context,
      (∀ name, (other.bindings name).isSome = (context.bindings name).isSome) →
        ((∃ v, e.value other = .ok v) ↔ ∃ v, e.value context = .ok v) ∧
        (∀ error, e.value other = .error error ↔ e.value context = .error error) ∧
        (e.run other).2.reads = (e.run context).2.reads := by
  have hfailure := e.failure?_value context
  refine ⟨?_, ?_, e.toList_reads_run context, ?_⟩
  · rw [← failure?_eq_none_iff, hfailure, firstDefect?_eq_none_iff]
  · intro error
    rw [← failure?_eq_some_iff, hfailure]
  · intro other hbound
    have hdefect : Check.defect? other.bindings = Check.defect? context.bindings :=
      funext (Check.defect?_congr hbound)
    have hsame : failure? (e.value other) = failure? (e.value context) := by
      rw [hfailure, e.failure?_value other, firstDefect?, firstDefect?, hdefect]
    refine ⟨?_, ?_, ?_⟩
    · rw [← failure?_eq_none_iff, ← failure?_eq_none_iff, hsame]
    · intro error
      rw [← failure?_eq_some_iff, ← failure?_eq_some_iff, hsame]
    · apply Array.toList_inj.mp
      rw [e.toList_reads_run, e.toList_reads_run, asked, asked, performed, performed, hdefect]

/-- The call of `atan2` is refused after `x` was read and before `y` is, whatever `x` is. -/
theorem evaluation_fails_at_first_defect_wrong_arity :
    let e : Expr := .call "max" [.var "x", .call "atan2" [.var "y"], .var "z"]
    let context : Context := { bindings := .ofPairs [("x", 1)] }
    let other : Context := { bindings := .ofPairs [("x", 2)] }
    (∀ name, (other.bindings name).isSome = (context.bindings name).isSome) ∧
      e.value context = .error (.wrongArity "atan2" (.exactly 2) 1) ∧
      e.value other = .error (.wrongArity "atan2" (.exactly 2) 1) ∧
      (e.run other).2.reads = (e.run context).2.reads := by
  intro e context other
  have hbound : ∀ name, (other.bindings name).isSome = (context.bindings name).isSome := by
    intro name
    by_cases h : "x" = name <;> simp [other, context, Bindings.ofPairs, h]
  have hdefect : firstDefect? context.bindings e.checks =
      some (.wrongArity "atan2" (.exactly 2) 1) := by decide
  obtain ⟨-, herror, -, hsame⟩ := evaluation_fails_at_first_defect e context
  obtain ⟨-, herror', hreads⟩ := hsame other hbound
  have hfails := (herror _).mpr hdefect
  exact ⟨hbound, hfails, (herror' _).mpr hfails, hreads⟩

end Reckoner
