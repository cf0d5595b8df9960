import Reckoner.Expr.Eval
import Reckoner.Proofs.Except

/-!
# One evaluation behind another

What was asked for before has no influence on an evaluation, except that the random numbers
drawn before are gone. So an evaluation from any trace is one from the empty trace, in the
context without those numbers, and its trace is put behind the other (`Resumes`).

Of two steps, one behind the other, the second is then an evaluation of its own, and the value
of a tree is made of the values of its operands, each in the context that the operands before
it leave: `counted_binary`, `counted_call`. Beside the value stands how many random numbers
were drawn for it, because this is all that the next operand has to know.
-/

set_option autoImplicit false

namespace Reckoner

/-- The context in which so many random numbers have been drawn. -/
def Context.skip (context : Context) (count : Nat) : Context :=
  { context with random := fun n => context.random (count + n) }

/-- Drawing random numbers binds no variable. -/
theorem Context.skip_bindings (context : Context) (count : Nat) :
    (context.skip count).bindings = context.bindings := rfl

/-- Where nothing has been drawn the context is the same. -/
theorem Context.skip_zero (context : Context) : context.skip 0 = context := by
  simp only [skip, Nat.zero_add]

/-- Random numbers drawn at two times count together. -/
theorem Context.skip_skip (context : Context) (m n : Nat) :
    (context.skip m).skip n = context.skip (m + n) := by
  simp only [skip, Nat.add_assoc]

/-- The next random number is the first that has not been drawn. -/
theorem Context.skip_random_zero (context : Context) (count : Nat) :
    (context.skip count).random 0 = context.random count :=
  rfl

/-- The trace with a later one behind it. -/
def Trace.append (trace later : Trace) : Trace :=
  ⟨trace.reads ++ later.reads, trace.draws + later.draws⟩

/-- The empty trace adds nothing. -/
theorem Trace.append_empty (trace : Trace) : trace.append {} = trace := by
  simp [append]

/-- Three traces can be put together from either side. -/
theorem Trace.append_assoc (trace later last : Trace) :
    (trace.append later).append last = trace.append (later.append last) := by
  simp only [append, Array.append_assoc, Nat.add_assoc]

/-- From any trace the step does what it does from the empty one in the context in which the
random numbers of the trace have been drawn, and its trace is put behind the other. -/
def Resumes {α : Type} (step : Context → EvalM α) : Prop :=
  ∀ context trace,
    let fresh := (step (context.skip trace.draws)).run.run {}
    (step context).run.run trace = (fresh.1, trace.append fresh.2)

/-- The value of a step from the empty trace, and how many random numbers it has drawn. -/
def counted {α : Type} (step : EvalM α) : Except EvalError (α × Nat) :=
  let (result, trace) := step.run.run {}
  (·, trace.draws) <$> result

section Steps

variable {α β : Type} {step : Context → EvalM α} {next : α → Context → EvalM β}

/-- A step that only gives a value leaves the trace as it is. -/
theorem resumes_pure (a : α) : Resumes fun _ => pure a := by
  intro context trace fresh
  exact congrArg _ trace.append_empty.symm

/-- Looking a function up leaves the trace as it is. -/
theorem resumes_checkedFunction (name : String) (count : Nat) :
    Resumes fun _ => ExceptT.mk (pure (checkedFunction name count)) := by
  intro context trace fresh
  exact congrArg _ trace.append_empty.symm

/-- A variable has the same value wherever it is read, and is put behind the reads so far. -/
theorem resumes_read (name : String) : Resumes (·.read name) := by
  intro context trace fresh
  have htrace : { trace with reads := trace.reads.push name } = trace.append ⟨#[name], 0⟩ := by
    simp [Trace.append]
  simp only [fresh, Context.read, Context.skip_bindings]
  cases context.bindings name with
  | some value => exact Prod.ext rfl htrace
  | none => exact Prod.ext rfl htrace

/-- A function draws its random numbers behind those already drawn. -/
theorem resumes_call (f : MathFunction) (values : List Float) : Resumes (·.call f values) := by
  intro context trace fresh
  have htrace : { trace with draws := trace.draws + f.draws } =
      trace.append { draws := 0 + f.draws } := by
    simp [Trace.append]
  exact Prod.ext rfl htrace

/-- A step that fails ends the sequence. -/
theorem run_bind_of_error {first : EvalM α} {rest : α → EvalM β} {trace trace' : Trace}
    {error : EvalError} (h : first.run.run trace = (.error error, trace')) :
    (first >>= rest).run.run trace = (.error error, trace') := by
  rw [ExceptT.run_bind, StateT.run_bind, h]
  rfl

/-- Behind a step with a value the next one goes on from its trace. -/
theorem run_bind_of_ok {first : EvalM α} {rest : α → EvalM β} {trace trace' : Trace} {a : α}
    (h : first.run.run trace = (.ok a, trace')) :
    (first >>= rest).run.run trace = (rest a).run.run trace' := by
  rw [ExceptT.run_bind, StateT.run_bind, h]
  rfl

/-- Two steps that resume do so one after the other. -/
theorem Resumes.bind (hstep : Resumes step) (hnext : ∀ a, Resumes (next a)) :
    Resumes fun context => step context >>= fun a => next a context := by
  intro context trace fresh
  have hfirst := hstep context trace
  cases hrun : (step (context.skip trace.draws)).run.run {} with
  | mk result later =>
    rw [hrun] at hfirst
    cases result with
    | error error =>
      have hfresh : fresh = (.error error, later) := run_bind_of_error hrun
      rw [run_bind_of_error hfirst, hfresh]
    | ok a =>
      have hlast := hnext a context (trace.append later)
      have hlast' := hnext a (context.skip trace.draws) later
      rw [Context.skip_skip] at hlast'
      have hfresh : fresh = _ := (run_bind_of_ok hrun).trans hlast'
      rw [run_bind_of_ok hfirst, hlast, hfresh, Trace.append_assoc]
      rfl

/-- Of two steps the second has its value in the context that the first leaves, and the first
error counts. -/
theorem counted_bind (hnext : ∀ a, Resumes (next a)) (context : Context) (first : EvalM α) :
    counted (first >>= fun a => next a context) = (do
      let (a, m) ← counted first
      let (b, n) ← counted (next a (context.skip m))
      pure (b, m + n)) := by
  cases hrun : first.run.run {} with
  | mk result trace =>
    cases result with
    | error error =>
      simp only [counted, hrun, run_bind_of_error hrun, map_error, error_bind]
    | ok a =>
      have hlast := hnext a context trace
      simp only [counted, hrun, run_bind_of_ok hrun, hlast, map_ok, ok_bind]
      cases (next a (context.skip trace.draws)).run.run {} with
      | mk result later => cases result <;> rfl

/-- What is made of a value draws no numbers. -/
theorem counted_bind_pure (f : α → β) (first : EvalM α) :
    counted (first >>= fun a => pure (f a)) = (do
      let (a, n) ← counted first
      pure (f a, n)) := by
  rw [counted_bind (fun a => resumes_pure (f a)) ⟨.empty, fun _ => 0⟩]
  rfl

/-- Looking a function up draws nothing. -/
theorem counted_checkedFunction (name : String) (count : Nat) :
    counted (ExceptT.mk (pure (checkedFunction name count))) =
      (·, 0) <$> checkedFunction name count :=
  rfl

/-- A call gives the value of the function and draws as many numbers as the function needs. -/
theorem counted_contextCall (context : Context) (f : MathFunction) (values : List Float) :
    counted (context.call f values) = .ok (f.call (context.random 0) values, f.draws) := by
  rw [← Nat.zero_add f.draws]
  rfl

end Steps

namespace Expr

mutual

/-- An evaluation resumes from any trace. -/
theorem resumes_eval : ∀ e : Expr, Resumes fun context => e.eval context
  | literal v => resumes_pure v
  | var name => resumes_read name
  | neg e => by
    simp only [eval]
    exact (resumes_eval e).bind fun v => resumes_pure (-v)
  | binary op a b => by
    simp only [eval]
    exact (resumes_eval a).bind fun x => (resumes_eval b).bind fun y => resumes_pure (op.apply x y)
  | call name args => by
    simp only [eval]
    exact (resumes_checkedFunction name args.length).bind fun f =>
      (resumes_evalList args).bind fun values => resumes_call f values

/-- An evaluation of arguments resumes from any trace. -/
theorem resumes_evalList : ∀ es : List Expr, Resumes fun context => evalList context es
  | [] => resumes_pure []
  | e :: es => by
    simp only [evalList]
    exact (resumes_eval e).bind fun v => (resumes_evalList es).bind fun vs => resumes_pure (v :: vs)

end

variable (context : Context)

/-- A minus sign changes the sign of the value and draws nothing of its own. -/
theorem counted_neg (e : Expr) :
    counted ((neg e).eval context) = (do
      let (v, n) ← counted (e.eval context)
      pure (-v, n)) := by
  simp only [eval]
  exact counted_bind_pure _ _

/-- The right operand is evaluated behind the left one, and only if that has a value. -/
theorem counted_binary (op : BinaryOp) (a b : Expr) :
    counted ((binary op a b).eval context) = (do
      let (x, m) ← counted (a.eval context)
      let (y, n) ← counted (b.eval (context.skip m))
      pure (op.apply x y, m + n)) := by
  simp only [eval]
  rw [counted_bind (fun x => (resumes_eval b).bind fun y => resumes_pure (op.apply x y)) context]
  simp only [counted_bind_pure, bind_assoc, pure_bind]

/-- The first tree is evaluated in front of the others. -/
theorem counted_cons (e : Expr) (es : List Expr) :
    counted (evalList context (e :: es)) = (do
      let (v, m) ← counted (e.eval context)
      let (vs, n) ← counted (evalList (context.skip m) es)
      pure (v :: vs, m + n)) := by
  simp only [evalList]
  rw [counted_bind (fun v => (resumes_evalList es).bind fun vs => resumes_pure (v :: vs)) context]
  simp only [counted_bind_pure, bind_assoc, pure_bind]

/-- The function is checked before the arguments are evaluated and called behind them. -/
theorem counted_call (name : String) (args : List Expr) :
    counted ((call name args).eval context) = (do
      let f ← checkedFunction name args.length
      let (values, n) ← counted (evalList context args)
      pure (f.call (context.random n) values, n + f.draws)) := by
  simp only [eval]
  rw [counted_bind
    (fun f => (resumes_evalList args).bind fun values => resumes_call f values) context]
  rw [counted_checkedFunction]
  cases checkedFunction name args.length with
  | error error => rfl
  | ok f =>
    simp only [map_ok, ok_bind, Context.skip_zero, Nat.zero_add]
    rw [counted_bind (fun values => resumes_call f values) context]
    simp only [counted_contextCall, Context.skip_random_zero, ok_bind, bind_assoc, pure_bind]

end Expr

end Reckoner
