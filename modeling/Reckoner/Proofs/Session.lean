import Reckoner.Calculator

/-!
# Sessions with a calculator

In a session one calculator answers a series of requests. It may change with each of them,
since what it has read may be kept, and all evaluations of a session share one source of
random numbers: an evaluation goes on with the first number that no earlier one has drawn.
Every request comes with its own bindings.
-/

set_option autoImplicit false

namespace Reckoner

/-- What a calculator can be asked for. -/
inductive Request where
  | parse (text : String)
  | evaluate (text : String) (bindings : Bindings)
  | formula (text : String) (parameters : List String)
  | clearCache

/-- The text that is to be read for a request. -/
def Request.text? : Request → Option String
  | parse text => some text
  | evaluate text _ => some text
  | formula text _ => some text
  | clearCache => none

/-- The answer to a request. An expression comes with the names of its variables, and the
result of an evaluation with what it has asked of its context. -/
inductive Response where
  | expression (result : Except Error (Expr × List String))
  | value (result : Except Error Float) (trace : Trace)
  | formula (result : Except Error Formula)
  | cacheCleared

/-- A calculator, and how many random numbers it has drawn. -/
structure Session where
  calculator : Calculator
  drawn : Nat := 0

namespace Session

variable (source : Nat → Float)

/-- What the next evaluation of the session is given. -/
def context (session : Session) (bindings : Bindings) : Context :=
  { bindings, random := fun n => source (session.drawn + n) }

/-- The answer to a request, and the session after it. -/
def answer (session : Session) : Request → Response × Session
  | .parse text =>
    let outcome := session.calculator.parse text
    (.expression ((fun tree => (tree, tree.variableNames)) <$> outcome.result),
      { session with calculator := outcome.calculator })
  | .evaluate text bindings =>
    let outcome := session.calculator.evaluate text (session.context source bindings)
    (.value outcome.result outcome.trace,
      { calculator := outcome.calculator, drawn := session.drawn + outcome.trace.draws })
  | .formula text parameters =>
    let outcome := session.calculator.formula text parameters
    (.formula outcome.result, { session with calculator := outcome.calculator })
  | .clearCache =>
    (.cacheCleared, { session with calculator := session.calculator.clearCache })

/-- The answers to a series of requests. -/
def answers (session : Session) : List Request → List Response
  | [] => []
  | request :: requests =>
    (session.answer source request).1 :: (session.answer source request).2.answers requests

/-- The session after a series of requests. -/
def after (session : Session) : List Request → Session
  | [] => session
  | request :: requests => (session.answer source request).2.after requests

/-- To the calculator a request is the reading of its text, whatever else is asked for, or
clearing if it has none. -/
theorem answer_calculator (session : Session) (request : Request) :
    (session.answer source request).2.calculator =
      match request.text? with
      | some text => (session.calculator.parse text).calculator
      | none => session.calculator.clearCache := by
  cases request with
  | evaluate text bindings =>
    simp only [answer, Request.text?, Calculator.evaluate]
    cases (session.calculator.parse text).result <;> rfl
  | _ => rfl

/-- Requests are answered one after the other. -/
theorem answers_append (session : Session) (before later : List Request) :
    session.answers source (before ++ later) =
      session.answers source before ++ (session.after source before).answers source later := by
  induction before generalizing session with
  | nil => rfl
  | cons request before ih =>
    rw [List.cons_append, answers, answers, after, ih, List.cons_append]

/-- Later requests start from where the earlier ones have led. -/
theorem after_append (session : Session) (before later : List Request) :
    session.after source (before ++ later) =
      (session.after source before).after source later := by
  induction before generalizing session with
  | nil => rfl
  | cons request before ih => rw [List.cons_append, after, after, ih]

end Session

end Reckoner
