import Reckoner.Calculator
import Reckoner.Proofs.Except

/-!
# Folding constants keeps evaluations

A folded tree is evaluated as the tree that it was made from: it has the same value or
the same error, it asks for the same variables in the same order, and it draws the same
random numbers. The two evaluations are equal as steps, from any trace.

One node is folded only if its operands are literals, and evaluating a literal has no
effect, so the two local rules `eval_foldedNeg` and `eval_foldedBinary` are instances of a
monad law. They are lifted to whole trees by induction, through argument lists too, and to
any number of rounds. A calculator that folds differs from one that does not by folding
what it reads, hence texts have the same value in both.
-/

set_option autoImplicit false

namespace Reckoner

namespace Expr

variable (context : Context)

/-- A folded minus sign is evaluated as the minus sign is. -/
theorem eval_foldedNeg (e : Expr) : e.foldedNeg.eval context = (neg e).eval context := by
  cases e with
  | literal v => rw [foldedNeg, eval, eval, eval, pure_bind]
  | _ => rfl

/-- A folded operation is evaluated as the operation is. -/
theorem eval_foldedBinary (op : BinaryOp) (a b : Expr) :
    (foldedBinary op a b).eval context = (binary op a b).eval context := by
  by_cases h : ∃ x y, a = literal x ∧ b = literal y
  · obtain ⟨x, y, rfl, rfl⟩ := h
    rw [foldedBinary, eval, eval, eval, eval, pure_bind, pure_bind]
  · rw [foldedBinary]
    intro x y hx hy
    exact h ⟨x, y, hx, hy⟩

/-- Folding keeps the number of arguments. -/
theorem length_foldList (es : List Expr) : (foldList es).length = es.length := by
  rw [foldList_eq_map, List.length_map]

mutual

/-- One pass over the tree keeps its evaluation. -/
theorem eval_fold : ∀ e : Expr, e.fold.eval context = e.eval context
  | literal v => rfl
  | var name => rfl
  | neg e => by
    rw [fold, eval_foldedNeg, eval, eval, eval_fold e]
  | binary op a b => by
    rw [fold, eval_foldedBinary, eval, eval, eval_fold a, eval_fold b]
  | call name args => by
    rw [fold, eval, eval, length_foldList, evalList_foldList args]

/-- Folded arguments are evaluated as the arguments are. -/
theorem evalList_foldList : ∀ es : List Expr, evalList context (foldList es) = evalList context es
  | [] => rfl
  | e :: es => by
    rw [foldList, evalList, evalList, eval_fold e, evalList_foldList es]

end

/-- So does any number of rounds, wherever they stop. -/
theorem eval_foldRounds (n : Nat) (e : Expr) : (foldRounds n e).eval context = e.eval context := by
  induction n generalizing e with
  | zero => rfl
  | succ n ih =>
    have hfold := eval_fold context e
    simp only [foldRounds]
    split
    · exact hfold
    · rw [ih, hfold]

/-- A folded tree is evaluated as the tree is, from any trace. -/
theorem eval_folded (e : Expr) : e.folded.eval context = e.eval context :=
  eval_foldRounds context 2 e

/-- A folded tree has the run of the tree. -/
theorem run_folded (e : Expr) : e.folded.run context = e.run context := by
  rw [run, run, eval_folded]

end Expr

namespace Settings

/-- The settings with folding switched on or off. -/
def withFolding (settings : Settings) (folding : Bool) : Settings :=
  { settings with folding }

/-- Folding is the last step of reading: the same texts are read, and the others refused for
the same reason. -/
theorem parse_withFolding (settings : Settings) (text : String) :
    (settings.withFolding true).parse text =
      Expr.folded <$> (settings.withFolding false).parse text := by
  have htokens : (settings.withFolding true).tokens (scan text) =
      (settings.withFolding false).tokens (scan text) := rfl
  unfold parse expression
  rw [htokens]
  cases (settings.withFolding false).tokens (scan text) with
  | error anomaly => rfl
  | ok stream =>
    simp only [mapError_ok, ok_bind]
    have hlimit : (settings.withFolding true).depthLimit =
        (settings.withFolding false).depthLimit := rfl
    rw [hlimit]
    cases Expr.ofTokens (settings.withFolding false).depthLimit stream <;> rfl

end Settings

/-- The text has the same value with and without folding, or the same error. -/
theorem Calculator.evaluate_withFolding (settings : Settings) (text : String)
    (context : Context) :
    let folding : Calculator := { settings := settings.withFolding true }
    let plain : Calculator := { settings := settings.withFolding false }
    (folding.evaluate text context).result = (plain.evaluate text context).result ∧
      (folding.evaluate text context).trace = (plain.evaluate text context).trace := by
  intro folding plain
  have hparse : (folding.parse text).result = Expr.folded <$> (plain.parse text).result :=
    settings.parse_withFolding text
  unfold Calculator.evaluate
  dsimp only
  rw [hparse]
  cases (plain.parse text).result with
  | error error => exact ⟨rfl, rfl⟩
  | ok tree =>
    simp only [map_ok, Expr.run_folded]
    exact ⟨trivial, trivial⟩

/-- **Folding keeps values.** A folded tree is evaluated by the same steps as the tree it was
made from: from any trace they give the same value or error and the same longer trace. Hence
a text has the same value, error and trace whether constants are folded or not. -/
theorem folding_keeps_evaluation :
    (∀ (e : Expr) (context : Context) (trace : Trace),
      (e.folded.eval context).run trace = (e.eval context).run trace) ∧
    ∀ (settings : Settings) (text : String) (context : Context),
      let folding : Calculator := { settings := settings.withFolding true }
      let plain : Calculator := { settings := settings.withFolding false }
      (folding.evaluate text context).result = (plain.evaluate text context).result ∧
        (folding.evaluate text context).trace = (plain.evaluate text context).trace := by
  refine ⟨?_, Calculator.evaluate_withFolding⟩
  intro e context trace
  rw [Expr.eval_folded]

end Reckoner
