import Reckoner.Expr.Fold

/-!
# Folded trees

One pass folds all that there is to fold, so it comes to the same to fold once or as often as
one likes. A folded tree is no higher than the tree it was made from, and since only literals
vanish, its variables and the functions that it calls are the same, in the same order.

All of it follows node by node from the two local rules: each of them gives the literal of a
value, or the node as it was.
-/

set_option autoImplicit false

namespace Reckoner.Expr

/-- The local rule for negations gives a literal only for a literal. -/
theorem foldedNeg_cases (e : Expr) :
    (∃ x, e = literal x ∧ e.foldedNeg = literal (-x)) ∨ e.foldedNeg = neg e := by
  cases e with
  | literal x => exact .inl ⟨x, rfl, rfl⟩
  | _ => exact .inr rfl

/-- The local rule for operations gives a literal only for two literals. -/
theorem foldedBinary_cases (op : BinaryOp) (a b : Expr) :
    (∃ x y, a = literal x ∧ b = literal y ∧ foldedBinary op a b = literal (op.apply x y)) ∨
      foldedBinary op a b = binary op a b := by
  by_cases h : ∃ x y, a = literal x ∧ b = literal y
  · obtain ⟨x, y, rfl, rfl⟩ := h
    exact .inl ⟨x, y, rfl, rfl, rfl⟩
  · right
    rw [foldedBinary]
    intro x y hx hy
    exact h ⟨x, y, hx, hy⟩

/-- Folding again does not change a folded minus sign. -/
theorem fold_foldedNeg {e : Expr} (h : e.fold = e) : e.foldedNeg.fold = e.foldedNeg := by
  obtain ⟨x, -, hfolded⟩ | hfolded := foldedNeg_cases e
  · rw [hfolded, fold]
  · rw [hfolded, fold, h, hfolded]

/-- Folding again does not change a folded operation. -/
theorem fold_foldedBinary {op : BinaryOp} {a b : Expr} (ha : a.fold = a) (hb : b.fold = b) :
    (foldedBinary op a b).fold = foldedBinary op a b := by
  obtain ⟨x, y, -, -, hfolded⟩ | hfolded := foldedBinary_cases op a b
  · rw [hfolded, fold]
  · rw [hfolded, fold, ha, hb, hfolded]

mutual

/-- A second pass finds nothing left to fold. -/
theorem fold_fold : ∀ e : Expr, e.fold.fold = e.fold
  | literal v => rfl
  | var name => rfl
  | neg e => by
    rw [fold]
    exact fold_foldedNeg (fold_fold e)
  | binary op a b => by
    rw [fold]
    exact fold_foldedBinary (fold_fold a) (fold_fold b)
  | call name args => by
    rw [fold, fold, foldList_foldList args]

/-- Folding again does not change folded arguments. -/
theorem foldList_foldList : ∀ es : List Expr, foldList (foldList es) = foldList es
  | [] => rfl
  | e :: es => by
    rw [foldList, foldList, fold_fold e, foldList_foldList es]

end

/-- No number of rounds changes a tree that one round does not change. -/
theorem foldRounds_of_fold_eq {e : Expr} (h : e.fold = e) (n : Nat) : foldRounds n e = e := by
  induction n with
  | zero => rfl
  | succ n ih =>
    simp only [foldRounds, h, ih, ite_self]

/-- Any number of rounds does the work of one. -/
theorem foldRounds_succ (n : Nat) (e : Expr) : foldRounds (n + 1) e = e.fold := by
  have hrest := foldRounds_of_fold_eq (fold_fold e) n
  simp only [foldRounds, hrest, ite_self]

/-- One round is all that folding takes. -/
theorem folded_eq_fold (e : Expr) : e.folded = e.fold :=
  foldRounds_succ 1 e

/-- Folding a minus sign makes it no higher. -/
theorem height_foldedNeg_le (e : Expr) : e.foldedNeg.height ≤ e.height + 1 := by
  obtain ⟨x, rfl, hfolded⟩ | hfolded := foldedNeg_cases e
  · rw [hfolded, height]
    omega
  · rw [hfolded]
    exact Nat.le_refl _

/-- Folding an operation makes it no higher. -/
theorem height_foldedBinary_le (op : BinaryOp) (a b : Expr) :
    (foldedBinary op a b).height ≤ max a.height b.height + 1 := by
  obtain ⟨x, y, -, -, hfolded⟩ | hfolded := foldedBinary_cases op a b
  · rw [hfolded, height]
    omega
  · rw [hfolded]
    exact Nat.le_refl _

mutual

/-- A folded tree is no higher. -/
theorem height_fold_le : ∀ e : Expr, e.fold.height ≤ e.height
  | literal v => Nat.le_refl 1
  | var name => Nat.le_refl 1
  | neg e => by
    have hlocal := e.fold.height_foldedNeg_le
    have he := height_fold_le e
    rw [fold, height]
    omega
  | binary op a b => by
    have hlocal := height_foldedBinary_le op a.fold b.fold
    have ha := height_fold_le a
    have hb := height_fold_le b
    rw [fold, height]
    omega
  | call name args => by
    have hargs := heightList_foldList_le args
    rw [fold, height, height]
    omega

/-- Folding arguments makes none of them higher. -/
theorem heightList_foldList_le : ∀ es : List Expr, heightList (foldList es) ≤ heightList es
  | [] => Nat.le_refl 0
  | e :: es => by
    have he := height_fold_le e
    have hes := heightList_foldList_le es
    rw [foldList, heightList, heightList]
    omega

end

/-- The variables of a folded minus sign are those of its operand. -/
theorem variableOccurrences_foldedNeg (e : Expr) :
    e.foldedNeg.variableOccurrences = e.variableOccurrences := by
  cases e <;> rfl

/-- The variables of a folded operation are those of its operands. -/
theorem variableOccurrences_foldedBinary (op : BinaryOp) (a b : Expr) :
    (foldedBinary op a b).variableOccurrences = a.variableOccurrences ++ b.variableOccurrences := by
  obtain ⟨x, y, rfl, rfl, -⟩ | hfolded := foldedBinary_cases op a b
  · rfl
  · rw [hfolded, variableOccurrences]

/-- The calls of a folded minus sign are those of its operand. -/
theorem callOccurrences_foldedNeg (e : Expr) :
    e.foldedNeg.callOccurrences = e.callOccurrences := by
  cases e <;> rfl

/-- The calls of a folded operation are those of its operands. -/
theorem callOccurrences_foldedBinary (op : BinaryOp) (a b : Expr) :
    (foldedBinary op a b).callOccurrences = a.callOccurrences ++ b.callOccurrences := by
  obtain ⟨x, y, rfl, rfl, -⟩ | hfolded := foldedBinary_cases op a b
  · rfl
  · rw [hfolded, callOccurrences]

mutual

/-- Folding keeps the variables. -/
theorem variableOccurrences_fold :
    ∀ e : Expr, e.fold.variableOccurrences = e.variableOccurrences
  | literal v => rfl
  | var name => rfl
  | neg e => by
    rw [fold, variableOccurrences_foldedNeg, variableOccurrences, variableOccurrences_fold e]
  | binary op a b => by
    rw [fold, variableOccurrences_foldedBinary, variableOccurrences, variableOccurrences_fold a,
      variableOccurrences_fold b]
  | call name args => by
    rw [fold, variableOccurrences, variableOccurrences, variableOccurrencesList_foldList args]

/-- Folding keeps the variables of arguments, in their order. -/
theorem variableOccurrencesList_foldList :
    ∀ es : List Expr, variableOccurrencesList (foldList es) = variableOccurrencesList es
  | [] => rfl
  | e :: es => by
    rw [foldList, variableOccurrencesList, variableOccurrencesList, variableOccurrences_fold e,
      variableOccurrencesList_foldList es]

end

mutual

/-- Folding keeps the calls. -/
theorem callOccurrences_fold : ∀ e : Expr, e.fold.callOccurrences = e.callOccurrences
  | literal v => rfl
  | var name => rfl
  | neg e => by
    rw [fold, callOccurrences_foldedNeg, callOccurrences, callOccurrences_fold e]
  | binary op a b => by
    rw [fold, callOccurrences_foldedBinary, callOccurrences, callOccurrences_fold a,
      callOccurrences_fold b]
  | call name args => by
    rw [fold, callOccurrences, callOccurrences, callOccurrencesList_foldList args]

/-- Folding keeps the calls in arguments, in their order. -/
theorem callOccurrencesList_foldList :
    ∀ es : List Expr, callOccurrencesList (foldList es) = callOccurrencesList es
  | [] => rfl
  | e :: es => by
    rw [foldList, callOccurrencesList, callOccurrencesList, callOccurrences_fold e,
      callOccurrencesList_foldList es]

end

end Reckoner.Expr
