import Reckoner.Expr.OfTokens
import Reckoner.Proofs.Except

/-!
# What the readers give

A reading holds a proof that tokens were used, whose type depends on the tokens. The
outcome of a reading leaves this proof out, and each reader has an equation here that
says what its outcome is in terms of the outcomes of the readers it calls. Everything
that is shown about readers later starts from these equations.
-/

set_option autoImplicit false

namespace Reckoner.Reader

/-- The value that was read, the height of its tree, and the tokens that are left. -/
def outcome {α : Type} {bound : Nat} (reading : Except SyntaxError (Reading α bound)) :
    Except SyntaxError (α × Nat × List (Located Token)) :=
  (fun x => (x.value, x.height, x.rest)) <$> reading

/-- Of a success the value, the height and the tokens left are told. -/
@[simp] theorem outcome_ok {α : Type} {bound : Nat} (reading : Reading α bound) :
    outcome (.ok reading) = .ok (reading.value, reading.height, reading.rest) := rfl

/-- Of a failure the error is told. -/
@[simp] theorem outcome_error {α : Type} {bound : Nat} (error : SyntaxError) :
    outcome (.error error : Except SyntaxError (Reading α bound)) = .error error := rfl

/-- A bound on the tokens left is not told. -/
@[simp] theorem outcome_widen {α : Type} {m n : Nat} (h : m ≤ n)
    (reading : Except SyntaxError (Reading α m)) :
    outcome ((·.widen h) <$> reading) = outcome reading := by
  cases reading <;> rfl

/-- A reader leaves fewer tokens than it is given. -/
theorem length_lt_of_outcome {α : Type} {bound : Nat}
    {reading : Except SyntaxError (Reading α bound)} {value : α} {height : Nat}
    {rest : List (Located Token)} (h : outcome reading = .ok (value, height, rest)) :
    rest.length < bound := by
  obtain ⟨⟨value', height', rest', hlt⟩, -, heq⟩ := map_eq_ok_iff.mp h
  cases heq
  exact hlt

/-! The readers look at the first token only: whether it is a given one, or an operator of
their level. -/

/-- Either the tokens start with the given one or they do not. -/
theorem starts_cases (value : Token) (tokens : List (Located Token)) :
    (∃ position rest, tokens = ⟨value, position⟩ :: rest) ∨
      ∀ position rest, tokens ≠ ⟨value, position⟩ :: rest := by
  by_cases h : ∃ position rest, tokens = ⟨value, position⟩ :: rest
  · exact .inl h
  · exact .inr fun position rest heq => h ⟨position, rest, heq⟩

/-- Either the tokens start with an operator that is looked for or they do not. -/
theorem operation_cases (operation? : Operator → Option BinaryOp)
    (tokens : List (Located Token)) :
    (∃ sign position rest op, tokens = ⟨.operator sign, position⟩ :: rest ∧
      operation? sign = some op) ∨
      ∀ sign position rest, tokens = ⟨.operator sign, position⟩ :: rest →
        operation? sign = none := by
  by_cases h : ∃ sign position rest op, tokens = ⟨.operator sign, position⟩ :: rest ∧
      operation? sign = some op
  · exact .inl h
  · right
    intro sign position rest heq
    cases hop : operation? sign with
    | none => rfl
    | some op => exact absurd ⟨sign, position, rest, op, heq, hop⟩ h

variable {limit : Nat}

/-- A height within the limit passes. -/
theorem checkHeight_of_le {height : Nat} (h : height ≤ limit) :
    checkHeight limit height = .ok () :=
  if_neg (Nat.not_lt.2 h)

/-- A height beyond the limit is too deep. -/
theorem checkHeight_of_lt {height : Nat} (h : limit < height) :
    checkHeight limit height = .error (.tooDeep limit) :=
  if_pos h

/-- Exactly the heights within the limit pass. -/
theorem checkHeight_eq_ok_iff {height : Nat} {u : Unit} :
    checkHeight limit height = .ok u ↔ height ≤ limit := by
  unfold checkHeight
  split <;> simp <;> omega

section Chain

variable {operation? : Operator → Option BinaryOp} {operand : Reader Expr}

/-- Behind an operator of its level a chain goes on with another operand. -/
theorem outcome_chainFrom_operator {sign : Operator} {op : BinaryOp}
    (hop : operation? sign = some op) (left : Expr) (height position : Nat)
    (rest : List (Located Token)) :
    outcome (chainFrom limit operation? operand left height (⟨.operator sign, position⟩ :: rest)) =
      (do
        let (right, h, rest) ← outcome (operand rest)
        checkHeight limit (max height h + 1)
        outcome (chainFrom limit operation? operand (.binary op left right)
          (max height h + 1) rest)) := by
  rw [chainFrom]
  simp only [hop]
  cases operand rest with
  | error e => rfl
  | ok right =>
    simp only [ok_bind, outcome_ok]
    cases checkHeight limit (max height right.height + 1) with
    | error e => rfl
    | ok _ =>
      simp only [ok_bind]
      cases chainFrom limit operation? operand (.binary op left right.value)
        (max height right.height + 1) right.rest <;> rfl

/-- A chain ends where no operator follows that it looks for. -/
theorem outcome_chainFrom_end {tokens : List (Located Token)}
    (h : ∀ sign position rest, tokens = ⟨.operator sign, position⟩ :: rest →
      operation? sign = none) (left : Expr) (height : Nat) :
    outcome (chainFrom limit operation? operand left height tokens) =
      .ok (left, height, tokens) := by
  cases tokens with
  | nil =>
    rw [chainFrom]
    · rfl
    · simp
  | cons token rest =>
    obtain ⟨value, position⟩ := token
    cases value with
    | operator sign =>
      rw [chainFrom]
      simp only [h sign position rest rfl]
      rfl
    | _ =>
      rw [chainFrom]
      · rfl
      · simp

/-- A chain starts with an operand and goes on behind it. -/
theorem outcome_chain (tokens : List (Located Token)) :
    outcome (chain limit operation? operand tokens) =
      (do
        let (first, h, rest) ← outcome (operand tokens)
        outcome (chainFrom limit operation? operand first h rest)) := by
  unfold chain
  cases operand tokens with
  | error e => rfl
  | ok first =>
    simp only [ok_bind, outcome_ok]
    cases chainFrom limit operation? operand first.value first.height first.rest <;> rfl

end Chain

section Primary

variable {expression : Reader Expr} {endPosition : Nat}

/-- What follows an argument of a call: another argument, or the end of the list. -/
def argumentsAfter (expression : Reader Expr) (first : Expr) (height : Nat) :
    List (Located Token) → Except SyntaxError (List Expr × Nat × List (Located Token))
  | ⟨.comma, _⟩ :: rest => do
    let (more, h, rest) ← outcome (arguments expression rest)
    pure (first :: more, max height h, rest)
  | ⟨.closeParen, _⟩ :: rest => pure ([first], height, rest)
  | [] => throw .unexpectedEnd
  | found :: _ => throw (.expectedArgSeparator found)

/-- Arguments start with an expression, and what is behind it decides how they go on. -/
theorem outcome_arguments (tokens : List (Located Token)) :
    outcome (arguments expression tokens) =
      (do
        let (first, h, rest) ← outcome (expression tokens)
        argumentsAfter expression first h rest) := by
  rw [arguments]
  cases expression tokens with
  | error e => rfl
  | ok first =>
    obtain ⟨first, height, rest, hlt⟩ := first
    simp only [ok_bind, outcome_ok]
    cases rest with
    | nil => rfl
    | cons found rest =>
      obtain ⟨token, position⟩ := found
      cases token with
      | comma =>
        simp only [argumentsAfter]
        cases arguments expression rest <;> rfl
      | _ => rfl

/-- A call whose list of arguments does not end at once has arguments. -/
theorem outcome_call {tokens : List (Located Token)}
    (h : ∀ position rest, tokens ≠ ⟨.closeParen, position⟩ :: rest) (name : String) :
    outcome (call limit expression name tokens) =
      (do
        let (args, h, rest) ← outcome (arguments expression tokens)
        checkHeight limit (h + 1)
        .ok (.call name args, h + 1, rest)) := by
  rw [call]
  · cases arguments expression tokens with
    | error e => rfl
    | ok args =>
      simp only [ok_bind, outcome_ok]
      cases checkHeight limit (args.height + 1) <;> rfl
  · intro position rest
    exact h position rest

/-- What follows the expression of a group: its closing parenthesis. -/
def groupAfter (inner : Expr) (height : Nat) :
    List (Located Token) → Except SyntaxError (Expr × Nat × List (Located Token))
  | ⟨.closeParen, _⟩ :: rest => .ok (inner, height, rest)
  | [] => .error .unexpectedEnd
  | found :: _ => .error (.expectedCloseParen found)

/-- In a group there is an expression, and what is behind it has to close the group. -/
theorem outcome_group (tokens : List (Located Token)) :
    outcome (group expression tokens) =
      (do
        let (inner, h, rest) ← outcome (expression tokens)
        groupAfter inner h rest) := by
  unfold group
  cases expression tokens with
  | error e => rfl
  | ok inner =>
    obtain ⟨inner, height, rest, hlt⟩ := inner
    simp only [ok_bind, outcome_ok]
    cases rest with
    | nil => rfl
    | cons found rest =>
      obtain ⟨token, position⟩ := found
      cases token <;> rfl

/-- A name with no parenthesis behind it is a variable. -/
theorem outcome_primary_var {rest : List (Located Token)}
    (h : ∀ position rest', rest ≠ ⟨.openParen, position⟩ :: rest') (name : String)
    (position : Nat) :
    outcome (primary limit endPosition expression (⟨.identifier name, position⟩ :: rest)) =
      .ok (.var name, 1, rest) := by
  rw [primary]
  · rfl
  · intro position rest'
    exact h position rest'

/-- A name in front of a parenthesis starts a call. -/
theorem outcome_primary_identifier_call (name : String) (position position' : Nat)
    (rest : List (Located Token)) :
    outcome (primary limit endPosition expression
      (⟨.identifier name, position⟩ :: ⟨.openParen, position'⟩ :: rest)) =
        outcome (call limit expression name rest) := by
  rw [primary]
  exact outcome_widen _ _

/-- A member of `Math` in front of a parenthesis starts a call. -/
theorem outcome_primary_member_call (name : String) (position position' : Nat)
    (rest : List (Located Token)) :
    outcome (primary limit endPosition expression
      (⟨.member name, position⟩ :: ⟨.openParen, position'⟩ :: rest)) =
        outcome (call limit expression name rest) := by
  rw [primary]
  exact outcome_widen _ _

/-- The name of a function with no parenthesis behind it is nothing. -/
theorem outcome_primary_member {rest : List (Located Token)}
    (h : ∀ position rest', rest ≠ ⟨.openParen, position⟩ :: rest') (name : String)
    (position : Nat) :
    outcome (primary limit endPosition expression (⟨.member name, position⟩ :: rest)) =
      .error (.expectedCallParen name (nextPosition endPosition rest)) := by
  rw [primary]
  · rfl
  · intro position rest'
    exact h position rest'

/-- A parenthesis with no name in front of it opens a group. -/
theorem outcome_primary_group (position : Nat) (rest : List (Located Token)) :
    outcome (primary limit endPosition expression (⟨.openParen, position⟩ :: rest)) =
      outcome (group expression rest) := by
  rw [primary]
  exact outcome_widen _ _

end Primary

section Signed

variable {inner plain : Reader Expr}

/-- Behind a minus sign an operand is read inside, and its tree gets one node more. -/
theorem outcome_signed_minus (position : Nat) (rest : List (Located Token)) :
    outcome (signed limit inner plain (⟨.operator .minus, position⟩ :: rest)) =
      (do
        let (operand, h, rest) ← outcome (inner rest)
        checkHeight limit (h + 1)
        .ok (.neg operand, h + 1, rest)) := by
  rw [signed]
  cases inner rest with
  | error e => rfl
  | ok operand =>
    simp only [ok_bind, outcome_ok]
    cases checkHeight limit (operand.height + 1) <;> rfl

/-- With no minus sign in front, an operand is read as a plain one. -/
theorem outcome_signed_plain {tokens : List (Located Token)}
    (h : ∀ position rest, tokens ≠ ⟨.operator .minus, position⟩ :: rest) :
    outcome (signed limit inner plain tokens) = outcome (plain tokens) := by
  rw [signed]
  intro position rest
  exact h position rest

end Signed

section Stream

/-- What follows the expression of a stream: nothing. -/
def streamAfter (tree : Expr) : List (Located Token) → Except SyntaxError Expr
  | [] => .ok tree
  | found :: _ => .error (.trailingTokens found)

/-- A stream is an expression up to its end. -/
theorem ofTokens_eq (limit : Nat) (stream : TokenStream) :
    Expr.ofTokens limit stream =
      (do
        let (tree, _, rest) ← outcome (expression limit stream.endPosition limit stream.tokens)
        streamAfter tree rest) := by
  unfold Expr.ofTokens
  cases expression limit stream.endPosition limit stream.tokens with
  | error e => rfl
  | ok reading =>
    obtain ⟨tree, height, rest, hlt⟩ := reading
    cases rest <;> rfl

end Stream

end Reckoner.Reader
