import Reckoner.Expr
import Reckoner.Token

/-!
# From tokens to an expression

Sums and differences bind loosest, then products, quotients and remainders, then powers,
then the minus sign before an operand. All operations group to the left, powers too, so
`2 ** 3 ** 2` is `(2 ** 3) ** 2`, and `-2 ** 2` is `(-2) ** 2`.

One limit bounds two things. The *nesting* of an operand counts the parentheses, the
argument lists and the minus signs around it; it is bounded before anything inside is
read, and it is what the reading recurs on. The *height* of the tree also counts
operations in a row, which are read in a loop; every operation is checked against the
limit as soon as its operands are known. Each reading returns the tokens it has left,
with the proof that there are fewer of them, which ends the loops.
-/

set_option autoImplicit false

namespace Reckoner

/-- Why tokens are no expression. -/
inductive SyntaxError where
  /-- The name of a function that was written behind `Math.` has no parenthesis behind it
  at the place. -/
  | expectedCallParen (name : String) (position : Nat)
  | expectedArgSeparator (found : Located Token)
  | expectedCloseParen (found : Located Token)
  | unexpectedEnd
  | unexpectedToken (found : Located Token)
  /-- An expression ends before the token. -/
  | trailingTokens (found : Located Token)
  | tooDeep (limit : Nat)
  deriving DecidableEq

/-- What is read from the start of some tokens: a value, the height of its tree, and the
tokens that are left, of which there are fewer than `bound`. -/
structure Reading (α : Type) (bound : Nat) where
  value : α
  height : Nat
  rest : List (Located Token)
  length_lt : rest.length < bound

/-- Reads a value from the start of the tokens, using at least one of them. -/
abbrev Reader (α : Type) :=
  (tokens : List (Located Token)) → Except SyntaxError (Reading α tokens.length)

namespace Reading

/-- The reading counts as one from more tokens. -/
def widen {α : Type} {m n : Nat} (reading : Reading α m) (h : m ≤ n) : Reading α n :=
  ⟨reading.value, reading.height, reading.rest, Nat.lt_of_lt_of_le reading.length_lt h⟩

end Reading

/-- The place of the first token, or of the end of the text if there is none. -/
def nextPosition (endPosition : Nat) : List (Located Token) → Nat
  | [] => endPosition
  | token :: _ => token.position

namespace Reader

/-- Refuses to go deeper. -/
def tooDeep {α : Type} (limit : Nat) : Reader α :=
  fun _ => .error (.tooDeep limit)

/-- A tree of the given height is within the limit. -/
def checkHeight (limit height : Nat) : Except SyntaxError Unit :=
  if limit < height then .error (.tooDeep limit) else .ok ()

/-- Goes on after a left operand: as long as there is an operator of the level, the next
operand is read and joined to what there is. -/
def chainFrom (limit : Nat) (operation? : Operator → Option BinaryOp) (operand : Reader Expr)
    (left : Expr) (height : Nat) (tokens : List (Located Token)) :
    Except SyntaxError (Reading Expr (tokens.length + 1)) :=
  match tokens with
  | ⟨.operator sign, position⟩ :: rest =>
    match operation? sign with
    | some op => do
      let right ← operand rest
      let height := max height right.height + 1
      checkHeight limit height
      let reading ←
        chainFrom limit operation? operand (.binary op left right.value) height right.rest
      pure (reading.widen (by have := right.length_lt; simp only [List.length_cons]; omega))
    | none => pure ⟨left, height, ⟨.operator sign, position⟩ :: rest, Nat.lt_succ_self _⟩
  | tokens => pure ⟨left, height, tokens, Nat.lt_succ_self _⟩
  termination_by tokens.length
  decreasing_by
    have := right.length_lt
    simp only [List.length_cons]
    omega

/-- Reads operands with the operators of one level between them, grouped to the left. -/
def chain (limit : Nat) (operation? : Operator → Option BinaryOp) (operand : Reader Expr) :
    Reader Expr := fun tokens => do
  let first ← operand tokens
  let reading ← chainFrom limit operation? operand first.value first.height first.rest
  pure (reading.widen first.length_lt)

/-- The operators of sums. -/
def sumOperation? : Operator → Option BinaryOp
  | .plus => some .add
  | .minus => some .sub
  | _ => none

/-- The operators of products. -/
def productOperation? : Operator → Option BinaryOp
  | .star => some .mul
  | .slash => some .div
  | .percent => some .rem
  | _ => none

/-- The operators of powers. -/
def powerOperation? : Operator → Option BinaryOp
  | .starStar | .caret => some .pow
  | _ => none

/-- Reads a sum of products of powers of the given operands. -/
def sum (limit : Nat) (operand : Reader Expr) : Reader Expr :=
  chain limit sumOperation? (chain limit productOperation? (chain limit powerOperation? operand))

/-- Reads the arguments of a call up to the closing parenthesis, at least one; their height
is that of the tallest. -/
def arguments (expression : Reader Expr) (tokens : List (Located Token)) :
    Except SyntaxError (Reading (List Expr) tokens.length) := do
  let first ← expression tokens
  match h : first.rest with
  | ⟨.comma, _⟩ :: rest =>
    have hlt : rest.length < tokens.length := by
      have := first.length_lt
      simp only [h, List.length_cons] at this
      omega
    let more ← arguments expression rest
    pure ⟨first.value :: more.value, max first.height more.height, more.rest,
      Nat.lt_trans more.length_lt hlt⟩
  | ⟨.closeParen, _⟩ :: rest =>
    pure ⟨[first.value], first.height, rest, by
      have := first.length_lt
      simp only [h, List.length_cons] at this
      omega⟩
  | [] => throw .unexpectedEnd
  | found :: _ => throw (.expectedArgSeparator found)
  termination_by tokens.length

/-- Reads what stands behind the opening parenthesis of a call. -/
def call (limit : Nat) (expression : Reader Expr) (name : String) : Reader Expr
  | ⟨.closeParen, _⟩ :: rest => pure ⟨.call name [], 1, rest, Nat.lt_succ_self _⟩
  | tokens => do
    let args ← arguments expression tokens
    checkHeight limit (args.height + 1)
    pure ⟨.call name args.value, args.height + 1, args.rest, args.length_lt⟩

/-- Reads what stands behind an opening parenthesis that is not one of a call. -/
def group (expression : Reader Expr) : Reader Expr := fun tokens => do
  let inner ← expression tokens
  match h : inner.rest with
  | ⟨.closeParen, _⟩ :: rest =>
    pure ⟨inner.value, inner.height, rest, by
      have := inner.length_lt
      simp only [h, List.length_cons] at this
      omega⟩
  | [] => throw .unexpectedEnd
  | found :: _ => throw (.expectedCloseParen found)

/-- Reads a number, a variable, a call, or an expression in parentheses. -/
def primary (limit endPosition : Nat) (expression : Reader Expr) : Reader Expr
  | ⟨.number value, _⟩ :: rest => pure ⟨.literal value, 1, rest, Nat.lt_succ_self _⟩
  | ⟨.identifier name, _⟩ :: ⟨.openParen, _⟩ :: rest =>
    (·.widen (Nat.le_add_right _ 2)) <$> call limit expression name rest
  | ⟨.identifier name, _⟩ :: rest => pure ⟨.var name, 1, rest, Nat.lt_succ_self _⟩
  | ⟨.member name, _⟩ :: ⟨.openParen, _⟩ :: rest =>
    (·.widen (Nat.le_add_right _ 2)) <$> call limit expression name rest
  | ⟨.member name, _⟩ :: rest => throw (.expectedCallParen name (nextPosition endPosition rest))
  | ⟨.openParen, _⟩ :: rest => (·.widen (Nat.le_succ _)) <$> group expression rest
  | [] => throw .unexpectedEnd
  | found :: _ => throw (.unexpectedToken found)

/-- Reads an operand that may have a minus sign: behind the sign another such operand is
read by `inner`, without it a plain one by `plain`. -/
def signed (limit : Nat) (inner plain : Reader Expr) : Reader Expr
  | ⟨.operator .minus, _⟩ :: rest => do
    let operand ← inner rest
    checkHeight limit (operand.height + 1)
    pure ⟨.neg operand.value, operand.height + 1, operand.rest, Nat.lt_succ_of_lt operand.length_lt⟩
  | tokens => plain tokens

/-- Reads an operand of a power; `depth` more levels of nesting may be opened. -/
def unary (limit endPosition : Nat) : Nat → Reader Expr
  | 0, tokens => signed limit (tooDeep limit) (primary limit endPosition (tooDeep limit)) tokens
  | depth + 1, tokens =>
    signed limit (unary limit endPosition depth)
      (primary limit endPosition (sum limit (unary limit endPosition depth))) tokens

/-- Reads an expression, which is itself a level of nesting; `depth` levels may be opened. -/
def expression (limit endPosition : Nat) : Nat → Reader Expr
  | 0 => tooDeep limit
  | depth + 1 => sum limit (unary limit endPosition depth)

end Reader

namespace Expr

/-- The expression that all the tokens together are, within the limit on nesting and
height. -/
def ofTokens (limit : Nat) (stream : TokenStream) : Except SyntaxError Expr := do
  let reading ← Reader.expression limit stream.endPosition limit stream.tokens
  match reading.rest with
  | [] => pure reading.value
  | found :: _ => throw (.trailingTokens found)

end Expr

end Reckoner
