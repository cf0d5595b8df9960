import Reckoner.Expr.OfTokens

/-!
# The grammar of formulas

Which tokens are a formula, and of which tree, is said here by productions, without a
reader:

* a sum is products with `+` and `-` between them, a product is powers with `*`, `/` and
  `%` between them, a power is operands with `**` and `^` between them, and all three
  group to the left;
* an operand may have minus signs in front;
* a plain operand is a number, a variable, a call, or a sum in parentheses.

`Derives symbol tokens tree nesting` says that the tokens are a phrase of the kind
`symbol` with the given tree. The nesting is the largest number that a leaf of the phrase
gets: one, and one more for every pair of parentheses, every argument list and every minus
sign around it.
-/

set_option autoImplicit false

namespace Reckoner.Grammar

/-- The levels of binary operations, from the loosest to the tightest. -/
inductive Level where
  | sum | product | power

/-- The kinds of phrases. -/
inductive Symbol where
  /-- Operands with the operators of a level between them. -/
  | operations (level : Level)
  /-- An operand with any number of minus signs in front. -/
  | signed
  /-- An operand without a minus sign. -/
  | primary

/-- The phrases between the operators of a level. -/
def Level.operand : Level → Symbol
  | .sum => .operations .product
  | .product => .operations .power
  | .power => .signed

/-- The sign is an operator of the level and means the operation. -/
inductive Denotes : Level → Operator → BinaryOp → Prop where
  | plus : Denotes .sum .plus .add
  | minus : Denotes .sum .minus .sub
  | star : Denotes .product .star .mul
  | slash : Denotes .product .slash .div
  | percent : Denotes .product .percent .rem
  | starStar : Denotes .power .starStar .pow
  | caret : Denotes .power .caret .pow

/-- The token is the name of a function in front of its arguments. -/
inductive Names : Token → String → Prop where
  | identifier (name : String) : Names (.identifier name) name
  | member (name : String) : Names (.member name) name

/-- An argument of a call: its tokens, its tree and its nesting. -/
structure Argument where
  tokens : List Token
  tree : Expr
  nesting : Nat

/-- The tokens of the arguments, with commas between them. -/
def separated (args : List Argument) : List Token :=
  [Token.comma].intercalate (args.map Argument.tokens)

/-- The nesting of a call: every argument is one level deeper, and a call without arguments
is a leaf. -/
def callNesting : List Argument → Nat
  | [] => 1
  | x :: xs => max (x.nesting + 1) (callNesting xs)

/-- The productions. A variable is not followed by a parenthesis, because no production
puts one behind an operand. -/
inductive Derives : Symbol → List Token → Expr → Nat → Prop where
  | operand {level : Level} {tokens : List Token} {tree : Expr} {nesting : Nat}
      (h : Derives level.operand tokens tree nesting) :
      Derives (.operations level) tokens tree nesting
  | operation {level : Level} {sign : Operator} {op : BinaryOp} {left right : List Token}
      {a b : Expr} {m n : Nat} (hleft : Derives (.operations level) left a m)
      (hsign : Denotes level sign op) (hright : Derives level.operand right b n) :
      Derives (.operations level) (left ++ .operator sign :: right) (.binary op a b) (max m n)
  | minus {tokens : List Token} {tree : Expr} {nesting : Nat}
      (h : Derives .signed tokens tree nesting) :
      Derives .signed (.operator .minus :: tokens) (.neg tree) (nesting + 1)
  | unsigned {tokens : List Token} {tree : Expr} {nesting : Nat}
      (h : Derives .primary tokens tree nesting) :
      Derives .signed tokens tree nesting
  | number (value : Float) : Derives .primary [.number value] (.literal value) 1
  | var (name : String) : Derives .primary [.identifier name] (.var name) 1
  | call {head : Token} {name : String} {args : List Argument} (hhead : Names head name)
      (hargs : ∀ x ∈ args, Derives (.operations .sum) x.tokens x.tree x.nesting) :
      Derives .primary (head :: .openParen :: (separated args ++ [.closeParen]))
        (.call name (args.map Argument.tree)) (callNesting args)
  | group {tokens : List Token} {tree : Expr} {nesting : Nat}
      (h : Derives (.operations .sum) tokens tree nesting) :
      Derives .primary (.openParen :: (tokens ++ [.closeParen])) tree (nesting + 1)

/-- A formula is a sum. -/
abbrev Symbol.formula : Symbol :=
  .operations .sum

/-- There is no comma around a single argument. -/
theorem separated_singleton (x : Argument) : separated [x] = x.tokens := by
  simp [separated]

/-- There is a comma behind an argument that is not the last one. -/
theorem separated_cons {x : Argument} {xs : List Argument} (h : xs ≠ []) :
    separated (x :: xs) = x.tokens ++ .comma :: separated xs := by
  obtain ⟨y, ys, rfl⟩ := List.exists_cons_of_ne_nil h
  simp [separated, List.intercalate_cons_cons]

/-- The arguments start with the tokens of the first one. -/
theorem separated_eq_append (x : Argument) (xs : List Argument) :
    ∃ more, separated (x :: xs) = x.tokens ++ more := by
  by_cases h : xs = []
  · exact ⟨[], by rw [h, separated_singleton, List.append_nil]⟩
  · exact ⟨_, separated_cons h⟩

/-- The nesting of a call is positive, whatever its arguments are. -/
theorem callNesting_pos (args : List Argument) : 0 < callNesting args := by
  induction args with
  | nil => exact Nat.one_pos
  | cons x xs ih =>
    rw [callNesting]
    omega

/-- Every phrase has a leaf, so its nesting is positive. -/
theorem Derives.nesting_pos {symbol : Symbol} {tokens : List Token} {tree : Expr} {nesting : Nat}
    (h : Derives symbol tokens tree nesting) : 0 < nesting := by
  induction h with
  | operand _ ih => exact ih
  | operation _ _ _ ihleft _ => omega
  | minus _ _ => omega
  | unsigned _ ih => exact ih
  | number _ => exact Nat.one_pos
  | var _ => exact Nat.one_pos
  | call _ _ _ => exact callNesting_pos _
  | group _ _ => omega

/-- A phrase without operators outside its parentheses is a phrase of every kind. -/
theorem Derives.ofPrimary {tokens : List Token} {tree : Expr} {nesting : Nat}
    (h : Derives .primary tokens tree nesting) (symbol : Symbol) :
    Derives symbol tokens tree nesting := by
  have hpower : Derives (.operations .power) tokens tree nesting := .operand (.unsigned h)
  have hproduct : Derives (.operations .product) tokens tree nesting := .operand hpower
  cases symbol with
  | operations level =>
    cases level with
    | sum => exact .operand hproduct
    | product => exact hproduct
    | power => exact hpower
  | signed => exact .unsigned h
  | primary => exact h

/-- The operations of every level are a formula. -/
theorem Derives.toFormula {level : Level} {tokens : List Token} {tree : Expr} {nesting : Nat}
    (h : Derives (.operations level) tokens tree nesting) :
    Derives .formula tokens tree nesting := by
  cases level with
  | sum => exact h
  | product => exact .operand h
  | power => exact .operand (.operand h)

/-- A phrase has a first token. It closes no parenthesis, and in front of a plain operand it
is no minus sign. -/
theorem Derives.exists_head {symbol : Symbol} {tokens : List Token} {tree : Expr} {nesting : Nat}
    (h : Derives symbol tokens tree nesting) :
    ∃ head tail, tokens = head :: tail ∧ head ≠ .closeParen ∧
      (symbol = .primary → head ≠ .operator .minus) := by
  induction h with
  | operand _ ih =>
    obtain ⟨head, tail, rfl, hclose, -⟩ := ih
    exact ⟨head, tail, rfl, hclose, nofun⟩
  | operation _ _ _ ih _ =>
    obtain ⟨head, tail, rfl, hclose, -⟩ := ih
    exact ⟨head, _, List.cons_append, hclose, nofun⟩
  | minus _ _ => exact ⟨_, _, rfl, nofun, nofun⟩
  | unsigned _ ih =>
    obtain ⟨head, tail, rfl, hclose, -⟩ := ih
    exact ⟨head, tail, rfl, hclose, nofun⟩
  | number _ => exact ⟨_, _, rfl, nofun, nofun⟩
  | var _ => exact ⟨_, _, rfl, nofun, nofun⟩
  | call hhead _ _ => cases hhead <;> exact ⟨_, _, rfl, nofun, nofun⟩
  | group _ _ => exact ⟨_, _, rfl, nofun, nofun⟩

end Reckoner.Grammar
