import Reckoner.Proofs.Grammar.Soundness

/-!
# Phrases are read

A phrase of the grammar with tokens behind it that cannot belong to it is read to its end,
and its tree is what is given, provided that height and nesting are allowed. If one of them
is not, reading fails, and it fails because the formula is too deep, not for another reason
(`Complete`). The left recursion of the grammar and the loop of a chain meet in
`chain_complete`: after any phrase of a level the loop stands behind it with its tree in hand.
-/

set_option autoImplicit false

namespace Reckoner.Grammar

open Reader

/-- A token that may belong to a phrase although the phrase could end in front of it. -/
def Symbol.continuedBy : Symbol → Token → Bool
  | _, .openParen => true
  | .operations .sum, .operator _ => true
  | .operations .product, .operator sign =>
    (productOperation? sign).isSome || (powerOperation? sign).isSome
  | .operations .power, .operator sign => (powerOperation? sign).isSome
  | _, _ => false

/-- A phrase in front of the tokens ends there. -/
def Ends (symbol : Symbol) (tokens : List (Located Token)) : Prop :=
  ∀ token ∈ tokens.head?, symbol.continuedBy token.value = false

/-- Every phrase ends where the tokens end. -/
theorem ends_nil (symbol : Symbol) : Ends symbol [] := by
  simp [Ends]

/-- A phrase ends in front of a token that does not continue it. -/
theorem ends_cons {symbol : Symbol} {value : Token} {position : Nat}
    {rest : List (Located Token)} :
    Ends symbol (⟨value, position⟩ :: rest) ↔ symbol.continuedBy value = false := by
  simp [Ends]

/-- Every phrase ends in front of a closing parenthesis. -/
theorem ends_closeParen (symbol : Symbol) (position : Nat) (rest : List (Located Token)) :
    Ends symbol (⟨.closeParen, position⟩ :: rest) := by
  rw [ends_cons]
  rcases symbol with ⟨⟨⟩⟩ | _ | _ <;> rfl

/-- Every phrase ends in front of a comma. -/
theorem ends_comma (symbol : Symbol) (position : Nat) (rest : List (Located Token)) :
    Ends symbol (⟨.comma, position⟩ :: rest) := by
  rw [ends_cons]
  rcases symbol with ⟨⟨⟩⟩ | _ | _ <;> rfl

/-- Where the operations of a level end, their last operand ends. -/
theorem Ends.operand {level : Level} {tokens : List (Located Token)}
    (h : Ends (.operations level) tokens) : Ends level.operand tokens := by
  intro token htoken
  have := h token htoken
  cases level <;> cases hvalue : token.value <;>
    simp_all [Symbol.continuedBy, Level.operand]

/-- An operand ends in front of an operator of its level. -/
theorem ends_operator {level : Level} {sign : Operator} {op : BinaryOp}
    (h : Denotes level sign op) (position : Nat) (rest : List (Located Token)) :
    Ends level.operand (⟨.operator sign, position⟩ :: rest) := by
  rw [ends_cons]
  cases h <;> rfl

/-- Where the operations of a level end, no operator of that level follows. -/
theorem Ends.operation?_eq_none {level : Level} {tokens : List (Located Token)}
    (h : Ends (.operations level) tokens) (sign : Operator) (position : Nat)
    (rest : List (Located Token)) (htokens : tokens = ⟨.operator sign, position⟩ :: rest) :
    level.operation? sign = none := by
  subst htokens
  rw [ends_cons] at h
  cases level <;> cases sign <;> simp_all [Symbol.continuedBy, Level.operation?,
    productOperation?, powerOperation?]

/-- Minus signs stand in front, so a signed operand ends where a plain one does. -/
theorem Ends.primary {tokens : List (Located Token)} (h : Ends .signed tokens) :
    Ends .primary tokens := by
  intro token htoken
  have := h token htoken
  cases hvalue : token.value <;> simp_all [Symbol.continuedBy]

/-- No phrase ends in front of an opening parenthesis. -/
theorem Ends.ne_openParen {symbol : Symbol} {tokens : List (Located Token)} (h : Ends symbol tokens)
    (position : Nat) (rest : List (Located Token)) :
    tokens ≠ ⟨.openParen, position⟩ :: rest := by
  rintro rfl
  rw [ends_cons] at h
  rcases symbol with ⟨⟨⟩⟩ | _ | _ <;> cases h

/-- An outcome that is given only if the height and the nesting are allowed. -/
def allowed {α : Type} (limit budget height nesting : Nat)
    (outcome : Except SyntaxError α) : Except SyntaxError α :=
  if height ≤ limit ∧ nesting ≤ budget then outcome else .error (.tooDeep limit)

section Allowed

variable {α β : Type} {limit budget budget' height height' nesting nesting' : Nat}

/-- Only whether the bounds are kept matters for the outcome. -/
theorem allowed_congr {outcome : Except SyntaxError α}
    (h : height ≤ limit ∧ nesting ≤ budget ↔ height' ≤ limit ∧ nesting' ≤ budget') :
    allowed limit budget height nesting outcome =
      allowed limit budget' height' nesting' outcome := by
  simp only [allowed, h]

/-- Two checks are one of the greater height and the deeper nesting. -/
theorem allowed_allowed {outcome : Except SyntaxError α} :
    allowed limit budget height nesting (allowed limit budget height' nesting' outcome) =
      allowed limit budget (max height height') (max nesting nesting') outcome := by
  by_cases h : height ≤ limit ∧ nesting ≤ budget
  · rw [allowed, if_pos h]
    exact allowed_congr (by omega)
  · rw [allowed, if_neg h, allowed, if_neg (by omega)]

/-- One level of nesting more needs one more to be allowed. -/
theorem allowed_deeper {outcome : Except SyntaxError α} :
    allowed limit budget height nesting outcome =
      allowed limit (budget + 1) height (nesting + 1) outcome :=
  allowed_congr (by omega)

/-- What follows a value that is given only if allowed is given only if allowed. -/
theorem allowed_bind {a : α} {f : α → Except SyntaxError β} :
    allowed limit budget height nesting (.ok a) >>= f =
      allowed limit budget height nesting (f a) := by
  unfold allowed
  split <;> rfl

/-- A check of the height is an allowance too. -/
theorem checkHeight_bind (budget : Nat) {outcome : Except SyntaxError α} :
    (do
      checkHeight limit height
      outcome) = allowed limit budget height 0 outcome := by
  unfold allowed
  by_cases h : height ≤ limit
  · rw [checkHeight_of_le h, if_pos ⟨h, Nat.zero_le _⟩, ok_bind]
  · rw [checkHeight_of_lt (Nat.lt_of_not_le h), if_neg (by omega), error_bind]

end Allowed

/-- The reader reads every phrase to its end and gives its tree, or refuses it as too deep. -/
def Complete (limit budget : Nat) (symbol : Symbol) (reader : Reader Expr) : Prop :=
  ∀ tokens rest tree nesting, Derives symbol (tokens.map Located.value) tree nesting →
    Ends symbol rest → outcome (reader (tokens ++ rest)) =
      allowed limit budget tree.height nesting (.ok (tree, tree.height, rest))

variable {limit budget : Nat}

/-- With no levels left every phrase is too deep. -/
theorem complete_tooDeep (symbol : Symbol) : Complete limit 0 symbol (tooDeep limit) := by
  intro tokens rest tree nesting h _
  have := h.nesting_pos
  rw [allowed, if_neg (by omega)]
  rfl

/-- Behind a phrase of its level the loop of a chain has the tree of the phrase in hand. -/
theorem chain_complete {level : Level} {operand : Reader Expr}
    (hoperand : Complete limit budget level.operand operand) {tokens rest : List (Located Token)}
    {tree : Expr} {nesting : Nat}
    (h : Derives (.operations level) (tokens.map Located.value) tree nesting)
    (hends : Ends level.operand rest) :
    outcome (chain limit level.operation? operand (tokens ++ rest)) =
      allowed limit budget tree.height nesting
        (outcome (chainFrom limit level.operation? operand tree tree.height rest)) := by
  generalize hsymbol : Symbol.operations level = symbol at h
  generalize htokens : tokens.map Located.value = values at h
  induction h generalizing tokens rest with
  | operand h _ =>
    cases hsymbol
    subst htokens
    rw [outcome_chain, hoperand _ _ _ _ h hends, allowed_bind]
  | @operation _ sign op left right a b m n _ hsign hright ihleft _ =>
    cases hsymbol
    obtain ⟨before, after, rfl, rfl, hafter⟩ := List.map_eq_append_iff.1 htokens
    obtain ⟨⟨_, position⟩, after, rfl, rfl, rfl⟩ := List.map_eq_cons_iff.1 hafter
    have hop := Level.operation?_eq_some_iff.2 hsign
    rw [List.append_assoc, List.cons_append,
      ihleft (ends_operator hsign position _) rfl rfl, outcome_chainFrom_operator hop,
      hoperand _ _ _ _ hright hends, allowed_bind]
    simp only [checkHeight_bind budget, allowed_allowed]
    rw [Expr.height]
    exact allowed_congr (by omega)
  | _ => cases hsymbol

/-- A chain of operands reads the operations of its level if the reader for operands is complete. -/
theorem complete_chain {level : Level} {operand : Reader Expr}
    (hoperand : Complete limit budget level.operand operand) :
    Complete limit budget (.operations level) (chain limit level.operation? operand) := by
  intro tokens rest tree nesting h hends
  rw [chain_complete hoperand h hends.operand, outcome_chainFrom_end hends.operation?_eq_none]

/-- The reader for sums reads formulas if the reader for signed operands is complete. -/
theorem complete_sum {operand : Reader Expr} (hoperand : Complete limit budget .signed operand) :
    Complete limit budget .formula (sum limit operand) := by
  have hpower : Complete limit budget (.operations .power)
      (chain limit powerOperation? operand) := complete_chain hoperand
  have hproduct : Complete limit budget (.operations .product)
      (chain limit productOperation? (chain limit powerOperation? operand)) :=
    complete_chain hpower
  exact complete_chain hproduct

/-- Arguments that are separated by commas are read up to the closing parenthesis. -/
theorem arguments_complete {expression : Reader Expr}
    (hexpression : Complete limit budget .formula expression) {args : List Argument}
    (hne : args ≠ []) (hargs : ∀ x ∈ args, Derives .formula x.tokens x.tree x.nesting)
    {tokens rest : List (Located Token)}
    (htokens : tokens.map Located.value = separated args ++ [.closeParen]) :
    outcome (arguments expression (tokens ++ rest)) =
      allowed limit (budget + 1) (Expr.heightList (args.map Argument.tree)) (callNesting args)
        (.ok (args.map Argument.tree, Expr.heightList (args.map Argument.tree), rest)) := by
  induction args generalizing tokens with
  | nil => exact absurd rfl hne
  | cons x xs ih =>
    have hx := hargs x (List.mem_cons_self ..)
    have hxs : ∀ y ∈ xs, Derives .formula y.tokens y.tree y.nesting := by
      intro y hy
      exact hargs y (List.mem_cons_of_mem _ hy)
    -- the last argument ends at the closing parenthesis, the others end at their comma
    by_cases hlast : xs = []
    · subst hlast
      rw [separated_singleton] at htokens
      obtain ⟨before, after, rfl, hbefore, hafter⟩ := List.map_eq_append_iff.1 htokens
      obtain ⟨⟨_, position⟩, rfl, rfl⟩ := List.map_eq_singleton_iff.1 hafter
      rw [← hbefore] at hx
      rw [List.append_assoc, List.singleton_append, outcome_arguments,
        hexpression _ _ _ _ hx (ends_closeParen _ position rest), allowed_bind]
      have hheight : Expr.heightList [x.tree] = x.tree.height := by simp [Expr.heightList]
      simp only [argumentsAfter, callNesting, List.map_cons, List.map_nil, hheight]
      exact allowed_congr (by omega)
    · rw [separated_cons hlast, List.append_assoc] at htokens
      obtain ⟨before, after, rfl, hbefore, hafter⟩ := List.map_eq_append_iff.1 htokens
      obtain ⟨⟨_, position⟩, after, rfl, rfl, hmore⟩ := List.map_eq_cons_iff.1 hafter
      rw [← hbefore] at hx
      rw [List.append_assoc, List.cons_append, outcome_arguments,
        hexpression _ _ _ _ hx (ends_comma _ position _), allowed_bind]
      simp only [argumentsAfter]
      rw [ih hlast hxs hmore, allowed_bind, List.map_cons, Expr.heightList, callNesting,
        allowed_deeper, allowed_allowed]
      rfl

/-- Arguments do not start with the parenthesis that closes their list. -/
theorem ne_closeParen_of_separated {args : List Argument} (hne : args ≠ [])
    (hargs : ∀ x ∈ args, Derives .formula x.tokens x.tree x.nesting)
    {tokens rest : List (Located Token)}
    (htokens : tokens.map Located.value = separated args ++ [.closeParen]) (position : Nat)
    (after : List (Located Token)) : tokens ++ rest ≠ ⟨.closeParen, position⟩ :: after := by
  obtain ⟨x, xs, rfl⟩ := List.exists_cons_of_ne_nil hne
  obtain ⟨more, hmore⟩ := separated_eq_append x xs
  obtain ⟨head, tail, hx, hclose, -⟩ := (hargs x (List.mem_cons_self ..)).exists_head
  rw [hmore, hx, List.cons_append, List.cons_append] at htokens
  obtain ⟨first, left, rfl, rfl, -⟩ := List.map_eq_cons_iff.1 htokens
  intro heq
  cases heq
  exact hclose rfl

/-- A call is read with all of its arguments, or none. -/
theorem call_complete {expression : Reader Expr}
    (hexpression : Complete limit budget .formula expression) (hlimit : 0 < limit) (name : String)
    {args : List Argument} (hargs : ∀ x ∈ args, Derives .formula x.tokens x.tree x.nesting)
    {tokens rest : List (Located Token)}
    (htokens : tokens.map Located.value = separated args ++ [.closeParen]) :
    outcome (call limit expression name (tokens ++ rest)) =
      allowed limit (budget + 1) (Expr.call name (args.map Argument.tree)).height
        (callNesting args) (.ok (.call name (args.map Argument.tree),
          (Expr.call name (args.map Argument.tree)).height, rest)) := by
  by_cases hne : args = []
  · subst hne
    obtain ⟨⟨_, position⟩, rfl, rfl⟩ := List.map_eq_singleton_iff.1 htokens
    have hok : (Expr.call name []).height ≤ limit ∧ callNesting [] ≤ budget + 1 :=
      ⟨hlimit, Nat.le_add_left _ _⟩
    rw [List.map_nil, allowed, if_pos hok]
    rfl
  · have hargument : ∀ position after, tokens ++ rest ≠ ⟨.closeParen, position⟩ :: after :=
      ne_closeParen_of_separated hne hargs htokens
    rw [outcome_call hargument, arguments_complete hexpression hne hargs htokens, allowed_bind]
    simp only [checkHeight_bind (budget + 1), allowed_allowed]
    rw [Expr.height]
    exact allowed_congr (by omega)

/-- A formula in parentheses is read as it is, one level deeper. -/
theorem group_complete {expression : Reader Expr}
    (hexpression : Complete limit budget .formula expression) {tokens rest : List (Located Token)}
    {tree : Expr} {nesting position : Nat}
    (h : Derives .formula (tokens.map Located.value) tree nesting) :
    outcome (group expression (tokens ++ ⟨.closeParen, position⟩ :: rest)) =
      allowed limit (budget + 1) tree.height (nesting + 1) (.ok (tree, tree.height, rest)) := by
  rw [outcome_group, hexpression _ _ _ _ h (ends_closeParen _ position rest), allowed_bind,
    allowed_deeper]
  rfl

/-- The reader for primaries is complete if the one for expressions is. -/
theorem complete_primary {expression : Reader Expr} (endPosition : Nat) (hlimit : 0 < limit)
    (hexpression : Complete limit budget .formula expression) :
    Complete limit (budget + 1) .primary (primary limit endPosition expression) := by
  intro tokens rest tree nesting h hends
  have hleaf : 1 ≤ limit ∧ 1 ≤ budget + 1 := ⟨hlimit, Nat.le_add_left _ _⟩
  generalize hvalues : tokens.map Located.value = values at h
  cases h with
  | number value =>
    obtain ⟨⟨_, position⟩, rfl, rfl⟩ := List.map_eq_singleton_iff.1 hvalues
    rw [Expr.height, allowed, if_pos hleaf]
    rfl
  | var name =>
    obtain ⟨⟨_, position⟩, rfl, rfl⟩ := List.map_eq_singleton_iff.1 hvalues
    rw [List.singleton_append, outcome_primary_var hends.ne_openParen, Expr.height, allowed,
      if_pos hleaf]
  | call hhead hargs =>
    obtain ⟨⟨_, position⟩, after, rfl, rfl, hafter⟩ := List.map_eq_cons_iff.1 hvalues
    obtain ⟨⟨_, position'⟩, after, rfl, rfl, htokens⟩ := List.map_eq_cons_iff.1 hafter
    cases hhead with
    | identifier name =>
      rw [List.cons_append, List.cons_append, outcome_primary_identifier_call]
      exact call_complete hexpression hlimit _ hargs htokens
    | member name =>
      rw [List.cons_append, List.cons_append, outcome_primary_member_call]
      exact call_complete hexpression hlimit _ hargs htokens
  | group h =>
    obtain ⟨⟨_, position⟩, after, rfl, rfl, hafter⟩ := List.map_eq_cons_iff.1 hvalues
    obtain ⟨inner, closing, rfl, rfl, hclosing⟩ := List.map_eq_append_iff.1 hafter
    obtain ⟨⟨_, position'⟩, rfl, rfl⟩ := List.map_eq_singleton_iff.1 hclosing
    rw [List.cons_append, outcome_primary_group, List.append_assoc, List.singleton_append]
    exact group_complete hexpression h

/-- An operand with minus signs is read, each of them one level deeper, and one without as a
primary. -/
theorem complete_signed {inner plain : Reader Expr} (hinner : Complete limit budget .signed inner)
    (hplain : Complete limit (budget + 1) .primary plain) :
    Complete limit (budget + 1) .signed (signed limit inner plain) := by
  intro tokens rest tree nesting h hends
  generalize hvalues : tokens.map Located.value = values at h
  cases h with
  | minus h =>
    obtain ⟨⟨_, position⟩, after, rfl, rfl, rfl⟩ := List.map_eq_cons_iff.1 hvalues
    rw [List.cons_append, outcome_signed_minus, hinner _ _ _ _ h hends, allowed_bind]
    simp only [checkHeight_bind budget, allowed_allowed]
    rw [Expr.height]
    exact allowed_congr (by omega)
  | unsigned h =>
    subst hvalues
    obtain ⟨head, tail, hhead, -, hminus⟩ := h.exists_head
    obtain ⟨first, left, rfl, rfl, -⟩ := List.map_eq_cons_iff.1 hhead
    rw [outcome_signed_plain]
    · exact hplain _ _ _ _ h hends.primary
    · intro position after heq
      cases heq
      exact hminus rfl rfl

/-- Operands are read completely, however many levels of nesting may be opened. -/
theorem complete_unary (endPosition : Nat) (hlimit : 0 < limit) (depth : Nat) :
    Complete limit (depth + 1) .signed (unary limit endPosition depth) := by
  induction depth with
  | zero =>
    exact complete_signed (complete_tooDeep _)
      (complete_primary endPosition hlimit (complete_tooDeep _))
  | succ depth ih =>
    exact complete_signed ih (complete_primary endPosition hlimit (complete_sum ih))

/-- The reader for expressions is complete at every number of levels. -/
theorem complete_expression (endPosition : Nat) (hlimit : 0 < limit) (depth : Nat) :
    Complete limit depth .formula (expression limit endPosition depth) := by
  cases depth with
  | zero => exact complete_tooDeep _
  | succ depth => exact complete_sum (complete_unary endPosition hlimit depth)

end Reckoner.Grammar
