import Reckoner.Proofs.Grammar
import Reckoner.Proofs.Grammar.Outcome

/-!
# Readers read phrases

Whatever a reader accepts is a phrase of the grammar: the tokens it has used derive the
tree that it gives, the height that it gives is that of the tree, and neither the height
nor the nesting is beyond what it was allowed. Each combinator of readers preserves this
(`Sound`), and the readers of operands and of formulas have it by induction on the levels
of nesting that may be opened.
-/

set_option autoImplicit false

namespace Reckoner.Grammar

open Reader

/-- The operations that a reader of the level looks for. -/
def Level.operation? : Level → Operator → Option BinaryOp
  | .sum => sumOperation?
  | .product => productOperation?
  | .power => powerOperation?

/-- Readers look for the operators of the grammar. -/
theorem Level.operation?_eq_some_iff {level : Level} {sign : Operator} {op : BinaryOp} :
    level.operation? sign = some op ↔ Denotes level sign op := by
  constructor
  · intro h
    cases level <;> cases sign <;> cases h <;> constructor
  · rintro ⟨⟩ <;> rfl

/-- The tokens in front of `rest` are a phrase with the tree, whose height is as given and
within the limit and whose nesting is within the budget. -/
def ReadsTo (limit budget : Nat) (symbol : Symbol) (tokens : List (Located Token)) (tree : Expr)
    (height : Nat) (rest : List (Located Token)) : Prop :=
  ∃ used nesting, tokens = used ++ rest ∧
    Derives symbol (used.map Located.value) tree nesting ∧ nesting ≤ budget ∧
    tree.height = height ∧ height ≤ limit

/-- The reader accepts nothing but phrases. -/
def Sound (limit budget : Nat) (symbol : Symbol) (reader : Reader Expr) : Prop :=
  ∀ tokens tree height rest, outcome (reader tokens) = .ok (tree, height, rest) →
    ReadsTo limit budget symbol tokens tree height rest

variable {limit budget : Nat}

/-- The reader that finds everything too deep accepts nothing at all. -/
theorem sound_tooDeep (symbol : Symbol) : Sound limit budget symbol (tooDeep limit) := by
  intro tokens tree height rest h
  cases h

/-- The loop of a chain extends the phrase in front of it. -/
theorem chainFrom_sound {level : Level} {operand : Reader Expr}
    (hoperand : Sound limit budget level.operand operand) {before : List (Located Token)}
    {left tree : Expr} {m height h : Nat} {tokens rest : List (Located Token)}
    (hleft : Derives (.operations level) (before.map Located.value) left m) (hm : m ≤ budget)
    (hheight : left.height = height) (hlimit : height ≤ limit)
    (hread : outcome (chainFrom limit level.operation? operand left height tokens) =
      .ok (tree, h, rest)) :
    ReadsTo limit budget (.operations level) (before ++ tokens) tree h rest := by
  -- on the number of tokens left: the loop goes on with what the operand leaves
  induction hn : tokens.length using Nat.strongRecOn generalizing before left m height tokens with
  | _ n ih =>
    rcases operation_cases level.operation? tokens with
      ⟨sign, position, after, op, rfl, hop⟩ | hend
    · rw [outcome_chainFrom_operator hop] at hread
      obtain ⟨⟨right, hr, left'⟩, hright, hchecked⟩ := bind_eq_ok_iff.1 hread
      obtain ⟨_, hcheck, hloop⟩ := bind_eq_ok_iff.1 hchecked
      obtain ⟨used, k, rfl, hderives, hk, hrh, -⟩ := hoperand _ _ _ _ hright
      have hstep : Derives (.operations level)
          ((before ++ ⟨.operator sign, position⟩ :: used).map Located.value)
          (.binary op left right) (max m k) := by
        rw [List.map_append, List.map_cons]
        exact .operation hleft (Level.operation?_eq_some_iff.1 hop) hderives
      have hlt : left'.length < n := by
        rw [← hn, List.length_cons, List.length_append]
        omega
      have := ih left'.length hlt hstep (Nat.max_le.2 ⟨hm, hk⟩)
        (by rw [Expr.height, hheight, hrh]) (checkHeight_eq_ok_iff.1 hcheck) hloop rfl
      simpa using this
    · rw [outcome_chainFrom_end hend] at hread
      cases hread
      exact ⟨before, m, rfl, hleft, hm, hheight, hlimit⟩

/-- A chain of phrases is a phrase of the level. -/
theorem sound_chain {level : Level} {operand : Reader Expr}
    (hoperand : Sound limit budget level.operand operand) :
    Sound limit budget (.operations level) (chain limit level.operation? operand) := by
  intro tokens tree height rest h
  rw [outcome_chain] at h
  obtain ⟨⟨first, hf, after⟩, hfirst, hloop⟩ := bind_eq_ok_iff.1 h
  obtain ⟨used, m, rfl, hderives, hm, hheight, hlimit⟩ := hoperand _ _ _ _ hfirst
  exact chainFrom_sound hoperand (.operand hderives) hm hheight hlimit hloop

/-- The three levels of chains over operands read formulas. -/
theorem sound_sum {operand : Reader Expr} (hoperand : Sound limit budget .signed operand) :
    Sound limit budget .formula (sum limit operand) := by
  have hpower : Sound limit budget (.operations .power)
      (chain limit powerOperation? operand) := sound_chain hoperand
  have hproduct : Sound limit budget (.operations .product)
      (chain limit productOperation? (chain limit powerOperation? operand)) := sound_chain hpower
  exact sound_chain hproduct

/-- The tokens in front of `rest` are arguments of a call, with the closing parenthesis. -/
def ReadsArguments (limit budget : Nat) (tokens : List (Located Token)) (trees : List Expr)
    (height : Nat) (rest : List (Located Token)) : Prop :=
  ∃ used args, tokens = used ++ rest ∧ args ≠ [] ∧
    used.map Located.value = separated args ++ [.closeParen] ∧
    (∀ x ∈ args, Derives .formula x.tokens x.tree x.nesting) ∧
    args.map Argument.tree = trees ∧ callNesting args ≤ budget + 1 ∧
    Expr.heightList trees = height ∧ height ≤ limit

/-- What is read as arguments are expressions with commas between them and a closing parenthesis. -/
theorem arguments_sound {expression : Reader Expr}
    (hexpression : Sound limit budget .formula expression) {tokens rest : List (Located Token)}
    {trees : List Expr} {height : Nat}
    (h : outcome (arguments expression tokens) = .ok (trees, height, rest)) :
    ReadsArguments limit budget tokens trees height rest := by
  -- on the number of tokens left, as for chains
  induction hn : tokens.length using Nat.strongRecOn generalizing trees height tokens with
  | _ n ih =>
    rw [outcome_arguments] at h
    obtain ⟨⟨first, hf, after⟩, hfirst, hafter⟩ := bind_eq_ok_iff.1 h
    obtain ⟨used, k, rfl, hderives, hk, hheight, hlimit⟩ := hexpression _ _ _ _ hfirst
    cases after with
    | nil => cases hafter
    | cons found left =>
      obtain ⟨token, position⟩ := found
      cases token with
      | comma =>
        obtain ⟨⟨more, hmore, left'⟩, hread, heq⟩ := bind_eq_ok_iff.1 hafter
        cases heq
        have hlt : left.length < n := by
          rw [← hn, List.length_append, List.length_cons]
          omega
        obtain ⟨used', args, rfl, hne, htokens, hargs, rfl, hnesting, hheight', hlimit'⟩ :=
          ih left.length hlt hread rfl
        refine ⟨used ++ ⟨.comma, position⟩ :: used', ⟨used.map Located.value, first, k⟩ :: args,
          by simp, List.cons_ne_nil _ _, ?_, ?_, rfl, ?_, ?_, ?_⟩
        · rw [List.map_append, List.map_cons, htokens, separated_cons hne]
          simp
        · intro x hx
          rcases List.mem_cons.1 hx with rfl | hx
          · exact hderives
          · exact hargs x hx
        · exact Nat.max_le.2 ⟨Nat.succ_le_succ hk, hnesting⟩
        · rw [Expr.heightList, hheight, hheight']
        · exact Nat.max_le.2 ⟨hlimit, hlimit'⟩
      | closeParen =>
        cases hafter
        refine ⟨used ++ [⟨.closeParen, position⟩], [⟨used.map Located.value, first, k⟩],
          by simp, List.cons_ne_nil _ _, ?_, ?_, rfl, ?_, ?_, hlimit⟩
        · rw [List.map_append, separated_singleton]
          rfl
        · intro x hx
          rw [List.mem_singleton.1 hx]
          exact hderives
        · exact Nat.max_le.2 ⟨Nat.succ_le_succ hk, Nat.le_add_left _ _⟩
        · simp [Expr.heightList, hheight]
      | _ => cases hafter

/-- What is read as a call is one, of the name in front of it. -/
theorem call_sound {expression : Reader Expr}
    (hexpression : Sound limit budget .formula expression) (hlimit : 0 < limit) {head : Token}
    {name : String} (hhead : Names head name) {position position' : Nat}
    {tokens rest : List (Located Token)} {tree : Expr} {height : Nat}
    (h : outcome (call limit expression name tokens) = .ok (tree, height, rest)) :
    ReadsTo limit (budget + 1) .primary (⟨head, position⟩ :: ⟨.openParen, position'⟩ :: tokens)
      tree height rest := by
  rcases starts_cases .closeParen tokens with ⟨closing, rest', rfl⟩ | hargument
  · cases h
    have hderives : Derives .primary [head, .openParen, .closeParen] (.call name []) 1 :=
      @Derives.call head name [] hhead (by simp)
    exact ⟨[⟨head, position⟩, ⟨.openParen, position'⟩, ⟨.closeParen, closing⟩], 1, rfl,
      hderives, Nat.le_add_left _ _, rfl, hlimit⟩
  · rw [outcome_call hargument] at h
    obtain ⟨⟨trees, ha, after⟩, hread, hchecked⟩ := bind_eq_ok_iff.1 h
    obtain ⟨_, hcheck, heq⟩ := bind_eq_ok_iff.1 hchecked
    cases heq
    obtain ⟨used, args, rfl, -, htokens, hargs, rfl, hnesting, hheight, -⟩ :=
      arguments_sound hexpression hread
    refine ⟨⟨head, position⟩ :: ⟨.openParen, position'⟩ :: used, callNesting args, rfl, ?_,
      hnesting, by rw [Expr.height, hheight], checkHeight_eq_ok_iff.1 hcheck⟩
    rw [List.map_cons, List.map_cons, htokens]
    exact .call hhead hargs

/-- What is read as a group is a formula in parentheses. -/
theorem group_sound {expression : Reader Expr}
    (hexpression : Sound limit budget .formula expression) {position : Nat}
    {tokens rest : List (Located Token)} {tree : Expr} {height : Nat}
    (h : outcome (group expression tokens) = .ok (tree, height, rest)) :
    ReadsTo limit (budget + 1) .primary (⟨.openParen, position⟩ :: tokens) tree height rest := by
  rw [outcome_group] at h
  obtain ⟨⟨inner, hi, after⟩, hread, hafter⟩ := bind_eq_ok_iff.1 h
  obtain ⟨used, k, rfl, hderives, hk, hheight, hlimit⟩ := hexpression _ _ _ _ hread
  cases after with
  | nil => cases hafter
  | cons found left =>
    obtain ⟨token, closing⟩ := found
    cases token with
    | closeParen =>
      cases hafter
      refine ⟨⟨.openParen, position⟩ :: (used ++ [⟨.closeParen, closing⟩]), k + 1, by simp, ?_,
        Nat.succ_le_succ hk, hheight, hlimit⟩
      rw [List.map_cons, List.map_append]
      exact .group hderives
    | _ => cases hafter

/-- What is read as a plain operand is one, if the expressions inside of it are formulas. -/
theorem sound_primary {expression : Reader Expr} (endPosition : Nat) (hlimit : 0 < limit)
    (hexpression : Sound limit budget .formula expression) :
    Sound limit (budget + 1) .primary (primary limit endPosition expression) := by
  intro tokens tree height rest h
  cases tokens with
  | nil => cases h
  | cons found after =>
    obtain ⟨token, position⟩ := found
    cases token with
    | number value =>
      cases h
      exact ⟨[⟨.number value, position⟩], 1, rfl, .number value, Nat.le_add_left _ _, rfl, hlimit⟩
    | identifier name =>
      rcases starts_cases .openParen after with ⟨position', after', rfl⟩ | hvar
      · rw [outcome_primary_identifier_call] at h
        exact call_sound hexpression hlimit (.identifier name) h
      · rw [outcome_primary_var hvar] at h
        cases h
        exact ⟨[⟨.identifier name, position⟩], 1, rfl, .var name, Nat.le_add_left _ _, rfl, hlimit⟩
    | member name =>
      rcases starts_cases .openParen after with ⟨position', after', rfl⟩ | hmember
      · rw [outcome_primary_member_call] at h
        exact call_sound hexpression hlimit (.member name) h
      · rw [outcome_primary_member hmember] at h
        cases h
    | openParen =>
      rw [outcome_primary_group] at h
      exact group_sound hexpression h
    | _ => cases h

/-- What is read as an operand is one, with one level less for what is behind a minus sign. -/
theorem sound_signed {inner plain : Reader Expr} (hinner : Sound limit budget .signed inner)
    (hplain : Sound limit (budget + 1) .primary plain) :
    Sound limit (budget + 1) .signed (signed limit inner plain) := by
  intro tokens tree height rest h
  rcases starts_cases (.operator .minus) tokens with ⟨position, after, rfl⟩ | hunsigned
  · rw [outcome_signed_minus] at h
    obtain ⟨⟨operand, ho, left⟩, hread, hchecked⟩ := bind_eq_ok_iff.1 h
    obtain ⟨_, hcheck, heq⟩ := bind_eq_ok_iff.1 hchecked
    cases heq
    obtain ⟨used, k, rfl, hderives, hk, hheight, -⟩ := hinner _ _ _ _ hread
    exact ⟨⟨.operator .minus, position⟩ :: used, k + 1, rfl, .minus hderives,
      Nat.succ_le_succ hk, by rw [Expr.height, hheight], checkHeight_eq_ok_iff.1 hcheck⟩
  · rw [outcome_signed_plain hunsigned] at h
    obtain ⟨used, k, rfl, hderives, hk, hheight, hlimit⟩ := hplain _ _ _ _ h
    exact ⟨used, k, rfl, .unsigned hderives, hk, hheight, hlimit⟩

/-- Operands are read soundly, however many levels of nesting may be opened. -/
theorem sound_unary (endPosition : Nat) (hlimit : 0 < limit) (depth : Nat) :
    Sound limit (depth + 1) .signed (unary limit endPosition depth) := by
  induction depth with
  | zero =>
    exact sound_signed (sound_tooDeep _) (sound_primary endPosition hlimit (sound_tooDeep _))
  | succ depth ih =>
    exact sound_signed ih (sound_primary endPosition hlimit (sound_sum ih))

/-- With some levels that may be opened, what is read as an expression is a formula. -/
theorem sound_expression (endPosition : Nat) (hlimit : 0 < limit) (depth : Nat) :
    Sound limit depth .formula (expression limit endPosition depth) := by
  cases depth with
  | zero => exact sound_tooDeep _
  | succ depth => exact sound_sum (sound_unary endPosition hlimit depth)

end Reckoner.Grammar
