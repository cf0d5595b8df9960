import Mathlib.Control.Monad.Basic
import Reckoner.Proofs.Grammar.Recognition

/-!
# What the depth limit changes

A limit only cuts readings short: with a limit that is no greater, the same tokens are too deep
or are read to exactly the same end, be it a tree or another error (`CutsShort`). Every reader
has this from the readers that it calls, since a step that was not cut short hands on the same
value, and a check of the height that succeeds gives nothing.

A limit above the number of tokens changes nothing. To open a level takes a token, and no tree
is higher than it has tokens (`Derives.height_le_length`), so that a reader with as many levels
to open as there are tokens never finds them too deep (`Roomy`).
-/

set_option autoImplicit false

namespace Reckoner

namespace Grammar

open Reader

/-! ## Greater limits -/

/-- The outcome is the other one, unless the limit has cut it short. -/
def IsCut (limit : Nat) {α : Type} (outcome other : Except SyntaxError α) : Prop :=
  outcome = .error (.tooDeep limit) ∨ outcome = other

section IsCut

variable {limit limit' : Nat} {α β : Type}

/-- An outcome is itself. -/
theorem IsCut.refl (limit : Nat) (x : Except SyntaxError α) : IsCut limit x x :=
  .inr rfl

/-- A refusal for the depth is any outcome cut short. -/
theorem isCut_tooDeep (limit : Nat) (x : Except SyntaxError α) :
    IsCut limit (.error (.tooDeep limit)) x :=
  .inl rfl

/-- Behind a step that was not cut short there is the same value to go on with. -/
theorem IsCut.bind {x y : Except SyntaxError α} {f g : α → Except SyntaxError β}
    (h : IsCut limit x y) (hnext : ∀ a, x = .ok a → IsCut limit (f a) (g a)) :
    IsCut limit (x >>= f) (y >>= g) := by
  rcases h with rfl | rfl
  · exact isCut_tooDeep limit _
  · cases x with
    | error e => exact .refl limit _
    | ok a => exact hnext a rfl

/-- A height is refused under the smaller limit, or checked alike under both. -/
theorem isCut_checkHeight (hle : limit ≤ limit') (height : Nat) :
    IsCut limit (checkHeight limit height) (checkHeight limit' height) := by
  by_cases h : height ≤ limit
  · rw [checkHeight_of_le h, checkHeight_of_le (Nat.le_trans h hle)]
    exact .refl limit _
  · rw [checkHeight_of_lt (Nat.lt_of_not_le h)]
    exact isCut_tooDeep limit _

end IsCut

/-- On all tokens the reader does what the other does, unless its limit cuts it short. -/
def CutsShort (limit : Nat) (reader other : Reader Expr) : Prop :=
  ∀ tokens, IsCut limit (outcome (reader tokens)) (outcome (other tokens))

section CutsShort

variable {limit limit' : Nat}

/-- A reader that refuses everything cuts any other one short. -/
theorem cutsShort_tooDeep (limit : Nat) (other : Reader Expr) :
    CutsShort limit (tooDeep limit) other := by
  intro tokens
  exact isCut_tooDeep limit _

/-- The rest of a chain is cut short, or read as under the greater limit. -/
theorem cutsShort_chainFrom (hle : limit ≤ limit') (level : Level) {operand operand' : Reader Expr}
    (hoperand : CutsShort limit operand operand') (left : Expr) (height : Nat)
    (tokens : List (Located Token)) :
    IsCut limit (outcome (chainFrom limit level.operation? operand left height tokens))
      (outcome (chainFrom limit' level.operation? operand' left height tokens)) := by
  -- on the number of tokens left: the loop goes on with what the operand leaves
  obtain ⟨n, hn⟩ : ∃ n, tokens.length = n := ⟨_, rfl⟩
  induction n using Nat.strongRecOn generalizing left height tokens with
  | _ n ih =>
    rcases operation_cases level.operation? tokens with
      ⟨sign, position, rest, op, rfl, hop⟩ | hend
    · rw [outcome_chainFrom_operator hop, outcome_chainFrom_operator hop]
      apply (hoperand rest).bind
      rintro ⟨right, h, after⟩ hright
      apply (isCut_checkHeight hle _).bind
      intro _ _
      have hlt := length_lt_of_outcome hright
      rw [List.length_cons] at hn
      exact ih after.length (by omega) _ _ _ rfl
    · rw [outcome_chainFrom_end hend, outcome_chainFrom_end hend]
      exact .refl limit _

/-- A chain is cut short where its operands or its height are. -/
theorem cutsShort_chain (hle : limit ≤ limit') (level : Level) {operand operand' : Reader Expr}
    (hoperand : CutsShort limit operand operand') :
    CutsShort limit (chain limit level.operation? operand)
      (chain limit' level.operation? operand') := by
  intro tokens
  rw [outcome_chain, outcome_chain]
  apply (hoperand tokens).bind
  rintro ⟨first, h, rest⟩ -
  exact cutsShort_chainFrom hle level hoperand first h rest

/-- A sum is cut short where the operands of its powers or the height are. -/
theorem cutsShort_sum (hle : limit ≤ limit') {operand operand' : Reader Expr}
    (hoperand : CutsShort limit operand operand') :
    CutsShort limit (sum limit operand) (sum limit' operand') := by
  have hpower := cutsShort_chain hle .power hoperand
  have hproduct := cutsShort_chain hle .product hpower
  exact cutsShort_chain hle .sum hproduct

section Primary

variable {expression expression' : Reader Expr}

/-- Arguments are cut short where one of them is. -/
theorem cutsShort_arguments (hexpression : CutsShort limit expression expression')
    (tokens : List (Located Token)) :
    IsCut limit (outcome (arguments expression tokens))
      (outcome (arguments expression' tokens)) := by
  -- on the number of tokens left, as for chains
  obtain ⟨n, hn⟩ : ∃ n, tokens.length = n := ⟨_, rfl⟩
  induction n using Nat.strongRecOn generalizing tokens with
  | _ n ih =>
    rw [outcome_arguments, outcome_arguments]
    apply (hexpression tokens).bind
    rintro ⟨first, h, after⟩ hfirst
    have hlt := length_lt_of_outcome hfirst
    cases after with
    | nil => exact .refl limit _
    | cons found rest =>
      obtain ⟨token, position⟩ := found
      cases token with
      | comma =>
        rw [List.length_cons] at hlt
        apply (ih rest.length (by omega) rest rfl).bind
        intro more _
        exact .refl limit _
      | _ => exact .refl limit _

/-- A call is cut short where its arguments or its height are. -/
theorem cutsShort_call (hle : limit ≤ limit') (hexpression : CutsShort limit expression expression')
    (name : String) :
    CutsShort limit (call limit expression name) (call limit' expression' name) := by
  intro tokens
  rcases starts_cases .closeParen tokens with ⟨position, rest, rfl⟩ | hargument
  · exact .refl limit _
  · rw [outcome_call hargument, outcome_call hargument]
    apply (cutsShort_arguments hexpression tokens).bind
    rintro ⟨args, h, rest⟩ -
    apply (isCut_checkHeight hle _).bind
    intro _ _
    exact .refl limit _

/-- A group is cut short where the formula in it is. -/
theorem cutsShort_group (hexpression : CutsShort limit expression expression') :
    CutsShort limit (group expression) (group expression') := by
  intro tokens
  rw [outcome_group, outcome_group]
  apply (hexpression tokens).bind
  intro inner _
  exact .refl limit _

/-- A primary is cut short where a formula in it is. -/
theorem cutsShort_primary (hle : limit ≤ limit') (endPosition : Nat)
    (hexpression : CutsShort limit expression expression') :
    CutsShort limit (primary limit endPosition expression)
      (primary limit' endPosition expression') := by
  intro tokens
  cases tokens with
  | nil => exact .refl limit _
  | cons found rest =>
    obtain ⟨token, position⟩ := found
    cases token with
    | identifier name =>
      rcases starts_cases .openParen rest with ⟨position', rest', rfl⟩ | hvar
      · rw [outcome_primary_identifier_call, outcome_primary_identifier_call]
        exact cutsShort_call hle hexpression name rest'
      · rw [outcome_primary_var hvar, outcome_primary_var hvar]
        exact .refl limit _
    | member name =>
      rcases starts_cases .openParen rest with ⟨position', rest', rfl⟩ | hmember
      · rw [outcome_primary_member_call, outcome_primary_member_call]
        exact cutsShort_call hle hexpression name rest'
      · rw [outcome_primary_member hmember, outcome_primary_member hmember]
        exact .refl limit _
    | openParen =>
      rw [outcome_primary_group, outcome_primary_group]
      exact cutsShort_group hexpression rest
    | _ => exact .refl limit _

end Primary

/-- A signed operand is cut short behind its minus sign, at its height, or where a primary is. -/
theorem cutsShort_signed (hle : limit ≤ limit') {inner inner' plain plain' : Reader Expr}
    (hinner : CutsShort limit inner inner') (hplain : CutsShort limit plain plain') :
    CutsShort limit (signed limit inner plain) (signed limit' inner' plain') := by
  intro tokens
  rcases starts_cases (.operator .minus) tokens with ⟨position, rest, rfl⟩ | hunsigned
  · rw [outcome_signed_minus, outcome_signed_minus]
    apply (hinner rest).bind
    rintro ⟨operand, h, after⟩ -
    apply (isCut_checkHeight hle _).bind
    intro _ _
    exact .refl limit _
  · rw [outcome_signed_plain hunsigned, outcome_signed_plain hunsigned]
    exact hplain tokens

/-- Operands are cut short by a limit, or by a number of levels, that is no greater. -/
theorem cutsShort_unary (hle : limit ≤ limit') (endPosition : Nat) {depth depth' : Nat}
    (hdepth : depth ≤ depth') :
    CutsShort limit (unary limit endPosition depth) (unary limit' endPosition depth') := by
  induction depth generalizing depth' with
  | zero =>
    cases depth' <;>
      exact cutsShort_signed hle (cutsShort_tooDeep limit _)
        (cutsShort_primary hle endPosition (cutsShort_tooDeep limit _))
  | succ depth ih =>
    cases depth' with
    | zero => exact absurd hdepth (Nat.not_succ_le_zero depth)
    | succ depth' =>
      have hoperand := ih (Nat.le_of_succ_le_succ hdepth)
      exact cutsShort_signed hle hoperand
        (cutsShort_primary hle endPosition (cutsShort_sum hle hoperand))

/-- With fewer levels and a smaller limit, an expression is cut short or read as with more. -/
theorem cutsShort_expression (hle : limit ≤ limit') (endPosition : Nat) {depth depth' : Nat}
    (hdepth : depth ≤ depth') :
    CutsShort limit (expression limit endPosition depth)
      (expression limit' endPosition depth') := by
  cases depth with
  | zero => exact cutsShort_tooDeep limit _
  | succ depth =>
    cases depth' with
    | zero => exact absurd hdepth (Nat.not_succ_le_zero depth)
    | succ depth' =>
      exact cutsShort_sum hle (cutsShort_unary hle endPosition (Nat.le_of_succ_le_succ hdepth))

/-- What is read from a stream with a limit is what is read with a greater one, or too deep. -/
theorem isCut_ofTokens (hle : limit ≤ limit') (stream : TokenStream) :
    IsCut limit (Expr.ofTokens limit stream) (Expr.ofTokens limit' stream) := by
  rw [ofTokens_eq, ofTokens_eq]
  apply (cutsShort_expression hle stream.endPosition hle stream.tokens).bind
  intro reading _
  exact .refl limit _

end CutsShort

/-! ## Limits above the number of tokens -/

/-- The arguments of a call are no higher than it has tokens, if none of them is. -/
theorem heightList_le_length_separated {args : List Argument}
    (h : ∀ x ∈ args, x.tree.height ≤ x.tokens.length) :
    Expr.heightList (args.map Argument.tree) ≤ (separated args).length := by
  induction args with
  | nil => exact Nat.zero_le _
  | cons x xs ih =>
    obtain ⟨hx, hxs⟩ := List.forall_mem_cons.mp h
    have hmore := ih hxs
    rw [List.map_cons, Expr.heightList]
    by_cases hlast : xs = []
    · subst hlast
      rw [separated_singleton]
      exact Nat.max_le.mpr ⟨hx, Nat.zero_le _⟩
    · rw [separated_cons hlast, List.length_append, List.length_cons]
      omega

/-- A tree is no higher than it has tokens. -/
theorem Derives.height_le_length {symbol : Symbol} {tokens : List Token} {tree : Expr}
    {nesting : Nat} (h : Derives symbol tokens tree nesting) : tree.height ≤ tokens.length := by
  induction h with
  | operand _ ih => exact ih
  | operation _ _ _ ihleft ihright =>
    rw [Expr.height, List.length_append, List.length_cons]
    omega
  | minus _ ih => exact Nat.succ_le_succ ih
  | unsigned _ ih => exact ih
  | number _ => exact Nat.le_refl 1
  | var _ => exact Nat.le_refl 1
  | call _ _ ih =>
    have hargs := heightList_le_length_separated ih
    rw [Expr.height, List.length_cons, List.length_cons, List.length_append]
    omega
  | group _ ih =>
    rw [List.length_cons, List.length_append]
    omega

section Roomy

variable {limit budget room : Nat}

/-- A reader uses at least as many tokens as its tree is high. -/
theorem ReadsTo.height_add_length_le {symbol : Symbol} {tokens rest : List (Located Token)}
    {tree : Expr} {height : Nat} (h : ReadsTo limit budget symbol tokens tree height rest) :
    height + rest.length ≤ tokens.length := by
  obtain ⟨used, nesting, rfl, hderives, -, rfl, -⟩ := h
  have hheight := hderives.height_le_length
  rw [List.length_map] at hheight
  rw [List.length_append]
  omega

/-- The arguments of a call leave room for one node more: their parenthesis is used too. -/
theorem ReadsArguments.height_add_length_lt {tokens rest : List (Located Token)}
    {trees : List Expr} {height : Nat}
    (h : ReadsArguments limit budget tokens trees height rest) :
    height + rest.length < tokens.length := by
  obtain ⟨used, args, rfl, -, hused, hargs, rfl, -, rfl, -⟩ := h
  have hheight := heightList_le_length_separated fun x hx => (hargs x hx).height_le_length
  have hlength := congrArg List.length hused
  rw [List.length_map, List.length_append, List.length_singleton] at hlength
  rw [List.length_append]
  omega

/-- The outcome is a value, or an error that has nothing to do with the limit. -/
def NotTooDeep {α : Type} (outcome : Except SyntaxError α) : Prop :=
  ∀ k, outcome ≠ .error (.tooDeep k)

/-- A value is no refusal for the depth. -/
theorem notTooDeep_ok {α : Type} (a : α) : NotTooDeep (.ok a) :=
  nofun

/-- Two steps are not too deep if neither of them is. -/
theorem NotTooDeep.bind {α β : Type} {x : Except SyntaxError α} {f : α → Except SyntaxError β}
    (h : NotTooDeep x) (hnext : ∀ a, x = .ok a → NotTooDeep (f a)) : NotTooDeep (x >>= f) := by
  cases x with
  | error e =>
    intro k heq
    obtain rfl := Except.error.inj heq
    exact h k rfl
  | ok a => exact hnext a rfl

/-- A height within the limit is not too deep. -/
theorem notTooDeep_checkHeight {height : Nat} (h : height ≤ limit) :
    NotTooDeep (checkHeight limit height) := by
  rw [checkHeight_of_le h]
  exact notTooDeep_ok _

/-- Where there are no more tokens than `room`, they are not too deep for the reader. -/
def Roomy (room : Nat) (reader : Reader Expr) : Prop :=
  ∀ tokens, tokens.length ≤ room → NotTooDeep (outcome (reader tokens))

/-- The rest of a chain has room where its height and its tokens together stay within the limit. -/
theorem roomy_chainFrom {level : Level} {operand : Reader Expr}
    (hsound : Sound limit budget level.operand operand) (hroomy : Roomy room operand)
    (left : Expr) {height : Nat} {tokens : List (Located Token)} (htokens : tokens.length ≤ room)
    (hheight : height + tokens.length ≤ limit) :
    NotTooDeep (outcome (chainFrom limit level.operation? operand left height tokens)) := by
  -- on the number of tokens left: each operation takes one more of them than it adds height
  obtain ⟨n, hn⟩ : ∃ n, tokens.length = n := ⟨_, rfl⟩
  induction n using Nat.strongRecOn generalizing left height tokens with
  | _ n ih =>
    rcases operation_cases level.operation? tokens with
      ⟨sign, position, rest, op, rfl, hop⟩ | hend
    · rw [List.length_cons] at hn htokens hheight
      rw [outcome_chainFrom_operator hop]
      apply (hroomy rest (by omega)).bind
      rintro ⟨right, h, after⟩ hright
      have hused := (hsound _ _ _ _ hright).height_add_length_le
      have hcheck : max height h + 1 ≤ limit := by omega
      apply (notTooDeep_checkHeight hcheck).bind
      intro _ _
      have hlt := length_lt_of_outcome hright
      exact ih after.length (by omega) _ (by omega) (by omega) rfl
    · rw [outcome_chainFrom_end hend]
      exact notTooDeep_ok _

/-- A chain has room for as many tokens as its operands have. -/
theorem roomy_chain (level : Level) {operand : Reader Expr}
    (hsound : Sound limit budget level.operand operand) (hroomy : Roomy room operand)
    (hle : room ≤ limit) : Roomy room (chain limit level.operation? operand) := by
  intro tokens htokens
  rw [outcome_chain]
  apply (hroomy tokens htokens).bind
  rintro ⟨first, h, rest⟩ hfirst
  have hused := (hsound _ _ _ _ hfirst).height_add_length_le
  exact roomy_chainFrom hsound hroomy first (by omega) (by omega)

/-- A sum has room for as many tokens as its signed operands have. -/
theorem roomy_sum {operand : Reader Expr} (hsound : Sound limit budget .signed operand)
    (hroomy : Roomy room operand) (hle : room ≤ limit) : Roomy room (sum limit operand) := by
  have hsoundPower : Sound limit budget (.operations .power)
      (chain limit powerOperation? operand) := sound_chain hsound
  have hsoundProduct : Sound limit budget (.operations .product)
      (chain limit productOperation? (chain limit powerOperation? operand)) :=
    sound_chain hsoundPower
  have hpower : Roomy room (chain limit powerOperation? operand) :=
    roomy_chain .power hsound hroomy hle
  have hproduct :
      Roomy room (chain limit productOperation? (chain limit powerOperation? operand)) :=
    roomy_chain .product hsoundPower hpower hle
  exact roomy_chain .sum hsoundProduct hproduct hle

section Primary

variable {expression : Reader Expr}

/-- Arguments have room for as many tokens as expressions have. -/
theorem roomy_arguments (hroomy : Roomy room expression) {tokens : List (Located Token)}
    (htokens : tokens.length ≤ room) : NotTooDeep (outcome (arguments expression tokens)) := by
  -- on the number of tokens left, as for chains
  obtain ⟨n, hn⟩ : ∃ n, tokens.length = n := ⟨_, rfl⟩
  induction n using Nat.strongRecOn generalizing tokens with
  | _ n ih =>
    rw [outcome_arguments]
    apply (hroomy tokens htokens).bind
    rintro ⟨first, h, after⟩ hfirst
    have hlt := length_lt_of_outcome hfirst
    cases after with
    | nil => exact nofun
    | cons found rest =>
      obtain ⟨token, position⟩ := found
      rw [List.length_cons] at hlt
      cases token with
      | comma =>
        apply (ih rest.length (by omega) (by omega) rfl).bind
        intro more _
        exact notTooDeep_ok _
      | _ => exact nofun

/-- A call has room for as many tokens as its arguments have. -/
theorem roomy_call (hsound : Sound limit budget .formula expression)
    (hroomy : Roomy room expression) (hle : room ≤ limit) (name : String) :
    Roomy room (call limit expression name) := by
  intro tokens htokens
  rcases starts_cases .closeParen tokens with ⟨position, rest, rfl⟩ | hargument
  · exact notTooDeep_ok _
  · rw [outcome_call hargument]
    apply (roomy_arguments hroomy htokens).bind
    rintro ⟨args, h, rest⟩ hread
    have hused := (arguments_sound hsound hread).height_add_length_lt
    have hcheck : h + 1 ≤ limit := by omega
    apply (notTooDeep_checkHeight hcheck).bind
    intro _ _
    exact notTooDeep_ok _

/-- A group has room for as many tokens as the formula in it has. -/
theorem roomy_group (hroomy : Roomy room expression) : Roomy room (group expression) := by
  intro tokens htokens
  rw [outcome_group]
  apply (hroomy tokens htokens).bind
  rintro ⟨inner, h, rest⟩ -
  cases rest with
  | nil => exact nofun
  | cons found rest =>
    obtain ⟨token, position⟩ := found
    cases token <;> exact nofun

/-- Operands in parentheses have one token less for what is inside. -/
theorem roomy_primary (endPosition : Nat) (hsound : Sound limit budget .formula expression)
    (hroomy : Roomy room expression) (hle : room ≤ limit) :
    Roomy (room + 1) (primary limit endPosition expression) := by
  intro tokens htokens
  cases tokens with
  | nil => exact nofun
  | cons found rest =>
    obtain ⟨token, position⟩ := found
    rw [List.length_cons] at htokens
    cases token with
    | identifier name =>
      rcases starts_cases .openParen rest with ⟨position', rest', rfl⟩ | hvar
      · rw [List.length_cons] at htokens
        rw [outcome_primary_identifier_call]
        exact roomy_call hsound hroomy hle name rest' (by omega)
      · rw [outcome_primary_var hvar]
        exact notTooDeep_ok _
    | member name =>
      rcases starts_cases .openParen rest with ⟨position', rest', rfl⟩ | hmember
      · rw [List.length_cons] at htokens
        rw [outcome_primary_member_call]
        exact roomy_call hsound hroomy hle name rest' (by omega)
      · rw [outcome_primary_member hmember]
        exact nofun
    | openParen =>
      rw [outcome_primary_group]
      exact roomy_group hroomy rest (by omega)
    | _ => exact nofun

end Primary

/-- A signed operand has room for one more token than what stands behind its minus sign. -/
theorem roomy_signed {inner plain : Reader Expr} (hsound : Sound limit budget .signed inner)
    (hinner : Roomy room inner) (hplain : Roomy (room + 1) plain) (hlt : room < limit) :
    Roomy (room + 1) (signed limit inner plain) := by
  intro tokens htokens
  rcases starts_cases (.operator .minus) tokens with ⟨position, rest, rfl⟩ | hunsigned
  · rw [List.length_cons] at htokens
    rw [outcome_signed_minus]
    apply (hinner rest (by omega)).bind
    rintro ⟨operand, h, after⟩ hread
    have hused := (hsound _ _ _ _ hread).height_add_length_le
    have hcheck : h + 1 ≤ limit := by omega
    apply (notTooDeep_checkHeight hcheck).bind
    intro _ _
    exact notTooDeep_ok _
  · rw [outcome_signed_plain hunsigned]
    exact hplain tokens htokens

/-- Operands with no more tokens than there are levels to open are not too deep. -/
theorem roomy_unary (endPosition : Nat) (hlimit : 0 < limit) {depth : Nat}
    (hdepth : depth ≤ limit) : Roomy depth (unary limit endPosition depth) := by
  induction depth with
  | zero =>
    intro tokens htokens
    obtain rfl := List.eq_nil_of_length_eq_zero (Nat.le_zero.mp htokens)
    exact nofun
  | succ depth ih =>
    have hsound := sound_unary endPosition hlimit depth
    have hoperand := ih (Nat.le_of_succ_le hdepth)
    exact roomy_signed hsound hoperand
      (roomy_primary endPosition (sound_sum hsound)
        (roomy_sum hsound hoperand (Nat.le_of_succ_le hdepth)) (Nat.le_of_succ_le hdepth))
      hdepth

end Roomy

/-- A stream with fewer tokens than the limit is not too deep. -/
theorem notTooDeep_ofTokens {limit : Nat} {stream : TokenStream}
    (h : stream.tokens.length < limit) : NotTooDeep (Expr.ofTokens limit stream) := by
  obtain ⟨depth, rfl⟩ := Nat.exists_eq_add_one_of_ne_zero (Nat.ne_zero_of_lt h)
  have hle : depth ≤ depth + 1 := Nat.le_succ depth
  have hsound := sound_unary stream.endPosition (Nat.succ_pos depth) depth
  have hroomy := roomy_unary stream.endPosition (Nat.succ_pos depth) hle
  rw [ofTokens_eq]
  apply (roomy_sum hsound hroomy hle stream.tokens (Nat.le_of_lt_succ h)).bind
  rintro ⟨tree, height, rest⟩ -
  cases rest <;> exact nofun

end Grammar

end Reckoner
