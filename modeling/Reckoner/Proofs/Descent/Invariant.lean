import Reckoner.Proofs.Descent.Rules

/-!
# What every call of a method keeps

A method that is called while a formula is read does what the reader of its kind of phrases
does: it returns, with the tree and the height that the reader gives, and with the cursor in
front of the tokens that the reader leaves. On the way it looks at words of the vector only,
and its calls descend: each opens a level, or has fewer tokens left, or is one of a method of
tighter phrases. The methods have this by induction on the levels that may still be opened,
their loops by induction on the tokens that are left.
-/

set_option autoImplicit false

namespace Reckoner.Descent

open Grammar Reader

variable {words : Words} {limit : Nat}

/-! ## Calls -/

/-- A call is deeper than its caller, or further on at the same depth, or at the same place by a
method of tighter phrases. -/
def Descends (caller : Method) (cursor : Cursor) (callee : Method) (cursor' : Cursor) : Prop :=
  (cursor'.depth = cursor.depth + 1 ∧ cursor.position ≤ cursor'.position) ∨
    (cursor'.depth = cursor.depth ∧ cursor.position < cursor'.position) ∨
    (cursor' = cursor ∧ caller.tightness < callee.tightness)

/-- Calls are read from their parenthesis on. -/
def Begins : Method → List (Located Token) → Prop
  | .call _, rest => ∃ position after, rest = ⟨.openParen, position⟩ :: after
  | _, _ => True

/-- What holds when a method is called: the cursor is in front of tokens of the stream or of its
end, and no more levels are open than the limit allows. Inside an expression one is open. -/
def Entered (words : Words) (limit : Nat) (method : Method) (cursor : Cursor) : Prop :=
  ∃ rest depth, cursor = words.cursor rest depth ∧ rest <:+ words.stream.tokens ∧
    depth ≤ limit ∧ (method = .expression ∨ 0 < depth) ∧ Begins method rest

/-- The calls that the method may make. -/
def Callee (words : Words) (limit : Nat) (caller : Method) (cursor : Cursor) (callee : Method)
    (cursor' : Cursor) : Prop :=
  Entered words limit callee cursor' ∧ Descends caller cursor callee cursor'

/-- At the depth, the method does what the reader does. -/
def Follows (words : Words) (limit depth : Nat) (method : Method) (reader : Reader Expr) : Prop :=
  ∀ rest, rest <:+ words.stream.tokens →
    Runs words limit (Callee words limit method (words.cursor rest depth))
      (methodScript limit method (words.cursor rest depth))
      (words.placed depth (outcome (reader rest)))

/-- The methods for operands may be called anywhere. -/
theorem begins_operandMethod (level : Level) (rest : List (Located Token)) :
    Begins (operandMethod level) rest := by
  cases level <;> trivial

/-- Operands bind tighter than the operations they belong to. -/
theorem tightness_lt_operandMethod (level : Level) :
    (Method.operations level).tightness < (operandMethod level).tightness := by
  cases level <;> decide

section Methods

variable {depth budget : Nat} {start rest : List (Located Token)}

/-- Inside an expression, a method may be called on what is left of the tokens. -/
theorem callee_later {caller callee : Method} (hdepth : 0 < depth) (hle : depth ≤ limit)
    (hstart : start <:+ words.stream.tokens) (hrest : rest <:+ words.stream.tokens)
    (hlt : rest.length < start.length) (hbegins : Begins callee rest) :
    Callee words limit caller (words.cursor start depth) callee (words.cursor rest depth) :=
  ⟨⟨rest, depth, rfl, hrest, hle, .inr hdepth, hbegins⟩,
    .inr (.inl ⟨rfl, Words.cursor_position_lt_cursor hstart hlt depth depth⟩)⟩

/-- Inside an expression, a method may hand over to a tighter one. -/
theorem callee_tighter {caller callee : Method} (hdepth : 0 < depth) (hle : depth ≤ limit)
    (hrest : rest <:+ words.stream.tokens) (hbegins : Begins callee rest)
    (htighter : caller.tightness < callee.tightness) :
    Callee words limit caller (words.cursor rest depth) callee (words.cursor rest depth) :=
  ⟨⟨rest, depth, rfl, hrest, hle, .inr hdepth, hbegins⟩, .inr (.inr ⟨rfl, htighter⟩)⟩

/-- What a sound reader leaves is the end of what it was given. -/
theorem suffix_of_sound {symbol : Symbol} {reader : Reader Expr}
    (hsound : Sound limit budget symbol reader) {tokens after : List (Located Token)}
    {tree : Expr} {height : Nat} (h : outcome (reader tokens) = .ok (tree, height, after)) :
    after <:+ tokens := by
  obtain ⟨used, _, heq, -⟩ := hsound _ _ _ _ h
  exact ⟨used, heq.symm⟩

/-- The loop over the operators of a level gives what the chain of readers gives, if that is so for
the operands. Its calls come after the start of the first operand. -/
theorem runs_operations {level : Level} {operand : Reader Expr}
    (hsound : Sound limit budget level.operand operand)
    (hoperand : Follows words limit depth (operandMethod level) operand)
    (hdepth : 0 < depth) (hle : depth ≤ limit) (hstart : start <:+ words.stream.tokens)
    (hrest : rest <:+ words.stream.tokens) (hlt : rest.length < start.length) (left : Expr)
    (height : Nat) :
    Runs words limit (Callee words limit (.operations level) (words.cursor start depth))
      (roundScript limit (.operations level left height) (words.cursor rest depth))
      (words.placed depth
        (outcome (chainFrom limit level.operation? operand left height rest))) := by
  -- on the number of tokens left: every round uses an operator
  obtain ⟨n, hn⟩ : ∃ n, rest.length = n := ⟨_, rfl⟩
  induction n using Nat.strongRecOn generalizing rest left height with
  | _ n ih =>
    rcases operation_cases level.operation? rest with
      ⟨sign, position, after, op, rfl, hop⟩ | hend
    · have hafter : after <:+ words.stream.tokens := (List.suffix_cons _ _).trans hrest
      rw [List.length_cons] at hn hlt
      rw [outcome_chainFrom_operator hop]
      apply Runs.look_token hrest
      simp only [wordOf, hop]
      apply Runs.bump hrest
      apply Runs.call
      · exact callee_later hdepth hle hstart hafter (by omega) (begins_operandMethod level after)
      · exact (hoperand after hafter).gives
      · intro right h left' hright
        have hlength := length_lt_of_outcome hright
        apply Runs.checked
        intro _
        apply Runs.loop
        exact ih left'.length (by omega) ((suffix_of_sound hsound hright).trans hafter) (by omega)
          _ _ rfl
    · rw [outcome_chainFrom_end hend]
      cases rest with
      | nil => exact Runs.look_end (.give _ _ _)
      | cons token after =>
        apply Runs.look_token hrest
        obtain ⟨value, position⟩ := token
        cases value with
        | operator sign =>
          simp only [wordOf, hend sign position after rfl]
          exact .give _ _ _
        | _ => exact .give _ _ _

/-- The method for the operations of a level follows the chain of readers if the method for operands
follows its reader. -/
theorem follows_operations {level : Level} {operand : Reader Expr}
    (hsound : Sound limit budget level.operand operand)
    (hoperand : Follows words limit depth (operandMethod level) operand)
    (hdepth : 0 < depth) (hle : depth ≤ limit) :
    Follows words limit depth (.operations level) (chain limit level.operation? operand) := by
  intro rest hrest
  rw [outcome_chain]
  apply Runs.call
  · exact callee_tighter hdepth hle hrest (begins_operandMethod level rest)
      (tightness_lt_operandMethod level)
  · exact (hoperand rest hrest).gives
  · intro left h after hleft
    apply Runs.loop
    exact runs_operations hsound hoperand hdepth hle hrest
      ((suffix_of_sound hsound hleft).trans hrest) (length_lt_of_outcome hleft) left h

/-- The reader for operations of a level, from one for operands of powers. -/
def operationsReader (limit : Nat) (operand : Reader Expr) : Level → Reader Expr
  | .sum => sum limit operand
  | .product => chain limit productOperation? (chain limit powerOperation? operand)
  | .power => chain limit powerOperation? operand

/-- The reader for the operations of any level reads phrases of that level. -/
theorem sound_operationsReader {operand : Reader Expr}
    (hsound : Sound limit budget .signed operand) (level : Level) :
    Sound limit budget (.operations level) (operationsReader limit operand level) := by
  have hpower : Sound limit budget (.operations .power)
      (operationsReader limit operand .power) := sound_chain hsound
  have hproduct : Sound limit budget (.operations .product)
      (operationsReader limit operand .product) := sound_chain hpower
  cases level with
  | sum => exact sound_chain hproduct
  | product => exact hproduct
  | power => exact hpower

/-- The methods for operations follow their readers if the method for signed operands follows its
own. -/
theorem follows_operationsReader {operand : Reader Expr}
    (hsound : Sound limit budget .signed operand)
    (hoperand : Follows words limit depth .unary operand)
    (hdepth : 0 < depth) (hle : depth ≤ limit) (level : Level) :
    Follows words limit depth (.operations level) (operationsReader limit operand level) := by
  have hpower : Follows words limit depth (.operations .power)
      (operationsReader limit operand .power) :=
    follows_operations hsound hoperand hdepth hle
  have hproduct : Follows words limit depth (.operations .product)
      (operationsReader limit operand .product) :=
    follows_operations (sound_operationsReader hsound .power) hpower hdepth hle
  cases level with
  | sum => exact follows_operations (sound_operationsReader hsound .product) hproduct hdepth hle
  | product => exact hproduct
  | power => exact hpower

/-- At the limit no expression is opened. -/
theorem follows_tooDeep : Follows words limit limit .expression (tooDeep limit) := by
  intro rest _
  exact Runs.tooDeep (Nat.lt_succ_self limit)

/-- An expression is a sum that is read one level deeper. -/
theorem follows_expression {reader : Reader Expr} (hlt : depth < limit)
    (hsum : Follows words limit (depth + 1) (.operations .sum) reader) :
    Follows words limit depth .expression reader := by
  intro rest hrest
  apply Runs.within (Nat.succ_le_of_lt hlt)
  refine Runs.tailCall ⟨⟨rest, depth + 1, rfl, hrest, hlt, .inr (Nat.succ_pos _), trivial⟩,
    .inl ⟨rfl, Nat.le_refl _⟩⟩ (hsum rest hrest).gives ?_
  intro tree height after
  rfl

/-- The method for signed operands hands over to the one for primaries, or opens one more level
behind a minus sign where the limit has room for it. -/
theorem follows_unary {inner plain : Reader Expr}
    (hinner : depth < limit ∧ Follows words limit (depth + 1) .unary inner ∨
      depth = limit ∧ inner = tooDeep limit)
    (hplain : Follows words limit depth .primary plain) (hdepth : 0 < depth)
    (hle : depth ≤ limit) :
    Follows words limit depth .unary (signed limit inner plain) := by
  intro rest hrest
  rcases starts_cases (.operator .minus) rest with ⟨position, after, rfl⟩ | hunsigned
  · have hafter : after <:+ words.stream.tokens := (List.suffix_cons _ _).trans hrest
    rw [outcome_signed_minus]
    apply Runs.lookFor_found hrest
    apply Runs.bump hrest
    rcases hinner with ⟨hlt, hinner⟩ | ⟨rfl, rfl⟩
    · apply Runs.within (Nat.succ_le_of_lt hlt)
      apply Runs.call
      · exact ⟨⟨after, depth + 1, rfl, hafter, hlt, .inr (Nat.succ_pos _), trivial⟩,
          .inl ⟨rfl, Nat.le_of_lt (Words.cursor_position_lt_cursor hrest (Nat.lt_succ_self _) _ _)⟩⟩
      · exact (hinner after hafter).gives
      · intro operand h left _
        apply Runs.checked
        intro _
        exact .give _ _ _
    · exact .tooDeep (Nat.lt_succ_self _)
  · rw [outcome_signed_plain hunsigned]
    apply Runs.lookFor_other hrest hunsigned
    intro _ _
    exact .tailCall (callee_tighter hdepth hle hrest trivial (by decide))
      (hplain rest hrest).gives fun _ _ _ => rfl

section Primary

variable {expression : Reader Expr}

/-- The loop over the arguments of a call gives what the reader for arguments gives, with the call
checked against the limit at the end. -/
theorem runs_arguments (hsound : Sound limit budget .formula expression)
    (hexpression : Follows words limit depth .expression expression) (hdepth : 0 < depth)
    (hle : depth ≤ limit) (hstart : start <:+ words.stream.tokens)
    (hrest : rest <:+ words.stream.tokens) (hlt : rest.length < start.length) (name : String)
    (args : List Expr) (height : Nat) :
    Runs words limit (Callee words limit (.call name) (words.cursor start depth))
      (roundScript limit (.arguments name args height) (words.cursor rest depth))
      (words.placed depth (do
        let (more, h, rest) ← outcome (arguments expression rest)
        checkHeight limit (max height h + 1)
        .ok (.call name (args ++ more), max height h + 1, rest))) := by
  -- on the number of tokens left: every round uses an argument
  obtain ⟨n, hn⟩ : ∃ n, rest.length = n := ⟨_, rfl⟩
  induction n using Nat.strongRecOn generalizing rest args height with
  | _ n ih =>
    rw [outcome_arguments, bind_assoc]
    apply Runs.call
    · exact callee_later hdepth hle hstart hrest hlt trivial
    · exact (hexpression rest hrest).gives
    · intro arg h after harg
      have hafter := (suffix_of_sound hsound harg).trans hrest
      have hlength := length_lt_of_outcome harg
      cases after with
      | nil => exact Runs.look_end (.fail _)
      | cons found left =>
        obtain ⟨token, position⟩ := found
        have hleft : left <:+ words.stream.tokens := (List.suffix_cons _ _).trans hafter
        rw [List.length_cons] at hlength
        apply Runs.look_token hafter
        cases token with
        | comma =>
          apply Runs.bump hafter
          apply Runs.loop
          have hround := ih left.length (by omega) hleft (by omega) (args ++ [arg]) (max height h)
            rfl
          simpa [argumentsAfter, Nat.max_assoc] using hround
        | closeParen =>
          apply Runs.bump hafter
          apply Runs.checked
          intro _
          exact .give _ _ _
        | _ => exact .fail _

/-- A method for calls reads the parenthesis, and then what the reader does. -/
theorem runs_call (hsound : Sound limit budget .formula expression)
    (hexpression : Follows words limit depth .expression expression) (hdepth : 0 < depth)
    (hle : depth ≤ limit) (name : String) {position : Nat}
    (hstart : ⟨.openParen, position⟩ :: rest <:+ words.stream.tokens) :
    Runs words limit
      (Callee words limit (.call name) (words.cursor (⟨.openParen, position⟩ :: rest) depth))
      (methodScript limit (.call name) (words.cursor (⟨.openParen, position⟩ :: rest) depth))
      (words.placed depth (outcome (Reader.call limit expression name rest))) := by
  have hrest : rest <:+ words.stream.tokens := (List.suffix_cons _ _).trans hstart
  apply Runs.bump hstart
  rcases starts_cases .closeParen rest with ⟨closing, after, rfl⟩ | hargument
  · exact .lookFor_found hrest (.bump hrest (.give _ _ _))
  · apply Runs.lookFor_other hrest hargument
    intro _ _
    have hargs := runs_arguments hsound hexpression hdepth hle hstart hrest (Nat.lt_succ_self _)
      name [] 0
    simp only [Nat.zero_max, List.nil_append] at hargs
    rw [outcome_call hargument]
    exact .loop hargs

/-- In front of its parenthesis, a method for plain operands hands over to a call. -/
theorem runs_primary_call (hsound : Sound limit budget .formula expression)
    (hexpression : Follows words limit depth .expression expression) (hdepth : 0 < depth)
    (hle : depth ≤ limit) (name : String) {position : Nat} (other : Word → Script)
    (hstart : start <:+ words.stream.tokens)
    (hrest : ⟨.openParen, position⟩ :: rest <:+ words.stream.tokens)
    (hlt : rest.length + 1 < start.length) :
    Runs words limit (Callee words limit .primary (words.cursor start depth))
      (.lookFor .openParen (words.cursor (⟨.openParen, position⟩ :: rest) depth)
        (.call (.call name) (words.cursor (⟨.openParen, position⟩ :: rest) depth) .give) other)
      (words.placed depth (outcome (Reader.call limit expression name rest))) := by
  apply Runs.lookFor_found hrest
  exact .tailCall (callee_later hdepth hle hstart hrest hlt ⟨_, _, rfl⟩)
    (runs_call hsound hexpression hdepth hle name hrest).gives fun _ _ _ => rfl

/-- The method for primaries follows its reader if the method for expressions does. -/
theorem follows_primary (hsound : Sound limit budget .formula expression)
    (hexpression : Follows words limit depth .expression expression) (hdepth : 0 < depth)
    (hle : depth ≤ limit) :
    Follows words limit depth .primary
      (primary limit words.stream.endPosition expression) := by
  intro rest hrest
  cases rest with
  | nil => exact Runs.look_end (.fail _)
  | cons found after =>
    obtain ⟨token, position⟩ := found
    have hafter : after <:+ words.stream.tokens := (List.suffix_cons _ _).trans hrest
    apply Runs.look_token hrest
    cases token with
    | number value => exact .bump hrest (.give _ _ _)
    | identifier name =>
      apply Runs.bump hrest
      rcases starts_cases .openParen after with ⟨position', after', rfl⟩ | hvar
      · rw [outcome_primary_identifier_call]
        exact runs_primary_call hsound hexpression hdepth hle name _ hrest hafter
          (Nat.lt_succ_self _)
      · rw [outcome_primary_var hvar]
        exact .lookFor_other hafter hvar fun _ _ => .give _ _ _
    | member name =>
      apply Runs.bump hrest
      rcases starts_cases .openParen after with ⟨position', after', rfl⟩ | hmember
      · rw [outcome_primary_member_call]
        exact runs_primary_call hsound hexpression hdepth hle name _ hrest hafter
          (Nat.lt_succ_self _)
      · rw [outcome_primary_member hmember]
        apply Runs.lookFor_other hafter hmember
        intro word hword
        rw [hword]
        exact .fail _
    | openParen =>
      apply Runs.bump hrest
      rw [outcome_primary_group, outcome_group]
      apply Runs.call
      · exact callee_later hdepth hle hrest hafter (Nat.lt_succ_self _) trivial
      · exact (hexpression after hafter).gives
      · intro inner h left hinner
        have hleft := (suffix_of_sound hsound hinner).trans hafter
        cases left with
        | nil => exact Runs.look_end (.fail _)
        | cons found left' =>
          obtain ⟨token, closing⟩ := found
          apply Runs.look_token hleft
          cases token with
          | closeParen => exact .bump hleft (.give _ _ _)
          | _ => exact .fail _
    | _ => exact .fail _

end Primary

end Methods

/-! ## All methods -/

section All

variable {depth budget : Nat}

/-- With the levels that are left the reader for expressions reads formulas. -/
theorem sound_expression_of_add (endPosition : Nat) (h : depth + budget = limit) :
    Sound limit budget .formula (expression limit endPosition budget) := by
  cases budget with
  | zero => exact sound_tooDeep _
  | succ budget => exact sound_expression endPosition (by omega) (budget + 1)

/-- With as many levels left to open as the limit allows at the depth, methods for expressions and
for operands do what the readers do. -/
theorem follows_expression_and_unary (words : Words) (h : depth + budget = limit) :
    Follows words limit depth .expression
        (expression limit words.stream.endPosition budget) ∧
      (0 < depth → Follows words limit depth .unary
        (unary limit words.stream.endPosition budget)) := by
  -- on the levels left: what is behind a minus sign and inside an expression is one level deeper
  induction budget generalizing depth with
  | zero =>
    obtain rfl : depth = limit := h
    refine ⟨follows_tooDeep, fun hdepth => ?_⟩
    have hplain : Follows words depth depth .primary
        (primary depth words.stream.endPosition (tooDeep depth)) :=
      follows_primary (sound_expression_of_add words.stream.endPosition (Nat.add_zero depth))
        follows_tooDeep hdepth (Nat.le_refl _)
    exact follows_unary (.inr ⟨rfl, rfl⟩) hplain hdepth (Nat.le_refl _)
  | succ budget ih =>
    have hlt : depth < limit := by omega
    have hinner : Follows words limit (depth + 1) .unary
        (unary limit words.stream.endPosition budget) := (ih (by omega)).2 (Nat.succ_pos _)
    have hsound := sound_unary words.stream.endPosition (Nat.zero_lt_of_lt hlt) budget
    have hexpression : Follows words limit depth .expression
        (expression limit words.stream.endPosition (budget + 1)) :=
      follows_expression hlt
        (follows_operationsReader hsound hinner (Nat.succ_pos _) (Nat.succ_le_of_lt hlt) .sum)
    refine ⟨hexpression, fun hdepth => ?_⟩
    have hplain := follows_primary (sound_expression_of_add words.stream.endPosition h) hexpression
      hdepth (Nat.le_of_lt hlt)
    exact follows_unary (.inl ⟨hlt, hinner⟩) hplain hdepth (Nat.le_of_lt hlt)

/-- What a method reads: a phrase, as the reader of such phrases does, and a call from its
parenthesis on. -/
def readBy (limit endPosition budget : Nat) :
    Method → List (Located Token) → Except SyntaxError (Expr × Nat × List (Located Token))
  | .expression, rest => outcome (expression limit endPosition budget rest)
  | .operations level, rest =>
    outcome (operationsReader limit (unary limit endPosition budget) level rest)
  | .unary, rest => outcome (unary limit endPosition budget rest)
  | .primary, rest =>
    outcome (primary limit endPosition (expression limit endPosition budget) rest)
  | .call name, rest =>
    outcome (Reader.call limit (expression limit endPosition budget) name rest.tail)

/-- Every method that is called as allowed gives what the reader for its phrases gives, and whatever
it calls in turn is called as allowed. -/
theorem runs_method {method : Method} {rest : List (Located Token)} (h : depth + budget = limit)
    (hopen : method = .expression ∨ 0 < depth) (hrest : rest <:+ words.stream.tokens)
    (hbegins : Begins method rest) :
    Runs words limit (Callee words limit method (words.cursor rest depth))
      (methodScript limit method (words.cursor rest depth))
      (words.placed depth (readBy limit words.stream.endPosition budget method rest)) := by
  obtain ⟨hexpression, hunary⟩ := follows_expression_and_unary words h
  have hsound := sound_expression_of_add words.stream.endPosition h
  have hle : depth ≤ limit := by omega
  rcases hopen with rfl | hdepth
  · exact hexpression rest hrest
  · cases method with
    | expression => exact hexpression rest hrest
    | operations level =>
      have hlimit : 0 < limit := Nat.lt_of_lt_of_le hdepth hle
      have hoperand := sound_unary words.stream.endPosition hlimit budget
      exact follows_operationsReader hoperand (hunary hdepth) hdepth hle level rest hrest
    | unary => exact hunary hdepth rest hrest
    | primary => exact follows_primary hsound hexpression hdepth hle rest hrest
    | call name =>
      obtain ⟨position, after, rfl⟩ := hbegins
      exact runs_call hsound hexpression hdepth hle name hrest

/-- A reader that succeeds uses a token, and gives the height of its tree, which is within the
limit. -/
theorem readBy_ok {method : Method} {endPosition height : Nat} {rest after : List (Located Token)}
    {tree : Expr} (h : depth + budget = limit) (hopen : method = .expression ∨ 0 < depth)
    (hbegins : Begins method rest)
    (hread : readBy limit endPosition budget method rest = .ok (tree, height, after)) :
    after.length < rest.length ∧ tree.height = height ∧ height ≤ limit := by
  have hsound := sound_expression_of_add endPosition h
  have hheight : ∀ {symbol n tokens}, ReadsTo limit n symbol tokens tree height after →
      tree.height = height ∧ height ≤ limit := fun ⟨_, _, _, _, _, hheight, hle⟩ => ⟨hheight, hle⟩
  rcases hopen with rfl | hdepth
  · exact ⟨length_lt_of_outcome hread, hheight (hsound _ _ _ _ hread)⟩
  · have hlimit : 0 < limit := by omega
    have hoperand := sound_unary endPosition hlimit budget
    cases method with
    | expression => exact ⟨length_lt_of_outcome hread, hheight (hsound _ _ _ _ hread)⟩
    | operations level =>
      exact ⟨length_lt_of_outcome hread,
        hheight (sound_operationsReader hoperand level _ _ _ _ hread)⟩
    | unary => exact ⟨length_lt_of_outcome hread, hheight (hoperand _ _ _ _ hread)⟩
    | primary =>
      exact ⟨length_lt_of_outcome hread,
        hheight (sound_primary endPosition hlimit hsound _ _ _ _ hread)⟩
    | call name =>
      obtain ⟨position, tokens, rfl⟩ := hbegins
      have hcall : ReadsTo limit (budget + 1) .primary
          (⟨.identifier name, 0⟩ :: ⟨.openParen, position⟩ :: tokens) tree height after :=
        call_sound hsound hlimit (.identifier name) hread
      exact ⟨Nat.lt_succ_of_lt (length_lt_of_outcome hread), hheight hcall⟩

end All

/-! ## The invariant -/

/-- What a method keeps that is called with the cursor. -/
structure Invariant (words : Words) (limit : Nat) (method : Method) (cursor : Cursor) : Prop where
  depth_le : cursor.depth ≤ limit
  position_lt : cursor.position < words.size
  /-- The method returns, in one way. -/
  returns : ∃ outcome, ∀ outcome', Returns words limit method cursor outcome' ↔ outcome' = outcome
  /-- If it succeeds, the cursor has moved on to another word, at the depth as before. -/
  moves : ∀ tree height cursor', Returns words limit method cursor (.ok (tree, height, cursor')) →
    cursor.position < cursor'.position ∧ cursor'.position < words.size ∧
      cursor'.depth = cursor.depth
  /-- The height is that of the tree and within the limit. -/
  height : ∀ tree height cursor', Returns words limit method cursor (.ok (tree, height, cursor')) →
    height = tree.height ∧ height ≤ limit
  /-- All the words that it looks at and moves to are there, and its calls descend. -/
  inside : ∀ event, Does words limit (methodScript limit method cursor) event →
    Allowed words (Descends method cursor) event

/-- A call that is allowed where it is made has all properties of the invariant. -/
theorem Entered.invariant {method : Method} {cursor : Cursor}
    (h : Entered words limit method cursor) : Invariant words limit method cursor := by
  obtain ⟨rest, depth, rfl, hrest, hle, hopen, hbegins⟩ := h
  have hbudget : depth + (limit - depth) = limit := Nat.add_sub_cancel' hle
  have hruns := runs_method hbudget hopen hrest hbegins
  have hok : ∀ tree height cursor',
      Returns words limit method (words.cursor rest depth) (.ok (tree, height, cursor')) →
        ∃ after, cursor' = words.cursor after depth ∧ after.length < rest.length ∧
          tree.height = height ∧ height ≤ limit := by
    intro tree height cursor' hreturns
    obtain ⟨⟨tree', height', after⟩, hread, heq⟩ :=
      map_eq_ok_iff.1 (hruns.gives.unique hreturns)
    cases heq
    exact ⟨after, rfl, readBy_ok hbudget hopen hbegins hread⟩
  refine ⟨hle, words.cursor_position_lt rest depth, ?_, ?_, ?_, ?_⟩
  · exact ⟨_, fun _ => hruns.gives.iff_eq⟩
  · intro tree height cursor' hreturns
    obtain ⟨after, rfl, hlt, -, -⟩ := hok tree height cursor' hreturns
    exact ⟨Words.cursor_position_lt_cursor hrest hlt depth depth,
      words.cursor_position_lt after depth, rfl⟩
  · intro tree height cursor' hreturns
    obtain ⟨after, -, -, hheight, hlimit⟩ := hok tree height cursor' hreturns
    exact ⟨hheight.symm, hlimit⟩
  · intro event hdoes
    exact (hruns.allowed event hdoes).imp fun _ _ hcallee => hcallee.2

/-- What was read is a formula if nothing is behind it. -/
def formulaAfter : Expr × Nat × List (Located Token) →
    Except SyntaxError (Expr × Nat × List (Located Token))
  | (tree, height, rest) => (fun _ => (tree, height, rest)) <$> streamAfter tree rest

/-- A formula is read as by the readers, beginning with an expression in front of all tokens. -/
theorem runs_formula (words : Words) (limit : Nat) :
    ∃ outcome, Runs words limit (Entered words limit) formulaScript outcome ∧
      Prod.fst <$> outcome = Expr.ofTokens limit words.stream := by
  have hstart : (⟨0, 0⟩ : Cursor) = words.cursor words.stream.tokens 0 := by
    rw [Words.cursor, Nat.sub_self]
  have hentered : Entered words limit .expression ⟨0, 0⟩ :=
    ⟨_, 0, hstart, List.suffix_rfl, Nat.zero_le _, .inl rfl, trivial⟩
  obtain ⟨hexpression, -⟩ := follows_expression_and_unary words (Nat.zero_add limit)
  have hread := hexpression _ List.suffix_rfl
  rw [← hstart] at hread
  refine ⟨words.placed 0 (outcome (expression limit words.stream.endPosition limit
    words.stream.tokens) >>= formulaAfter), Runs.call hentered hread.gives ?_, ?_⟩
  · intro tree height rest hrest
    have hsuffix := suffix_of_sound
      (sound_expression_of_add words.stream.endPosition (Nat.zero_add limit)) hrest
    cases rest with
    | nil => exact Runs.look_end (.give _ _ _)
    | cons found after => exact Runs.look_token hsuffix (.fail _)
  · rw [ofTokens_eq]
    cases outcome (expression limit words.stream.endPosition limit words.stream.tokens) with
    | error e => rfl
    | ok result =>
      obtain ⟨tree, height, rest⟩ := result
      cases rest <;> rfl

/-- The words yield what the readers give for the tokens in front of the first end, and nothing
else. -/
theorem Words.yields_iff {words : Words} {limit : Nat} {result : Except SyntaxError Expr} :
    words.Yields limit result ↔ result = Expr.ofTokens limit words.stream := by
  obtain ⟨outcome, hruns, heq⟩ := runs_formula words limit
  constructor
  · rintro ⟨outcome', hgives, rfl⟩
    rw [hgives.unique hruns.gives, heq]
  · rintro rfl
    exact ⟨outcome, hruns.gives, heq⟩

/-- Every call in a run is allowed where it is made: the first one is, and each call only makes
allowed ones. -/
theorem Reached.entered {method : Method} {cursor : Cursor}
    (h : Reached words limit method cursor) : Entered words limit method cursor := by
  induction h with
  | start h =>
    obtain ⟨outcome, hruns, -⟩ := runs_formula words limit
    exact hruns.allowed _ h
  | nested _ h ih =>
    obtain ⟨rest, depth, rfl, hrest, hle, hopen, hbegins⟩ := ih
    exact ((runs_method (Nat.add_sub_cancel' hle) hopen hrest hbegins).allowed _ h).1

/-- Whatever the words are and whatever the limit is, every call of a method that comes about
keeps the invariant, and reading ends: it looks at no word that is not there, and it has one
outcome, which is what the readers give for the tokens in front of the first end. -/
theorem reached_invariant (list : List Word) (limit : Nat) :
    (∀ method cursor, Reached (.close list) limit method cursor →
      Invariant (.close list) limit method cursor) ∧
    (∀ event, Does (.close list) limit formulaScript event →
      Allowed (.close list) (fun _ _ => True) event) ∧
    ∃ outcome, (∀ outcome', Gives (.close list) limit formulaScript outcome' ↔
        outcome' = outcome) ∧
      Prod.fst <$> outcome = Expr.ofTokens limit (Words.close list).stream := by
  obtain ⟨outcome, hruns, heq⟩ := runs_formula (.close list) limit
  refine ⟨fun method cursor hreached => hreached.entered.invariant, fun event hdoes => ?_,
    outcome, fun _ => hruns.gives.iff_eq, heq⟩
  exact (hruns.allowed event hdoes).imp fun _ _ _ => trivial

/-- A parenthesis that nobody closes, in words without an end: the expression behind it is
reached, one level deep. -/
theorem reached_invariant_unclosed :
    Reached (.close [⟨some .openParen, 0⟩, ⟨some (.identifier "x"), 1⟩]) 2 .expression ⟨1, 1⟩ ∧
      Invariant (.close [⟨some .openParen, 0⟩, ⟨some (.identifier "x"), 1⟩]) 2 .expression
        ⟨1, 1⟩ := by
  have hreached : Reached (.close [⟨some .openParen, 0⟩, ⟨some (.identifier "x"), 1⟩]) 2
      .expression ⟨1, 1⟩ := by
    have hstart : Reached (.close [⟨some .openParen, 0⟩, ⟨some (.identifier "x"), 1⟩]) 2
        .expression ⟨0, 0⟩ := .start (.call _ _ _)
    have hsum := @Reached.nested _ _ _ (.operations .sum) _ ⟨0, 1⟩ hstart (.call _ _ _)
    have hproduct := @Reached.nested _ _ _ (.operations .product) _ _ hsum (.call _ _ _)
    have hpower := @Reached.nested _ _ _ (.operations .power) _ _ hproduct (.call _ _ _)
    have hunary := @Reached.nested _ _ _ .unary _ _ hpower (.call _ _ _)
    have hprimary := @Reached.nested _ _ _ .primary _ _ hunary (.afterLook (.call _ _ _))
    exact hprimary.nested (.afterLook (.afterBump (.call _ _ _)))
  exact ⟨hreached, (reached_invariant _ _).1 _ _ hreached⟩

end Reckoner.Descent
