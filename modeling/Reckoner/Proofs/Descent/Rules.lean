import Reckoner.Proofs.Descent.Calls

/-!
# Rules for scripts

A script gives one outcome at most. For every kind of step there is a rule (`Runs`) that says at
once what a script gives and that it does nothing on the way but what is allowed: it looks at words
of the vector, moves to words of the vector, and calls methods as its caller may. The rules are
stated with the cursor in front of given tokens of the stream, and with what a reader gives for
them, so that the equations of the readers can be followed step by step.
-/

set_option autoImplicit false

namespace Reckoner.Descent

open Grammar Reader

variable {words : Words} {limit : Nat}

/-- A script gives one outcome at most. -/
theorem Gives.unique {script : Script} {outcome outcome' : Outcome}
    (h : Gives words limit script outcome) (h' : Gives words limit script outcome') :
    outcome = outcome' := by
  induction h generalizing outcome' with
  | fail error => cases h'; rfl
  | give tree height cursor => cases h'; rfl
  | look _ ih =>
    cases h' with
    | look h' => exact ih h'
  | bump _ ih =>
    cases h' with
    | bump h' => exact ih h'
  | call _ _ ihmethod ihnext =>
    cases h' with
    | call hmethod hnext =>
      cases ihmethod hmethod
      exact ihnext hnext
    | callFails hmethod => cases ihmethod hmethod
  | callFails _ ih =>
    cases h' with
    | call hmethod _ => cases ih hmethod
    | callFails hmethod => exact ih hmethod
  | loop _ ih =>
    cases h' with
    | loop h' => exact ih h'

/-- A script that gives an outcome gives no other one. -/
theorem Gives.iff_eq {script : Script} {outcome outcome' : Outcome}
    (h : Gives words limit script outcome) :
    Gives words limit script outcome' ↔ outcome' = outcome :=
  ⟨fun h' => h'.unique h, fun heq => heq ▸ h⟩

/-! ## Cursors and the tokens behind them -/

namespace Words

/-- The cursor in front of the last tokens of the stream, or of its end. -/
def cursor (words : Words) (rest : List (Located Token)) (depth : Nat) : Cursor :=
  ⟨words.stream.tokens.length - rest.length, depth⟩

/-- The position is the number of tokens that have been read. -/
@[simp] theorem cursor_position (words : Words) (rest : List (Located Token)) (depth : Nat) :
    (words.cursor rest depth).position = words.stream.tokens.length - rest.length := rfl

/-- A cursor keeps the number of open levels it was made with. -/
@[simp] theorem cursor_depth (words : Words) (rest : List (Located Token)) (depth : Nat) :
    (words.cursor rest depth).depth = depth := rfl

/-- The outcome of a reader, told by the cursor in front of the tokens that it leaves. -/
def placed (words : Words) (depth : Nat)
    (outcome : Except SyntaxError (Expr × Nat × List (Located Token))) : Outcome :=
  (fun (tree, height, rest) => (tree, height, words.cursor rest depth)) <$> outcome

variable {token : Located Token} {start rest : List (Located Token)}

/-- Behind the tokens of the stream there is at least the end. -/
theorem length_stream_lt (words : Words) : words.stream.tokens.length < words.size := by
  obtain ⟨after, h⟩ := words.exists_toList_eq
  rw [size, h, List.length_append, List.length_map, List.length_cons]
  omega

/-- A cursor at tokens of the stream or at its end is inside the vector. -/
theorem cursor_position_lt (words : Words) (rest : List (Located Token)) (depth : Nat) :
    (words.cursor rest depth).position < words.size :=
  Nat.lt_of_le_of_lt (Nat.sub_le _ _) words.length_stream_lt

/-- A cursor at a token can move on and is still inside the vector. -/
theorem cursor_position_succ_lt (h : token :: rest <:+ words.stream.tokens) (depth : Nat) :
    (words.cursor (token :: rest) depth).position + 1 < words.size := by
  have hlength := h.length_le
  have hlt := words.length_stream_lt
  rw [List.length_cons] at hlength
  rw [cursor_position, List.length_cons]
  omega

/-- Cursors with fewer tokens behind them are further on. -/
theorem cursor_position_lt_cursor (hstart : start <:+ words.stream.tokens)
    (hlt : rest.length < start.length) (depth depth' : Nat) :
    (words.cursor start depth).position < (words.cursor rest depth').position := by
  have hlength := hstart.length_le
  rw [cursor_position, cursor_position]
  omega

/-- Looking at an index of the vector shows the word there. -/
theorem look_eq {position : Nat} {word : Word} (h : words.toList[position]? = some word) :
    words.look position = word := by
  obtain ⟨hlt, hget⟩ := List.getElem?_eq_some_iff.1 h
  have hmin : min position (words.size - 1) = position := Nat.min_eq_left (Nat.le_sub_one_of_lt hlt)
  simp only [look, hmin, List.get_eq_getElem]
  exact hget

/-- In front of a token a method sees the token. -/
theorem look_cursor_cons (h : token :: rest <:+ words.stream.tokens) (depth : Nat) :
    words.look (words.cursor (token :: rest) depth).position = wordOf token := by
  obtain ⟨after, htoList⟩ := words.exists_toList_eq
  obtain ⟨before, htokens⟩ := h
  apply look_eq
  have hposition : (words.cursor (token :: rest) depth).position = before.length := by
    rw [cursor_position, ← htokens, List.length_append]
    omega
  rw [hposition, htoList, ← htokens]
  simp

/-- Behind the last token it sees the end. -/
theorem look_cursor_nil (words : Words) (depth : Nat) :
    words.look (words.cursor [] depth).position = ⟨none, words.stream.endPosition⟩ := by
  obtain ⟨after, htoList⟩ := words.exists_toList_eq
  apply look_eq
  rw [cursor, htoList]
  simp

/-- A cursor that moves on over a token stands in front of the tokens behind it. -/
theorem bumped_cursor (h : token :: rest <:+ words.stream.tokens) (depth : Nat) :
    bumped words (words.cursor (token :: rest) depth) = words.cursor rest depth := by
  have hlength := h.length_le
  have hposition : words.stream.tokens.length - (rest.length + 1) + 1 =
      words.stream.tokens.length - rest.length := by
    rw [List.length_cons] at hlength
    omega
  rw [bumped, if_pos (cursor_position_succ_lt h depth), cursor, cursor, ← hposition]
  rfl

end Words

/-! ## Rules for scripts -/

/-- Words that are looked at are words of the vector, moves lead to another one, and calls are
as given. -/
def Allowed (words : Words) (callee : Method → Cursor → Prop) : Event → Prop
  | .looks position => position < words.size
  | .bumps position => position + 1 < words.size
  | .calls method cursor => callee method cursor

/-- What is allowed stays allowed when more calls are. -/
theorem Allowed.imp {callee callee' : Method → Cursor → Prop} {event : Event}
    (h : Allowed words callee event)
    (hcallee : ∀ method cursor, callee method cursor → callee' method cursor) :
    Allowed words callee' event := by
  cases event with
  | calls method cursor => exact hcallee method cursor h
  | _ => exact h

/-- The script ends with the outcome, and does on the way what is allowed. -/
structure Runs (words : Words) (limit : Nat) (callee : Method → Cursor → Prop) (script : Script)
    (outcome : Outcome) : Prop where
  gives : Gives words limit script outcome
  allowed : ∀ event, Does words limit script event → Allowed words callee event

namespace Runs

variable {callee : Method → Cursor → Prop} {outcome : Outcome} {depth : Nat}
  {token : Located Token} {rest : List (Located Token)}

/-- A script that fails does nothing on the way. -/
theorem fail (error : SyntaxError) : Runs words limit callee (.fail error) (.error error) :=
  ⟨.fail error, nofun⟩

/-- A script that gives a tree does nothing on the way. -/
theorem give (tree : Expr) (height : Nat) (cursor : Cursor) :
    Runs words limit callee (.give tree height cursor) (.ok (tree, height, cursor)) :=
  ⟨.give tree height cursor, nofun⟩

/-- A script may look at any index inside the vector, and goes on with the word there. -/
theorem look {cursor : Cursor} {next : Word → Script} (hlt : cursor.position < words.size)
    (h : Runs words limit callee (next (words.look cursor.position)) outcome) :
    Runs words limit callee (.look cursor next) outcome := by
  refine ⟨.look h.gives, fun event hdoes => ?_⟩
  cases hdoes with
  | look => exact hlt
  | afterLook hdoes => exact h.allowed event hdoes

/-- In front of a token the script goes on with that token. -/
theorem look_token {next : Word → Script} (hrest : token :: rest <:+ words.stream.tokens)
    (h : Runs words limit callee (next (wordOf token)) outcome) :
    Runs words limit callee (.look (words.cursor (token :: rest) depth) next) outcome := by
  apply look (words.cursor_position_lt _ _)
  rw [Words.look_cursor_cons hrest]
  exact h

/-- With no tokens left the script goes on with the end of the stream. -/
theorem look_end {next : Word → Script}
    (h : Runs words limit callee (next ⟨none, words.stream.endPosition⟩) outcome) :
    Runs words limit callee (.look (words.cursor [] depth) next) outcome := by
  apply look (words.cursor_position_lt _ _)
  rw [Words.look_cursor_nil]
  exact h

/-- In front of the token that is looked for, a script goes on with what it does then. -/
theorem lookFor_found {value : Token} {position : Nat} {found : Script} {other : Word → Script}
    (hrest : ⟨value, position⟩ :: rest <:+ words.stream.tokens)
    (h : Runs words limit callee found outcome) :
    Runs words limit callee
      (.lookFor value (words.cursor (⟨value, position⟩ :: rest) depth) found other) outcome := by
  apply look_token hrest
  rw [if_pos]
  · exact h
  · rfl

/-- In front of anything else it knows at least where that is. -/
theorem lookFor_other {value : Token} {found : Script} {other : Word → Script}
    (hrest : rest <:+ words.stream.tokens)
    (hother : ∀ position after, rest ≠ ⟨value, position⟩ :: after)
    (h : ∀ word : Word, word.position = nextPosition words.stream.endPosition rest →
      Runs words limit callee (other word) outcome) :
    Runs words limit callee (.lookFor value (words.cursor rest depth) found other) outcome := by
  cases rest with
  | nil =>
    apply look_end
    rw [if_neg nofun]
    exact h _ rfl
  | cons token after =>
    apply look_token hrest
    rw [if_neg]
    · exact h _ rfl
    · intro heq
      obtain ⟨value', position⟩ := token
      obtain rfl := Option.some.inj heq
      exact hother position after rfl

/-- In front of a token the script may move the cursor on. -/
theorem bump {next : Cursor → Script} (hrest : token :: rest <:+ words.stream.tokens)
    (h : Runs words limit callee (next (words.cursor rest depth)) outcome) :
    Runs words limit callee (.bump (words.cursor (token :: rest) depth) next) outcome := by
  rw [← Words.bumped_cursor hrest] at h
  refine ⟨.bump h.gives, fun event hdoes => ?_⟩
  cases hdoes with
  | bump => exact Words.cursor_position_succ_lt hrest depth
  | afterBump hdoes => exact h.allowed event hdoes

/-- A call that returns what a reader gives is followed by what follows the reader. -/
theorem call {method : Method} {cursor : Cursor} {next : Expr → Nat → Cursor → Script}
    {depth' : Nat} {read : Except SyntaxError (Expr × Nat × List (Located Token))}
    {f : Expr × Nat × List (Located Token) →
      Except SyntaxError (Expr × Nat × List (Located Token))}
    (hcallee : callee method cursor)
    (hreturns : Returns words limit method cursor (words.placed depth read))
    (hnext : ∀ tree height rest, read = .ok (tree, height, rest) →
      Runs words limit callee (next tree height (words.cursor rest depth))
        (words.placed depth' (f (tree, height, rest)))) :
    Runs words limit callee (.call method cursor next) (words.placed depth' (read >>= f)) := by
  cases read with
  | error e =>
    refine ⟨.callFails hreturns, fun event hdoes => ?_⟩
    cases hdoes with
    | call => exact hcallee
    | afterCall hmethod _ => cases hreturns.unique hmethod
  | ok result =>
    obtain ⟨tree, height, rest⟩ := result
    have hrest := hnext tree height rest rfl
    refine ⟨.call hreturns hrest.gives, fun event hdoes => ?_⟩
    cases hdoes with
    | call => exact hcallee
    | afterCall hmethod hdoes =>
      cases hreturns.unique hmethod
      exact hrest.allowed event hdoes

/-- A method that ends with a call returns what the call does. -/
theorem tailCall {method : Method} {cursor : Cursor} {next : Expr → Nat → Cursor → Script}
    {depth' : Nat} {read : Except SyntaxError (Expr × Nat × List (Located Token))}
    (hcallee : callee method cursor)
    (hreturns : Returns words limit method cursor (words.placed depth read))
    (hnext : ∀ tree height rest, next tree height (words.cursor rest depth) =
      .give tree height (words.cursor rest depth')) :
    Runs words limit callee (.call method cursor next) (words.placed depth' read) := by
  have h : Runs words limit callee (.call method cursor next)
      (words.placed depth' (read >>= .ok)) := by
    apply call hcallee hreturns
    intro tree height rest _
    rw [hnext]
    exact give tree height _
  cases read <;> exact h

/-- A loop runs as its next round does. -/
theorem loop {round : Loop} {cursor : Cursor}
    (h : Runs words limit callee (roundScript limit round cursor) outcome) :
    Runs words limit callee (.loop round cursor) outcome := by
  refine ⟨.loop h.gives, fun event hdoes => ?_⟩
  cases hdoes with
  | round hdoes => exact h.allowed event hdoes

/-- A height within the limit changes nothing. -/
theorem within {height : Nat} {next : Script} (hle : height ≤ limit)
    (h : Runs words limit callee next outcome) :
    Runs words limit callee (.checked limit height next) outcome := by
  rw [Script.checked, if_neg (Nat.not_lt.2 hle)]
  exact h

/-- A height beyond the limit ends the script. -/
theorem tooDeep {height : Nat} {next : Script} (hlt : limit < height) :
    Runs words limit callee (.checked limit height next) (.error (.tooDeep limit)) := by
  rw [Script.checked, if_pos hlt]
  exact fail _

/-- A script that checks a height and goes on as a reader does, does what the reader with that check
does. -/
theorem checked {height : Nat} {next : Script}
    {read : Except SyntaxError (Expr × Nat × List (Located Token))}
    (h : height ≤ limit → Runs words limit callee next (words.placed depth read)) :
    Runs words limit callee (.checked limit height next)
      (words.placed depth (checkHeight limit height >>= fun _ => read)) := by
  by_cases hle : height ≤ limit
  · rw [checkHeight_of_le hle]
    exact within hle (h hle)
  · rw [checkHeight_of_lt (Nat.lt_of_not_le hle)]
    exact tooDeep (Nat.lt_of_not_le hle)

end Runs

end Reckoner.Descent
