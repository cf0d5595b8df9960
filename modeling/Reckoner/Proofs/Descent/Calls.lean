import Reckoner.Proofs.Grammar.Soundness

/-!
# Descent with a cursor

Tokens can also be read without taking a list apart: the words lie in a vector, a cursor
holds the index of the next word and a counter of the levels that are open, and every kind
of phrase has a method that moves the cursor over a phrase of its kind. The methods call
each other.

Nothing about the description of the methods assumes that they are any good: that they end,
that they stay inside the vector or that they set the counter back. A method is a script of
what it does (it looks at a word, moves the cursor on, calls a method), with a continuation
for every answer. What a script gives is a relation (`Gives`), which holds of no outcome
where the calls go round in circles, and so is what a script does on the way (`Does`).
-/

set_option autoImplicit false

namespace Reckoner.Descent

open Grammar

/-! ## Words -/

/-- A token, or an end of the input, and the place where it is. -/
abbrev Word := Located (Option Token)

/-- The token as a word. -/
def wordOf (token : Located Token) : Word :=
  ⟨some token.value, token.position⟩

/-- Words of which the last is an end. There may be other ends before it. -/
structure Words where
  toList : List Word
  ends : ∃ before position, toList = before ++ [⟨none, position⟩]

/-- The words, with an end behind them if they have none. -/
def Words.close (words : List Word) : Words :=
  match h : words.getLast? with
  | none => ⟨[⟨none, 0⟩], [], 0, rfl⟩
  | some ⟨none, position⟩ =>
    ⟨words, (List.getLast?_eq_some_iff.1 h).imp fun _ heq => ⟨position, heq⟩⟩
  | some ⟨some _, position⟩ => ⟨words ++ [⟨none, position⟩], words, position, rfl⟩

/-- The tokens in front of the first end, and the place of that end. -/
def streamOf : List Word → TokenStream
  | [] => ⟨[], 0⟩
  | ⟨none, position⟩ :: _ => ⟨[], position⟩
  | ⟨some token, position⟩ :: words =>
    ⟨⟨token, position⟩ :: (streamOf words).tokens, (streamOf words).endPosition⟩

namespace Words

/-- The number of words, with all ends. -/
def size (words : Words) : Nat :=
  words.toList.length

/-- What can be read of the words. -/
def stream (words : Words) : TokenStream :=
  streamOf words.toList

/-- There is at least one word, the end. -/
theorem size_pos (words : Words) : 0 < words.size := by
  obtain ⟨before, position, h⟩ := words.ends
  rw [size, h, List.length_append, List.length_singleton]
  exact Nat.succ_pos _

/-- The word at the index, and the last word if the index is too large. -/
def look (words : Words) (position : Nat) : Word :=
  words.toList.get ⟨min position (words.size - 1),
    Nat.lt_of_le_of_lt (Nat.min_le_right _ _) (Nat.sub_one_lt (Nat.ne_of_gt words.size_pos))⟩

/-- Words that end need no other end, so they all come about by closing a list. -/
theorem close_toList (words : Words) : close words.toList = words := by
  obtain ⟨list, before, position, rfl⟩ := words
  have hlast : (before ++ [(⟨none, position⟩ : Word)]).getLast? = some ⟨none, position⟩ :=
    List.getLast?_concat
  unfold close
  split
  next h => rw [hlast] at h; cases h
  next => rfl
  next h => rw [hlast] at h; cases h

/-- A list with an end somewhere consists of the tokens in front of its first end, of that end, and
of what comes after. -/
theorem exists_streamOf_eq {words : List Word} (h : ∃ word ∈ words, word.value = none) :
    ∃ after, words = (streamOf words).tokens.map wordOf ++
      ⟨none, (streamOf words).endPosition⟩ :: after := by
  induction words with
  | nil => simp at h
  | cons word words ih =>
    obtain ⟨value, position⟩ := word
    cases value with
    | none => exact ⟨words, rfl⟩
    | some token =>
      obtain ⟨after, hafter⟩ := ih (by simpa using h)
      refine ⟨after, ?_⟩
      rw [streamOf, List.map_cons, List.cons_append, ← hafter]
      rfl

/-- The words are the tokens of their stream, the end of it, and words that nobody reads. -/
theorem exists_toList_eq (words : Words) :
    ∃ after, words.toList = words.stream.tokens.map wordOf ++
      ⟨none, words.stream.endPosition⟩ :: after := by
  apply exists_streamOf_eq
  obtain ⟨before, position, h⟩ := words.ends
  exact ⟨⟨none, position⟩, by simp [h], rfl⟩

end Words

/-! ## Methods -/

/-- The index of the next word, and the number of levels that are open. -/
structure Cursor where
  position : Nat
  depth : Nat
  deriving DecidableEq

/-- The methods, one for every kind of phrase. -/
inductive Method where
  | expression
  | operations (level : Level)
  | unary
  | primary
  /-- A call from its opening parenthesis on, the name having been read. -/
  | call (name : String)

/-- How tightly the phrases of a method bind: the methods in the order in which one hands
over to the next without reading anything. -/
def Method.tightness : Method → Nat
  | .expression => 0
  | .operations .sum => 1
  | .operations .product => 2
  | .operations .power => 3
  | .unary => 4
  | .primary => 5
  | .call _ => 6

/-- The method that reads what stands between the operators of a level. -/
def operandMethod : Level → Method
  | .sum => .operations .product
  | .product => .operations .power
  | .power => .unary

/-- The loops inside methods, at the start of a round, with what they have gathered. -/
inductive Loop where
  /-- Operands joined so far, and the height of their tree. -/
  | operations (level : Level) (left : Expr) (height : Nat)
  /-- Arguments read so far, and the height of the tallest. -/
  | arguments (name : String) (args : List Expr) (height : Nat)

/-- What is left to do. A call goes on with the tree and its height that it gives, and with the
cursor as it leaves it; an error in it is one of the caller. -/
inductive Script where
  | fail (error : SyntaxError)
  | give (tree : Expr) (height : Nat) (cursor : Cursor)
  | look (cursor : Cursor) (next : Word → Script)
  | bump (cursor : Cursor) (next : Cursor → Script)
  | call (method : Method) (cursor : Cursor) (next : Expr → Nat → Cursor → Script)
  | loop (round : Loop) (cursor : Cursor)

namespace Script

/-- Goes on if a height or a depth is within the limit. -/
def checked (limit height : Nat) (next : Script) : Script :=
  if limit < height then .fail (.tooDeep limit) else next

/-- Looks whether the next word is the given token. -/
def lookFor (token : Token) (cursor : Cursor) (found : Script) (other : Word → Script) : Script :=
  .look cursor fun word => if word.value = some token then found else other word

end Script

/-- A round of a loop. -/
def roundScript (limit : Nat) : Loop → Cursor → Script
  | .operations level left height, cursor =>
    .look cursor fun word =>
      match word.value with
      | some (.operator sign) =>
        match level.operation? sign with
        | some op =>
          .bump cursor fun cursor =>
          .call (operandMethod level) cursor fun right h cursor =>
          .checked limit (max height h + 1)
            (.loop (.operations level (.binary op left right) (max height h + 1)) cursor)
        | none => .give left height cursor
      | _ => .give left height cursor
  | .arguments name args height, cursor =>
    .call .expression cursor fun arg h cursor =>
    .look cursor fun word =>
      match word.value with
      | some .comma =>
        .bump cursor fun cursor => .loop (.arguments name (args ++ [arg]) (max height h)) cursor
      | some .closeParen =>
        .bump cursor fun cursor =>
        .checked limit (max height h + 1) <|
          .give (.call name (args ++ [arg])) (max height h + 1) cursor
      | some found => .fail (.expectedArgSeparator ⟨found, word.position⟩)
      | none => .fail .unexpectedEnd

/-- The body of a method. -/
def methodScript (limit : Nat) : Method → Cursor → Script
  | .expression, cursor =>
    .checked limit (cursor.depth + 1) <|
      .call (.operations .sum) { cursor with depth := cursor.depth + 1 } fun tree h cursor =>
      .give tree h { cursor with depth := cursor.depth - 1 }
  | .operations level, cursor =>
    .call (operandMethod level) cursor fun left h cursor =>
    .loop (.operations level left h) cursor
  | .unary, cursor =>
    .lookFor (.operator .minus) cursor
      (.bump cursor fun cursor =>
        .checked limit (cursor.depth + 1) <|
          .call .unary { cursor with depth := cursor.depth + 1 } fun operand h cursor =>
          .checked limit (h + 1) <|
            .give (.neg operand) (h + 1) { cursor with depth := cursor.depth - 1 })
      fun _ => .call .primary cursor .give
  | .primary, cursor =>
    .look cursor fun word =>
      match word.value with
      | some (.number value) => .bump cursor fun cursor => .give (.literal value) 1 cursor
      | some (.identifier name) =>
        .bump cursor fun cursor =>
        .lookFor .openParen cursor (.call (.call name) cursor .give)
          fun _ => .give (.var name) 1 cursor
      | some (.member name) =>
        .bump cursor fun cursor =>
        .lookFor .openParen cursor (.call (.call name) cursor .give)
          fun word => .fail (.expectedCallParen name word.position)
      | some .openParen =>
        .bump cursor fun cursor =>
        .call .expression cursor fun tree h cursor =>
        .look cursor fun word =>
          match word.value with
          | some .closeParen => .bump cursor (.give tree h)
          | some found => .fail (.expectedCloseParen ⟨found, word.position⟩)
          | none => .fail .unexpectedEnd
      | some found => .fail (.unexpectedToken ⟨found, word.position⟩)
      | none => .fail .unexpectedEnd
  | .call name, cursor =>
    .bump cursor fun cursor =>
    .lookFor .closeParen cursor
      (.bump cursor fun cursor => .give (.call name []) 1 cursor)
      fun _ => .loop (.arguments name [] 0) cursor

/-- Reads an expression from the first word on, behind which there has to be an end. -/
def formulaScript : Script :=
  .call .expression ⟨0, 0⟩ fun tree h cursor =>
  .look cursor fun word =>
    match word.value with
    | some found => .fail (.trailingTokens ⟨found, word.position⟩)
    | none => .give tree h cursor

/-! ## What methods give and do -/

/-- What is left of a method that has ended. -/
abbrev Outcome := Except SyntaxError (Expr × Nat × Cursor)

/-- The cursor on the next word, if there is one. -/
def bumped (words : Words) (cursor : Cursor) : Cursor :=
  if cursor.position + 1 < words.size then { cursor with position := cursor.position + 1 }
  else cursor

/-- The script ends, and with the outcome. -/
inductive Gives (words : Words) (limit : Nat) : Script → Outcome → Prop where
  | fail (error : SyntaxError) : Gives words limit (.fail error) (.error error)
  | give (tree : Expr) (height : Nat) (cursor : Cursor) :
      Gives words limit (.give tree height cursor) (.ok (tree, height, cursor))
  | look {cursor : Cursor} {next : Word → Script} {outcome : Outcome}
      (h : Gives words limit (next (words.look cursor.position)) outcome) :
      Gives words limit (.look cursor next) outcome
  | bump {cursor : Cursor} {next : Cursor → Script} {outcome : Outcome}
      (h : Gives words limit (next (bumped words cursor)) outcome) :
      Gives words limit (.bump cursor next) outcome
  | call {method : Method} {cursor cursor' : Cursor} {next : Expr → Nat → Cursor → Script}
      {tree : Expr} {height : Nat} {outcome : Outcome}
      (hmethod : Gives words limit (methodScript limit method cursor)
        (.ok (tree, height, cursor')))
      (hnext : Gives words limit (next tree height cursor') outcome) :
      Gives words limit (.call method cursor next) outcome
  | callFails {method : Method} {cursor : Cursor} {next : Expr → Nat → Cursor → Script}
      {error : SyntaxError}
      (hmethod : Gives words limit (methodScript limit method cursor) (.error error)) :
      Gives words limit (.call method cursor next) (.error error)
  | loop {round : Loop} {cursor : Cursor} {outcome : Outcome}
      (h : Gives words limit (roundScript limit round cursor) outcome) :
      Gives words limit (.loop round cursor) outcome

/-- Reading a formula of the words ends with the tree or with the error. -/
def Words.Yields (words : Words) (limit : Nat) (result : Except SyntaxError Expr) : Prop :=
  ∃ outcome, Gives words limit formulaScript outcome ∧ Prod.fst <$> outcome = result

/-- The method, called with the cursor, returns with the outcome. -/
def Returns (words : Words) (limit : Nat) (method : Method) (cursor : Cursor)
    (outcome : Outcome) : Prop :=
  Gives words limit (methodScript limit method cursor) outcome

/-- What a script does to the vector and to other methods. -/
inductive Event where
  | looks (position : Nat)
  | bumps (position : Nat)
  | calls (method : Method) (cursor : Cursor)

/-- The script comes to do it, whether it ends or not. What a method does that it calls is done
by that method. -/
inductive Does (words : Words) (limit : Nat) : Script → Event → Prop where
  | look (cursor : Cursor) (next : Word → Script) :
      Does words limit (.look cursor next) (.looks cursor.position)
  | afterLook {cursor : Cursor} {next : Word → Script} {event : Event}
      (h : Does words limit (next (words.look cursor.position)) event) :
      Does words limit (.look cursor next) event
  | bump (cursor : Cursor) (next : Cursor → Script) :
      Does words limit (.bump cursor next) (.bumps cursor.position)
  | afterBump {cursor : Cursor} {next : Cursor → Script} {event : Event}
      (h : Does words limit (next (bumped words cursor)) event) :
      Does words limit (.bump cursor next) event
  | call (method : Method) (cursor : Cursor) (next : Expr → Nat → Cursor → Script) :
      Does words limit (.call method cursor next) (.calls method cursor)
  | afterCall {method : Method} {cursor cursor' : Cursor} {next : Expr → Nat → Cursor → Script}
      {tree : Expr} {height : Nat} {event : Event}
      (hmethod : Returns words limit method cursor (.ok (tree, height, cursor')))
      (h : Does words limit (next tree height cursor') event) :
      Does words limit (.call method cursor next) event
  | round {round : Loop} {cursor : Cursor} {event : Event}
      (h : Does words limit (roundScript limit round cursor) event) :
      Does words limit (.loop round cursor) event

/-- The method comes to be called with the cursor when a formula is read. -/
inductive Reached (words : Words) (limit : Nat) : Method → Cursor → Prop where
  | start {method : Method} {cursor : Cursor}
      (h : Does words limit formulaScript (.calls method cursor)) :
      Reached words limit method cursor
  | nested {caller method : Method} {cursor cursor' : Cursor}
      (hcaller : Reached words limit caller cursor)
      (h : Does words limit (methodScript limit caller cursor) (.calls method cursor')) :
      Reached words limit method cursor'

end Reckoner.Descent
