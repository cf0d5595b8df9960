import Mathlib.Logic.Relation
import Reckoner.Proofs.ByteScan.Text
import Reckoner.Proofs.Scan.Anomalies
import Reckoner.Settings

/-!
# Scanning byte by byte

Tokens can also be found by going over the bytes of a text with a cursor. In every round the blanks
at the cursor are skipped, and the byte behind them decides what is done: punctuation is one byte,
two stars are two, runs of digits and points and names are gone through byte by byte, `Math.` is
jumped over at once, and a character with which no token starts is passed over as a whole. A lenient
scan reports what it drops or mends before it goes on.

Nothing here is taken for granted about where the cursor is. What is taken out of the text is taken
by `slice?`, and a step faults if there is nothing to be taken: if the cursor is beyond the end or
inside of a character.
-/

set_option autoImplicit false

namespace Reckoner.ByteScan

/-- What is being gone through. The tasks inside of a token know where the token starts. -/
inductive Task where
  /-- The start of a round. -/
  | round
  | blanks
  | number (start : Nat)
  | name (start : Nat)
  /-- The name behind `Math.`. -/
  | member (start : Nat)
  deriving DecidableEq

/-- The cursor, the task, the tokens found so far, and what has been reported so far. -/
structure State where
  position : Nat
  task : Task
  tokens : List (Located Token)
  records : List LogRecord
  deriving DecidableEq

/-- At the start of a text. -/
def State.start : State :=
  ⟨0, .round, [], []⟩

/-- A step leads to another state, ends the scan, or takes something that is not there. -/
inductive Step where
  | goes (state : State)
  | ends (result : Except (Located Anomaly) TokenStream)
  | faults

namespace State

/-- A token from `start` up to the position has been found. -/
def found (state : State) (token : Token) (start position : Nat) : State :=
  { state with position, task := .round, tokens := state.tokens ++ [⟨token, start⟩] }

/-- What is in front of the position has been passed over. -/
def dropped (state : State) (position : Nat) : State :=
  { state with position, task := .round }

/-- The anomaly has been reported. -/
def reported (state : State) (anomaly : Located Anomaly) : State :=
  { state with records := state.records ++ [.mended anomaly] }

/-- A report does not move the cursor. -/
@[simp]
theorem position_reported (state : State) (anomaly : Located Anomaly) :
    (state.reported anomaly).position = state.position := rfl

/-- Another byte has been gone through. -/
def advanced (state : State) : State :=
  { state with position := state.position + 1 }

end State

/-- What stands in front of the names of functions. -/
def mathPrefix : String :=
  "Math."

/-- The places of the points among the characters, the first of which stands at the position. -/
def pointPlaces (position : Nat) : List Char → List Nat
  | [] => []
  | c :: cs =>
    if c = '.' then position :: pointPlaces (position + c.utf8Size) cs
    else pointPlaces (position + c.utf8Size) cs

/-- The place of the second point of a literal, or its end if there is none. -/
def secondPoint (literal : String) : Nat :=
  (pointPlaces 0 literal.toList)[1]?.getD literal.utf8ByteSize

section Steps

variable (strictness : Strictness) (text : String)

/-- Something is wrong at `start`: a strict scan ends, a lenient one reports it and goes on. -/
def blame (anomaly : Anomaly) (start : Nat) (state : State) (goOn : State → Step) : Step :=
  match strictness with
  | .strict => .ends (.error ⟨anomaly, start⟩)
  | .lenient => goOn (state.reported ⟨anomaly, start⟩)

/-- No token starts with the character at the cursor. -/
def strayStep (state : State) : Step :=
  match slice? text state.position text.utf8ByteSize with
  | some (c :: _) =>
    blame strictness (.strayChar c) state.position state fun state =>
      .goes (state.dropped (state.position + c.utf8Size))
  | _ => .faults

/-- A star at the cursor, or two of them. -/
def starStep (state : State) : Step :=
  if (peek text (state.position + 1)).any (· == '*') then
    .goes (state.found (.operator .starStar) state.position (state.position + 2))
  else .goes (state.found (.operator .star) state.position (state.position + 1))

/-- A name starts at the cursor; `Math.` is jumped over. -/
def nameStartStep (state : State) : Step :=
  match startsWith? text state.position mathPrefix with
  | some true =>
    .goes { state with
      position := state.position + mathPrefix.utf8ByteSize, task := .member state.position }
  | some false => .goes { state with task := .name state.position }
  | none => .faults

/-- What is done at the first byte of a token, shown as a character. -/
def tokenStep (state : State) (c : Char) : Step :=
  if c = '*' then starStep text state
  else match punctuation? c with
    | some token => .goes (state.found token state.position (state.position + 1))
    | none =>
      if isNumberChar c then .goes { state with task := .number state.position }
      else if isNameStart c then nameStartStep text state
      else strayStep strictness text state

/-- The run of digits and points from `start` is complete. -/
def numberStep (state : State) (start : Nat) : Step :=
  match slice? text start state.position with
  | some literal =>
    match Decimal.ofRun? literal with
    | some d => .goes (state.found (.number d.toFloat) start state.position)
    | none =>
      blame strictness (.malformedNumber (String.ofList literal)) start state fun state =>
        match slice? (String.ofList literal) 0 (secondPoint (String.ofList literal)) with
        | some leading =>
          let value := ((Decimal.ofRun? leading).map Decimal.toFloat).getD Number.nan
          .goes (state.found (.number value) start state.position)
        | none => .faults
  | none => .faults

/-- The name from `start` is complete. -/
def nameStep (state : State) (start : Nat) : Step :=
  match slice? text start state.position with
  | some name => .goes (state.found (.identifier (String.ofList name)) start state.position)
  | none => .faults

/-- The name behind the `Math.` at `start` is complete. -/
def memberStep (state : State) (start : Nat) : Step :=
  match slice? text (start + mathPrefix.utf8ByteSize) state.position with
  | some chars =>
    let name := String.ofList chars
    if MathFunction.isAllowed name then .goes (state.found (.member name) start state.position)
    else blame strictness (.unknownMember name) start state fun state =>
      .goes (state.dropped state.position)
  | none => .faults

/-- Goes on over a byte of the class; otherwise what was gone through is complete. -/
def runStep (p : Char → Bool) (state : State) (complete : Step) : Step :=
  if (peek text state.position).any p then .goes state.advanced else complete

/-- What is done in a state. -/
def step (state : State) : Step :=
  match state.task with
  | .round => .goes { state with task := .blanks }
  | .blanks =>
    match peek text state.position with
    | none => .ends (.ok ⟨state.tokens, state.position⟩)
    | some c => if isBlank c then .goes state.advanced else tokenStep strictness text state c
  | .number start => runStep text isNumberChar state (numberStep strictness text state start)
  | .name start => runStep text isNameChar state (nameStep text state start)
  | .member start => runStep text isNameChar state (memberStep strictness text state start)

/-- One state leads to the other. -/
def Goes (state state' : State) : Prop :=
  step strictness text state = .goes state'

/-- The state comes about when the text is scanned. -/
def Reached (state : State) : Prop :=
  Relation.ReflTransGen (Goes strictness text) .start state

end Steps

/-! ## The literal up to its second point -/

/-- The first point stands behind the characters that are none; without one, this is the end. -/
theorem first_pointPlaces (position : Nat) (cs : List Char) :
    (pointPlaces position cs)[0]?.getD (position + byteLength cs) =
      position + byteLength (cs.takeWhile (· != '.')) := by
  induction cs generalizing position with
  | nil => rfl
  | cons c cs ih =>
    rw [pointPlaces]
    by_cases hc : c = '.'
    · simp [hc, byteLength]
    · simp only [if_neg hc, byteLength, ← Nat.add_assoc, ih]
      simp [hc, byteLength, Nat.add_assoc]

/-- The second point stands behind what is in front of it; without one, this is the end. -/
theorem second_pointPlaces (position : Nat) (run : List Char) :
    (pointPlaces position run)[1]?.getD (position + byteLength run) =
      position + byteLength (beforeSecondPoint run) := by
  induction run generalizing position with
  | nil => rfl
  | cons c cs ih =>
    rw [pointPlaces]
    by_cases hc : c = '.'
    · have hfirst := first_pointPlaces (position + c.utf8Size) cs
      subst hc
      simp only [if_pos, List.getElem?_cons_succ, byteLength, ← Nat.add_assoc, hfirst]
      simp [beforeSecondPoint, byteLength, Nat.add_assoc]
    · have hkept : beforeSecondPoint (c :: cs) = c :: beforeSecondPoint cs := by
        simp only [beforeSecondPoint, List.takeWhile_cons, List.dropWhile_cons, bne_iff_ne, ne_eq,
          hc, not_false_eq_true, if_true]
        cases cs.dropWhile (· != '.') <;> rfl
      simp only [if_neg hc, hkept, byteLength, ← Nat.add_assoc, ih]

/-- What is taken of a literal up to its second point is there. -/
theorem slice?_secondPoint (run : List Char) :
    slice? (String.ofList run) 0 (secondPoint (String.ofList run)) =
      some (beforeSecondPoint run) := by
  obtain ⟨behind, hbehind⟩ := beforeSecondPoint_isPrefix run
  have htext : (String.ofList run).toList = [] ++ (beforeSecondPoint run ++ behind) := by
    rw [String.toList_ofList, hbehind, List.nil_append]
  have hplace := second_pointPlaces 0 run
  rw [Nat.zero_add] at hplace
  have hsize : byteLength run = (String.ofList run).utf8ByteSize := by
    rw [← byteLength_toList, String.toList_ofList]
  rw [secondPoint, String.toList_ofList, ← hsize, hplace]
  exact slice?_eq htext

end Reckoner.ByteScan
