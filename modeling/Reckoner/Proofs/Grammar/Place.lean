import Mathlib.Data.List.Basic
import Reckoner.Proofs.Grammar

/-!
# Places in a formula

What may come next in a formula depends on the token in front and on the parentheses that
are open, each for a group or for the arguments of a call. A place is a record of these two.
Tokens that are allowed one after the other lead from place to place, which makes a machine
with a stack out of the grammar. The machine is never stuck: from every place some tokens
lead to one where the formula may end (`Place.exists_leads_end`).
-/

set_option autoImplicit false

namespace Reckoner.Grammar

/-- What a parenthesis is opened for. -/
inductive Opening where
  | group | call
  deriving DecidableEq

/-- What has to come before a formula can go on or end. -/
inductive Demand where
  | operand
  /-- The name of a function is to be called. -/
  | callParen (name : String)
  /-- An operand is complete. -/
  | nothing
  deriving DecidableEq

/-- What has to come behind the token. -/
def demandBehind : Token → Demand
  | .number _ | .identifier _ | .closeParen => .nothing
  | .member name => .callParen name
  | .operator _ | .openParen | .comma => .operand

/-- What a parenthesis is opened for behind the token. -/
def openingBehind : Option Token → Opening
  | some (.identifier _) | some (.member _) => .call
  | _ => .group

/-- A place between tokens: the token in front of it, and the parentheses that are open
there, the innermost first. -/
structure Place where
  previous : Option Token
  openings : List Opening
  deriving DecidableEq

namespace Place

/-- The place in front of all tokens. -/
def start : Place := ⟨none, []⟩

/-- The place behind the token. -/
def after (place : Place) : Token → Place
  | .openParen => ⟨some .openParen, openingBehind place.previous :: place.openings⟩
  | .closeParen => ⟨some .closeParen, place.openings.tail⟩
  | token => ⟨some token, place.openings⟩

/-- The place behind the tokens. -/
def behind (tokens : List Token) : Place :=
  tokens.foldl after start

/-- What has to come at the place. A formula starts with an operand. -/
def demand (place : Place) : Demand :=
  place.previous.elim .operand demandBehind

/-- The place is the start of the arguments of a call. -/
def startsArguments : Place → Bool
  | ⟨some .openParen, .call :: _⟩ => true
  | _ => false

/-- The place is behind a name that can be called but need not be. -/
def isBehindName : Place → Bool
  | ⟨some (.identifier _), _⟩ => true
  | _ => false

/-- The token may come next, or the end of the formula for `none`. -/
def allows (place : Place) (next : Option Token) : Bool :=
  match place.demand, next with
  | .operand, some (.number _) => true
  | .operand, some (.identifier _) => true
  | .operand, some (.member _) => true
  | .operand, some (.operator .minus) => true
  | .operand, some .openParen => true
  | .operand, some .closeParen => place.startsArguments
  | .callParen _, some .openParen => true
  | .nothing, some (.operator _) => true
  | .nothing, some .openParen => place.isBehindName
  | .nothing, some .closeParen => !place.openings.isEmpty
  | .nothing, some .comma => place.openings.head? == some .call
  | .nothing, none => place.openings.isEmpty
  | _, _ => false

/-- The token in front of the place behind a token is that token. -/
@[simp] theorem after_previous (place : Place) (token : Token) :
    (place.after token).previous = some token := by
  cases token <;> rfl

/-- A parenthesis where an operand has to come is one of a group. -/
theorem after_openParen {place : Place} (h : place.demand = .operand) :
    place.after .openParen = ⟨some .openParen, .group :: place.openings⟩ := by
  obtain ⟨_ | token, openings⟩ := place
  · rfl
  · cases token <;> first | rfl | cases h

/-- A formula may end where an operand is complete and nothing is open. -/
theorem allows_none_iff {place : Place} :
    place.allows none ↔ place.demand = .nothing ∧ place.openings = [] := by
  cases h : place.demand <;> simp [allows, h]

/-- The place behind one token more is the one behind that token. -/
theorem behind_append (tokens : List Token) (token : Token) :
    behind (tokens ++ [token]) = (behind tokens).after token := by
  simp [behind]

/-- The token in front of a place is the last one that was passed. -/
theorem behind_previous (tokens : List Token) :
    (behind tokens).previous = tokens.getLast? := by
  rcases List.eq_nil_or_concat' tokens with rfl | ⟨tokens, token, rfl⟩
  · rfl
  · rw [behind_append, after_previous, List.getLast?_concat]

/-- A call is demanded behind the name of a function and nowhere else. -/
theorem demand_eq_callParen_iff {place : Place} {name : String} :
    place.demand = .callParen name ↔ place.previous = some (.member name) := by
  obtain ⟨_ | token, openings⟩ := place
  · simp [demand]
  · cases token <;> simp [demand, demandBehind]

/-- A call is demanded exactly behind a member of `Math`. -/
theorem demand_behind_eq_callParen_iff {tokens : List Token} {name : String} :
    (behind tokens).demand = .callParen name ↔ tokens.getLast? = some (.member name) := by
  rw [demand_eq_callParen_iff, behind_previous]

end Place

/-- The tokens are allowed one after the other from the one place on, up to the other. -/
inductive Leads : Place → List Token → Place → Prop where
  | refl (place : Place) : Leads place [] place
  | step {place place' : Place} {token : Token} {tokens : List Token}
      (hallows : place.allows (some token)) (h : Leads (place.after token) tokens place') :
      Leads place (token :: tokens) place'

namespace Leads

variable {place place' place'' : Place} {tokens more : List Token}

/-- Tokens that lead to a place, and from there to another one, lead to that one. -/
theorem trans (h : Leads place tokens place') (hmore : Leads place' more place'') :
    Leads place (tokens ++ more) place'' := by
  induction h with
  | refl _ => exact hmore
  | step hallows _ ih => exact .step hallows (ih hmore)

/-- A token that is allowed leads to the place behind it. -/
theorem single {token : Token} (hallows : place.allows (some token)) :
    Leads place [token] (place.after token) :=
  .step hallows (.refl _)

/-- Tokens that lead on do so in two parts, wherever they are divided. -/
theorem of_append (h : Leads place (tokens ++ more) place'') :
    ∃ place', Leads place tokens place' ∧ Leads place' more place'' := by
  induction tokens generalizing place with
  | nil => exact ⟨place, .refl _, h⟩
  | cons token tokens ih =>
    cases h with
    | step hallows h =>
      obtain ⟨place', hfirst, hsecond⟩ := ih h
      exact ⟨place', .step hallows hfirst, hsecond⟩

/-- Tokens lead to the place behind them and to no other. -/
theorem eq_foldl (h : Leads place tokens place') : place' = tokens.foldl Place.after place := by
  induction h with
  | refl _ => rfl
  | step _ _ ih => exact ih

/-- Where tokens lead from the start depends on the tokens only. -/
theorem eq_behind (h : Leads .start tokens place) : place = .behind tokens :=
  h.eq_foldl

/-- On the way to an end every place allows what comes next. -/
theorem allows_next (h : Leads place (tokens ++ more) place'') (hend : place''.allows none)
    (hfirst : Leads place tokens place') : place'.allows more.head? := by
  obtain ⟨between, hbetween, hmore⟩ := h.of_append
  obtain rfl : between = place' := hbetween.eq_foldl.trans hfirst.eq_foldl.symm
  cases hmore with
  | refl _ => exact hend
  | step hallows _ => exact hallows

end Leads

namespace Place

/-- An operand can be completed at every place, without a change in what is open. -/
theorem exists_leads_complete (place : Place) :
    ∃ more place', Leads place more place' ∧ place'.demand = .nothing ∧
      place'.openings = place.openings := by
  cases hdemand : place.demand with
  | nothing => exact ⟨[], place, .refl _, hdemand, rfl⟩
  | operand => exact ⟨[.number 0], _, .single (by simp [allows, hdemand]), rfl, rfl⟩
  | callParen name =>
    have hprevious := demand_eq_callParen_iff.mp hdemand
    have hopen : place.allows (some .openParen) := by simp [allows, hdemand]
    have hclose : (place.after .openParen).allows (some .closeParen) := by
      simp [allows, after, demand, demandBehind, startsArguments, openingBehind, hprevious]
    exact ⟨_, _, .step hopen (.single hclose), rfl, rfl⟩

/-- Every place is in front of the end of some formula: an operand is completed, and then
everything that is open is closed. -/
theorem exists_leads_end (place : Place) :
    ∃ more place', Leads place more place' ∧ place'.allows none := by
  obtain ⟨more, complete, hmore, hdemand, -⟩ := exists_leads_complete place
  obtain ⟨openings, hopenings⟩ : ∃ openings, complete.openings = openings := ⟨_, rfl⟩
  induction openings generalizing more complete with
  | nil => exact ⟨more, complete, hmore, by simp [allows, hdemand, hopenings]⟩
  | cons opening openings ih =>
    have hclose : complete.allows (some .closeParen) := by simp [allows, hdemand, hopenings]
    exact ih _ _ (hmore.trans (.single hclose)) rfl (by simp [after, hopenings])

end Place

end Reckoner.Grammar
