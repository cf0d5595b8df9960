import Reckoner.Proofs.Grammar.Completeness
import Reckoner.Proofs.Grammar.Place

/-!
# Readers follow the places

A reader that is started at a place where an operand has to come uses tokens as long as the
places between them allow it. It stops behind a phrase, or else in front of a token that the
place does not allow, and then its error is the one that says what is missing there
(`Place.fault`); only the limit may stop it earlier (`Follows`). Each combinator of readers
preserves this (`FollowsPlaces`), and no reader goes past a token that is not allowed.
-/

set_option autoImplicit false

namespace Reckoner.Grammar

open Reader

/-- What is wrong with the tokens at the place if the first of them, or their end, is not
allowed there. -/
def Place.fault (place : Place) (endPosition : Nat) (rest : List (Located Token)) :
    SyntaxError :=
  match place.demand, rest with
  | .callParen name, rest => .expectedCallParen name (nextPosition endPosition rest)
  | .operand, [] => .unexpectedEnd
  | .nothing, [] => .unexpectedEnd
  | .operand, found :: _ => .unexpectedToken found
  | .nothing, found :: _ =>
    match place.openings with
    | [] => .trailingTokens found
    | .group :: _ => .expectedCloseParen found
    | .call :: _ => .expectedArgSeparator found

/-- The end of the tokens is unexpected wherever no name has to be called. -/
theorem Place.fault_nil {place : Place} (h : ∀ name, place.demand ≠ .callParen name)
    (endPosition : Nat) : place.fault endPosition [] = .unexpectedEnd := by
  cases hdemand : place.demand with
  | callParen name => exact absurd hdemand (h name)
  | operand => simp [fault, hdemand]
  | nothing => simp [fault, hdemand]

/-- The tokens in front of `rest` lead from the one place to the other. -/
def Reaches (place : Place) (tokens : List (Located Token)) (place' : Place)
    (rest : List (Located Token)) : Prop :=
  ∃ used, tokens = used ++ rest ∧ Leads place (used.map Located.value) place'

namespace Reaches

variable {place place' place'' : Place} {tokens rest rest' : List (Located Token)}

/-- No tokens lead nowhere else. -/
theorem refl (place : Place) (tokens : List (Located Token)) :
    Reaches place tokens place tokens :=
  ⟨[], rfl, .refl place⟩

/-- A token that is allowed leads to the place behind it. -/
theorem step {value : Token} (hallows : place.allows (some value)) (position : Nat)
    (rest : List (Located Token)) :
    Reaches place (⟨value, position⟩ :: rest) (place.after value) rest :=
  ⟨[⟨value, position⟩], rfl, .single hallows⟩

/-- Tokens lead on from the place that others have led to. -/
theorem trans (h : Reaches place tokens place' rest) (h' : Reaches place' rest place'' rest') :
    Reaches place tokens place'' rest' := by
  obtain ⟨used, rfl, hleads⟩ := h
  obtain ⟨more, rfl, hmore⟩ := h'
  refine ⟨used ++ more, (List.append_assoc _ _ _).symm, ?_⟩
  rw [List.map_append]
  exact hleads.trans hmore

end Reaches

/-- How the reading of tokens from the place on comes out: it lands somewhere as described, or
it fails because of the limit, or because of a token that is not allowed where it stands. -/
inductive Follows (limit endPosition : Nat) {α : Type} (place : Place)
    (tokens : List (Located Token)) (landing : Place → List (Located Token) → Prop) :
    Except SyntaxError (α × Nat × List (Located Token)) → Prop where
  | lands {place' : Place} {rest : List (Located Token)}
      (hreaches : Reaches place tokens place' rest) (h : landing place' rest) (value : α)
      (height : Nat) : Follows limit endPosition place tokens landing (.ok (value, height, rest))
  | tooDeep : Follows limit endPosition place tokens landing (.error (.tooDeep limit))
  | refused {place' : Place} {rest : List (Located Token)} {error : SyntaxError}
      (hreaches : Reaches place tokens place' rest)
      (h : place'.allows (rest.head?.map Located.value) = false)
      (herror : place'.fault endPosition rest = error) :
      Follows limit endPosition place tokens landing (.error error)

variable {limit endPosition : Nat}

namespace Follows

variable {α β : Type} {place place' : Place} {tokens rest : List (Located Token)}
  {landing landing' : Place → List (Located Token) → Prop}
  {x : Except SyntaxError (α × Nat × List (Located Token))}

/-- A reading that starts at a place that is reached counts as one from further back. -/
theorem since (hreaches : Reaches place tokens place' rest)
    (h : Follows limit endPosition place' rest landing x) :
    Follows limit endPosition place tokens landing x := by
  cases h with
  | lands hreaches' h value height => exact .lands (hreaches.trans hreaches') h value height
  | tooDeep => exact .tooDeep
  | refused hreaches' h herror => exact .refused (hreaches.trans hreaches') h herror

/-- What lands as described lands as described more loosely. -/
theorem mono (h : Follows limit endPosition place tokens landing x)
    (hle : ∀ place' rest, landing place' rest → landing' place' rest) :
    Follows limit endPosition place tokens landing' x := by
  cases h with
  | lands hreaches h value height => exact .lands hreaches (hle _ _ h) value height
  | tooDeep => exact .tooDeep
  | refused hreaches h herror => exact .refused hreaches h herror

/-- Where one reading lands another one starts. -/
theorem bind {f : α × Nat × List (Located Token) →
      Except SyntaxError (β × Nat × List (Located Token))}
    (h : Follows limit endPosition place tokens landing x)
    (hnext : ∀ value height place' rest, x = .ok (value, height, rest) → landing place' rest →
      Follows limit endPosition place' rest landing' (f (value, height, rest))) :
    Follows limit endPosition place tokens landing' (x >>= f) := by
  cases h with
  | lands hreaches h value height => exact (hnext value height _ _ rfl h).since hreaches
  | tooDeep => exact .tooDeep
  | refused hreaches h herror => exact .refused hreaches h herror

/-- A check of the height stops nothing but what is too deep. -/
theorem checked (height : Nat) (h : Follows limit endPosition place tokens landing x) :
    Follows limit endPosition place tokens landing (do
      checkHeight limit height
      x) := by
  by_cases hheight : height ≤ limit
  · rw [checkHeight_of_le hheight, ok_bind]
    exact h
  · rw [checkHeight_of_lt (Nat.lt_of_not_le hheight), error_bind]
    exact .tooDeep

end Follows

/-- An operand has to come at the place and the tokens do not close empty arguments instead. A
plain operand has no minus sign. -/
structure Expects (symbol : Symbol) (place : Place) (tokens : List (Located Token)) : Prop where
  demand : place.demand = .operand
  argument : ∀ position rest, tokens = ⟨.closeParen, position⟩ :: rest →
    place.startsArguments = false
  plain : symbol = .primary → ∀ position rest, tokens ≠ ⟨.operator .minus, position⟩ :: rest

/-- Phrases that may have a minus sign can begin wherever an operand has to come. -/
theorem Expects.of_ne_primary {symbol : Symbol} {place : Place} {tokens : List (Located Token)}
    (hsymbol : symbol ≠ .primary) (hdemand : place.demand = .operand)
    (hargument : ∀ position rest, tokens = ⟨.closeParen, position⟩ :: rest →
      place.startsArguments = false) : Expects symbol place tokens :=
  ⟨hdemand, hargument, fun h => absurd h hsymbol⟩

/-- The operands of every level may have a minus sign. -/
theorem Level.operand_ne_primary (level : Level) : level.operand ≠ .primary := by
  cases level <;> simp [Level.operand]

/-- The place is behind a phrase, with the parentheses open that were open in front of it, and
the tokens do not continue the phrase if they go on as the place allows. -/
structure Landed (symbol : Symbol) (openings : List Opening) (place : Place)
    (tokens : List (Located Token)) : Prop where
  demand : place.demand = .nothing
  openings_eq : place.openings = openings
  ends : ∀ token ∈ tokens.head?, place.allows (some token.value) →
    symbol.continuedBy token.value = false

/-- The reader follows the places up to the end of a phrase. -/
def FollowsPlaces (limit endPosition : Nat) (symbol : Symbol) (reader : Reader Expr) : Prop :=
  ∀ place tokens, Expects symbol place tokens →
    Follows limit endPosition place tokens (Landed symbol place.openings) (outcome (reader tokens))

/-- A reader that only refuses for the depth goes nowhere. -/
theorem followsPlaces_tooDeep (symbol : Symbol) :
    FollowsPlaces limit endPosition symbol (tooDeep limit) :=
  fun _ _ _ => .tooDeep

/-! ## Chains -/

/-- An operator that neither belongs to the level nor continues an operand of the level cannot
continue the operations. -/
theorem continuedBy_operations {level : Level} {sign : Operator}
    (hoperand : level.operand.continuedBy (.operator sign) = false)
    (hsign : level.operation? sign = none) :
    (Symbol.operations level).continuedBy (.operator sign) = false := by
  cases level <;> cases sign <;> simp_all [Symbol.continuedBy, Level.operand, Level.operation?,
    sumOperation?, productOperation?, powerOperation?]

/-- Behind an operand that no operator of its level continues, the operations end. -/
theorem Landed.operations {level : Level} {openings : List Opening} {place : Place}
    {tokens : List (Located Token)} (h : Landed level.operand openings place tokens)
    (hend : ∀ sign position rest, tokens = ⟨.operator sign, position⟩ :: rest →
      level.operation? sign = none) : Landed (.operations level) openings place tokens := by
  refine ⟨h.demand, h.openings_eq, ?_⟩
  cases tokens with
  | nil => simp
  | cons found rest =>
    obtain ⟨value, position⟩ := found
    rintro _ ⟨⟩ hallows
    have hoperand := h.ends _ rfl hallows
    cases value with
    | operator sign => exact continuedBy_operations hoperand (hend sign position rest rfl)
    | openParen => cases level <;> cases hoperand
    | _ => cases level <;> rfl

/-- From behind an operand on, a chain follows the places to the end of the operations. -/
theorem followsPlaces_chainFrom {level : Level} {operand : Reader Expr}
    (hoperand : FollowsPlaces limit endPosition level.operand operand) {openings : List Opening}
    {place : Place} {tokens : List (Located Token)}
    (h : Landed level.operand openings place tokens) (left : Expr) (height : Nat) :
    Follows limit endPosition place tokens (Landed (.operations level) openings)
      (outcome (chainFrom limit level.operation? operand left height tokens)) := by
  -- on the number of tokens left: the loop goes on with what the operand leaves
  obtain ⟨n, hn⟩ : ∃ n, tokens.length = n := ⟨_, rfl⟩
  induction n using Nat.strongRecOn generalizing place left height tokens with
  | _ n ih =>
    rcases operation_cases level.operation? tokens with
      ⟨sign, position, rest, op, rfl, hop⟩ | hend
    · have hallows : place.allows (some (.operator sign)) := by simp [Place.allows, h.demand]
      have hexpects : Expects level.operand (place.after (.operator sign)) rest :=
        .of_ne_primary level.operand_ne_primary rfl fun _ _ _ => rfl
      rw [outcome_chainFrom_operator hop]
      apply Follows.since (.step hallows position rest)
      apply (hoperand _ _ hexpects).bind
      intro right h' place' rest' hright hlanded
      rw [show (place.after (.operator sign)).openings = openings from h.openings_eq] at hlanded
      have hlt := length_lt_of_outcome hright
      rw [List.length_cons] at hn
      exact (ih rest'.length (by omega) hlanded _ _ rfl).checked _
    · rw [outcome_chainFrom_end hend]
      exact .lands (.refl _ _) (h.operations hend) left height

/-- A chain follows the places if its operands do. -/
theorem followsPlaces_chain {level : Level} {operand : Reader Expr}
    (hoperand : FollowsPlaces limit endPosition level.operand operand) :
    FollowsPlaces limit endPosition (.operations level) (chain limit level.operation? operand) := by
  intro place tokens h
  have hexpects : Expects level.operand place tokens :=
    .of_ne_primary level.operand_ne_primary h.demand h.argument
  rw [outcome_chain]
  apply (hoperand place tokens hexpects).bind
  intro first height place' rest _ hlanded
  exact followsPlaces_chainFrom hoperand hlanded first height

/-- A formula follows the places if the signed operands in it do. -/
theorem followsPlaces_sum {operand : Reader Expr}
    (hoperand : FollowsPlaces limit endPosition .signed operand) :
    FollowsPlaces limit endPosition .formula (sum limit operand) := by
  have hpower : FollowsPlaces limit endPosition (.operations .power)
      (chain limit powerOperation? operand) := followsPlaces_chain hoperand
  have hproduct : FollowsPlaces limit endPosition (.operations .product)
      (chain limit productOperation? (chain limit powerOperation? operand)) :=
    followsPlaces_chain hpower
  exact followsPlaces_chain hproduct

/-! ## Parentheses -/

/-- Behind a formula only a parenthesis that closes or a comma may come. -/
theorem Landed.refuses {openings : List Opening} {place : Place} {found : Located Token}
    {rest : List (Located Token)} (h : Landed .formula openings place (found :: rest))
    (hclose : found.value ≠ .closeParen) (hcomma : found.value ≠ .comma) :
    place.allows (some found.value) = false := by
  obtain ⟨value, position⟩ := found
  by_contra hallows
  rw [Bool.not_eq_false] at hallows
  have hends := h.ends _ rfl hallows
  cases value with
  | closeParen => exact hclose rfl
  | comma => exact hcomma rfl
  | operator _ => cases hends
  | openParen => cases hends
  | _ => simp [Place.allows, h.demand] at hallows

/-- A complete operand is a plain one as long as its last token is not a name that is called. -/
theorem landed_primary {openings : List Opening} {place : Place} {rest : List (Located Token)}
    (hdemand : place.demand = .nothing) (hopenings : place.openings = openings)
    (hcall : place.isBehindName → ∀ position rest', rest ≠ ⟨.openParen, position⟩ :: rest') :
    Landed .primary openings place rest := by
  refine ⟨hdemand, hopenings, ?_⟩
  cases rest with
  | nil => simp
  | cons found rest =>
    obtain ⟨value, position⟩ := found
    rintro _ ⟨⟩ hallows
    cases value with
    | openParen =>
      have hname : place.isBehindName := by simpa [Place.allows, hdemand] using hallows
      exact absurd rfl (hcall hname position rest)
    | _ => rfl

/-- A closing parenthesis lands behind a primary, with one parenthesis less open. -/
theorem landed_closeParen {place : Place} {opening : Opening} {openings : List Opening}
    (h : place.openings = opening :: openings) (rest : List (Located Token)) :
    Landed .primary openings (place.after .closeParen) rest :=
  landed_primary rfl (by rw [Place.after, h]; rfl) (by simp [Place.after, Place.isBehindName])

section Parentheses

variable {expression : Reader Expr} {openings : List Opening} {place : Place}
  {tokens : List (Located Token)}

/-- Arguments are followed up to the parenthesis that closes the call. -/
theorem follows_arguments (hexpression : FollowsPlaces limit endPosition .formula expression)
    (hexpects : Expects .formula place tokens) (hopenings : place.openings = .call :: openings) :
    Follows limit endPosition place tokens (Landed .primary openings)
      (outcome (arguments expression tokens)) := by
  -- on the number of tokens left, as for chains
  obtain ⟨n, hn⟩ : ∃ n, tokens.length = n := ⟨_, rfl⟩
  induction n using Nat.strongRecOn generalizing place tokens with
  | _ n ih =>
    rw [outcome_arguments]
    apply (hexpression place tokens hexpects).bind
    intro first height place' after hfirst hlanded
    rw [hopenings] at hlanded
    have hlt := length_lt_of_outcome hfirst
    have hdemand := hlanded.demand
    have hopen := hlanded.openings_eq
    cases after with
    | nil =>
      exact .refused (.refl _ _) (by simp [Place.allows, hdemand, hopen])
        (by simp [Place.fault, hdemand])
    | cons found rest =>
      obtain ⟨token, position⟩ := found
      rw [List.length_cons] at hlt
      cases token with
      | comma =>
        have hallows : place'.allows (some .comma) := by simp [Place.allows, hdemand, hopen]
        have hmore : Expects .formula (place'.after .comma) rest :=
          .of_ne_primary (by simp) rfl fun _ _ _ => rfl
        apply Follows.since (.step hallows position rest)
        apply (ih rest.length (by omega) hmore hopen rfl).bind
        intro more h place'' rest' _ hlanded'
        exact .lands (.refl _ _) hlanded' _ _
      | closeParen =>
        have hallows : place'.allows (some .closeParen) := by
          simp [Place.allows, hdemand, hopen]
        exact .lands (.step hallows position rest) (landed_closeParen hopen rest) _ _
      | _ =>
        exact .refused (.refl _ _) (hlanded.refuses (by simp) (by simp))
          (by simp [Place.fault, hdemand, hopen])

/-- A call is followed from behind its opening parenthesis on, with arguments or without. -/
theorem follows_call (hexpression : FollowsPlaces limit endPosition .formula expression)
    (hdemand : place.demand = .operand) (hstart : place.startsArguments)
    (hopenings : place.openings = .call :: openings) (name : String) :
    Follows limit endPosition place tokens (Landed .primary openings)
      (outcome (call limit expression name tokens)) := by
  rcases starts_cases .closeParen tokens with ⟨position, rest, rfl⟩ | hargument
  · have hallows : place.allows (some .closeParen) := by simp [Place.allows, hdemand, hstart]
    exact .lands (.step hallows position rest) (landed_closeParen hopenings rest) _ _
  · have hexpects : Expects .formula place tokens :=
      .of_ne_primary (by simp) hdemand fun position rest h => absurd h (hargument position rest)
    rw [outcome_call hargument]
    apply (follows_arguments hexpression hexpects hopenings).bind
    intro args height place' rest _ hlanded
    exact (Follows.lands (.refl _ _) hlanded _ _).checked _

/-- A group is followed from behind its opening parenthesis on. -/
theorem follows_group (hexpression : FollowsPlaces limit endPosition .formula expression)
    (hexpects : Expects .formula place tokens) (hopenings : place.openings = .group :: openings) :
    Follows limit endPosition place tokens (Landed .primary openings)
      (outcome (group expression tokens)) := by
  rw [outcome_group]
  apply (hexpression place tokens hexpects).bind
  intro inner height place' after _ hlanded
  rw [hopenings] at hlanded
  have hdemand := hlanded.demand
  have hopen := hlanded.openings_eq
  cases after with
  | nil =>
    exact .refused (.refl _ _) (by simp [Place.allows, hdemand, hopen])
      (by simp [Place.fault, hdemand])
  | cons found rest =>
    obtain ⟨token, position⟩ := found
    cases token with
    | closeParen =>
      have hallows : place'.allows (some .closeParen) := by simp [Place.allows, hdemand, hopen]
      exact .lands (.step hallows position rest) (landed_closeParen hopen rest) _ _
    | comma =>
      exact .refused (.refl _ _) (by simp [Place.allows, hdemand, hopen])
        (by simp [Place.fault, hdemand, hopen])
    | _ =>
      exact .refused (.refl _ _) (hlanded.refuses (by simp) (by simp))
        (by simp [Place.fault, hdemand, hopen])

end Parentheses

/-! ## Operands -/

section Operands

variable {expression inner plain : Reader Expr}

/-- A primary follows the places if the formulas in it do. -/
theorem followsPlaces_primary (hexpression : FollowsPlaces limit endPosition .formula expression) :
    FollowsPlaces limit endPosition .primary (primary limit endPosition expression) := by
  intro place tokens hexpects
  have hdemand := hexpects.demand
  cases tokens with
  | nil =>
    exact .refused (.refl _ _) (by simp [Place.allows, hdemand]) (by simp [Place.fault, hdemand])
  | cons found after =>
    obtain ⟨token, position⟩ := found
    cases token with
    | number value =>
      have hallows : place.allows (some (.number value)) := by simp [Place.allows, hdemand]
      exact .lands (.step hallows position after)
        (landed_primary rfl rfl (by simp [Place.after, Place.isBehindName])) _ _
    | identifier name =>
      have hallows : place.allows (some (.identifier name)) := by simp [Place.allows, hdemand]
      apply Follows.since (.step hallows position after)
      rcases starts_cases .openParen after with ⟨position', after', rfl⟩ | hvar
      · rw [outcome_primary_identifier_call]
        exact (follows_call hexpression rfl rfl rfl name).since (.step rfl position' after')
      · rw [outcome_primary_var hvar]
        exact .lands (.refl _ _) (landed_primary rfl rfl fun _ => hvar) _ _
    | member name =>
      have hallows : place.allows (some (.member name)) := by simp [Place.allows, hdemand]
      apply Follows.since (.step hallows position after)
      rcases starts_cases .openParen after with ⟨position', after', rfl⟩ | hmember
      · rw [outcome_primary_member_call]
        exact (follows_call hexpression rfl rfl rfl name).since (.step rfl position' after')
      · rw [outcome_primary_member hmember]
        refine .refused (.refl _ _) ?_ rfl
        cases after with
        | nil => rfl
        | cons found after =>
          obtain ⟨value, position'⟩ := found
          cases value with
          | openParen => exact absurd rfl (hmember position' after)
          | _ => rfl
    | openParen =>
      have hallows : place.allows (some .openParen) := by simp [Place.allows, hdemand]
      have hgroup := Place.after_openParen hdemand
      have hinner : Expects .formula (place.after .openParen) after :=
        .of_ne_primary (by simp) rfl fun _ _ _ => by rw [hgroup]; rfl
      rw [outcome_primary_group]
      exact (follows_group hexpression hinner (by rw [hgroup])).since (.step hallows position after)
    | closeParen =>
      -- what closes empty arguments is not left to this reader
      have hstart := hexpects.argument position after rfl
      exact .refused (.refl _ _) (by simp [Place.allows, hdemand, hstart])
        (by simp [Place.fault, hdemand])
    | operator sign =>
      have hsign : sign ≠ .minus := by
        rintro rfl
        exact hexpects.plain rfl position after rfl
      exact .refused (.refl _ _) (by simp [Place.allows, hdemand, hsign])
        (by simp [Place.fault, hdemand])
    | comma =>
      exact .refused (.refl _ _) (by simp [Place.allows, hdemand]) (by simp [Place.fault, hdemand])

/-- Minus signs stand in front, so nothing more continues a signed operand than a plain one. -/
theorem Landed.signed {openings : List Opening} {place : Place} {tokens : List (Located Token)}
    (h : Landed .primary openings place tokens) : Landed .signed openings place tokens := by
  refine ⟨h.demand, h.openings_eq, ?_⟩
  intro token hhead hallows
  have hends := h.ends token hhead hallows
  cases hvalue : token.value <;> simp_all [Symbol.continuedBy]

/-- A minus sign is followed by a signed operand, and anything else is a primary. -/
theorem followsPlaces_signed (hinner : FollowsPlaces limit endPosition .signed inner)
    (hplain : FollowsPlaces limit endPosition .primary plain) :
    FollowsPlaces limit endPosition .signed (signed limit inner plain) := by
  intro place tokens hexpects
  rcases starts_cases (.operator .minus) tokens with ⟨position, rest, rfl⟩ | hunsigned
  · have hallows : place.allows (some (.operator .minus)) := by
      simp [Place.allows, hexpects.demand]
    have hoperand : Expects .signed (place.after (.operator .minus)) rest :=
      .of_ne_primary (by simp) rfl fun _ _ _ => rfl
    rw [outcome_signed_minus]
    apply Follows.since (.step hallows position rest)
    apply (hinner _ _ hoperand).bind
    intro operand height place' rest' _ hlanded
    exact (Follows.lands (.refl _ _) hlanded _ _).checked _
  · have hoperand : Expects .primary place tokens :=
      ⟨hexpects.demand, hexpects.argument, fun _ => hunsigned⟩
    rw [outcome_signed_plain hunsigned]
    exact (hplain place tokens hoperand).mono fun _ _ => Landed.signed

end Operands

/-- Operands are read along the places, however many levels of nesting may be opened. -/
theorem followsPlaces_unary (depth : Nat) :
    FollowsPlaces limit endPosition .signed (unary limit endPosition depth) := by
  induction depth with
  | zero =>
    exact followsPlaces_signed (followsPlaces_tooDeep _)
      (followsPlaces_primary (followsPlaces_tooDeep _))
  | succ depth ih => exact followsPlaces_signed ih (followsPlaces_primary (followsPlaces_sum ih))

/-- The reader for expressions follows the places at every limit and number of levels. -/
theorem followsPlaces_expression (limit endPosition depth : Nat) :
    FollowsPlaces limit endPosition .formula (expression limit endPosition depth) := by
  cases depth with
  | zero => exact followsPlaces_tooDeep _
  | succ depth => exact followsPlaces_sum (followsPlaces_unary depth)

end Reckoner.Grammar
