import Reckoner.Proofs.Grammar.DepthLimit
import Reckoner.Proofs.Grammar.Follow

/-!
# The first fault

Tokens that are no formula have a first token, or else their end, with which no formula goes
on. This is where the reader fails, not a token later, and what it says depends on the tokens
in front only: on the last of them, on whether they are a formula, and on the innermost
parenthesis that is open behind them.

The tokens that some formula starts with are those that lead from place to place
(`beginsFormula_iff_leads`), and a formula is what leads to a place where it may end
(`isFormula_iff_leads`).
-/

set_option autoImplicit false

namespace Reckoner.Grammar

open Reader

/-- The tokens are a formula. -/
def IsFormula (tokens : List Token) : Prop :=
  ∃ tree nesting, Derives .formula tokens tree nesting

/-- The tokens and, as `none`, their end. -/
def ended (tokens : List Token) : List (Option Token) :=
  tokens.map some ++ [none]

/-- Some formula starts with what is given, its end included. -/
def BeginsFormula (words : List (Option Token)) : Prop :=
  ∃ tokens, IsFormula tokens ∧ words <+: ended tokens

/-- What stands at the index, a token or the end, is the first with which no formula goes on. -/
structure FirstFault (tokens : List Token) (index : Nat) : Prop where
  index_le : index ≤ tokens.length
  fault : ¬ BeginsFormula ((ended tokens).take (index + 1))
  first : ∀ i < index, BeginsFormula ((ended tokens).take (i + 1))

/-- What is to be said about tokens that go on with `rest` behind `before` although no formula
does. -/
inductive Fault (endPosition : Nat) (before : List Token) :
    List (Located Token) → SyntaxError → Prop where
  /-- The last token is the name of a function, which can only be called. -/
  | expectedCallParen {name : String} (h : before.getLast? = some (.member name))
      (rest : List (Located Token)) :
      Fault endPosition before rest (.expectedCallParen name (nextPosition endPosition rest))
  | unexpectedEnd (h : ∀ name, before.getLast? ≠ some (.member name)) :
      Fault endPosition before [] .unexpectedEnd
  /-- The tokens in front are a formula. -/
  | trailingTokens (h : IsFormula before) (found : Located Token) (rest : List (Located Token)) :
      Fault endPosition before (found :: rest) (.trailingTokens found)
  /-- An operand is complete, and it stands in a group. -/
  | expectedCloseParen (hcomplete : (Place.behind before).demand = .nothing)
      (hopen : (Place.behind before).openings.head? = some .group) (found : Located Token)
      (rest : List (Located Token)) :
      Fault endPosition before (found :: rest) (.expectedCloseParen found)
  /-- An operand is complete, and it stands among the arguments of a call. -/
  | expectedArgSeparator (hcomplete : (Place.behind before).demand = .nothing)
      (hopen : (Place.behind before).openings.head? = some .call) (found : Located Token)
      (rest : List (Located Token)) :
      Fault endPosition before (found :: rest) (.expectedArgSeparator found)
  /-- An operand has to come. -/
  | unexpectedToken (h : (Place.behind before).demand = .operand) (found : Located Token)
      (rest : List (Located Token)) :
      Fault endPosition before (found :: rest) (.unexpectedToken found)

/-! ## The reader of streams -/

/-- A stream leads to a place where a formula may end, or it is too deep, or it fails in front of
something that is not allowed. -/
theorem ofTokens_outcomes (limit : Nat) (stream : TokenStream) :
    (∃ tree place, Expr.ofTokens limit stream = .ok tree ∧
      Leads .start (stream.tokens.map Located.value) place ∧ place.allows none) ∨
    Expr.ofTokens limit stream = .error (.tooDeep limit) ∨
    ∃ place rest, Reaches .start stream.tokens place rest ∧
      place.allows (rest.head?.map Located.value) = false ∧
      Expr.ofTokens limit stream = .error (place.fault stream.endPosition rest) := by
  have hexpects : Expects .formula .start stream.tokens :=
    .of_ne_primary (by simp) rfl fun _ _ _ => rfl
  have hfollows :=
    followsPlaces_expression limit stream.endPosition limit .start stream.tokens hexpects
  rw [ofTokens_eq]
  generalize outcome (expression limit stream.endPosition limit stream.tokens) = x at hfollows
  cases hfollows with
  | tooDeep => exact .inr (.inl rfl)
  | refused hreaches hrefuses herror =>
    exact .inr (.inr ⟨_, _, hreaches, hrefuses, by rw [herror, error_bind]⟩)
  | @lands place rest hreaches hlanded tree height =>
    have hdemand := hlanded.demand
    have hopen : place.openings = [] := hlanded.openings_eq
    cases rest with
    | nil =>
      obtain ⟨used, htokens, hleads⟩ := hreaches
      rw [List.append_nil] at htokens
      rw [htokens]
      exact .inl ⟨tree, place, rfl, hleads, by simp [Place.allows, hdemand, hopen]⟩
    | cons found rest =>
      have hrefuses : place.allows (some found.value) = false := by
        obtain ⟨value, position⟩ := found
        cases value with
        | closeParen => simp [Place.allows, hdemand, hopen]
        | comma => simp [Place.allows, hdemand, hopen]
        | _ => exact hlanded.refuses (by simp) (by simp)
      have herror : place.fault stream.endPosition (found :: rest) = .trailingTokens found := by
        simp [Place.fault, hdemand, hopen]
      exact .inr (.inr ⟨place, found :: rest, hreaches, hrefuses, by rw [herror]; rfl⟩)

/-- Where the limit has room for all tokens they lead to an end, or fail in front of something that
is not allowed. -/
theorem ofTokens_cases {limit : Nat} {stream : TokenStream} (h : stream.tokens.length < limit) :
    (∃ tree place, Expr.ofTokens limit stream = .ok tree ∧
      Leads .start (stream.tokens.map Located.value) place ∧ place.allows none) ∨
    ∃ place rest, Reaches .start stream.tokens place rest ∧
      place.allows (rest.head?.map Located.value) = false ∧
      Expr.ofTokens limit stream = .error (place.fault stream.endPosition rest) := by
  rcases ofTokens_outcomes limit stream with hends | htooDeep | hrefused
  · exact .inl hends
  · exact absurd htooDeep (notTooDeep_ofTokens h limit)
  · exact .inr hrefused

/-! ## Formulas and their starts -/

/-- A formula is what leads to a place where it may end. -/
theorem isFormula_iff_leads {tokens : List Token} :
    IsFormula tokens ↔ ∃ place, Leads .start tokens place ∧ place.allows none := by
  obtain ⟨located, rfl⟩ : ∃ located : List (Located Token), tokens = located.map Located.value :=
    ⟨tokens.map (⟨·, 0⟩), by simp [Function.comp_def]⟩
  constructor
  · rintro ⟨tree, nesting, hderives⟩
    have hread : Expr.ofTokens (max tree.height nesting) ⟨located, 0⟩ = .ok tree := by
      rw [ofTokens_of_derives hderives, allowed, if_pos (by omega)]
    rcases ofTokens_outcomes (max tree.height nesting) ⟨located, 0⟩ with
      ⟨_, place, -, hleads, hend⟩ | htooDeep | ⟨place, rest, -, -, herror⟩
    · exact ⟨place, hleads, hend⟩
    · rw [hread] at htooDeep
      cases htooDeep
    · rw [hread] at herror
      cases herror
  · rintro ⟨place, hleads, hend⟩
    have hlength : (⟨located, 0⟩ : TokenStream).tokens.length < located.length + 1 :=
      Nat.lt_succ_self _
    rcases ofTokens_cases hlength with
      ⟨tree, -, hread, -⟩ | ⟨place', rest, ⟨used, htokens, hused⟩, hrefuses, -⟩
    · obtain ⟨nesting, hderives, -⟩ := derives_of_ofTokens hread
      exact ⟨tree, nesting, hderives⟩
    · -- what is refused is allowed on the way to the end
      obtain rfl : located = used ++ rest := htokens
      rw [List.map_append] at hleads
      have hallows := hleads.allows_next hend hused
      rw [List.head?_map, hrefuses] at hallows
      cases hallows

/-- Wherever tokens lead, some formula starts with them. -/
theorem beginsFormula_of_leads {tokens : List Token} {place : Place}
    (h : Leads .start tokens place) : BeginsFormula (tokens.map some) := by
  obtain ⟨more, place', hmore, hend⟩ := place.exists_leads_end
  refine ⟨tokens ++ more, isFormula_iff_leads.mpr ⟨place', h.trans hmore, hend⟩, ?_⟩
  exact ⟨more.map some ++ [none], by simp [ended]⟩

/-- Tokens with an end behind them are the front ones and then the others with the end. -/
theorem ended_append (tokens more : List Token) :
    ended (tokens ++ more) = tokens.map some ++ ended more := by
  simp [ended]

/-- What stands behind the first tokens of a formula is the next token or, if there is none, the
end. -/
theorem exists_of_prefix_ended {tokens formula : List Token} {next : Option Token}
    (h : tokens.map some ++ [next] <+: ended formula) :
    ∃ more, formula = tokens ++ more ∧ next = more.head? := by
  induction tokens generalizing formula with
  | nil =>
    refine ⟨formula, rfl, ?_⟩
    cases formula <;> exact (List.cons_prefix_cons.mp h).1
  | cons token tokens ih =>
    cases formula with
    | nil => cases (List.cons_prefix_cons.mp h).1
    | cons head formula =>
      obtain ⟨hhead, htail⟩ := List.cons_prefix_cons.mp h
      obtain ⟨more, rfl, hnext⟩ := ih htail
      cases hhead
      exact ⟨more, rfl, hnext⟩

/-- Behind tokens a formula goes on with what is allowed where they lead. -/
theorem beginsFormula_iff_leads {tokens : List Token} {next : Option Token} :
    BeginsFormula (tokens.map some ++ [next]) ↔
      ∃ place, Leads .start tokens place ∧ place.allows next := by
  constructor
  · rintro ⟨formula, hformula, hstarts⟩
    obtain ⟨place', hleads, hend⟩ := isFormula_iff_leads.mp hformula
    obtain ⟨more, rfl, hnext⟩ := exists_of_prefix_ended hstarts
    obtain ⟨place, hfirst, -⟩ := hleads.of_append
    exact ⟨place, hfirst, by rw [hnext]; exact hleads.allows_next hend hfirst⟩
  · rintro ⟨place, hleads, hallows⟩
    cases next with
    | none => exact ⟨tokens, isFormula_iff_leads.mpr ⟨place, hleads, hallows⟩, List.prefix_rfl⟩
    | some token =>
      have hmore := beginsFormula_of_leads (hleads.trans (.single hallows))
      rwa [List.map_append] at hmore

/-- What has a formula behind it has one at every place in front. -/
theorem BeginsFormula.of_start {words more : List (Option Token)} (h : BeginsFormula more)
    (hstarts : words <+: more) : BeginsFormula words := by
  obtain ⟨tokens, hformula, hmore⟩ := h
  exact ⟨tokens, hformula, hstarts.trans hmore⟩

/-! ## The place of the fault -/

/-- One word more than the front tokens is the token behind them, or the end. -/
theorem take_ended (tokens more : List Token) :
    (ended (tokens ++ more)).take (tokens.length + 1) = tokens.map some ++ [more.head?] := by
  rw [ended_append, ← List.length_map some, List.take_length_add_append]
  cases more <;> rfl

/-- The first fault is where the tokens lead to a place that does not allow what comes next. -/
theorem firstFault_of_refused {tokens : List Token} {place : Place}
    (h : Leads .start tokens place) {more : List Token}
    (hrefuses : place.allows more.head? = false) :
    FirstFault (tokens ++ more) tokens.length := by
  refine ⟨by simp, ?_, ?_⟩
  · rw [take_ended, beginsFormula_iff_leads]
    rintro ⟨place', hleads, hallows⟩
    obtain rfl : place' = place := hleads.eq_behind.trans h.eq_behind.symm
    rw [hrefuses] at hallows
    cases hallows
  · intro i hi
    apply (beginsFormula_of_leads h).of_start
    rw [ended_append, List.take_append_of_le_length (by rwa [List.length_map])]
    exact List.take_prefix _ _

/-- There is one first fault at most. -/
theorem FirstFault.unique {tokens : List Token} {i j : Nat} (hi : FirstFault tokens i)
    (hj : FirstFault tokens j) : i = j := by
  rcases Nat.lt_trichotomy i j with hlt | heq | hgt
  · exact absurd (hj.first i hlt) hi.fault
  · exact heq
  · exact absurd (hi.first j hgt) hj.fault

/-- A formula has no fault. -/
theorem not_firstFault_of_isFormula {tokens : List Token} (h : IsFormula tokens) (index : Nat) :
    ¬ FirstFault tokens index :=
  fun hfault => hfault.fault ⟨tokens, h, List.take_prefix _ _⟩

/-! ## The error -/

/-- What is to be said about tokens is what is wrong at the place where they lead. -/
theorem Fault.eq_place_fault {endPosition : Nat} {before : List Token}
    {rest : List (Located Token)} {error : SyntaxError}
    (h : Fault endPosition before rest error) :
    (Place.behind before).fault endPosition rest = error := by
  cases h with
  | expectedCallParen hlast _ =>
    have hdemand := Place.demand_behind_eq_callParen_iff.mpr hlast
    simp [Place.fault, hdemand]
  | unexpectedEnd hlast =>
    apply Place.fault_nil
    simpa [Place.demand_behind_eq_callParen_iff] using hlast
  | trailingTokens hformula _ _ =>
    obtain ⟨place, hleads, hend⟩ := isFormula_iff_leads.mp hformula
    rw [hleads.eq_behind] at hend
    obtain ⟨hdemand, hopen⟩ := Place.allows_none_iff.mp hend
    simp [Place.fault, hdemand, hopen]
  | expectedCloseParen hdemand hopen _ _ =>
    obtain ⟨openings, hopen⟩ := List.head?_eq_some_iff.mp hopen
    simp [Place.fault, hdemand, hopen]
  | expectedArgSeparator hdemand hopen _ _ =>
    obtain ⟨openings, hopen⟩ := List.head?_eq_some_iff.mp hopen
    simp [Place.fault, hdemand, hopen]
  | unexpectedToken hdemand _ _ => simp [Place.fault, hdemand]

/-- Where tokens lead there is something to be said about what is wrong. -/
theorem fault_of_leads {before : List Token} {place : Place} (h : Leads .start before place)
    (endPosition : Nat) (rest : List (Located Token)) :
    Fault endPosition before rest (place.fault endPosition rest) := by
  obtain rfl : place = .behind before := h.eq_behind
  -- a name that has to be called is at fault at the end of the tokens as well
  by_cases hcall : ∃ name, (Place.behind before).demand = .callParen name
  · obtain ⟨name, hdemand⟩ := hcall
    have hlast := Place.demand_behind_eq_callParen_iff.mp hdemand
    simpa [Place.fault, hdemand] using Fault.expectedCallParen hlast rest
  · rw [not_exists] at hcall
    cases rest with
    | nil =>
      rw [Place.fault_nil hcall]
      exact .unexpectedEnd (by simpa [Place.demand_behind_eq_callParen_iff] using hcall)
    | cons found rest =>
      cases hdemand : (Place.behind before).demand with
      | callParen name => exact absurd hdemand (hcall name)
      | operand => simpa [Place.fault, hdemand] using Fault.unexpectedToken hdemand found rest
      | nothing =>
        cases hopen : (Place.behind before).openings with
        | nil =>
          have hformula : IsFormula before :=
            isFormula_iff_leads.mpr ⟨_, h, Place.allows_none_iff.mpr ⟨hdemand, hopen⟩⟩
          simpa [Place.fault, hdemand, hopen] using Fault.trailingTokens hformula found rest
        | cons opening openings =>
          have hhead : (Place.behind before).openings.head? = some opening := by rw [hopen]; rfl
          cases opening with
          | group =>
            simpa [Place.fault, hdemand, hopen] using
              Fault.expectedCloseParen hdemand hhead found rest
          | call =>
            simpa [Place.fault, hdemand, hopen] using
              Fault.expectedArgSeparator hdemand hhead found rest

/-- **The first fault.** Provided that the limit has room for all tokens, they are read exactly if
they have no first fault, and the error about them is what is to be said about the first fault. -/
theorem syntax_error_at_first_fault {limit : Nat} {stream : TokenStream}
    (h : stream.tokens.length < limit) :
    let tokens := stream.tokens.map Located.value
    ((∃ tree, Expr.ofTokens limit stream = .ok tree) ↔ ¬ ∃ index, FirstFault tokens index) ∧
      ∀ index, FirstFault tokens index → ∀ error,
        Expr.ofTokens limit stream = .error error ↔
          Fault stream.endPosition (tokens.take index) (stream.tokens.drop index) error := by
  intro tokens
  rcases ofTokens_cases h with
    ⟨tree, place, hread, hleads, hend⟩ | ⟨place, rest, ⟨used, htokens, hleads⟩, hrefuses, hread⟩
  · have hnone := not_firstFault_of_isFormula (isFormula_iff_leads.mpr ⟨place, hleads, hend⟩)
    refine ⟨⟨?_, fun _ => ⟨tree, hread⟩⟩, fun index hfault => absurd hfault (hnone index)⟩
    rintro - ⟨index, hfault⟩
    exact hnone index hfault
  · have hvalues : tokens = used.map Located.value ++ rest.map Located.value := by
      rw [← List.map_append, ← htokens]
    have hfault : FirstFault tokens used.length := by
      rw [hvalues, ← List.length_map Located.value]
      exact firstFault_of_refused hleads (by rw [List.head?_map, hrefuses])
    rw [hread]
    refine ⟨⟨by simp, fun hnone => absurd ⟨_, hfault⟩ hnone⟩, ?_⟩
    intro index hindex error
    obtain rfl := hindex.unique hfault
    have hbefore : tokens.take used.length = used.map Located.value := by
      rw [hvalues, ← List.length_map Located.value, List.take_left]
    rw [hbefore, htokens, List.drop_left, Except.error.injEq]
    constructor
    · rintro rfl
      exact fault_of_leads hleads _ _
    · intro hsaid
      rw [hleads.eq_behind]
      exact hsaid.eq_place_fault

/-- In `max(1, (2 3` the first fault is the `3`: an operand is complete, and the parenthesis of
the group is the innermost that is open. -/
theorem syntax_error_at_first_fault_unclosed_group :
    let stream : TokenStream :=
      ⟨[⟨.identifier "max", 0⟩, ⟨.openParen, 3⟩, ⟨.number 1, 4⟩, ⟨.comma, 5⟩, ⟨.openParen, 7⟩,
        ⟨.number 2, 8⟩, ⟨.number 3, 10⟩], 11⟩
    stream.tokens.length < 8 ∧ FirstFault (stream.tokens.map Located.value) 6 ∧
      Expr.ofTokens 8 stream = .error (.expectedCloseParen ⟨.number 3, 10⟩) := by
  intro stream
  have hlength : stream.tokens.length < 8 := by decide
  let before : List Token :=
    [.identifier "max", .openParen, .number 1, .comma, .openParen, .number 2]
  have hleads : Leads .start before (.behind before) :=
    .step rfl (.step rfl (.step rfl (.step rfl (.step rfl (.step rfl (.refl _))))))
  have hrefuses : (Place.behind before).allows [Token.number 3].head? = false := rfl
  have hfirst : FirstFault (stream.tokens.map Located.value) 6 :=
    firstFault_of_refused hleads hrefuses
  refine ⟨hlength, hfirst, ?_⟩
  exact ((syntax_error_at_first_fault hlength).2 6 hfirst _).mpr
    (.expectedCloseParen rfl rfl ⟨.number 3, 10⟩ [])

end Reckoner.Grammar
