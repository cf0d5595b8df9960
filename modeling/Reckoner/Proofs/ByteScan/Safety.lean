import Reckoner.Proofs.ByteScan.Steps
import Reckoner.Proofs.Scan.FirstAnomaly

/-!
# The cursor stays on character boundaries

Every state of a scan stands at a division of the text, as the first one does and every step keeps
it. As the characters of a division are whole, the cursor is on a boundary, and all that is taken
out of the text is there; so are the records of what has been mended on the way. Since every step
leads on, a scan cannot go on forever (`exists_last`), and a round starts further on than the one
before it (`position_lt_of_transGen`).
-/

set_option autoImplicit false

namespace Reckoner.ByteScan

variable {strictness : Strictness} {text : String}

/-! ## Scans -/

section Scans

variable {state state' : State}

/-- At the start nothing has been dealt with and everything is to be found. -/
theorem stands_start (strictness : Strictness) (text : String) :
    Stands strictness text .start :=
  ⟨[], [], text.toList, ⟨rfl, answer_nil _, rfl⟩, rfl, rfl⟩

/-- A state that a scan goes on to stands as well, and is further on. -/
theorem Goes.stands_and_advances (h : Stands strictness text state)
    (hgoes : Goes strictness text state state') :
    Stands strictness text state' ∧ Advances state state' := by
  have hproceeds := proceeds_step h
  rw [hgoes] at hproceeds
  cases hproceeds with
  | goes hstands hadvances => exact ⟨hstands, hadvances⟩

namespace Stands

/-- The cursor is on a character boundary. -/
theorem onBoundary (h : Stands strictness text state) : OnBoundary text state.position := by
  obtain ⟨before, run, behind, h⟩ := h
  rw [h.position_eq_byteLength]
  exact onBoundary_of_append h.text_eq

/-- The cursor is within the text. -/
theorem position_le (h : Stands strictness text state) : state.position ≤ text.utf8ByteSize :=
  h.onBoundary.le_utf8ByteSize

/-- What is being gone through starts no further on than the cursor is. -/
theorem origin_le (h : Stands strictness text state) : state.origin ≤ state.position := by
  obtain ⟨before, run, behind, h⟩ := h
  have hinTask := h.inTask
  have hposition := h.position_eq
  rw [State.origin]
  cases htask : state.task with
  | round | blanks => exact Nat.le_refl _
  | number start | name start | member start =>
    rw [htask] at hinTask
    obtain ⟨rfl, -⟩ := hinTask
    dsimp only
    omega

/-- Nothing is taken that is not there. -/
theorem step_ne_faults (h : Stands strictness text state) :
    step strictness text state ≠ .faults := by
  intro hfaults
  have hproceeds := proceeds_step h
  rw [hfaults] at hproceeds
  cases hproceeds

end Stands

/-- What has been dealt with never becomes less. -/
theorem Advances.origin_le (h : Advances state state') : state.origin ≤ state'.origin := by
  cases h with
  | onward h => exact Nat.le_of_lt h
  | inward horigin _ | along horigin _ _ => exact Nat.le_of_eq horigin.symm

/-- A round starts behind everything that was done before. -/
theorem Advances.origin_lt (h : Advances state state') (hround : state'.task = .round) :
    state.origin < state'.position := by
  have horigin' : state'.origin = state'.position := by rw [State.origin, hround]
  cases h with
  | onward h => rwa [horigin'] at h
  | inward _ hrank =>
    rw [hround] at hrank
    cases htask : state.task <;> rw [htask] at hrank <;> contradiction
  | along horigin htask hposition =>
    have horigin : state.origin = state.position := by rw [State.origin, ← htask, hround]
    rwa [horigin]

/-- Whatever a scan goes on to stands as well, and what has been dealt with never becomes less. -/
theorem Stands.of_runs (h : Stands strictness text state)
    (hruns : Relation.ReflTransGen (Goes strictness text) state state') :
    Stands strictness text state' ∧ state.origin ≤ state'.origin := by
  induction hruns with
  | refl => exact ⟨h, Nat.le_refl _⟩
  | tail _ hgoes ih =>
    obtain ⟨hstands, hadvances⟩ := hgoes.stands_and_advances ih.1
    exact ⟨hstands, Nat.le_trans ih.2 hadvances.origin_le⟩

/-- Every state of a scan stands. -/
theorem Reached.stands (h : Reached strictness text state) : Stands strictness text state :=
  ((stands_start strictness text).of_runs h).1

/-- A round that is started later is further on. -/
theorem position_lt_of_transGen (h : Stands strictness text state)
    (hruns : Relation.TransGen (Goes strictness text) state state')
    (hround : state'.task = .round) : state.origin < state'.position := by
  -- the last step is the one that starts the round
  obtain ⟨s, hs, hlast⟩ := Relation.TransGen.tail'_iff.1 hruns
  obtain ⟨hstands, hle⟩ := h.of_runs hs
  exact Nat.lt_of_le_of_lt hle ((hlast.stands_and_advances hstands).2.origin_lt hround)

/-- What is left to be done becomes less with every step. -/
theorem Advances.decreases {size : Nat} (h : Advances state state')
    (horigin : state'.origin ≤ state'.position) (hposition : state'.position ≤ size) :
    Prod.Lex (· < ·) (Prod.Lex (· < ·) (· < ·))
      (size - state'.origin, state'.task.rank, size - state'.position)
      (size - state.origin, state.task.rank, size - state.position) := by
  cases h with
  | onward h => exact .left _ _ (by omega)
  | inward h hrank =>
    rw [h]
    exact .right _ (.left _ _ hrank)
  | along h htask hlt =>
    rw [h, htask]
    exact .right _ (.right _ (by omega))

/-- A scan comes to its end, all that is to be reported having been reported. -/
theorem exists_last {state : State} (h : Stands strictness text state) :
    ∃ last, Relation.ReflTransGen (Goes strictness text) state last ∧
      step strictness text last = .ends (({ strictness } : Settings).tokens (scan text)) ∧
      last.records = ({ strictness } : Settings).warnings (scan text) := by
  have hproceeds := proceeds_step h
  generalize hstep : step strictness text state = next at hproceeds
  cases hproceeds with
  | ends hrecords => exact ⟨state, .refl, hstep, hrecords⟩
  | @goes state' hstands hadvances =>
    -- the next state has less left to be done
    have hless := hadvances.decreases hstands.origin_le hstands.position_le
    obtain ⟨last, hlast, hends⟩ := exists_last hstands
    exact ⟨last, .head hstep hlast, hends⟩
  termination_by (text.utf8ByteSize - state.origin, state.task.rank,
    text.utf8ByteSize - state.position)
  decreasing_by exact hless

end Scans

/-! ## Places of tokens -/

section Places

variable {stream : TokenStream}

/-- Lexemes start behind some of the characters. -/
theorem exists_before_of_mem_scanFrom (p : Nat) (cs : List Char) :
    ∀ lexeme ∈ (scanFrom p cs).lexemes,
      ∃ before behind, cs = before ++ behind ∧ lexeme.position = p + byteLength before := by
  induction p, cs using scanFrom.induct with
  | case1 p => simp [scanFrom]
  | case2 p c cs hblank ih =>
    intro lexeme hlexeme
    rw [scanFrom, if_pos hblank] at hlexeme
    obtain ⟨before, behind, rfl, hposition⟩ := ih lexeme hlexeme
    exact ⟨c :: before, behind, rfl, by rw [hposition, byteLength, Nat.add_assoc]⟩
  | case3 p c cs hblank first ih =>
    intro lexeme hlexeme
    rw [scanFrom, if_neg hblank] at hlexeme
    rcases List.mem_cons.1 hlexeme with rfl | hlexeme
    · exact ⟨[], c :: cs, rfl, rfl⟩
    · obtain ⟨before, behind, hrest, hposition⟩ := ih lexeme hlexeme
      refine ⟨first.text ++ before, behind, ?_, ?_⟩
      · rw [List.append_assoc, ← hrest, Lexeme.text_append_rest]
      · rw [hposition, byteLength_append, Nat.add_assoc]

/-- What a lenient reading keeps stands where the lexemes do, in their order. -/
theorem map_position_sublist (lexemes : List (Located (Except Anomaly Token))) :
    ((lexemes.filterMap lenientToken?).map Located.position).Sublist
      (lexemes.map Located.position) := by
  induction lexemes with
  | nil => exact .slnil
  | cons lexeme lexemes ih =>
    rw [List.filterMap_cons, List.map_cons]
    cases htoken : lenientToken? lexeme with
    | none => exact ih.cons _
    | some token =>
      rw [List.map_cons, position_of_lenientToken? htoken]
      exact ih.cons_cons _

/-- The tokens of a reading start on character boundaries of the text, each behind the ones before
it, and the end is the end of the text. -/
theorem places_of_tokens (h : ({ strictness } : Settings).tokens (scan text) = .ok stream) :
    stream.tokens.Pairwise (fun a b => a.position < b.position) ∧
      (∀ token ∈ stream.tokens,
        OnBoundary text token.position ∧ token.position < stream.endPosition) ∧
      stream.endPosition = text.utf8ByteSize := by
  obtain rfl := Settings.lenient_eq_of_tokens h
  have hsublist := map_position_sublist (scan text).lexemes
  have hend : (scan text).endPosition = text.utf8ByteSize := by
    rw [scan, endPosition_scanFrom, Nat.zero_add, byteLength_toList]
  refine ⟨?_, fun token htoken => ?_, hend⟩
  · have hlexemes := List.pairwise_map.2 (pairwise_position_lt 0 text.toList)
    exact List.pairwise_map.1 (hlexemes.sublist hsublist)
  · obtain ⟨lexeme, hlexeme, hposition⟩ :=
      List.mem_map.1 (hsublist.subset (List.mem_map_of_mem htoken))
    obtain ⟨before, behind, htext, hbefore⟩ :=
      exists_before_of_mem_scanFrom 0 text.toList lexeme hlexeme
    have hbounds := position_bounds 0 text.toList lexeme hlexeme
    rw [← hposition]
    constructor
    · rw [hbefore, Nat.zero_add]
      exact onBoundary_of_append htext
    · exact Nat.lt_of_lt_of_eq hbounds.2 (endPosition_scanFrom 0 text.toList).symm

end Places

/-- **Scanning byte by byte is safe.** For every text and both kinds of strictness: wherever a scan
gets, the cursor is within the text and on a character boundary, and the next step does not fault,
so everything that is taken out of the text is there to be taken; each round starts further on than
the rounds before it; the scan comes to an end, with the very tokens or the very error that the
lexemes of the text lead to, having reported what is to be reported of them; and the tokens start on
character boundaries, each behind the ones before it and all before the end, which is that of the
text. -/
theorem cursor_safe (strictness : Strictness) (text : String) :
    (∀ state, Reached strictness text state →
      state.position ≤ text.utf8ByteSize ∧ OnBoundary text state.position ∧
        step strictness text state ≠ .faults) ∧
    (∀ state state', Reached strictness text state → state.task = .round →
      Relation.TransGen (Goes strictness text) state state' → state'.task = .round →
        state.position < state'.position) ∧
    (∃ last, Reached strictness text last ∧
      step strictness text last = .ends (({ strictness } : Settings).tokens (scan text)) ∧
      last.records = ({ strictness } : Settings).warnings (scan text)) ∧
    ∀ stream, ({ strictness } : Settings).tokens (scan text) = .ok stream →
      stream.tokens.Pairwise (fun a b => a.position < b.position) ∧
        (∀ token ∈ stream.tokens,
          OnBoundary text token.position ∧ token.position < stream.endPosition) ∧
        stream.endPosition = text.utf8ByteSize := by
  refine ⟨fun state h => ?_, fun state state' h hround hruns hround' => ?_, ?_, ?_⟩
  · exact ⟨h.stands.position_le, h.stands.onBoundary, h.stands.step_ne_faults⟩
  · have hlt := position_lt_of_transGen h.stands hruns hround'
    rwa [State.origin, hround] at hlt
  · exact exists_last (stands_start strictness text)
  · exact fun stream => places_of_tokens

/-- A lenient scan reports the euro sign and drops it, three bytes at once, and finds the
parenthesis behind it. -/
theorem cursor_safe_euro_sign :
    let stray : LogRecord := .mended ⟨.strayChar '€', 0⟩
    let round : State := ⟨3, .round, [], [stray]⟩
    let stream : TokenStream := ⟨[⟨.openParen, 3⟩], 4⟩
    (Reached .lenient "€(" round ∧ 3 ≤ "€(".utf8ByteSize ∧ OnBoundary "€(" 3 ∧
      step .lenient "€(" round ≠ .faults) ∧
    (Relation.TransGen (Goes .lenient "€(") .start round ∧ State.start.position < 3) ∧
    (∃ last, Reached .lenient "€(" last ∧ step .lenient "€(" last = .ends (.ok stream) ∧
      last.records = [stray]) ∧
    (({ strictness := .lenient } : Settings).tokens (scan "€(") = .ok stream ∧
      OnBoundary "€(" 3 ∧ 3 < 4 ∧ 4 = "€(".utf8ByteSize) := by
  intro stray round stream
  obtain ⟨hcursor, hrounds, ⟨last, hlast, hends, hrecords⟩, htokens⟩ := cursor_safe .lenient "€("
  have hblanks : Goes .lenient "€(" .start ⟨0, .blanks, [], []⟩ := rfl
  have hstray : Goes .lenient "€(" ⟨0, .blanks, [], []⟩ round := rfl
  have hruns := (Relation.TransGen.single hblanks).tail hstray
  have hreached : Reached .lenient "€(" round := hruns.to_reflTransGen
  have hstream : ({ strictness := .lenient } : Settings).tokens (scan "€(") = .ok stream := by
    decide +kernel
  have hwarnings : ({ strictness := .lenient } : Settings).warnings (scan "€(") = [stray] := by
    decide +kernel
  rw [hstream] at hends
  rw [hwarnings] at hrecords
  obtain ⟨-, hplaces, hend⟩ := htokens _ hstream
  obtain ⟨hboundary, hlt⟩ := hplaces _ (List.mem_singleton_self _)
  exact ⟨⟨hreached, hcursor round hreached⟩, ⟨hruns, hrounds _ round .refl rfl hruns rfl⟩,
    ⟨last, hlast, hends, hrecords⟩, hstream, hboundary, hlt, hend⟩

end Reckoner.ByteScan
