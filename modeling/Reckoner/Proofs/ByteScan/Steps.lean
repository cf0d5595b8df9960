import Reckoner.Proofs.ByteScan.Found

/-!
# Every step of a scan leads on

A scan stands at a division of the text into characters that have been dealt with, those that the
task has gone through, and those in front of which the cursor is (`Stands`). A step goes to a state
that stands as well and is beyond the one before it (`Advances`): more of the text has been dealt
with, or the task is one inside of the round, or the cursor has moved. Otherwise it ends the scan
with what is to be found; it never faults (`proceeds_step`). There is one lemma about every kind of
step.
-/

set_option autoImplicit false

namespace Reckoner.ByteScan

variable {strictness : Strictness} {text : String}

/-! ## States and steps -/

/-- Where what is being gone through starts. -/
def State.origin (state : State) : Nat :=
  match state.task with
  | .round | .blanks => state.position
  | .number start | .name start | .member start => start

/-- Tasks inside a round follow tasks of a greater rank. -/
def Task.rank : Task → Nat
  | .round => 2
  | .blanks => 1
  | _ => 0

/-- How one state is beyond another: more of the text has been dealt with, or the task is inside of
the other, or the task is the same and the cursor is further on. -/
inductive Advances (state state' : State) : Prop where
  | onward (h : state.origin < state'.origin)
  | inward (horigin : state'.origin = state.origin) (hrank : state'.task.rank < state.task.rank)
  | along (horigin : state'.origin = state.origin) (htask : state'.task = state.task)
      (hposition : state.position < state'.position)

/-- Either a character of the class is next, or the characters stop. -/
theorem head?_any_cases (p : Char → Bool) (cs : List Char) :
    (∃ c rest, cs = c :: rest ∧ p c = true) ∧ cs.head?.any p = true ∨
      Stops p cs ∧ cs.head?.any p = false := by
  cases cs with
  | nil => exact .inr ⟨nofun, rfl⟩
  | cons c rest =>
    cases hc : p c with
    | true => exact .inl ⟨⟨c, rest, rfl, hc⟩, hc⟩
    | false => exact .inr ⟨stops_cons hc rest, hc⟩

/-- The characters start with one of the class. -/
def BeginsWith (p : Char → Bool) (cs : List Char) : Prop :=
  ∃ c, cs.head? = some c ∧ p c = true

/-- If what stands behind a run is not in its class, a run that begins as it should is not empty. -/
theorem BeginsWith.exists_cons {p q : Char → Bool} {run behind : List Char}
    (h : BeginsWith q (run ++ behind)) (hbehind : Stops p behind)
    (himp : ∀ c, q c = true → p c = true) : ∃ c cs, run = c :: cs ∧ q c = true := by
  obtain ⟨c, hhead, hc⟩ := h
  cases run with
  | nil =>
    have hstops := hbehind c hhead
    rw [himp c hc] at hstops
    contradiction
  | cons d ds =>
    obtain rfl := Option.some.inj hhead
    exact ⟨d, ds, rfl, hc⟩

/-- The characters `run`, the first of which stands at `start`, are what a task has gone through
in front of the characters `behind`. -/
def InTask (start : Nat) (run behind : List Char) : Task → Prop
  | .round | .blanks => run = []
  | .number start' =>
    start' = start ∧ (∀ c ∈ run, isNumberChar c = true) ∧ BeginsWith isNumberChar (run ++ behind)
  | .name start' =>
    start' = start ∧ (∀ c ∈ run, isNameChar c = true) ∧ BeginsWith isNameStart (run ++ behind) ∧
      ¬ mathPrefix.toList <+: run ++ behind
  | .member start' =>
    start' = start ∧ ∃ name, run = mathPrefix.toList ++ name ∧ ∀ c ∈ name, isNameChar c = true

/-- The state is one of a scan that will find what it should: the cursor is behind what the task
has gone through, and reading goes on in front of that. -/
structure StandsAt (strictness : Strictness) (text : String) (state : State)
    (before run behind : List Char) : Prop where
  rests : Rests strictness text state.tokens state.records before (run ++ behind)
  position_eq : state.position = byteLength before + byteLength run
  inTask : InTask (byteLength before) run behind state.task

/-- There is a division of the text at which the state stands. -/
def Stands (strictness : Strictness) (text : String) (state : State) : Prop :=
  ∃ before run behind, StandsAt strictness text state before run behind

/-- A step leads to a state that is further on, or ends the scan with what it should find, all that
is to be reported having been reported. -/
inductive Proceeds (strictness : Strictness) (text : String) (state : State) : Step → Prop where
  | goes {state' : State} (hstands : Stands strictness text state')
      (hadvances : Advances state state') : Proceeds strictness text state (.goes state')
  | ends (hrecords : state.records = ({ strictness } : Settings).warnings (scan text)) :
    Proceeds strictness text state (.ends (({ strictness } : Settings).tokens (scan text)))

section Steps

variable {state : State} {before run behind : List Char}

namespace StandsAt

/-- The cursor divides the text in two. -/
theorem text_eq (h : StandsAt strictness text state before run behind) :
    text.toList = (before ++ run) ++ behind := by
  rw [h.rests.text_eq, List.append_assoc]

/-- The cursor is behind as many bytes as the characters in front of it take. -/
theorem position_eq_byteLength (h : StandsAt strictness text state before run behind) :
    state.position = byteLength (before ++ run) := by
  rw [h.position_eq, byteLength_append]

end StandsAt

/-- Rounds start behind what has been dealt with. -/
theorem proceeds_round {tokens : List (Located Token)} {records : List LogRecord}
    {before' : List Char} (hrests : Rests strictness text tokens records before' behind)
    (hlt : state.origin < byteLength before') :
    Proceeds strictness text state (.goes ⟨byteLength before', .round, tokens, records⟩) :=
  .goes ⟨before', [], behind, hrests, rfl, rfl⟩ (.onward hlt)

/-- A lexeme has at least one character, even if something is wrong with it. -/
theorem ne_nil_of_isSegment {content : Except Anomaly Token}
    (h : IsSegment run content behind) : run ≠ [] := by
  obtain ⟨c, cs, -, -, hfirst⟩ := h.first_eq
  have hne := Lexeme.text_ne_nil c cs
  rwa [hfirst] at hne

/-- A lexeme that is complete is found. -/
theorem proceeds_found {token : Token} (hlexeme : IsLexeme run token behind)
    (hrests : Rests strictness text state.tokens state.records before (run ++ behind))
    (horigin : state.origin = byteLength before) {stop : Nat}
    (hstop : stop = byteLength before + byteLength run) :
    Proceeds strictness text state (.goes (state.found token (byteLength before) stop)) := by
  have hsegment : IsSegment run (.ok token) behind := hlexeme
  have hpos := byteLength_pos (ne_nil_of_isSegment hsegment)
  rw [hstop, State.found, ← byteLength_append]
  apply proceeds_round (hrests.token hlexeme)
  rw [horigin, byteLength_append]
  exact Nat.lt_add_of_pos_right hpos

/-- At a lexeme that has something wrong with it, a strict scan ends, and a lenient one goes on with
what a lenient reading makes of it. -/
theorem proceeds_blame {anomaly : Anomaly} (hanomalous : IsAnomalous run anomaly behind)
    (hrests : Rests strictness text state.tokens state.records before (run ++ behind))
    (horigin : state.origin = byteLength before) {goOn : State → Step}
    (hgoOn : goOn (state.reported ⟨anomaly, byteLength before⟩) =
      .goes ⟨byteLength before + byteLength run, .round,
        state.tokens ++ (anomaly.mended.map (⟨·, byteLength before⟩)).toList,
        state.records ++ [.mended ⟨anomaly, byteLength before⟩]⟩) :
    Proceeds strictness text state (blame strictness anomaly (byteLength before) state goOn) := by
  cases strictness with
  | strict =>
    rw [blame, hrests.strict_anomaly hanomalous]
    exact .ends hrests.strict_records
  | lenient =>
    have hsegment : IsSegment run (.error anomaly) behind := hanomalous
    have hpos := byteLength_pos (ne_nil_of_isSegment hsegment)
    rw [blame, hgoOn, ← byteLength_append]
    apply proceeds_round (hrests.anomaly hanomalous)
    rw [horigin, byteLength_append]
    exact Nat.lt_add_of_pos_right hpos

/-- A run goes on as long as there are characters of its class. -/
theorem proceeds_run {p : Char → Bool} (hp : AsciiClass p)
    (h : StandsAt strictness text state before run behind)
    (horigin : state.advanced.origin = state.origin) {complete : Step}
    (hmore : ∀ c cs, behind = c :: cs → p c = true →
      InTask (byteLength before) (run ++ [c]) cs state.task)
    (hcomplete : Stops p behind → Proceeds strictness text state complete) :
    Proceeds strictness text state (runStep text p state complete) := by
  rw [runStep, h.position_eq_byteLength, any_peek hp h.text_eq]
  rcases head?_any_cases p behind with ⟨⟨c, cs, rfl, hc⟩, hany⟩ | ⟨hstops, hany⟩
  · rw [hany, if_pos rfl]
    refine .goes ⟨before, run ++ [c], cs, ?_, ?_, hmore c cs rfl hc⟩
      (.along horigin rfl (Nat.lt_succ_self _))
    · have hrests := h.rests
      rwa [← List.singleton_append, ← List.append_assoc] at hrests
    · rw [byteLength_append, ← Nat.add_assoc, ← h.position_eq, byteLength,
        utf8Size_eq_one (hp c hc)]
      rfl
  · rw [hany, if_neg (by decide)]
    exact hcomplete hstops

/-- A run of digits and points that is complete is a number, or something is wrong with it. -/
theorem proceeds_number (h : StandsAt strictness text state before run behind)
    (htask : state.task = .number (byteLength before)) (hrun : ∀ c ∈ run, isNumberChar c = true)
    (hbegins : BeginsWith isNumberChar (run ++ behind)) (hbehind : Stops isNumberChar behind) :
    Proceeds strictness text state (numberStep strictness text state (byteLength before)) := by
  have horigin : state.origin = byteLength before := by rw [State.origin, htask]
  have hne : run ≠ [] := by
    obtain ⟨c, cs, rfl, -⟩ := hbegins.exists_cons hbehind fun _ hc => hc
    exact List.cons_ne_nil c cs
  rw [numberStep, h.position_eq, slice?_eq h.rests.text_eq]
  dsimp only
  cases hread : Decimal.ofRun? run with
  | some d =>
    obtain ⟨hdigit, hpoints, rfl⟩ := Decimal.ofRun?_eq_some_iff.1 hread
    exact proceeds_found (.number hrun hdigit hpoints hbehind) h.rests horigin rfl
  | none =>
    have hanomalous := IsAnomalous.malformedNumber hne hrun
      (Decimal.ofRun?_eq_none_iff.1 hread) hbehind
    apply proceeds_blame hanomalous h.rests horigin
    -- a lenient scan reads what a lenient reading does: the literal up to its second point
    rw [slice?_secondPoint]
    simp only [Anomaly.mended, String.toList_ofList, State.position_reported, h.position_eq]
    cases Decimal.ofRun? (beforeSecondPoint run) <;> rfl

/-- A name that is complete is found. -/
theorem proceeds_name (h : StandsAt strictness text state before run behind)
    (htask : state.task = .name (byteLength before)) (hrun : ∀ c ∈ run, isNameChar c = true)
    (hbegins : BeginsWith isNameStart (run ++ behind))
    (hmath : ¬ mathPrefix.toList <+: run ++ behind) (hbehind : Stops isNameChar behind) :
    Proceeds strictness text state (nameStep text state (byteLength before)) := by
  have horigin : state.origin = byteLength before := by rw [State.origin, htask]
  obtain ⟨c, cs, rfl, hc⟩ := hbegins.exists_cons hbehind fun _ => Lexeme.isNameChar_of_isNameStart
  have hname : IsName (String.ofList (c :: cs)) :=
    ⟨c, cs, String.toList_ofList, hc, fun d hd => hrun d (List.mem_cons_of_mem c hd)⟩
  have hmath' : ¬ mathPrefix.toList <+: (String.ofList (c :: cs)).toList ++ behind := by
    rw [String.toList_ofList]
    exact hmath
  have hlexeme := IsLexeme.identifier hname hbehind hmath'
  rw [String.toList_ofList] at hlexeme
  rw [nameStep, h.position_eq, slice?_eq h.rests.text_eq]
  exact proceeds_found hlexeme h.rests horigin rfl

/-- The characters of a name behind `Math.` come behind those of the word. -/
theorem toList_math_append (name : List Char) :
    ("Math." ++ String.ofList name).toList = mathPrefix.toList ++ name := by
  rw [String.toList_append, String.toList_ofList (l := name)]
  rfl

/-- A name behind `Math.` that is complete is one of a function, or something is wrong with it. -/
theorem proceeds_member {name : List Char}
    (h : StandsAt strictness text state before (mathPrefix.toList ++ name) behind)
    (htask : state.task = .member (byteLength before)) (hname : ∀ c ∈ name, isNameChar c = true)
    (hbehind : Stops isNameChar behind) :
    Proceeds strictness text state (memberStep strictness text state (byteLength before)) := by
  have horigin : state.origin = byteLength before := by rw [State.origin, htask]
  have htext : text.toList = (before ++ mathPrefix.toList) ++ (name ++ behind) := by
    rw [h.rests.text_eq, List.append_assoc, List.append_assoc]
  have hstart : byteLength before + mathPrefix.utf8ByteSize =
      byteLength (before ++ mathPrefix.toList) := by
    rw [byteLength_append, byteLength_toList]
  have hstop : state.position = byteLength (before ++ mathPrefix.toList) + byteLength name := by
    rw [h.position_eq, byteLength_append, byteLength_append, Nat.add_assoc]
  have hslice : slice? text (byteLength before + mathPrefix.utf8ByteSize) state.position =
      some name := by
    rw [hstart, hstop]
    exact slice?_eq htext
  rw [memberStep, hslice]
  dsimp only
  cases hallowed : MathFunction.isAllowed (String.ofList name) with
  | true =>
    obtain ⟨f, hf⟩ := Option.isSome_iff_exists.1 hallowed
    have hfname := MathFunction.ofName?_eq_some_iff.1 hf
    have hlexeme : IsLexeme (mathPrefix.toList ++ name) (.member (String.ofList name)) behind := by
      have hmember := IsLexeme.member f hbehind
      rwa [hfname, toList_math_append] at hmember
    rw [if_pos rfl]
    exact proceeds_found hlexeme h.rests horigin h.position_eq
  | false =>
    have hanomalous : IsAnomalous (mathPrefix.toList ++ name)
        (.unknownMember (String.ofList name)) behind := by
      have hchars : ∀ c ∈ (String.ofList name).toList, isNameChar c = true := by
        rwa [String.toList_ofList]
      have hunknown := IsAnomalous.unknownMember hchars
        (MathFunction.isAllowed_eq_false_iff.1 hallowed) hbehind
      rwa [toList_math_append] at hunknown
    rw [if_neg (by decide)]
    apply proceeds_blame hanomalous h.rests horigin
    rw [State.position_reported, h.position_eq]
    simp [State.dropped, State.reported, Anomaly.mended]

/-- A character with which no token starts is passed over as a whole. -/
theorem proceeds_stray {c : Char} {cs : List Char} (hblank : isBlank c = false)
    (hstart : startsToken c = false)
    (hrests : Rests strictness text state.tokens state.records before (c :: cs))
    (hposition : state.position = byteLength before) (horigin : state.origin = byteLength before) :
    Proceeds strictness text state (strayStep strictness text state) := by
  have htext : text.toList = before ++ ((c :: cs) ++ []) := by
    rw [hrests.text_eq, List.append_nil]
  have hslice : slice? text state.position text.utf8ByteSize = some (c :: cs) := by
    rw [hposition, utf8ByteSize_eq hrests.text_eq]
    exact slice?_eq htext
  have hanomalous := IsAnomalous.strayChar hblank hstart cs
  rw [strayStep, hslice]
  dsimp only
  rw [hposition]
  apply proceeds_blame hanomalous hrests horigin
  simp [State.dropped, State.reported, Anomaly.mended, byteLength, hposition]

/-- One star is an operator, and so are two. -/
theorem proceeds_star {cs : List Char}
    (hrests : Rests strictness text state.tokens state.records before ('*' :: cs))
    (hposition : state.position = byteLength before) (horigin : state.origin = byteLength before) :
    Proceeds strictness text state (starStep text state) := by
  have htext : text.toList = (before ++ ['*']) ++ cs := by
    rw [hrests.text_eq, List.append_assoc]
    rfl
  have hnext := any_peek (asciiClass_eq '*' (by decide)) htext
  rw [byteLength_append, ← hposition] at hnext
  have hone : byteLength ['*'] = 1 := rfl
  rw [hone] at hnext
  rw [starStep, hnext, hposition]
  rcases head?_any_cases (· == '*') cs with ⟨⟨c, behind, rfl, hc⟩, hany⟩ | ⟨hstops, hany⟩
  · obtain rfl := beq_iff_eq.1 hc
    have hlexeme : IsLexeme ['*', '*'] (.operator .starStar) behind := .operator .starStar nofun
    rw [hany, if_pos rfl]
    exact proceeds_found hlexeme hrests horigin rfl
  · have hlexeme : IsLexeme ['*'] (.operator .star) cs := .operator .star fun _ => hstops
    rw [hany, if_neg (by decide)]
    exact proceeds_found hlexeme hrests horigin rfl

/-- A name is begun, or one behind `Math.`. -/
theorem proceeds_nameStart {c : Char} {cs : List Char} (htask : state.task = .blanks)
    (hname : isNameStart c = true)
    (hrests : Rests strictness text state.tokens state.records before (c :: cs))
    (hposition : state.position = byteLength before) (horigin : state.origin = byteLength before) :
    Proceeds strictness text state (nameStartStep text state) := by
  have hrank : 0 < state.task.rank := by
    rw [htask]
    exact Nat.one_pos
  rw [nameStartStep, hposition, startsWith?_eq hrests.text_eq]
  by_cases hmath : mathPrefix.toList <+: c :: cs
  · rw [decide_eq_true hmath]
    obtain ⟨behind, hbehind⟩ := hmath
    refine .goes ⟨before, mathPrefix.toList, behind, ?_, ?_, rfl, [], rfl, List.forall_mem_nil _⟩
      (.inward horigin.symm hrank)
    · rwa [hbehind]
    · rw [byteLength_toList]
  · rw [decide_eq_false hmath]
    refine .goes ⟨before, [], c :: cs, hrests, rfl, ?_⟩ (.inward horigin.symm hrank)
    exact ⟨rfl, List.forall_mem_nil _, ⟨c, rfl, hname⟩, hmath⟩

/-- In front of a character that is not blank, a token or something else is begun. -/
theorem proceeds_token {c d : Char} {cs : List Char} (htask : state.task = .blanks)
    (hblank : isBlank c = false) (hshows : Shows c d)
    (hrests : Rests strictness text state.tokens state.records before (c :: cs))
    (hposition : state.position = byteLength before) :
    Proceeds strictness text state (tokenStep strictness text state d) := by
  have horigin : state.origin = byteLength before := by rw [State.origin, htask, hposition]
  have hstar : (d == '*') = (c == '*') := (asciiClass_eq '*' (by decide)).eq_of_shows hshows
  -- the byte shows in which class the character is, so the branches are those of the character
  rw [tokenStep]
  by_cases hc : c = '*'
  · subst hc
    rw [if_pos (by simpa using hstar)]
    exact proceeds_star hrests hposition horigin
  · rw [if_neg (by simpa [hc] using hstar), punctuation?_of_shows hshows,
      asciiClass_isNumberChar.eq_of_shows hshows, asciiClass_isNameStart.eq_of_shows hshows]
    cases hpunctuation : punctuation? c with
    | some token =>
      have hsize := utf8Size_eq_one (toNat_lt_of_punctuation? hpunctuation)
      dsimp only
      rw [hposition]
      apply proceeds_found (isLexeme_of_punctuation? hpunctuation cs) hrests horigin
      rw [byteLength, hsize]
      rfl
    | none =>
      dsimp only
      cases hnumber : isNumberChar c with
      | true =>
        rw [if_pos rfl]
        refine .goes ⟨before, [], c :: cs, hrests, hposition, ?_⟩ (.inward ?_ ?_)
        · exact ⟨hposition, List.forall_mem_nil _, c, rfl, hnumber⟩
        · rw [horigin]
          exact hposition
        · rw [htask]
          exact Nat.one_pos
      | false =>
        rw [if_neg (by decide)]
        cases hname : isNameStart c with
        | true =>
          rw [if_pos rfl]
          exact proceeds_nameStart htask hname hrests hposition horigin
        | false =>
          rw [if_neg (by decide)]
          refine proceeds_stray hblank ?_ hrests hposition horigin
          simp [startsToken, hc, hpunctuation, hnumber, hname]

/-- Between tokens, the text ends, a blank is passed over, or a token is begun. -/
theorem proceeds_blanks (h : StandsAt strictness text state before [] behind)
    (htask : state.task = .blanks) :
    Proceeds strictness text state (step strictness text state) := by
  have hrests : Rests strictness text state.tokens state.records before behind := h.rests
  have hposition : state.position = byteLength before := h.position_eq
  rw [step, htask, hposition]
  cases behind with
  | nil =>
    obtain ⟨hanswer, hrecords⟩ := hrests.at_end
    have hend : peek text (byteLength before) = none :=
      peek_end (by rw [hrests.text_eq, List.append_nil])
    dsimp only
    rw [hend, hanswer]
    exact .ends hrecords
  | cons c cs =>
    obtain ⟨d, hpeek, hshows⟩ := exists_peek_cons hrests.text_eq
    dsimp only
    rw [hpeek]
    dsimp only
    rw [asciiClass_isBlank.eq_of_shows hshows]
    cases hblank : isBlank c with
    | true =>
      rw [if_pos rfl]
      have hadvanced : state.advanced.position = byteLength (before ++ [c]) := by
        rw [byteLength_append, byteLength, utf8Size_eq_one (asciiClass_isBlank c hblank),
          ← hposition]
        rfl
      refine .goes ⟨before ++ [c], [], cs, hrests.blank hblank, hadvanced, ?_⟩ (.onward ?_)
      · rw [State.advanced, htask]
        rfl
      · simp only [State.origin, State.advanced, htask]
        exact Nat.lt_succ_self _
    | false =>
      rw [if_neg (by decide)]
      exact proceeds_token htask hblank hshows hrests hposition

/-- Every step of a scan leads on, or ends it as it should. -/
theorem proceeds_step (h : Stands strictness text state) :
    Proceeds strictness text state (step strictness text state) := by
  obtain ⟨before, run, behind, h⟩ := h
  have hinTask := h.inTask
  cases htask : state.task with
  | round =>
    rw [htask] at hinTask
    rw [step, htask]
    refine .goes ⟨before, run, behind, h.rests, h.position_eq, hinTask⟩ (.inward ?_ ?_)
    · rw [State.origin, State.origin, htask]
    · rw [htask]
      exact Nat.lt_succ_self _
  | blanks =>
    rw [htask] at hinTask
    obtain rfl : run = [] := hinTask
    exact proceeds_blanks h htask
  -- a run takes one more character, or stops and is dealt with
  | number start =>
    rw [htask] at hinTask
    obtain ⟨rfl, hrun, hbegins⟩ := hinTask
    rw [step, htask]
    apply proceeds_run asciiClass_isNumberChar h
    · rw [State.origin, State.origin, State.advanced, htask]
    · rintro c cs rfl hc
      rw [htask]
      exact ⟨rfl, List.forall_mem_append.2 ⟨hrun, List.forall_mem_singleton.2 hc⟩,
        by rwa [List.append_assoc]⟩
    · exact proceeds_number h htask hrun hbegins
  | name start =>
    rw [htask] at hinTask
    obtain ⟨rfl, hrun, hbegins, hmath⟩ := hinTask
    rw [step, htask]
    apply proceeds_run asciiClass_isNameChar h
    · rw [State.origin, State.origin, State.advanced, htask]
    · rintro c cs rfl hc
      rw [htask]
      exact ⟨rfl, List.forall_mem_append.2 ⟨hrun, List.forall_mem_singleton.2 hc⟩,
        by rwa [List.append_assoc], by rwa [List.append_assoc]⟩
    · exact proceeds_name h htask hrun hbegins hmath
  | member start =>
    rw [htask] at hinTask
    obtain ⟨rfl, name, rfl, hname⟩ := hinTask
    rw [step, htask]
    apply proceeds_run asciiClass_isNameChar h
    · rw [State.origin, State.origin, State.advanced, htask]
    · rintro c cs rfl hc
      rw [htask]
      exact ⟨rfl, name ++ [c], List.append_assoc _ _ _,
        List.forall_mem_append.2 ⟨hname, List.forall_mem_singleton.2 hc⟩⟩
    · exact proceeds_member h htask hname

end Steps

end Reckoner.ByteScan
