import Reckoner.Proofs.Scan.Contents
import Reckoner.Proofs.Scan.Places
import Reckoner.Proofs.Scan.Warnings

/-!
# The first anomaly of a text

A strict reading fails at the first anomaly of a text, and the first warning of a lenient
reading is about the same one, as its text says, which is that of no other anomaly. In front of
it both readings find the same tokens, and these are also the tokens of the text that ends
there: a lexeme stays one when the text behind it is cut off at any place, because what it must
not be followed by can only be missing then (`IsLexeme.of_append`).
-/

set_option autoImplicit false

namespace Reckoner

/-- The characters that lie in the first `n` bytes. -/
def firstBytes : Nat → List Char → List Char
  | _, [] => []
  | n, c :: cs => if c.utf8Size ≤ n then c :: firstBytes (n - c.utf8Size) cs else []

/-- The text up to the byte at the position. -/
def textBefore (position : Nat) (text : String) : String :=
  String.ofList (firstBytes position text.toList)

/-- No characters lie in no bytes. -/
theorem firstBytes_zero (cs : List Char) : firstBytes 0 cs = [] := by
  cases cs with
  | nil => rfl
  | cons c cs => rw [firstBytes, if_neg (Nat.not_le.mpr c.utf8Size_pos)]

/-- The characters at the front lie in as many bytes as they have. -/
theorem firstBytes_append (before behind : List Char) :
    firstBytes (byteLength before) (before ++ behind) = before := by
  induction before with
  | nil => exact firstBytes_zero behind
  | cons c before ih =>
    rw [List.cons_append, byteLength, firstBytes, if_pos (Nat.le_add_right _ _),
      Nat.add_sub_cancel_left, ih]

/-- The anomaly as a lexeme that has it. -/
def Located.refused (anomaly : Located Anomaly) : Located (Except Anomaly Token) :=
  ⟨.error anomaly.value, anomaly.position⟩

/-! ## Texts that are cut off -/

/-- Where a run stops in front of characters it stops in front of the first of them. -/
theorem Stops.of_append {p : Char → Bool} {cs more : List Char} (h : Stops p (cs ++ more)) :
    Stops p cs := by
  intro c hc
  obtain ⟨cs, rfl⟩ := List.head?_eq_some_iff.mp hc
  exact h c rfl

/-- A lexeme stays one when the text behind it is cut off. -/
theorem IsLexeme.of_append {text behind more : List Char} {token : Token}
    (h : IsLexeme text token (behind ++ more)) : IsLexeme text token behind := by
  generalize hfollowing : behind ++ more = following at h
  cases h with
  | openParen => exact .openParen behind
  | closeParen => exact .closeParen behind
  | comma => exact .comma behind
  | operator sign hbehind =>
    subst hfollowing
    exact .operator sign fun hsign => (hbehind hsign).of_append
  | number hrun hdigit hpoints hbehind =>
    subst hfollowing
    exact .number hrun hdigit hpoints hbehind.of_append
  | member f hbehind =>
    subst hfollowing
    exact .member f hbehind.of_append
  | identifier hname hbehind hmath =>
    subst hfollowing
    refine .identifier hname hbehind.of_append ?_
    rintro ⟨rest, hrest⟩
    apply hmath
    refine ⟨rest ++ more, ?_⟩
    rw [← List.append_assoc, hrest, List.append_assoc]

/-- The lexemes in front of an anomaly are those of the characters in front of it. -/
theorem lexemes_before_anomaly (p : Nat) (cs : List Char) :
    ∀ (tokens : List (Located Token)) (anomaly : Located Anomaly)
      (rest : List (Located (Except Anomaly Token))),
      (scanFrom p cs).lexemes =
        tokens.map Located.accepted ++ anomaly.refused :: rest →
      ∃ before behind, cs = before ++ behind ∧ p + byteLength before = anomaly.position ∧
        (scanFrom p before).lexemes = tokens.map Located.accepted := by
  induction p, cs using scanFrom.induct with
  | case1 p =>
    intro tokens anomaly rest h
    rw [scanFrom] at h
    simp at h
  | case2 p c cs hblank ih =>
    intro tokens anomaly rest h
    rw [scanFrom, if_pos hblank] at h
    obtain ⟨before, behind, rfl, hposition, hlexemes⟩ := ih tokens anomaly rest h
    refine ⟨c :: before, behind, rfl, ?_, ?_⟩
    · rw [byteLength, ← Nat.add_assoc, hposition]
    · rw [scanFrom, if_pos hblank, hlexemes]
  | case3 p c cs hblank first ih =>
    intro tokens anomaly rest h
    rw [scanFrom, if_neg hblank] at h
    cases tokens with
    | nil =>
      obtain ⟨hfirst, -⟩ := List.cons.inj h
      refine ⟨[], c :: cs, rfl, congrArg Located.position hfirst, ?_⟩
      rw [scanFrom]
      rfl
    | cons token tokens =>
      obtain ⟨hfirst, hmore⟩ := List.cons.inj h
      -- the first lexeme stays one in front of less text
      obtain ⟨before, behind, hcs, hposition, hlexemes⟩ := ih tokens anomaly rest hmore
      have hcontent : first.content = .ok token.value := congrArg Located.value hfirst
      have hlexeme := Lexeme.sound_first c cs token.value hcontent
      rw [hcs] at hlexeme
      refine ⟨first.text ++ before, behind, ?_, ?_, ?_⟩
      · rw [List.append_assoc, ← hcs, Lexeme.text_append_rest]
      · rw [byteLength_append, ← Nat.add_assoc, hposition]
      · rw [hlexeme.of_append.scanFrom_eq, hlexemes, List.map_cons, ← hfirst, hcontent]

/-! ## The two readings -/

/-- A strict reading fails at the first lexeme that has an anomaly. -/
theorem exists_refused_of_strictTokens {lexemes : List (Located (Except Anomaly Token))}
    {anomaly : Located Anomaly} (h : strictTokens lexemes = .error anomaly) :
    ∃ (tokens : List (Located Token)) (rest : List (Located (Except Anomaly Token))),
      lexemes = tokens.map Located.accepted ++ anomaly.refused :: rest := by
  induction lexemes with
  | nil => contradiction
  | cons lexeme lexemes ih =>
    obtain ⟨content, position⟩ := lexeme
    cases content with
    | error found =>
      obtain rfl := Except.error.inj h
      exact ⟨[], lexemes, rfl⟩
    | ok token =>
      rw [strictTokens] at h
      cases hmore : strictTokens lexemes with
      | ok tokens =>
        rw [hmore] at h
        contradiction
      | error found =>
        rw [hmore] at h
        obtain rfl := Except.error.inj h
        obtain ⟨tokens, rest, rfl⟩ := ih hmore
        exact ⟨⟨token, position⟩ :: tokens, rest, rfl⟩

/-- Tokens have no anomalies. -/
theorem filterMap_anomaly?_accepted (tokens : List (Located Token)) :
    (tokens.map Located.accepted).filterMap anomaly? = [] := by
  induction tokens with
  | nil => rfl
  | cons token tokens ih => rw [List.map_cons, List.filterMap_cons, ih]; rfl

/-- A token stands where its lexeme does. -/
theorem position_of_lenientToken? {lexeme : Located (Except Anomaly Token)}
    {token : Located Token} (h : lenientToken? lexeme = some token) :
    token.position = lexeme.position := by
  obtain ⟨content, position⟩ := lexeme
  cases content with
  | ok found =>
    obtain rfl := Option.some.inj h
    rfl
  | error anomaly =>
    obtain ⟨mended, -, rfl⟩ := Option.map_eq_some_iff.mp h
    rfl

namespace Scanned

/-- A strict reading of a scan fails as the reading of its lexemes does. -/
theorem strict_eq_error_iff {scanned : Scanned} {anomaly : Located Anomaly} :
    scanned.strict = .error anomaly ↔ strictTokens scanned.lexemes = .error anomaly := by
  unfold strict
  cases strictTokens scanned.lexemes <;> simp

/-- The anomaly at which a strict reading fails is the first that a lenient one passes over. -/
theorem head?_anomalies_of_strict {scanned : Scanned} {anomaly : Located Anomaly}
    (h : scanned.strict = .error anomaly) : scanned.anomalies.head? = some anomaly := by
  obtain ⟨tokens, rest, hlexemes⟩ := exists_refused_of_strictTokens (strict_eq_error_iff.mp h)
  rw [anomalies, hlexemes, List.filterMap_append, filterMap_anomaly?_accepted]
  rfl

/-- A lenient reading passes over something exactly if a strict one fails. -/
theorem anomalies_eq_nil_iff {scanned : Scanned} :
    scanned.anomalies = [] ↔ ∃ stream, scanned.strict = .ok stream := by
  constructor
  · intro hnone
    cases hstrict : scanned.strict with
    | ok stream => exact ⟨stream, rfl⟩
    | error anomaly =>
      have hhead := head?_anomalies_of_strict hstrict
      rw [hnone] at hhead
      contradiction
  · rintro ⟨stream, hstrict⟩
    rw [strict_eq_ok_iff.mp hstrict]
    exact filterMap_anomaly?_accepted _

end Scanned

/-- The tokens that a lenient reading finds in front of the first anomaly. -/
theorem lenient_filter_before_anomaly {text : String} {tokens : List (Located Token)}
    {anomaly : Located Anomaly} {rest : List (Located (Except Anomaly Token))}
    (h : (scan text).lexemes = tokens.map Located.accepted ++ anomaly.refused :: rest) :
    (scan text).lenient.tokens.filter (·.position < anomaly.position) = tokens := by
  have hplaces := pairwise_position_lt 0 text.toList
  rw [show (scanFrom 0 text.toList).lexemes = _ from h, List.pairwise_append,
    List.pairwise_cons] at hplaces
  obtain ⟨-, ⟨hbehind, -⟩, hbefore⟩ := hplaces
  rw [Scanned.lenient, h, List.filterMap_append, filterMap_lenientToken?_accepted,
    List.filter_append]
  have hkept : tokens.filter (·.position < anomaly.position) = tokens := by
    rw [List.filter_eq_self]
    intro token htoken
    exact decide_eq_true
      (hbefore _ (List.mem_map_of_mem htoken) anomaly.refused List.mem_cons_self)
  have hdropped : ((anomaly.refused :: rest).filterMap lenientToken?).filter
      (·.position < anomaly.position) = [] := by
    rw [List.filter_eq_nil_iff]
    intro token htoken
    obtain ⟨lexeme, hlexeme, hkeeps⟩ := List.mem_filterMap.mp htoken
    rw [decide_eq_true_eq, position_of_lenientToken? hkeeps]
    rcases List.mem_cons.mp hlexeme with rfl | hlexeme
    · exact Nat.lt_irrefl _
    · exact Nat.lt_asymm (hbehind lexeme hlexeme)
  rw [hkept, hdropped, List.append_nil]

/-- Up to the first anomaly the text is read strictly, and as a lenient reading of the whole
reads it. -/
theorem strict_scan_textBefore {text : String} {anomaly : Located Anomaly}
    (h : (scan text).strict = .error anomaly) :
    (textBefore anomaly.position text).toList <+: text.toList ∧
      (textBefore anomaly.position text).utf8ByteSize = anomaly.position ∧
      (scan (textBefore anomaly.position text)).strict =
        .ok ⟨(scan text).lenient.tokens.filter (·.position < anomaly.position),
          anomaly.position⟩ := by
  obtain ⟨tokens, rest, hlexemes⟩ :=
    exists_refused_of_strictTokens (Scanned.strict_eq_error_iff.mp h)
  obtain ⟨before, behind, htext, hposition, hbefore⟩ :=
    lexemes_before_anomaly 0 text.toList tokens anomaly rest hlexemes
  rw [Nat.zero_add] at hposition
  have hcut : (textBefore anomaly.position text).toList = before := by
    rw [textBefore, String.toList_ofList, htext, ← hposition, firstBytes_append]
  refine ⟨?_, ?_, ?_⟩
  · rw [hcut, htext]
    exact List.prefix_append before behind
  · rw [← byteLength_toList, hcut, hposition]
  · rw [lenient_filter_before_anomaly hlexemes, Scanned.strict_eq_ok_iff, scan, hcut]
    refine congrArg₂ Scanned.mk hbefore ?_
    rw [endPosition_scanFrom, Nat.zero_add, hposition]

/-- The settings with the strictness in place of their own. -/
def Settings.withStrictness (settings : Settings) (strictness : Strictness) : Settings :=
  { settings with strictness }

/-- **The first anomaly.** A lenient reading always gives tokens. It warns of nothing exactly if
a strict reading succeeds, and then both give the same tokens. If the strict reading fails, its
error is what the first warning is about: the text of the warning says of which kind the anomaly
is, what is wrong, and where, and no other anomaly is reported in these words. The tokens that the
lenient reading gives in front of this place are those of the text up to there, which a strict
reading accepts. -/
theorem strict_error_is_first_warning (settings : Settings) (text : String) :
    let scanned := scan text
    let lenient := settings.withStrictness .lenient
    let strict := settings.withStrictness .strict
    ∃ stream, lenient.tokens scanned = .ok stream ∧
      (lenient.warnings scanned = [] ↔ ∃ tokens, strict.tokens scanned = .ok tokens) ∧
      (∀ tokens, strict.tokens scanned = .ok tokens → tokens = stream) ∧
      ∀ anomaly, strict.tokens scanned = .error anomaly →
        let before := textBefore anomaly.position text
        let first := (lenient.warnings scanned).head?
        first = some (.mended anomaly) ∧
          first.map LogRecord.entry = some (.warning,
            match anomaly.value with
            | .strayChar c =>
              "dropping unexpected character " ++ Text.quotedChar c ++ " at " ++
                anomaly.position.repr
            | .malformedNumber run =>
              "malformed number '" ++ run ++ "' at " ++ anomaly.position.repr ++
                ", using its valid prefix"
            | .unknownMember name =>
              "dropping unknown member 'Math." ++ name ++ "' at " ++ anomaly.position.repr) ∧
          (∀ other, some (LogRecord.mended other).entry = first.map LogRecord.entry →
            other = anomaly) ∧
          before.toList <+: text.toList ∧ before.utf8ByteSize = anomaly.position ∧
          strict.tokens (scan before) =
            .ok ⟨stream.tokens.filter (·.position < anomaly.position), anomaly.position⟩ := by
  intro scanned lenient strict
  have hwarnings : lenient.warnings scanned = scanned.anomalies.map .mended := rfl
  refine ⟨scanned.lenient, rfl, ?_, ?_, ?_⟩
  · rw [hwarnings, List.map_eq_nil_iff]
    exact Scanned.anomalies_eq_nil_iff
  · intro tokens hstrict
    exact (Scanned.lenient_eq_of_strict hstrict).symm
  · intro anomaly hstrict before first
    have hfirst : first = some (.mended anomaly) := by
      simp only [first, hwarnings, List.head?_map, Scanned.head?_anomalies_of_strict hstrict,
        Option.map_some]
    refine ⟨hfirst, ?_, ?_, strict_scan_textBefore hstrict⟩
    · rw [hfirst]
      obtain ⟨value, position⟩ := anomaly
      cases value <;> rfl
    · intro other hother
      rw [hfirst] at hother
      exact entry_mended_injective (Option.some.inj hother)

/-- The first of the three anomalies of this text is the times sign at byte 2. -/
theorem strict_error_is_first_warning_times_sign :
    let text := "2 ×* Math.PI 1..2"
    let stray : Located Anomaly := ⟨.strayChar '×', 2⟩
    let first := (({ strictness := .lenient } : Settings).warnings (scan text)).head?
    (scan text).strict = .error stray ∧
      first = some (.mended stray) ∧
      first.map LogRecord.entry =
        some (.warning, "dropping unexpected character '×' at 2") ∧
      (∀ other, some (LogRecord.mended other).entry = first.map LogRecord.entry →
        other = stray) ∧
      (scan (textBefore 2 text)).strict = .ok ⟨[⟨.number 2, 0⟩], 2⟩ := by
  intro text stray first
  have hstrict : (scan text).strict = .error stray := by decide +kernel
  obtain ⟨stream, hstream, -, -, hfirst⟩ := strict_error_is_first_warning {} text
  obtain ⟨hwarning, hentry, honly, -, -, hbefore⟩ := hfirst stray hstrict
  have htext : "dropping unexpected character " ++ Text.quotedChar '×' ++ " at " ++ Nat.repr 2 =
      "dropping unexpected character '×' at 2" := by decide +kernel
  refine ⟨hstrict, hwarning, ?_, honly, ?_⟩
  · rw [← htext]
    exact hentry
  · cases hstream
    have hkept : (scan text).lenient.tokens.filter (·.position < 2) = [⟨.number 2, 0⟩] := by
      decide +kernel
    rw [← hkept]
    exact hbefore

end Reckoner
