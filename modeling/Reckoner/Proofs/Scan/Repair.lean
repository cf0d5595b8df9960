import Reckoner.Proofs.Scan.Anomalies
import Reckoner.Proofs.Scan.Division

/-!
# Lenient reading as repair

A lenient reading of a text is the strict reading of a repaired text that has the same number
of bytes: spaces are written over all that the lenient reading passes over, which is every
stray character, every unknown function with its prefix `Math.`, and every malformed number
from its second point on. So tokens keep their places, and passing over something neither
makes a token nor joins two.

The argument goes along the scan of the text. A lexeme stays a lexeme when spaces are written
over something behind it, because no lexeme goes on with a space; and what is left of an
anomaly is nothing but spaces, or a number and at least one space behind it.

A malformed number without a digit before its second point cannot be mended in this way. A
lenient reading makes it NaN; in the repaired text there are spaces for all of it.
-/

set_option autoImplicit false

namespace Reckoner

/-! ## What is passed over -/

/-- The byte is one that a lenient reading passes over for the anomaly. -/
def Located.passesOver (anomaly : Located Anomaly) (byte : Nat) : Bool :=
  anomaly.position + byteLength anomaly.value.kept ≤ byte &&
    byte < anomaly.position + byteLength anomaly.value.text

/-- The characters, the first of which starts at `position`, with a space written over every
byte of those that start at an erased byte. -/
def overwritten (erased : Nat → Bool) (position : Nat) : List Char → List Char
  | [] => []
  | c :: cs =>
    (if erased position then List.replicate c.utf8Size ' ' else [c]) ++
      overwritten erased (position + c.utf8Size) cs

/-- The text with spaces over all that a lenient reading passes over. -/
def repaired (text : String) : String :=
  String.ofList
    (overwritten (fun byte => (scan text).anomalies.any (·.passesOver byte)) 0 text.toList)

/-- The places of the malformed numbers that have no digit before their second point. -/
def unreadablePlaces (text : String) : List Nat :=
  ((scan text).anomalies.filter (·.value.isUnreadable)).map Located.position

/-! ## Writing over characters -/

section Overwritten

variable {erased : Nat → Bool} {p : Nat}

/-- A space is one byte. -/
theorem byteLength_spaces (n : Nat) : byteLength (List.replicate n ' ') = n := by
  induction n with
  | zero => rfl
  | succ n ih =>
    have hspace : ' '.utf8Size = 1 := rfl
    rw [List.replicate_succ, byteLength, ih, hspace, Nat.add_comm]

/-- Spaces are blank. -/
theorem allBlank_spaces (n : Nat) : AllBlank (List.replicate n ' ') := by
  intro c hc
  rw [List.eq_of_mem_replicate hc]
  rfl

/-- Writing over characters keeps the number of bytes. -/
theorem byteLength_overwritten (erased : Nat → Bool) (p : Nat) (cs : List Char) :
    byteLength (overwritten erased p cs) = byteLength cs := by
  induction cs generalizing p with
  | nil => rfl
  | cons c cs ih =>
    rw [overwritten, byteLength_append, ih, byteLength]
    split
    · rw [byteLength_spaces]
    · simp [byteLength]

/-- Characters are written over part by part. -/
theorem overwritten_append (cs ds : List Char) :
    overwritten erased p (cs ++ ds) =
      overwritten erased p cs ++ overwritten erased (p + byteLength cs) ds := by
  induction cs generalizing p with
  | nil => simp [overwritten, byteLength]
  | cons c cs ih => simp [overwritten, byteLength, ih, Nat.add_assoc]

/-- Where no byte is erased the characters stay. -/
theorem overwritten_of_kept {cs : List Char}
    (h : ∀ byte, p ≤ byte → byte < p + byteLength cs → erased byte = false) :
    overwritten erased p cs = cs := by
  induction cs generalizing p with
  | nil => rfl
  | cons c cs ih =>
    have hc := c.utf8Size_pos
    rw [byteLength] at h
    have hfirst := h p (Nat.le_refl p) (by omega)
    rw [overwritten, hfirst, ih fun byte hle hlt => h byte (by omega) (by omega)]
    rfl

/-- Where every byte is erased there are only spaces. -/
theorem overwritten_of_erased {cs : List Char}
    (h : ∀ byte, p ≤ byte → byte < p + byteLength cs → erased byte = true) :
    overwritten erased p cs = List.replicate (byteLength cs) ' ' := by
  induction cs generalizing p with
  | nil => rfl
  | cons c cs ih =>
    have hc := c.utf8Size_pos
    rw [byteLength] at h ⊢
    have hfirst := h p (Nat.le_refl p) (by omega)
    rw [overwritten, hfirst, ih fun byte hle hlt => h byte (by omega) (by omega)]
    exact List.replicate_append_replicate

/-- The first character stays, or it becomes a space. -/
theorem head?_overwritten {cs : List Char} {c : Char}
    (h : (overwritten erased p cs).head? = some c) : c = ' ' ∨ cs.head? = some c := by
  cases cs with
  | nil => contradiction
  | cons d ds =>
    rw [overwritten] at h
    split at h
    · obtain ⟨n, hn⟩ := Nat.exists_eq_succ_of_ne_zero (Nat.ne_of_gt d.utf8Size_pos)
      rw [hn] at h
      exact .inl (Option.some.inj h).symm
    · exact .inr h

/-- A run that spaces do not continue still stops in front of characters that have been written
over. -/
theorem Stops.overwritten {q : Char → Bool} (hspace : q ' ' = false) {behind : List Char}
    (h : Stops q behind) : Stops q (overwritten erased p behind) := by
  intro c hc
  rcases head?_overwritten hc with rfl | hc
  · exact hspace
  · exact h c hc

/-- A lexeme stays one when spaces are written over what stands behind it. -/
theorem IsLexeme.overwritten {text behind : List Char} {token : Token}
    (h : IsLexeme text token behind) : IsLexeme text token (overwritten erased p behind) := by
  cases h with
  | openParen => exact .openParen _
  | closeParen => exact .closeParen _
  | comma => exact .comma _
  | operator sign hbehind => exact .operator sign fun hsign => (hbehind hsign).overwritten rfl
  | number hrun hdigit hpoints hbehind =>
    exact .number hrun hdigit hpoints (hbehind.overwritten rfl)
  | member f hbehind => exact .member f (hbehind.overwritten rfl)
  | identifier hname hbehind hmath =>
    refine .identifier hname (hbehind.overwritten rfl) ?_
    intro hstart
    apply hmath
    rw [math_prefix_iff hname.isNameChar (hbehind.overwritten rfl)] at hstart
    rw [math_prefix_iff hname.isNameChar hbehind]
    obtain ⟨hname, hpoint⟩ := hstart
    rcases head?_overwritten hpoint with hspace | hpoint
    · contradiction
    · exact ⟨hname, hpoint⟩

end Overwritten

/-! ## The scan of the repaired text -/

/-- The byte is passed over in one of the lexemes. -/
def erases (lexemes : List (Located (Except Anomaly Token))) (byte : Nat) : Bool :=
  (lexemes.filterMap anomaly?).any (·.passesOver byte)

/-- The token that the strict reading of the repaired text finds in the place of the lexeme. -/
def repairedToken? : Located (Except Anomaly Token) → Option (Located Token)
  | ⟨.ok token, position⟩ => some ⟨token, position⟩
  | ⟨.error anomaly, position⟩ => anomaly.repaired?.map (⟨·, position⟩)

/-- A byte is erased in the first lexeme or in the others. -/
theorem erases_cons (lexeme : Located (Except Anomaly Token))
    (lexemes : List (Located (Except Anomaly Token))) (byte : Nat) :
    erases (lexeme :: lexemes) byte =
      ((anomaly? lexeme).any (·.passesOver byte) || erases lexemes byte) := by
  unfold erases
  cases h : anomaly? lexeme <;> simp [h]

/-- No byte in front of the lexemes is erased. -/
theorem erases_eq_false_of_lt {p byte : Nat} {cs : List Char} (h : byte < p) :
    erases (scanFrom p cs).lexemes byte = false := by
  rw [erases, List.any_eq_false]
  intro anomaly hanomaly
  obtain ⟨⟨content, position⟩, hlexeme, heq⟩ := List.mem_filterMap.mp hanomaly
  have hbounds := position_bounds p cs _ hlexeme
  cases content with
  | ok token => contradiction
  | error found =>
    obtain rfl := Option.some.inj heq
    dsimp only at hbounds
    simp only [Located.passesOver, Bool.and_eq_true, decide_eq_true_eq]
    omega

/-- Nothing is passed over behind the lexeme of an anomaly. -/
theorem Located.passesOver_eq_false {anomaly : Located Anomaly} {byte : Nat}
    (h : anomaly.position + byteLength anomaly.value.text ≤ byte) :
    anomaly.passesOver byte = false := by
  simp only [passesOver, Bool.and_eq_false_iff, decide_eq_false_iff_not]
  omega

/-- What is written in the place of an anomaly. -/
theorem overwritten_anomaly {erased : Nat → Bool} {p : Nat} {anomaly : Anomaly}
    (h : ∀ byte, p ≤ byte → byte < p + byteLength anomaly.text →
      erased byte = Located.passesOver ⟨anomaly, p⟩ byte) :
    overwritten erased p anomaly.text =
      anomaly.kept ++ List.replicate (byteLength anomaly.text - byteLength anomaly.kept) ' ' := by
  simp only [Located.passesOver] at h
  obtain ⟨dropped, hdropped⟩ := anomaly.kept_isPrefix
  rw [← hdropped, byteLength_append] at h ⊢
  rw [overwritten_append, Nat.add_sub_cancel_left]
  congr 1
  · apply overwritten_of_kept
    intro byte hle hlt
    rw [h byte hle (by omega)]
    simp only [Bool.and_eq_false_iff, decide_eq_false_iff_not]
    omega
  · apply overwritten_of_erased
    intro byte hle hlt
    rw [h byte (by omega) (by omega)]
    simp only [Bool.and_eq_true, decide_eq_true_eq]
    omega

/-- What is written in the place of an anomaly is blank but for the token that is kept. -/
theorem lexemes_repaired {anomaly : Anomaly} (h : anomaly.IsFound) (p : Nat)
    (behind : List Char) :
    (scanFrom p (anomaly.kept ++
      (List.replicate (byteLength anomaly.text - byteLength anomaly.kept) ' ' ++ behind))).lexemes =
      (repairedToken? ⟨.error anomaly, p⟩).toList.map Located.accepted ++
        (scanFrom (p + byteLength anomaly.text) behind).lexemes := by
  rw [repairedToken?]
  rcases anomaly.repaired?_eq h with ⟨hnone, hkept⟩ | ⟨token, hsome, hlt, hlexeme⟩
  · rw [hnone, hkept, List.nil_append, scanFrom_append_of_allBlank (allBlank_spaces _),
      byteLength_spaces]
    rfl
  · obtain ⟨n, hn⟩ := Nat.exists_eq_add_of_lt hlt
    have hspaces : byteLength anomaly.text - byteLength anomaly.kept = n + 1 := by omega
    have hplace : p + byteLength anomaly.kept + (n + 1) = p + byteLength anomaly.text := by omega
    have hlexeme := hlexeme (List.replicate (n + 1) ' ' ++ behind) (stops_cons rfl _)
    rw [hsome, hspaces, hlexeme.scanFrom_eq, scanFrom_append_of_allBlank (allBlank_spaces _),
      byteLength_spaces, hplace]
    rfl

/-- A lexeme that is kept stays the first one. -/
theorem lexemes_overwritten_token {erased : Nat → Bool} {p : Nat} {text rest : List Char}
    {token : Token} (hlexeme : IsLexeme text token rest)
    (hkept : ∀ byte, p ≤ byte → byte < p + byteLength text → erased byte = false) :
    (scanFrom p (overwritten erased p (text ++ rest))).lexemes =
      ⟨.ok token, p⟩ :: (scanFrom (p + byteLength text)
        (overwritten erased (p + byteLength text) rest)).lexemes := by
  rw [overwritten_append, overwritten_of_kept hkept, hlexeme.overwritten.scanFrom_eq]

/-- Of an anomaly that is passed over there is its token, if it has one. -/
theorem lexemes_overwritten_anomaly {erased : Nat → Bool} {p : Nat} {anomaly : Anomaly}
    (hfound : anomaly.IsFound) (rest : List Char)
    (hpassed : ∀ byte, p ≤ byte → byte < p + byteLength anomaly.text →
      erased byte = Located.passesOver ⟨anomaly, p⟩ byte) :
    (scanFrom p (overwritten erased p (anomaly.text ++ rest))).lexemes =
      (repairedToken? ⟨.error anomaly, p⟩).toList.map Located.accepted ++
        (scanFrom (p + byteLength anomaly.text)
          (overwritten erased (p + byteLength anomaly.text) rest)).lexemes := by
  rw [overwritten_append, overwritten_anomaly hpassed, List.append_assoc, lexemes_repaired hfound]

/-- A text with spaces over what is passed over has the lexemes of the text that can be kept or
mended, at their places, and nothing is wrong with any. -/
theorem lexemes_overwritten (erased : Nat → Bool) (p : Nat) (cs : List Char) :
    (∀ byte, p ≤ byte → byte < p + byteLength cs →
      erased byte = erases (scanFrom p cs).lexemes byte) →
    (scanFrom p (overwritten erased p cs)).lexemes =
      ((scanFrom p cs).lexemes.filterMap repairedToken?).map Located.accepted := by
  -- along the scan: inside a lexeme only that lexeme erases bytes, behind it only the others do
  induction p, cs using scanFrom.induct with
  | case1 p => simp [scanFrom, overwritten]
  | case2 p c cs hblank ih =>
    intro h
    have hpos := c.utf8Size_pos
    rw [scanFrom, if_pos hblank, byteLength] at h
    rw [scanFrom, if_pos hblank]
    have hfirst : erased p = false := by
      rw [h p (Nat.le_refl p) (by omega)]
      exact erases_eq_false_of_lt (by omega)
    have hrest := ih fun byte hle hlt => h byte (by omega) (by omega)
    rw [overwritten, hfirst]
    simp only [Bool.false_eq_true, if_false, List.singleton_append]
    rw [scanFrom, if_pos hblank, hrest]
  | case3 p c cs hblank first ih =>
    intro h
    have hlength : byteLength (c :: cs) = byteLength first.text + byteLength first.rest :=
      byteLength_first c cs
    have hchars : c :: cs = first.text ++ first.rest := (Lexeme.text_append_rest c cs).symm
    have hscan : (scanFrom p (c :: cs)).lexemes =
        ⟨first.content, p⟩ :: (scanFrom (p + byteLength first.text) first.rest).lexemes := by
      rw [scanFrom, if_neg hblank]
    rw [hscan, hlength] at h
    rw [hscan, hchars]
    simp only [erases_cons] at h
    cases hcontent : first.content with
    | ok token =>
      simp only [hcontent, anomaly?, Option.any_none, Bool.false_or] at h
      have hkept : ∀ byte, p ≤ byte → byte < p + byteLength first.text →
          erased byte = false := by
        intro byte hle hlt
        rw [h byte hle (by omega)]
        exact erases_eq_false_of_lt hlt
      have hrest := ih fun byte hle hlt => h byte (by omega) (by omega)
      rw [lexemes_overwritten_token (Lexeme.sound_first c cs token hcontent) hkept, hrest]
      simp [repairedToken?, Located.accepted]
    | error anomaly =>
      have hanomalous := Lexeme.blames_first (Bool.eq_false_iff.mpr hblank) cs anomaly hcontent
      have htext : first.text = anomaly.text := hanomalous.text_eq.symm
      simp only [hcontent, anomaly?, Option.any_some] at h
      rw [htext] at h ih ⊢
      have hpassed : ∀ byte, p ≤ byte → byte < p + byteLength anomaly.text →
          erased byte = Located.passesOver ⟨anomaly, p⟩ byte := by
        intro byte hle hlt
        rw [h byte hle (by omega), erases_eq_false_of_lt hlt, Bool.or_false]
      have hrest := ih fun byte hle hlt => by
        rw [h byte (by omega) (by omega), Located.passesOver_eq_false hle, Bool.false_or]
      rw [lexemes_overwritten_anomaly hanomalous.isFound _ hpassed, hrest]
      cases hrepaired : repairedToken? ⟨.error anomaly, p⟩ <;> simp [hrepaired]

/-! ## The two readings -/

/-- A repaired text is as long as the text. -/
theorem utf8ByteSize_repaired (text : String) :
    (repaired text).utf8ByteSize = text.utf8ByteSize := by
  rw [repaired, ← byteLength_toList, String.toList_ofList, byteLength_overwritten,
    byteLength_toList]

/-- The repaired text is read strictly, as the tokens that are left of the lexemes. -/
theorem strict_scan_repaired (text : String) :
    (scan (repaired text)).strict =
      .ok ⟨(scan text).lexemes.filterMap repairedToken?, text.utf8ByteSize⟩ := by
  have hlexemes : (scan (repaired text)).lexemes =
      ((scan text).lexemes.filterMap repairedToken?).map Located.accepted := by
    rw [scan, repaired, String.toList_ofList]
    exact lexemes_overwritten _ 0 text.toList fun byte _ _ => rfl
  have hend : (scan (repaired text)).endPosition = text.utf8ByteSize := by
    rw [scan, endPosition_scanFrom, Nat.zero_add, byteLength_toList, utf8ByteSize_repaired]
  rw [Scanned.strict_eq_ok_iff]
  exact congrArg₂ Scanned.mk hlexemes hend

section Unreadable

variable {text : String}

/-- A lexeme stands at the place of an unreadable number only if it is one. -/
theorem position_mem_unreadablePlaces {lexeme : Located (Except Anomaly Token)}
    (h : lexeme ∈ (scan text).lexemes) :
    lexeme.position ∈ unreadablePlaces text ↔
      ∃ anomaly, lexeme.value = .error anomaly ∧ anomaly.isUnreadable = true := by
  unfold unreadablePlaces
  rw [List.mem_map]
  constructor
  · rintro ⟨⟨anomaly, position⟩, hmem, hposition⟩
    obtain ⟨hmem, hunreadable⟩ := List.mem_filter.mp hmem
    obtain ⟨⟨content, position'⟩, hother, heq⟩ := List.mem_filterMap.mp hmem
    cases content with
    | ok token => contradiction
    | error found =>
      obtain ⟨rfl, rfl⟩ := (Located.mk.injEq _ _ _ _).mp (Option.some.inj heq)
      have hsame := eq_of_position_eq h hother hposition.symm
      exact ⟨found, congrArg Located.value hsame, hunreadable⟩
  · rintro ⟨anomaly, hvalue, hunreadable⟩
    obtain ⟨value, position⟩ := lexeme
    subst hvalue
    refine ⟨⟨anomaly, position⟩, List.mem_filter.mpr ⟨?_, hunreadable⟩, rfl⟩
    exact List.mem_filterMap.mpr ⟨_, h, rfl⟩

/-- A token is not at an unreadable place. -/
theorem not_mem_unreadablePlaces_of_ok {token : Token} {position : Nat}
    (h : ⟨.ok token, position⟩ ∈ (scan text).lexemes) : position ∉ unreadablePlaces text := by
  intro hplace
  obtain ⟨anomaly, hvalue, -⟩ := (position_mem_unreadablePlaces h).mp hplace
  contradiction

/-- An anomaly is at an unreadable place if it is an unreadable number. -/
theorem mem_unreadablePlaces_iff_of_error {anomaly : Anomaly} {position : Nat}
    (h : ⟨.error anomaly, position⟩ ∈ (scan text).lexemes) :
    position ∈ unreadablePlaces text ↔ anomaly.isUnreadable = true := by
  rw [position_mem_unreadablePlaces h]
  simp

/-- The lenient reading has the tokens of the repaired text, but for unreadable numbers. -/
theorem lenient_filter_readable (text : String) :
    (scan text).lenient.tokens.filter (·.position ∉ unreadablePlaces text) =
      (scan text).lexemes.filterMap repairedToken? := by
  rw [Scanned.lenient, List.filter_filterMap]
  apply List.filterMap_congr
  rintro ⟨content, position⟩ hlexeme
  cases content with
  | ok token =>
    have hplace := not_mem_unreadablePlaces_of_ok hlexeme
    simp [lenientToken?, repairedToken?, Option.filter_some, hplace]
  | error anomaly =>
    have hplace := mem_unreadablePlaces_iff_of_error hlexeme
    cases hunreadable : anomaly.isUnreadable <;> cases hmended : anomaly.mended <;>
      simp [lenientToken?, repairedToken?, Anomaly.repaired?, Option.filter_some, hplace,
        hunreadable, hmended]

/-- It reads them as NaN. -/
theorem lenient_filter_unreadable (text : String) :
    (scan text).lenient.tokens.filter (·.position ∈ unreadablePlaces text) =
      (unreadablePlaces text).map (⟨.number Number.nan, ·⟩) := by
  have hplaces : (unreadablePlaces text).map (Located.mk (Token.number Number.nan)) =
      (scan text).lexemes.filterMap fun lexeme =>
        ((anomaly? lexeme).filter (·.value.isUnreadable)).map
          fun anomaly => ⟨.number Number.nan, anomaly.position⟩ := by
    rw [unreadablePlaces, Scanned.anomalies, List.filter_filterMap, List.map_map,
      List.map_filterMap]
    rfl
  rw [hplaces, Scanned.lenient, List.filter_filterMap]
  apply List.filterMap_congr
  rintro ⟨content, position⟩ hlexeme
  cases content with
  | ok token =>
    have hplace := not_mem_unreadablePlaces_of_ok hlexeme
    simp [lenientToken?, anomaly?, Option.filter_some, hplace]
  | error anomaly =>
    have hplace := mem_unreadablePlaces_iff_of_error hlexeme
    cases hunreadable : anomaly.isUnreadable with
    | true =>
      have hmended := Anomaly.mended_of_isUnreadable hunreadable
      simp [lenientToken?, anomaly?, Option.filter_some, hplace, hunreadable, hmended]
    | false =>
      cases hmended : anomaly.mended <;>
        simp [lenientToken?, anomaly?, Option.filter_some, hplace, hunreadable, hmended]

end Unreadable

/-- **Lenient reading is repair.** The repaired text has as many bytes as the text, and its
strict reading succeeds. If every malformed number has a digit before its second point, the
strict reading of the repaired text gives the very tokens, places and end of the lenient
reading of the text. In general it gives all of them but one token NaN for each number
without such a digit, at the place of this number. -/
theorem lenient_scan_eq_strict_scan_repaired (text : String) :
    (repaired text).utf8ByteSize = text.utf8ByteSize ∧
    (unreadablePlaces text = [] →
      (scan (repaired text)).strict = .ok (scan text).lenient) ∧
    (scan (repaired text)).strict =
      .ok ⟨(scan text).lenient.tokens.filter (·.position ∉ unreadablePlaces text),
        (scan text).lenient.endPosition⟩ ∧
    (scan text).lenient.tokens.filter (·.position ∈ unreadablePlaces text) =
      (unreadablePlaces text).map (⟨.number Number.nan, ·⟩) := by
  have hstrict : (scan (repaired text)).strict =
      .ok ⟨(scan text).lenient.tokens.filter (·.position ∉ unreadablePlaces text),
        (scan text).lenient.endPosition⟩ := by
    have hend : (scan text).lenient.endPosition = text.utf8ByteSize := by
      rw [Scanned.lenient, scan, endPosition_scanFrom, Nat.zero_add, byteLength_toList]
    rw [strict_scan_repaired, lenient_filter_readable, hend]
  refine ⟨utf8ByteSize_repaired text, ?_, hstrict, lenient_filter_unreadable text⟩
  intro hplaces
  rw [hstrict, hplaces]
  simp

/-- The stray character has two bytes, so the number keeps its place, byte 6. -/
theorem lenient_scan_eq_strict_scan_repaired_wide_char :
    let text := "2 *× 1.2.3 + Math.PI"
    unreadablePlaces text = [] ∧ repaired text = "2 *   1.2   +        " ∧
      (scan (repaired text)).strict = .ok (scan text).lenient := by
  intro text
  have hplaces : unreadablePlaces text = [] := by decide +kernel
  have hrepaired : repaired text = "2 *   1.2   +        " := by decide +kernel
  exact ⟨hplaces, hrepaired, (lenient_scan_eq_strict_scan_repaired text).2.1 hplaces⟩

end Reckoner
