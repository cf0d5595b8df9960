import Reckoner.Proofs.Scan.Division
import Reckoner.Settings

/-!
# The lexemes of a text without their places

What a text is cut into does not depend on where it stands. A text without anomalies is
cut into tokens, and these are the tokens of its stream whether it is read strictly or
leniently.
-/

set_option autoImplicit false

namespace Reckoner

/-- The lexemes of the characters, without their places. -/
def contents (cs : List Char) : List (Except Anomaly Token) :=
  (scanFrom 0 cs).lexemes.map Located.value

/-- What is found does not depend on where the characters start. -/
theorem map_value_scanFrom (p q : Nat) (cs : List Char) :
    (scanFrom p cs).lexemes.map Located.value = (scanFrom q cs).lexemes.map Located.value := by
  induction p, cs using scanFrom.induct generalizing q with
  | case1 p =>
    rw [scanFrom, scanFrom]
  | case2 p c cs hblank ih =>
    rw [scanFrom, scanFrom, if_pos hblank, if_pos hblank]
    exact ih _
  | case3 p c cs hblank lexeme ih =>
    rw [scanFrom, scanFrom, if_neg hblank, if_neg hblank]
    simp only [List.map_cons]
    exact congrArg _ (ih _)

/-- Nothing is found in no characters. -/
theorem contents_nil : contents [] = [] := by
  rw [contents, scanFrom]
  rfl

/-- A blank contains nothing. -/
theorem contents_blank {c : Char} (hblank : isBlank c = true) (cs : List Char) :
    contents (c :: cs) = contents cs := by
  rw [contents, scanFrom, if_pos hblank]
  exact map_value_scanFrom _ _ _

/-- A lexeme, good or not, is the first of the contents. -/
theorem contents_first {c : Char} (hblank : ¬isBlank c = true) (cs : List Char) :
    contents (c :: cs) = (Lexeme.first c cs).content :: contents (Lexeme.first c cs).rest := by
  rw [contents, scanFrom, if_neg hblank]
  exact congrArg _ (map_value_scanFrom _ _ _)

/-- A lenient reading takes all tokens. -/
theorem filterMap_lenientToken?_accepted (tokens : List (Located Token)) :
    (tokens.map Located.accepted).filterMap lenientToken? = tokens := by
  induction tokens with
  | nil => rfl
  | cons token tokens ih => rw [List.map_cons, List.filterMap_cons, ih]; rfl

/-- A lenient reading gives the tokens of a strict reading, where there is one. -/
theorem Scanned.lenient_eq_of_strict {scanned : Scanned} {stream : TokenStream}
    (h : scanned.strict = .ok stream) : scanned.lenient = stream := by
  rw [Scanned.strict_eq_ok_iff] at h
  rw [h, lenient, filterMap_lenientToken?_accepted]

/-- However strictly a text is read, its tokens are those of a lenient reading. -/
theorem Settings.lenient_eq_of_tokens {settings : Settings} {scanned : Scanned}
    {stream : TokenStream} (h : settings.tokens scanned = .ok stream) :
    scanned.lenient = stream := by
  unfold Settings.tokens at h
  cases hstrictness : settings.strictness with
  | strict =>
    rw [hstrictness] at h
    exact Scanned.lenient_eq_of_strict h
  | lenient =>
    rw [hstrictness] at h
    exact Except.ok.inj h

/-- Lexemes that are all tokens are tokens at their positions. -/
theorem exists_accepted_of_contents {lexemes : List (Located (Except Anomaly Token))}
    {tokens : List Token} (h : lexemes.map Located.value = tokens.map .ok) :
    ∃ located : List (Located Token), lexemes = located.map Located.accepted ∧
      located.map Located.value = tokens := by
  induction lexemes generalizing tokens with
  | nil =>
    obtain rfl := List.map_eq_nil_iff.mp h.symm
    exact ⟨[], rfl, rfl⟩
  | cons lexeme lexemes ih =>
    obtain ⟨token, rest, rfl, hcontent, hrest⟩ := List.map_eq_cons_iff.mp h.symm
    obtain ⟨located, rfl, rfl⟩ := ih hrest.symm
    obtain ⟨content, position⟩ := lexeme
    obtain rfl : .ok token = content := hcontent
    exact ⟨⟨token, position⟩ :: located, rfl, rfl⟩

/-- What a lenient reading makes of what it finds. -/
def keptToken? : Except Anomaly Token → Option Token
  | .ok token => some token
  | .error anomaly => anomaly.mended

/-- A reading of the strictness takes the lexemes for the tokens. -/
def Strictness.Accepts : Strictness → List (Except Anomaly Token) → List Token → Prop
  | .strict, lexemes, tokens => lexemes = tokens.map .ok
  | .lenient, lexemes, tokens => lexemes.filterMap keptToken? = tokens

/-- Every reading accepts tokens for themselves. -/
theorem Strictness.accepts_ok (strictness : Strictness) (tokens : List Token) :
    strictness.Accepts (tokens.map .ok) tokens := by
  cases strictness with
  | strict => rfl
  | lenient =>
    rw [Accepts, List.filterMap_map]
    exact List.filterMap_some

/-- What is accepted in two parts is accepted together. -/
theorem Strictness.Accepts.append {strictness : Strictness}
    {lexemes more : List (Except Anomaly Token)} {tokens tokens' : List Token}
    (h : strictness.Accepts lexemes tokens) (hmore : strictness.Accepts more tokens') :
    strictness.Accepts (lexemes ++ more) (tokens ++ tokens') := by
  cases strictness with
  | strict =>
    obtain rfl : lexemes = tokens.map .ok := h
    obtain rfl : more = tokens'.map .ok := hmore
    exact (List.map_append ..).symm
  | lenient =>
    obtain rfl : lexemes.filterMap keptToken? = tokens := h
    obtain rfl : more.filterMap keptToken? = tokens' := hmore
    exact List.filterMap_append

/-- What a lenient reading keeps does not depend on the positions. -/
theorem map_value_filterMap_lenientToken? (lexemes : List (Located (Except Anomaly Token))) :
    (lexemes.filterMap lenientToken?).map Located.value =
      (lexemes.map Located.value).filterMap keptToken? := by
  rw [List.map_filterMap, List.filterMap_map]
  apply List.filterMap_congr
  rintro ⟨content, position⟩ -
  cases content with
  | ok token => rfl
  | error anomaly => cases h : anomaly.mended <;> simp [lenientToken?, keptToken?, h]

/-- The tokens of a text without their places are what its lexemes are taken for. -/
theorem Settings.exists_tokens_iff {settings : Settings} {text : String} {tokens : List Token} :
    (∃ stream, settings.tokens (scan text) = .ok stream ∧
      stream.tokens.map Located.value = tokens) ↔
      settings.strictness.Accepts (contents text.toList) tokens := by
  unfold Settings.tokens
  cases settings.strictness with
  | strict =>
    constructor
    · rintro ⟨stream, hstrict, rfl⟩
      have hlexemes := congrArg Scanned.lexemes (Scanned.strict_eq_ok_iff.mp hstrict)
      show (scan text).lexemes.map Located.value = _
      rw [hlexemes, List.map_map, List.map_map]
      rfl
    · intro hcontents
      obtain ⟨located, hlexemes, hvalues⟩ := exists_accepted_of_contents hcontents
      refine ⟨⟨located, (scan text).endPosition⟩, ?_, hvalues⟩
      rw [Scanned.strict_eq_ok_iff, ← hlexemes]
      rfl
  | lenient =>
    have hkept : (scan text).lenient.tokens.map Located.value =
        (contents text.toList).filterMap keptToken? :=
      map_value_filterMap_lenientToken? _
    constructor
    · rintro ⟨stream, hlenient, rfl⟩
      obtain rfl := Except.ok.inj hlenient
      exact hkept.symm
    · intro hcontents
      exact ⟨(scan text).lenient, rfl, hkept.trans hcontents⟩

end Reckoner
