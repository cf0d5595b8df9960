import Reckoner.Proofs.ByteScan.Machine
import Reckoner.Proofs.Scan.Segments

/-!
# What a scan will find

What a scan finds does not change while it goes on: the tokens found so far, in front of what the
lexemes of the rest of the text lead to, are what the lexemes of the whole text lead to, and so are
the records (`Rests`). This is kept when a blank is passed over and when a lexeme is found, whatever
it is; only a strict reading ends at a lexeme that has something wrong with it.
-/

set_option autoImplicit false

namespace Reckoner.ByteScan

variable {strictness : Strictness} {text : String}

/-! ## Tokens in front of lexemes -/

/-- The reading of lexemes in front of which there are tokens. -/
def answer (strictness : Strictness) (tokens : List (Located Token)) (scanned : Scanned) :
    Except (Located Anomaly) TokenStream :=
  (fun stream => ⟨tokens ++ stream.tokens, stream.endPosition⟩) <$>
    ({ strictness } : Settings).tokens scanned

section Answer

variable {tokens : List (Located Token)} {position endPosition : Nat}
  {lexemes : List (Located (Except Anomaly Token))}

/-- In front of no tokens the reading is that of the lexemes. -/
theorem answer_nil (scanned : Scanned) :
    answer strictness [] scanned = ({ strictness } : Settings).tokens scanned := by
  unfold answer
  cases ({ strictness } : Settings).tokens scanned <;> rfl

/-- Without lexemes the tokens in front are all there are. -/
theorem answer_end : answer strictness tokens ⟨[], endPosition⟩ = .ok ⟨tokens, endPosition⟩ := by
  cases strictness <;> simp [answer, Settings.tokens, Scanned.strict, Scanned.lenient, strictTokens]

/-- A token among the lexemes can as well be counted among those in front. -/
theorem answer_token (token : Token) :
    answer strictness tokens ⟨⟨.ok token, position⟩ :: lexemes, endPosition⟩ =
      answer strictness (tokens ++ [⟨token, position⟩]) ⟨lexemes, endPosition⟩ := by
  cases strictness with
  | strict =>
    simp only [answer, Settings.tokens, Scanned.strict, strictTokens]
    cases strictTokens lexemes <;> simp
  | lenient => simp [answer, Settings.tokens, Scanned.lenient, lenientToken?]

/-- A strict reading fails at an anomaly, whatever is in front. -/
theorem answer_strict_anomaly (anomaly : Anomaly) :
    answer .strict tokens ⟨⟨.error anomaly, position⟩ :: lexemes, endPosition⟩ =
      .error ⟨anomaly, position⟩ := rfl

/-- What a lenient reading makes of an anomaly can as well be counted among the tokens in front. -/
theorem answer_lenient_anomaly (anomaly : Anomaly) :
    answer .lenient tokens ⟨⟨.error anomaly, position⟩ :: lexemes, endPosition⟩ =
      answer .lenient (tokens ++ (anomaly.mended.map (⟨·, position⟩)).toList)
        ⟨lexemes, endPosition⟩ := by
  cases hmended : anomaly.mended <;>
    simp [answer, Settings.tokens, Scanned.lenient, lenientToken?, hmended]

/-- In front of the end there is nothing to be reported. -/
theorem warnings_end : ({ strictness } : Settings).warnings ⟨[], endPosition⟩ = [] := by
  cases strictness <;> rfl

/-- Nothing is reported about a token. -/
theorem warnings_token (token : Token) :
    ({ strictness } : Settings).warnings ⟨⟨.ok token, position⟩ :: lexemes, endPosition⟩ =
      ({ strictness } : Settings).warnings ⟨lexemes, endPosition⟩ := by
  cases strictness <;> rfl

/-- A lenient reading reports an anomaly, and then those behind it. -/
theorem warnings_lenient_anomaly (anomaly : Anomaly) :
    ({ strictness := .lenient } : Settings).warnings
        ⟨⟨.error anomaly, position⟩ :: lexemes, endPosition⟩ =
      .mended ⟨anomaly, position⟩ ::
        ({ strictness := .lenient } : Settings).warnings ⟨lexemes, endPosition⟩ := rfl

end Answer

/-! ## Tokens that are found -/

/-- Reading goes on in front of `rest`, with the tokens found and the records made before it. -/
structure Rests (strictness : Strictness) (text : String) (tokens : List (Located Token))
    (records : List LogRecord) (before rest : List Char) : Prop where
  text_eq : text.toList = before ++ rest
  answer_eq : answer strictness tokens (scanFrom (byteLength before) rest) =
    ({ strictness } : Settings).tokens (scan text)
  warnings_eq :
    records ++ ({ strictness } : Settings).warnings (scanFrom (byteLength before) rest) =
      ({ strictness } : Settings).warnings (scan text)

/-- A segment and what stands behind it. -/
theorem scanFrom_segment {run behind : List Char} {content : Except Anomaly Token}
    (h : IsSegment run content behind) (position : Nat) :
    scanFrom position (run ++ behind) =
      ⟨⟨content, position⟩ :: (scanFrom (position + byteLength run) behind).lexemes,
        (scanFrom (position + byteLength run) behind).endPosition⟩ := by
  obtain ⟨c, cs, hchars, hblank, hfirst⟩ := h.first_eq
  rw [hchars, scanFrom, if_neg (ne_true_of_eq_false hblank), hfirst]

namespace Rests

variable {tokens : List (Located Token)} {records : List LogRecord} {before run behind : List Char}

/-- Behind a lexeme there is a token more. -/
theorem token (h : Rests strictness text tokens records before (run ++ behind)) {token : Token}
    (hlexeme : IsLexeme run token behind) :
    Rests strictness text (tokens ++ [⟨token, byteLength before⟩]) records (before ++ run)
      behind := by
  have hsegment : IsSegment run (.ok token) behind := hlexeme
  refine ⟨by rw [h.text_eq, List.append_assoc], ?_, ?_⟩
  · rw [← h.answer_eq, scanFrom_segment hsegment, answer_token, byteLength_append]
  · rw [← h.warnings_eq, scanFrom_segment hsegment, warnings_token, byteLength_append]

/-- Behind a lexeme that has something wrong with it, a lenient reading has what it makes of it, and
a record more. -/
theorem anomaly (h : Rests .lenient text tokens records before (run ++ behind))
    {anomaly : Anomaly} (hanomalous : IsAnomalous run anomaly behind) :
    Rests .lenient text (tokens ++ (anomaly.mended.map (⟨·, byteLength before⟩)).toList)
      (records ++ [.mended ⟨anomaly, byteLength before⟩]) (before ++ run) behind := by
  have hsegment : IsSegment run (.error anomaly) behind := hanomalous
  refine ⟨by rw [h.text_eq, List.append_assoc], ?_, ?_⟩
  · rw [← h.answer_eq, scanFrom_segment hsegment, answer_lenient_anomaly, byteLength_append]
  · rw [← h.warnings_eq, scanFrom_segment hsegment, warnings_lenient_anomaly, byteLength_append,
      List.append_assoc, List.singleton_append]

/-- At such a lexeme a strict reading ends. -/
theorem strict_anomaly (h : Rests .strict text tokens records before (run ++ behind))
    {anomaly : Anomaly} (hanomalous : IsAnomalous run anomaly behind) :
    .error ⟨anomaly, byteLength before⟩ =
      ({ strictness := .strict } : Settings).tokens (scan text) := by
  have hsegment : IsSegment run (.error anomaly) behind := hanomalous
  rw [← h.answer_eq, scanFrom_segment hsegment, answer_strict_anomaly]

/-- A strict reading makes no records. -/
theorem strict_records {rest : List Char} (h : Rests .strict text tokens records before rest) :
    records = ({ strictness := .strict } : Settings).warnings (scan text) := by
  rw [← h.warnings_eq]
  exact (List.append_nil records).symm

/-- A blank changes nothing. -/
theorem blank {c : Char} (h : Rests strictness text tokens records before (c :: behind))
    (hblank : isBlank c = true) :
    Rests strictness text tokens records (before ++ [c]) behind := by
  have hscan : scanFrom (byteLength (before ++ [c])) behind =
      scanFrom (byteLength before) (c :: behind) := by
    rw [scanFrom, if_pos hblank, byteLength_append]
    rfl
  refine ⟨by rw [h.text_eq, List.append_assoc]; rfl, ?_, ?_⟩
  · rw [hscan, h.answer_eq]
  · rw [hscan, h.warnings_eq]

/-- At the end of the text everything has been found and reported. -/
theorem at_end (h : Rests strictness text tokens records before []) :
    .ok ⟨tokens, byteLength before⟩ = ({ strictness } : Settings).tokens (scan text) ∧
      records = ({ strictness } : Settings).warnings (scan text) := by
  have hanswer := h.answer_eq
  have hwarnings := h.warnings_eq
  rw [scanFrom] at hanswer hwarnings
  rw [answer_end] at hanswer
  rw [warnings_end, List.append_nil] at hwarnings
  exact ⟨hanswer, hwarnings⟩

end Rests

end Reckoner.ByteScan
