import Reckoner.Proofs.Descent.Invariant
import Reckoner.Proofs.Grammar.DepthLimit
import Reckoner.Settings

/-!
# Readings under different limits

What the depth limit changes for streams of tokens, it changes for words and for texts: words yield
what is read of the stream in front of their first end (`Descent.Words.yields_iff`), and the tokens
of a text are known before the limit comes into play (`Settings.parse_withDepthLimit`). A limit only
cuts a reading short, and above the number of tokens it does not even do that
(`depth_limit_only_cuts_short`).
-/

set_option autoImplicit false

namespace Reckoner

/-! ## Words -/

namespace Descent.Words

/-- Words have one reading under a limit. Under a greater limit they have the same one, if they are
not too deep. -/
theorem yields_cut (words : Words) {limit limit' : Nat} (hle : limit ≤ limit') :
    ∃ result, (∀ other, words.Yields limit other ↔ other = result) ∧
      (result = .error (.tooDeep limit) ∨ ∀ other, words.Yields limit' other ↔ other = result) := by
  refine ⟨Expr.ofTokens limit words.stream, fun _ => yields_iff, ?_⟩
  refine (Grammar.isCut_ofTokens hle words.stream).imp_right ?_
  intro hsame other
  rw [hsame]
  exact yields_iff

/-- Words with fewer tokens in front of their first end than the limit are not too deep. -/
theorem not_yields_tooDeep {words : Words} {limit : Nat}
    (h : words.stream.tokens.length < limit) (k : Nat) :
    ¬ words.Yields limit (.error (.tooDeep k)) := by
  intro hyields
  exact Grammar.notTooDeep_ofTokens h k (yields_iff.1 hyields).symm

end Descent.Words

/-! ## Texts -/

namespace Settings

/-- The settings with another limit. -/
def withDepthLimit (settings : Settings) (limit : Nat) : Settings :=
  { settings with depthLimit := limit }

/-- The limit comes into play when the tokens of a text are known. -/
theorem parse_withDepthLimit (settings : Settings) (limit : Nat) (text : String) :
    (settings.withDepthLimit limit).parse text =
      (do
        let stream ← (settings.tokens (scan text)).mapError Error.lexical
        let tree ← (Expr.ofTokens limit stream).mapError .syntactic
        .ok (settings.finished tree)) := rfl

/-- Under a smaller limit a text is refused for its depth, or read as under the greater one. -/
theorem parse_withDepthLimit_cut (settings : Settings) {limit limit' : Nat} (hle : limit ≤ limit')
    (text : String) :
    (settings.withDepthLimit limit).parse text = .error (.syntactic (.tooDeep limit)) ∨
      (settings.withDepthLimit limit).parse text =
        (settings.withDepthLimit limit').parse text := by
  rw [parse_withDepthLimit, parse_withDepthLimit]
  cases settings.tokens (scan text) with
  | error anomaly => exact .inr rfl
  | ok stream =>
    simp only [mapError_ok, ok_bind]
    rcases Grammar.isCut_ofTokens hle stream with hdeep | hsame
    · rw [hdeep]
      exact .inl rfl
    · rw [hsame]
      exact .inr rfl

/-- A text of fewer tokens than the limit is never refused for its depth. -/
theorem parse_withDepthLimit_ne_tooDeep (settings : Settings) {limit : Nat} {text : String}
    (h : ∀ stream, settings.tokens (scan text) = .ok stream → stream.tokens.length < limit)
    (k : Nat) : (settings.withDepthLimit limit).parse text ≠ .error (.syntactic (.tooDeep k)) := by
  rw [parse_withDepthLimit]
  cases hstream : settings.tokens (scan text) with
  | error anomaly => simp
  | ok stream =>
    simp only [mapError_ok, ok_bind]
    have hroom := Grammar.notTooDeep_ofTokens (h stream hstream) k
    cases htree : Expr.ofTokens limit stream with
    | error e =>
      rw [htree] at hroom
      intro heq
      cases heq
      exact hroom rfl
    | ok tree => simp

end Settings

/-- **The limit only cuts readings short.** Of two limits the one that is no greater gives what
the other gives, a tree or an error, or it gives the error that the tokens are too deep for it;
this holds of streams of tokens, of words with any ends among them, and of texts however they are
read. With a limit above the number of tokens a reading is never too deep for any limit. -/
theorem depth_limit_only_cuts_short :
    (∀ limit limit' : Nat, limit ≤ limit' →
      (∀ stream, Expr.ofTokens limit stream = .error (.tooDeep limit) ∨
        Expr.ofTokens limit stream = Expr.ofTokens limit' stream) ∧
      (∀ words : Descent.Words, ∃ result, (∀ other, words.Yields limit other ↔ other = result) ∧
        (result = .error (.tooDeep limit) ∨
          ∀ other, words.Yields limit' other ↔ other = result)) ∧
      ∀ (settings : Settings) (text : String),
        (settings.withDepthLimit limit).parse text = .error (.syntactic (.tooDeep limit)) ∨
          (settings.withDepthLimit limit).parse text =
            (settings.withDepthLimit limit').parse text) ∧
    ∀ limit : Nat,
      (∀ stream : TokenStream, stream.tokens.length < limit →
        ∀ k, Expr.ofTokens limit stream ≠ .error (.tooDeep k)) ∧
      (∀ words : Descent.Words, words.stream.tokens.length < limit →
        ∀ k, ¬ words.Yields limit (.error (.tooDeep k))) ∧
      ∀ (settings : Settings) (text : String),
        (∀ stream, settings.tokens (scan text) = .ok stream → stream.tokens.length < limit) →
        ∀ k, (settings.withDepthLimit limit).parse text ≠ .error (.syntactic (.tooDeep k)) := by
  constructor
  · intro limit limit' hle
    exact ⟨Grammar.isCut_ofTokens hle, fun words => words.yields_cut hle,
      fun settings => settings.parse_withDepthLimit_cut hle⟩
  · intro limit
    refine ⟨?_, ?_, ?_⟩
    · intro stream hlength
      exact Grammar.notTooDeep_ofTokens hlength
    · intro words hlength
      exact Descent.Words.not_yields_tooDeep hlength
    · intro settings text hlength
      exact settings.parse_withDepthLimit_ne_tooDeep hlength

/-- Under a limit of two these five tokens are too deep. Under a limit of three they are read, so
the usual limit gives the same tree; and the first three of them leave a limit of four no reason to
refuse them as too deep, so what is wrong with them then is wrong under the usual one. Of words with
an end among them only one token counts. -/
theorem depth_limit_only_cuts_short_parentheses :
    let settings : Settings := { strictness := .lenient }
    let words : Descent.Words := .close [⟨some (.identifier "x"), 0⟩, ⟨none, 1⟩, ⟨some .comma, 1⟩]
    ((settings.withDepthLimit 2).parse "((x))" = .error (.syntactic (.tooDeep 2)) ∧
      (settings.withDepthLimit 3).parse "((x))" = .ok (.var "x") ∧
      (settings.withDepthLimit 256).parse "((x))" = .ok (.var "x")) ∧
    ((∀ stream, settings.tokens (scan "((x") = .ok stream → stream.tokens.length < 4) ∧
      (settings.withDepthLimit 4).parse "((x" = .error (.syntactic .unexpectedEnd) ∧
      (settings.withDepthLimit 256).parse "((x" = .error (.syntactic .unexpectedEnd)) ∧
    (words.stream.tokens.length < 2 ∧ ∀ k, ¬ words.Yields 2 (.error (.tooDeep k))) := by
  intro settings words
  obtain ⟨hcut, hroom⟩ := depth_limit_only_cuts_short
  have htwo : (settings.withDepthLimit 2).parse "((x))" = .error (.syntactic (.tooDeep 2)) := by
    decide +kernel
  have hthree : (settings.withDepthLimit 3).parse "((x))" = .ok (.var "x") := by decide +kernel
  have hlength : ∀ stream, settings.tokens (scan "((x") = .ok stream →
      stream.tokens.length < 4 := by
    have hthree : (scan "((x").lenient.tokens.length = 3 := by decide +kernel
    intro stream hstream
    obtain rfl := Except.ok.inj hstream
    omega
  have hfour : (settings.withDepthLimit 4).parse "((x" = .error (.syntactic .unexpectedEnd) := by
    decide +kernel
  have hwords : words.stream.tokens.length < 2 := by decide +kernel
  refine ⟨⟨htwo, hthree, ?_⟩, ⟨hlength, hfour, ?_⟩, hwords, (hroom 2).2.1 words hwords⟩
  · rcases (hcut 3 256 (by decide)).2.2 settings "((x))" with hdeep | hsame
    · rw [hthree] at hdeep
      contradiction
    · rw [← hsame, hthree]
  · rcases (hcut 4 256 (by decide)).2.2 settings "((x" with hdeep | hsame
    · exact absurd hdeep ((hroom 4).2.2 settings "((x" hlength 4)
    · rw [← hsame, hfour]

end Reckoner
