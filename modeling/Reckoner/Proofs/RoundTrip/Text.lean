import Reckoner.Proofs.Grammar.Recognition
import Reckoner.Proofs.RoundTrip.Explicit

/-!
# Expressions are read back from their texts

The text of a tree falls into the tokens that it is meant to consist of, in whatever text
it stands, if nothing behind it goes on with its last name or number. Inside the text this
holds by the way it is written: behind every part of it there is a blank, a comma or a
closing parenthesis, and behind the name of a function an opening one. What the tokens
stand for is known from the grammar, so the text is read back, provided that the limit is
large enough for its parentheses, argument lists and minus signs, and refused as too deep
otherwise.
-/

set_option autoImplicit false

namespace Reckoner

namespace Expr

mutual

/-- The tree can be written as a formula: its literals are finite, and its names are names
of formulas. -/
def Writable : Expr → Prop
  | literal value => value.isFinite = true
  | var name => IsName name
  | neg operand => operand.Writable
  | binary _ left right => left.Writable ∧ right.Writable
  | call name args => IsName name ∧ AllWritable args

/-- All of the trees can be written as formulas. -/
def AllWritable : List Expr → Prop
  | [] => True
  | e :: es => e.Writable ∧ AllWritable es

end

/-- The text of a finite number without a minus sign is read as that number. -/
theorem contents_number {x : Float} (hfinite : x.isFinite = true)
    (hsign : Number.isNegative x = false) {rest : List Char} (hrest : IsBoundary rest) :
    contents ((Number.text x).toList ++ rest) = .ok (.number x) :: contents rest := by
  obtain ⟨d, htext, hvalue⟩ := Number.exists_text_eq hfinite hsign
  rw [htext, String.toList_ofList, contents_decimal d hrest, hvalue]

/-- A closing parenthesis ends a number and a name. -/
theorem isBoundary_closeParen (rest : List Char) : IsBoundary (')' :: rest) :=
  isBoundary_cons rfl rfl rest

/-- A space ends a number and a name. -/
theorem isBoundary_space (rest : List Char) : IsBoundary (' ' :: rest) :=
  isBoundary_cons rfl rfl rest

/-- A comma ends a number and a name. -/
theorem isBoundary_comma (rest : List Char) : IsBoundary (',' :: rest) :=
  isBoundary_cons rfl rfl rest

/-- The text of a literal is cut into the tokens of the literal. -/
theorem contents_literalText {value : Float} (hfinite : value.isFinite = true) {rest : List Char}
    (hrest : IsBoundary rest) :
    contents ((literalText value).toList ++ rest) =
      (textTokens (literal value)).map .ok ++ contents rest := by
  rw [literalText, textTokens]
  cases hsign : Number.isNegative value with
  | false =>
    exact contents_number hfinite hsign hrest
  | true =>
    have hfinite' : (-value).isFinite = true := by
      rw [Number.isFinite_neg]
      exact hfinite
    simp only [if_true, String.toList_append, List.append_assoc]
    show contents ('(' :: '-' :: ((Number.text (-value)).toList ++ ')' :: rest)) = _
    rw [contents_punctuation rfl, contents_punctuation rfl,
      contents_number hfinite' (Number.isNegative_neg hsign) (isBoundary_closeParen rest),
      contents_punctuation rfl]
    rfl

mutual

/-- The text of a tree is cut into the tokens of the tree, in front of anything that ends a number
and a name. -/
theorem contents_text : ∀ (e : Expr), e.Writable → ∀ rest : List Char, IsBoundary rest →
    contents (e.text.toList ++ rest) = e.textTokens.map .ok ++ contents rest
  | literal value, hwritable, rest, hrest => contents_literalText hwritable hrest
  | var name, hwritable, rest, hrest => contents_name hwritable hrest
  | neg operand, hwritable, rest, hrest => by
    have hoperand := contents_text operand hwritable (')' :: rest) (isBoundary_closeParen rest)
    rw [text, textTokens]
    simp only [String.toList_append, List.append_assoc]
    show contents ('(' :: '-' :: (operand.text.toList ++ ')' :: rest)) = _
    rw [contents_punctuation rfl, contents_punctuation rfl, hoperand, contents_punctuation rfl]
    simp
  | binary op left right, ⟨hleft, hright⟩, rest, hrest => by
    have hright := contents_text right hright (')' :: rest) (isBoundary_closeParen rest)
    have hleft := contents_text left hleft
      (' ' :: (op.symbol.toList ++ ' ' :: (right.text.toList ++ ')' :: rest)))
      (isBoundary_space _)
    have hsymbol : Stops (· == '*') (' ' :: (right.text.toList ++ ')' :: rest)) :=
      stops_cons rfl _
    rw [text, textTokens]
    simp only [String.toList_append, List.append_assoc]
    show contents ('(' :: (left.text.toList ++
      ' ' :: (op.symbol.toList ++ ' ' :: (right.text.toList ++ ')' :: rest)))) = _
    rw [contents_punctuation rfl, hleft, contents_blank rfl, contents_symbol op hsymbol,
      contents_blank rfl, hright, contents_punctuation rfl]
    simp
  | call name args, ⟨hname, hargs⟩, rest, hrest => by
    have hargs := contents_texts args hargs rest
    have hopen : IsBoundary ('(' :: ((", ".intercalate (texts args)).toList ++ ')' :: rest)) :=
      isBoundary_cons rfl rfl _
    rw [text, textTokens]
    simp only [String.toList_append, List.append_assoc]
    show contents (name.toList ++
      '(' :: ((", ".intercalate (texts args)).toList ++ ')' :: rest)) = _
    rw [contents_name hname hopen, contents_punctuation rfl, hargs, contents_punctuation rfl]
    simp

/-- The texts of arguments are cut into the tokens of the arguments, with commas between them. -/
theorem contents_texts : ∀ (es : List Expr), AllWritable es → ∀ rest : List Char,
    contents ((", ".intercalate (texts es)).toList ++ ')' :: rest) =
      ([Token.comma].intercalate (textTokensList es)).map .ok ++ contents (')' :: rest)
  | [], _, rest => rfl
  | e :: es, ⟨he, hes⟩, rest => by
    have hrest := contents_texts es hes rest
    have hlast := contents_text e he (')' :: rest) (isBoundary_closeParen rest)
    have hfirst := contents_text e he
      (',' :: ' ' :: ((", ".intercalate (texts es)).toList ++ ')' :: rest)) (isBoundary_comma _)
    cases es with
    | nil =>
      rw [texts, texts, textTokensList, textTokensList, String.intercalate_singleton,
        List.intercalate_singleton, hlast]
    | cons e' es =>
      simp only [texts, textTokensList] at hrest hfirst ⊢
      rw [String.intercalate_cons_cons, List.intercalate_cons_cons]
      simp only [String.toList_append, List.append_assoc]
      show contents (e.text.toList ++ ',' :: ' ' ::
        ((", ".intercalate (e'.text :: texts es)).toList ++ ')' :: rest)) = _
      rw [hfirst, contents_punctuation rfl, contents_blank rfl, hrest]
      simp

end

/-- The text of a tree alone is cut into the tokens of the tree. -/
theorem contents_text_nil {e : Expr} (h : e.Writable) :
    contents e.text.toList = e.textTokens.map .ok := by
  have htext := contents_text e h [] isBoundary_nil
  rw [contents_nil, List.append_nil, List.append_nil] at htext
  exact htext

end Expr

namespace Settings

/-- A text whose lexemes are taken for the tokens of a formula is read as the tree of the
formula, if the limit allows for its height and its nesting. -/
theorem parse_of_accepts (settings : Settings) {text : String} {tokens : List Token}
    {tree : Expr} {nesting : Nat}
    (htext : settings.strictness.Accepts (contents text.toList) tokens)
    (hderives : Grammar.Derives .formula tokens tree nesting) :
    settings.parse text =
      if tree.height ≤ settings.depthLimit ∧ nesting ≤ settings.depthLimit then
        .ok (settings.finished tree)
      else .error (.syntactic (.tooDeep settings.depthLimit)) := by
  obtain ⟨stream, hstream, htokens⟩ := settings.exists_tokens_iff.mpr htext
  have hread : Grammar.DerivesStream stream tree nesting := by
    rw [Grammar.DerivesStream, htokens]
    exact hderives
  unfold parse expression
  rw [hstream, mapError_ok, ok_bind, Grammar.ofTokens_of_derives hread, Grammar.allowed]
  split <;> rfl

/-- However strictly it is read, this is so for a text that consists of the tokens. -/
theorem parse_of_contents (settings : Settings) {text : String} {tokens : List Token}
    {tree : Expr} {nesting : Nat} (htext : contents text.toList = tokens.map .ok)
    (hderives : Grammar.Derives .formula tokens tree nesting) :
    settings.parse text =
      if tree.height ≤ settings.depthLimit ∧ nesting ≤ settings.depthLimit then
        .ok (settings.finished tree)
      else .error (.syntactic (.tooDeep settings.depthLimit)) := by
  have haccepts := settings.strictness.accepts_ok tokens
  rw [← htext] at haccepts
  exact settings.parse_of_accepts haccepts hderives

/-- The text of a tree is read back if the limit allows for its nesting. -/
theorem parse_text (settings : Settings) {e : Expr} (h : e.Writable) :
    settings.parse e.text =
      if e.textNesting + 1 ≤ settings.depthLimit then .ok (settings.finished e.explicit)
      else .error (.syntactic (.tooDeep settings.depthLimit)) := by
  have hderives : Grammar.Derives .formula e.textTokens e.explicit (e.textNesting + 1) :=
    e.derives_textTokens.ofPrimary _
  have hheight := e.height_explicit_le
  rw [settings.parse_of_contents (Expr.contents_text_nil h) hderives]
  congr 1
  apply propext
  constructor
  · rintro ⟨-, hnesting⟩
    exact hnesting
  · intro hnesting
    exact ⟨Nat.le_trans hheight hnesting, hnesting⟩

end Settings

/-- **Texts read back.** A tree whose literals are finite and whose names are names of
formulas has a text that is read back, strictly and leniently, exactly with the limits from
one more than its nesting on; under all others it is refused as too deep. What is read is
the tree with negations in the place of literals with a sign, equal to the bit, and it has
the same value or error as the tree in every context, after asking for the same variables
and drawing as many random numbers. -/
theorem text_reads_back {e : Expr} (h : e.Writable) :
    (∀ (strictness : Strictness) (limit : Nat),
      ({ strictness, depthLimit := limit } : Settings).parse e.text =
        if 1 + e.textNesting ≤ limit then .ok e.explicit
        else .error (.syntactic (.tooDeep limit))) ∧
    ∀ context : Context, e.explicit.run context = e.run context := by
  constructor
  · intro strictness limit
    rw [Settings.parse_text _ h, Nat.add_comm]
    rfl
  · intro context
    rw [Expr.run, Expr.run, Expr.eval_explicit]

/-- The text is `Math((-2), x)`: the name is not the prefix of a function, and the literal
needs two levels inside the argument list. -/
theorem text_reads_back_negative_argument :
    let e : Expr := .call "Math" [.literal (Number.ofDyadic .negative 1 1), .var "x"]
    e.Writable ∧
      ({ depthLimit := 4 } : Settings).parse e.text =
        .ok (.call "Math" [.neg (.literal (Number.ofDyadic .positive 1 1)), .var "x"]) ∧
      ({ depthLimit := 3 } : Settings).parse e.text = .error (.syntactic (.tooDeep 3)) := by
  intro e
  have hmath : IsName "Math" := ⟨'M', ['a', 't', 'h'], rfl, rfl, List.all_eq_true.mp rfl⟩
  have hx : IsName "x" := ⟨'x', [], rfl, rfl, List.all_eq_true.mp rfl⟩
  have hwritable : e.Writable := ⟨hmath, rfl, hx, trivial⟩
  obtain ⟨hparse, -⟩ := text_reads_back hwritable
  have hnesting : e.textNesting = 3 := by decide
  have hexplicit : e.explicit =
      .call "Math" [.neg (.literal (Number.ofDyadic .positive 1 1)), .var "x"] := by decide
  refine ⟨hwritable, ?_, ?_⟩
  · rw [hparse .strict 4, hnesting, hexplicit]
    rfl
  · rw [hparse .strict 3, hnesting]
    rfl

end Reckoner
