import Reckoner.Calculator
import Reckoner.Proofs.Evaluation.Sequence
import Reckoner.Proofs.RoundTrip.Text
import Reckoner.Proofs.Scan.Locality

/-!
# Formulas made of formulas

Texts that are read one by one can be put together: two of them in parentheses with an
operator between them, any number of them as the arguments of a call, and one of them in
parentheses with a minus sign in front. What is read is the operation on the trees of the
parts, because a parenthesis or a comma ends whatever stands in front of it, mended anomalies
included. The parentheses and the argument list cost one level of the limit and the minus
sign another one.

Hence the value of the whole is made of the values of the parts, evaluated one behind the
other.
-/

set_option autoImplicit false

namespace Reckoner

/-! ## The texts and their lexemes -/

/-- The text in parentheses. -/
def groupText (text : String) : String :=
  "(" ++ text ++ ")"

/-- The texts in parentheses with the sign between them. -/
def operationText (sign : Operator) (left right : String) : String :=
  groupText left ++ sign.text ++ groupText right

/-- A call with the texts as arguments. -/
def callText (name : String) (texts : List String) : String :=
  name ++ groupText (",".intercalate texts)

/-- The text in parentheses with a minus sign in front. -/
def minusText (text : String) : String :=
  "-" ++ groupText text

/-- The parentheses stand around the characters of the text. -/
theorem toList_groupText (text : String) :
    (groupText text).toList = '(' :: (text.toList ++ [')']) := by
  simp [groupText]

/-- The lexemes of a text in parentheses are its own, between two of the parentheses. -/
theorem contents_groupText (text : String) (rest : List Char) :
    contents ((groupText text).toList ++ rest) =
      .ok .openParen :: (contents text.toList ++ .ok .closeParen :: contents rest) := by
  have hclose := contents_append (Expr.isBoundary_closeParen rest) (stops_cons rfl _) text.toList
  rw [toList_groupText, List.cons_append, List.append_assoc, contents_punctuation rfl]
  show _ :: contents (text.toList ++ ')' :: rest) = _
  rw [hclose, contents_punctuation rfl]

/-- A sign in front of a parenthesis is a lexeme of its own. -/
theorem contents_sign (sign : Operator) (text : String) :
    contents (sign.text.toList ++ (groupText text).toList) =
      .ok (.operator sign) :: contents (groupText text).toList := by
  have hstops : Stops (· == '*') (groupText text).toList := by
    rw [toList_groupText]
    exact stops_cons rfl _
  exact (IsLexeme.operator sign fun _ => hstops).contents_eq

/-- A comma is a lexeme of its own, whatever stands around it. -/
theorem contents_comma (text rest : String) :
    contents (text ++ "," ++ rest).toList =
      contents text.toList ++ .ok .comma :: contents rest.toList := by
  have hcomma := contents_append (Expr.isBoundary_comma rest.toList) (stops_cons rfl _) text.toList
  simp only [String.toList_append, List.append_assoc]
  show contents (text.toList ++ ',' :: rest.toList) = _
  rw [hcomma, contents_punctuation rfl]

namespace Strictness.Accepts

open Grammar

variable {strictness : Strictness}

/-- Tokens in front are accepted as they are. -/
theorem cons {lexemes : List (Except Anomaly Token)} {tokens : List Token}
    (h : strictness.Accepts lexemes tokens) (token : Token) :
    strictness.Accepts (.ok token :: lexemes) (token :: tokens) :=
  (strictness.accepts_ok [token]).append h

/-- In parentheses a text gives its own tokens, between two of the parentheses. -/
theorem group {text : String} {tokens : List Token}
    (h : strictness.Accepts (contents text.toList) tokens) :
    strictness.Accepts (contents (groupText text).toList)
      (.openParen :: (tokens ++ [.closeParen])) := by
  have hgroup := contents_groupText text []
  rw [List.append_nil, contents_nil] at hgroup
  rw [hgroup]
  exact (h.append (strictness.accepts_ok [.closeParen])).cons .openParen

/-- An operation of two texts gives their tokens, each between parentheses, around the sign. -/
theorem operation {left right : String} {tokens tokens' : List Token}
    (hleft : strictness.Accepts (contents left.toList) tokens)
    (hright : strictness.Accepts (contents right.toList) tokens') (sign : Operator) :
    strictness.Accepts (contents (operationText sign left right).toList)
      (.openParen :: (tokens ++ [.closeParen]) ++
        .operator sign :: (.openParen :: (tokens' ++ [.closeParen]))) := by
  simp only [operationText, String.toList_append, List.append_assoc]
  rw [contents_groupText, contents_sign, List.cons_append, List.append_assoc]
  exact (hleft.append ((hright.group.cons (.operator sign)).cons .closeParen)).cons .openParen

/-- A text behind a minus sign gives its tokens between parentheses, behind the sign. -/
theorem minus {text : String} {tokens : List Token}
    (h : strictness.Accepts (contents text.toList) tokens) :
    strictness.Accepts (contents (minusText text).toList)
      (.operator .minus :: .openParen :: (tokens ++ [.closeParen])) := by
  have hminus := contents_sign .minus text
  rw [minusText, String.toList_append]
  show strictness.Accepts (contents (Operator.minus.text.toList ++ _)) _
  rw [hminus]
  exact h.group.cons _

/-- Texts with commas between them give their tokens with commas between them. -/
theorem separated {parts : List (String × Argument)}
    (h : ∀ part ∈ parts, strictness.Accepts (contents part.1.toList) part.2.tokens) :
    strictness.Accepts (contents (",".intercalate (parts.map Prod.fst)).toList)
      (separated (parts.map Prod.snd)) := by
  induction parts with
  | nil =>
    rw [List.map_nil, String.intercalate_nil, String.toList_empty, contents_nil]
    exact strictness.accepts_ok []
  | cons part parts ih =>
    obtain ⟨hpart, hparts⟩ := List.forall_mem_cons.mp h
    have ih := ih hparts
    cases parts with
    | nil =>
      rw [List.map_singleton, List.map_singleton, String.intercalate_singleton,
        separated_singleton]
      exact hpart
    | cons part' parts =>
      rw [List.map_cons, List.map_cons] at ih
      rw [List.map_cons, List.map_cons, List.map_cons, List.map_cons,
        String.intercalate_cons_cons, contents_comma, separated_cons (List.cons_ne_nil _ _)]
      exact hpart.append (ih.cons .comma)

/-- An argument list goes with its name. -/
theorem call {name : String} (hname : IsName name) {parts : List (String × Argument)}
    (h : ∀ part ∈ parts, strictness.Accepts (contents part.1.toList) part.2.tokens) :
    strictness.Accepts (contents (callText name (parts.map Prod.fst)).toList)
      (.identifier name :: .openParen ::
        (Grammar.separated (parts.map Prod.snd) ++ [.closeParen])) := by
  have hopen : IsBoundary (groupText (",".intercalate (parts.map Prod.fst))).toList := by
    rw [toList_groupText]
    exact isBoundary_cons rfl rfl _
  rw [callText, String.toList_append, contents_name hname hopen]
  exact (separated h).group.cons _

end Strictness.Accepts

/-! ## What is read -/

/-- Settings of the strictness and the limit, without folding. -/
def Settings.plain (strictness : Strictness) (limit : Nat) : Settings :=
  { strictness, depthLimit := limit }

section Reading

open Grammar

/-- The text is taken for the tokens of the phrase, and the phrase is a formula within the
limit. -/
structure ReadsAs (strictness : Strictness) (limit : Nat) (text : String) (phrase : Argument) :
    Prop where
  accepts : strictness.Accepts (contents text.toList) phrase.tokens
  derives : Derives .formula phrase.tokens phrase.tree phrase.nesting
  height_le : phrase.tree.height ≤ limit
  nesting_le : phrase.nesting ≤ limit

variable {strictness : Strictness} {limit : Nat}

/-- A text is read as a tree exactly if it is read as a phrase with that tree. -/
theorem parse_eq_ok_iff_readsAs {text : String} {tree : Expr} :
    (Settings.plain strictness limit).parse text = .ok tree ↔
      ∃ phrase, ReadsAs strictness limit text phrase ∧ phrase.tree = tree := by
  constructor
  · intro h
    obtain ⟨stream, hstream, h⟩ := bind_eq_ok_iff.mp h
    obtain ⟨tree', htree, h⟩ := bind_eq_ok_iff.mp h
    obtain rfl : tree' = tree := Except.ok.inj h
    obtain ⟨nesting, hderives, hheight, hnesting⟩ :=
      derives_of_ofTokens (mapError_eq_ok_iff.mp htree)
    have haccepts := Settings.exists_tokens_iff.mp ⟨stream, mapError_eq_ok_iff.mp hstream, rfl⟩
    exact ⟨⟨_, tree', nesting⟩, ⟨haccepts, hderives, hheight, hnesting⟩, rfl⟩
  · rintro ⟨phrase, h, rfl⟩
    rw [Settings.parse_of_accepts (.plain strictness limit) h.accepts h.derives,
      if_pos ⟨h.height_le, h.nesting_le⟩]
    rfl

/-- Texts that are read as trees are read as phrases with these trees. -/
theorem exists_readsAs_of_parts {parts : List (String × Expr)}
    (h : ∀ part ∈ parts, (Settings.plain strictness limit).parse part.1 = .ok part.2) :
    ∃ phrases : List (String × Argument),
      (∀ part ∈ phrases, ReadsAs strictness limit part.1 part.2) ∧
        phrases.map Prod.fst = parts.map Prod.fst ∧
        (phrases.map Prod.snd).map Argument.tree = parts.map Prod.snd := by
  induction parts with
  | nil => exact ⟨[], nofun, rfl, rfl⟩
  | cons part parts ih =>
    obtain ⟨hpart, hparts⟩ := List.forall_mem_cons.mp h
    obtain ⟨phrase, hphrase, htree⟩ := parse_eq_ok_iff_readsAs.mp hpart
    obtain ⟨phrases, hphrases, htexts, htrees⟩ := ih hparts
    refine ⟨(part.1, phrase) :: phrases, List.forall_mem_cons.mpr ⟨hphrase, hphrases⟩, ?_, ?_⟩
    · rw [List.map_cons, List.map_cons, htexts]
    · rw [List.map_cons, List.map_cons, List.map_cons, htrees, htree]

/-- The parentheses cost one level. -/
theorem ReadsAs.operation {left right : String} {phrase phrase' : Argument}
    (hleft : ReadsAs strictness limit left phrase)
    (hright : ReadsAs strictness limit right phrase') (sign : Operator) :
    ReadsAs strictness (limit + 1) (operationText sign left right)
      ⟨.openParen :: (phrase.tokens ++ [.closeParen]) ++
          .operator sign :: (.openParen :: (phrase'.tokens ++ [.closeParen])),
        .binary sign.operation phrase.tree phrase'.tree,
        max (phrase.nesting + 1) (phrase'.nesting + 1)⟩ where
  accepts := hleft.accepts.operation hright.accepts sign
  derives := by
    obtain ⟨level, hsign⟩ := exists_denotes_operation sign
    exact Derives.operationOfPrimary hsign hleft.derives.group hright.derives.group
  height_le := Nat.succ_le_succ (Nat.max_le.mpr ⟨hleft.height_le, hright.height_le⟩)
  nesting_le := Nat.max_le.mpr
    ⟨Nat.succ_le_succ hleft.nesting_le, Nat.succ_le_succ hright.nesting_le⟩

/-- Arguments within the limit make a call that is nested one level deeper at most. -/
theorem callNesting_le {phrases : List Argument}
    (h : ∀ phrase ∈ phrases, phrase.nesting ≤ limit) : callNesting phrases ≤ limit + 1 := by
  induction phrases with
  | nil => exact Nat.succ_le_succ (Nat.zero_le limit)
  | cons phrase phrases ih =>
    obtain ⟨hphrase, hphrases⟩ := List.forall_mem_cons.mp h
    exact Nat.max_le.mpr ⟨Nat.succ_le_succ hphrase, ih hphrases⟩

/-- The argument list costs one level, however many arguments there are. -/
theorem ReadsAs.call {name : String} (hname : IsName name) {parts : List (String × Argument)}
    (h : ∀ part ∈ parts, ReadsAs strictness limit part.1 part.2) :
    ReadsAs strictness (limit + 1) (callText name (parts.map Prod.fst))
      ⟨.identifier name :: .openParen :: (separated (parts.map Prod.snd) ++ [.closeParen]),
        .call name ((parts.map Prod.snd).map Argument.tree),
        callNesting (parts.map Prod.snd)⟩ := by
  have hphrases : ∀ phrase ∈ parts.map Prod.snd,
      ∃ text, ReadsAs strictness limit text phrase := by
    intro phrase hphrase
    obtain ⟨part, hpart, rfl⟩ := List.mem_map.mp hphrase
    exact ⟨part.1, h part hpart⟩
  refine ⟨.call hname fun part hpart => (h part hpart).accepts, ?_, ?_, ?_⟩
  · refine (Derives.call (.identifier name) ?_).ofPrimary _
    intro phrase hphrase
    obtain ⟨text, hreads⟩ := hphrases phrase hphrase
    exact hreads.derives
  · refine Nat.succ_le_succ (Expr.heightList_le_iff.mpr ?_)
    intro tree htree
    obtain ⟨phrase, hphrase, rfl⟩ := List.mem_map.mp htree
    obtain ⟨text, hreads⟩ := hphrases phrase hphrase
    exact hreads.height_le
  · apply callNesting_le
    intro phrase hphrase
    obtain ⟨text, hreads⟩ := hphrases phrase hphrase
    exact hreads.nesting_le

/-- The parentheses cost one level and the minus sign another one. -/
theorem ReadsAs.minus {text : String} {phrase : Argument}
    (h : ReadsAs strictness limit text phrase) :
    ReadsAs strictness (limit + 2) (minusText text)
      ⟨.operator .minus :: .openParen :: (phrase.tokens ++ [.closeParen]), .neg phrase.tree,
        phrase.nesting + 2⟩ where
  accepts := h.accepts.minus
  derives := by
    have hminus := Derives.minus (.unsigned h.derives.group)
    have hpower : Derives (.operations .power) _ _ _ := .operand hminus
    exact hpower.toFormula
  height_le := Nat.succ_le_succ (Nat.le_succ_of_le h.height_le)
  nesting_le := Nat.add_le_add_right h.nesting_le 2

end Reading

/-! ## Values -/

/-- The value of the text, and how many random numbers were drawn for it. -/
def Calculator.countedValue (calculator : Calculator) (text : String) (context : Context) :
    Except Error (Float × Nat) :=
  let outcome := calculator.evaluate text context
  (·, outcome.trace.draws) <$> outcome.result

/-- The values of the texts, evaluated one behind the other until one of them fails, and how
many random numbers were drawn for them together. -/
def Calculator.countedValues (calculator : Calculator) :
    List String → Context → Except Error (List Float × Nat)
  | [], _ => pure ([], 0)
  | text :: texts, context => do
    let (x, m) ← calculator.countedValue text context
    let (xs, n) ← calculator.countedValues texts (context.skip m)
    pure (x :: xs, m + n)

section Values

variable {settings inner : Settings} (context : Context)

/-- The value of a text is that of the tree it is read as. -/
theorem countedValue_of_parse {text : String} {tree : Expr} (h : settings.parse text = .ok tree) :
    ({ settings } : Calculator).countedValue text context =
      (counted (tree.eval context)).mapError .evaluation := by
  have hparse : (({ settings } : Calculator).parse text).result = .ok tree := h
  unfold Calculator.countedValue Calculator.evaluate
  dsimp only
  rw [hparse]
  show (·, (tree.run context).2.draws) <$> (tree.run context).1.mapError Error.evaluation =
    ((·, (tree.run context).2.draws) <$> (tree.run context).1).mapError Error.evaluation
  cases (tree.run context).1 <;> rfl

/-- The values of texts are those of the trees they are read as. -/
theorem countedValues_of_parse {parts : List (String × Expr)}
    (h : ∀ part ∈ parts, settings.parse part.1 = .ok part.2) :
    ({ settings } : Calculator).countedValues (parts.map Prod.fst) context =
      (counted (Expr.evalList context (parts.map Prod.snd))).mapError .evaluation := by
  induction parts generalizing context with
  | nil => rfl
  | cons part parts ih =>
    obtain ⟨hpart, hparts⟩ := List.forall_mem_cons.mp h
    rw [List.map_cons, List.map_cons, Calculator.countedValues, Expr.counted_cons,
      countedValue_of_parse context hpart]
    simp only [mapError_bind, ih _ hparts]
    rfl

/-- The value of a text that is read as an operation, from texts that are read as the operands. -/
theorem countedValue_binary {whole left right : String} {op : BinaryOp} {a b : Expr}
    (h : settings.parse whole = .ok (.binary op a b)) (hleft : inner.parse left = .ok a)
    (hright : inner.parse right = .ok b) :
    ({ settings } : Calculator).countedValue whole context = (do
      let (x, m) ← ({ settings := inner } : Calculator).countedValue left context
      let (y, n) ← ({ settings := inner } : Calculator).countedValue right (context.skip m)
      pure (op.apply x y, m + n)) := by
  rw [countedValue_of_parse context h, countedValue_of_parse context hleft, Expr.counted_binary]
  simp only [mapError_bind, countedValue_of_parse _ hright]
  rfl

/-- The value of a call is that of the function at the values of the texts in it. -/
theorem countedValue_call {whole name : String} {parts : List (String × Expr)}
    (h : settings.parse whole = .ok (.call name (parts.map Prod.snd)))
    (hparts : ∀ part ∈ parts, inner.parse part.1 = .ok part.2) :
    ({ settings } : Calculator).countedValue whole context = (do
      let f ← (checkedFunction name parts.length).mapError .evaluation
      let (xs, n) ← ({ settings := inner } : Calculator).countedValues (parts.map Prod.fst) context
      pure (f.call (context.random n) xs, n + f.draws)) := by
  rw [countedValue_of_parse context h, countedValues_of_parse context hparts, Expr.counted_call,
    List.length_map]
  simp only [mapError_bind]
  rfl

/-- The value of a text behind a minus sign is the negated value of the text. -/
theorem countedValue_neg {whole text : String} {a : Expr} (h : settings.parse whole = .ok (.neg a))
    (htext : inner.parse text = .ok a) :
    ({ settings } : Calculator).countedValue whole context = (do
      let (x, n) ← ({ settings := inner } : Calculator).countedValue text context
      pure (-x, n)) := by
  rw [countedValue_of_parse context h, countedValue_of_parse context htext, Expr.counted_neg,
    mapError_bind]
  rfl

end Values

/-- **Formulas made of formulas.** Let texts be read within a limit, strictly or leniently and
whatever is mended in them. With one level more, two of them in parentheses with an operator
sign between them are read as the operation on their trees, and any number of them as the
arguments of a name are read as the call with their trees; with two levels more, one of them in
parentheses with a minus sign in front is read as the negation of its tree. The value of the
whole comes from the values of the parts, from left to right and each with the random numbers
that are left, and the first of them that fails decides on the error; a call is checked in
front of its arguments. -/
theorem composed_text_reads_and_evaluates (strictness : Strictness) (limit : Nat) :
    let reads (limit : Nat) := (Settings.plain strictness limit).parse
    let calculator (limit : Nat) : Calculator := { settings := .plain strictness limit }
    (∀ (sign : Operator) (left right : String) (a b : Expr),
      reads limit left = .ok a → reads limit right = .ok b →
        let whole := operationText sign left right
        reads (limit + 1) whole = .ok (.binary sign.operation a b) ∧
        ∀ context, (calculator (limit + 1)).countedValue whole context = (do
          let (x, m) ← (calculator limit).countedValue left context
          let (y, n) ← (calculator limit).countedValue right (context.skip m)
          pure (sign.operation.apply x y, m + n))) ∧
    (∀ (name : String) (parts : List (String × Expr)), IsName name →
      (∀ part ∈ parts, reads limit part.1 = .ok part.2) →
        let whole := callText name (parts.map Prod.fst)
        reads (limit + 1) whole = .ok (.call name (parts.map Prod.snd)) ∧
        ∀ context, (calculator (limit + 1)).countedValue whole context = (do
          let f ← (checkedFunction name parts.length).mapError .evaluation
          let (xs, n) ← (calculator limit).countedValues (parts.map Prod.fst) context
          pure (f.call (context.random n) xs, n + f.draws))) ∧
    (∀ (text : String) (a : Expr), reads limit text = .ok a →
        let whole := minusText text
        reads (limit + 2) whole = .ok (.neg a) ∧
        ∀ context, (calculator (limit + 2)).countedValue whole context = (do
          let (x, n) ← (calculator limit).countedValue text context
          pure (-x, n))) := by
  intro reads calculator
  refine ⟨?_, ?_, ?_⟩
  · intro sign left right a b hleft hright whole
    obtain ⟨phrase, hphrase, rfl⟩ := parse_eq_ok_iff_readsAs.mp hleft
    obtain ⟨phrase', hphrase', rfl⟩ := parse_eq_ok_iff_readsAs.mp hright
    have hwhole := parse_eq_ok_iff_readsAs.mpr ⟨_, hphrase.operation hphrase' sign, rfl⟩
    exact ⟨hwhole, fun context => countedValue_binary context hwhole hleft hright⟩
  · intro name parts hname hparts whole
    obtain ⟨phrases, hphrases, htexts, htrees⟩ := exists_readsAs_of_parts hparts
    have hcall := ReadsAs.call hname hphrases
    rw [htexts, htrees] at hcall
    have hwhole := parse_eq_ok_iff_readsAs.mpr ⟨_, hcall, rfl⟩
    exact ⟨hwhole, fun context => countedValue_call context hwhole hparts⟩
  · intro text a htext whole
    obtain ⟨phrase, hphrase, rfl⟩ := parse_eq_ok_iff_readsAs.mp htext
    have hwhole := parse_eq_ok_iff_readsAs.mpr ⟨_, hphrase.minus, rfl⟩
    exact ⟨hwhole, fun context => countedValue_neg context hwhole htext⟩

/-- A dollar sign and an unknown member are dropped in the parts, and in the texts made of them.
The variable has no value, so in the call the error of the first argument counts. -/
theorem composed_text_reads_and_evaluates_mended :
    let reads (limit : Nat) := (Settings.plain .lenient limit).parse
    let calculator : Calculator := { settings := .plain .lenient 3 }
    let sum : Expr := .binary .add (.literal 1) (.var "x")
    let parts := [("1 $ + x", sum), ("Math.foo 2", .literal 2)]
    (∀ part ∈ parts, reads 2 part.1 = .ok part.2) ∧
      reads 3 "(1 $ + x)*(Math.foo 2)" = .ok (.binary .mul sum (.literal 2)) ∧
      reads 3 "atan2(1 $ + x,Math.foo 2)" = .ok (.call "atan2" [sum, .literal 2]) ∧
      reads 4 "-(1 $ + x)" = .ok (.neg sum) ∧
      calculator.countedValue "atan2(1 $ + x,Math.foo 2)" ⟨.empty, Random.uniform 0⟩ =
        .error (.evaluation (.unknownVariable "x")) := by
  intro reads calculator sum parts
  have hparts : ∀ part ∈ parts, reads 2 part.1 = .ok part.2 := by decide +kernel
  have hsum : reads 2 "1 $ + x" = .ok sum := hparts ("1 $ + x", sum) List.mem_cons_self
  have htwo : reads 2 "Math.foo 2" = .ok (.literal 2) := by decide +kernel
  have hname : IsName "atan2" := ⟨'a', ['t', 'a', 'n', '2'], rfl, rfl, List.all_eq_true.mp rfl⟩
  obtain ⟨hoperation, hcall, hminus⟩ := composed_text_reads_and_evaluates .lenient 2
  have hproduct := hoperation .star _ _ _ _ hsum htwo
  obtain ⟨hread, hvalue⟩ := hcall "atan2" parts hname hparts
  refine ⟨hparts, hproduct.1, hread, (hminus _ _ hsum).1, ?_⟩
  exact (hvalue _).trans (by decide +kernel)

end Reckoner
