import Reckoner.Proofs.RoundTrip.Reading

/-!
# Limits under which all texts are read back

No limit that allows for a minus sign is large enough for the texts of all trees that it
allows for. Under a limit of `n + 1` a variable may have `n` minus signs in front of it, and
the text of the tree puts each of them in parentheses and needs `2 * n + 1`. Under the limits
zero and one there are no signs, and every text is read back.
-/

set_option autoImplicit false

namespace Reckoner

/-- A variable with so many minus signs in front of it. -/
def negations (n : Nat) : Expr :=
  Nat.repeat .neg n (.var "x")

/-- The tokens of the variable and the signs. -/
def negationTokens (n : Nat) : List Token :=
  List.replicate n (.operator .minus) ++ [.identifier "x"]

/-- The variable and the signs as they are written. -/
def negationText (n : Nat) : String :=
  String.ofList (List.replicate n '-' ++ ['x'])

/-- Every tree has a node. -/
theorem Expr.height_pos (e : Expr) : 0 < e.height := by
  cases e <;> exact Nat.succ_pos _

/-- Each minus sign adds one to the height. -/
theorem height_negations (n : Nat) : (negations n).height = n + 1 := by
  induction n with
  | zero => rfl
  | succ n ih => exact congrArg (· + 1) ih

/-- Each minus sign nests the text two levels deeper, one of them for its parentheses. -/
theorem textNesting_negations (n : Nat) : (negations n).textNesting = 2 * n := by
  induction n with
  | zero => rfl
  | succ n ih =>
    show (negations n).textNesting + 2 = 2 * (n + 1)
    omega

/-- There are no literals behind the minus signs. -/
theorem literals_negations (n : Nat) : (negations n).literals = [] := by
  induction n with
  | zero => rfl
  | succ n ih => exact ih

/-- Minus signs in front of a variable cannot be folded. -/
theorem fold_negations (n : Nat) : (negations n).fold = negations n := by
  induction n with
  | zero => rfl
  | succ n ih =>
    show (negations n).fold.foldedNeg = (negations n).neg
    rw [ih]
    cases n <;> rfl

/-- Minus signs in front of a name are a signed operand, nested as deeply as they are many. -/
theorem derives_negations (n : Nat) :
    Grammar.Derives .signed (negationTokens n) (negations n) (n + 1) := by
  induction n with
  | zero => exact .unsigned (.var "x")
  | succ n ih => exact .minus ih

/-- The text is cut into its minus signs and the name. -/
theorem contents_negationText (n : Nat) :
    contents (negationText n).toList = (negationTokens n).map .ok := by
  rw [negationText, String.toList_ofList]
  induction n with
  | zero =>
    have hx : IsName "x" := ⟨'x', [], rfl, rfl, nofun⟩
    have hcontents := contents_name hx isBoundary_nil
    rw [List.append_nil, contents_nil] at hcontents
    exact hcontents
  | succ n ih =>
    rw [List.replicate_succ, List.cons_append, contents_punctuation rfl, ih]
    rfl

namespace Settings

/-- The variable is read with any number of signs below the limit. -/
theorem parse_negationText (settings : Settings) {n : Nat} (h : n < settings.depthLimit) :
    settings.parse (negationText n) = .ok (negations n) := by
  have hpower : Grammar.Derives (.operations .power) _ _ _ := .operand (derives_negations n)
  rw [settings.parse_of_contents (contents_negationText n) hpower.toFormula, height_negations,
    if_pos ⟨h, h⟩, finished_eq, fold_negations, ite_self]

/-- Under a limit of one there are only numbers, variables and calls without arguments. -/
theorem hasSign_eq_false_of_parse {settings : Settings} (hlimit : settings.depthLimit ≤ 1)
    {text : String} {e : Expr} (h : settings.parse text = .ok e) : e.hasSign = false := by
  obtain ⟨tree, rfl, hheight, hplain⟩ := exists_finished h
  have hone : tree.height ≤ 1 := Nat.le_trans hheight hlimit
  rw [finished_eq]
  -- only leaves and calls without arguments are no higher than one
  cases tree with
  | literal value =>
    rw [Expr.fold, ite_self]
    exact hplain.isNegative_literal value List.mem_cons_self
  | var name =>
    rw [Expr.fold, ite_self]
    rfl
  | neg operand =>
    have hpos := operand.height_pos
    rw [Expr.height] at hone
    omega
  | binary op left right =>
    have hpos := left.height_pos
    rw [Expr.height] at hone
    omega
  | call name args =>
    cases args with
    | nil =>
      rw [Expr.fold, Expr.foldList, ite_self]
      rfl
    | cons e es =>
      have hpos := e.height_pos
      rw [Expr.height, Expr.heightList] at hone
      omega

end Settings

/-- **When all texts are read back.** That the text of every tree with finite literals is read
back as the tree by the settings by which the tree was read, is true exactly of the limits that
allow for no sign. -/
theorem texts_read_back_iff (settings : Settings) :
    (∀ (text : String) (e : Expr), settings.parse text = .ok e →
      (∀ value ∈ e.literals, value.isFinite = true) → settings.parse e.text = .ok e) ↔
      settings.depthLimit ≤ 1 := by
  constructor
  · intro hall
    apply Nat.le_of_not_lt
    intro hlimit
    obtain ⟨n, hn⟩ : ∃ n, settings.depthLimit = n + 2 := ⟨settings.depthLimit - 2, by omega⟩
    have hread := settings.parse_negationText (n := n + 1) (by omega)
    have hfinite : ∀ value ∈ (negations (n + 1)).literals, value.isFinite = true := by
      rw [literals_negations]
      exact nofun
    have hagain := hall _ _ hread hfinite
    have hdeep : ¬ 2 * (n + 1) + 1 ≤ settings.depthLimit := by omega
    rw [Settings.parse_text_of_parse hread hfinite settings rfl, textNesting_negations,
      if_neg hdeep] at hagain
    contradiction
  · intro hlimit text e hread hfinite
    have hnesting := e.textNesting_of_unsigned (Settings.hasSign_eq_false_of_parse hlimit hread)
    have hheight := Settings.height_le_of_parse hread
    rw [Settings.parse_text_of_parse hread hfinite settings rfl, if_pos (by omega)]

/-- The usual limit is not one of them. -/
theorem usual_limit_refuses_text :
    ¬∀ (text : String) (e : Expr), Expr.parse text = .ok e →
      (∀ value ∈ e.literals, value.isFinite = true) → Expr.parse e.text = .ok e := by
  intro hall
  have hlimit := (texts_read_back_iff {}).mp hall
  contradiction

end Reckoner
