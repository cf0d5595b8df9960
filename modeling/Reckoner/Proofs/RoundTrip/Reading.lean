import Reckoner.Proofs.Cache.Transparency
import Reckoner.Proofs.Folding.NormalForm
import Reckoner.Proofs.Grammar.Leaves
import Reckoner.Proofs.RoundTrip.Text

/-!
# The text of a tree that was read

The text of a tree that a calculator has read is read back as that tree by the calculator, if
the literals are finite and the limit allows for the text. The limit is what can fail: each
minus sign of a formula is one level, and in the text of its tree, where it has parentheses
around it, two. A tree without signs is written with as many levels as it has itself, so its
text is always read back.

The tree has the form that its text is read as. Without folding no literal has a sign, since
no number of a formula has one; with folding negations of literals are folded again.
-/

set_option autoImplicit false

namespace Reckoner

namespace Expr

mutual

/-- A tree with finite literals and names of formulas can be written. -/
theorem writable_of_leaves : ∀ e : Expr, (∀ value ∈ e.literals, value.isFinite = true) →
    (∀ name ∈ e.variableOccurrences, IsName name) → (∀ name ∈ e.callOccurrences, IsName name) →
    e.Writable
  | literal value, hfinite, _, _ => hfinite value List.mem_cons_self
  | var name, _, hvariables, _ => hvariables name List.mem_cons_self
  | neg operand, hfinite, hvariables, hcalls =>
    writable_of_leaves operand hfinite hvariables hcalls
  | binary _ left right, hfinite, hvariables, hcalls => by
    simp only [literals, variableOccurrences, callOccurrences, List.forall_mem_append]
      at hfinite hvariables hcalls
    exact ⟨writable_of_leaves left hfinite.1 hvariables.1 hcalls.1,
      writable_of_leaves right hfinite.2 hvariables.2 hcalls.2⟩
  | call name args, hfinite, hvariables, hcalls => by
    simp only [callOccurrences, List.forall_mem_cons] at hcalls
    exact ⟨hcalls.1, allWritable_of_leaves args hfinite hvariables hcalls.2⟩

/-- Arguments can be written if their literals are finite and their names are names of formulas. -/
theorem allWritable_of_leaves : ∀ es : List Expr,
    (∀ value ∈ literalsList es, value.isFinite = true) →
    (∀ name ∈ variableOccurrencesList es, IsName name) →
    (∀ name ∈ callOccurrencesList es, IsName name) → AllWritable es
  | [], _, _, _ => trivial
  | e :: es, hfinite, hvariables, hcalls => by
    simp only [literalsList, variableOccurrencesList, callOccurrencesList,
      List.forall_mem_append] at hfinite hvariables hcalls
    exact ⟨writable_of_leaves e hfinite.1 hvariables.1 hcalls.1,
      allWritable_of_leaves es hfinite.2 hvariables.2 hcalls.2⟩

end

mutual

/-- A tree none of whose literals has a sign is its own reading. -/
theorem explicit_eq_self : ∀ e : Expr, (∀ value ∈ e.literals, Number.isNegative value = false) →
    e.explicit = e
  | literal value, hsign => by
    have hvalue := hsign value List.mem_cons_self
    rw [explicit, hvalue]
    rfl
  | var name, _ => rfl
  | neg operand, hsign => by
    rw [explicit, explicit_eq_self operand hsign]
  | binary op left right, hsign => by
    rw [literals, List.forall_mem_append] at hsign
    rw [explicit, explicit_eq_self left hsign.1, explicit_eq_self right hsign.2]
  | call name args, hsign => by
    rw [explicit, explicitList_eq_self args hsign]

/-- Arguments without literals that have a sign are explicit already. -/
theorem explicitList_eq_self : ∀ es : List Expr,
    (∀ value ∈ literalsList es, Number.isNegative value = false) → explicitList es = es
  | [], _ => rfl
  | e :: es, hsign => by
    rw [literalsList, List.forall_mem_append] at hsign
    rw [explicitList, explicit_eq_self e hsign.1, explicitList_eq_self es hsign.2]

end

mutual

/-- Folding puts the literals with a sign back in the place of negations. -/
theorem fold_explicit : ∀ e : Expr, e.explicit.fold = e.fold
  | literal value => by
    rw [explicit]
    split
    case isTrue => rw [fold, fold, fold, foldedNeg, Number.neg_neg]
    case isFalse => rfl
  | var name => rfl
  | neg operand => by
    rw [explicit, fold, fold, fold_explicit operand]
  | binary op left right => by
    rw [explicit, fold, fold, fold_explicit left, fold_explicit right]
  | call name args => by
    rw [explicit, fold, fold, foldList_explicitList args]

/-- Explicit arguments are folded into what the arguments are folded into. -/
theorem foldList_explicitList : ∀ es : List Expr, foldList (explicitList es) = foldList es
  | [] => rfl
  | e :: es => by
    rw [explicitList, foldList, foldList, fold_explicit e, foldList_explicitList es]

end

mutual

/-- The text of the tree has a minus sign in front of an operand. -/
def hasSign : Expr → Bool
  | literal value => Number.isNegative value
  | var _ => false
  | neg _ => true
  | binary _ left right => left.hasSign || right.hasSign
  | call _ args => anyHasSign args

/-- The text of one of the trees has a minus sign in front of an operand. -/
def anyHasSign : List Expr → Bool
  | [] => false
  | e :: es => e.hasSign || anyHasSign es

end

mutual

/-- The text of a tree without signs is nested as deep as the tree is high. -/
theorem textNesting_of_unsigned :
    ∀ e : Expr, e.hasSign = false → e.textNesting + 1 = e.height
  | literal value, hsign => by
    rw [hasSign] at hsign
    rw [textNesting, hsign]
    rfl
  | var name, _ => rfl
  | neg operand, hsign => by
    rw [hasSign] at hsign
    contradiction
  | binary op left right, hsign => by
    rw [hasSign, Bool.or_eq_false_iff] at hsign
    have hleft := textNesting_of_unsigned left hsign.1
    have hright := textNesting_of_unsigned right hsign.2
    rw [textNesting, height]
    omega
  | call name args, hsign => by
    rw [textNesting, height, argsNesting_of_unsigned args hsign]

/-- Without minus signs the texts of arguments are nested as deeply as the trees are high. -/
theorem argsNesting_of_unsigned :
    ∀ es : List Expr, anyHasSign es = false → argsNesting es = heightList es
  | [], _ => rfl
  | e :: es, hsign => by
    rw [anyHasSign, Bool.or_eq_false_iff] at hsign
    have he := textNesting_of_unsigned e hsign.1
    have hes := argsNesting_of_unsigned es hsign.2
    rw [argsNesting, heightList, he, hes]

end

mutual

/-- Signs make the text of a tree nested at most twice as deep as the tree is high. -/
theorem textNesting_le : ∀ e : Expr, e.textNesting ≤ 2 * e.height
  | literal value => by
    rw [textNesting, height]
    split <;> omega
  | var name => Nat.zero_le 2
  | neg operand => by
    have hoperand := textNesting_le operand
    rw [textNesting, height]
    omega
  | binary op left right => by
    have hleft := textNesting_le left
    have hright := textNesting_le right
    rw [textNesting, height]
    omega
  | call name args => by
    have hargs := argsNesting_le args
    rw [textNesting, height]
    omega

/-- Each level of a tree is at most two levels of its text. -/
theorem argsNesting_le : ∀ es : List Expr, argsNesting es ≤ 2 * heightList es + 1
  | [] => Nat.zero_le 1
  | e :: es => by
    have he := textNesting_le e
    have hes := argsNesting_le es
    rw [argsNesting, heightList]
    omega

end

end Expr

namespace Settings

variable {settings : Settings} {text : String} {e : Expr}

/-- A tree is finished by folding it or not at all. -/
theorem finished_eq (settings : Settings) (tree : Expr) :
    settings.finished tree = if settings.folding then tree.fold else tree := by
  rw [finished, Expr.folded_eq_fold]

/-- Folding or not, a tree that is finished is no higher. -/
theorem height_finished_le (settings : Settings) (tree : Expr) :
    (settings.finished tree).height ≤ tree.height := by
  rw [finished_eq]
  split
  case isTrue => exact tree.height_fold_le
  case isFalse => exact Nat.le_refl _

/-- A finished tree has the variables of the tree. -/
theorem variableOccurrences_finished (settings : Settings) (tree : Expr) :
    (settings.finished tree).variableOccurrences = tree.variableOccurrences := by
  rw [finished_eq]
  split
  case isTrue => exact tree.variableOccurrences_fold
  case isFalse => rfl

/-- A finished tree has the calls of the tree. -/
theorem callOccurrences_finished (settings : Settings) (tree : Expr) :
    (settings.finished tree).callOccurrences = tree.callOccurrences := by
  rw [finished_eq]
  split
  case isTrue => exact tree.callOccurrences_fold
  case isFalse => rfl

/-- The reading of the text of a finished tree is finished to that tree again. -/
theorem finished_explicit_finished (settings : Settings) {tree : Expr} (h : tree.IsPlain) :
    settings.finished (settings.finished tree).explicit = settings.finished tree := by
  rw [finished_eq, finished_eq]
  split
  case isTrue => rw [Expr.fold_explicit, Expr.fold_fold]
  case isFalse => exact tree.explicit_eq_self h.isNegative_literal

/-- What is read from a text is a plain tree no higher than the limit, and then finished. -/
theorem exists_finished (h : settings.parse text = .ok e) :
    ∃ tree, e = settings.finished tree ∧ tree.height ≤ settings.depthLimit ∧ tree.IsPlain := by
  obtain ⟨stream, hstream, h⟩ := bind_eq_ok_iff.mp h
  obtain ⟨tree, htree, h⟩ := bind_eq_ok_iff.mp h
  obtain ⟨nesting, hderives, hheight, -⟩ :=
    Grammar.derives_of_ofTokens (mapError_eq_ok_iff.mp htree)
  have hplain := isPlain_of_tokens (mapError_eq_ok_iff.mp hstream)
  refine ⟨tree, (Except.ok.inj h).symm, hheight, (Grammar.Derives.madeOf hderives).isPlain ?_⟩
  intro token htoken
  obtain ⟨located, hlocated, rfl⟩ := List.mem_map.mp htoken
  exact hplain located hlocated

/-- A tree that is read is no higher than the limit. -/
theorem height_le_of_parse (h : settings.parse text = .ok e) :
    e.height ≤ settings.depthLimit := by
  obtain ⟨tree, rfl, hheight, -⟩ := exists_finished h
  exact Nat.le_trans (settings.height_finished_le tree) hheight

/-- What was read can be written, if its literals are finite. -/
theorem writable_of_parse (h : settings.parse text = .ok e)
    (hfinite : ∀ value ∈ e.literals, value.isFinite = true) : e.Writable := by
  obtain ⟨tree, rfl, -, hplain⟩ := exists_finished h
  apply Expr.writable_of_leaves _ hfinite
  · rw [variableOccurrences_finished]
    exact hplain.isName_variable
  · rw [callOccurrences_finished]
    exact hplain.isName_call

/-- The text of what was read is read as the same tree, by any settings that finish trees in
the same way, if their limit allows for it. -/
theorem parse_text_of_parse (h : settings.parse text = .ok e)
    (hfinite : ∀ value ∈ e.literals, value.isFinite = true) (other : Settings)
    (hfolding : other.folding = settings.folding) :
    other.parse e.text =
      if e.textNesting + 1 ≤ other.depthLimit then .ok e
      else .error (.syntactic (.tooDeep other.depthLimit)) := by
  have hwritable := writable_of_parse h hfinite
  obtain ⟨tree, rfl, -, hplain⟩ := exists_finished h
  have hfinished : ∀ tree, other.finished tree = settings.finished tree := by
    intro tree
    rw [finished, finished, hfolding]
  rw [other.parse_text hwritable, hfinished, settings.finished_explicit_finished hplain]

end Settings

/-- **The text of a tree that was read.** Take a calculator with any settings, with or
without a cache, after any series of requests, and a text that it reads with success as a
tree whose literals are finite. Of the text of the tree it reads exactly the tree, to the bit,
if the limit is at least one more than the nesting of that text, and else it refuses the text
as too deep. It never does so for a tree without signs, and with a limit of one more than
twice as much no text of a tree that it has read is refused. -/
theorem parsed_text_reads_back (settings : Settings) (capacity : Option Nat)
    (source : Nat → Float) (requests : List Request) {text : String} {e : Expr} :
    let new : Session := { calculator := { settings, cache := capacity.map Cache.ofCapacity } }
    let calculator := (new.after source requests).calculator
    let again := ((calculator.parse text).calculator.parse e.text).result
    (calculator.parse text).result = .ok e → (∀ value ∈ e.literals, value.isFinite = true) →
    again = (if e.textNesting + 1 ≤ settings.depthLimit then .ok e
      else .error (.syntactic (.tooDeep settings.depthLimit))) ∧
    (e.hasSign = false → again = .ok e) ∧
    ({ settings with depthLimit := 2 * settings.depthLimit + 1 } : Settings).parse e.text =
      .ok e := by
  intro new calculator again hread hfinite
  -- what has been asked before does not matter, so the settings alone decide
  have hnew : new.calculator.Faithful := Calculator.faithful_mk settings capacity
  obtain ⟨hsettings, hfaithful⟩ := Session.faithful_after source hnew requests
  obtain ⟨hresult, hsettings', hfaithful'⟩ := hfaithful.parse text
  obtain ⟨hagain, -, -⟩ := hfaithful'.parse e.text
  have hparse : settings.parse text = .ok e := by
    rw [← hread, hresult, hsettings]
  have hagain : again = settings.parse e.text := by
    rw [← show calculator.settings = settings from hsettings, ← hsettings']
    exact hagain
  have htext := Settings.parse_text_of_parse hparse hfinite
  have hheight := Settings.height_le_of_parse hparse
  refine ⟨?_, ?_, ?_⟩
  · rw [hagain, htext settings rfl]
  · intro hsign
    have hnesting := e.textNesting_of_unsigned hsign
    rw [hagain, htext settings rfl, if_pos (by omega)]
  · have hnesting := e.textNesting_le
    have hdeeper := htext { settings with depthLimit := 2 * settings.depthLimit + 1 } rfl
    rw [hdeeper, if_pos]
    show e.textNesting + 1 ≤ 2 * settings.depthLimit + 1
    omega

/-- A limit of two allows for `-x`, but not for its text `(-x)`, which needs three levels. -/
theorem parsed_text_reads_back_minus :
    let calculator : Calculator := { settings := { depthLimit := 2 } }
    let first := calculator.parse "-x"
    first.result = .ok (.neg (.var "x")) ∧
      (first.calculator.parse (Expr.neg (.var "x")).text).result =
        .error (.syntactic (.tooDeep 2)) := by
  intro calculator first
  have hread : ({ depthLimit := 2 } : Settings).parse "-x" = .ok (.neg (.var "x")) := by
    decide +kernel
  obtain ⟨hagain, -, -⟩ :=
    parsed_text_reads_back { depthLimit := 2 } none (Random.uniform 0) [] hread nofun
  exact ⟨hread, hagain⟩

end Reckoner
