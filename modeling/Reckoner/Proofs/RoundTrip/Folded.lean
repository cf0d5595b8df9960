import Reckoner.Proofs.RoundTrip.Reading

/-!
# Texts of folded trees

No number of a formula has a sign, so a literal with one comes from folding, and it is written
as a negation. Reading the text with constants folded carries out the negation again and gives
back the literal, `-0` included. Nothing more is folded: what is read from the text of any tree
is the folded tree, and a folded tree has nothing left to fold.
-/

set_option autoImplicit false

namespace Reckoner

namespace Settings

variable {settings : Settings} {text : String} {e : Expr}

/-- With folding, the text of a tree is read as the folded tree. -/
theorem parse_text_of_folding (hfolding : settings.folding = true) (h : e.Writable) :
    settings.parse e.text =
      if e.textNesting + 1 ≤ settings.depthLimit then .ok e.folded
      else .error (.syntactic (.tooDeep settings.depthLimit)) := by
  have hfinished : settings.finished e.explicit = e.folded := by
    rw [finished_eq, if_pos hfolding, Expr.fold_explicit, Expr.folded_eq_fold]
  rw [settings.parse_text h, hfinished]

/-- With folding, nothing is left to fold in what is read. -/
theorem folded_of_parse (hfolding : settings.folding = true) (h : settings.parse text = .ok e) :
    e.folded = e := by
  obtain ⟨tree, rfl, -, -⟩ := exists_finished h
  rw [finished_eq, if_pos hfolding, Expr.folded_eq_fold, Expr.fold_fold]

end Settings

/-- **The text of a folded tree.** A tree that was read with constants folded, and whose
literals are finite, has nothing left to fold. Its text is read with constants folded as the
same tree to the bit, strictly and leniently, exactly with the limits from one more than its
nesting on; under all others it is refused as too deep. -/
theorem folded_text_reads_back {strictness : Strictness} {limit : Nat} {text : String} {e : Expr}
    (hread : ({ strictness, depthLimit := limit, folding := true } : Settings).parse text = .ok e)
    (hfinite : ∀ value ∈ e.literals, value.isFinite = true) :
    e.folded = e ∧
      ∀ (strictness' : Strictness) (limit' : Nat),
        ({ strictness := strictness', depthLimit := limit', folding := true } : Settings).parse
            e.text =
          if 1 + e.textNesting ≤ limit' then .ok e
          else .error (.syntactic (.tooDeep limit')) := by
  have hfolded := Settings.folded_of_parse rfl hread
  refine ⟨hfolded, ?_⟩
  intro strictness' limit'
  have hwritable := Settings.writable_of_parse hread hfinite
  rw [Settings.parse_text_of_folding rfl hwritable, hfolded, Nat.add_comm]

/-- The tree has a literal `-3` and a literal `-0`, its text is `(max((-3), (-0)) * x)`, and
each of the literals needs two levels inside the argument list and the parentheses. -/
theorem folded_text_reads_back_negative_zero :
    let folding (limit : Nat) : Settings := { depthLimit := limit, folding := true }
    let e : Expr := .binary .mul
      (.call "max"
        [.literal (Number.ofDyadic .negative 3 0), .literal (Number.ofDyadic .negative 0 0)])
      (.var "x")
    (folding 256).parse "max(2 - 5, -0) * x" = .ok e ∧
      (∀ value ∈ e.literals, value.isFinite = true) ∧
      e.text = "(max((-3), (-0)) * x)" ∧
      (folding 5).parse e.text = .ok e ∧
      (folding 4).parse e.text = .error (.syntactic (.tooDeep 4)) := by
  intro folding e
  have hread : (folding 256).parse "max(2 - 5, -0) * x" = .ok e := by decide +kernel
  have hfinite : ∀ value ∈ e.literals, value.isFinite = true := by decide +kernel
  have htext : e.text = "(max((-3), (-0)) * x)" := by decide +kernel
  have hnesting : e.textNesting = 4 := by decide +kernel
  obtain ⟨-, hagain⟩ := folded_text_reads_back hread hfinite
  refine ⟨hread, hfinite, htext, ?_, ?_⟩
  · rw [hagain .strict 5, hnesting]
    rfl
  · rw [hagain .strict 4, hnesting]
    rfl

end Reckoner
