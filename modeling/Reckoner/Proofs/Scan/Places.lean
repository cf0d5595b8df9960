import Mathlib.Data.List.Nodup
import Reckoner.Token.Scan

/-!
# The places of lexemes

The lexemes of a text stand in it one behind the other: each starts within the text, behind
the start of the one before, so that a lexeme is known by its place.
-/

set_option autoImplicit false

namespace Reckoner

/-- A lexeme and what stands behind it take as many bytes as the whole. -/
theorem byteLength_first (c : Char) (cs : List Char) :
    byteLength (c :: cs) =
      byteLength (Lexeme.first c cs).text + byteLength (Lexeme.first c cs).rest := by
  rw [← byteLength_append, Lexeme.text_append_rest]

/-- Characters have bytes. -/
theorem byteLength_pos {cs : List Char} (h : cs ≠ []) : 0 < byteLength cs := by
  obtain ⟨c, cs, rfl⟩ := List.exists_cons_of_ne_nil h
  have hc := c.utf8Size_pos
  rw [byteLength]
  omega

/-- A scan ends behind all the bytes. -/
theorem endPosition_scanFrom (p : Nat) (cs : List Char) :
    (scanFrom p cs).endPosition = p + byteLength cs := by
  induction p, cs using scanFrom.induct with
  | case1 p => simp [scanFrom, byteLength]
  | case2 p c cs hblank ih => simp [scanFrom, hblank, ih, byteLength, Nat.add_assoc]
  | case3 p c cs hblank lexeme ih =>
    rw [scanFrom, if_neg hblank, byteLength_first, ← Nat.add_assoc]
    exact ih

/-- Lexemes start within the text. -/
theorem position_bounds (p : Nat) (cs : List Char) :
    ∀ lexeme ∈ (scanFrom p cs).lexemes,
      p ≤ lexeme.position ∧ lexeme.position < p + byteLength cs := by
  induction p, cs using scanFrom.induct with
  | case1 p => simp [scanFrom]
  | case2 p c cs hblank ih =>
    intro lexeme hlexeme
    rw [scanFrom, if_pos hblank] at hlexeme
    have hbounds := ih lexeme hlexeme
    rw [byteLength]
    omega
  | case3 p c cs hblank first ih =>
    intro lexeme hlexeme
    have hpos : 0 < byteLength first.text := byteLength_pos (Lexeme.text_ne_nil c cs)
    have hlength : byteLength (c :: cs) = byteLength first.text + byteLength first.rest :=
      byteLength_first c cs
    rw [scanFrom, if_neg hblank] at hlexeme
    rcases List.mem_cons.mp hlexeme with rfl | hlexeme
    · dsimp only
      omega
    · have hbounds := ih lexeme hlexeme
      omega

/-- Every lexeme starts behind the start of those before it. -/
theorem pairwise_position_lt (p : Nat) (cs : List Char) :
    (scanFrom p cs).lexemes.Pairwise (fun a b => a.position < b.position) := by
  induction p, cs using scanFrom.induct with
  | case1 p => simp [scanFrom]
  | case2 p c cs hblank ih =>
    rw [scanFrom, if_pos hblank]
    exact ih
  | case3 p c cs hblank first ih =>
    have hpos : 0 < byteLength first.text := byteLength_pos (Lexeme.text_ne_nil c cs)
    rw [scanFrom, if_neg hblank, List.pairwise_cons]
    refine ⟨?_, ih⟩
    intro lexeme hlexeme
    have hbounds := position_bounds (p + byteLength first.text) first.rest lexeme hlexeme
    dsimp only
    omega

/-- A lexeme of a text is known by its place. -/
theorem eq_of_position_eq {p : Nat} {cs : List Char} {a b : Located (Except Anomaly Token)}
    (ha : a ∈ (scanFrom p cs).lexemes) (hb : b ∈ (scanFrom p cs).lexemes)
    (h : a.position = b.position) : a = b := by
  have hnodup : ((scanFrom p cs).lexemes.map Located.position).Nodup := by
    rw [List.Nodup, List.pairwise_map]
    exact (pairwise_position_lt p cs).imp fun hlt => Nat.ne_of_lt hlt
  exact List.inj_on_of_nodup_map hnodup ha hb h

end Reckoner
