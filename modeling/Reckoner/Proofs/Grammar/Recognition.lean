import Reckoner.Proofs.Grammar.Completeness

/-!
# Tokens are recognised exactly

The reader of whole token streams and the grammar agree: a stream has a tree within a
limit exactly when its tokens derive the tree and neither the height of the tree nor the
nesting of its leaves is above the limit. A stream that derives a tree and is above the
limit is refused as too deep. Since the reader is a function, the grammar is unambiguous.
-/

set_option autoImplicit false

namespace Reckoner.Grammar

open Reader

/-- The stream derives the tree with the nesting. -/
abbrev DerivesStream (stream : TokenStream) (tree : Expr) (nesting : Nat) : Prop :=
  Derives .formula (stream.tokens.map Located.value) tree nesting

/-- What is read from a stream that is a formula depends on the limit only. -/
theorem ofTokens_of_derives {stream : TokenStream} {tree : Expr} {nesting : Nat}
    (h : DerivesStream stream tree nesting) (limit : Nat) :
    Expr.ofTokens limit stream = allowed limit limit tree.height nesting (.ok tree) := by
  have houtcome : outcome (expression limit stream.endPosition limit stream.tokens) =
      allowed limit limit tree.height nesting (.ok (tree, tree.height, [])) := by
    by_cases hlimit : 0 < limit
    · have := complete_expression stream.endPosition hlimit limit _ _ _ _ h (ends_nil _)
      rwa [List.append_nil] at this
    · -- without any level the reader gives up, and the nesting is positive
      have := h.nesting_pos
      obtain rfl : limit = 0 := by omega
      rw [allowed, if_neg (by omega)]
      rfl
  rw [ofTokens_eq, houtcome, allowed_bind]
  rfl

/-- What is read from a stream is derived within the limit. -/
theorem derives_of_ofTokens {limit : Nat} {stream : TokenStream} {tree : Expr}
    (h : Expr.ofTokens limit stream = .ok tree) :
    ∃ nesting, DerivesStream stream tree nesting ∧ tree.height ≤ limit ∧ nesting ≤ limit := by
  rw [ofTokens_eq] at h
  obtain ⟨⟨value, height, rest⟩, hread, hrest⟩ := bind_eq_ok_iff.1 h
  cases rest with
  | cons found rest => cases hrest
  | nil =>
    cases hrest
    have hlimit : 0 < limit := by
      apply Nat.pos_of_ne_zero
      rintro rfl
      cases hread
    obtain ⟨used, nesting, htokens, hderives, hnesting, hheight, hle⟩ :=
      sound_expression stream.endPosition hlimit limit _ _ _ _ hread
    rw [List.append_nil] at htokens
    refine ⟨nesting, ?_, ?_, hnesting⟩
    · rw [DerivesStream, htokens]
      exact hderives
    · rw [hheight]
      exact hle

/-- With the nesting of one derivation as the budget, another derivation of the same tokens
has the same tree and no greater nesting. -/
theorem Derives.unique_le {tokens : List Token} {a b : Expr} {m n : Nat}
    (ha : Derives .formula tokens a m) (hb : Derives .formula tokens b n) : a = b ∧ n ≤ m := by
  obtain ⟨located, rfl⟩ : ∃ located : List (Located Token), tokens = located.map Located.value :=
    ⟨tokens.map (⟨·, 0⟩), by simp [Function.comp_def]⟩
  have hlimit : 0 < max a.height b.height + 1 := Nat.succ_pos _
  have hreada := complete_expression 0 hlimit m _ _ _ _ ha (ends_nil _)
  have hreadb := complete_expression 0 hlimit m _ _ _ _ hb (ends_nil _)
  rw [hreada, allowed, if_pos ⟨by omega, Nat.le_refl m⟩, allowed] at hreadb
  split at hreadb
  · rename_i hallowed
    cases hreadb
    exact ⟨rfl, hallowed.2⟩
  · cases hreadb

/-- The grammar is unambiguous: tokens have one tree and one nesting. -/
theorem Derives.unique {tokens : List Token} {a b : Expr} {m n : Nat}
    (ha : Derives .formula tokens a m) (hb : Derives .formula tokens b n) : a = b ∧ m = n := by
  obtain ⟨htree, hnm⟩ := ha.unique_le hb
  obtain ⟨-, hmn⟩ := hb.unique_le ha
  exact ⟨htree, Nat.le_antisymm hmn hnm⟩

/-- **Recognition.** A stream is read to a tree exactly if it derives the tree and the height
of the tree and the nesting are within the limit, and it derives no other tree. -/
theorem ofTokens_eq_ok_iff_derives (limit : Nat) (stream : TokenStream) :
    (∀ tree, Expr.ofTokens limit stream = .ok tree ↔
      ∃ nesting, DerivesStream stream tree nesting ∧ tree.height ≤ limit ∧ nesting ≤ limit) ∧
    ∀ a b m n, DerivesStream stream a m → DerivesStream stream b n → a = b ∧ m = n := by
  constructor
  · intro tree
    constructor
    · exact derives_of_ofTokens
    · rintro ⟨nesting, hderives, hheight, hnesting⟩
      rw [ofTokens_of_derives hderives, allowed, if_pos ⟨hheight, hnesting⟩]
  · intro a b m n ha hb
    exact ha.unique hb

end Reckoner.Grammar
