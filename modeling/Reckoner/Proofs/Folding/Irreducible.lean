import Reckoner.Proofs.Comparison
import Reckoner.Proofs.Names.Nodes

/-!
# Trees with nothing left to fold

Nothing is left to fold in a tree if none of its nodes is an operation on literals, at any
depth. One pass leads to such a tree: the node that a local rule gives is not such an operation,
and the nodes below it are those of the folded operands. Conversely the pass keeps such a tree as
it is, so the trees with nothing left to fold are the trees that folding does not change, and a
further round stops at once. The test by which the rounds stop compares literals by their bits,
so a NaN that came from folding does not keep them going.
-/

set_option autoImplicit false

namespace Reckoner

namespace Expr

/-- The node is an operation on literals. -/
def isFoldable : Expr → Bool
  | neg (literal _) => true
  | binary _ (literal _) (literal _) => true
  | _ => false

/-- A folded minus sign cannot be folded again. -/
theorem isFoldable_foldedNeg (e : Expr) : e.foldedNeg.isFoldable = false := by
  cases e <;> rfl

/-- A folded operation cannot be folded again. -/
theorem isFoldable_foldedBinary (op : BinaryOp) (a b : Expr) :
    (foldedBinary op a b).isFoldable = false := by
  cases a <;> cases b <;> rfl

/-- A minus sign in front of no literal stays as it is. -/
theorem foldedNeg_of_not_isFoldable {e : Expr} (h : (neg e).isFoldable = false) :
    e.foldedNeg = neg e := by
  cases e with
  | literal v => contradiction
  | _ => rfl

/-- An operation that is not one on two literals stays as it is. -/
theorem foldedBinary_of_not_isFoldable {op : BinaryOp} {a b : Expr}
    (h : (binary op a b).isFoldable = false) : foldedBinary op a b = binary op a b := by
  obtain ⟨x, y, rfl, rfl, -⟩ | hfolded := foldedBinary_cases op a b
  · contradiction
  · exact hfolded

/-- The local rule for negations adds one node. -/
theorem mem_nodes_foldedNeg {e node : Expr} (h : node ∈ e.foldedNeg.nodes) :
    node = e.foldedNeg ∨ node ∈ e.nodes := by
  obtain ⟨x, -, hfolded⟩ | hfolded := foldedNeg_cases e
  · rw [hfolded] at h ⊢
    exact .inl (List.mem_singleton.mp h)
  · rw [hfolded] at h ⊢
    exact List.mem_cons.mp h

/-- The local rule for operations adds one node. -/
theorem mem_nodes_foldedBinary {op : BinaryOp} {a b node : Expr}
    (h : node ∈ (foldedBinary op a b).nodes) :
    node = foldedBinary op a b ∨ node ∈ a.nodes ∨ node ∈ b.nodes := by
  obtain ⟨x, y, -, -, hfolded⟩ | hfolded := foldedBinary_cases op a b
  · rw [hfolded] at h ⊢
    exact .inl (List.mem_singleton.mp h)
  · rw [hfolded] at h ⊢
    rwa [nodes, List.mem_cons, List.mem_append] at h

mutual

/-- After one pass no node of the tree can be folded, however deep it is. -/
theorem isFoldable_of_mem_nodes_fold :
    ∀ (e : Expr) {node : Expr}, node ∈ e.fold.nodes → node.isFoldable = false
  | literal v, node, h => List.mem_singleton.mp h ▸ rfl
  | var name, node, h => List.mem_singleton.mp h ▸ rfl
  | neg e, node, h => by
    rw [fold] at h
    obtain rfl | h := mem_nodes_foldedNeg h
    · exact isFoldable_foldedNeg _
    · exact isFoldable_of_mem_nodes_fold e h
  | binary op a b, node, h => by
    rw [fold] at h
    obtain rfl | h | h := mem_nodes_foldedBinary h
    · exact isFoldable_foldedBinary op _ _
    · exact isFoldable_of_mem_nodes_fold a h
    · exact isFoldable_of_mem_nodes_fold b h
  | call name args, node, h => by
    rw [fold, nodes] at h
    obtain rfl | h := List.mem_cons.mp h
    · rfl
    · exact isFoldable_of_mem_nodesList_foldList args h

/-- Folded arguments have no node that can be folded. -/
theorem isFoldable_of_mem_nodesList_foldList :
    ∀ (es : List Expr) {node : Expr}, node ∈ nodesList (foldList es) → node.isFoldable = false
  | [], node, h => by contradiction
  | e :: es, node, h => by
    rw [foldList, nodesList] at h
    obtain h | h := List.mem_append.mp h
    · exact isFoldable_of_mem_nodes_fold e h
    · exact isFoldable_of_mem_nodesList_foldList es h

end

mutual

/-- A tree with nothing to fold is kept. -/
theorem fold_of_not_isFoldable :
    ∀ e : Expr, (∀ node ∈ e.nodes, node.isFoldable = false) → e.fold = e
  | literal v, _ => rfl
  | var name, _ => rfl
  | neg e, h => by
    rw [nodes, List.forall_mem_cons] at h
    rw [fold, fold_of_not_isFoldable e h.2, foldedNeg_of_not_isFoldable h.1]
  | binary op a b, h => by
    rw [nodes, List.forall_mem_cons, List.forall_mem_append] at h
    rw [fold, fold_of_not_isFoldable a h.2.1, fold_of_not_isFoldable b h.2.2,
      foldedBinary_of_not_isFoldable h.1]
  | call name args, h => by
    rw [nodes, List.forall_mem_cons] at h
    rw [fold, foldList_of_not_isFoldable args h.2]

/-- Arguments without a node that can be folded stay as they are. -/
theorem foldList_of_not_isFoldable :
    ∀ es : List Expr, (∀ node ∈ nodesList es, node.isFoldable = false) → foldList es = es
  | [], _ => rfl
  | e :: es, h => by
    rw [nodesList, List.forall_mem_append] at h
    rw [foldList, fold_of_not_isFoldable e h.1, foldList_of_not_isFoldable es h.2]

end

/-- Folding keeps exactly the trees in which there is nothing to fold. -/
theorem folded_eq_self_iff {e : Expr} :
    e.folded = e ↔ ∀ node ∈ e.nodes, node.isFoldable = false := by
  rw [folded_eq_fold]
  constructor
  · intro h node hnode
    rw [← h] at hnode
    exact isFoldable_of_mem_nodes_fold e hnode
  · exact fold_of_not_isFoldable e

end Expr

/-- **Folding is done in one pass.** However many rounds are allowed, as long as it is one, they
give the tree of a single pass; in particular this is the folded tree, which a second pass does
not change. At no depth, also inside arguments, does the folded tree have a negation of a literal
or an operation on two literals, and the trees without such nodes are the ones that folding
keeps. A tree that is folded twice is identical to the tree that is folded once, by the
comparison that ends the rounds; and two trees are identical by it exactly if they match with
the same bits in the literals, which means that they are the same tree. -/
theorem folding_done_in_one_pass :
    (∀ (e : Expr) (n : Nat), Expr.foldRounds (n + 1) e = e.fold) ∧
    (∀ e : Expr, e.folded = e.fold ∧ e.fold.fold = e.fold) ∧
    (∀ e : Expr, (∀ v, .neg (.literal v) ∉ e.folded.nodes) ∧
      ∀ op v w, .binary op (.literal v) (.literal w) ∉ e.folded.nodes) ∧
    (∀ e : Expr, e.folded = e ↔ ∀ node ∈ e.nodes, node.isFoldable = false) ∧
    (∀ e : Expr, e.folded.folded.identical e.folded = true) ∧
    ∀ a b : Expr, (a.identical b = true ↔ a.Matches (fun x y => x.toBits = y.toBits) b) ∧
      (a.identical b = true ↔ a = b) := by
  refine ⟨?_, ?_, ?_, ?_, ?_, ?_⟩
  · intro e n
    exact Expr.foldRounds_succ n e
  · intro e
    exact ⟨e.folded_eq_fold, e.fold_fold⟩
  · intro e
    rw [e.folded_eq_fold]
    constructor
    · intro v hnode
      have hfoldable := e.isFoldable_of_mem_nodes_fold hnode
      contradiction
    · intro op v w hnode
      have hfoldable := e.isFoldable_of_mem_nodes_fold hnode
      contradiction
  · intro e
    exact Expr.folded_eq_self_iff
  · intro e
    rw [Expr.identical_iff, e.folded.folded_eq_fold, e.folded_eq_fold, e.fold_fold]
  · intro a b
    exact ⟨Expr.identical_iff_matches, Expr.identical_iff⟩

end Reckoner
