import LoopCapture.Proofs.Syntax.Owned

/-!
# Parents

A tree links every child to a node that lists it. Where children precede their parents, going from
parent to parent comes to an end: every node has a whole chain of ancestors, of which a walk with a
count sees the first ones.
-/

namespace LoopCapture.Syntax

theorem linked_children {node : NodeId} {children : List NodeId} {parents : Array Child}
    {x y : NodeId}
    (linked : (children.foldl (fun parents child => parents.setIfInBounds child (some node))
      parents)[x]? = some (some y)) :
    parents[x]? = some (some y) ∨ y = node ∧ x ∈ children := by
  induction children generalizing parents with
  | nil => exact .inl linked
  | cons child children ih =>
    obtain before | ⟨same, mem⟩ := ih linked
    · rw [Array.getElem?_setIfInBounds] at before
      split at before
      · rename_i here
        split at before
        · obtain rfl := Option.some.inj (Option.some.inj before)
          exact .inr ⟨rfl, here ▸ List.mem_cons_self⟩
        · cases before
      · exact .inl before
    · exact .inr ⟨same, List.mem_cons_of_mem child mem⟩

theorem linked_linkFrom {t : NodeTable} {root : NodeId} {n : Nat} {parents : Array Child}
    {x y : NodeId} (linked : (linkFrom t root n parents)[x]? = some (some y)) :
    parents[x]? = some (some y) ∨ x ∈ t.childrenOf y := by
  induction n generalizing parents with
  | zero => exact .inl linked
  | succ node ih =>
    obtain before | listed := ih linked
    · obtain known | ⟨rfl, mem⟩ := linked_children before
      · exact .inl known
      · split at mem
        · exact .inr mem
        · cases mem
    · exact .inr listed

namespace Tree

variable {t : NodeTable} {held : List NodeId} {root x y : NodeId}

/-- The parent of a node lists it. -/
theorem mem_childrenOf_of_parent (parent : (ofTable t root).parent x = some y) :
    x ∈ t.childrenOf y := by
  have linked : (linkFrom t root (root + 1) (Array.replicate t.size none))[x]? = some (some y) := by
    unfold Tree.parent at parent
    cases known : (ofTable t root).parents[x]? with
    | none => simp [known] at parent
    | some p => exact known.trans (by simpa [known] using parent)
  obtain before | listed := linked_linkFrom linked
  · grind
  · exact listed

theorem lt_of_parent (owned : t.Owned held) (parent : (ofTable t root).parent x = some y) :
    x < y :=
  owned.precede y x (mem_childrenOf_of_parent parent)

theorem parent_lt_size (parent : (ofTable t root).parent x = some y) : y < t.size := by
  have listed := mem_childrenOf_of_parent parent
  rw [NodeTable.childrenOf, NodeTable.shape?] at listed
  by_cases lt : y < t.size
  · exact lt
  · simp [Array.getElem?_eq_none (Nat.not_lt.mp lt)] at listed

/-- The links from a node on, up to the node that has no parent. -/
inductive IsLineage (t : Tree) : Child → List NodeId → Prop where
  | ended : IsLineage t none []
  | link {node : NodeId} {rest : List NodeId} (up : IsLineage t (t.parent node) rest) :
    IsLineage t (some node) (node :: rest)

theorem exists_isLineage (owned : t.Owned held) (node : Child) :
    ∃ chain, (ofTable t root).IsLineage node chain := by
  suffices ∀ n node, t.size ≤ node + n → ∃ chain, (ofTable t root).IsLineage (some node) chain by
    cases node with
    | none => exact ⟨[], .ended⟩
    | some node => exact this t.size node (Nat.le_add_left ..)
  intro n
  induction n with
  | zero =>
    intro node outside
    cases up : (ofTable t root).parent node with
    | none => exact ⟨[node], .link (up ▸ .ended)⟩
    | some outer =>
      have inside := Nat.lt_trans (lt_of_parent owned up) (parent_lt_size up)
      exact absurd outside (Nat.not_le.mpr inside)
  | succ n ih =>
    intro node bound
    cases up : (ofTable t root).parent node with
    | none => exact ⟨[node], .link (up ▸ .ended)⟩
    | some outer =>
      have later := lt_of_parent owned up
      obtain ⟨chain, lineage⟩ := ih outer (by grind)
      exact ⟨node :: chain, .link (up ▸ lineage)⟩

/-- A walk with a count sees as much of the chain as the count allows. -/
theorem IsLineage.ancestorsUpTo_eq_take {t : Tree} {node : Child} {chain : List NodeId}
    (lineage : t.IsLineage node chain) (n : Nat) : t.ancestorsUpTo n node = chain.take n := by
  induction lineage generalizing n with
  | ended => cases n <;> simp [ancestorsUpTo]
  | link _ ih =>
    cases n with
    | zero => simp [ancestorsUpTo]
    | succ n => simp [ancestorsUpTo, ih]

theorem IsLineage.ancestors_eq_take {t : Tree} {node : NodeId} {chain : List NodeId}
    (lineage : t.IsLineage (t.parent node) chain) :
    t.ancestors (some node) = chain.take parentWalkLimit :=
  lineage.ancestorsUpTo_eq_take parentWalkLimit

end Tree
end LoopCapture.Syntax
