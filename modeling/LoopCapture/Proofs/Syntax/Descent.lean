import LoopCapture.Proofs.Syntax.Owned
import Mathlib.Logic.Relation

/-!
# What is below a node

The nodes below a node are reached from it by going from nodes to their children.
-/

namespace LoopCapture.Syntax

/-! The slots of a node without the missing ones, slot by slot. -/

@[simp] theorem filterMap_cons_child (child : Child) (l : List Child) :
    ((child :: l).filterMap fun x => x) = child.toList ++ l.filterMap fun x => x := by
  cases child <;> simp

@[simp] theorem filterMap_map_some (l : List NodeId) :
    ((l.map some).filterMap fun x => x) = l := by
  simp [List.filterMap_map]

namespace Tree

def Under (t : Tree) : NodeId → NodeId → Prop := Relation.TransGen fun x y => x ∈ t.children y

/-- The one node is the other or under it. -/
def Below (t : Tree) : NodeId → NodeId → Prop := Relation.ReflTransGen fun x y => x ∈ t.children y

def ChildrenPrecede (t : Tree) : Prop := ∀ node, ∀ child ∈ t.children node, child < node

variable {t : Tree} {x y z : NodeId}

theorem Below.refl (x : NodeId) : t.Below x x := Relation.ReflTransGen.refl

theorem Under.child (mem : x ∈ t.children y) : t.Under x y := Relation.TransGen.single mem

theorem Under.below (h : t.Under x y) : t.Below x y := h.to_reflTransGen

theorem Below.trans (h : t.Below x y) (h' : t.Below y z) : t.Below x z :=
  Relation.ReflTransGen.trans h h'

theorem Under.trans (h : t.Under x y) (h' : t.Under y z) : t.Under x z :=
  Relation.TransGen.trans h h'

theorem Below.under (h : t.Below x y) (h' : t.Under y z) : t.Under x z :=
  Relation.TransGen.trans_right h h'

theorem Below.eq_or_under (h : t.Below x y) : x = y ∨ t.Under x y :=
  Relation.reflTransGen_iff_eq_or_transGen.mp h |>.imp_left Eq.symm

theorem Under.lt (precede : t.ChildrenPrecede) (h : t.Under x y) : x < y := by
  induction h with
  | single mem => exact precede _ _ mem
  | tail _ mem ih => exact Nat.lt_trans ih (precede _ _ mem)

theorem Below.le (precede : t.ChildrenPrecede) (h : t.Below x y) : x ≤ y := by
  obtain rfl | under := h.eq_or_under
  · exact Nat.le_refl _
  · exact Nat.le_of_lt (under.lt precede)

theorem mem_children_of_slot {node : NodeId} {shape : Shape} (is : t.nodes.shape? node = some shape)
    {child : NodeId} (slot : some child ∈ shape.slots) : child ∈ t.children node := by
  simp only [children, is, Option.elim_some, Shape.children, List.mem_filterMap]
  exact ⟨some child, slot, rfl⟩

theorem Under.slot {node : NodeId} {shape : Shape} (is : t.nodes.shape? node = some shape)
    {child : NodeId} (slot : some child ∈ shape.slots) : t.Under child node :=
  .child (mem_children_of_slot is slot)

theorem isFunction_iff {node : NodeId} :
    t.isFunction (some node) = true ↔ ∃ f, t.nodes.shape? node = some (.function f) := by
  simp only [isFunction, shape?, Option.bind_some, Option.any_eq_true]
  constructor
  · rintro ⟨shape, is, isFunction⟩
    cases shape <;> simp_all [Shape.isFunction]
  · rintro ⟨f, is⟩
    exact ⟨_, is, rfl⟩

end Tree
end LoopCapture.Syntax
