import LoopCapture.Syntax.Tree
import Mathlib.Data.List.Basic

/-!
# Nodes and who holds them

While a table is built, some of its nodes are held by whoever builds it and wait for a parent. A
node is held at most once or stored as a child in one place at most, and never both. All children
precede their parents.
-/

namespace LoopCapture.Syntax
open Text (Offset)

/-- The nodes of the one list are in the other, at least as often. -/
def Within (few many : List NodeId) : Prop := ∀ id, few.count id ≤ many.count id

namespace Within

variable {few many more : List NodeId}

theorem refl (few : List NodeId) : Within few few := fun _ => Nat.le_refl _

theorem trans (h : Within few many) (h' : Within many more) : Within few more :=
  fun id => Nat.le_trans (h id) (h' id)

theorem append_left (rest : List NodeId) (h : Within few many) :
    Within (rest ++ few) (rest ++ many) := by
  intro id
  rw [List.count_append, List.count_append]
  exact Nat.add_le_add_left (h id) _

theorem append_right (h : Within few many) (rest : List NodeId) :
    Within (few ++ rest) (many ++ rest) := by
  intro id
  rw [List.count_append, List.count_append]
  exact Nat.add_le_add_right (h id) _

theorem left {rest : List NodeId} (h : Within (few ++ rest) many) : Within few many := by
  intro id
  have all := h id
  rw [List.count_append] at all
  exact Nat.le_of_add_right_le all

theorem right {rest : List NodeId} (h : Within (few ++ rest) many) : Within rest many := by
  intro id
  have all := h id
  rw [List.count_append] at all
  exact Nat.le_of_add_left_le all

theorem mem (h : Within few many) {id : NodeId} (mem : id ∈ few) : id ∈ many :=
  List.count_pos_iff.mp (Nat.lt_of_lt_of_le (List.count_pos_iff.mpr mem) (h id))

end Within

namespace NodeTable

def childrenOf (t : NodeTable) (id : NodeId) : List NodeId := (t.shape? id).elim [] Shape.children

/-- The children of the nodes before a place, one after the other. -/
def links (t : NodeTable) : Nat → List NodeId
  | 0 => []
  | n + 1 => links t n ++ t.childrenOf n

/-- The later table has all nodes of the earlier one, and none of them has gained a child. -/
structure Keeps (before after : NodeTable) : Prop where
  size_le : before.size ≤ after.size
  childrenOf_within : ∀ id < before.size, Within (after.childrenOf id) (before.childrenOf id)

/-- Children precede parents, and a node that is held is no child, nor is a child one of two
places. -/
structure Owned (t : NodeTable) (held : List NodeId) : Prop where
  precede : ∀ id, ∀ child ∈ t.childrenOf id, child < id
  once : ∀ id, held.count id + (t.links t.size).count id ≤ if id < t.size then 1 else 0

variable {t t' : NodeTable} {held : List NodeId}

theorem links_within {n : Nat} (h : ∀ id < n, Within (t'.childrenOf id) (t.childrenOf id)) :
    Within (t'.links n) (t.links n) := by
  induction n with
  | zero => exact .refl []
  | succ n ih =>
    have before := ih fun id lt => h id (Nat.lt_succ_of_lt lt)
    exact (before.append_right _).trans (.append_left _ (h n (Nat.lt_succ_self n)))

theorem Keeps.refl (t : NodeTable) : Keeps t t := ⟨Nat.le_refl _, fun _ _ => .refl _⟩

theorem Keeps.trans {t'' : NodeTable} (h : Keeps t t') (h' : Keeps t' t'') : Keeps t t'' where
  size_le := Nat.le_trans h.size_le h'.size_le
  childrenOf_within id lt :=
    (h'.childrenOf_within id (Nat.lt_of_lt_of_le lt h.size_le)).trans (h.childrenOf_within id lt)

theorem owned_empty : Owned #[] [] where
  precede := by simp [childrenOf, shape?]
  once := by simp [links]

theorem Owned.lt_size (h : Owned t held) {id : NodeId} (mem : id ∈ held) : id < t.size := by
  have bound := h.once id
  have pos := List.count_pos_iff.mpr mem
  split at bound
  · assumption
  · omega

/-- What is held may be dropped. -/
theorem Owned.drop (h : Owned t held) {fewer : List NodeId} (within : Within fewer held) :
    Owned t fewer where
  precede := h.precede
  once id := Nat.le_trans (Nat.add_le_add_right (within id) _) (h.once id)

/-- A table of the same size whose nodes have no more children. -/
theorem Owned.keep (h : Owned t held) (size : t'.size = t.size) (keeps : Keeps t t') :
    Owned t' held where
  precede id child mem := by
    by_cases lt : id < t.size
    · exact h.precede id child ((keeps.childrenOf_within id lt).mem mem)
    · have absent : t'.childrenOf id = [] := by
        simp [childrenOf, shape?, Array.getElem?_eq_none (size ▸ Nat.not_lt.mp lt)]
      simp [absent] at mem
  once id := by
    rw [size]
    have fewer := links_within keeps.childrenOf_within id
    exact Nat.le_trans (Nat.add_le_add_left fewer _) (h.once id)

theorem childrenOf_push (t : NodeTable) (node : Node) (id : NodeId) :
    childrenOf (t.push node) id = if id = t.size then node.shape.children else t.childrenOf id := by
  simp only [childrenOf, shape?, Array.getElem?_push]
  split <;> rfl

theorem keeps_push (t : NodeTable) (node : Node) : Keeps t (t.push node) where
  size_le := by simp
  childrenOf_within id lt := by
    rw [childrenOf_push, if_neg (Nat.ne_of_lt lt)]
    exact .refl _

/-- A new node takes its children from what is held and is held itself. -/
theorem Owned.push (h : Owned t held) {node : Node} {rest : List NodeId}
    (within : Within (node.shape.children ++ rest) held) :
    Owned (t.push node) (t.size :: rest) where
  precede id child mem := by
    rw [childrenOf_push] at mem
    split at mem
    · rename_i new
      rw [new]
      exact h.lt_size (within.mem (List.mem_append_left _ mem))
    · exact h.precede id child mem
  once id := by
    have bound := h.once id
    have spent := within id
    have old := links_within (keeps_push t node).childrenOf_within id
    rw [List.count_append] at spent
    rw [Array.size_push, links, childrenOf_push, if_pos rfl, List.count_append]
    by_cases new : id = t.size
    · subst new
      rw [if_neg (Nat.lt_irrefl _)] at bound
      rw [List.count_cons_self, if_pos (Nat.lt_succ_self _)]
      omega
    · rw [List.count_cons_of_ne (Ne.symm new)]
      split at bound
      · rw [if_pos (Nat.lt_succ_of_lt ‹_›)]
        omega
      · omega

theorem childrenOf_reshape (t : NodeTable) (node : NodeId) (shape : Shape) (id : NodeId) :
    (t.reshape node shape).childrenOf id =
      if node = id ∧ id < t.size then shape.children else t.childrenOf id := by
  simp only [childrenOf, shape?, reshape, Array.getElem?_modify]
  grind

/-- Giving a node a shape without children takes no node from anyone. -/
theorem keeps_reshape (t : NodeTable) (node : NodeId) {shape : Shape} (leaf : shape.slots = []) :
    Keeps t (t.reshape node shape) where
  size_le := by simp [reshape]
  childrenOf_within id lt := by
    rw [childrenOf_reshape]
    split
    · simp [Shape.children, leaf, Within]
    · exact .refl _

theorem children_asPattern (shape : Shape) : shape.asPattern.1.children = shape.children := by
  unfold Shape.asPattern
  split <;> rfl

/-- What holds of a table and is kept when one node is turned is kept when a literal is. -/
theorem asPattern_induction {P : NodeTable → Prop} (step : ∀ t node shape, P t →
      t.shape? node = some shape → P (t.reshape node shape.asPattern.1)) (h : P t) (node : NodeId) :
    P (t.asPattern node) := by
  induction node using Nat.strongRecOn generalizing t with
  | ind node ih =>
    rw [asPattern]
    split
    · exact h
    · rename_i shape is
      have first := step t node shape h is
      simp only
      generalize t.reshape node shape.asPattern.1 = after at first
      induction shape.asPattern.2 generalizing after with
      | nil => exact first
      | cons target rest later =>
        rw [List.foldl_cons]
        refine later _ ?_
        split
        · exact ih target ‹_› first
        · exact first

/-- Turning literals into patterns makes no node and moves no child. -/
theorem asPattern_same (node : NodeId) (t : NodeTable) :
    (t.asPattern node).size = t.size ∧
      ∀ id, (t.asPattern node).childrenOf id = t.childrenOf id := by
  refine asPattern_induction
    (P := fun s => s.size = t.size ∧ ∀ id, s.childrenOf id = t.childrenOf id)
    (fun s node shape h is => ⟨?_, fun id => ?_⟩) ⟨rfl, fun _ => rfl⟩ node
  · rw [← h.1]
    simp [reshape]
  · rw [← h.2, childrenOf_reshape, children_asPattern]
    split
    · rename_i here
      simp [childrenOf, ← here.1, is]
    · rfl

theorem keeps_asPattern (t : NodeTable) (node : NodeId) : Keeps t (t.asPattern node) where
  size_le := Nat.le_of_eq (asPattern_same node t).1.symm
  childrenOf_within id _ := (asPattern_same node t).2 id ▸ .refl _

/-- The nodes of the earlier table, as they are in the later one. -/
theorem keeps_shrink (h : Keeps t t') : Keeps t (t'.shrink t.size) where
  size_le := by simp [h.size_le]
  childrenOf_within id lt := by
    have late : id < t'.size := Nat.lt_of_lt_of_le lt h.size_le
    have same : (t'.shrink t.size)[id]? = t'[id]? := by
      grind [Array.shrink_eq_take]
    rw [childrenOf, shape?, same]
    exact h.childrenOf_within id lt

end NodeTable
end LoopCapture.Syntax
