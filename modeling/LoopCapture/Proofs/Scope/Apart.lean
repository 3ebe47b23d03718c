import LoopCapture.Proofs.Scope.Traces
import LoopCapture.Proofs.Syntax.Rooted

/-!
# Nodes with nothing in common

In a tree two children of a node have nothing below them in common. Neither have the parts into
which a pattern is taken apart: whenever a part is opened, what comes out of it takes its place.
-/

namespace LoopCapture
open Syntax (Child NodeId Shape Tree)

namespace Syntax.Tree

/-- No node is below both. -/
def Apart (t : Tree) (a b : NodeId) : Prop := ∀ x, t.Below x a → ¬ t.Below x b

variable {t : Tree} {a b x node : NodeId} {nodes inner rest : List NodeId}

theorem Apart.symm (h : t.Apart a b) : t.Apart b a := fun x below below' => h x below' below

/-- What is below nodes that are apart is apart. -/
theorem Apart.below {a' b' : NodeId} (h : t.Apart a b) (below : t.Below a' a)
    (below' : t.Below b' b) : t.Apart a' b' :=
  fun x inside inside' => h x (inside.trans below) (inside'.trans below')

/-- Opening one of several nodes that are apart leaves nodes that are apart. -/
theorem pairwise_apart_open (h : (nodes ++ node :: rest).Pairwise t.Apart)
    (apart : inner.Pairwise t.Apart) (inside : ∀ x ∈ inner, t.Below x node) :
    (nodes ++ (inner ++ rest)).Pairwise t.Apart := by
  rw [List.pairwise_append, List.pairwise_cons] at h
  obtain ⟨before, ⟨here, after⟩, across⟩ := h
  refine List.pairwise_append.mpr ⟨before, List.pairwise_append.mpr ⟨apart, after, ?_⟩, ?_⟩
  · exact fun x mem y mem' => (here y mem').below (inside x mem) (.refl y)
  · intro x mem y mem'
    obtain opened | later := List.mem_append.mp mem'
    · exact (across x mem node List.mem_cons_self).below (.refl x) (inside y opened)
    · exact across x mem y (List.mem_cons_of_mem _ later)

theorem pairwise_apart_open_head (h : (node :: rest).Pairwise t.Apart)
    (apart : inner.Pairwise t.Apart) (inside : ∀ x ∈ inner, t.Below x node) :
    (inner ++ rest).Pairwise t.Apart :=
  @pairwise_apart_open t node [] inner rest h apart inside

theorem walked_sublist_children (t : Tree) (node : NodeId) :
    (t.walked node).Sublist (t.children node) := by
  unfold walked children
  cases t.nodes.shape? node with
  | none => exact .refl _
  | some shape =>
    exact shape.walked_sublist_children

section Owned

variable {held : List NodeId} (owned : t.nodes.Owned held)

include owned

/-- Of two nodes above one node, one is below the other. -/
theorem Below.total (below : t.Below x a) (below' : t.Below x b) : t.Below a b ∨ t.Below b a :=
  Relation.ReflTransGen.total_of_right_unique
    (fun _ _ _ mem mem' => owned.parent_unique mem mem') below below'

theorem apart_of_siblings (mem : a ∈ t.children node) (mem' : b ∈ t.children node) (other : a ≠ b) :
    t.Apart a b := by
  -- a child that was below its sibling would have its parent there
  have aside {a b : NodeId} (mem : a ∈ t.children node) (mem' : b ∈ t.children node)
      (other : a ≠ b) : ¬ t.Below a b := by
    intro below
    obtain ⟨parent, child, above⟩ :=
      Relation.TransGen.head'_iff.mp (below.eq_or_under.resolve_left other)
    obtain rfl := owned.parent_unique child mem
    exact Nat.not_le_of_lt (owned.precede _ b mem') (Below.le owned.precede above)
  intro x below below'
  obtain inside | inside := Below.total owned below below'
  · exact aside mem mem' other inside
  · exact aside mem' mem other.symm inside

theorem pairwise_apart_walked (node : NodeId) : (t.walked node).Pairwise t.Apart := by
  refine List.Pairwise.sublist (t.walked_sublist_children node) ?_
  have distinct : (t.children node).Nodup := List.nodup_iff_count_le_one.mpr fun x => by
    by_cases mem : x ∈ t.children node
    · exact Nat.le_of_eq (owned.count_childrenOf mem)
    · exact Nat.le_trans (Nat.le_of_eq (List.count_eq_zero.mpr mem)) (Nat.zero_le 1)
  exact distinct.imp_of_mem fun mem mem' other => apart_of_siblings owned mem mem' other

end Owned
end Syntax.Tree

namespace Scope.PatternParts
open Syntax.Tree (pairwise_apart_open pairwise_apart_walked)

variable {t : Tree} {parts : PatternParts} {rest : List NodeId} {node : NodeId}

/-- The parts so far and what is still to be taken apart have nothing in common. -/
def Leaves (t : Tree) (parts : PatternParts) (rest : List NodeId) : Prop :=
  (parts.row ++ rest).Pairwise t.Apart

theorem Leaves.perm (h : parts.Leaves t rest) {parts' : PatternParts} {rest' : List NodeId}
    (same : (parts.row ++ rest).Perm (parts'.row ++ rest')) : parts'.Leaves t rest' :=
  (same.pairwise_iff Syntax.Tree.Apart.symm).mp h

theorem Leaves.drop {fewer : List NodeId} (h : parts.Leaves t rest) (sublist : fewer.Sublist rest) :
    parts.Leaves t fewer :=
  List.Pairwise.sublist (sublist.append_left _) h

theorem Leaves.push {defaults : Nat} (h : parts.Leaves t (node :: rest)) :
    Leaves t { parts with targets := parts.targets.push ⟨node, defaults⟩ } rest := by
  have moved : (parts.types.toList ++ parts.evaluated.toList ++ node :: rest).Perm
      (node :: (parts.types.toList ++ parts.evaluated.toList ++ rest)) := List.perm_middle
  refine h.perm ?_
  simp only [row, Array.toList_push, List.map_append, List.map_cons, List.map_nil,
    List.append_assoc]
  exact List.Perm.append_left _ (by simpa using moved)

theorem Leaves.evaluate {child : Child} (h : parts.Leaves t (child.toList ++ rest)) :
    (parts.evaluate child).Leaves t rest := by
  refine h.perm (.of_eq ?_)
  simp [row, PatternParts.evaluate]

theorem Leaves.annotate {child : Child} (h : parts.Leaves t (child.toList ++ rest)) :
    (parts.annotate child).Leaves t rest := by
  refine h.perm ?_
  simp only [row, PatternParts.annotate, Array.toList_append, Option.toList_toArray,
    List.append_assoc]
  refine List.Perm.append_left _ (List.Perm.append_left _ ?_)
  rw [← List.append_assoc, ← List.append_assoc]
  exact List.Perm.append_right _ List.perm_append_comm

theorem Leaves.foldl {α : Type} {l : List α} (place : α → List NodeId)
    {add : PatternParts → α → PatternParts}
    (step : ∀ parts rest, ∀ x ∈ l, Leaves t parts (place x ++ rest) → Leaves t (add parts x) rest)
    (h : parts.Leaves t (l.flatMap place ++ rest)) : (l.foldl add parts).Leaves t rest := by
  induction l generalizing parts with
  | nil => exact h
  | cons x l ih =>
    refine ih (fun parts rest y mem => step parts rest y (List.mem_cons_of_mem x mem)) ?_
    exact step parts _ x List.mem_cons_self (by simpa [Leaves] using h)

section Owned

variable {held : List NodeId} (owned : t.nodes.Owned held)

include owned

/-- A node gives way to children of it. -/
theorem Leaves.opened {inner : List NodeId} (h : parts.Leaves t (node :: rest))
    (fewer : inner.Sublist (t.walked node)) : parts.Leaves t (inner ++ rest) := by
  refine pairwise_apart_open h ((pairwise_apart_walked owned node).sublist fewer) fun x mem => ?_
  exact (Tree.Under.child (Tree.mem_children_of_mem_walked (fewer.subset mem))).below

theorem Leaves.openedShape {shape : Shape} {inner : List NodeId}
    (h : parts.Leaves t (node :: rest)) (is : t.nodes.shape? node = some shape)
    (fewer : inner.Sublist shape.walked := by simp [Shape.walked, Shape.children, Shape.slots]) :
    parts.Leaves t (inner ++ rest) :=
  h.opened owned (by simpa [Tree.walked, is] using fewer)

theorem Leaves.addFrom (h : parts.Leaves t (node :: rest)) (defaults : Nat) :
    (addFrom t parts node defaults).Leaves t rest := by
  induction node using Nat.strongRecOn generalizing parts rest defaults with
  | ind node ih =>
    have into {parts : PatternParts} {rest : List NodeId} {part : NodeId} (defaults : Nat)
        (h : parts.Leaves t (part :: rest)) :
        Leaves t (if part < node then PatternParts.addFrom t parts part defaults else parts)
          rest := by
      split
      · exact ih part ‹_› h defaults
      · exact h.drop (List.sublist_cons_self _ _)
    rw [PatternParts.addFrom]
    split
    case h_1 => exact h.drop (List.sublist_cons_self _ _)
    case h_2 name is => exact h.push
    case h_3 properties is =>
      refine foldl (fun x => [x]) (fun parts rest property mem h => ?_) ?_
      · split
        · rename_i p prop
          have keyed : Leaves t (if p.computed then parts.evaluate p.key else parts)
              (p.value.toList ++ rest) := by
            split
            · rename_i computed
              have opened : parts.Leaves t (p.key.toList ++ p.value.toList ++ rest) :=
                h.openedShape owned prop (by simp [Shape.walked, computed])
              rw [List.append_assoc] at opened
              exact opened.evaluate
            · exact h.openedShape owned prop (by simp_all [Shape.walked])
          cases value : p.value with
          | none => simpa [value] using keyed
          | some part => exact into _ (by simpa [value] using keyed)
        · exact into _ h
      · simpa using h.openedShape owned is
    case h_4 elements is =>
      refine foldl Option.toList (fun parts rest element mem h => ?_) ?_
      · cases element with
        | none => exact h
        | some part => exact into _ h
      · refine h.openedShape owned is ?_
        simp [Shape.walked, Shape.children, Shape.slots, List.filterMap_eq_flatMap_toList]
    case h_5 left right is =>
      have opened : parts.Leaves t (left.toList ++ right.toList ++ rest) := h.openedShape owned is
      rw [List.append_assoc] at opened
      refine evaluate ?_
      cases left with
      | none => exact opened
      | some part => exact into _ opened
    case h_6 argument is | h_8 argument is =>
      have opened : parts.Leaves t (argument.toList ++ rest) := h.openedShape owned is
      cases argument with
      | none => exact opened
      | some part => exact into _ opened
    case h_7 pattern _ annotated is | h_9 pattern annotated is =>
      have opened : parts.Leaves t (pattern.toList ++ annotated.toList ++ rest) :=
        h.openedShape owned is
      rw [List.append_assoc] at opened
      refine annotate ?_
      cases pattern with
      | none => exact opened
      | some part => exact into _ opened
    case h_10 => exact h.drop (List.sublist_cons_self _ _)
    case h_11 =>
      have itself : parts.Leaves t ((some node).toList ++ rest) := h
      exact itself.evaluate

theorem pairwise_apart_row (pattern : Child) : (ofNode t pattern).row.Pairwise t.Apart := by
  cases pattern with
  | none => simp [ofNode, row]
  | some node =>
    have alone : Leaves t {} [node] := List.pairwise_singleton _ _
    simpa [Leaves, ofNode] using alone.addFrom owned 0

end Owned
end Scope.PatternParts
end LoopCapture
