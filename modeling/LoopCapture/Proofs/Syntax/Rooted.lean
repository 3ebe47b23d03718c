import LoopCapture.Proofs.Syntax.Mention
import LoopCapture.Proofs.Syntax.Parents

/-!
# Trees below a root

What is reached from the root by going from nodes to their children is a tree: every node but the
root has one parent and one place there, and the links from children to parents tell of these nodes
and of no others.
-/

namespace LoopCapture.Syntax

namespace Tree

/-- A node that is the root or a child of such a node. -/
inductive Reaches (t : Tree) : NodeId → Prop where
  | root : Reaches t t.root
  | child {node child : NodeId} (above : Reaches t node) (mem : child ∈ t.children node) :
    Reaches t child

/-- The nodes that are reached form a tree, and the links lead from its nodes to their parents. -/
structure IsRooted (t : Tree) : Prop where
  root_lt : t.root < t.nodes.size
  /-- Whatever node is mentioned in a node has a smaller place. -/
  mention_lt : ∀ node shape other, t.nodes.shape? node = some shape → shape.Mentions other →
    other < node ∧ node < t.nodes.size
  /-- The children are all the nodes that are mentioned. -/
  mem_children_iff : ∀ node other,
    other ∈ t.children node ↔ ∃ shape, t.nodes.shape? node = some shape ∧ shape.Mentions other
  /-- A node that is reached has one place in one node that is reached, unless it is the root. -/
  one_place : ∀ child, t.Reaches child → child ≠ t.root →
    ∃ node, t.Reaches node ∧ (t.children node).count child = 1 ∧
      ∀ other, t.Reaches other → child ∈ t.children other → other = node
  parent_iff : ∀ child node,
    t.parent child = some node ↔ t.Reaches node ∧ child ∈ t.children node
  root_parent : t.parent t.root = none
  unreached_parent : ∀ node, ¬ t.Reaches node → t.parent node = none

end Tree

namespace NodeTable

variable {t : NodeTable} {held : List NodeId} {x y y' : NodeId}

theorem lt_size_of_mem_childrenOf (mem : x ∈ t.childrenOf y) : y < t.size := by
  by_contra outside
  simp [childrenOf, shape?, Array.getElem?_eq_none (Nat.not_lt.mp outside)] at mem

theorem count_childrenOf_le_links {n : Nat} (lt : y < n) (x : NodeId) :
    (t.childrenOf y).count x ≤ (t.links n).count x := by
  induction n with
  | zero => cases lt
  | succ n ih =>
    rw [links, List.count_append]
    obtain rfl | before := Nat.eq_or_lt_of_le (Nat.le_of_lt_succ lt)
    · exact Nat.le_add_left _ _
    · exact Nat.le_add_right_of_le (ih before)

theorem count_childrenOf_add_le_links {n : Nat} (lt : y < y') (lt' : y' < n) (x : NodeId) :
    (t.childrenOf y).count x + (t.childrenOf y').count x ≤ (t.links n).count x := by
  induction n with
  | zero => cases lt'
  | succ n ih =>
    rw [links, List.count_append]
    obtain rfl | before := Nat.eq_or_lt_of_le (Nat.le_of_lt_succ lt')
    · exact Nat.add_le_add_right (count_childrenOf_le_links lt x) _
    · exact Nat.le_add_right_of_le (ih before)

theorem Owned.links_count_le (h : Owned t held) (x : NodeId) :
    held.count x + (t.links t.size).count x ≤ 1 := by
  have bound := h.once x
  split at bound <;> omega

/-- A node has one parent at most. -/
theorem Owned.parent_unique (h : Owned t held) (mem : x ∈ t.childrenOf y)
    (mem' : x ∈ t.childrenOf y') : y = y' := by
  have bound := h.links_count_le x
  have pos := List.count_pos_iff.mpr mem
  have pos' := List.count_pos_iff.mpr mem'
  obtain lt | same | gt := Nat.lt_trichotomy y y'
  · have both := count_childrenOf_add_le_links (t := t) lt (lt_size_of_mem_childrenOf mem') x
    omega
  · exact same
  · have both := count_childrenOf_add_le_links (t := t) gt (lt_size_of_mem_childrenOf mem) x
    omega

/-- A child has one place in its parent. -/
theorem Owned.count_childrenOf (h : Owned t held) (mem : x ∈ t.childrenOf y) :
    (t.childrenOf y).count x = 1 := by
  have bound := h.links_count_le x
  have pos := List.count_pos_iff.mpr mem
  have few := count_childrenOf_le_links (t := t) (lt_size_of_mem_childrenOf mem) x
  omega

/-- What is held is nobody's child. -/
theorem Owned.notMem_childrenOf (h : Owned t held) (mem : x ∈ held) : x ∉ t.childrenOf y := by
  intro listed
  have bound := h.links_count_le x
  have pos := List.count_pos_iff.mpr mem
  have pos' := List.count_pos_iff.mpr listed
  have few := count_childrenOf_le_links (t := t) (lt_size_of_mem_childrenOf listed) x
  omega

end NodeTable

/-- Linking the children of a node links these and changes no other link. -/
theorem getElem?_foldl_link (node : NodeId) (children : List NodeId) (parents : Array Child)
    (x : NodeId) :
    (children.foldl (fun parents child => parents.setIfInBounds child (some node)) parents)[x]? =
      if x ∈ children ∧ x < parents.size then some (some node) else parents[x]? := by
  induction children generalizing parents with
  | nil => simp
  | cons child children ih =>
    rw [List.foldl_cons, ih, Array.getElem?_setIfInBounds, Array.size_setIfInBounds]
    grind

theorem size_foldl_link (node : NodeId) (children : List NodeId) (parents : Array Child) :
    (children.foldl (fun parents child => parents.setIfInBounds child (some node)) parents).size =
      parents.size := by
  induction children generalizing parents with
  | nil => rfl
  | cons child children ih => rw [List.foldl_cons, ih, Array.size_setIfInBounds]

namespace Tree

variable {t : NodeTable} {held : List NodeId} {root : NodeId}

theorem le_root_of_reaches (owned : t.Owned held) {node : NodeId}
    (h : (ofTable t root).Reaches node) : node ≤ root := by
  induction h with
  | root => exact Nat.le_refl _
  | child _ mem ih => exact Nat.le_trans (Nat.le_of_lt (owned.precede _ _ mem)) ih

/-- The links tell of the children of the reached nodes from a place on. -/
def LinkedFrom (t : NodeTable) (root n : NodeId) (parents : Array Child) : Prop :=
  parents.size = t.size ∧ ∀ x y, parents[x]? = some (some y) ↔
    n ≤ y ∧ (ofTable t root).Reaches y ∧ x ∈ t.childrenOf y

/-- Where the nodes behind a node are done, it is linked if it is reached: its parent is behind. -/
theorem LinkedFrom.isLinked_iff (owned : t.Owned held) {node : NodeId} {parents : Array Child}
    (h : LinkedFrom t root (node + 1) parents) :
    (node == root || (parents[node]?.getD none).isSome) = true ↔
      (ofTable t root).Reaches node := by
  rw [Bool.or_eq_true, beq_iff_eq]
  constructor
  · rintro (rfl | isSome)
    · exact .root
    · obtain ⟨above, is⟩ := Option.isSome_iff_exists.mp isSome
      have known : parents[node]? = some (some above) := by grind
      obtain ⟨-, reached, mem⟩ := (h.2 node above).mp known
      exact .child reached mem
  · intro reached
    cases reached with
    | root => exact .inl rfl
    | child above mem =>
      have known := (h.2 node _).mpr ⟨owned.precede _ _ mem, above, mem⟩
      exact .inr (by simp [known])

/-- Linking the children of the next node keeps the links right, as no child has two parents. -/
theorem LinkedFrom.link (owned : t.Owned held) {node : NodeId} {parents : Array Child}
    (h : LinkedFrom t root (node + 1) parents) (reached : (ofTable t root).Reaches node) :
    LinkedFrom t root node ((t.childrenOf node).foldl
      (fun parents child => parents.setIfInBounds child (some node)) parents) := by
  refine ⟨(size_foldl_link node _ parents).trans h.1, fun x y => ?_⟩
  rw [getElem?_foldl_link]
  by_cases mem : x ∈ t.childrenOf node
  · have inside : x < parents.size :=
      h.1 ▸ Nat.lt_trans (owned.precede _ _ mem) (NodeTable.lt_size_of_mem_childrenOf mem)
    rw [if_pos ⟨mem, inside⟩]
    constructor
    · intro same
      obtain rfl := Option.some.inj (Option.some.inj same)
      exact ⟨Nat.le_refl _, reached, mem⟩
    · rintro ⟨-, -, mem'⟩
      rw [owned.parent_unique mem mem']
  · rw [if_neg fun both => mem both.1, h.2 x y]
    have other : x ∈ t.childrenOf y → y ≠ node := fun mem' same => mem (same ▸ mem')
    grind

theorem LinkedFrom.skip {node : NodeId} {parents : Array Child}
    (h : LinkedFrom t root (node + 1) parents) (unreached : ¬ (ofTable t root).Reaches node) :
    LinkedFrom t root node parents := by
  refine ⟨h.1, fun x y => (h.2 x y).trans ?_⟩
  have other : (ofTable t root).Reaches y → y ≠ node := fun reached same =>
    unreached (same ▸ reached)
  grind

/-- One pass downwards links the children of all nodes that are reached. -/
theorem LinkedFrom.linkFrom (owned : t.Owned held) {n : Nat} {parents : Array Child}
    (h : LinkedFrom t root n parents) : LinkedFrom t root 0 (linkFrom t root n parents) := by
  induction n generalizing parents with
  | zero => exact h
  | succ node ih =>
    refine ih ?_
    have linked := h.isLinked_iff owned
    by_cases reached : (ofTable t root).Reaches node
    · rw [if_pos (linked.mpr reached)]
      exact h.link owned reached
    · rw [if_neg (mt linked.mp reached)]
      exact h.skip reached

theorem linkedFrom_replicate (owned : t.Owned held) :
    LinkedFrom t root (root + 1) (Array.replicate t.size none) := by
  refine ⟨Array.size_replicate, fun x y => iff_of_false (by grind) ?_⟩
  rintro ⟨behind, reached, -⟩
  exact Nat.not_lt.mpr (le_root_of_reaches owned reached) behind

theorem parent_eq_some_iff (owned : t.Owned held) (x y : NodeId) :
    (ofTable t root).parent x = some y ↔ (ofTable t root).Reaches y ∧ x ∈ t.childrenOf y := by
  have unlinked : LinkedFrom t root (root + 1) _ := linkedFrom_replicate owned
  have links := (unlinked.linkFrom owned).2 x y
  rw [← links.trans (and_iff_right (Nat.zero_le y))]
  exact Option.getD_eq_iff.trans (by simp [ofTable])

/-- A root that nobody holds as a child is the root of a tree. -/
theorem isRooted_ofTable (owned : t.Owned [root]) : (ofTable t root).IsRooted where
  root_lt := owned.lt_size List.mem_cons_self
  mention_lt node shape other is mentions := by
    have mem : other ∈ t.childrenOf node := by
      rw [NodeTable.childrenOf, show t.shape? node = some shape from is]
      exact (shape.mem_children_iff_mentions other).mpr mentions
    exact ⟨owned.precede node other mem, NodeTable.lt_size_of_mem_childrenOf mem⟩
  mem_children_iff node other := by
    change other ∈ (t.shape? node).elim [] Shape.children ↔
      ∃ shape, t.shape? node = some shape ∧ shape.Mentions other
    cases t.shape? node with
    | none => simp
    | some shape => simpa using shape.mem_children_iff_mentions other
  one_place child reached notRoot := by
    cases reached with
    | root => exact absurd rfl notRoot
    | child above mem =>
      exact ⟨_, above, owned.count_childrenOf mem, fun _ _ mem' => owned.parent_unique mem' mem⟩
  parent_iff child node := parent_eq_some_iff owned child node
  root_parent := by
    rw [Option.eq_none_iff_forall_ne_some]
    intro above parent
    have mem := ((parent_eq_some_iff owned _ above).mp parent).2
    exact owned.notMem_childrenOf List.mem_cons_self mem
  unreached_parent node unreached := by
    rw [Option.eq_none_iff_forall_ne_some]
    intro above parent
    obtain ⟨reached, mem⟩ := (parent_eq_some_iff owned node above).mp parent
    exact unreached (.child reached mem)

end Tree
end LoopCapture.Syntax
