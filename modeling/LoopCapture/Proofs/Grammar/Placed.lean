import LoopCapture.Proofs.Grammar.Building.Statements
import LoopCapture.Proofs.Grammar.Handover.Statements

/-!
# Where the nodes of a parsed text stand

Whatever the text, valid or not: the looks ahead and the attempts that fail leave no trace, and the
nodes stand in the text, one inside the other. Where there is no error, no node but perhaps the root
is without extent.
-/

namespace LoopCapture.Syntax

/-- The first node is a child of the second one, by its link to a parent or by a list of
children. -/
def Tree.IsLink (t : Tree) (child parent : NodeId) : Prop :=
  t.parent child = some parent ∨ child ∈ t.children parent

/-- The nodes of a tree stand in a text of the given size, and whatever takes up room stands inside
its parent. -/
structure Tree.IsNested (t : Tree) (size : Nat) : Prop where
  bounded : ∀ n ∈ t.nodes, n.start ≤ n.stop ∧ n.stop ≤ size
  nests : ∀ child parent, t.IsLink child parent → ∃ c n : Node,
    t.nodes[child]? = some c ∧ t.nodes[parent]? = some n ∧
      n.start ≤ c.start ∧ (c.start < c.stop → c.stop ≤ n.stop)

/-- Every node but perhaps the root takes up room, and all stand inside their parents. -/
structure Tree.IsFilled (t : Tree) : Prop where
  proper : ∀ id ≠ t.root, ∀ n : Node, t.nodes[id]? = some n → n.start < n.stop
  inside : ∀ child parent, t.IsLink child parent → ∃ c n : Node,
    t.nodes[child]? = some c ∧ t.nodes[parent]? = some n ∧ n.start ≤ c.start ∧ c.stop ≤ n.stop

/-- Names take up room, children that are in a row stand one after the other, and a loop starts
before its parts. -/
structure Tree.IsOrdered (t : Tree) : Prop where
  named : ∀ node name, t.nameText? (some node) = some name →
    ∃ n : Node, t.nodes[node]? = some n ∧ n.start < n.stop
  rows : ∀ node shape, t.nodes.shape? node = some shape → t.nodes.InRow shape.row
  loops : ∀ n ∈ t.nodes, t.nodes.OpensLoop n

end LoopCapture.Syntax

namespace LoopCapture.Grammar
open Text (byteSize)
open Token (Scanner)
open Syntax (Node NodeId NodeTable Shape Tree)
open Parse

/-- Where the nodes of a parsed text stand, valid or not, and what else holds when it is valid. -/
structure ParsedText.IsPlaced (p : ParsedText) (size : Nat) : Prop where
  nested : p.tree.IsNested size
  filled : p.errors = [] → p.tree.IsFilled

/-- From the first token on there is a token to stand on. -/
theorem sound_advance_ofText (text : List Char) :
    (State.ofText text).advance.layout.Sound text 0 where
  size_eq := rfl
  stands := (Scanner.standsIn_scan (.refl _)).1
  lastEnd_le := (Scanner.standsIn_scan (.refl _)).2
  precedes := by simp [State.ofText, State.advance, State.layout]
  nests := by simp [State.ofText, State.advance, State.layout]
  proper := .inr (by simp [State.ofText, State.advance, State.layout])
  named := by simp [State.ofText, State.advance, State.layout]
  rows := by simp [State.ofText, State.advance, State.layout]
  loops := by simp [State.ofText, State.advance, State.layout]
  base_le := Nat.zero_le _
  closed _ _ _ _ := Nat.zero_le _

theorem outcome_topLevelStatements (text : List Char) :
    Outcome text 0 (State.ofText text).advance
      (topLevelStatements (parseWithin (byteSize text))) fun statements =>
        [.placed 0 (carried statements)] :=
  Yields.builds 0 (sound_advance_ofText text) trivial (Nat.zero_le _) (by simp)

theorem transacts_sourceFile (text : List Char) : sourceFile.Transacts (.ofText text) :=
  ⟨trivial, trivial, (outcome_topLevelStatements text).transacts, trivial⟩

/-- While a text is parsed, every look ahead and every attempt that fails is undone. -/
theorem speculatesCleanly_sourceFile (text : List Char) :
    sourceFile.SpeculatesCleanly (.ofText text) :=
  (transacts_sourceFile text).speculatesCleanly

def sourceNode (text : List Char) (statements : List NodeId) : Node :=
  ⟨0, byteSize text, .sourceFile statements⟩

variable {text : List Char} {base : Nat} {l : Layout}

theorem Layout.Sound.bounded (h : l.Sound text base) {n : Node} (mem : n ∈ l.nodes) :
    n.start ≤ n.stop ∧ n.stop ≤ byteSize text := by
  have before := h.precedes n mem
  have here : l.here ≤ byteSize text := h.stands.start_le
  refine ⟨before.start_le_stop, ?_⟩
  by_cases extent : n.start < n.stop
  · exact Nat.le_trans (before.stop_le extent) (Nat.le_trans h.lastEnd_le here)
  · exact Nat.le_trans (Nat.not_lt.mp extent) (Nat.le_trans before.start_le here)

/-- With a root around some of the nodes, whatever takes up room still stands inside its parent. -/
theorem Layout.Sound.nests_root (h : l.Sound text 0) {statements : List NodeId}
    (placed : l.PlacesAll 0 0 (carried statements)) {child parent : NodeId}
    (mem : child ∈ NodeTable.childrenOf (l.addNode (sourceNode text statements)).nodes parent) :
    ∃ c n : Node, (l.addNode (sourceNode text statements)).nodes[child]? = some c ∧
      (l.addNode (sourceNode text statements)).nodes[parent]? = some n ∧ n.Nests c := by
  have leads := Layout.leads_addNode h.base_le (sourceNode text statements)
  rw [Layout.addNode, NodeTable.childrenOf_push] at mem
  split at mem
  · rename_i isRoot
    have listed : child ∈ carried statements := by simpa [sourceNode] using mem
    obtain ⟨-, c, found, -⟩ := placed child listed
    have nests : (sourceNode text statements).Nests c :=
      ⟨Nat.zero_le _, fun _ => (h.bounded (Array.mem_of_getElem? found)).2⟩
    obtain ⟨c', found', nests'⟩ := leads.nests ⟨c, found, nests⟩
    exact ⟨c', _, found', by simp [Layout.addNode, isRoot], nests'⟩
  · rename_i notRoot
    cases found : l.nodes[parent]? with
    | none => simp [NodeTable.childrenOf, NodeTable.shape?, found] at mem
    | some n =>
      have listed : child ∈ n.shape.children := by
        simpa only [NodeTable.childrenOf, NodeTable.shape?, found, Option.map_some,
          Option.elim_some] using mem
      obtain ⟨c, found', nests⟩ :=
        leads.nests (h.nests n (Array.mem_of_getElem? found) child listed)
      refine ⟨c, n, found', ?_, nests⟩
      rw [Layout.addNode, Array.getElem?_push, if_neg notRoot, found]

theorem eq_nil_of_onePerStart {l : List Diagnostic.SyntaxError} (h : onePerStart l = []) :
    l = [] := by
  cases l with
  | nil => rfl
  | cons e es =>
    rw [onePerStart] at h
    exact absurd h (List.cons_ne_nil _ _)

/-- Every error that was met is told, or one that starts where it does. -/
theorem not_isFaulty_of_syntaxErrors {s : State} (valid : s.syntaxErrors = []) :
    ¬ s.layout.IsFaulty := by
  have all : s.errors.toList ++ s.scanner.errors.toList = [] := by
    refine List.length_eq_zero_iff.mp ?_
    rw [← List.length_mergeSort, eq_nil_of_onePerStart valid, List.length_nil]
  obtain ⟨errors, tokenErrors⟩ := List.append_eq_nil_iff.mp all
  rintro (some | some)
  · exact some (Array.toList_eq_nil_iff.mp errors)
  · exact some (Array.toList_eq_nil_iff.mp tokenErrors)

/-- What a parsed text is made of: the statements, a root around them, and the errors. -/
theorem exists_layout_parseText (text : List Char) : ∃ (l : Layout) (statements : List NodeId),
    l.Sound text 0 ∧ l.PlacesAll 0 0 (carried statements) ∧ l.nodes.InRow (carried statements) ∧
      (parseText text).tree.nodes = (l.addNode (sourceNode text statements)).nodes ∧
      (parseText text).tree.root = l.nodes.size ∧
      ((parseText text).errors = [] → ¬ l.IsFaulty) := by
  have outcome := outcome_topLevelStatements text
  have placed := outcome.holds _ List.mem_cons_self
  refine ⟨_, _, outcome.sound, placed.1, placed.2, rfl, rfl, ?_⟩
  exact fun valid => not_isFaulty_of_syntaxErrors valid

/-- Children, by either kind of link, are children in the table. -/
theorem mem_childrenOf_of_isLink {child parent : NodeId}
    (link : (parseText text).tree.IsLink child parent) :
    child ∈ (parseText text).tree.nodes.childrenOf parent :=
  link.elim Tree.mem_childrenOf_of_parent id

/-- Whatever the text, its nodes stand in it and what takes up room stands inside its parent. -/
theorem isNested_parseText (text : List Char) :
    (parseText text).tree.IsNested (byteSize text) := by
  obtain ⟨l, statements, sound, placed, -, nodes, -⟩ := exists_layout_parseText text
  refine ⟨fun n mem => ?_, fun child parent link => ?_⟩
  · rw [nodes] at mem
    rcases Array.mem_push.mp mem with old | rfl
    · exact sound.bounded old
    · exact ⟨Nat.zero_le _, Nat.le_refl _⟩
  · have mem := mem_childrenOf_of_isLink link
    rw [nodes] at mem ⊢
    exact sound.nests_root placed mem

/-- Whatever the text, its nodes stand in it and what takes up room stands inside its parent. If
there is no error, all nodes but perhaps the root take up room, so that all stand inside their
parents. -/
theorem isPlaced_parseText (text : List Char) : (parseText text).IsPlaced (byteSize text) := by
  obtain ⟨l, statements, sound, -, -, nodes, isRoot, valid⟩ := exists_layout_parseText text
  have nested := isNested_parseText text
  refine ⟨nested, fun none => ?_⟩
  have proper : ∀ id ≠ (parseText text).tree.root, ∀ n : Node,
      (parseText text).tree.nodes[id]? = some n → n.start < n.stop := by
    intro id other n found
    rw [nodes, Layout.addNode, Array.getElem?_push, if_neg (isRoot ▸ other)] at found
    exact sound.proper.resolve_left (valid none) n (Array.mem_of_getElem? found)
  refine ⟨proper, fun child parent link => ?_⟩
  obtain ⟨c, n, found, found', start, stop⟩ := nested.nests child parent link
  have below : child ≠ (parseText text).tree.root := by
    have lt := (owned_parseText text).precede parent child (mem_childrenOf_of_isLink link)
    have bound := (Array.getElem?_eq_some_iff.mp found').1
    rw [nodes, Layout.addNode, Array.size_push] at bound
    rw [isRoot]
    exact Nat.ne_of_lt (Nat.lt_of_lt_of_le lt (Nat.le_of_lt_succ bound))
  exact ⟨c, n, found, found', start, stop (proper child below c found)⟩

/-- Whatever the text, names take up room, children that are in a row stand one after the other, and
loops start before their parts. -/
theorem isOrdered_parseText (text : List Char) : (parseText text).tree.IsOrdered := by
  obtain ⟨l, statements, sound, -, row, nodes, -⟩ := exists_layout_parseText text
  have leads := Layout.leads_addNode sound.base_le (sourceNode text statements)
  have older {node : NodeId} {n : Node} (found : (parseText text).tree.nodes[node]? = some n)
      (other : n ≠ sourceNode text statements) : n ∈ l.nodes := by
    have mem := Array.mem_of_getElem? found
    rw [nodes] at mem
    exact (Array.mem_push.mp mem).resolve_right other
  refine ⟨fun node name is => ?_, fun node shape is => ?_, fun n mem => ?_⟩
  · obtain ⟨shape, has, named⟩ := Option.bind_eq_some_iff.mp is
    obtain ⟨n, found, rfl⟩ := Option.map_eq_some_iff.mp has
    refine ⟨n, found, sound.named n (older found ?_) (by simp [named])⟩
    rintro rfl
    cases named
  · obtain ⟨n, found, rfl⟩ := Option.map_eq_some_iff.mp is
    rw [nodes]
    refine leads.inRow ?_
    by_cases isRoot : n = sourceNode text statements
    · simpa [isRoot, sourceNode, Shape.row, Shape.walked] using row
    · exact sound.rows n (older found isRoot)
  · rw [nodes] at mem ⊢
    rcases Array.mem_push.mp mem with old | rfl
    · exact leads.opensLoop (sound.loops n old)
    · exact fun isLoop => absurd isLoop Bool.false_ne_true

end LoopCapture.Grammar
