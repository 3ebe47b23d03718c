import LoopCapture.Proofs.Grammar.Handover.Statements
import LoopCapture.Proofs.Grammar.Spelling.Statements
import LoopCapture.Proofs.Scope.Meaning
import LoopCapture.Proofs.Scope.Order

/-!
# Names are those of the text

What a use of a variable is called is written where the use starts. The walk records uses for the
identifiers that it enters, and it enters no import, so the names that are written as strings are
not among them.
-/

namespace LoopCapture
open Syntax (Node NodeId NodeTable Tree)
open Scope (Environment Graph Reference)
open Text (byteSize slice?)

namespace Scope

variable {t : Tree}

/-- What is recorded for a tree is recorded for identifiers that are entered from its root. -/
theorem isOf_root_of_mem_references {size : Nat} (nested : t.IsNested size) (ordered : t.IsOrdered)
    {environment : Environment} {r : Reference}
    (mem : r ∈ (Graph.ofTree t environment).references) : r.IsOf t t.root := by
  obtain ⟨id, made⟩ := Array.mem_iff_getElem?.mp mem
  obtain ⟨old, was, rfl⟩ := Graph.made_resolveAll (sound_walkTree t environment) made
  obtain ⟨uses, recorded, traces⟩ :=
    visits_walkTree nested ordered environment { graph := .empty t }
  have listed : old ∈ uses := by
    have all := Array.mem_toList_iff.mpr (Array.mem_of_getElem? was)
    rwa [recorded] at all
  obtain ⟨node, isRoot, isOf⟩ := traces.exists_isOf listed
  obtain rfl := List.mem_singleton.mp isRoot
  exact ⟨isOf.inside, isOf.shape, isOf.start⟩

theorem not_isStringLocal_of_entered {held : List NodeId} (owned : t.nodes.Owned held)
    {x y : NodeId} (entered : t.Entered x y) : ¬ t.nodes.IsStringLocal x := by
  rintro ⟨specifier, imported, typeOnly, value, n, s, is, -⟩
  have mem : x ∈ t.nodes.childrenOf specifier := by
    simp [NodeTable.childrenOf, is, Syntax.Shape.children, Syntax.Shape.slots]
  obtain ⟨parent, walked, -⟩ := Relation.TransGen.head'_iff.mp entered
  obtain rfl := owned.parent_unique mem (Tree.mem_children_of_mem_walked walked)
  simp [Tree.walked, is, Syntax.Shape.walked] at walked

end Scope

namespace Capture

/-- The names of a program are written where its nodes and its uses of variables stand. -/
structure Program.IsSpelled (text : List Char) (p : Program) : Prop where
  /-- The identifiers span their names, but for the local names of imports that are strings. -/
  identifiers : ∀ (id : NodeId) (n : Node) (name : String), p.tree.nodes[id]? = some n →
    n.shape = .identifier name → ¬ p.tree.nodes.IsStringLocal id →
    slice? n.start n.stop text = some name.toList
  /-- A use has the name that is written where it starts, and that is what its identifier spans. -/
  references : ∀ r ∈ p.graph.references, ∃ n : Node, p.tree.nodes[r.identifier]? = some n ∧
    n.shape = .identifier r.name ∧ n.span = ⟨r.start, r.start + byteSize r.name.toList⟩ ∧
    slice? r.start (r.start + byteSize r.name.toList) text = some r.name.toList

theorem exists_shape_root (text : List Char) : ∃ statements,
    (Grammar.parseText text).tree.nodes.shape? (Grammar.parseText text).tree.root =
      some (.sourceFile statements) :=
  ⟨_, congrArg (Option.map _) Array.getElem?_push_size⟩

/-- Whatever text and whatever surroundings, names are those of the text. -/
theorem isSpelled_ofText (text : List Char) (environment : Environment) :
    (Program.ofText text environment).IsSpelled text := by
  have spelled := Grammar.isSpelled_parseText text
  have identifiers (id : NodeId) (n : Node) (name : String)
      (found : (Grammar.parseText text).tree.nodes[id]? = some n) (is : n.shape = .identifier name)
      (other : ¬ (Grammar.parseText text).tree.nodes.IsStringLocal id) : n.Spells text name :=
    (spelled.identifiers id n name found is).resolve_right other
  refine ⟨identifiers, fun r mem => ?_⟩
  have isOf := Scope.isOf_root_of_mem_references (Grammar.isNested_parseText text)
    (Grammar.isOrdered_parseText text) mem
  obtain ⟨n, found, is⟩ := Option.map_eq_some_iff.mp isOf.shape
  have entered : (Grammar.parseText text).tree.Entered r.identifier
      (Grammar.parseText text).tree.root := by
    refine isOf.inside.resolve_left fun isRoot => ?_
    obtain ⟨statements, root⟩ := exists_shape_root text
    have shape := isOf.shape
    rw [isRoot, root] at shape
    cases shape
  have spells := identifiers r.identifier n r.name found is
    (Scope.not_isStringLocal_of_entered (Grammar.owned_parseText text) entered)
  have start : n.start = r.start := by simpa [Tree.startOf, found] using isOf.start
  rw [Node.Spells, start] at spells
  have stop : n.stop = r.start + byteSize r.name.toList := Text.stop_of_slice? spells
  exact ⟨n, found, is, by rw [Node.span, start, stop], stop ▸ spells⟩

end Capture
end LoopCapture
