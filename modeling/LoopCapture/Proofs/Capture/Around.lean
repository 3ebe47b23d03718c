import LoopCapture.Proofs.Capture.Change
import LoopCapture.Proofs.Capture.Loop
import LoopCapture.Proofs.Scope.Enclosure

/-!
# The scope around a use

Going up from an identifier to the first node that has a scope leads to the scope that the use was
made from. It does not where the identifier stands in the discriminant of a `switch` and no node
between them has a scope: the scope of the `switch` belongs to the whole statement, but its
discriminant is walked before that scope is opened.
-/

namespace LoopCapture
open Syntax (Child NodeId NodeTable Tree)

namespace Syntax.Tree

variable {t : NodeTable} {held : List NodeId} {root x y : NodeId}

theorem Reaches.of_below {t : Tree} {x y : NodeId} (reached : t.Reaches y) (below : t.Below x y) :
    t.Reaches x := by
  induction below using Relation.ReflTransGen.head_induction_on with
  | refl => exact reached
  | head mem _ ih => exact .child ih mem

/-- Where some node around a node has a value, the search upwards finds the value of a node on the
way to it. -/
theorem exists_nearest {α : Type} (owned : t.Owned held) (value : NodeId → Option α)
    (reached : (ofTable t root).Reaches y) (below : (ofTable t root).Below x y)
    (has : (value y).isSome = true) {chain : List NodeId}
    (lineage : (ofTable t root).IsLineage ((ofTable t root).parent x) chain) :
    ∃ z a, (x :: chain).findSome? value = some a ∧ value z = some a ∧
      (ofTable t root).Below x z ∧ (ofTable t root).Below z y := by
  induction below using Relation.ReflTransGen.head_induction_on generalizing chain with
  | refl =>
    obtain ⟨a, is⟩ := Option.isSome_iff_exists.mp has
    exact ⟨y, a, by simp [is], is, .refl y, .refl y⟩
  | @head x p mem above ih =>
    cases is : value x with
    | some a => exact ⟨x, a, by simp [is], is, .refl x, .head mem above⟩
    | none =>
      have parent : (ofTable t root).parent x = some p :=
        (parent_eq_some_iff owned x p).mpr ⟨reached.of_below above, mem⟩
      rw [parent] at lineage
      cases lineage with
      | link up =>
        obtain ⟨z, a, found, here, belowZ, inside⟩ := ih up
        exact ⟨z, a, by simpa [is] using found, here, .head mem belowZ, inside⟩

end Syntax.Tree

namespace Scope
open Syntax.Tree (exists_nearest)

namespace Graph

theorem enclosingScope?_eq_findSome? (g : Graph) (t : Tree) (node : NodeId) :
    g.enclosingScope? t (some node) =
      (node :: t.ancestors (some node)).findSome? fun a => g.nodeScope? (some a) := by
  rw [enclosingScope?, List.findSome?_cons]
  cases g.nodeScope? (some node) <;> rfl

/-- The scope that is found from a use upwards is that of the use, unless the use stands beside it
in the discriminant of a `switch`. Then it lies directly inside of the scope of the use. -/
def FindsScope (g : Graph) (t : Tree) (r : Reference) : Prop :=
  ∃ s, g.enclosingScope? t (some r.identifier) = some s ∧
    (¬ g.IsBeside t s r.identifier → s = r.scope) ∧
    (g.IsBeside t s r.identifier → g.parentOf s = some r.scope)

end Graph

/-- A graph to which all was added below the root leads from each use to its scope. The first node
upwards that has a scope is not above the node that opened the scope of the use, so what holds the
use there is this very scope or lies beside the use. -/
theorem Recording.Extends.findsScope {nodes : NodeTable} {root : NodeId}
    (owned : nodes.Owned [root]) {r : Recording} {new : List Reference}
    (h : Recording.Extends (.ofTable nodes root) { graph := .empty (.ofTable nodes root) } r new
      [root] [root])
    (housed : r.Housed) (lawful : r.graph.Lawful (.ofTable nodes root))
    (size : r.graph.nodeScopes.size = nodes.size) {id : ReferenceId} {use : Reference}
    (made : r.graph.references[id]? = some use) {chain : List NodeId}
    (lineage : (Tree.ofTable nodes root).IsLineage ((Tree.ofTable nodes root).parent use.identifier)
      chain) (whole : chain.length ≤ Syntax.parentWalkLimit) :
    r.graph.FindsScope (.ofTable nodes root) use := by
  have sound := housed.sound.graph
  have precede : (Tree.ofTable nodes root).ChildrenPrecede := owned.precede
  have mem : use ∈ new := by
    have listed := Array.mem_toList_iff.mpr (Array.mem_of_getElem? made)
    rwa [h.recorded] at listed
  -- the node that opened the scope of the use is around the identifier
  obtain ⟨f, known⟩ := Graph.exists_frame? (sound.referenced id use made).1
  obtain ⟨x, isRoot, below⟩ := h.opened use.scope f (Nat.zero_le _) known
  rw [List.mem_singleton.mp isRoot] at below
  have lt : f.block < nodes.size :=
    Nat.lt_of_le_of_lt (below.le precede) (owned.lt_size List.mem_cons_self)
  obtain ⟨last, isLast, le⟩ := housed.last use.scope f known (size ▸ lt)
  obtain ⟨z, s, found, is, here, within⟩ := exists_nearest owned
    (fun node => r.graph.nodeScope? (some node)) (.of_below .root below)
    (lawful.made id use made f known).1 (by simp [isLast]) lineage
  refine ⟨s, ?_, ?_⟩
  · rw [Graph.enclosingScope?_eq_findSome?, lineage.ancestors_eq_take, List.take_of_length_le whole]
    exact found
  obtain ⟨f', opened, rfl⟩ := housed.opened z s is
  obtain inner | ⟨d, isSwitch, beside, outer⟩ := h.held use mem f'.block s (Nat.zero_le _) is here
  · have same : f.block = f'.block := Nat.le_antisymm
      ((Graph.below_of_isBelow sound lawful inner known opened).le precede) (within.le precede)
    rw [same, is] at isLast
    obtain rfl := Option.some.inj isLast
    have eq : s = use.scope := Nat.le_antisymm (inner.le sound.parent_lt) le
    exact ⟨fun _ => eq, fun beside => absurd (eq ▸ beside) (h.inside use mem (Nat.zero_le _))⟩
  · refine ⟨fun other => absurd ⟨d, isSwitch, beside⟩ other, fun _ => outer.resolve_right ?_⟩
    rintro ⟨f'', known', inD⟩
    obtain rfl := Option.some.inj (known.symm.trans known')
    obtain ⟨f'', cases, opened', -, shape⟩ := isSwitch
    obtain rfl := Option.some.inj (opened.symm.trans opened')
    have child : (Tree.ofTable nodes root).Under d f'.block :=
      .slot shape (by simp [Syntax.Shape.slots])
    exact absurd (child.lt precede)
      (Nat.not_lt.mpr (Nat.le_trans (within.le precede) (inD.le precede)))

namespace Graph

/-- Resolution changes nothing of the scope that is found. -/
theorem FindsScope.resolveAll {g : Graph} {t : Tree} {r : Reference} (h : g.FindsScope t r) :
    (g.resolveAll t).FindsScope t r := by
  obtain ⟨s, found, other, beside⟩ := h
  have same (x : NodeId) : (g.resolveAll t).IsBeside t s x ↔ g.IsBeside t s x :=
    isBeside_congr (frame?_resolveAll g t s)
  refine ⟨s, ?_, by rwa [same], by rwa [same, parentOf_resolveAll]⟩
  simpa only [enclosingScope?, nodeScope?_resolveAll] using found

end Graph
end Scope

namespace Capture
open Scope (Environment)

namespace Program

/-- Where the links upwards from the identifier of a use are no more than the walk upwards follows,
it finds the scope of the use, or the scope of a `switch` with the identifier in its discriminant.
-/
def FindsScopes (p : Program) : Prop :=
  ∀ (id : Scope.ReferenceId) (r : Scope.Reference), p.graph.references[id]? = some r →
    ∃ chain, p.tree.IsLineage (p.tree.parent r.identifier) chain ∧
      (chain.length ≤ Syntax.parentWalkLimit → p.graph.FindsScope p.tree r)

/-- Whatever text and whatever surroundings, the scope around a use is found from its identifier,
but for those in the discriminants of `switch` statements. -/
theorem findsScopes_ofText (text : List Char) (environment : Environment) :
    (ofText text environment).FindsScopes := by
  intro id r made
  have owned := Grammar.owned_parseText text
  obtain ⟨chain, lineage⟩ := exists_isLineage_ofText text environment r.identifier
  refine ⟨chain, lineage, fun whole => ?_⟩
  obtain ⟨old, was, rfl⟩ := Scope.Graph.made_resolveAll (Scope.sound_walkTree _ _) made
  obtain ⟨new, adds⟩ := Scope.extends_walkTree owned environment
  have found := adds.findsScope owned
    ((Scope.walkTree _ environment).housed_run (Scope.Recording.housed_empty _))
    (Scope.lawful_walkTree (childrenPrecede_parseText text) (Grammar.root_lt_parseText text)
      environment) ((Scope.Record.size_nodeScopes_run _ _).trans (by simp [Scope.Graph.empty])) was
      lineage whole
  exact found.resolveAll

end Program
end Capture
end LoopCapture
