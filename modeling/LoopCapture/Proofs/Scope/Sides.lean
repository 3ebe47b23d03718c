import LoopCapture.Proofs.Scope.Homes

/-!
# Before the body and in the body

What opens a scope inside that of a function is in one part of the function: in its body, or in a
part that ends before the body starts. So all references made in the inner scope or below it stand
on the same side of the place where the body starts.
-/

namespace LoopCapture
open Text (Offset)
open Syntax (Function Node NodeId NodeTable Shape Tree)

namespace Syntax

theorem Node.Nests.trans {n middle inner : Node} (h : n.Nests middle) (h' : middle.Nests inner) :
    n.Nests inner := by
  refine ⟨Nat.le_trans h.1 h'.1, fun extent => ?_⟩
  have le := h'.2 extent
  exact Nat.le_trans le (h.2 (Nat.lt_of_le_of_lt h'.1 (Nat.lt_of_lt_of_le extent le)))

/-- What is below a node stands inside it. -/
theorem Tree.IsNested.nests_of_below {t : Tree} {size : Nat} (nested : t.IsNested size)
    {x y : NodeId} (below : t.Below x y) {c : Node} (found : t.nodes[x]? = some c) :
    ∃ n : Node, t.nodes[y]? = some n ∧ n.Nests c := by
  induction below with
  | refl => exact ⟨c, found, Nat.le_refl _, fun _ => Nat.le_refl _⟩
  | tail _ child ih =>
    obtain ⟨middle, found, inner⟩ := ih
    obtain ⟨c', n, found', there, nests⟩ := nested.nests _ _ (.inr child)
    obtain rfl := Option.some.inj (found.symm.trans found')
    exact ⟨n, there, Node.Nests.trans nests inner⟩

theorem Shape.row_function (f : Function) :
    (Shape.function f).row = f.head ++ f.body.toList := by
  cases body : f.body <;>
    simp [Shape.row, Shape.walked, Shape.children, Shape.slots, Function.head, body]

/-- A name in what stands before the body of a function starts before the body does. -/
theorem Tree.IsNested.startOf_lt_body {t : Tree} {size : Nat} (nested : t.IsNested size)
    (ordered : t.IsOrdered) {node part body x : NodeId} {f : Function}
    (is : t.nodes.shape? node = some (.function f))
    (hasBody : f.body = some body) (mem : part ∈ f.head) (below : t.Below x part) {name : String}
    (named : t.nameText? (some x) = some name) : t.startOf x < t.startOf body := by
  obtain ⟨c, found, extent⟩ := ordered.named x name named
  obtain ⟨n, there, nests⟩ := nested.nests_of_below below found
  have row := ordered.rows node _ is
  rw [Shape.row_function, hasBody, NodeTable.inRow_append] at row
  obtain ⟨n', m, there', isBody, ends⟩ := row.2.2 part mem body (List.mem_singleton_self body)
  obtain rfl := Option.some.inj (there.symm.trans there')
  have le := nests.2 extent
  have extent' : n.start < n.stop := Nat.lt_of_le_of_lt nests.1 (Nat.lt_of_lt_of_le extent le)
  simpa [Tree.startOf, found, isBody] using Nat.lt_of_lt_of_le extent
    (Nat.le_trans le (ends extent'))

end Syntax

namespace Scope.Graph

variable {g : Graph} {t : Tree}

variable (sound : g.Sound) (lawful : g.Lawful t)

include sound lawful

/-- What opens a scope is below what opens the scopes around it. -/
theorem below_of_isBelow {inner outer : ScopeId} (below : g.IsBelow inner outer) {f f' : Frame}
    (found : g.frame? inner = some f) (found' : g.frame? outer = some f') :
    t.Below f.block f'.block := by
  obtain ⟨k, reached⟩ := below
  induction k generalizing inner f with
  | zero =>
    obtain rfl := Option.some.inj reached
    obtain rfl := Option.some.inj (found.symm.trans found')
    exact .refl _
  | succ k ih =>
    obtain ⟨p, parent, rest⟩ := Option.bind_eq_some_iff.mp reached
    have above : f.parent = some p := by simpa [parentOf_eq_bind_frame?, found] using parent
    have lt := Nat.lt_trans (sound.parent_lt inner p parent) (lt_size_of_frame? found)
    obtain ⟨f'', outside⟩ := exists_frame? lt
    exact (lawful.nested inner f p found above f'' outside).1.trans (ih outside rest)

/-- A reference made in a scope or below it is below what opens the scope. -/
theorem below_of_made {id : ReferenceId} {r : Reference} (made : g.references[id]? = some r)
    {s : ScopeId} (below : g.IsBelow r.scope s) {f : Frame} (found : g.frame? s = some f) :
    t.Below r.identifier f.block := by
  obtain ⟨f', found'⟩ := exists_frame? (sound.referenced id r made).1
  exact (lawful.made id r made f' found').1.trans
    (below_of_isBelow sound lawful below found' found)

variable {size : Nat} (nested : t.IsNested size) (ordered : t.IsOrdered)

include nested ordered

/-- All references made below a scope right inside that of a function stand in the body of the
function, or all stand before it. -/
theorem same_side {outer child : ScopeId} {start : Offset}
    (body : g.bodyStart? t outer = some start) (parent : g.parentOf child = some outer) :
    (∀ (id : ReferenceId) (r : Reference), g.references[id]? = some r →
      g.IsBelow r.scope child → start ≤ r.start) ∨
    ∀ (id : ReferenceId) (r : Reference), g.references[id]? = some r →
      g.IsBelow r.scope child → r.start < start := by
  rw [bodyStart?_eq_bind_frame?] at body
  obtain ⟨f, found, isFunction⟩ := Option.bind_eq_some_iff.mp body
  split at isFunction
  swap
  · cases isFunction
  rename_i kind
  obtain ⟨root, has, spans⟩ := Option.bind_eq_some_iff.mp isFunction
  obtain ⟨function, is, bodyIs⟩ := Option.bind_eq_some_iff.mp has
  have shape : t.nodes.shape? f.block = some (.function function) :=
    Tree.function?_eq_some_iff.mp is
  obtain ⟨f', found'⟩ : ∃ f', g.frame? child = some f' := by
    rw [parentOf_eq_bind_frame?] at parent
    exact (Option.bind_eq_some_iff.mp parent).imp fun _ => And.left
  -- the scope is opened in some part of the function
  have above : f'.parent = some outer := by simpa [parentOf_eq_bind_frame?, found'] using parent
  obtain ⟨below, other⟩ := lawful.nested child f' outer found' above f found
  have under : t.Under f'.block f.block := (below.eq_or_under).resolve_left (other kind)
  obtain ⟨part, inner, isPart⟩ := Relation.TransGen.tail'_iff.mp under
  by_cases inBody : part = root
  · subst inBody
    refine .inl fun id r made below => ?_
    obtain ⟨named, starts⟩ := lawful.spelled id r made
    obtain ⟨c, there, -⟩ := ordered.named _ _ named
    have chain := (below_of_made sound lawful made below found').trans inner
    obtain ⟨n, there', nests⟩ := nested.nests_of_below chain there
    obtain rfl : n.start = start := by simpa [Tree.span?, there', Node.span] using spans
    have same : c.start = r.start := by simpa [Tree.startOf, there] using starts
    exact same ▸ nests.1
  · have inHead : part ∈ function.head := by
      simp only [Tree.children, shape, Option.elim_some, Shape.children, Shape.slots, bodyIs]
        at isPart
      simpa [Function.head, inBody, eq_comm (b := root)] using isPart
    refine .inr fun id r made below => ?_
    obtain ⟨named, starts⟩ := lawful.spelled id r made
    have before := nested.startOf_lt_body ordered shape bodyIs inHead
      ((below_of_made sound lawful made below found').trans inner) named
    obtain ⟨m, isRoot, rfl⟩ := Option.map_eq_some_iff.mp spans
    obtain ⟨n, there, rfl⟩ := Option.map_eq_some_iff.mp isRoot
    rw [← starts]
    simpa [Tree.startOf, there, Node.span] using before

/-- A scope that accepts one of two references alike, made in a scope inside it or below that,
accepts the other one. -/
theorem isSome_accepts?_of_inner {outer inner : ScopeId} (below : g.IsBelow inner outer)
    (other : inner ≠ outer) {id id' : ReferenceId} {r r' : Reference}
    (made : g.references[id]? = some r) (made' : g.references[id']? = some r')
    (under : g.IsBelow r.scope inner) (under' : g.IsBelow r'.scope inner) (name : r'.name = r.name)
    (isType : r'.usage.isType = r.usage.isType) :
    (g.accepts? t outer r').isSome = (g.accepts? t outer r).isSome := by
  suffices alike : serves t (g.bodyStart? t outer) r' = serves t (g.bodyStart? t outer) r by
    rw [isSome_accepts?, isSome_accepts?, name, alike]
  refine funext fun definitions => serves_congr isType (fun start body => ?_) definitions
  obtain ⟨child, parent, way⟩ := exists_child_of_isBelow below other
  obtain after | before := same_side sound lawful nested ordered body parent
  · exact iff_of_false (Nat.not_lt.mpr (after id' r' made' (under'.trans way)))
      (Nat.not_lt.mpr (after id r made (under.trans way)))
  · exact iff_of_true (before id' r' made' (under'.trans way)) (before id r made (under.trans way))

end Scope.Graph
end LoopCapture
