import LoopCapture.Capture.Program
import LoopCapture.Proofs.Scope.Resolution

/-!
# The law of resolution

A reference means the binding of the first scope outwards that accepts it. It passes through the
scopes on the way there and through no others, and where none accepts it, through all that are
visited. The lists of a scope and of a binding are in the order in which the references were made.
-/

namespace LoopCapture
open Syntax (Tree)
namespace Scope.Graph

variable {g : Graph} {t : Tree}

structure Linked (g : Graph) (t : Tree) : Prop where
  parent_lt : g.ParentsPrecede
  declared : ∀ s name b, g.declared? s name = some b →
    ∃ binding, g.bindings[b]? = some binding ∧ binding.scope = s
  made : ∀ (id : ReferenceId) (r : Reference), g.references[id]? = some r →
    r.scope < g.scopes.size ∧ r.resolved = g.meaning? t r
  through_eq : ∀ s, g.through s = (List.range g.references.size).filter (g.passes t s)
  referencesOf_eq : ∀ b, g.referencesOf b = (List.range g.references.size).filter (g.means t b)

/-- Resolution gives every reference the meaning that the graph told before and still tells. -/
theorem made_resolveAll (sound : g.Sound) {id : ReferenceId} {r : Reference}
    (made : (g.resolveAll t).references[id]? = some r) :
    ∃ old, g.references[id]? = some old ∧ r = { old with resolved := g.meaning? t old } := by
  rw [resolveAll, ← resolveFirst, references_resolveFirst t sound (Nat.le_refl _)] at made
  obtain ⟨old, was, is⟩ := Option.map_eq_some_iff.mp made
  rw [if_pos (Array.getElem?_eq_some_iff.mp was).1] at is
  exact ⟨old, was, is.symm⟩

/-- What a graph tells of the way of a reference, it tells after resolution as well. -/
theorem any_references_resolveAll (sound : g.Sound) (id : ReferenceId) {test : Reference → Bool}
    (blind : ∀ r b, test { r with resolved := b } = test r) :
    (g.resolveAll t).references[id]?.any test = g.references[id]?.any test := by
  rw [resolveAll, ← resolveFirst, references_resolveFirst t sound (Nat.le_refl _)]
  cases was : g.references[id]? with
  | none => rfl
  | some old => simp [(Array.getElem?_eq_some_iff.mp was).1, blind]

theorem linked_resolveAll (sound : g.Sound) : (g.resolveAll t).Linked t := by
  have same : (g.resolveAll t).bare = g.bare := bare_resolveFirst t g.references.size
  have count : (g.resolveAll t).references.size = g.references.size := by
    simpa [bare] using congrArg (·.references.size) same
  have passes (s : ScopeId) : (g.resolveAll t).passes t s = g.passes t s := by
    funext id
    rw [Graph.passes, Graph.passes, any_references_resolveAll sound id fun r b => ?_]
    · simp only [passed_congr t same]
    · simp only [passed_withResolved]
  have means (b : BindingId) : (g.resolveAll t).means t b = g.means t b := by
    funext id
    rw [Graph.means, Graph.means, any_references_resolveAll sound id fun r b => ?_]
    · simp only [meaning?_congr t same]
    · simp only [meaning?_withResolved]
  constructor
  · intro s p
    rw [parentOf_congr same]
    exact sound.parent_lt s p
  · intro s name b known
    rw [← declared?_bare, same, declared?_bare] at known
    obtain ⟨binding, found, scope⟩ := sound.declared s name b known
    have scopes := bindingScope_congr same b
    rw [found, Option.map_some, Option.map_eq_some_iff] at scopes
    obtain ⟨after, is, eq⟩ := scopes
    exact ⟨after, is, eq.trans scope⟩
  · intro id r made
    obtain ⟨old, was, rfl⟩ := made_resolveAll sound made
    refine ⟨size_congr same ▸ (sound.referenced id old was).1, ?_⟩
    rw [meaning?_congr t same]
    exact (meaning?_withResolved g t old _).symm
  · intro s
    rw [count, passes]
    exact through_resolveFirst t sound (Nat.le_refl _) s
  · intro b
    rw [count, means]
    exact referencesOf_resolveFirst t sound (Nat.le_refl _) b

/-- The graph of a tree is resolved. -/
theorem linked_ofTree (t : Tree) (environment : Environment) :
    (ofTree t environment).Linked t :=
  linked_resolveAll (sound_walkTree t environment)

/-- What resolution establishes, told by the scopes outwards from where a reference is made. -/
structure Resolved (g : Graph) (t : Tree) : Prop where
  scope_lt : ∀ (id : ReferenceId) (r : Reference), g.references[id]? = some r →
    r.scope < g.scopes.size
  /-- The first scope outwards that accepts a reference tells what it means, and the scopes before
  that one are those it passes through. -/
  accepted : ∀ (id : ReferenceId) (r : Reference) (k : Nat) (s : ScopeId) (b : BindingId),
    g.references[id]? = some r → k < scopeWalkLimit → g.ancestor? k r.scope = some s →
    g.accepts? t s r = some b →
    (∀ j < k, ∀ inner, g.ancestor? j r.scope = some inner → g.accepts? t inner r = none) →
    r.resolved = some b ∧
      ∀ inner, id ∈ g.through inner ↔ ∃ j < k, g.ancestor? j r.scope = some inner
  /-- A reference that none of the scopes visited accepts passes through all of them. -/
  refused : ∀ (id : ReferenceId) (r : Reference), g.references[id]? = some r →
    (∀ k < scopeWalkLimit, ∀ s, g.ancestor? k r.scope = some s → g.accepts? t s r = none) →
    r.resolved = none ∧
      ∀ s, id ∈ g.through s ↔ ∃ k < scopeWalkLimit, g.ancestor? k r.scope = some s
  through_made : ∀ s, ∀ id ∈ g.through s, id < g.references.size
  through_increasing : ∀ s, (g.through s).Pairwise (· < ·)
  references_increasing : ∀ b, (g.referencesOf b).Pairwise (· < ·)
  mem_referencesOf : ∀ (b : BindingId) (id : ReferenceId), id ∈ g.referencesOf b ↔
    ∃ r, g.references[id]? = some r ∧ r.resolved = some b

namespace Linked

variable (linked : g.Linked t) {id : ReferenceId} {r : Reference}

include linked

theorem mem_through (s : ScopeId) :
    id ∈ g.through s ↔ ∃ r, g.references[id]? = some r ∧ s ∈ g.passed t r := by
  rw [linked.through_eq, List.mem_filter, List.mem_range, passes, Option.any_eq_true]
  constructor
  · rintro ⟨-, r, made, through⟩
    exact ⟨r, made, of_decide_eq_true through⟩
  · rintro ⟨r, made, through⟩
    exact ⟨(Array.getElem?_eq_some_iff.mp made).1, r, made, decide_eq_true through⟩

theorem mem_referencesOf (b : BindingId) :
    id ∈ g.referencesOf b ↔ ∃ r, g.references[id]? = some r ∧ r.resolved = some b := by
  rw [linked.referencesOf_eq, List.mem_filter, List.mem_range, means, Option.any_eq_true]
  constructor
  · rintro ⟨-, r, made, meant⟩
    exact ⟨r, made, (linked.made id r made).2.trans (of_decide_eq_true meant)⟩
  · rintro ⟨r, made, meant⟩
    have told := (linked.made id r made).2.symm.trans meant
    exact ⟨(Array.getElem?_eq_some_iff.mp made).1, r, made, decide_eq_true told⟩

theorem mem_through_of_made (made : g.references[id]? = some r) (s : ScopeId) :
    id ∈ g.through s ↔ s ∈ g.passed t r := by
  simp [linked.mem_through, made]

/-- The way of a reference up to the first scope that accepts it. -/
theorem way_of_accepts (made : g.references[id]? = some r) {k : Nat} {s : ScopeId} {b : BindingId}
    (visited : k < scopeWalkLimit) (reached : g.ancestor? k r.scope = some s)
    (accepted : g.accepts? t s r = some b)
    (refused : ∀ j < k, ∀ s', g.ancestor? j r.scope = some s' → g.accepts? t s' r = none) :
    g.route t r (g.chain scopeWalkLimit (some r.scope)) = (g.chain k (some r.scope), some b) := by
  have inside := (linked.made id r made).1
  have at_ (j : Nat) (le : j ≤ k) :
      (g.chain scopeWalkLimit (some r.scope))[j]? = g.ancestor? j r.scope := by
    rw [getElem?_chain linked.parent_lt _ _ inside, if_pos (Nat.lt_of_le_of_lt le visited)]
  rw [← take_chain linked.parent_lt (Nat.le_of_lt visited) inside]
  refine route_of_accepts g t ((at_ k (Nat.le_refl k)).trans reached) accepted fun j lt s' is => ?_
  exact refused j lt s' ((at_ j (Nat.le_of_lt lt)).symm.trans is)

theorem resolved : g.Resolved t where
  scope_lt id r made := (linked.made id r made).1
  accepted id r k s b made visited reached accepted refused := by
    have way := linked.way_of_accepts made visited reached accepted refused
    have ⟨inside, meant⟩ := linked.made id r made
    refine ⟨by rw [meant, meaning?, way], fun inner => ?_⟩
    rw [linked.mem_through_of_made made, passed, way, mem_chain linked.parent_lt inside]
  refused id r made refused := by
    have ⟨inside, meant⟩ := linked.made id r made
    have none_accepts : ∀ s ∈ g.chain scopeWalkLimit (some r.scope),
        g.accepts? t s r = none := by
      intro s mem
      obtain ⟨k, lt, reached⟩ := (mem_chain linked.parent_lt inside).mp mem
      exact refused k lt s reached
    have way := route_of_refuses g t none_accepts
    refine ⟨by rw [meant, meaning?, way], fun s => ?_⟩
    rw [linked.mem_through_of_made made, passed, way, mem_chain linked.parent_lt inside]
  through_made s id mem := by
    obtain ⟨r, made, -⟩ := (linked.mem_through s).mp mem
    exact (Array.getElem?_eq_some_iff.mp made).1
  through_increasing s := by
    rw [linked.through_eq]
    exact List.pairwise_lt_range.filter _
  references_increasing b := by
    rw [linked.referencesOf_eq]
    exact List.pairwise_lt_range.filter _
  mem_referencesOf b id := linked.mem_referencesOf b

/-- A reference that means something is accepted by a scope that was visited, and by none before
it. -/
theorem exists_accepts (made : g.references[id]? = some r) {b : BindingId}
    (meant : r.resolved = some b) :
    ∃ k s, k < scopeWalkLimit ∧ g.ancestor? k r.scope = some s ∧ g.accepts? t s r = some b ∧
      ∀ j < k, ∀ inner, g.ancestor? j r.scope = some inner → g.accepts? t inner r = none := by
  obtain ⟨inside, told⟩ := linked.made id r made
  rw [told, meaning?, snd_route, List.findSome?_eq_some_iff] at meant
  obtain ⟨before, s, after, way, accepted, refused⟩ := meant
  have at_ (j : Nat) : (before ++ s :: after)[j]? =
      if j < scopeWalkLimit then g.ancestor? j r.scope else none := by
    rw [← way, getElem?_chain linked.parent_lt _ _ inside]
  have here := at_ before.length
  rw [List.getElem?_append_right (Nat.le_refl _), Nat.sub_self, List.getElem?_cons_zero] at here
  by_cases visited : before.length < scopeWalkLimit
  · rw [if_pos visited] at here
    refine ⟨before.length, s, visited, here.symm, accepted, fun j lt inner reached => ?_⟩
    have earlier := at_ j
    rw [if_pos (Nat.lt_trans lt visited), reached, List.getElem?_append_left lt] at earlier
    exact refused inner (List.mem_of_getElem? earlier)
  · rw [if_neg visited] at here
    cases here

theorem exists_binding (made : g.references[id]? = some r) {b : BindingId}
    (meant : r.resolved = some b) : ∃ binding, g.bindings[b]? = some binding := by
  obtain ⟨-, s, -, -, accepted, -⟩ := linked.exists_accepts made meant
  exact ⟨_, Array.getElem?_eq_getElem (declared?_of_accepts? t accepted).2⟩

/-- A reference that means something passes through a scope exactly when it is made in it or below
it and what it means is not. -/
theorem mem_through_iff_isBelow (made : g.references[id]? = some r) {b : BindingId}
    (meant : r.resolved = some b) {binding : Binding} (found : g.bindings[b]? = some binding)
    (s : ScopeId) :
    id ∈ g.through s ↔ g.IsBelow r.scope s ∧ ¬ g.IsBelow binding.scope s := by
  obtain ⟨k, home, visited, reached, accepted, refused⟩ := linked.exists_accepts made meant
  obtain ⟨other, same, scope⟩ := linked.declared home r.name b (declared?_of_accepts? t accepted).1
  obtain rfl : other = binding := Option.some.inj (same.symm.trans found)
  rw [(linked.resolved.accepted id r k home b made visited reached accepted refused).2, scope]
  constructor
  · rintro ⟨j, lt, through⟩
    refine ⟨⟨j, through⟩, fun ⟨i, back⟩ => ?_⟩
    have far : g.ancestor? (k + i) r.scope = some s := by
      rw [ancestor?_add, reached]
      exact back
    have steps := ancestor?_inj linked.parent_lt through far
    omega
  · rintro ⟨⟨j, through⟩, outside⟩
    refine ⟨j, Nat.lt_of_not_le fun le => outside ⟨j - k, ?_⟩, through⟩
    rw [← Nat.add_sub_of_le le, ancestor?_add, reached] at through
    exact through

end Linked
end Scope.Graph

namespace Capture

/-- Whatever text and whatever surroundings, all references are resolved by the law. -/
theorem resolved_ofText (text : List Char) (environment : Scope.Environment) :
    (Program.ofText text environment).graph.Resolved (Program.ofText text environment).tree :=
  (Scope.Graph.linked_ofTree _ environment).resolved

end Capture
end LoopCapture
