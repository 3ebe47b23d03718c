import LoopCapture.Proofs.Scope.Meaning
import LoopCapture.Proofs.Scope.Walking
import LoopCapture.Proofs.Grammar.Handover.Statements
import Mathlib.Data.List.Nodup

/-!
# Well-formed scope graphs

Whatever text is walked in whatever surroundings, no scope is left open, and the graph that the walk
leaves is a tree of scopes with the bindings where they belong. Resolution changes nothing of it.
-/

namespace LoopCapture
open Syntax (Child NodeId Tree)

namespace Scope.Graph

/-- The scopes of a graph form a tree in the order of their creation, each with the bindings of
distinct names that it declares, and the nodes of a text lead to the scopes they opened and to the
bindings they declare. -/
structure WellFormed (g : Graph) (t : Tree) : Prop where
  size_pos : 0 < g.scopes.size
  parent_eq_none_iff : ∀ s < g.scopes.size, (g.parentOf s = none ↔ s = 0)
  parent_lt : ∀ s p : ScopeId, g.parentOf s = some p → p < s
  children_eq : ∀ (s : ScopeId) (scope : LoopCapture.Scope), g.scopes[s]? = some scope →
    scope.children.toList = (List.range g.scopes.size).filter (g.parentOf · = some s)
  nearestOwner : ∀ (s : ScopeId) (scope : LoopCapture.Scope), g.scopes[s]? = some scope →
    g.NearestOwner s scope.variableScope
  /-- No two bindings of a scope have one name. -/
  distinct : ∀ (s : ScopeId) (scope : LoopCapture.Scope), g.scopes[s]? = some scope →
    (scope.bindings.toList.map g.nameOf?).Nodup
  /-- The names of a scope are those of its bindings and lead to them. -/
  names_iff : ∀ (s : ScopeId) (scope : LoopCapture.Scope), g.scopes[s]? = some scope →
    ∀ name b, scope.names[name]? = some b ↔ b ∈ scope.bindings ∧ g.nameOf? b = some name
  /-- The bindings of a scope are all those that say they are of the scope. -/
  home_iff : ∀ (s : ScopeId) (scope : LoopCapture.Scope), g.scopes[s]? = some scope →
    ∀ b, b ∈ scope.bindings ↔ g.homeOf? b = some s
  defined : ∀ (b : BindingId) (binding : Binding), g.bindings[b]? = some binding →
    0 < binding.definitions.length
  /-- A binding that is declared with `var` is of a scope that owns variables. -/
  owned : ∀ (b : BindingId) (binding : Binding), g.bindings[b]? = some binding →
    (∃ d ∈ binding.definitions, d.kind = .varWord) → g.OwnsVariables binding.scope
  /-- The loop that owns a binding has one of its declarations for a head. -/
  headed : ∀ (b : BindingId) (binding : Binding) (loop : NodeId), g.bindings[b]? = some binding →
    binding.owningLoop = some loop → ∃ d ∈ binding.definitions, t.IsHeadOf d.declaration loop
  /-- The binding that an identifier declares has a declaration of this identifier. -/
  named : ∀ node b, g.bindingOfName? (some node) = some b → g.DefinesAt b node
  /-- The scope of a node is the last that the node opened, and that of a function its own. -/
  opened : ∀ node s, g.nodeScope? (some node) = some s →
    ∃ scope : LoopCapture.Scope, g.scopes[s]? = some scope ∧ scope.block = node ∧
      (∀ (s' : ScopeId) (other : LoopCapture.Scope), g.scopes[s']? = some other →
        other.block = node → s' ≤ s) ∧
      (t.isFunction (some node) = true → scope.kind = .function)

variable {g g' : Graph} {t : Tree}

theorem Consistent.distinct (h : g.Consistent) (s : ScopeId) :
    ((g.bindingsOf s).map g.nameOf?).Nodup := by
  refine (h.nodup s).map_on fun b mem b' mem' same => ?_
  obtain ⟨binding, found, -⟩ := Option.map_eq_some_iff.mp ((h.home_iff s b).mp mem)
  have name : g.nameOf? b = some binding.name := by simp [nameOf?, found]
  have here := (h.declared_iff s binding.name b).mpr ⟨mem, name⟩
  have there := (h.declared_iff s binding.name b').mpr ⟨mem', same ▸ name⟩
  exact Option.some.inj (here.symm.trans there)

theorem frame?_of_scope {s : ScopeId} {scope : LoopCapture.Scope}
    (found : g.scopes[s]? = some scope) :
    g.frame? s = some ⟨scope.kind, scope.block, scope.parent, scope.variableScope⟩ := by
  simp [frame?, found]

theorem exists_scope {s : ScopeId} {f : Frame} (found : g.frame? s = some f) :
    ∃ scope : LoopCapture.Scope, g.scopes[s]? = some scope ∧ scope.kind = f.kind ∧
      scope.block = f.block := by
  obtain ⟨scope, is, rfl⟩ := Option.map_eq_some_iff.mp found
  exact ⟨scope, is, rfl, rfl⟩

/-- A graph whose tables agree and whose steps were lawful is well formed. -/
theorem Consistent.wellFormed (h : g.Consistent) (precede : g.ParentsPrecede) (lawful : g.Lawful t)
    (begun : 0 < g.scopes.size)
    (functions : ∀ node s, t.isFunction (some node) = true → g.nodeScope? (some node) = some s →
      g.HasFunctionScope node) : g.WellFormed t where
  size_pos := begun
  parent_eq_none_iff s lt := by
    obtain ⟨f, found⟩ := exists_frame? lt
    simpa [parentOf_eq_bind_frame?, found] using h.outermost s f found
  parent_lt := precede
  children_eq s scope found := by simpa [childrenOf, found] using h.childrenOf_eq s
  nearestOwner s scope found := h.owner s _ (frame?_of_scope found)
  distinct s scope found := by simpa [bindingsOf, found] using h.distinct s
  names_iff s scope found name b := by
    simpa [declared?, bindingsOf, found] using h.declared_iff s name b
  home_iff s scope found b := by simpa [bindingsOf, found] using h.home_iff s b
  defined b binding _ := by simp [Binding.definitions]
  owned := lawful.owned
  headed := lawful.headed
  named := h.named
  opened node s is := by
    obtain ⟨f, found, block⟩ := h.opened node s is
    obtain ⟨scope, there, kind, same⟩ := exists_scope found
    refine ⟨scope, there, same.trans block, fun s' other found' here => ?_, fun isFunction => ?_⟩
    · exact h.last node s is s' _ (frame?_of_scope found') here
    · obtain ⟨own, f', is', found', function⟩ := functions node s isFunction is
      obtain rfl := Option.some.inj (is.symm.trans is')
      obtain rfl := Option.some.inj (found.symm.trans found')
      exact kind.trans function

theorem scope_of_bare (same : g'.bare = g.bare) {s : ScopeId} {scope : LoopCapture.Scope}
    (found : g'.scopes[s]? = some scope) :
    ∃ old : LoopCapture.Scope, g.scopes[s]? = some old ∧
      scope = { old with through := scope.through } := by
  have at_ : g'.bare.scopes[s]? = g.bare.scopes[s]? := by rw [same]
  simp only [bare, Array.getElem?_map, found, Option.map_some] at at_
  obtain ⟨old, was, is⟩ := Option.map_eq_some_iff.mp at_.symm
  refine ⟨old, was, ?_⟩
  obtain ⟨⟩ := scope
  obtain ⟨⟩ := old
  simpa [eq_comm] using is

theorem binding_of_bare (same : g'.bare = g.bare) {b : BindingId} {binding : Binding}
    (found : g'.bindings[b]? = some binding) :
    ∃ old : Binding, g.bindings[b]? = some old ∧
      binding = { old with references := binding.references } := by
  have at_ : g'.bare.bindings[b]? = g.bare.bindings[b]? := by rw [same]
  simp only [bare, Array.getElem?_map, found, Option.map_some] at at_
  obtain ⟨old, was, is⟩ := Option.map_eq_some_iff.mp at_.symm
  refine ⟨old, was, ?_⟩
  obtain ⟨⟩ := binding
  obtain ⟨⟩ := old
  simpa [eq_comm] using is

theorem frame?_bare (g : Graph) (s : ScopeId) : g.bare.frame? s = g.frame? s := by
  simp [frame?, bare, Function.comp_def]

theorem nameOf?_bare (g : Graph) (b : BindingId) : g.bare.nameOf? b = g.nameOf? b := by
  simp [nameOf?, bare, Function.comp_def]

theorem homeOf?_bare (g : Graph) (b : BindingId) : g.bare.homeOf? b = g.homeOf? b := by
  simp [homeOf?, bare, Function.comp_def]

/-- What resolution adds to a graph is no part of what makes it well formed. -/
theorem WellFormed.of_bare (same : g'.bare = g.bare) (h : g.WellFormed t) : g'.WellFormed t := by
  have size := size_congr same
  have parents := parentOf_congr same
  have frames (s : ScopeId) : g'.frame? s = g.frame? s := by rw [← frame?_bare, same, frame?_bare]
  have names : g'.nameOf? = g.nameOf? := funext fun b => by
    rw [← nameOf?_bare, same, nameOf?_bare]
  have homes (b : BindingId) : g'.homeOf? b = g.homeOf? b := by
    rw [← homeOf?_bare, same, homeOf?_bare]
  have opened : g'.nodeScopes = g.nodeScopes := by
    simpa [bare] using congrArg (·.nodeScopes) same
  have declared : g'.declaredNames = g.declaredNames := by
    simpa [bare] using congrArg (·.declaredNames) same
  constructor
  · exact size ▸ h.size_pos
  · simpa only [size, parents] using h.parent_eq_none_iff
  · simpa only [parents] using h.parent_lt
  · intro s scope found
    obtain ⟨old, was, is⟩ := scope_of_bare same found
    rw [is]
    refine (h.children_eq s old was).trans ?_
    rw [size]
    exact List.filter_congr fun s _ => by rw [parents]
  · intro s scope found
    obtain ⟨old, was, is⟩ := scope_of_bare same found
    rw [is]
    exact (h.nearestOwner s old was).of_frames fun s _ found => (frames s).trans found
  · intro s scope found
    obtain ⟨old, was, is⟩ := scope_of_bare same found
    rw [is, names]
    exact h.distinct s old was
  · intro s scope found name b
    obtain ⟨old, was, is⟩ := scope_of_bare same found
    rw [is, names]
    exact h.names_iff s old was name b
  · intro s scope found b
    obtain ⟨old, was, is⟩ := scope_of_bare same found
    rw [is, homes]
    exact h.home_iff s old was b
  · intro b binding found
    simp [Binding.definitions]
  · intro b binding found
    obtain ⟨old, was, is⟩ := binding_of_bare same found
    rw [is]
    exact fun var => (h.owned b old was var).of_frames fun s _ found => (frames s).trans found
  · intro b binding loop found
    obtain ⟨old, was, is⟩ := binding_of_bare same found
    rw [is]
    exact h.headed b old loop was
  · intro node b is
    obtain ⟨old, was, d, mem, named⟩ :=
      h.named node b (by simpa only [bindingOfName?, declared] using is)
    obtain ⟨binding, found, same⟩ := binding_of_bare same.symm was
    rw [same] at mem
    exact ⟨binding, found, d, mem, named⟩
  · intro node s is
    obtain ⟨old, was, block, last, function⟩ :=
      h.opened node s (by simpa only [nodeScope?, opened] using is)
    obtain ⟨scope, found, eq⟩ := scope_of_bare same.symm was
    rw [eq] at block function
    refine ⟨scope, found, block, fun s' other there here => ?_, function⟩
    obtain ⟨other', was', is'⟩ := scope_of_bare same there
    rw [is'] at here
    exact last s' other' was' here

end Scope.Graph

namespace Scope

variable {t : Tree} (precede : t.ChildrenPrecede) (root : t.root < t.nodes.size)
  (environment : Environment)

/-- The walk closes all scopes that it opens. -/
theorem current_walkTree (t : Tree) (environment : Environment) :
    ((walkTree t environment).run { graph := .empty t }).2.current = none :=
  ((walkTree t environment).grows_run { graph := .empty t }).current_eq

theorem consistent_walkTree (t : Tree) (environment : Environment) :
    ((walkTree t environment).run { graph := .empty t }).2.graph.Consistent :=
  ((globalInside t environment 0).consistent_run (Recording.ready_begun t).consistent).graph

include precede root

theorem lawful_walkTree : ((walkTree t environment).run { graph := .empty t }).2.graph.Lawful t :=
  (globalInside t environment 0).lawful_run (Recording.ready_begun t).consistent
    (Recording.lawful_begun t)
    (walks_globalInside precede root environment 0 _ (Recording.ready_begun t))

theorem wellFormed_walkTree :
    ((walkTree t environment).run { graph := .empty t }).2.graph.WellFormed t := by
  have grown := ((globalInside t environment 0).grows_run (.begun t)).size_le
  refine (consistent_walkTree t environment).wellFormed (sound_walkTree t environment).parent_lt
    (lawful_walkTree precede root environment)
    (Nat.lt_of_lt_of_le (by simp [Recording.begun, Recording.enter]) grown)
    fun node s isFunction opened => ?_
  exact Record.hasFunctionScope_run_of_nodeScope? (walkTree t environment)
    (licit_walkTree precede root environment) isFunction (by simp) opened

theorem wellFormed_ofTree : (Graph.ofTree t environment).WellFormed t :=
  (wellFormed_walkTree precede root environment).of_bare (Graph.bare_resolveFirst t _)

end Scope

namespace Capture

theorem childrenPrecede_parseText (text : List Char) :
    (Grammar.parseText text).tree.ChildrenPrecede :=
  (Grammar.owned_parseText text).precede

/-- Whatever text and whatever surroundings: no scope is left open, and the scope graph is well
formed. -/
theorem wellFormed_ofText (text : List Char) (environment : Scope.Environment) :
    ((Scope.walkTree (Grammar.parseText text).tree environment).run
      { graph := .empty (Grammar.parseText text).tree }).2.current = none ∧
    (Program.ofText text environment).graph.WellFormed (Program.ofText text environment).tree :=
  ⟨Scope.current_walkTree _ environment,
    Scope.wellFormed_ofTree (childrenPrecede_parseText text)
      (Grammar.root_lt_parseText text) environment⟩

end Capture
end LoopCapture
