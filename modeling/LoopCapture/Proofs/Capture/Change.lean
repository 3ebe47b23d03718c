import LoopCapture.Proofs.Capture.Finding
import LoopCapture.Proofs.Capture.Stability
import LoopCapture.Proofs.Scope.Homes

/-!
# Unsafe captures by name

Which captures are unsafe is told by the graph that a walk leaves, before any reference is resolved:
by the homes of the references, by the declarations of a name at its home, and by the writes that
have the same home.
-/

namespace LoopCapture
open Syntax (NodeId Tree)

namespace Scope.Graph

variable {g : Graph} {t : Tree}

/-- A graph that a walk of a tree has left. -/
structure Walked (g : Graph) (t : Tree) : Prop where
  sound : g.Sound
  consistent : g.Consistent
  lawful : g.Lawful t
  global : ∀ f, g.frame? 0 = some f → f.kind = .global
  /-- No function is the scope of all. -/
  functions : ∀ node s, t.isFunction (some node) = true → g.nodeScope? (some node) = some s → s ≠ 0

theorem walked_walkTree (precede : t.ChildrenPrecede) (root : t.root < t.nodes.size)
    (environment : Environment) :
    ((walkTree t environment).run { graph := .empty t }).2.graph.Walked t := by
  have global (f : Frame) (found :
      ((walkTree t environment).run { graph := .empty t }).2.graph.frame? 0 = some f) :
      f.kind = .global := by
    have first : (Recording.begun t).graph.frame? 0 = some ⟨.global, t.root, none, 0⟩ :=
      ((Graph.empty t).frame?_addScope ..).trans (by simp [Graph.empty, ownerFor,
        ScopeKind.ownsVariables])
    have kept := (globalInside t environment 0).frame?_run (lt_size_of_frame? first)
    obtain rfl := Option.some.inj (found.symm.trans (kept.trans first))
    rfl
  refine ⟨sound_walkTree t environment, consistent_walkTree t environment,
    lawful_walkTree precede root environment, global, ?_⟩
  rintro node s isFunction opened rfl
  obtain ⟨s, f, opened', found, kind⟩ := Record.hasFunctionScope_run_of_nodeScope?
    (walkTree t environment) (licit_walkTree precede root environment) isFunction (by simp) opened
  obtain rfl := Option.some.inj (opened.symm.trans opened')
  rw [global f found] at kind
  cases kind

theorem frame?_resolveAll (g : Graph) (t : Tree) (s : ScopeId) :
    (g.resolveAll t).frame? s = g.frame? s := by
  rw [← frame?_bare, resolveAll, ← resolveFirst, bare_resolveFirst, frame?_bare]

theorem variableScope?_resolveAll (g : Graph) (t : Tree) (s : ScopeId) :
    (g.resolveAll t).variableScope? s = g.variableScope? s := by
  simp only [variableScope?_eq_map_frame?, frame?_resolveAll]

theorem nodeScope?_resolveAll (g : Graph) (t : Tree) (node : Option NodeId) :
    (g.resolveAll t).nodeScope? node = g.nodeScope? node := by
  have same : (g.resolveAll t).nodeScopes = g.nodeScopes :=
    congrArg (·.nodeScopes) (bare_resolveFirst t (g := g) g.references.size)
  simp only [nodeScope?, same]

theorem references_resolveAll (sound : g.Sound) (id : ReferenceId) :
    (g.resolveAll t).references[id]? =
      g.references[id]?.map fun r => { r with resolved := g.meaning? t r } := by
  rw [resolveAll, ← resolveFirst, references_resolveFirst t sound (Nat.le_refl _)]
  cases made : g.references[id]? with
  | none => rfl
  | some r => simp [(Array.getElem?_eq_some_iff.mp made).1]

/-- The binding that a name stands for in a scope, with the declarations of the name there. -/
theorem exists_binding_of_declared? (sound : g.Sound) {s : ScopeId} {name : String} {b : BindingId}
    (known : g.declared? s name = some b) : ∃ binding : Binding,
      (g.resolveAll t).bindings[b]? = some binding ∧ binding.scope = s ∧
        g.definitionsAt s name = some binding.definitions := by
  obtain ⟨old, found, scope⟩ := sound.declared s name b known
  obtain ⟨binding, found', same⟩ :=
    binding_of_bare (bare_resolveFirst t (g := g) g.references.size).symm found
  refine ⟨binding, found', by rw [← scope, same], ?_⟩
  rw [definitionsAt, known, Option.bind_some, found, same]
  rfl

theorem parentOf_resolveAll (g : Graph) (t : Tree) (s : ScopeId) :
    (g.resolveAll t).parentOf s = g.parentOf s :=
  parentOf_congr (bare_resolveFirst t g.references.size) s

theorem isBelow_resolveAll {inner outer : ScopeId} :
    (g.resolveAll t).IsBelow inner outer ↔ g.IsBelow inner outer :=
  isBelow_congr (parentOf_resolveAll g t)

/-- A reference passes through a scope when it is made in it or below it and its home is not. -/
theorem mem_through_iff_of_home (sound : g.Sound) {id : ReferenceId} {r : Reference}
    (made : g.references[id]? = some r) {home : ScopeId} (isHome : g.home? t r = some home)
    (s : ScopeId) :
    id ∈ (g.resolveAll t).through s ↔ g.IsBelow r.scope s ∧ ¬ g.IsBelow home s := by
  obtain ⟨b, accepts⟩ := Option.isSome_iff_exists.mp (home?_eq_some_iff.mp isHome).1
  have known := (accepts?_eq_some_iff.mp accepts).2
  obtain ⟨binding, found, scope, -⟩ := exists_binding_of_declared? (t := t) sound known
  have made' : (g.resolveAll t).references[id]? = some { r with resolved := g.meaning? t r } := by
    rw [references_resolveAll sound, made]
    rfl
  have meant : g.meaning? t r = some b := meaning?_eq_some_iff.mpr ⟨home, isHome, known⟩
  have law := (linked_resolveAll (t := t) sound).mem_through_iff_isBelow made' meant found s
  rwa [isBelow_resolveAll, isBelow_resolveAll, scope] at law

/-- The scopes around the home of a reference are around the reference. -/
theorem isBelow_home (sound : g.Sound) {id : ReferenceId} {r : Reference}
    (made : g.references[id]? = some r) {home : ScopeId} (isHome : g.home? t r = some home) :
    g.IsBelow r.scope home := by
  obtain ⟨-, before, after, way, -⟩ := home?_eq_some_iff.mp isHome
  have mem : home ∈ g.chain scopeWalkLimit (some r.scope) := by simp [way]
  obtain ⟨k, -, reached⟩ := (mem_chain sound.parent_lt (sound.referenced id r made).1).mp mem
  exact ⟨k, reached⟩

theorem through_resolveAll (sound : g.Sound) (s : ScopeId) : (g.resolveAll t).through s =
    (List.range g.references.size).filter (g.passes t s) :=
  through_resolveFirst t sound (Nat.le_refl _) s

theorem isBelow_of_accepts (sound : g.Sound) {id : ReferenceId} {r : Reference}
    (made : g.references[id]? = some r) {home s : ScopeId} (isHome : g.home? t r = some home)
    (below : g.IsBelow r.scope s) (accepted : (g.accepts? t s r).isSome = true) :
    g.IsBelow home s := by
  by_contra other
  have through := (mem_through_iff_of_home sound made isHome s).mpr ⟨below, other⟩
  rw [through_resolveAll sound, List.mem_filter, passes, made] at through
  have mem : s ∈ g.passed t r := by simpa using through.2
  rw [passed, fst_route] at mem
  have refused := List.all_eq_true.mp List.all_takeWhile s mem
  rw [← Option.not_isSome, accepted] at refused
  cases refused

end Scope.Graph

namespace Capture
open Scope (Binding Definition Environment Graph Reference ReferenceId ScopeId)

namespace Program

/-- The program of a tree with the graph that a walk has left. -/
def ofWalked (t : Tree) (g : Graph) : Program := ⟨t, g.resolveAll t⟩

variable {t : Tree} {g : Graph} {loop : NodeId} {s : ScopeId} {name : String}

/-- The declaration that is made anew on every round of the loops around it, if it is that of a
`let`. -/
def freshPart (d : Definition) : Option NodeId :=
  if d.kind = .letWord then some d.declaration else none

/-- A reference writes to a name at its home, from another function or not before the outermost loop
starts. -/
structure WritesLate (p : Program) (g : Graph) (loop : NodeId) (s : ScopeId) (name : String)
    (d : Definition) (w : Reference) : Prop where
  home : g.home? p.tree w = some s
  named : w.name = name
  writes : w.usage.write = true
  late : g.variableScope? w.scope ≠ g.variableScope? s ∨
    p.tree.startOf (p.topLoop loop (freshPart d)) ≤ w.start

/-- A name stands in a scope for a variable, declared first as told, whose value in a closure made
on a round of the loop may not be that of the round. -/
structure ChangesAt (p : Program) (g : Graph) (loop : NodeId) (s : ScopeId) (name : String)
    (d : Definition) : Prop where
  first : ∃ rest, g.definitionsAt s name = some (d :: rest)
  notConst : d.kind.isConstant = false
  notFresh : ¬ (d.kind = .letWord ∧ p.DeclaresInside loop d)
  changed : ∃ (id : ReferenceId) (w : Reference),
    g.references[id]? = some w ∧ p.WritesLate g loop s name d w

/-- The binding of a name at a home is unstable when the name changes there. -/
theorem exists_isUnstable_iff (sound : g.Sound) (consistent : g.Consistent) {b : Scope.BindingId}
    (known : g.declared? s name = some b) :
    (∃ binding, (ofWalked t g).IsUnstable loop b binding) ↔
      ∃ d, (ofWalked t g).ChangesAt g loop s name d := by
  obtain ⟨binding, found, scope, definitions⟩ :=
    Graph.exists_binding_of_declared? (t := t) sound known
  have meant (w : Reference) : g.meaning? t w = some b ↔ g.home? t w = some s ∧ w.name = name := by
    rw [Graph.meaning?_eq_some_iff]
    constructor
    · rintro ⟨s', home, known'⟩
      obtain ⟨rfl, same⟩ := consistent.declared?_inj known known'
      exact ⟨home, same⟩
    · rintro ⟨home, rfl⟩
      exact ⟨s, home, known⟩
  have late (w : Reference) (id : ReferenceId) (made : g.references[id]? = some w) :
      (ofWalked t g).IsLateWrite loop b binding id { w with resolved := g.meaning? t w } ↔
        (ofWalked t g).WritesLate g loop s name binding.first w := by
    have made' : (g.resolveAll t).references[id]? =
        some { w with resolved := g.meaning? t w } := by
      rw [Graph.references_resolveAll sound, made]
      rfl
    have scopes := g.variableScope?_resolveAll t
    have fresh : freshDeclaration binding = freshPart binding.first := rfl
    constructor
    · rintro ⟨-, means, writes, late⟩
      obtain ⟨home, named⟩ := (meant w).mp means
      exact ⟨home, named, writes, by simpa only [ofWalked, scopes, scope, fresh] using late⟩
    · rintro ⟨home, named, writes, late⟩
      exact ⟨made', (meant w).mpr ⟨home, named⟩, writes,
        by simpa only [ofWalked, scopes, scope, fresh] using late⟩
  constructor
  · rintro ⟨binding', found', notConst, notUsing, notAwaitUsing, notFresh, id, w, isLate⟩
    obtain rfl : binding = binding' := Option.some.inj (found.symm.trans found')
    obtain ⟨old, made, rfl⟩ := Graph.made_resolveAll sound isLate.made
    exact ⟨binding.first, ⟨_, definitions⟩,
      (isConstant_eq_false_iff _).mpr ⟨notConst, notUsing, notAwaitUsing⟩, notFresh, id, old, made,
      (late old id made).mp isLate⟩
  · rintro ⟨d, ⟨rest, first⟩, notConst, notFresh, id, w, made, isLate⟩
    obtain ⟨rfl, -⟩ : binding.first = d ∧ binding.later.toList = rest := by
      simpa [Binding.definitions] using Option.some.inj (definitions.symm.trans first)
    obtain ⟨notConst, notUsing, notAwaitUsing⟩ := (isConstant_eq_false_iff _).mp notConst
    exact ⟨binding, found, notConst, notUsing, notAwaitUsing, notFresh, id, _,
      (late w id made).mpr isLate⟩

/-- A reference is an unsafe capture when it stands for a value and its name changes at its home. -/
theorem isUnsafe_iff (sound : g.Sound) (consistent : g.Consistent) (r : Reference) :
    (ofWalked t g).isUnsafe loop { r with resolved := g.meaning? t r } = true ↔
      r.usage.isType = false ∧
        ∃ s d, g.home? t r = some s ∧ (ofWalked t g).ChangesAt g loop s r.name d := by
  have linked : (ofWalked t g).graph.Linked (ofWalked t g).tree := Graph.linked_resolveAll sound
  rw [isUnsafe, Bool.and_eq_true, Bool.not_eq_true', isSafe_eq_false_iff linked]
  constructor
  · rintro ⟨-, isValue, b, binding, meant, isUnstable⟩
    obtain ⟨s, home, known⟩ := Graph.meaning?_eq_some_iff.mp meant
    obtain ⟨d, changes⟩ := (exists_isUnstable_iff sound consistent known).mp ⟨binding, isUnstable⟩
    exact ⟨isValue, s, d, home, changes⟩
  · rintro ⟨isValue, s, d, home, changes⟩
    obtain ⟨accepted, -⟩ := Graph.home?_eq_some_iff.mp home
    obtain ⟨b, accepts⟩ := Option.isSome_iff_exists.mp accepted
    have known := (Graph.accepts?_eq_some_iff.mp accepts).2
    obtain ⟨binding, isUnstable⟩ := (exists_isUnstable_iff sound consistent known).mpr ⟨d, changes⟩
    have meant : g.meaning? t r = some b := Graph.meaning?_eq_some_iff.mpr ⟨s, home, known⟩
    exact ⟨by simp [meant], isValue, b, binding, meant, isUnstable⟩

end Program
end Capture
end LoopCapture
