import LoopCapture.Proofs.Scope.Frame

/-!
# What holds of a graph whatever is recorded

Once a scope is open, every program of steps keeps the tables of a graph in agreement with each
other: children with parents, the owners of `var` declarations with the kinds of scopes, names with
bindings, and nodes with the scopes they opened and the bindings they declare.
-/

namespace LoopCapture.Scope
open Syntax (Child NodeId Tree)

namespace Graph

variable (g : Graph)

/-- The scope owns `var` declarations, or else the nearest scope around it that does is meant. -/
inductive NearestOwner : ScopeId → ScopeId → Prop where
  | itself {s : ScopeId} {f : Frame} (found : g.frame? s = some f)
    (owns : f.kind.ownsVariables = true) : NearestOwner s s
  | outer {s p owner : ScopeId} {f : Frame} (found : g.frame? s = some f)
    (passes : f.kind.ownsVariables = false) (parent : f.parent = some p)
    (above : NearestOwner p owner) : NearestOwner s owner

def nameOf? (b : BindingId) : Option String := g.bindings[b]?.map (·.name)

def homeOf? (b : BindingId) : Option ScopeId := g.bindings[b]?.map (·.scope)

/-- One of the declarations of a binding is of the given name. -/
def DefinesAt (b : BindingId) (node : NodeId) : Prop :=
  ∃ binding, g.bindings[b]? = some binding ∧ ∃ d ∈ binding.definitions, d.name = some node

/-- What the tables of a graph tell of each other. -/
structure Consistent : Prop where
  outermost : ∀ s f, g.frame? s = some f → (f.parent = none ↔ s = 0)
  childrenOf_eq : ∀ p, g.childrenOf p = (List.range g.scopes.size).filter (g.parentOf · = some p)
  owner : ∀ s f, g.frame? s = some f → g.NearestOwner s f.variableScope
  declared_iff : ∀ s name b,
    g.declared? s name = some b ↔ b ∈ g.bindingsOf s ∧ g.nameOf? b = some name
  home_iff : ∀ s b, b ∈ g.bindingsOf s ↔ g.homeOf? b = some s
  nodup : ∀ s, (g.bindingsOf s).Nodup
  named : ∀ node b, g.bindingOfName? (some node) = some b → g.DefinesAt b node
  opened : ∀ node s, g.nodeScope? (some node) = some s → ∃ f, g.frame? s = some f ∧ f.block = node
  last : ∀ node s, g.nodeScope? (some node) = some s →
    ∀ s' f, g.frame? s' = some f → f.block = node → s' ≤ s

variable {g} {g' : Graph}

theorem NearestOwner.of_frames {s owner : ScopeId} (h : g.NearestOwner s owner)
    (same : ∀ s f, g.frame? s = some f → g'.frame? s = some f) : g'.NearestOwner s owner := by
  induction h with
  | itself found owns => exact .itself (same _ _ found) owns
  | outer found passes parent _ ih => exact .outer (same _ _ found) passes parent ih

theorem frame?_addScope_of_some {s : ScopeId} {f : Frame} (kind : ScopeKind) (block : NodeId)
    (parent : Option ScopeId) (found : g.frame? s = some f) :
    (g.addScope kind block parent).frame? s = some f := by
  rw [frame?_addScope, if_neg (Nat.ne_of_lt (lt_size_of_frame? found)), found]

/-- A scope may be added inside any scope that is there. The first one is added inside none and owns
`var` declarations. -/
def Admits (g : Graph) (kind : ScopeKind) : Option ScopeId → Prop
  | none => g.scopes.size = 0 ∧ kind.ownsVariables = true
  | some p => p < g.scopes.size

theorem Admits.lt {kind : ScopeKind} {parent : Option ScopeId} (h : g.Admits kind parent) :
    ∀ p, parent = some p → p < g.scopes.size := by
  rintro p rfl
  exact h

/-- A new scope is its own owner, or has the same owner as the scope around it. -/
theorem nearestOwner_addScope (h : g.Consistent) {kind : ScopeKind} (block : NodeId)
    {parent : Option ScopeId} (fits : g.Admits kind parent) :
    (g.addScope kind block parent).NearestOwner g.scopes.size (g.ownerFor kind parent) := by
  have new : (g.addScope kind block parent).frame? g.scopes.size = some _ :=
    (g.frame?_addScope ..).trans (if_pos rfl)
  cases owns : kind.ownsVariables with
  | true => simpa [ownerFor, owns] using NearestOwner.itself new owns
  | false =>
    cases parent with
    | none => exact absurd fits.2 (by simp [owns])
    | some p =>
      obtain ⟨f, found⟩ := exists_frame? fits
      have above := (h.owner p f found).of_frames fun _ _ =>
        frame?_addScope_of_some kind block (some p)
      have owner : g.ownerFor kind (some p) = f.variableScope := by
        simp [ownerFor, owns, variableScope?_eq_map_frame?, found]
      exact owner ▸ .outer new owns rfl above

@[simp] theorem nameOf?_addScope (kind : ScopeKind) (block : NodeId) (parent : Option ScopeId)
    (b : BindingId) : (g.addScope kind block parent).nameOf? b = g.nameOf? b :=
  rfl

@[simp] theorem homeOf?_addScope (kind : ScopeKind) (block : NodeId) (parent : Option ScopeId)
    (b : BindingId) : (g.addScope kind block parent).homeOf? b = g.homeOf? b :=
  rfl

theorem lt_size_of_nodeScope? {node : NodeId} {s : ScopeId}
    (is : g.nodeScope? (some node) = some s) : node < g.nodeScopes.size := by
  by_contra outside
  simp [nodeScope?, Array.getElem?_eq_none (Nat.not_lt.mp outside)] at is

theorem nodeScope?_addScope (kind : ScopeKind) (block : NodeId) (parent : Option ScopeId)
    (node : NodeId) :
    (g.addScope kind block parent).nodeScope? (some node) =
      if node = block ∧ block < g.nodeScopes.size then some g.scopes.size
      else g.nodeScope? (some node) := by
  simp only [nodeScope?, addScope, Option.bind_some, Array.getElem?_setIfInBounds]
  grind

theorem Consistent.addScope (h : g.Consistent) {kind : ScopeKind} (block : NodeId)
    {parent : Option ScopeId} (fits : g.Admits kind parent) :
    (g.addScope kind block parent).Consistent where
  outermost s f found := by
    rw [frame?_addScope] at found
    split at found
    · rename_i new
      obtain rfl := Option.some.inj found
      cases parent with
      | none => simpa [new] using fits.1
      | some p => simpa [new] using Nat.ne_of_gt (Nat.zero_lt_of_lt fits)
    · exact h.outermost s f found
  childrenOf_eq outer := by
    have before : (List.range g.scopes.size).filter
        ((g.addScope kind block parent).parentOf · = some outer) = g.childrenOf outer := by
      rw [h.childrenOf_eq]
      refine List.filter_congr fun s mem => ?_
      rw [parentOf_addScope, if_neg (Nat.ne_of_lt (List.mem_range.mp mem))]
    have new : (g.addScope kind block parent).parentOf g.scopes.size = parent := by
      rw [parentOf_addScope, if_pos rfl]
    rw [childrenOf_addScope g kind block fits.lt, size_addScope, List.range_succ,
      List.filter_append, before]
    simp [List.filter_cons, new]
  owner s f found := by
    rw [frame?_addScope] at found
    split at found
    · rename_i here
      obtain rfl := Option.some.inj found
      exact here ▸ nearestOwner_addScope h block fits
    · exact (h.owner s f found).of_frames fun _ _ => frame?_addScope_of_some kind block parent
  declared_iff s name b := by
    simpa using h.declared_iff s name b
  home_iff s b := by simpa using h.home_iff s b
  nodup s := by simpa using h.nodup s
  named node b is := h.named node b is
  opened node s is := by
    rw [nodeScope?_addScope] at is
    split at is
    · rename_i here
      obtain rfl := Option.some.inj is
      exact ⟨_, (g.frame?_addScope ..).trans (if_pos rfl), here.1.symm⟩
    · obtain ⟨f, found, block⟩ := h.opened node s is
      exact ⟨f, frame?_addScope_of_some _ _ _ found, block⟩
  last node s is s' f found here := by
    have le : s' ≤ g.scopes.size := Nat.le_of_lt_succ (by simpa using lt_size_of_frame? found)
    rw [nodeScope?_addScope] at is
    split at is
    · obtain rfl := Option.some.inj is
      exact le
    · rename_i other
      rw [frame?_addScope] at found
      split at found
      · obtain rfl := Option.some.inj found
        subst here
        exact absurd ⟨rfl, lt_size_of_nodeScope? is⟩ other
      · exact h.last node s is s' f found here

theorem bindings_redeclare (b : BindingId) (definition : Definition) (owningLoop : Child)
    (other : BindingId) :
    (g.redeclare b definition owningLoop).bindings[other]? =
      if other = b then g.bindings[b]?.map fun binding =>
        { binding with
          later := binding.later.push definition
          owningLoop := binding.owningLoop.or owningLoop }
      else g.bindings[other]? := by
  grind [redeclare]

theorem bindings_addBinding (s : ScopeId) (name : String) (definition : Definition)
    (owningLoop : Child) (b : BindingId) :
    (g.addBinding s name definition owningLoop).bindings[b]? =
      if b = g.bindings.size then
        some { name, scope := s, first := definition, owningLoop,
               writable := !definition.kind.isConstant }
      else g.bindings[b]? := by
  grind [addBinding]

theorem lt_size_of_homeOf? {b : BindingId} {s : ScopeId} (h : g.homeOf? b = some s) :
    b < g.bindings.size := by
  obtain ⟨binding, found, -⟩ := Option.map_eq_some_iff.mp h
  exact (Array.getElem?_eq_some_iff.mp found).1

theorem Consistent.childrenOf_eq_of_same (h : g.Consistent)
    (size : g'.scopes.size = g.scopes.size) (parents : ∀ s, g'.parentOf s = g.parentOf s)
    (children : ∀ s, g'.childrenOf s = g.childrenOf s) (p : ScopeId) :
    g'.childrenOf p = (List.range g'.scopes.size).filter (g'.parentOf · = some p) := by
  rw [children, h.childrenOf_eq, size]
  exact List.filter_congr fun s _ => by rw [parents]

@[simp] theorem nodeScope?_empty (t : Tree) (node : NodeId) :
    (empty t).nodeScope? (some node) = none := by
  simp [nodeScope?, empty, Array.getElem?_replicate, apply_ite Option.join]

theorem consistent_empty (t : Tree) : (empty t).Consistent := by
  constructor <;> simp [empty, frame?, childrenOf, declared?, bindingsOf, homeOf?, bindingOfName?,
    nodeScope?, Array.getElem?_replicate, apply_ite Option.join]

/-- A graph with the same scopes, whose bindings have kept their names and their scopes. -/
theorem Consistent.of_bindings (h : g.Consistent) (scopes : g'.scopes = g.scopes)
    (opened : g'.nodeScopes = g.nodeScopes)
    (name : ∀ b, g'.nameOf? b = g.nameOf? b) (home : ∀ b, g'.homeOf? b = g.homeOf? b)
    (named : ∀ node b, g'.bindingOfName? (some node) = some b → g'.DefinesAt b node) :
    g'.Consistent where
  outermost := by simpa only [frame?, scopes] using h.outermost
  childrenOf_eq := h.childrenOf_eq_of_same (by rw [scopes])
    (fun s => by simp only [parentOf, scopes]) fun s => by simp only [childrenOf, scopes]
  owner s f found := by
    have same (s : ScopeId) : g'.frame? s = g.frame? s := by simp only [frame?, scopes]
    exact (h.owner s f (same s ▸ found)).of_frames fun s f is => (same s).trans is
  declared_iff := by simpa only [declared?, bindingsOf, scopes, name] using h.declared_iff
  home_iff := by simpa only [bindingsOf, scopes, home] using h.home_iff
  nodup := by simpa only [bindingsOf, scopes] using h.nodup
  named := named
  opened := by simpa only [nodeScope?, frame?, scopes, opened] using h.opened
  last := by simpa only [nodeScope?, frame?, scopes, opened] using h.last

theorem DefinesAt.redeclare {b : BindingId} {node : NodeId} (h : g.DefinesAt b node)
    (other : BindingId) (definition : Definition) (owningLoop : Child) :
    (g.redeclare other definition owningLoop).DefinesAt b node := by
  obtain ⟨binding, found, d, mem, is⟩ := h
  by_cases here : b = other
  · subst here
    refine ⟨_, by rw [bindings_redeclare, if_pos rfl, found]; rfl, d, ?_, is⟩
    grind [Binding.definitions]
  · exact ⟨binding, by rw [bindings_redeclare, if_neg here, found], d, mem, is⟩

theorem Consistent.redeclare (h : g.Consistent) (b : BindingId) (definition : Definition)
    (owningLoop : Child) : (g.redeclare b definition owningLoop).Consistent := by
  refine h.of_bindings rfl rfl (fun other => ?_) (fun other => ?_)
    fun node other is => (h.named node other is).redeclare b definition owningLoop
  · grind [nameOf?, Graph.redeclare]
  · grind [homeOf?, Graph.redeclare]

theorem Consistent.permit (h : g.Consistent) (b : BindingId) (writable : Bool) :
    (g.permit b writable).Consistent := by
  refine h.of_bindings rfl rfl (fun other => ?_) (fun other => ?_) fun node other is => ?_
  · grind [nameOf?, Graph.permit]
  · grind [homeOf?, Graph.permit]
  · obtain ⟨binding, found, d, mem, named⟩ := h.named node other is
    by_cases here : other = b
    · subst here
      exact ⟨{ binding with writable }, by grind [Graph.permit], d, mem, named⟩
    · exact ⟨binding, by grind [Graph.permit], d, mem, named⟩

/-- A new binding in a scope that has none of the name. -/
theorem Consistent.addBinding (h : g.Consistent) {s : ScopeId} (inside : s < g.scopes.size)
    {name : String} (free : g.declared? s name = none) (definition : Definition)
    (owningLoop : Child) : (g.addBinding s name definition owningLoop).Consistent where
  outermost := by simpa using h.outermost
  childrenOf_eq := h.childrenOf_eq_of_same (by simp [Graph.addBinding])
    (fun s => by simp) fun s => by simp
  owner s f found := by
    exact (h.owner s f (by simpa using found)).of_frames fun s f is => by simpa using is
  declared_iff outer other b := by
    have old := h.declared_iff outer other b
    have fresh : b ∈ g.bindingsOf outer → b < g.bindings.size := fun mem =>
      lt_size_of_homeOf? ((h.home_iff outer b).mp mem)
    simp only [declared?_addBinding, bindingsOf_addBinding, nameOf?, bindings_addBinding]
    grind [nameOf?]
  home_iff outer b := by
    have old := h.home_iff outer b
    have fresh : b ∈ g.bindingsOf outer → b < g.bindings.size := fun mem =>
      lt_size_of_homeOf? (old.mp mem)
    simp only [bindingsOf_addBinding, homeOf?, bindings_addBinding]
    grind [homeOf?]
  nodup outer := by
    have fresh : g.bindings.size ∉ g.bindingsOf outer := fun mem =>
      Nat.lt_irrefl _ (lt_size_of_homeOf? ((h.home_iff outer _).mp mem))
    rw [bindingsOf_addBinding]
    split
    · exact List.nodup_append.mpr ⟨h.nodup outer, by simp, by grind⟩
    · simpa using h.nodup outer
  named node b is := by
    obtain ⟨binding, found, defines⟩ := h.named node b is
    have old := (Array.getElem?_eq_some_iff.mp found).1
    exact ⟨binding, by rw [bindings_addBinding, if_neg (Nat.ne_of_lt old), found], defines⟩
  opened node outer is := by simpa using h.opened node outer is
  last node outer is := by simpa using h.last node outer is

theorem Consistent.addDefinition (h : g.Consistent) (s : ScopeId) (name : String)
    (definition : Definition) (owningLoop : Child) :
    (g.addDefinition s name definition owningLoop).2.Consistent := by
  unfold Graph.addDefinition
  split
  · split
    · exact h.redeclare _ _ _
    · exact h.addBinding ‹_› ‹_› _ _
  · exact h

/-- A declaration is one of the declarations of the binding that it declares. -/
theorem mem_definitions_addDefinition (sound : g.Sound) {s : ScopeId} {name : String}
    {definition : Definition} {owningLoop : Child} {b : BindingId}
    (declares : (g.addDefinition s name definition owningLoop).1 = some b) :
    ∃ binding, (g.addDefinition s name definition owningLoop).2.bindings[b]? = some binding ∧
      definition ∈ binding.definitions := by
  unfold Graph.addDefinition at declares ⊢
  split at declares
  · rename_i inside
    rw [if_pos inside]
    split at declares
    · rename_i known
      obtain rfl := Option.some.inj declares
      obtain ⟨binding, found, -⟩ := sound.declared _ _ _ known
      refine ⟨_, by rw [bindings_redeclare, if_pos rfl, found]; rfl, ?_⟩
      simp [Binding.definitions]
    · obtain rfl := Option.some.inj declares
      exact ⟨_, by rw [bindings_addBinding, if_pos rfl], by simp [Binding.definitions]⟩
  · cases declares

theorem Consistent.nameNode (h : g.Consistent) {node : Child} {b : Option BindingId}
    (defines : ∀ n id, node = some n → b = some id → g.DefinesAt id n) :
    (g.nameNode node b).Consistent := by
  unfold Graph.nameNode
  split
  · rename_i n id
    refine h.of_bindings rfl rfl (fun _ => rfl) (fun _ => rfl) fun other b is => ?_
    simp only [bindingOfName?, Option.bind_some, Array.getElem?_setIfInBounds] at is
    split at is
    · rename_i here
      split at is
      · obtain rfl : id = b := by simpa using is
        exact here ▸ defines n id rfl rfl
      · simp at is
    · exact h.named other b (by simpa [bindingOfName?] using is)
  · exact h

theorem Consistent.addReference (h : g.Consistent) (reference : Reference) :
    (g.addReference reference).Consistent where
  outermost := by simpa using h.outermost
  childrenOf_eq := h.childrenOf_eq_of_same (by simp [Graph.addReference])
    (fun s => by simp) fun s => by simp
  owner s f found := by
    exact (h.owner s f (by simpa using found)).of_frames fun s f is => by simpa using is
  declared_iff s name b := by
    rw [declared?_addReference, bindingsOf_addReference]
    exact h.declared_iff s name b
  home_iff s b := by
    rw [bindingsOf_addReference]
    exact h.home_iff s b
  nodup s := by simpa using h.nodup s
  named := h.named
  opened node s is := by simpa using h.opened node s is
  last node s is := by simpa using h.last node s is

end Graph

namespace Recording

/-- A sound recording whose graph is consistent, with a scope open. -/
structure Consistent (r : Recording) : Prop where
  sound : r.Sound
  graph : r.graph.Consistent
  isOpen : ∃ s, r.current = some s

variable {r : Recording}

theorem Consistent.enter (h : r.Consistent) (kind : ScopeKind) (block : NodeId) :
    (r.enter kind block).Consistent := by
  obtain ⟨s, opened⟩ := h.isOpen
  refine ⟨h.sound.enter kind block, h.graph.addScope block ?_, _, rfl⟩
  rw [opened]
  exact h.sound.current s opened

theorem Consistent.define (h : r.Consistent) (s : ScopeId) (name : String)
    (definition : Definition) (owningLoop : Child) :
    (r.define s name definition owningLoop).2.graph.Consistent := by
  refine (h.graph.addDefinition s name definition owningLoop).nameNode
    fun node b named declares => ?_
  obtain ⟨binding, found, mem⟩ := Graph.mem_definitions_addDefinition h.sound.graph declares
  exact ⟨binding, found, definition, mem, named⟩

theorem Consistent.use (h : r.Consistent) (node : NodeId) (name : String) (start : Text.Offset)
    (usage : Usage) : (r.use node name start usage).graph.Consistent := by
  unfold Recording.use
  split
  · exact h.graph.addReference _
  · exact h.graph

/-- The first scope of a graph has no parent and owns `var` declarations. -/
theorem consistent_enter_empty (t : Tree) {kind : ScopeKind} (owns : kind.ownsVariables = true)
    (block : NodeId) : (Recording.enter { graph := .empty t } kind block).Consistent := by
  refine ⟨Sound.enter ⟨Graph.sound_empty t, by simp⟩ kind block, ?_, _, rfl⟩
  have first : (Graph.empty t).Admits kind none := ⟨rfl, owns⟩
  exact (Graph.consistent_empty t).addScope block first

end Recording

/-- With a scope open, every program of steps keeps a recording consistent. -/
theorem Record.consistent_run {α : Type} (p : Record α) {r : Recording} (h : r.Consistent) :
    (p.run r).2.Consistent := by
  suffices (p.run r).2.graph.Consistent from
    ⟨p.sound_run h.sound, this, (p.grows_run r).current_eq ▸ h.isOpen⟩
  induction p generalizing r with
  | done a => exact h.graph
  | andThen p next ihp ihn =>
    exact ihn _ ⟨p.sound_run h.sound, ihp h, (p.grows_run r).current_eq ▸ h.isOpen⟩
  | observe look => exact h.graph
  | define s name definition owningLoop => exact h.define s name definition owningLoop
  | permit b writable => exact h.graph.permit b writable
  | use node name start usage => exact h.use node name start usage
  | inScope kind block step ih => exact ih _ (h.enter kind block)

end LoopCapture.Scope
