import LoopCapture.Proofs.Scope.Chain
import LoopCapture.Scope.Walk
import Mathlib.Data.List.Basic

/-!
# What a walk records

Every program of steps leaves the scope open that was open before it, and keeps a graph sound: the
parents precede their children, a name stands in a scope for a binding of that scope, references are
made from scopes of the graph, and nothing has been resolved yet.
-/

namespace LoopCapture.Scope
open Syntax (Child NodeId Tree)

namespace Graph

variable (g : Graph)

@[simp] theorem size_addScope (kind : ScopeKind) (block : NodeId) (parent : Option ScopeId) :
    (g.addScope kind block parent).scopes.size = g.scopes.size + 1 := by
  cases parent <;> simp [addScope]

/-- A new scope has the given parent; the parents of the others stay. -/
theorem parentOf_addScope (kind : ScopeKind) (block : NodeId) (parent : Option ScopeId)
    (s : ScopeId) :
    (g.addScope kind block parent).parentOf s =
      if s = g.scopes.size then parent else g.parentOf s := by
  cases parent <;> grind [parentOf, addScope]

@[simp] theorem declared?_addScope (kind : ScopeKind) (block : NodeId) (parent : Option ScopeId)
    (s : ScopeId) (name : String) :
    (g.addScope kind block parent).declared? s name = g.declared? s name := by
  cases parent <;> grind [declared?, addScope]

@[simp] theorem through_addScope (kind : ScopeKind) (block : NodeId) (parent : Option ScopeId)
    (s : ScopeId) : (g.addScope kind block parent).through s = g.through s := by
  cases parent <;> grind [through, addScope]

@[simp] theorem parentOf_addBinding (s : ScopeId) (name : String) (definition : Definition)
    (owningLoop : Child) (outer : ScopeId) :
    (g.addBinding s name definition owningLoop).parentOf outer = g.parentOf outer := by
  grind [parentOf, addBinding]

@[simp] theorem through_addBinding (s : ScopeId) (name : String) (definition : Definition)
    (owningLoop : Child) (outer : ScopeId) :
    (g.addBinding s name definition owningLoop).through outer = g.through outer := by
  grind [through, addBinding]

/-- A new binding is what its name stands for in its scope; no other name changes. -/
theorem declared?_addBinding (s : ScopeId) (name : String) (definition : Definition)
    (owningLoop : Child) (outer : ScopeId) (other : String) :
    (g.addBinding s name definition owningLoop).declared? outer other =
      if outer = s ∧ s < g.scopes.size ∧ other = name then some g.bindings.size
      else g.declared? outer other := by
  simp only [declared?, addBinding, Array.getElem?_modify]
  grind

@[simp] theorem parentOf_addReference (reference : Reference) (s : ScopeId) :
    (g.addReference reference).parentOf s = g.parentOf s := by
  grind [parentOf, addReference]

@[simp] theorem declared?_addReference (reference : Reference) (s : ScopeId) (name : String) :
    (g.addReference reference).declared? s name = g.declared? s name := by
  grind [declared?, addReference]

@[simp] theorem through_addReference (reference : Reference) (s : ScopeId) :
    (g.addReference reference).through s = g.through s := by
  grind [through, addReference]

@[simp] theorem scopes_nameNode (node : Child) (b : Option BindingId) :
    (g.nameNode node b).scopes = g.scopes := by
  unfold nameNode
  split <;> rfl

@[simp] theorem size_addDefinition (s : ScopeId) (name : String) (definition : Definition)
    (owningLoop : Child) :
    (g.addDefinition s name definition owningLoop).2.scopes.size = g.scopes.size := by
  unfold addDefinition
  split
  · split <;> simp [redeclare, addBinding]
  · rfl

@[simp] theorem parentOf_addDefinition (s : ScopeId) (name : String) (definition : Definition)
    (owningLoop : Child) (outer : ScopeId) :
    (g.addDefinition s name definition owningLoop).2.parentOf outer = g.parentOf outer := by
  unfold addDefinition
  split
  · split
    · rfl
    · exact parentOf_addBinding ..
  · rfl

/-- What holds of a graph all through a walk. -/
structure Sound : Prop where
  parent_lt : g.ParentsPrecede
  declared : ∀ s name b, g.declared? s name = some b →
    ∃ binding, g.bindings[b]? = some binding ∧ binding.scope = s
  referenced : ∀ (id : ReferenceId) (r : Reference), g.references[id]? = some r →
    r.scope < g.scopes.size ∧ r.resolved = none
  through_eq : ∀ s, g.through s = []
  unreferenced : ∀ (b : BindingId) (binding : Binding), g.bindings[b]? = some binding →
    binding.references = #[]

variable {g}

theorem sound_empty (t : Tree) : (empty t).Sound where
  parent_lt := by simp [ParentsPrecede, parentOf, empty]
  declared := by simp [declared?, empty]
  referenced := by simp [empty]
  through_eq := by simp [through, empty]
  unreferenced := by simp [empty]

/-- A scope may be added inside any scope that is there. -/
theorem Sound.addScope (h : g.Sound) (kind : ScopeKind) (block : NodeId) {parent : Option ScopeId}
    (inside : ∀ p, parent = some p → p < g.scopes.size) :
    (g.addScope kind block parent).Sound where
  parent_lt s p := by
    rw [parentOf_addScope]
    split
    · rename_i new
      intro outer
      rw [new]
      exact inside p outer
    · exact h.parent_lt s p
  declared s name b known := h.declared s name b (by simpa using known)
  referenced id r made := by
    obtain ⟨old, unresolved⟩ := h.referenced id r made
    exact ⟨by simpa using Nat.lt_succ_of_lt old, unresolved⟩
  through_eq := by simpa using h.through_eq
  unreferenced := h.unreferenced

/-- A change of one binding that keeps its scope and its references. -/
theorem Sound.modifyBinding (h : g.Sound) (b : BindingId) (change : Binding → Binding)
    (keeps : ∀ binding, (change binding).scope = binding.scope ∧
      (change binding).references = binding.references) :
    { g with bindings := g.bindings.modify b change }.Sound where
  parent_lt := h.parent_lt
  declared s name other known := by
    obtain ⟨binding, found, scope⟩ := h.declared s name other known
    simp only [Array.getElem?_modify, found]
    split
    · exact ⟨change binding, rfl, (keeps binding).1.trans scope⟩
    · exact ⟨binding, rfl, scope⟩
  referenced := h.referenced
  through_eq := h.through_eq
  unreferenced other binding found := by
    rw [Array.getElem?_modify] at found
    split at found
    · obtain ⟨old, was, rfl⟩ := Option.map_eq_some_iff.mp found
      rw [(keeps old).2, h.unreferenced other old was]
    · exact h.unreferenced other binding found

theorem Sound.redeclare (h : g.Sound) (b : BindingId) (definition : Definition)
    (owningLoop : Child) : (g.redeclare b definition owningLoop).Sound :=
  h.modifyBinding b _ fun _ => ⟨rfl, rfl⟩

theorem Sound.permit (h : g.Sound) (b : BindingId) (writable : Bool) :
    (g.permit b writable).Sound :=
  h.modifyBinding b _ fun _ => ⟨rfl, rfl⟩

theorem Sound.addBinding (h : g.Sound) (s : ScopeId) (name : String) (definition : Definition)
    (owningLoop : Child) : (g.addBinding s name definition owningLoop).Sound where
  parent_lt := by simpa [ParentsPrecede] using h.parent_lt
  declared outer other b := by
    rw [declared?_addBinding]
    split
    · rintro ⟨⟩
      rename_i new
      exact ⟨_, Array.getElem?_push_size, new.1.symm⟩
    · intro known
      obtain ⟨binding, found, scope⟩ := h.declared outer other b known
      have old : b ≠ g.bindings.size := Nat.ne_of_lt (Array.getElem?_eq_some_iff.mp found).1
      exact ⟨binding, by simpa [Graph.addBinding, Array.getElem?_push, old] using found, scope⟩
  referenced id r made := by
    simpa [Graph.addBinding] using h.referenced id r made
  through_eq := by simpa using h.through_eq
  unreferenced b binding found := by
    simp only [Graph.addBinding, Array.getElem?_push] at found
    split at found
    · cases found
      rfl
    · exact h.unreferenced b binding found

theorem Sound.nameNode (h : g.Sound) (node : Child) (b : Option BindingId) :
    (g.nameNode node b).Sound := by
  unfold Graph.nameNode
  split
  · exact ⟨h.parent_lt, h.declared, h.referenced, h.through_eq, h.unreferenced⟩
  · exact h

theorem Sound.addDefinition (h : g.Sound) (s : ScopeId) (name : String) (definition : Definition)
    (owningLoop : Child) : (g.addDefinition s name definition owningLoop).2.Sound := by
  unfold Graph.addDefinition
  split
  · split
    · exact h.redeclare _ _ _
    · exact h.addBinding _ _ _ _
  · exact h

/-- An unresolved reference may be added from any scope that is there. -/
theorem Sound.addReference (h : g.Sound) {reference : Reference}
    (inside : reference.scope < g.scopes.size) (unresolved : reference.resolved = none) :
    (g.addReference reference).Sound where
  parent_lt := by simpa [ParentsPrecede] using h.parent_lt
  declared s name b known := h.declared s name b (by simpa using known)
  referenced id r made := by
    simp only [Graph.addReference, Array.getElem?_push, Array.size_modify] at made ⊢
    split at made
    · cases made
      exact ⟨inside, unresolved⟩
    · exact h.referenced id r made
  through_eq := by simpa using h.through_eq
  unreferenced := h.unreferenced

end Graph

namespace Recording

variable {r r' r'' : Recording}

/-- A later recording has the same open scope and the same parents for all scopes there were. -/
structure Grows (r r' : Recording) : Prop where
  current_eq : r'.current = r.current
  size_le : r.graph.scopes.size ≤ r'.graph.scopes.size
  parentOf_eq : ∀ s < r.graph.scopes.size, r'.graph.parentOf s = r.graph.parentOf s

theorem Grows.refl (r : Recording) : Grows r r := ⟨rfl, Nat.le_refl _, fun _ _ => rfl⟩

theorem Grows.trans (h : Grows r r') (h' : Grows r' r'') : Grows r r'' where
  current_eq := h'.current_eq.trans h.current_eq
  size_le := Nat.le_trans h.size_le h'.size_le
  parentOf_eq s old := by
    rw [h'.parentOf_eq s (Nat.lt_of_lt_of_le old h.size_le), h.parentOf_eq s old]

theorem grows_define (r : Recording) (s : ScopeId) (name : String) (definition : Definition)
    (owningLoop : Child) : Grows r (r.define s name definition owningLoop).2 where
  current_eq := rfl
  size_le := by simp [define]
  parentOf_eq outer _ := by
    simpa [define, Graph.parentOf] using r.graph.parentOf_addDefinition s name definition _ outer

theorem grows_use (r : Recording) (node : NodeId) (name : String) (start : Text.Offset)
    (usage : Usage) : Grows r (r.use node name start usage) := by
  unfold use
  split
  · exact ⟨rfl, by simp [Graph.addReference], fun s _ => by simp⟩
  · exact .refl r

/-- A step in a new scope that leaves it open is followed by the return to the scope before. -/
theorem Grows.leave {kind : ScopeKind} {block : NodeId} (h : Grows (r.enter kind block) r') :
    Grows r r'.leave where
  current_eq := by
    have parent := h.parentOf_eq r.graph.scopes.size (by simp [enter])
    simp only [Recording.leave, h.current_eq]
    simp [enter, parent, Graph.parentOf_addScope]
  size_le := by
    have size := h.size_le
    simp only [enter, Graph.size_addScope] at size
    exact Nat.le_of_succ_le size
  parentOf_eq s old := by
    have parent := h.parentOf_eq s (by simpa [enter] using Nat.lt_succ_of_lt old)
    simpa [enter, Recording.leave, Graph.parentOf_addScope, Nat.ne_of_lt old] using parent

/-- The graph is sound and the open scope is one of its scopes. -/
structure Sound (r : Recording) : Prop where
  graph : r.graph.Sound
  current : ∀ s, r.current = some s → s < r.graph.scopes.size

theorem Sound.enter (h : r.Sound) (kind : ScopeKind) (block : NodeId) :
    (r.enter kind block).Sound where
  graph := h.graph.addScope kind block h.current
  current s opened := by
    cases opened
    simp [Recording.enter]

end Recording

namespace Record

/-- Every step leaves the scope open that was open before it. -/
theorem grows_run {α : Type} (p : Record α) (r : Recording) : r.Grows (p.run r).2 := by
  induction p generalizing r with
  | done a => exact .refl r
  | andThen p next ihp ihn => exact (ihp r).trans (ihn _ _)
  | observe look => exact .refl r
  | define s name definition owningLoop => exact r.grows_define s name definition owningLoop
  | permit b writable => exact ⟨rfl, Nat.le_refl _, fun _ _ => rfl⟩
  | use node name start usage => exact r.grows_use node name start usage
  | inScope kind block step ih => exact (ih _ (r.enter kind block)).leave

/-- Every step keeps a recording sound. -/
theorem sound_run {α : Type} (p : Record α) {r : Recording} (h : r.Sound) :
    (p.run r).2.Sound := by
  induction p generalizing r with
  | done a => exact h
  | andThen p next ihp ihn => exact ihn _ (ihp h)
  | observe look => exact h
  | define s name definition owningLoop =>
    have grows := r.grows_define s name definition owningLoop
    have defined := h.graph.addDefinition s name definition owningLoop
    refine ⟨defined.nameNode _ _, fun open? is => ?_⟩
    exact Nat.lt_of_lt_of_le (h.current open? is) grows.size_le
  | permit b writable => exact ⟨h.graph.permit b writable, h.current⟩
  | use node name start usage =>
    cases current : r.current with
    | none => simpa [run, Recording.use, current] using h
    | some scope =>
      have inside := h.current scope current
      simp only [run, Recording.use, current]
      refine ⟨h.graph.addReference inside rfl, fun s is => ?_⟩
      simpa [Graph.addReference] using h.current s (current.trans is)
  | inScope kind block step ih =>
    have inner := ih r.graph.scopes.size (h.enter kind block)
    have grows := (step r.graph.scopes.size).grows_run (r.enter kind block) |>.leave
    refine ⟨inner.graph, fun s is => ?_⟩
    exact Nat.lt_of_lt_of_le (h.current s (grows.current_eq.symm.trans is)) grows.size_le

end Record

/-- The graph of a walk is sound. -/
theorem sound_walkTree (t : Tree) (environment : Environment) :
    ((walkTree t environment).run { graph := .empty t }).2.graph.Sound :=
  (Record.sound_run _ ⟨Graph.sound_empty t, by simp⟩).graph

end LoopCapture.Scope
