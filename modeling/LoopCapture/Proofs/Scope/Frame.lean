import LoopCapture.Proofs.Scope.Recording

/-!
# What stays of a scope

A scope keeps what it was opened with, and the scopes opened later come after it. So what is known
of the open scope and the scopes around it before a step is known after it as well.
-/

namespace LoopCapture.Scope
open Syntax (Child NodeId Tree)

structure Frame where
  kind : ScopeKind
  block : NodeId
  parent : Option ScopeId
  variableScope : ScopeId

namespace Graph

variable (g : Graph)

def frame? (s : ScopeId) : Option Frame :=
  g.scopes[s]?.map fun scope => ⟨scope.kind, scope.block, scope.parent, scope.variableScope⟩

def childrenOf (s : ScopeId) : List ScopeId := g.scopes[s]?.elim [] (·.children.toList)

theorem parentOf_eq_bind_frame? (s : ScopeId) : g.parentOf s = (g.frame? s).bind (·.parent) := by
  rw [parentOf, frame?, Option.bind_map]
  rfl

theorem variableScope?_eq_map_frame? (s : ScopeId) :
    g.variableScope? s = (g.frame? s).map (·.variableScope) := by
  simp [variableScope?, frame?, Function.comp_def]

variable {g}

theorem lt_size_of_frame? {s : ScopeId} {f : Frame} (h : g.frame? s = some f) :
    s < g.scopes.size := by
  obtain ⟨scope, found, -⟩ := Option.map_eq_some_iff.mp h
  exact (Array.getElem?_eq_some_iff.mp found).1

theorem exists_frame? {s : ScopeId} (lt : s < g.scopes.size) : ∃ f, g.frame? s = some f := by
  simp [frame?, lt]

variable (g)

/-- The scope that owns `var` declarations in a new scope. -/
def ownerFor (kind : ScopeKind) (parent : Option ScopeId) : ScopeId :=
  if kind.ownsVariables then g.scopes.size
  else (parent.bind g.variableScope?).getD g.scopes.size

theorem frame?_addScope (kind : ScopeKind) (block : NodeId) (parent : Option ScopeId)
    (s : ScopeId) :
    (g.addScope kind block parent).frame? s =
      if s = g.scopes.size then some ⟨kind, block, parent, g.ownerFor kind parent⟩
      else g.frame? s := by
  cases parent <;> grind [frame?, addScope, ownerFor, variableScope?]

theorem childrenOf_addScope (kind : ScopeKind) (block : NodeId) {parent : Option ScopeId}
    (inside : ∀ p, parent = some p → p < g.scopes.size) (s : ScopeId) :
    (g.addScope kind block parent).childrenOf s =
      g.childrenOf s ++ if parent = some s then [g.scopes.size] else [] := by
  cases parent <;> grind [childrenOf, addScope]

@[simp] theorem bindingsOf_addScope (kind : ScopeKind) (block : NodeId) (parent : Option ScopeId)
    (s : ScopeId) : (g.addScope kind block parent).bindingsOf s = g.bindingsOf s := by
  cases parent <;> grind [bindingsOf, addScope]

@[simp] theorem frame?_nameNode (node : Child) (b : Option BindingId) (s : ScopeId) :
    (g.nameNode node b).frame? s = g.frame? s := by
  simp [frame?]

@[simp] theorem frame?_addBinding (s : ScopeId) (name : String) (definition : Definition)
    (owningLoop : Child) (other : ScopeId) :
    (g.addBinding s name definition owningLoop).frame? other = g.frame? other := by
  grind [frame?, addBinding]

@[simp] theorem childrenOf_addBinding (s : ScopeId) (name : String) (definition : Definition)
    (owningLoop : Child) (other : ScopeId) :
    (g.addBinding s name definition owningLoop).childrenOf other = g.childrenOf other := by
  grind [childrenOf, addBinding]

theorem bindingsOf_addBinding (s : ScopeId) (name : String) (definition : Definition)
    (owningLoop : Child) (other : ScopeId) :
    (g.addBinding s name definition owningLoop).bindingsOf other =
      g.bindingsOf other ++
        if other = s ∧ s < g.scopes.size then [g.bindings.size] else [] := by
  grind [bindingsOf, addBinding]

@[simp] theorem frame?_addReference (reference : Reference) (s : ScopeId) :
    (g.addReference reference).frame? s = g.frame? s := by
  grind [frame?, addReference]

@[simp] theorem childrenOf_addReference (reference : Reference) (s : ScopeId) :
    (g.addReference reference).childrenOf s = g.childrenOf s := by
  grind [childrenOf, addReference]

@[simp] theorem bindingsOf_addReference (reference : Reference) (s : ScopeId) :
    (g.addReference reference).bindingsOf s = g.bindingsOf s := by
  grind [bindingsOf, addReference]

@[simp] theorem frame?_addDefinition (s : ScopeId) (name : String) (definition : Definition)
    (owningLoop : Child) (other : ScopeId) :
    (g.addDefinition s name definition owningLoop).2.frame? other = g.frame? other := by
  unfold addDefinition
  split
  · split
    · rfl
    · exact frame?_addBinding ..
  · rfl

@[simp] theorem nodeScopes_addDefinition (s : ScopeId) (name : String) (definition : Definition)
    (owningLoop : Child) :
    (g.addDefinition s name definition owningLoop).2.nodeScopes = g.nodeScopes := by
  unfold addDefinition
  split
  · split <;> rfl
  · rfl

@[simp] theorem references_addDefinition (s : ScopeId) (name : String) (definition : Definition)
    (owningLoop : Child) :
    (g.addDefinition s name definition owningLoop).2.references = g.references := by
  unfold addDefinition
  split
  · split <;> rfl
  · rfl

end Graph

namespace Recording

@[simp] theorem frame?_define (r : Recording) (s : ScopeId) (name : String)
    (definition : Definition) (owningLoop : Child) (other : ScopeId) :
    (r.define s name definition owningLoop).2.graph.frame? other = r.graph.frame? other := by
  simp [define]

@[simp] theorem frame?_use (r : Recording) (node : NodeId) (name : String) (start : Text.Offset)
    (usage : Usage) (s : ScopeId) :
    (r.use node name start usage).graph.frame? s = r.graph.frame? s := by
  unfold use
  split <;> simp

theorem frame?_enter_of_lt {r : Recording} {s : ScopeId} (kind : ScopeKind) (block : NodeId)
    (lt : s < r.graph.scopes.size) :
    (r.enter kind block).graph.frame? s = r.graph.frame? s := by
  simp [enter, Graph.frame?_addScope, Nat.ne_of_lt lt]

end Recording

namespace Record

theorem frame?_run {α : Type} (p : Record α) {r : Recording} {s : ScopeId}
    (lt : s < r.graph.scopes.size) : (p.run r).2.graph.frame? s = r.graph.frame? s := by
  induction p generalizing r with
  | done a => rfl
  | andThen p next ihp ihn =>
    exact (ihn _ (Nat.lt_of_lt_of_le lt (p.grows_run r).size_le)).trans (ihp lt)
  | observe look => rfl
  | define s name definition owningLoop => exact r.frame?_define ..
  | permit b writable => rfl
  | use node name start usage => exact r.frame?_use ..
  | inScope kind block step ih =>
    have opened : s < (r.enter kind block).graph.scopes.size := by
      simpa [Recording.enter] using Nat.lt_succ_of_lt lt
    exact (ih _ opened).trans (Recording.frame?_enter_of_lt kind block lt)

end Record
end LoopCapture.Scope
