import LoopCapture.Proofs.Scope.Consistency
import LoopCapture.Proofs.Syntax.Descent

/-!
# Steps that a walk may take

A walk does not record just anything. It declares `var` where variables are owned, it names a loop
as the owner of what the head of the loop declares, it opens scopes and records uses only inside
what opened the scope that is open, it records the uses that its nodes are, and a function whose
node opens another scope first opens its own scope before that one is closed. The scope for the name
of a function expression holds the scope of the function and nothing else. What follows for the
graph is shown for every program of such steps.
-/

namespace LoopCapture
open Syntax (Child NodeId Tree)

/-- The declaration is the head of the loop: the start of a `for`, or what a `for`-`in` or
`for`-`of` assigns. -/
def Syntax.Tree.IsHeadOf (t : Tree) (declaration loop : NodeId) : Prop :=
  match t.nodes.shape? loop with
  | some (.forLoop init _ _ _) => init = some declaration
  | some (.forIn left _ _ _) | some (.forOf left _ _ _) => left = some declaration
  | _ => False

namespace Scope

namespace Graph

def OwnsVariables (g : Graph) (s : ScopeId) : Prop :=
  ∃ f, g.frame? s = some f ∧ f.kind.ownsVariables = true

/-- The last scope that a node opened is that of a function. -/
def HasFunctionScope (g : Graph) (node : NodeId) : Prop :=
  ∃ s f, g.nodeScope? (some node) = some s ∧ g.frame? s = some f ∧ f.kind = .function

/-- A node is in what opened a scope. The scope of a function is around what is under the function
only. -/
def Encloses (g : Graph) (t : Tree) (s : ScopeId) (node : NodeId) : Prop :=
  ∀ f, g.frame? s = some f → t.Below node f.block ∧ (f.kind = .function → node ≠ f.block)

/-- The scope is that of the name of a function expression. -/
def IsNameScope (g : Graph) (s : ScopeId) : Prop :=
  ∃ f, g.frame? s = some f ∧ f.kind = .functionExpressionName

/-- The scope has the name, and the given declaration was the first one of it. -/
def Introduces (g : Graph) (s : ScopeId) (name : String) (d : Definition) : Prop :=
  ∃ b binding, g.declared? s name = some b ∧ g.bindings[b]? = some binding ∧ binding.first = d

/-- The scope is that of the name of a function expression and has that name. -/
def Names (g : Graph) (s : ScopeId) (node : NodeId) (f : Syntax.Function) (own : String) : Prop :=
  g.IsNameScope s ∧ g.Introduces s own ⟨.functionExpressionName, f.name, node⟩

/-- A scope may be opened inside the other one: the scope of a name takes in one scope only, and
that of a function expression with a name is opened inside the scope of the name. -/
structure Hosts (g : Graph) (t : Tree) (outer : Option ScopeId) (kind : ScopeKind)
    (block : NodeId) :
    Prop where
  single : ∀ s, outer = some s → g.IsNameScope s → ∀ inner, g.parentOf inner ≠ some s
  named : ∀ f own, kind = .function → t.nodes.shape? block = some (.function f) →
    f.form = .expression → t.nameText? f.name = some own →
      ∃ s, outer = some s ∧ g.Names s block f own

end Graph

/-- A node is in what opened the open scope. -/
def Recording.Surrounds (t : Tree) (r : Recording) (node : NodeId) : Prop :=
  ∀ s, r.current = some s → r.graph.Encloses t s node

/-- The steps of a program, run from a recording, are such as a walk takes. -/
def Record.Licit (t : Tree) : {α : Type} → Record α → Recording → Prop
  | _, .done _, _ => True
  | _, .andThen p next, r => p.Licit t r ∧ (next (p.run r).1).Licit t (p.run r).2
  | _, .observe _, _ => True
  | _, .define s _ definition owningLoop, r =>
    (definition.kind = .varWord → r.graph.OwnsVariables s) ∧
      ∀ loop, owningLoop = some loop → t.IsHeadOf definition.declaration loop
  | _, .permit _ _, _ => True
  | _, .use node name start _, r =>
    (r.Surrounds t node ∧ ∀ s, r.current = some s → ¬ r.graph.IsNameScope s) ∧
      t.nameText? (some node) = some name ∧ t.startOf node = start
  | _, .inScope kind block step, r =>
    (r.Surrounds t block ∧ r.graph.Hosts t r.current kind block) ∧
      (step r.graph.scopes.size).Licit t (r.enter kind block) ∧
      (kind ≠ .function → t.isFunction (some block) = true →
        ((step r.graph.scopes.size).run (r.enter kind block)).2.graph.HasFunctionScope block)

namespace Graph

/-- What licit steps establish of declarations, scopes and uses. -/
structure Lawful (g : Graph) (t : Tree) : Prop where
  owned : ∀ (b : BindingId) (binding : Binding), g.bindings[b]? = some binding →
    (∃ d ∈ binding.definitions, d.kind = .varWord) → g.OwnsVariables binding.scope
  headed : ∀ (b : BindingId) (binding : Binding) (loop : NodeId), g.bindings[b]? = some binding →
    binding.owningLoop = some loop → ∃ d ∈ binding.definitions, t.IsHeadOf d.declaration loop
  nested : ∀ s f p, g.frame? s = some f → f.parent = some p → g.Encloses t p f.block
  made : ∀ (id : ReferenceId) (r : Reference), g.references[id]? = some r →
    g.Encloses t r.scope r.identifier
  spelled : ∀ (id : ReferenceId) (r : Reference), g.references[id]? = some r →
    t.nameText? (some r.identifier) = some r.name ∧ t.startOf r.identifier = r.start
  quiet : ∀ (id : ReferenceId) (r : Reference), g.references[id]? = some r →
    ¬ g.IsNameScope r.scope
  single : ∀ s inner inner', g.IsNameScope s → g.parentOf inner = some s →
    g.parentOf inner' = some s → inner = inner'
  named : ∀ s f fn own, g.frame? s = some f → f.kind = .function →
    t.nodes.shape? f.block = some (.function fn) → fn.form = .expression →
    t.nameText? fn.name = some own → ∃ n, f.parent = some n ∧ g.Names n f.block fn own

variable {g g' : Graph} {t : Tree}

theorem lawful_empty (t : Tree) : (empty t).Lawful t := by
  constructor <;> simp [empty, frame?, parentOf]

theorem OwnsVariables.of_frames {s : ScopeId} (h : g.OwnsVariables s)
    (same : ∀ s f, g.frame? s = some f → g'.frame? s = some f) : g'.OwnsVariables s := by
  obtain ⟨f, found, owns⟩ := h
  exact ⟨f, same s f found, owns⟩

theorem Encloses.of_frame {s : ScopeId} {node : NodeId} (h : g.Encloses t s node)
    (same : g'.frame? s = g.frame? s) : g'.Encloses t s node := by
  unfold Encloses at h ⊢
  rwa [same]

theorem Sound.parent_lt_size (h : g.Sound) {inner outer : ScopeId}
    (above : g.parentOf inner = some outer) : outer < g.scopes.size := by
  obtain ⟨f, found, -⟩ := Option.bind_eq_some_iff.mp (parentOf_eq_bind_frame? g inner ▸ above)
  exact Nat.lt_trans (h.parent_lt inner outer above) (lt_size_of_frame? found)

theorem parentOf_of_frames (frames : ∀ s, g'.frame? s = g.frame? s) (s : ScopeId) :
    g'.parentOf s = g.parentOf s := by
  rw [parentOf_eq_bind_frame?, parentOf_eq_bind_frame?, frames]

theorem isNameScope_congr {s : ScopeId} (same : g'.frame? s = g.frame? s) :
    g'.IsNameScope s ↔ g.IsNameScope s := by
  rw [IsNameScope, IsNameScope, same]

/-- What a scope introduces it goes on to introduce, when bindings keep their first declarations. -/
theorem Introduces.of_bindings {s : ScopeId} {name : String} {d : Definition}
    (h : g.Introduces s name d)
    (declared : ∀ b, g.declared? s name = some b → g'.declared? s name = some b)
    (first : ∀ (b : BindingId) (binding : Binding), g.bindings[b]? = some binding →
      ∃ binding' : Binding, g'.bindings[b]? = some binding' ∧ binding'.first = binding.first) :
    g'.Introduces s name d := by
  obtain ⟨b, binding, known, found, rfl⟩ := h
  obtain ⟨binding', found', same⟩ := first b binding found
  exact ⟨b, binding', declared b known, found', same⟩

theorem Introduces.redeclare {s : ScopeId} {name : String} {d : Definition}
    (h : g.Introduces s name d) (b : BindingId) (definition : Definition) (owningLoop : Child) :
    (g.redeclare b definition owningLoop).Introduces s name d := by
  refine h.of_bindings (fun _ known => known) fun other binding found => ?_
  rw [bindings_redeclare]
  split
  · rename_i same
    rw [← same, found]
    exact ⟨_, rfl, rfl⟩
  · exact ⟨binding, found, rfl⟩

/-- A new binding takes no name from another one where the name is new. -/
theorem Introduces.addBinding {s s' : ScopeId} {name name' : String} {d : Definition}
    (h : g.Introduces s name d) (new : g.declared? s' name' = none) (definition : Definition)
    (owningLoop : Child) : (g.addBinding s' name' definition owningLoop).Introduces s name d := by
  refine h.of_bindings (fun b known => ?_) fun b binding found => ⟨binding, ?_, rfl⟩
  · rw [declared?_addBinding, if_neg, known]
    rintro ⟨rfl, -, rfl⟩
    exact absurd (new.symm.trans known) (by simp)
  · rw [bindings_addBinding, if_neg, found]
    exact Nat.ne_of_lt (Array.getElem?_eq_some_iff.mp found).1

/-- The first declaration of a name in a scope introduces it. -/
theorem introduces_addDefinition {s : ScopeId} (inside : s < g.scopes.size) {name : String}
    (new : g.declared? s name = none) (definition : Definition) (owningLoop : Child) :
    (g.addDefinition s name definition owningLoop).2.Introduces s name definition := by
  rw [addDefinition, if_pos inside, new]
  refine ⟨g.bindings.size, _, ?_, (bindings_addBinding ..).trans (if_pos rfl), rfl⟩
  exact (declared?_addBinding ..).trans (if_pos ⟨rfl, inside, rfl⟩)

theorem Introduces.permit {s : ScopeId} {name : String} {d : Definition} (h : g.Introduces s name d)
    (b : BindingId) (writable : Bool) : (g.permit b writable).Introduces s name d := by
  refine h.of_bindings (fun _ known => known) fun other binding found => ?_
  simp only [Graph.permit, Array.getElem?_modify, found]
  split
  · exact ⟨_, rfl, rfl⟩
  · exact ⟨binding, rfl, rfl⟩

theorem Introduces.nameNode {s : ScopeId} {name : String} {d : Definition}
    (h : g.Introduces s name d) (node : Child) (b : Option BindingId) :
    (g.nameNode node b).Introduces s name d := by
  unfold Graph.nameNode
  split <;> exact h

theorem Names.of_frame {s : ScopeId} {node : NodeId} {f : Syntax.Function} {own : String}
    (h : g.Names s node f own) (same : ∀ s f, g.frame? s = some f → g'.frame? s = some f)
    (introduces : ∀ s name d, g.Introduces s name d → g'.Introduces s name d) :
    g'.Names s node f own := by
  obtain ⟨⟨frame, found, kind⟩, named⟩ := h
  exact ⟨⟨frame, same s frame found, kind⟩, introduces _ _ _ named⟩

/-- A nearest owner owns variables. -/
theorem NearestOwner.ownsVariables {s owner : ScopeId} (h : g.NearestOwner s owner) :
    g.OwnsVariables owner := by
  induction h with
  | itself found owns => exact ⟨_, found, owns⟩
  | outer _ _ _ _ ih => exact ih

theorem Lawful.addScope (h : g.Lawful t) (sound : g.Sound) (kind : ScopeKind) (block : NodeId)
    {parent : Option ScopeId} (inside : ∀ p, parent = some p → p < g.scopes.size)
    (encloses : ∀ p, parent = some p → g.Encloses t p block)
    (hosts : g.Hosts t parent kind block) : (g.addScope kind block parent).Lawful t where
  owned b binding found var := (h.owned b binding found var).of_frames fun _ _ =>
    frame?_addScope_of_some kind block parent
  headed := h.headed
  nested s f p found above := by
    rw [frame?_addScope] at found
    split at found
    · obtain rfl := Option.some.inj found
      refine (encloses p above).of_frame ?_
      rw [frame?_addScope, if_neg (Nat.ne_of_lt (inside p above))]
    · have outer : g.parentOf s = some p := by simpa [parentOf_eq_bind_frame?, found] using above
      have earlier := Nat.lt_trans (sound.parent_lt s p outer) (lt_size_of_frame? found)
      refine (h.nested s f p found above).of_frame ?_
      rw [frame?_addScope, if_neg (Nat.ne_of_lt earlier)]
  made id r made := by
    refine (h.made id r made).of_frame ?_
    rw [frame?_addScope, if_neg (Nat.ne_of_lt (sound.referenced id r made).1)]
  spelled := h.spelled
  quiet id r made := by
    rw [isNameScope_congr]
    · exact h.quiet id r made
    · rw [frame?_addScope, if_neg (Nat.ne_of_lt (sound.referenced id r made).1)]
  single s inner inner' names above above' := by
    have before : s < g.scopes.size := by
      rw [parentOf_addScope] at above
      split at above
      · exact inside s above
      · exact sound.parent_lt_size above
    have names : g.IsNameScope s :=
      (isNameScope_congr (by rw [frame?_addScope, if_neg (Nat.ne_of_lt before)])).mp names
    have only (outer : ScopeId) (is : parent = some s) : g.parentOf outer ≠ some s :=
      hosts.single s is names outer
    rw [parentOf_addScope] at above above'
    split at above <;> split at above'
    · exact ‹inner = _›.trans (Eq.symm ‹inner' = _›)
    · exact absurd above' (only inner' above)
    · exact absurd above (only inner above')
    · exact h.single s inner inner' names above above'
  named s f fn own found function shape form text := by
    have keeps {n : ScopeId} (names : g.Names n f.block fn own) :
        (g.addScope kind block parent).Names n f.block fn own :=
      names.of_frame (fun _ _ => frame?_addScope_of_some kind block parent) fun s name d is =>
        is.of_bindings (fun b known => by simpa using known) fun b binding found =>
          ⟨binding, found, rfl⟩
    rw [frame?_addScope] at found
    split at found
    · obtain rfl := Option.some.inj found
      obtain ⟨n, above, names⟩ := hosts.named fn own function shape form text
      exact ⟨n, above, keeps names⟩
    · obtain ⟨n, above, names⟩ := h.named s f fn own found function shape form text
      exact ⟨n, above, keeps names⟩

/-- A graph with the same scopes and uses, whose declarations are lawful. -/
theorem Lawful.of_bindings (h : g.Lawful t) (frames : ∀ s, g'.frame? s = g.frame? s)
    (references : g'.references = g.references)
    (bindings : ∀ (b : BindingId) (binding : Binding), g'.bindings[b]? = some binding →
      ((∃ d ∈ binding.definitions, d.kind = .varWord) → g.OwnsVariables binding.scope) ∧
      ∀ loop, binding.owningLoop = some loop →
        ∃ d ∈ binding.definitions, t.IsHeadOf d.declaration loop)
    (introduces : ∀ s name d, g.Introduces s name d → g'.Introduces s name d) : g'.Lawful t where
  owned b binding found var := ((bindings b binding found).1 var).of_frames fun s _ is =>
    (frames s).trans is
  headed b binding loop found := (bindings b binding found).2 loop
  nested s f p found above :=
    (h.nested s f p ((frames s).symm.trans found) above).of_frame (frames p)
  made id r made := (h.made id r (references ▸ made)).of_frame (frames r.scope)
  spelled id r made := h.spelled id r (references ▸ made)
  quiet id r made := by
    rw [isNameScope_congr (frames r.scope)]
    exact h.quiet id r (references ▸ made)
  single s inner inner' names above above' := by
    rw [isNameScope_congr (frames s)] at names
    rw [parentOf_of_frames frames] at above above'
    exact h.single s inner inner' names above above'
  named s f fn own found function shape form text := by
    obtain ⟨n, above, names⟩ := h.named s f fn own (frames s ▸ found) function shape form text
    exact ⟨n, above, names.of_frame (fun s _ is => (frames s).trans is) introduces⟩

theorem Lawful.permit (h : g.Lawful t) (b : BindingId) (writable : Bool) :
    (g.permit b writable).Lawful t := by
  refine h.of_bindings (fun _ => rfl) rfl (fun other binding found => ?_) fun s name d is =>
    is.permit b writable
  simp only [Graph.permit, Array.getElem?_modify] at found
  split at found
  · obtain ⟨old, was, rfl⟩ := Option.map_eq_some_iff.mp found
    exact ⟨h.owned other old was, fun loop => h.headed other old loop was⟩
  · exact ⟨h.owned other binding found, fun loop => h.headed other binding loop found⟩

theorem Lawful.nameNode (h : g.Lawful t) (node : Child) (b : Option BindingId) :
    (g.nameNode node b).Lawful t := by
  refine h.of_bindings (by simp) ?_ (fun other binding found => ?_) fun s name d is =>
    is.nameNode node b
  · unfold Graph.nameNode
    split <;> rfl
  · have same : (g.nameNode node b).bindings = g.bindings := by
      unfold Graph.nameNode
      split <;> rfl
    rw [same] at found
    exact ⟨h.owned other binding found, fun loop => h.headed other binding loop found⟩

/-- A lawful declaration may join the declarations of a lawful binding. -/
theorem Lawful.redeclare (h : g.Lawful t) {b : BindingId} {s : ScopeId}
    (home : g.homeOf? b = some s) {definition : Definition} {owningLoop : Child}
    (owned : definition.kind = .varWord → g.OwnsVariables s)
    (headed : ∀ loop, owningLoop = some loop → t.IsHeadOf definition.declaration loop) :
    (g.redeclare b definition owningLoop).Lawful t := by
  refine h.of_bindings (fun _ => rfl) rfl (fun other binding found => ?_) fun s name d is =>
    is.redeclare b definition owningLoop
  rw [bindings_redeclare] at found
  split at found
  · obtain ⟨old, was, rfl⟩ := Option.map_eq_some_iff.mp found
    have scope : old.scope = s := by simpa [homeOf?, was] using home
    refine ⟨?_, fun loop owns => ?_⟩
    · rintro ⟨d, mem, var⟩
      obtain before | rfl : d ∈ old.definitions ∨ d = definition := by
        simpa [Binding.definitions, or_assoc] using mem
      · exact h.owned b old was ⟨d, before, var⟩
      · exact scope ▸ owned var
    · obtain earlier | ⟨-, new⟩ := Option.or_eq_some_iff.mp owns
      · obtain ⟨d, mem, head⟩ := h.headed b old loop was earlier
        exact ⟨d, by grind [Binding.definitions], head⟩
      · exact ⟨definition, by simp [Binding.definitions], headed loop new⟩
  · exact ⟨h.owned other binding found, fun loop => h.headed other binding loop found⟩

theorem Lawful.addBinding (h : g.Lawful t) {s : ScopeId} {name : String}
    (new : g.declared? s name = none) {definition : Definition} {owningLoop : Child}
    (owned : definition.kind = .varWord → g.OwnsVariables s)
    (headed : ∀ loop, owningLoop = some loop → t.IsHeadOf definition.declaration loop) :
    (g.addBinding s name definition owningLoop).Lawful t := by
  refine h.of_bindings (by simp) rfl (fun other binding found => ?_) fun s name d is =>
    is.addBinding new definition owningLoop
  rw [bindings_addBinding] at found
  split at found
  · obtain rfl := Option.some.inj found
    simpa [Binding.definitions] using And.intro owned headed
  · exact ⟨h.owned other binding found, fun loop => h.headed other binding loop found⟩

theorem Lawful.addDefinition (h : g.Lawful t) (consistent : g.Consistent) {s : ScopeId}
    (name : String) {definition : Definition} {owningLoop : Child}
    (owned : definition.kind = .varWord → g.OwnsVariables s)
    (headed : ∀ loop, owningLoop = some loop → t.IsHeadOf definition.declaration loop) :
    (g.addDefinition s name definition owningLoop).2.Lawful t := by
  unfold Graph.addDefinition
  split
  · split
    · rename_i known
      have listed := ((consistent.declared_iff ..).mp known).1
      exact h.redeclare ((consistent.home_iff ..).mp listed) owned headed
    · rename_i new
      exact h.addBinding new owned headed
  · exact h

theorem Lawful.addReference (h : g.Lawful t) {reference : Reference}
    (inside : g.Encloses t reference.scope reference.identifier)
    (spelled : t.nameText? (some reference.identifier) = some reference.name ∧
      t.startOf reference.identifier = reference.start)
    (quiet : ¬ g.IsNameScope reference.scope) :
    (g.addReference reference).Lawful t where
  owned b binding found var := (h.owned b binding found var).of_frames fun _ _ is => by
    simpa using is
  headed := h.headed
  nested s f p found above :=
    (h.nested s f p (by simpa using found) above).of_frame (by simp)
  made id r made := by
    simp only [Graph.addReference, Array.getElem?_push] at made
    split at made
    · obtain rfl := Option.some.inj made
      exact inside.of_frame (by simp)
    · exact (h.made id r made).of_frame (by simp)
  spelled id r made := by
    simp only [Graph.addReference, Array.getElem?_push] at made
    split at made
    · exact Option.some.inj made ▸ spelled
    · exact h.spelled id r made
  quiet id r made := by
    rw [isNameScope_congr (g.frame?_addReference reference r.scope)]
    simp only [Graph.addReference, Array.getElem?_push] at made
    split at made
    · exact Option.some.inj made ▸ quiet
    · exact h.quiet id r made
  single s inner inner' names above above' := by
    rw [isNameScope_congr (g.frame?_addReference reference s)] at names
    rw [parentOf_addReference] at above above'
    exact h.single s inner inner' names above above'
  named s f fn own found function shape form text := by
    obtain ⟨n, above, names⟩ :=
      h.named s f fn own (by simpa using found) function shape form text
    refine ⟨n, above, names.of_frame (fun _ _ is => by simpa using is) fun s name d is => ?_⟩
    exact is.of_bindings (fun b known => by simpa using known) fun b binding found =>
      ⟨binding, found, rfl⟩

end Graph

namespace Recording

theorem nodeScopes_define (r : Recording) (s : ScopeId) (name : String) (definition : Definition)
    (owningLoop : Child) :
    (r.define s name definition owningLoop).2.graph.nodeScopes = r.graph.nodeScopes := by
  simp only [define, Graph.nameNode]
  split <;> exact r.graph.nodeScopes_addDefinition ..

theorem nodeScopes_use (r : Recording) (node : NodeId) (name : String) (start : Text.Offset)
    (usage : Usage) : (r.use node name start usage).graph.nodeScopes = r.graph.nodeScopes := by
  unfold use
  split <;> rfl

end Recording

namespace Record

variable {t : Tree}

theorem surrounds_run {α : Type} (p : Record α) {r : Recording} (sound : r.Sound) (node : NodeId) :
    (p.run r).2.Surrounds t node ↔ r.Surrounds t node := by
  unfold Recording.Surrounds
  rw [(p.grows_run r).current_eq]
  refine forall₂_congr fun s opened => ?_
  rw [Graph.Encloses, p.frame?_run (sound.current s opened), Graph.Encloses]

/-- Licit steps keep a graph lawful. -/
theorem lawful_run {α : Type} (p : Record α) {r : Recording} (consistent : r.Consistent)
    (lawful : r.graph.Lawful t) (licit : p.Licit t r) : (p.run r).2.graph.Lawful t := by
  induction p generalizing r with
  | done a => exact lawful
  | andThen p next ihp ihn =>
    exact ihn _ (p.consistent_run consistent) (ihp consistent lawful licit.1) licit.2
  | observe look => exact lawful
  | define s name definition owningLoop =>
    exact (lawful.addDefinition consistent.graph name licit.1 licit.2).nameNode _ _
  | permit b writable => exact lawful.permit b writable
  | use node name start usage =>
    simp only [run, Recording.use]
    split
    · rename_i opened
      exact lawful.addReference (licit.1.1 _ opened) licit.2 (licit.1.2 _ opened)
    · exact lawful
  | inScope kind block step ih =>
    refine ih _ (consistent.enter kind block) ?_ licit.2.1
    exact lawful.addScope consistent.sound.graph kind block consistent.sound.current licit.1.1
      licit.1.2

theorem size_nodeScopes_run {α : Type} (p : Record α) (r : Recording) :
    (p.run r).2.graph.nodeScopes.size = r.graph.nodeScopes.size := by
  induction p generalizing r with
  | done a => rfl
  | andThen p next ihp ihn => exact (ihn _ _).trans (ihp r)
  | observe look => rfl
  | define s name definition owningLoop =>
    exact congrArg Array.size (r.nodeScopes_define s name definition owningLoop)
  | permit b writable => rfl
  | use node name start usage => exact congrArg Array.size (r.nodeScopes_use node name start usage)
  | inScope kind block step ih => exact (ih _ _).trans (by simp [Recording.enter, Graph.addScope])

/-- The scope of a function is the last that its node opened. -/
theorem hasFunctionScope_enter_function {r : Recording} {node : NodeId}
    (inside : node < r.graph.nodeScopes.size) :
    (r.enter .function node).graph.HasFunctionScope node :=
  ⟨r.graph.scopes.size, _, (Graph.nodeScope?_addScope ..).trans (if_pos ⟨rfl, inside⟩),
    (r.graph.frame?_addScope ..).trans (if_pos rfl), rfl⟩

/-- A scope opened by another node, or that of a function, leaves a node the scope of a function. -/
theorem hasFunctionScope_enter {r : Recording} {node : NodeId} {kind : ScopeKind} {block : NodeId}
    (own : node = block → kind = .function) (h : r.graph.HasFunctionScope node) :
    (r.enter kind block).graph.HasFunctionScope node := by
  obtain ⟨s, f, opened, found, isFunction⟩ := h
  by_cases here : node = block
  · obtain rfl := own here
    exact here ▸ hasFunctionScope_enter_function (Graph.lt_size_of_nodeScope? opened)
  · refine ⟨s, f, ?_, Graph.frame?_addScope_of_some _ _ _ found, isFunction⟩
    exact (Graph.nodeScope?_addScope ..).trans ((if_neg fun is => here is.1).trans opened)

/-- A function that has its own scope keeps it under licit steps. -/
theorem hasFunctionScope_run {α : Type} (p : Record α) {r : Recording} (licit : p.Licit t r)
    {node : NodeId} (isFunction : t.isFunction (some node) = true)
    (h : r.graph.HasFunctionScope node) : (p.run r).2.graph.HasFunctionScope node := by
  induction p generalizing r with
  | done a => exact h
  | andThen p next ihp ihn => exact ihn _ licit.2 (ihp licit.1 h)
  | observe look => exact h
  | define s name definition owningLoop =>
    obtain ⟨own, f, opened, found, kind⟩ := h
    refine ⟨own, f, ?_, by simpa [run] using found, kind⟩
    simpa only [run, Graph.nodeScope?, Recording.nodeScopes_define] using opened
  | permit b writable => exact h
  | use node name start usage =>
    obtain ⟨own, f, opened, found, kind⟩ := h
    refine ⟨own, f, ?_, by simpa [run] using found, kind⟩
    simpa only [run, Graph.nodeScope?, Recording.nodeScopes_use] using opened
  | inScope kind block step ih =>
    by_cases foreign : node = block ∧ kind ≠ .function
    · exact foreign.1 ▸ licit.2.2 foreign.2 (foreign.1 ▸ isFunction)
    · exact ih _ licit.2.1 (hasFunctionScope_enter (by tauto) h)

/-- Under licit steps, a function that has opened a scope has its own scope in the end. -/
theorem hasFunctionScope_run_of_nodeScope? {α : Type} (p : Record α) {r : Recording}
    (licit : p.Licit t r) {node : NodeId} (isFunction : t.isFunction (some node) = true)
    (h : ∀ s, r.graph.nodeScope? (some node) = some s → r.graph.HasFunctionScope node)
    {s : ScopeId} (opened : (p.run r).2.graph.nodeScope? (some node) = some s) :
    (p.run r).2.graph.HasFunctionScope node := by
  induction p generalizing r s with
  | done a => exact h s opened
  | andThen p next ihp ihn =>
    exact ihn _ licit.2 (fun _ before => ihp licit.1 h before) opened
  | observe look => exact h s opened
  | define s' name definition owningLoop =>
    refine hasFunctionScope_run (.define s' name definition owningLoop) licit isFunction (h s ?_)
    simpa only [run, Graph.nodeScope?, Recording.nodeScopes_define] using opened
  | permit b writable => exact h s opened
  | use other name start usage =>
    refine hasFunctionScope_run (.use other name start usage) licit isFunction (h s ?_)
    simpa only [run, Graph.nodeScope?, Recording.nodeScopes_use] using opened
  | inScope kind block step ih =>
    by_cases foreign : node = block ∧ kind ≠ .function
    · exact foreign.1 ▸ licit.2.2 foreign.2 (foreign.1 ▸ isFunction)
    · refine ih _ licit.2.1 (fun s' before => ?_) opened
      simp only [Recording.enter, Graph.nodeScope?_addScope] at before
      split at before
      · rename_i here
        obtain ⟨rfl, inside⟩ := here
        obtain rfl : kind = .function := by tauto
        exact hasFunctionScope_enter_function inside
      · exact hasFunctionScope_enter (by tauto) (h s' before)

end Record
end Scope
end LoopCapture
