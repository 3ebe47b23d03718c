import LoopCapture.Proofs.Scope.Walking

/-!
# One walk in two surroundings

What the settings configure shows in the global scope and nowhere else. Two recordings are alike
when they differ in nothing but the declarations of configured names there. The steps of a walk look
at scopes and never at bindings, so they keep two recordings alike.
-/

namespace LoopCapture.Scope
open Syntax (Child Function NodeId Shape Signature Tree)

namespace Graph

variable {g g' : Graph} {configured : String → Prop}

/-- The declarations of a name in a scope, in their order. -/
def definitionsAt (g : Graph) (s : ScopeId) (name : String) : Option (List Definition) :=
  (g.declared? s name).bind fun b => g.bindings[b]?.map (·.definitions)

/-- A binding is what one name in one scope stands for. -/
theorem Consistent.declared?_inj (h : g.Consistent) {s s' : ScopeId} {name name' : String}
    {b : BindingId} (known : g.declared? s name = some b) (known' : g.declared? s' name' = some b) :
    s' = s ∧ name' = name := by
  obtain ⟨listed, named⟩ := (h.declared_iff s name b).mp known
  obtain ⟨listed', named'⟩ := (h.declared_iff s' name' b).mp known'
  have home := ((h.home_iff s b).mp listed).symm.trans ((h.home_iff s' b).mp listed')
  exact ⟨(Option.some.inj home).symm, (Option.some.inj (named.symm.trans named')).symm⟩

@[simp] theorem definitionsAt_addScope (kind : ScopeKind) (block : NodeId)
    (parent : Option ScopeId) (s : ScopeId) (name : String) :
    (g.addScope kind block parent).definitionsAt s name = g.definitionsAt s name := by
  rw [definitionsAt, declared?_addScope]
  rfl

@[simp] theorem definitionsAt_nameNode (node : Child) (b : Option BindingId) (s : ScopeId)
    (name : String) : (g.nameNode node b).definitionsAt s name = g.definitionsAt s name := by
  unfold nameNode
  split <;> rfl

@[simp] theorem definitionsAt_addReference (reference : Reference) (s : ScopeId) (name : String) :
    (g.addReference reference).definitionsAt s name = g.definitionsAt s name := by
  rw [definitionsAt, declared?_addReference]
  rfl

@[simp] theorem definitionsAt_permit (b : BindingId) (writable : Bool) (s : ScopeId)
    (name : String) : (g.permit b writable).definitionsAt s name = g.definitionsAt s name := by
  have same (other : BindingId) : (g.permit b writable).bindings[other]?.map (·.definitions) =
      g.bindings[other]?.map (·.definitions) := by
    simp only [permit, Array.getElem?_modify]
    split
    · rw [Option.map_map]
      rfl
    · rfl
  simp only [definitionsAt, same]
  rfl

/-- A declaration comes after those of its name in its scope, and others stay as they are. -/
theorem definitionsAt_addDefinition (h : g.Consistent) (sound : g.Sound) (s : ScopeId)
    (name : String) (definition : Definition) (owningLoop : Child) (outer : ScopeId)
    (other : String) :
    (g.addDefinition s name definition owningLoop).2.definitionsAt outer other =
      if outer = s ∧ other = name ∧ s < g.scopes.size then
        some ((g.definitionsAt s name).getD [] ++ [definition])
      else g.definitionsAt outer other := by
  unfold addDefinition
  split
  · rename_i inside
    split
    · rename_i b known
      obtain ⟨binding, found, -⟩ := sound.declared s name b known
      by_cases here : outer = s ∧ other = name
      · obtain ⟨rfl, rfl⟩ := here
        have joined : (g.redeclare b definition owningLoop).declared? outer other = some b := known
        simp [definitionsAt, joined, known, bindings_redeclare, found, inside, Binding.definitions]
      · rw [if_neg (fun is => here ⟨is.1, is.2.1⟩)]
        have same : (g.redeclare b definition owningLoop).declared? outer other =
          g.declared? outer other := rfl
        simp only [definitionsAt, same]
        refine Option.bind_congr fun b' known' => ?_
        have distinct : b' ≠ b := fun is => here (h.declared?_inj known (is ▸ known'))
        rw [bindings_redeclare, if_neg distinct]
    · rename_i free
      simp only [definitionsAt, declared?_addBinding]
      by_cases here : outer = s ∧ other = name
      · obtain ⟨rfl, rfl⟩ := here
        simp [inside, free, bindings_addBinding, Binding.definitions]
      · rw [if_neg (fun is => here ⟨is.1, is.2.2⟩), if_neg (fun is => here ⟨is.1, is.2.1⟩)]
        refine Option.bind_congr fun b' known' => ?_
        obtain ⟨binding, found, -⟩ := sound.declared _ _ _ known'
        have old := (Array.getElem?_eq_some_iff.mp found).1
        rw [bindings_addBinding, if_neg (Nat.ne_of_lt old)]
  · rename_i outside
    rw [if_neg fun is => outside is.2.2]

/-- The graphs agree in all but the declarations of configured names in the global scope. In the
second graph these names are configured globals first. -/
structure Alike (configured : String → Prop) (g g' : Graph) : Prop where
  frames : ∀ s, g'.frame? s = g.frame? s
  nodeScopes : g'.nodeScopes = g.nodeScopes
  references : g'.references = g.references
  definitions : ∀ s name, s ≠ 0 ∨ ¬ configured name →
    g'.definitionsAt s name = g.definitionsAt s name
  implicit : ∀ name, configured name → ∃ d rest, g'.definitionsAt 0 name = some (d :: rest) ∧
    d.kind = .implicitGlobal

theorem size_eq_of_frames (h : ∀ s, g'.frame? s = g.frame? s) :
    g'.scopes.size = g.scopes.size := by
  have known (g : Graph) (s : ScopeId) : (g.frame? s).isSome = true ↔ s < g.scopes.size := by
    simp [frame?]
  refine Nat.le_antisymm (Nat.le_of_not_lt fun lt => ?_) (Nat.le_of_not_lt fun lt => ?_)
  · exact absurd ((known g _).mp (h _ ▸ (known g' _).mpr lt)) (Nat.lt_irrefl _)
  · exact absurd ((known g' _).mp ((h _).symm ▸ (known g _).mpr lt)) (Nat.lt_irrefl _)

namespace Alike

variable (h : g.Alike configured g')

include h

theorem size_eq : g'.scopes.size = g.scopes.size := size_eq_of_frames h.frames

theorem parentOf_eq (s : ScopeId) : g'.parentOf s = g.parentOf s := by
  rw [parentOf_eq_bind_frame?, h.frames, parentOf_eq_bind_frame?]

theorem variableScope?_eq (s : ScopeId) : g'.variableScope? s = g.variableScope? s := by
  rw [variableScope?_eq_map_frame?, h.frames, variableScope?_eq_map_frame?]

theorem addScope (kind : ScopeKind) (block : NodeId) (parent : Option ScopeId) :
    (g.addScope kind block parent).Alike configured (g'.addScope kind block parent) where
  frames s := by
    have owner : g'.ownerFor kind parent = g.ownerFor kind parent := by
      simp only [ownerFor, h.size_eq, funext h.variableScope?_eq]
    rw [frame?_addScope, frame?_addScope, h.size_eq, h.frames, owner]
  nodeScopes := by simp [Graph.addScope, h.nodeScopes, h.size_eq]
  references := h.references
  definitions s name other := by simpa using h.definitions s name other
  implicit name is := by simpa using h.implicit name is

theorem addDefinition (consistent : g.Consistent) (sound : g.Sound) (consistent' : g'.Consistent)
    (sound' : g'.Sound) (s : ScopeId) (name : String) (definition : Definition)
    (owningLoop : Child) :
    (g.addDefinition s name definition owningLoop).2.Alike configured
      (g'.addDefinition s name definition owningLoop).2 where
  frames := by simpa using h.frames
  nodeScopes := by simpa only [nodeScopes_addDefinition] using h.nodeScopes
  references := by simpa only [references_addDefinition] using h.references
  definitions outer other free := by
    rw [definitionsAt_addDefinition consistent sound,
      definitionsAt_addDefinition consistent' sound', h.size_eq, h.definitions outer other free]
    by_cases here : outer = s ∧ other = name ∧ s < g.scopes.size
    · obtain ⟨rfl, rfl, -⟩ := here
      rw [h.definitions outer other free]
    · rw [if_neg here, if_neg here]
  implicit other is := by
    obtain ⟨d, rest, first, kind⟩ := h.implicit other is
    rw [definitionsAt_addDefinition consistent' sound']
    split
    · rename_i here
      obtain ⟨rfl, rfl, -⟩ := here
      exact ⟨d, rest ++ [definition], by simp [first], kind⟩
    · exact ⟨d, rest, first, kind⟩

theorem nameNode (node : Child) (b b' : Option BindingId) :
    (g.nameNode node b).Alike configured (g'.nameNode node b') where
  frames := by simpa using h.frames
  nodeScopes := by
    unfold Graph.nameNode
    split <;> split <;> exact h.nodeScopes
  references := by
    unfold Graph.nameNode
    split <;> split <;> exact h.references
  definitions := by simpa using h.definitions
  implicit := by simpa using h.implicit

theorem addReference (reference : Reference) :
    (g.addReference reference).Alike configured (g'.addReference reference) where
  frames := by simpa using h.frames
  nodeScopes := h.nodeScopes
  references := congrArg (·.push reference) h.references
  definitions := by simpa using h.definitions
  implicit := by simpa using h.implicit

end Alike
end Graph

/-- Consistent recordings with alike graphs and the same scope open. -/
structure Recording.Alike (configured : String → Prop) (r r' : Recording) : Prop where
  graph : r.graph.Alike configured r'.graph
  current : r'.current = r.current
  consistent : r.Consistent
  consistent' : r'.Consistent

/-- A program that cannot tell alike recordings apart: it has one result and keeps them alike. -/
class Record.Steady {α : Type} (p : Record α) : Prop where
  result : ∀ {configured r r'}, Recording.Alike configured r r' → (p.run r').1 = (p.run r).1
  graph : ∀ {configured r r'}, Recording.Alike configured r r' →
    (p.run r).2.graph.Alike configured (p.run r').2.graph

namespace Record.Steady

variable {α β : Type} {configured : String → Prop} {r r' : Recording}

theorem alike (p : Record α) [Steady p] (h : r.Alike configured r') :
    (p.run r).2.Alike configured (p.run r').2 where
  graph := graph h
  current := by rw [(p.grows_run r).current_eq, (p.grows_run r').current_eq, h.current]
  consistent := p.consistent_run h.consistent
  consistent' := p.consistent_run h.consistent'

instance (a : α) : Steady (pure a : Record α) := ⟨fun _ => rfl, fun h => h.graph⟩

instance {p : Record α} {next : α → Record β} [Steady p] [h : ∀ a, Steady (next a)] :
    Steady (p >>= next) where
  result is := by
    change ((next (p.run _).1).run (p.run _).2).1 = ((next (p.run _).1).run (p.run _).2).1
    rw [Steady.result is]
    exact (h _).result (alike p is)
  graph is := by
    change Graph.Alike _ ((next (p.run _).1).run (p.run _).2).2.graph
      ((next (p.run _).1).run (p.run _).2).2.graph
    rw [Steady.result is]
    exact (h _).graph (alike p is)

instance {c : Prop} [Decidable c] {p q : Record α} [Steady p] [Steady q] :
    Steady (if c then p else q) := by
  split <;> infer_instance

instance {p : Record α} [h : Steady p] : Steady (discard p) := ⟨fun _ => rfl, h.graph⟩

instance {l : List α} {f : α → Record Unit} [h : ∀ a, Steady (f a)] : Steady (l.forM f) := by
  induction l with
  | nil => exact inferInstanceAs (Steady (pure ()))
  | cons a l ih => exact inferInstanceAs (Steady (f a >>= fun _ => l.forM f))

instance {child : Option α} {f : α → Record Unit} [h : ∀ a, Steady (f a)] :
    Steady (child.forM f) := by
  cases child with
  | none => exact inferInstanceAs (Steady (pure ()))
  | some a => exact h a

/-- Which binding a declaration makes differs, so the result may not be looked at. -/
instance (s : ScopeId) (name : String) (definition : Definition) (owningLoop : Child) :
    Steady (discard (Record.define s name definition owningLoop)) where
  result _ := rfl
  graph h := (h.graph.addDefinition h.consistent.graph h.consistent.sound.graph
    h.consistent'.graph h.consistent'.sound.graph s name definition owningLoop).nameNode ..

instance (node : NodeId) (name : String) (start : Text.Offset) (usage : Usage) :
    Steady (Record.use node name start usage) where
  result _ := rfl
  graph h := by
    simp only [Record.run, Recording.use, h.current]
    split
    · exact h.graph.addReference _
    · exact h.graph

instance {kind : ScopeKind} {block : NodeId} {step : ScopeId → Record Unit}
    [h : ∀ s, Steady (step s)] : Steady (inScope kind block step) where
  result _ := rfl
  graph {configured r r'} is := by
    have entered : (r.enter kind block).Alike configured (r'.enter kind block) := by
      refine ⟨?_, congrArg some is.graph.size_eq, is.consistent.enter kind block,
        is.consistent'.enter kind block⟩
      simpa only [Recording.enter, is.current] using is.graph.addScope kind block r.current
    change Graph.Alike configured
      ((step r.graph.scopes.size).run (r.enter kind block)).2.graph
      ((step r'.graph.scopes.size).run (r'.enter kind block)).2.graph
    rw [is.graph.size_eq]
    exact (h _).graph entered

instance : Steady openScope := ⟨fun h => h.current, fun h => h.graph⟩

instance : Steady (.observe fun r => r.current.bind r.graph.variableScope?) where
  result h := by simp only [Record.run, h.current, funext h.graph.variableScope?_eq]
  graph h := h.graph

end Record.Steady

section Routines

variable {t : Tree} {walk : Walker} [∀ position node, (walk position node).Steady]

instance (s : Option ScopeId) (name : Child) (kind : DeclarationKind) (declaration : NodeId)
    (owningLoop : Child) : (declare t s name kind declaration owningLoop).Steady := by
  unfold declare
  split <;> infer_instance

instance (s : ScopeId) (block : NodeId) (name : String) (kind : DeclarationKind) :
    (discard (declareImplicit s block name kind)).Steady :=
  inferInstanceAs (Record.Steady (discard (.define ..)))

instance (node : NodeId) (usage : Usage) : (refer t node usage).Steady := by
  unfold refer
  split <;> infer_instance

instance (node : NodeId) (usage : Usage) (n : Nat) : (referTimes t node usage n).Steady := by
  induction n with
  | zero => exact inferInstanceAs (Record.Steady (pure ()))
  | succ n ih => exact inferInstanceAs (Record.Steady (refer t node usage >>= fun _ => _))

instance (node : Child) : (value walk node).Steady :=
  inferInstanceAs (Record.Steady (Option.forM ..))

instance (node : Child) : (type walk node).Steady :=
  inferInstanceAs (Record.Steady (Option.forM ..))

instance (nodes : List NodeId) : (values walk nodes).Steady :=
  inferInstanceAs (Record.Steady (List.forM ..))

instance (nodes : List NodeId) : (types walk nodes).Steady :=
  inferInstanceAs (Record.Steady (List.forM ..))

instance (parts : PatternParts) : (patternRest walk parts).Steady := by
  unfold patternRest
  infer_instance

instance (pattern : Child) (s : Option ScopeId) (kind : DeclarationKind) (declaration : NodeId)
    (owningLoop : Child) (isInitialized : Bool) :
    (declarePattern t walk pattern s kind declaration owningLoop isInitialized).Steady := by
  unfold declarePattern
  infer_instance

instance (pattern : Child) (usage : Usage) : (assignPattern t walk pattern usage).Steady := by
  unfold assignPattern
  infer_instance

instance (target : Child) : (updateTarget t walk target).Steady := by
  unfold updateTarget
  infer_instance

instance (s : ScopeId) (params : List NodeId) : (declareTypeParameters t walk s params).Steady := by
  unfold declareTypeParameters
  have each (param : NodeId) : (match t.nodes.shape? param with
      | some (.typeParameter name constraint default) => do
        declare t (some s) name .typeParameter param
        type walk constraint
        type walk default
      | _ => pure () : Record Unit).Steady := by split <;> infer_instance
  infer_instance

instance (params : List NodeId) : (signatureParams t walk params).Steady := by
  unfold signatureParams
  have each (param : NodeId) : (match t.nodes.shape? param with
      | some (.parameter _ _ annotated) => type walk annotated
      | _ => pure () : Record Unit).Steady := by split <;> infer_instance
  infer_instance

instance (key : Child) : (signatureKey t walk key).Steady := by
  unfold signatureKey
  split <;> infer_instance

instance (s : Signature) : (walkSignature t walk s).Steady := by
  unfold walkSignature
  infer_instance

instance (node : NodeId) : (typeStep t walk node).Steady := by
  unfold typeStep
  split
  · infer_instance
  · split
    case h_4 => split <;> (try split) <;> infer_instance
    case h_12 => split <;> infer_instance
    all_goals infer_instance

instance (node : NodeId) (word : Syntax.DeclarationWord) (declarators : List NodeId) :
    (variableDeclaration t walk node word declarators).Steady := by
  unfold variableDeclaration
  have each (s : Option ScopeId) (declarator : NodeId) : (match t.nodes.shape? declarator with
      | some (.variableDeclarator target annotated init) => do
        declarePattern t walk target s (wordKind word) node (owningLoop? t node) init.isSome
        type walk annotated
        value walk init
      | _ => pure () : Record Unit).Steady := by split <;> infer_instance
  infer_instance

instance (lexical : Bool) (loop : NodeId) (step : Record Unit) [step.Steady] :
    (inHeadScope lexical loop step).Steady := by
  unfold inHeadScope
  infer_instance

instance (declarators : List NodeId) : (assignHead t declarators).Steady := by
  unfold assignHead
  split <;> infer_instance

instance (node : NodeId) (left right body : Child) :
    (walkForEach t walk node left right body).Steady := by
  have inside : (do
      match left, t.shape? left with
      | some declaration, some (.variableDeclaration word declarators) => do
        variableDeclaration t walk declaration word declarators
        assignHead t declarators
      | _, _ => assignPattern t walk left .writing
      value walk right
      value walk body : Record Unit).Steady := by
    extract_lets rest
    split <;> infer_instance
  unfold walkForEach
  infer_instance

instance (node : NodeId) (init test update body : Child) :
    (walkFor t walk node init test update body).Steady := by
  unfold walkFor
  infer_instance

instance (node : NodeId) (f : Function) : (walkFunctionScope t walk node f).Steady := by
  have body : (match t.shape? f.body with
      | some (.block statements) => values walk statements
      | _ => value walk f.body : Record Unit).Steady := by split <;> infer_instance
  unfold walkFunctionScope
  infer_instance

instance (node : NodeId) (f : Function) : (walkFunction t walk node f).Steady := by
  unfold walkFunction
  infer_instance

instance (node : NodeId) (c : Syntax.Class) : (walkClass t walk node c).Steady := by
  unfold walkClass
  have inside (s : ScopeId) : (do
      declare t (some s) c.name .className node
      declareTypeParameters t walk s c.typeParameters
      value walk c.superClass
      types walk c.implements
      values walk c.members : Record Unit).Steady := by infer_instance
  infer_instance

instance (key : Child) (computed : Bool) (annotated init : Child) :
    (walkField walk key computed annotated init).Steady := by
  unfold walkField
  infer_instance

instance (node : NodeId) (specifiers : List NodeId) : (walkImport t node specifiers).Steady := by
  unfold walkImport
  have each (s : Option ScopeId) (specifier : NodeId) : (match t.nodes.shape? specifier with
      | some (.importSpecifier _ _ target _) => declare t s target .imported node
      | _ => pure () : Record Unit).Steady := by split <;> infer_instance
  infer_instance

instance (declaration : Child) (specifiers : List NodeId) (source : Child) :
    (walkExport t walk declaration specifiers source).Steady := by
  unfold walkExport
  have each (specifier : NodeId) : (match t.nodes.shape? specifier with
      | some (.exportSpecifier target _) => value walk target
      | _ => pure () : Record Unit).Steady := by split <;> infer_instance
  infer_instance

instance (node : NodeId) (discriminant : Child) (cases : List NodeId) :
    (walkSwitch t walk node discriminant cases).Steady := by
  unfold walkSwitch
  have each (case : NodeId) : (match t.nodes.shape? case with
      | some (.switchCase test consequent) => do
        value walk test
        values walk consequent
      | _ => pure () : Record Unit).Steady := by split <;> infer_instance
  infer_instance

instance (node : NodeId) (param annotated body : Child) :
    (walkCatch t walk node param annotated body).Steady := by
  unfold walkCatch
  infer_instance

instance (node : NodeId) (name : Child) (members : List NodeId) :
    (walkEnum t walk node name members).Steady := by
  unfold walkEnum
  have each (member : NodeId) : (match t.nodes.shape? member with
      | some (.enumMember _ initializer) => value walk initializer
      | _ => pure () : Record Unit).Steady := by split <;> infer_instance
  infer_instance

instance (operator : Token.Kind) (left right : Child) :
    (walkAssignment t walk operator left right).Steady := by
  unfold walkAssignment
  infer_instance

instance (node : NodeId) : (valueStep t walk node).Steady := by
  unfold valueStep
  split
  · infer_instance
  · split <;> infer_instance

end Routines

instance steady_walkUpTo (t : Tree) (n : Nat) (position : Position) (node : NodeId) :
    (walkUpTo t n position node).Steady := by
  induction n generalizing position node with
  | zero => exact inferInstanceAs (Record.Steady (pure ()))
  | succ n ih =>
    cases position with
    | value => exact inferInstanceAs (valueStep t (walkUpTo t n) node).Steady
    | type => exact inferInstanceAs (typeStep t (walkUpTo t n) node).Steady

/-- The name is configured, and its access is not off. -/
def Globals.Enables (globals : Globals) (name : String) : Prop :=
  ∃ access, (name, access) ∈ globals ∧ access ≠ .off

namespace Graph

variable {g g' g'' : Graph} {configured configured' : String → Prop}

theorem Alike.refl (g : Graph) : g.Alike (fun _ => False) g where
  frames _ := rfl
  nodeScopes := rfl
  references := rfl
  definitions _ _ _ := rfl
  implicit _ none := none.elim

/-- Only the names that are configured count. -/
theorem Alike.congr (h : g.Alike configured g')
    (same : ∀ name, configured' name ↔ configured name) :
    g.Alike configured' g' := by
  rwa [funext fun name => propext (same name)]

/-- Two graphs made from one, the second with more names configured. -/
theorem Alike.widen (h : g.Alike configured g') (h' : g.Alike configured' g'')
    (more : ∀ name, configured name → configured' name) : g'.Alike configured' g'' where
  frames s := (h'.frames s).trans (h.frames s).symm
  nodeScopes := h'.nodeScopes.trans h.nodeScopes.symm
  references := h'.references.trans h.references.symm
  definitions s name other := by
    rw [h'.definitions s name other, h.definitions s name
      (other.imp_right fun no is => no (more _ is))]
  implicit := h'.implicit

theorem Alike.permit (h : g.Alike configured g') (b : BindingId) (writable : Bool) :
    g.Alike configured (g'.permit b writable) where
  frames := h.frames
  nodeScopes := h.nodeScopes
  references := h.references
  definitions := by simpa using h.definitions
  implicit := by simpa using h.implicit

/-- One more name is configured, where nothing was declared before. -/
theorem Alike.configure (h : g.Alike configured g')
    (clear : ∀ name, g.definitionsAt 0 name = none) (consistent : g'.Consistent) (sound : g'.Sound)
    (begun : 0 < g'.scopes.size) (name : String) (definition : Definition) (owningLoop : Child)
    (kind : definition.kind = .implicitGlobal) :
    g.Alike (fun other => other = name ∨ configured other)
      (g'.addDefinition 0 name definition owningLoop).2 where
  frames := by simpa using h.frames
  nodeScopes := by simpa using h.nodeScopes
  references := by simpa using h.references
  definitions s other free := by
    rw [definitionsAt_addDefinition consistent sound, if_neg (by tauto)]
    exact h.definitions s other (by tauto)
  implicit other is := by
    rw [definitionsAt_addDefinition consistent sound]
    by_cases already : configured other
    · obtain ⟨d, rest, first, implicit⟩ := h.implicit other already
      split
      · rename_i here
        obtain ⟨-, rfl, -⟩ := here
        exact ⟨d, rest ++ [definition], by simp [first], implicit⟩
      · exact ⟨d, rest, first, implicit⟩
    · obtain rfl := is.resolve_right already
      have none : g'.definitionsAt 0 other = none :=
        (h.definitions 0 other (.inr already)).trans (clear other)
      exact ⟨definition, [], by simp [none, begun], kind⟩

end Graph

def declareGlobal (t : Tree) (name : String) (access : GlobalAccess) : Record Unit := do
  let b ← declareImplicit 0 t.root name .implicitGlobal
  b.forM (Record.permit · (access = .writable))

theorem alike_declareGlobal {g : Graph} (t : Tree) (clear : ∀ name, g.definitionsAt 0 name = none)
    (name : String) (access : GlobalAccess) {configured : String → Prop} {r : Recording}
    (consistent : r.Consistent) (h : g.Alike configured r.graph)
    (begun : 0 < r.graph.scopes.size) :
    g.Alike (fun other => other = name ∨ configured other)
      ((declareGlobal t name access).run r).2.graph := by
  have declared := h.configure clear consistent.graph consistent.sound.graph begun name
    ⟨.implicitGlobal, none, t.root⟩ none rfl
  change Graph.Alike _ g ((Option.forM
    (r.graph.addDefinition 0 name ⟨.implicitGlobal, none, t.root⟩ none).1
    (Record.permit · (access = .writable))).run _).2.graph
  cases (r.graph.addDefinition 0 name ⟨.implicitGlobal, none, t.root⟩ none).1 with
  | none => exact declared
  | some b => exact declared.permit b _

theorem run_declareGlobals_cons (t : Tree) (name : String) (access : GlobalAccess)
    (rest : Globals) (r : Recording) :
    (declareGlobals t 0 ((name, access) :: rest)).run r =
      (declareGlobals t 0 rest).run
        (if access = .off then r else ((declareGlobal t name access).run r).2) := by
  by_cases off : access = .off
  · simp [declareGlobals, off, Record.run, Bind.bind, Pure.pure]
  · simp [declareGlobals, declareGlobal, off, Record.run, Bind.bind]

theorem enables_cons {name other : String} {access : GlobalAccess} {rest : Globals} :
    Globals.Enables ((name, access) :: rest) other ↔
      (other = name ∧ access ≠ .off) ∨ rest.Enables other := by
  constructor
  · rintro ⟨held, mem, on⟩
    rcases List.mem_cons.mp mem with same | mem
    · cases same
      exact .inl ⟨rfl, on⟩
    · exact .inr ⟨held, mem, on⟩
  · rintro (⟨rfl, on⟩ | ⟨held, mem, on⟩)
    · exact ⟨access, List.mem_cons_self, on⟩
    · exact ⟨held, List.mem_cons_of_mem _ mem, on⟩

/-- Declaring the configured globals changes nothing but the declarations of their names. -/
theorem alike_declareGlobals {g : Graph} (t : Tree) (clear : ∀ name, g.definitionsAt 0 name = none)
    (globals : Globals) {configured : String → Prop} {r : Recording} (consistent : r.Consistent)
    (h : g.Alike configured r.graph) (begun : 0 < r.graph.scopes.size) :
    g.Alike (fun name => configured name ∨ globals.Enables name)
      ((declareGlobals t 0 globals).run r).2.graph := by
  induction globals generalizing configured r with
  | nil => exact h.congr fun name => by simp [Globals.Enables]
  | cons first rest ih =>
    obtain ⟨name, access⟩ := first
    rw [run_declareGlobals_cons]
    by_cases off : access = .off
    · rw [if_pos off]
      refine (ih consistent h begun).congr fun other => ?_
      rw [enables_cons]
      tauto
    · rw [if_neg off]
      have one := alike_declareGlobal t clear name access consistent h begun
      have grows := (declareGlobal t name access).grows_run r
      have after := (declareGlobal t name access).consistent_run consistent
      refine (ih after one (Nat.lt_of_lt_of_le begun grows.size_le)).congr fun other => ?_
      rw [enables_cons]
      tauto

/-- With more globals configured, a walk leaves a graph that is alike. -/
theorem alike_walkTree (t : Tree) (sourceType : SourceType) {globals globals' : Globals}
    (more : ∀ name, globals.Enables name → globals'.Enables name) :
    ((walkTree t ⟨sourceType, globals⟩).run { graph := .empty t }).2.graph.Alike globals'.Enables
      ((walkTree t ⟨sourceType, globals'⟩).run { graph := .empty t }).2.graph := by
  have begun := (Recording.ready_begun t).consistent
  have size : 0 < (Recording.begun t).graph.scopes.size := by
    simp [Recording.begun, Recording.enter]
  have clear (name : String) : (Recording.begun t).graph.definitionsAt 0 name = none :=
    (Graph.definitionsAt_addScope ..).trans
      (by simp [Graph.definitionsAt, Graph.declared?, Graph.empty])
  have configured (globals : Globals) : (Recording.begun t).graph.Alike globals.Enables
      ((declareGlobals t 0 globals).run (.begun t)).2.graph :=
    (alike_declareGlobals t clear globals begun (.refl _) size).congr (by simp)
  have declared : ((declareGlobals t 0 globals).run (.begun t)).2.Alike globals'.Enables
      ((declareGlobals t 0 globals').run (.begun t)).2 := by
    refine ⟨(configured globals).widen (configured globals') more, ?_,
      Record.consistent_run _ begun, Record.consistent_run _ begun⟩
    rw [(Record.grows_run _ _).current_eq, (Record.grows_run _ _).current_eq]
  have steady : (walkText t sourceType).Steady := by
    cases sourceType with
    | script => exact steady_walkUpTo ..
    | module => exact inferInstanceAs (Record.Steady (inScope ..))
  exact steady.graph declared

end LoopCapture.Scope
