import LoopCapture.Proofs.Scope.Walking
import LoopCapture.Proofs.Syntax.Places

/-!
# What a walk covers

A walk covers a node when every function that is part of the node comes to have a scope, but for the
few parts that a walk overlooks. Each routine covers the places of its node when the walker covers
what it is called at, whatever the recording is from which it is run.
-/

namespace LoopCapture
open Syntax (Child NodeId Shape Tree Places Role standing)

/-- The parameters of a signature or function type. -/
def Syntax.Shape.signatureParams : Shape → List NodeId
  | .functionType s | .callSignature s | .methodSignature s => s.params
  | .indexSignature params _ => params
  | _ => []

/-- The parts that a walk overlooks: the names of the members of an enumeration, what the parameters
of a signature assign, and what an import refers to. -/
inductive Syntax.Tree.Overlooks (t : Tree) : NodeId → Prop where
  | memberName {x member : NodeId} {initializer : Child} :
    t.nodes.shape? member = some (.enumMember (some x) initializer) → Overlooks t x
  | target {x param y : NodeId} {shape : Shape} {isOptional : Bool} {annotated : Child} :
    t.nodes.shape? y = some shape → param ∈ shape.signatureParams →
    t.nodes.shape? param = some (.parameter (some x) isOptional annotated) → Overlooks t x
  | imported {x y : NodeId} {specifiers : List NodeId} {typeOnly : Bool} :
    t.nodes.shape? y = some (.importDeclaration specifiers (some x) typeOnly) → Overlooks t x

/-- A function stands as no name. -/
theorem Syntax.Tree.not_hasRole_name_of_isFunction {t : Tree} {x : NodeId}
    (isFunction : t.isFunction (some x) = true) : ¬ t.nodes.HasRole x .name := by
  rintro ⟨shape, is, admits⟩
  obtain ⟨f, is'⟩ := Tree.isFunction_iff.mp isFunction
  obtain rfl := Option.some.inj (is.symm.trans is')
  simp [Role.admits, Shape.role] at admits

/-- The roles of the parts that a walker is called at. -/
def Syntax.Role.isWalked : Role → Bool
  | .part | .typeParameter => true
  | _ => false

namespace Scope

/-- Every function that is part of the node has a scope or is part of what is overlooked. -/
def Graph.Covers (g : Graph) (t : Tree) (x : NodeId) : Prop :=
  ∀ z, t.nodes.PartOf z x → t.isFunction (some z) = true →
    (∃ y, t.Overlooks y ∧ t.nodes.PartOf z y) ∨ (g.nodeScope? (some z)).isSome = true

variable {t : Tree} {g g' : Graph} {x node : NodeId}

namespace Graph

theorem covers_of_overlooks (h : t.Overlooks x) : g.Covers t x :=
  fun _ part _ => .inl ⟨x, h, part⟩

/-- A node is covered when it has a scope, if it is a function, and its places are covered. -/
theorem covers_of_houses
    (own : t.isFunction (some x) = true → (g.nodeScope? (some x)).isSome = true)
    (parts : ∀ y, t.nodes.Houses x y → g.Covers t y) : g.Covers t x := by
  intro z part isFunction
  obtain rfl | ⟨y, part, houses⟩ := Relation.ReflTransGen.cases_tail part
  · exact .inr (own isFunction)
  · exact parts y houses z part isFunction

theorem covers_of_name (h : t.nodes.HasRole x .name) : g.Covers t x :=
  covers_of_houses (fun isFunction => absurd h (Tree.not_hasRole_name_of_isFunction isFunction))
    fun _ houses => absurd h (Syntax.NodeTable.not_hasRole_name_of_houses houses)

theorem isSome_nodeScope?_addScope {kind : ScopeKind} {block : NodeId} {parent : Option ScopeId}
    (h : (g.nodeScope? (some x)).isSome = true) :
    ((g.addScope kind block parent).nodeScope? (some x)).isSome = true := by
  rw [nodeScope?_addScope]
  split
  · rfl
  · exact h

end Graph

theorem Record.isSome_nodeScope?_run {α : Type} (p : Record α) {r : Recording}
    (h : (r.graph.nodeScope? (some x)).isSome = true) :
    ((p.run r).2.graph.nodeScope? (some x)).isSome = true := by
  induction p generalizing r with
  | done a => exact h
  | andThen p next ihp ihn => exact ihn _ (ihp h)
  | observe look => exact h
  | define s name definition owningLoop =>
    simpa only [run, Graph.nodeScope?, Recording.nodeScopes_define] using h
  | permit b writable => exact h
  | use other name start usage =>
    simpa only [run, Graph.nodeScope?, Recording.nodeScopes_use] using h
  | inScope kind block step ih => exact ih _ (Graph.isSome_nodeScope?_addScope h)

theorem Graph.Covers.run {α : Type} {r : Recording} (h : r.graph.Covers t x) (p : Record α) :
    (p.run r).2.graph.Covers t x :=
  fun z part isFunction => (h z part isFunction).imp_right p.isSome_nodeScope?_run

/-- From whatever recording of the tree a step is run, it leaves covered what may stand in the
places and precedes the bound. -/
def Record.Covers {α : Type} (t : Tree) (bound : Nat) (p : Record α) (places : Places) : Prop :=
  ∀ r : Recording, r.graph.nodeScopes.size = t.nodes.size → ∀ x asked, (x, asked) ∈ places →
    x < bound → t.nodes.HasRole x asked → (p.run r).2.graph.Covers t x

/-- From whatever recording of the tree a step is run, it leaves the node with a scope. -/
def Record.Scopes {α : Type} (t : Tree) (p : Record α) (node : NodeId) : Prop :=
  ∀ r : Recording, r.graph.nodeScopes.size = t.nodes.size →
    ((p.run r).2.graph.nodeScope? (some node)).isSome = true

section Rules

variable {α β : Type} {bound : Nat} {places places' : Places} {p : Record α} {asked : Role}

namespace Record.Covers

theorem nothing (p : Record α) : p.Covers t bound [] := by
  simp [Covers]

theorem mono (h : p.Covers t bound places) (fewer : places' ⊆ places) : p.Covers t bound places' :=
  fun r size x asked mem => h r size x asked (fewer mem)

theorem pointwise (h : ∀ x asked, (x, asked) ∈ places → p.Covers t bound [(x, asked)]) :
    p.Covers t bound places :=
  fun r size x asked mem => h x asked mem r size x asked (List.mem_singleton_self _)

theorem append (h : p.Covers t bound places) (h' : p.Covers t bound places') :
    p.Covers t bound (places ++ places') :=
  fun r size x asked mem => (List.mem_append.mp mem).elim (h r size x asked) (h' r size x asked)

theorem bind {next : α → Record β} (h : p.Covers t bound places)
    (rest : ∀ a, (next a).Covers t bound places') :
    (p >>= next).Covers t bound (places ++ places') := by
  intro r size x asked mem lt stands
  obtain before | after := List.mem_append.mp mem
  · exact (h r size x asked before lt stands).run (next (p.run r).1)
  · exact rest _ _ ((p.size_nodeScopes_run r).trans size) x asked after lt stands

theorem seq {q : Record β} (h : p.Covers t bound places) (h' : q.Covers t bound places') :
    (p >>= fun _ => q).Covers t bound (places ++ places') :=
  h.bind fun _ => h'

theorem after {next : α → Record β} (rest : ∀ a, (next a).Covers t bound places) :
    (p >>= next).Covers t bound places :=
  (nothing p).bind rest

theorem ite {c : Prop} [Decidable c] {q : Record α} (h : p.Covers t bound places)
    (h' : q.Covers t bound places) : (if c then p else q).Covers t bound places := by
  split
  · exact h
  · exact h'

/-- A key that is walked when it is computed, and what is walked after it. -/
theorem key {q : Record β} {key : Child} {computed : Bool}
    (h : p.Covers t bound (standing .part key.toList)) (h' : q.Covers t bound places) :
    (if computed then p >>= fun _ => q else q).Covers t bound
      (Shape.keyPlaces key computed ++ places) := by
  cases computed
  · exact h'
  · exact h.seq h'

theorem forM {l : List β} {f : β → Record Unit} {y : β} (mem : y ∈ l)
    (h : (f y).Covers t bound places) : (l.forM f).Covers t bound places := by
  induction l with
  | nil => cases mem
  | cons z l ih =>
    obtain rfl | later := List.mem_cons.mp mem
    · exact (h.seq (nothing (l.forM f))).mono (by simp)
    · exact .after fun _ => ih later

theorem all {l : List NodeId} {f : NodeId → Record Unit}
    (h : ∀ x ∈ l, (f x).Covers t bound [(x, asked)]) :
    (l.forM f).Covers t bound (standing asked l) := by
  refine .pointwise fun x role mem => ?_
  obtain ⟨here, rfl⟩ := Syntax.mem_standing.mp mem
  exact forM here (h x here)

theorem option {child : Child} {f : NodeId → Record Unit}
    (h : ∀ x, (f x).Covers t bound [(x, asked)]) :
    (child.forM f).Covers t bound (standing asked child.toList) := by
  cases child with
  | none => exact nothing _
  | some x => exact h x

theorem inScope {kind : ScopeKind} {step : ScopeId → Record Unit}
    (h : ∀ s, (step s).Covers t bound places) :
    (Record.inScope kind node step).Covers t bound places :=
  fun r size => h r.graph.scopes.size (r.enter kind node)
    (by simpa [Recording.enter, Graph.addScope] using size)

/-- A node that may stand there only as a name is covered without a step. -/
theorem name (h : ∀ shape, t.nodes.shape? node = some shape → asked.admits shape.role = true →
    shape.role = .name) : p.Covers t bound [(node, asked)] := by
  intro r _ x role mem _ stands
  obtain ⟨rfl, rfl⟩ := Prod.mk.inj (List.mem_singleton.mp mem)
  obtain ⟨shape, is, admits⟩ := stands
  exact Graph.covers_of_name ⟨shape, is, by simp [Role.admits, h shape is admits]⟩

/-- A node without the role that its place asks for is a name. -/
theorem other (h : ∀ shape, t.nodes.shape? node = some shape → shape.role ≠ asked)
    (special : asked ≠ .part) : p.Covers t bound [(node, asked)] :=
  name fun shape is admits => (Role.eq_of_admits admits special).resolve_right (h shape is)

/-- A step that covers the places of a node covers the node, when it gives a scope to it in case it
is a function. -/
theorem fold (precede : t.ChildrenPrecede) {bound' : Nat} {shape : Shape}
    (h : p.Covers t bound places) (is : t.nodes.shape? node = some shape)
    (own : shape.isFunction = true → p.Scopes t node)
    (all : ∀ x asked, (x, asked) ∈ shape.places → (x, asked) ∈ places ∨ t.Overlooks x)
    (le : bound' ≤ bound + 1) : p.Covers t bound' [(node, asked)] := by
  intro r size x role mem lt stands
  obtain ⟨rfl, rfl⟩ := Prod.mk.inj (List.mem_singleton.mp mem)
  refine Graph.covers_of_houses (fun isFunction => own ?_ r size) fun y houses => ?_
  · simpa [Tree.isFunction, Tree.shape?, is] using isFunction
  · have before : y < x := precede x y houses.mem_childrenOf
    have within : x ≤ bound := Nat.le_of_lt_succ (Nat.lt_of_lt_of_le lt le)
    obtain ⟨shape', role, is', mem, stands'⟩ := houses
    obtain rfl := Option.some.inj (is.symm.trans is')
    obtain covered | overlooked := all y role mem
    · exact h r size y role covered (Nat.lt_of_lt_of_le before within) stands'
    · exact Graph.covers_of_overlooks overlooked

/-- A step that covers the places of a node that is no function covers the node. -/
theorem slots (precede : t.ChildrenPrecede) {bound' : Nat} (le : bound' ≤ bound + 1) {shape : Shape}
    (h : p.Covers t bound places) (is : t.nodes.shape? node = some shape)
    (plain : shape.isFunction = false) (all : shape.places ⊆ places) :
    p.Covers t bound' [(node, asked)] :=
  fold precede h is (by simp [plain]) (fun _ _ mem => .inl (all mem)) le

end Record.Covers

theorem Record.Scopes.inScope {kind : ScopeKind} {step : ScopeId → Record Unit}
    (inside : node < t.nodes.size) : (Record.inScope kind node step).Scopes t node := by
  refine fun r size => (step r.graph.scopes.size).isSome_nodeScope?_run ?_
  simp [Recording.enter, Graph.nodeScope?_addScope, size, inside]

theorem Record.Scopes.after {next : α → Record β} (h : ∀ a, (next a).Scopes t node) :
    (p >>= next).Scopes t node :=
  fun r size => h _ _ ((p.size_nodeScopes_run r).trans size)

theorem Record.Scopes.ite {c : Prop} [Decidable c] {q : Record α} (h : p.Scopes t node)
    (h' : q.Scopes t node) : (if c then p else q).Scopes t node := by
  split
  · exact h
  · exact h'

end Rules

end Scope
end LoopCapture
