import LoopCapture.Proofs.Syntax.Reshaping
import Mathlib.Logic.Relation

/-!
# What parts stand as

A part of a node stands as something: a declarator, a parameter, or whatever may be evaluated. Names
and literals, and what is made of names alone, are never looked into; all other parts are listed by
their nodes together with what they stand as. A table grows in such a way that what nodes stand as
and what they list stay the same.
-/

namespace LoopCapture.Syntax

/-- What a node can stand as in another one. -/
inductive Role where
  /-- A name, a literal, or something made of names. -/
  | name
  /-- A statement, an expression, a pattern, a type or a member. -/
  | part
  | template
  | declarator
  | parameter
  | typeParameter
  | enumMember
  | switchCase
deriving DecidableEq, Repr

/-- A node with the one role may stand where the other is asked for. A template is a part, and
names may stand anywhere. -/
def Role.admits (asked role : Role) : Bool :=
  role == .name || role == asked || (asked == .part && role == .template)

/-- Only where a part is asked for may another role stand that is not that of a name. -/
theorem Role.eq_of_admits {asked role : Role} (h : asked.admits role = true)
    (other : asked ≠ .part) :
    role = .name ∨ role = asked := by
  simpa [admits, other] using h

abbrev Places := List (NodeId × Role)

/-- Nodes that all stand as the same. -/
def standing (role : Role) (nodes : List NodeId) : Places := nodes.map (·, role)

section Standing

variable (role : Role)

@[simp] theorem standing_nil : standing role [] = [] := rfl

@[simp] theorem standing_cons (node : NodeId) (nodes : List NodeId) :
    standing role (node :: nodes) = (node, role) :: standing role nodes := rfl

@[simp] theorem standing_append (nodes nodes' : List NodeId) :
    standing role (nodes ++ nodes') = standing role nodes ++ standing role nodes' :=
  List.map_append

@[simp] theorem mem_standing {role other : Role} {nodes : List NodeId} {node : NodeId} :
    (node, other) ∈ standing role nodes ↔ node ∈ nodes ∧ other = role := by
  simp [standing, eq_comm]

end Standing

namespace Shape

def role : Shape → Role
  | .identifier _ | .propertyName _ | .privateName _ | .literal .. | .qualifiedName ..
  | .importSpecifier .. | .exportSpecifier .. => .name
  | .template .. => .template
  | .variableDeclarator .. => .declarator
  | .parameter .. => .parameter
  | .typeParameter .. => .typeParameter
  | .enumMember .. => .enumMember
  | .switchCase .. => .switchCase
  | _ => .part

section Inversion

variable {shape : Shape}

theorem eq_template_of_role (h : shape.role = .template) : ∃ a b, shape = .template a b := by
  unfold role at h
  split at h
  case h_8 => exact ⟨_, _, rfl⟩
  all_goals cases h

theorem eq_variableDeclarator_of_role (h : shape.role = .declarator) :
    ∃ a b c, shape = .variableDeclarator a b c := by
  unfold role at h
  split at h
  case h_9 => exact ⟨_, _, _, rfl⟩
  all_goals cases h

theorem eq_parameter_of_role (h : shape.role = .parameter) : ∃ a b c, shape = .parameter a b c := by
  unfold role at h
  split at h
  case h_10 => exact ⟨_, _, _, rfl⟩
  all_goals cases h

theorem eq_typeParameter_of_role (h : shape.role = .typeParameter) :
    ∃ a b c, shape = .typeParameter a b c := by
  unfold role at h
  split at h
  case h_11 => exact ⟨_, _, _, rfl⟩
  all_goals cases h

theorem eq_enumMember_of_role (h : shape.role = .enumMember) : ∃ a b, shape = .enumMember a b := by
  unfold role at h
  split at h
  case h_12 => exact ⟨_, _, rfl⟩
  all_goals cases h

theorem eq_switchCase_of_role (h : shape.role = .switchCase) : ∃ a b, shape = .switchCase a b := by
  unfold role at h
  split at h
  case h_13 => exact ⟨_, _, rfl⟩
  all_goals cases h

end Inversion

def signaturePlaces (s : Signature) : Places :=
  standing .part s.key.toList ++ standing .typeParameter s.typeParameters ++
    standing .parameter s.params ++ standing .part s.returnType.toList

def functionPlaces (f : Function) : Places :=
  standing .typeParameter f.typeParameters ++ standing .parameter f.params ++
    standing .part f.returnType.toList ++ standing .part f.body.toList

/-- The key of a property or member, which is a part when it is computed. -/
def keyPlaces (key : Child) (computed : Bool) : Places :=
  if computed then standing .part key.toList else []

theorem mem_keyPlaces {key : Child} {computed : Bool} {node : NodeId} {asked : Role} :
    (node, asked) ∈ keyPlaces key computed ↔ computed = true ∧ key = some node ∧ asked = .part := by
  cases computed <;> simp [keyPlaces]

def places : Shape → Places
  | .identifier _ | .propertyName _ | .privateName _ | .empty | .debugger | .literal _ _ | .this
  | .super | .typeKeyword _ | .breaking _ | .continuing _ | .importSpecifier ..
  | .exportSpecifier ..
  | .exportAll .. | .metaProperty .. | .qualifiedName .. | .typeQuery _ => []
  | .variableDeclaration _ l => standing .declarator l
  | .function f => functionPlaces f
  | .classLike c =>
    standing .typeParameter c.typeParameters ++ standing .part c.superClass.toList ++
      standing .part c.implements ++ standing .part c.members
  | .methodDefinition key computed _ value =>
    keyPlaces key computed ++ standing .part value.toList
  | .propertyDefinition key computed _ type value =>
    keyPlaces key computed ++ standing .part type.toList ++ standing .part value.toList
  | .labeled _ body => standing .part body.toList
  | .switch discriminant cases =>
    standing .part discriminant.toList ++ standing .switchCase cases
  | .importDeclaration _ source _ => standing .part source.toList
  | .exportNamed declaration .. => standing .part declaration.toList
  | .property p => keyPlaces p.key p.computed ++ standing .part p.value.toList
  | .member owner key computed _ => standing .part owner.toList ++ keyPlaces key computed
  | .typeAlias _ typeParameters type =>
    standing .typeParameter typeParameters ++ standing .part type.toList
  | .interface _ typeParameters supertypes members =>
    standing .typeParameter typeParameters ++ standing .part supertypes ++ standing .part members
  | .enum _ _ members => standing .enumMember members
  | .typeParameter _ constraint default =>
    standing .part constraint.toList ++ standing .part default.toList
  | .typeReference _ arguments => standing .part arguments
  | .propertySignature key computed _ type =>
    keyPlaces key computed ++ standing .part type.toList
  | .methodSignature s | .callSignature s | .functionType s => signaturePlaces s
  | .indexSignature params type => standing .parameter params ++ standing .part type.toList
  | .literalType inner => standing .template inner.toList
  | .inferType inferred => standing .typeParameter inferred.toList
  | .mappedType mapped type =>
    standing .typeParameter mapped.toList ++ standing .part type.toList
  | .typePredicate _ type => standing .part type.toList
  | shape => standing .part shape.children

theorem mem_children_iff_slots {shape : Shape} {node : NodeId} :
    node ∈ shape.children ↔ some node ∈ shape.slots := by
  simp [children]

theorem mem_children_of_mem_places {shape : Shape} {node : NodeId} {asked : Role}
    (mem : (node, asked) ∈ shape.places) : node ∈ shape.children := by
  rw [mem_children_iff_slots]
  cases shape <;>
    simp only [places, functionPlaces, signaturePlaces, mem_keyPlaces, mem_standing,
      List.mem_append, Option.mem_toList, List.not_mem_nil, mem_children_iff_slots] at mem
  all_goals first
    | exact mem.1
    | simp only [slots, signatureChildren, List.mem_append, List.mem_cons, List.mem_map,
        List.not_mem_nil, Option.some.injEq, exists_eq_right]
      grind

/-- A pattern has the places of the literal that it is made from, and stands as the same. -/
theorem places_asPattern (shape : Shape) :
    shape.asPattern.1.places = shape.places ∧ shape.asPattern.1.role = shape.role := by
  unfold Shape.asPattern
  split <;> exact ⟨rfl, rfl⟩

end Shape

namespace NodeTable

variable {t t' t'' : NodeTable} {x y : NodeId} {asked : Role}

def HasRole (t : NodeTable) (x : NodeId) (asked : Role) : Prop :=
  ∃ shape, t.shape? x = some shape ∧ asked.admits shape.role = true

/-- The one node lists the other in a place where it may stand. -/
def Houses (t : NodeTable) (y x : NodeId) : Prop :=
  ∃ shape asked, t.shape? y = some shape ∧ (x, asked) ∈ shape.places ∧ t.HasRole x asked

/-- The nodes of the first table stand in the second one as the same, with the same places. -/
structure Preserves (t t' : NodeTable) : Prop where
  size_le : t.size ≤ t'.size
  shapes : ∀ x shape, t.shape? x = some shape → ∃ shape', t'.shape? x = some shape' ∧
    shape'.places = shape.places ∧ shape'.role = shape.role

/-- The node has a place in the other one, in one that has a place in that, and so on. -/
def PartOf (t : NodeTable) : NodeId → NodeId → Prop := Relation.ReflTransGen fun x y => t.Houses y x

theorem Houses.mem_childrenOf (h : t.Houses y x) : x ∈ t.childrenOf y := by
  obtain ⟨shape, asked, is, mem, -⟩ := h
  simpa [childrenOf, is] using shape.mem_children_of_mem_places mem

/-- Names have no places. -/
theorem not_hasRole_name_of_houses (h : t.Houses y x) : ¬ t.HasRole y .name := by
  rintro ⟨shape, is, admits⟩
  obtain ⟨shape', asked, is', mem, -⟩ := h
  obtain rfl := Option.some.inj (is.symm.trans is')
  cases shape <;> simp [Role.admits, Shape.role, Shape.places] at admits mem

theorem Preserves.refl (t : NodeTable) : Preserves t t :=
  ⟨Nat.le_refl _, fun _ shape is => ⟨shape, is, rfl, rfl⟩⟩

theorem Preserves.trans (h : Preserves t t') (h' : Preserves t' t'') : Preserves t t'' where
  size_le := Nat.le_trans h.size_le h'.size_le
  shapes x shape is := by
    obtain ⟨shape', is', places, role⟩ := h.shapes x shape is
    obtain ⟨shape'', is'', places', role'⟩ := h'.shapes x shape' is'
    exact ⟨shape'', is'', places'.trans places, role'.trans role⟩

theorem HasRole.preserved (h : t.HasRole x asked) (preserves : Preserves t t') :
    t'.HasRole x asked := by
  obtain ⟨shape, is, admits⟩ := h
  obtain ⟨shape', is', -, role⟩ := preserves.shapes x shape is
  exact ⟨shape', is', role ▸ admits⟩

theorem Houses.preserved (h : t.Houses y x) (preserves : Preserves t t') : t'.Houses y x := by
  obtain ⟨shape, asked, is, mem, stands⟩ := h
  obtain ⟨shape', is', places, -⟩ := preserves.shapes y shape is
  exact ⟨shape', asked, is', places ▸ mem, stands.preserved preserves⟩

/-- What may stand in one place may stand in another that asks for less. -/
theorem HasRole.mono {asked' : Role} (h : t.HasRole x asked)
    (less : ∀ role, asked.admits role = true → asked'.admits role = true) : t.HasRole x asked' := by
  obtain ⟨shape, is, admits⟩ := h
  exact ⟨shape, is, less _ admits⟩

theorem preserves_push (t : NodeTable) (n : Node) : Preserves t (t.push n) where
  size_le := by simp
  shapes x shape is := by
    obtain ⟨old, found, rfl⟩ := Option.map_eq_some_iff.mp is
    have lt := (Array.getElem?_eq_some_iff.mp found).1
    have same : (t.push n)[x]? = some old := by
      rw [Array.getElem?_push, if_neg (Nat.ne_of_lt lt), found]
    exact ⟨old.shape, by simp [shape?, same], rfl, rfl⟩

/-- Another shape with the same places and role may be given to a node. -/
theorem preserves_reshape {node : NodeId} {new : Shape} (same : ∀ old, t.shape? node = some old →
      new.places = old.places ∧ new.role = old.role) : Preserves t (t.reshape node new) where
  size_le := by simp [reshape]
  shapes x old is := by
    obtain ⟨n, found, rfl⟩ := Option.map_eq_some_iff.mp is
    simp only [shape?, reshape, Array.getElem?_modify, found]
    split
    · rename_i here
      exact ⟨new, by simp, same n.shape (here ▸ is)⟩
    · exact ⟨n.shape, by simp, rfl, rfl⟩

/-- Turning literals into patterns moves no part. -/
theorem preserves_asPattern (node : NodeId) (t : NodeTable) : Preserves t (t.asPattern node) := by
  refine asPattern_induction (fun s node shape h is => h.trans ?_) (.refl t) node
  exact preserves_reshape fun old was => Option.some.inj (is.symm.trans was) ▸
    shape.places_asPattern

end NodeTable
end LoopCapture.Syntax
