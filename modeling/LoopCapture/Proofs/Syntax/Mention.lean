import LoopCapture.Syntax.Shape
import Mathlib.Data.List.Basic
import Mathlib.Data.Option.Basic

/-!
# What a shape mentions

Nodes may be given other names. A shape mentions a node when giving that node alone another name
changes the shape, and the children of a shape are exactly the nodes that it mentions.
-/

namespace LoopCapture.Syntax

namespace Function

def rename (name : NodeId → NodeId) (f : Function) : Function :=
  { f with
    name := f.name.map name
    typeParameters := f.typeParameters.map name
    params := f.params.map name
    returnType := f.returnType.map name
    body := f.body.map name }

end Function

namespace Class

def rename (name : NodeId → NodeId) (c : Class) : Class :=
  { c with
    name := c.name.map name
    typeParameters := c.typeParameters.map name
    superClass := c.superClass.map name
    implements := c.implements.map name
    members := c.members.map name }

end Class

namespace Property

def rename (name : NodeId → NodeId) (p : Property) : Property :=
  { p with key := p.key.map name, value := p.value.map name }

end Property

namespace Call

def rename (name : NodeId → NodeId) (c : Call) : Call :=
  { c with
    callee := c.callee.map name
    typeArguments := c.typeArguments.map name
    arguments := c.arguments.map name }

end Call

namespace Signature

def rename (name : NodeId → NodeId) (s : Signature) : Signature where
  key := s.key.map name
  typeParameters := s.typeParameters.map name
  params := s.params.map name
  returnType := s.returnType.map name

end Signature

namespace Shape

/-- The shape in which every node is given another name. -/
def rename (name : NodeId → NodeId) : Shape → Shape
  | .sourceFile l => .sourceFile (l.map name)
  | .identifier text => .identifier text
  | .propertyName text => .propertyName text
  | .privateName text => .privateName text
  | .variableDeclaration word l => .variableDeclaration word (l.map name)
  | .variableDeclarator a b c => .variableDeclarator (a.map name) (b.map name) (c.map name)
  | .function f => .function (f.rename name)
  | .parameter a optional b => .parameter (a.map name) optional (b.map name)
  | .classLike c => .classLike (c.rename name)
  | .methodDefinition a computed isStatic b =>
    .methodDefinition (a.map name) computed isStatic (b.map name)
  | .propertyDefinition a computed isStatic b c =>
    .propertyDefinition (a.map name) computed isStatic (b.map name) (c.map name)
  | .staticBlock l => .staticBlock (l.map name)
  | .block l => .block (l.map name)
  | .empty => .empty
  | .expressionStatement a => .expressionStatement (a.map name)
  | .ifElse a b c => .ifElse (a.map name) (b.map name) (c.map name)
  | .forLoop a b c d => .forLoop (a.map name) (b.map name) (c.map name) (d.map name)
  | .forIn a b c isAwait => .forIn (a.map name) (b.map name) (c.map name) isAwait
  | .forOf a b c isAwait => .forOf (a.map name) (b.map name) (c.map name) isAwait
  | .whileLoop a b => .whileLoop (a.map name) (b.map name)
  | .doWhile a b => .doWhile (a.map name) (b.map name)
  | .returning a => .returning (a.map name)
  | .throwing a => .throwing (a.map name)
  | .breaking a => .breaking (a.map name)
  | .continuing a => .continuing (a.map name)
  | .labeled a b => .labeled (a.map name) (b.map name)
  | .switch a l => .switch (a.map name) (l.map name)
  | .switchCase a l => .switchCase (a.map name) (l.map name)
  | .tryCatch a b c => .tryCatch (a.map name) (b.map name) (c.map name)
  | .catchClause a b c => .catchClause (a.map name) (b.map name) (c.map name)
  | .debugger => .debugger
  | .withObject a b => .withObject (a.map name) (b.map name)
  | .importDeclaration l a typeOnly => .importDeclaration (l.map name) (a.map name) typeOnly
  | .importSpecifier form a b typeOnly =>
    .importSpecifier form (a.map name) (b.map name) typeOnly
  | .exportNamed a l b typeOnly => .exportNamed (a.map name) (l.map name) (b.map name) typeOnly
  | .exportSpecifier a b => .exportSpecifier (a.map name) (b.map name)
  | .exportDefault a => .exportDefault (a.map name)
  | .exportAll a b => .exportAll (a.map name) (b.map name)
  | .literal form value => .literal form value
  | .template quasis l => .template quasis (l.map name)
  | .taggedTemplate a b => .taggedTemplate (a.map name) (b.map name)
  | .this => .this
  | .super => .super
  | .array l => .array (l.map (·.map name))
  | .object l => .object (l.map name)
  | .property p => .property (p.rename name)
  | .spread a => .spread (a.map name)
  | .unary operator a => .unary operator (a.map name)
  | .update operator before a => .update operator before (a.map name)
  | .binary operator a b => .binary operator (a.map name) (b.map name)
  | .logical operator a b => .logical operator (a.map name) (b.map name)
  | .assignment operator a b => .assignment operator (a.map name) (b.map name)
  | .conditional a b c => .conditional (a.map name) (b.map name) (c.map name)
  | .call c => .call (c.rename name)
  | .new c => .new (c.rename name)
  | .member a b computed optional => .member (a.map name) (b.map name) computed optional
  | .sequence l => .sequence (l.map name)
  | .await a => .await (a.map name)
  | .yield a delegate => .yield (a.map name) delegate
  | .metaProperty a b => .metaProperty (a.map name) (b.map name)
  | .importCall l => .importCall (l.map name)
  | .typeCast a b => .typeCast (a.map name) (b.map name)
  | .nonNull a => .nonNull (a.map name)
  | .objectPattern l => .objectPattern (l.map name)
  | .arrayPattern l => .arrayPattern (l.map (·.map name))
  | .assignmentPattern a b => .assignmentPattern (a.map name) (b.map name)
  | .restElement a => .restElement (a.map name)
  | .typeAlias a l b => .typeAlias (a.map name) (l.map name) (b.map name)
  | .interface a l m n => .interface (a.map name) (l.map name) (m.map name) (n.map name)
  | .enum a isConst l => .enum (a.map name) isConst (l.map name)
  | .enumMember a b => .enumMember (a.map name) (b.map name)
  | .typeParameter a b c => .typeParameter (a.map name) (b.map name) (c.map name)
  | .typeKeyword text => .typeKeyword text
  | .typeReference a l => .typeReference (a.map name) (l.map name)
  | .qualifiedName a b => .qualifiedName (a.map name) (b.map name)
  | .typeQuery a => .typeQuery (a.map name)
  | .typeLiteral l => .typeLiteral (l.map name)
  | .propertySignature a computed optional b =>
    .propertySignature (a.map name) computed optional (b.map name)
  | .methodSignature s => .methodSignature (s.rename name)
  | .callSignature s => .callSignature (s.rename name)
  | .indexSignature l a => .indexSignature (l.map name) (a.map name)
  | .functionType s => .functionType (s.rename name)
  | .arrayType a => .arrayType (a.map name)
  | .tupleType l => .tupleType (l.map name)
  | .unionType l => .unionType (l.map name)
  | .intersectionType l => .intersectionType (l.map name)
  | .literalType a => .literalType (a.map name)
  | .typeOperator operator a => .typeOperator operator (a.map name)
  | .indexedAccessType a b => .indexedAccessType (a.map name) (b.map name)
  | .conditionalType a b c d => .conditionalType (a.map name) (b.map name) (c.map name) (d.map name)
  | .inferType a => .inferType (a.map name)
  | .mappedType a b => .mappedType (a.map name) (b.map name)
  | .typePredicate a b => .typePredicate (a.map name) (b.map name)

/-- A shape mentions a node when it changes with the name of that node alone. -/
def Mentions (s : Shape) (node : NodeId) : Prop :=
  ∃ name : NodeId → NodeId, (∀ other ≠ node, name other = other) ∧ s.rename name ≠ s

theorem children_eq (s : Shape) : s.children = s.slots.filterMap id := rfl

theorem slots_rename (name : NodeId → NodeId) (s : Shape) :
    (s.rename name).slots = s.slots.map (·.map name) := by
  cases s <;>
    simp [rename, slots, callChildren, signatureChildren, Function.rename, Class.rename,
      Property.rename, Call.rename, Signature.rename]

/-- Renaming renames the children, each where it stands. -/
theorem children_rename (name : NodeId → NodeId) (s : Shape) :
    (s.rename name).children = s.children.map name := by
  rw [children_eq, slots_rename, children_eq, List.filterMap_map, List.map_filterMap]
  rfl

/-- The parts keep their names. -/
def KeepNames (name : NodeId → NodeId) (parts : List Child) : Prop :=
  ∀ part ∈ parts, part.map name = part

section KeepNames

variable {name : NodeId → NodeId} {parts parts' : List Child} {part : Child} {l : List NodeId}

@[simp] theorem keepNames_nil : KeepNames name [] := by simp [KeepNames]

@[simp] theorem keepNames_cons :
    KeepNames name (part :: parts) ↔ part.map name = part ∧ KeepNames name parts := by
  simp [KeepNames]

@[simp] theorem keepNames_append :
    KeepNames name (parts ++ parts') ↔ KeepNames name parts ∧ KeepNames name parts' := by
  simp [KeepNames, or_imp, forall_and]

@[simp] theorem keepNames_map_some : KeepNames name (l.map some) ↔ l.map name = l := by
  induction l with
  | nil => simp
  | cons node l ih => simp [ih]

theorem KeepNames.map_eq (h : KeepNames name parts) : parts.map (·.map name) = parts :=
  (List.map_congr_left h).trans (List.map_id parts)

end KeepNames

/-- Where the children keep their names, nothing in the shape changes. -/
theorem rename_eq_self {name : NodeId → NodeId} {s : Shape}
    (fixes : ∀ child ∈ s.children, name child = child) : s.rename name = s := by
  have kept : KeepNames name s.slots := by
    intro part mem
    cases part with
    | none => rfl
    | some child => exact congrArg some (fixes child (List.mem_filterMap.mpr ⟨_, mem, rfl⟩))
  clear fixes
  cases s with
  | array l => exact congrArg array kept.map_eq
  | arrayPattern l => exact congrArg arrayPattern kept.map_eq
  | _ =>
    simp_all [rename, slots, callChildren, signatureChildren, Function.rename, Class.rename,
      Property.rename, Call.rename, Signature.rename]

/-- The children of a shape are the nodes that it mentions. -/
theorem mem_children_iff_mentions (s : Shape) (node : NodeId) :
    node ∈ s.children ↔ s.Mentions node := by
  constructor
  · intro mem
    refine ⟨fun other => if other = node then node + 1 else other, fun _ h => if_neg h, ?_⟩
    intro same
    have renamed := children_rename (fun other => if other = node then node + 1 else other) s
    rw [same] at renamed
    rw [renamed] at mem
    obtain ⟨other, -, is⟩ := List.mem_map.mp mem
    grind
  · rintro ⟨name, others, changes⟩
    by_contra absent
    exact changes (rename_eq_self fun child mem => others child fun is => absent (is ▸ mem))

end Shape
end LoopCapture.Syntax
