import LoopCapture.Proofs.Scope.Traces

/-!
# Judgements that follow a walk

A judgement tells of a step and of the nodes that the step enters, one after the other. Where it
holds of what is put together from steps once it holds of these, it follows the walk through every
routine: each routine enters the parts of its node as they stand in the text, when the walker does
so for the parts. Two routines are left to each judgement. A `switch` enters its discriminant before
it opens its scope, and a loop over keys or elements names the variables of its head twice.
-/

namespace LoopCapture.Scope
open Syntax (Child NodeId Shape Tree Function Signature)

/-- Steps that record uses of one node as a value and do nothing else. -/
inductive Record.Refers (t : Tree) (node : NodeId) : Record Unit → Prop
  | nothing : Refers t node (pure ())
  | refer (usage : Usage) (isValue : usage.isType = false := by rfl) :
    Refers t node (Scope.refer t node usage)
  | seq {p q : Record Unit} (h : Refers t node p) (h' : Refers t node q) :
    Refers t node (p >>= fun _ => q)

/-- What is entered in place of a node: the node itself or one that is entered from it, its children
in a row, the expression of an assertion and then its type, or what the node is taken apart into as
a pattern. -/
inductive Unfolds (t : Tree) (node : NodeId) : List NodeId → Prop
  | part {part : NodeId} (inside : part = node ∨ t.Entered part node) : Unfolds t node [part]
  | slots {nodes : List NodeId} (fewer : nodes.Sublist (t.row node)) : Unfolds t node nodes
  | cast {expression type : Child} (is : t.nodes.shape? node = some (.typeCast expression type)) :
    Unfolds t node (expression.toList ++ type.toList)
  | pattern : Unfolds t node (PatternParts.ofNode t (some node)).row

def declareOne (t : Tree) (walk : Walker) (s : Option ScopeId) (kind : DeclarationKind)
    (declaration : NodeId) (owningLoop : Child) (declarator : NodeId) : Record Unit :=
  match t.nodes.shape? declarator with
  | some (.variableDeclarator target annotated init) => do
    declarePattern t walk target s kind declaration owningLoop init.isSome
    type walk annotated
    value walk init
  | _ => pure ()

def switchInside (t : Tree) (walk : Walker) (cases : List NodeId) : Record Unit :=
  cases.forM fun case =>
    match t.nodes.shape? case with
    | some (.switchCase test consequent) => do
      value walk test
      values walk consequent
    | _ => pure ()

/-- The judgement of steps holds of what is put together from steps when it holds of these. -/
structure Follows (t : Tree) (J : (α : Type) → Record α → List NodeId → Prop) : Prop where
  mono {α : Type} {p : Record α} {nodes nodes' : List NodeId} (h : J α p nodes)
    (fewer : nodes.Sublist nodes') : J α p nodes'
  pure {α : Type} (a : α) : J α (Pure.pure a) []
  bind {α β : Type} {p : Record α} {next : α → Record β} {nodes nodes' : List NodeId}
    (h : J α p nodes) (rest : ∀ a, J β (next a) nodes') : J β (p >>= next) (nodes ++ nodes')
  observe {α : Type} (look : Recording → α) : J α (.observe look) []
  define (s : ScopeId) (name : String) (definition : Definition) (owningLoop : Child) :
    J _ (.define s name definition owningLoop) []
  permit (b : BindingId) (writable : Bool) : J _ (.permit b writable) []
  refers {p : Record Unit} {node : NodeId} {name : String} (h : p.Refers t node)
    (is : t.nodes.shape? node = some (.identifier name)) : J _ p [node]
  typeName {node : NodeId} {name : String} (is : t.nodes.shape? node = some (.identifier name)) :
    J _ (refer t node .inType) [node]
  fold {α : Type} {p : Record α} {node : NodeId} {nodes : List NodeId} (h : J α p nodes)
    (unfolds : Unfolds t node nodes) : J α p [node]
  inScope {kind : ScopeKind} {node : NodeId} {step : ScopeId → Record Unit} {nodes : List NodeId}
    (h : ∀ s, J _ (step s) nodes) (unfolds : Unfolds t node nodes)
    (plain : kind ≠ .switch) : J _ (Record.inScope kind node step) [node]

variable {t : Tree} {J : (α : Type) → Record α → List NodeId → Prop} {α β : Type}
  {nodes nodes' : List NodeId} {node : NodeId}

theorem Record.Refers.referTimes (usage : Usage) (n : Nat)
    (isValue : usage.isType = false) : (referTimes t node usage n).Refers t node := by
  induction n with
  | zero => exact .nothing
  | succ n ih => exact .seq (.refer usage isValue) ih

theorem Unfolds.ofShape {shape : Shape} (is : t.nodes.shape? node = some shape)
    (fewer : nodes.Sublist shape.row) : Unfolds t node nodes := by
  refine .slots ?_
  simpa only [Tree.row, is, Option.elim_some] using fewer

/-- What is entered in place of a node is the node itself or entered from it. -/
theorem Unfolds.inside (h : Unfolds t node nodes) :
    ∀ part ∈ nodes, part = node ∨ t.Entered part node := by
  intro part mem
  cases h with
  | part inside => exact List.mem_singleton.mp mem ▸ inside
  | slots fewer => exact .inr (.single ((fewer.trans (t.row_sublist_walked node)).subset mem))
  | cast is => exact .inr (.walked is (by
      simpa [Shape.walked, Shape.children, Shape.slots, eq_comm] using mem))
  | pattern =>
    have all := PatternParts.all_ofNode_entered t node
    simp only [PatternParts.row, List.mem_append, List.mem_map, Array.mem_toList_iff] at mem
    obtain (⟨target, mem, rfl⟩ | mem) | mem := mem
    · exact all.targets target mem
    · exact all.types part mem
    · exact all.evaluated part mem

theorem Unfolds.below (h : Unfolds t node nodes) : ∀ part ∈ nodes, t.Below part node := by
  intro part mem
  obtain rfl | entered := h.inside part mem
  · exact .refl _
  · exact entered.under.below

attribute [local simp] Shape.row Shape.walked Shape.children Shape.slots

theorem Unfolds.switch {discriminant : Child} {cases : List NodeId}
    (is : t.nodes.shape? node = some (.switch discriminant cases)) :
    Unfolds t node (discriminant.toList ++ cases) :=
  .ofShape is (by simp)

theorem Unfolds.declarators {word : Syntax.DeclarationWord} {declarators : List NodeId}
    (is : t.nodes.shape? node = some (.variableDeclaration word declarators)) :
    Unfolds t node declarators :=
  .ofShape is (by simp)

theorem Unfolds.declarator {target annotated init : Child}
    (is : t.nodes.shape? node = some (.variableDeclarator target annotated init)) :
    Unfolds t node (target.toList ++ (annotated.toList ++ init.toList)) :=
  .ofShape is (by simp)

namespace Follows

variable (rules : Follows t J)

include rules

theorem seq {p : Record α} {q : Record β} (h : J α p nodes) (h' : J β q nodes') :
    J β (p >>= fun _ => q) (nodes ++ nodes') :=
  rules.bind h fun _ => h'

theorem skip {p : Record α} {next : α → Record β} (h : J α p [])
    (rest : ∀ a, J β (next a) nodes) : J β (p >>= next) nodes :=
  rules.bind h rest

theorem nothing (a : α) : J α (Pure.pure a) nodes :=
  rules.mono (rules.pure a) (List.nil_sublist _)

omit rules in
theorem ite {c : Prop} [Decidable c] {p q : Record α} (h : c → J α p nodes)
    (h' : ¬ c → J α q nodes) : J α (if c then p else q) nodes := by
  split
  · exact h ‹_›
  · exact h' ‹_›

/-- One step that is taken on a condition, and another that is taken after it or in its place. -/
theorem guarded {c : Prop} [Decidable c] {p : Record α} {q : Record β} (h : J α p nodes)
    (h' : J β q nodes') : J β (if c then p >>= fun _ => q else q) (nodes ++ nodes') :=
  ite (fun _ => rules.seq h h') fun _ => rules.mono h' (List.sublist_append_right nodes nodes')

theorem discard {p : Record α} (h : J α p nodes) : J _ (discard p) nodes := by
  have rest : J _ (p >>= fun _ => Pure.pure PUnit.unit : Record PUnit) (nodes ++ []) :=
    rules.bind h fun _ => rules.pure _
  rwa [List.append_nil] at rest

theorem forMFlat {l : List β} {f : β → Record Unit} {parts : β → List NodeId}
    (h : ∀ x ∈ l, J _ (f x) (parts x)) : J _ (l.forM f) (l.flatMap parts) := by
  induction l with
  | nil => exact rules.pure ()
  | cons x l ih =>
    exact rules.seq (h x List.mem_cons_self) (ih fun y mem => h y (List.mem_cons_of_mem x mem))

theorem forM {l : List NodeId} {f : NodeId → Record Unit} (h : ∀ x ∈ l, J _ (f x) [x]) :
    J _ (l.forM f) l :=
  rules.mono (rules.forMFlat h) (by rw [List.flatMap_singleton'])

theorem forMQuiet {l : List β} {f : β → Record Unit} (h : ∀ x ∈ l, J _ (f x) []) :
    J _ (l.forM f) [] :=
  rules.mono (rules.forMFlat h) (by rw [List.flatMap_eq_nil_iff.mpr fun _ _ => rfl])

theorem option {child : Child} {f : NodeId → Record Unit} (h : ∀ x, J _ (f x) [x]) :
    J _ (child.forM f) child.toList := by
  cases child with
  | none => exact rules.pure ()
  | some x => exact h x

theorem declare {s : Option ScopeId} {name : Child} {kind : DeclarationKind} {declaration : NodeId}
    {owningLoop : Child} : J _ (declare t s name kind declaration owningLoop) [] := by
  unfold Scope.declare
  split
  · exact rules.discard (rules.define _ _ _ _)
  · exact rules.pure ()

theorem declareImplicit {s : ScopeId} {block : NodeId} {name : String} {kind : DeclarationKind} :
    J _ (declareImplicit s block name kind) [] :=
  rules.define _ _ _ _

/-- A step that enters one part of a node enters the node. -/
theorem part {p : Record α} {part : NodeId} (h : J α p [part])
    (inside : part = node ∨ t.Entered part node) : J α p [node] :=
  rules.fold h (.part inside)

/-- A step that enters some children of a node as they are listed enters the node. -/
theorem slots {p : Record α} (h : J α p nodes) {shape : Shape}
    (is : t.nodes.shape? node = some shape) (fewer : nodes.Sublist shape.row) : J α p [node] :=
  rules.fold h (.ofShape is fewer)

/-- What goes through a pattern as it is taken apart goes through the pattern. -/
theorem row {p : Record α} {pattern : Child} (h : J α p (PatternParts.ofNode t pattern).row) :
    J α p pattern.toList := by
  cases pattern with
  | none => simpa [PatternParts.ofNode, PatternParts.row] using h
  | some node => exact rules.fold h .pattern

/-- Steps at the targets of a pattern, which are identifiers. -/
theorem targets {pattern : Child} {step : PatternTarget → Record Unit}
    (h : ∀ target name, t.nodes.shape? target.identifier = some (.identifier name) →
      J _ (step target) [target.identifier]) :
    J _ ((PatternParts.ofNode t pattern).targets.toList.forM step)
      ((PatternParts.ofNode t pattern).targets.toList.map (·.identifier)) := by
  rw [List.map_eq_flatMap]
  refine rules.forMFlat fun target mem => ?_
  obtain ⟨name, is⟩ := PatternParts.exists_name_of_mem_targets (Array.mem_toList_iff.mp mem)
  exact h target name is

section Routines

variable {walk : Walker} (enters : ∀ position x, J _ (walk position x) [x])

include enters

theorem value (child : Child) : J _ (value walk child) child.toList :=
  rules.option (enters .value)

theorem type (child : Child) : J _ (type walk child) child.toList :=
  rules.option (enters .type)

theorem values (l : List NodeId) : J _ (values walk l) l :=
  rules.forM fun x _ => enters .value x

theorem types (l : List NodeId) : J _ (types walk l) l :=
  rules.forM fun x _ => enters .type x

theorem patternRest (parts : PatternParts) :
    J _ (patternRest walk parts) (parts.types.toList ++ parts.evaluated.toList) :=
  rules.seq (rules.types enters _) (rules.values enters _)

theorem declarePattern {pattern : Child} {s : Option ScopeId} {kind : DeclarationKind}
    {declaration : NodeId} {owningLoop : Child} {isInitialized : Bool} :
    J _ (declarePattern t walk pattern s kind declaration owningLoop isInitialized)
      pattern.toList := by
  refine rules.row (rules.mono (rules.seq (rules.targets fun target name is =>
    rules.skip rules.declare fun _ => ?_) (rules.patternRest enters _)) ?_)
  · exact rules.refers (.referTimes _ _ rfl) is
  · simp [PatternParts.row]

theorem assignPattern (pattern : Child) (usage : Usage)
    (isValue : usage.isType = false := by rfl) :
    J _ (assignPattern t walk pattern usage) pattern.toList := by
  refine rules.row (rules.mono (rules.seq (rules.targets fun target name is => ?_)
    (rules.patternRest enters _)) ?_)
  · exact rules.refers (.seq (.referTimes _ _ rfl) (.refer usage isValue)) is
  · simp [PatternParts.row]

theorem updateTarget (target : Child) : J _ (updateTarget t walk target) target.toList :=
  ite (fun _ => rules.assignPattern enters target .updating) fun _ => rules.value enters target

theorem declareTypeParameters (s : ScopeId) (params : List NodeId) :
    J _ (declareTypeParameters t walk s params) params := by
  refine rules.forM fun param _ => ?_
  split
  · rename_i name constraint default is
    exact rules.slots (rules.skip rules.declare fun _ =>
      rules.seq (rules.type enters constraint) (rules.type enters default)) is (by simp)
  · exact rules.nothing ()

theorem signatureParams (params : List NodeId) :
    J _ (signatureParams t walk params) params := by
  refine rules.forM fun param _ => ?_
  split
  · rename_i pattern isOptional annotated is
    cases annotated with
    | none => exact rules.nothing ()
    | some annotated =>
      exact rules.part (enters .type annotated) (.inr (.slot is (by simp [Shape.slots])))
  · exact rules.nothing ()

theorem signatureKey (key : Child) : J _ (signatureKey t walk key) key.toList := by
  unfold Scope.signatureKey
  split
  all_goals first
    | exact rules.nothing ()
    | exact rules.value enters key

theorem walkSignature (s : Signature) :
    J _ (walkSignature t walk s) ((Shape.signatureChildren s).filterMap id) := by
  refine rules.mono (rules.seq (rules.signatureKey enters s.key) <|
    rules.seq (rules.types enters s.typeParameters) <|
    rules.seq (rules.signatureParams enters s.params) (rules.type enters s.returnType)) ?_
  simp [Shape.signatureChildren]

/-- What goes through the parts of a declarator goes through the declarator. -/
theorem declareOne (s : Option ScopeId) (kind : DeclarationKind) (declaration : NodeId)
    (owningLoop : Child) (declarator : NodeId) :
    J _ (declareOne t walk s kind declaration owningLoop declarator) [declarator] := by
  unfold Scope.declareOne
  split
  · rename_i target annotated init is
    exact rules.fold (rules.seq (rules.declarePattern enters) <|
      rules.seq (rules.type enters annotated) (rules.value enters init)) (.declarator is)
  · exact rules.nothing ()

theorem variableDeclaration (node : NodeId) (word : Syntax.DeclarationWord)
    (declarators : List NodeId) :
    J _ (variableDeclaration t walk node word declarators) declarators :=
  rules.skip (rules.observe _) fun _ => rules.skip (rules.observe _) fun _ =>
    rules.forM fun declarator _ => rules.declareOne enters _ _ _ _ declarator

omit enters in
theorem inHeadScope {lexical : Bool} {step : Record Unit} (h : J _ step nodes)
    (unfolds : Unfolds t node nodes) : J _ (inHeadScope lexical node step) [node] :=
  ite (fun _ => rules.inScope (fun _ => h) unfolds (by simp)) fun _ => rules.fold h unfolds

theorem functionBody (f : Function) : J _ (functionBody t walk f) f.body.toList := by
  unfold Scope.functionBody
  split
  · rename_i statements is
    obtain ⟨x, same, is⟩ := Option.bind_eq_some_iff.mp is
    rw [same]
    exact rules.slots (rules.values enters statements) is (by simp)
  · exact rules.value enters f.body

theorem functionParts (f : Function) (s : ScopeId) : J _ (functionParts t walk node f s)
    (f.typeParameters ++ (f.params ++ (f.returnType.toList ++ f.body.toList))) :=
  rules.seq (rules.declareTypeParameters enters s f.typeParameters) <|
    rules.seq (rules.forM fun _ _ => rules.declarePattern enters) <|
    rules.seq (rules.type enters f.returnType) (rules.functionBody enters f)

theorem walkFunctionScope {f : Function} (is : t.nodes.shape? node = some (.function f)) :
    J _ (walkFunctionScope t walk node f) [node] := by
  have inside (s : ScopeId) : J _ (Scope.functionParts t walk node f s) _ :=
    rules.functionParts enters f s
  refine rules.inScope (fun s => ite (fun _ => inside s) fun _ =>
    rules.skip (rules.discard rules.declareImplicit) fun _ => inside s)
    (.ofShape is (by simp)) (by simp)

theorem walkFunction {f : Function} (is : t.nodes.shape? node = some (.function f)) :
    J _ (walkFunction t walk node f) [node] := by
  have own := rules.walkFunctionScope enters is
  have named : J _ (Record.inScope .functionExpressionName node fun s => do
      Scope.declare t (some s) f.name .functionExpressionName node
      Scope.walkFunctionScope t walk node f) [node] :=
    rules.inScope (fun _ => rules.skip rules.declare fun _ => own) (.part (.inl rfl)) (by simp)
  refine ite (fun _ => rules.skip (rules.observe _) fun _ => rules.skip rules.declare fun _ => ?_)
    fun _ => ?_
  all_goals exact ite (fun _ => named) fun _ => own

theorem walkClass {c : Syntax.Class} (is : t.nodes.shape? node = some (.classLike c)) :
    J _ (walkClass t walk node c) [node] := by
  have inside : J _ (Record.inScope .classBody node fun s => do
      Scope.declare t (some s) c.name .className node
      Scope.declareTypeParameters t walk s c.typeParameters
      Scope.value walk c.superClass
      Scope.types walk c.implements
      Scope.values walk c.members) [node] :=
    rules.inScope (fun s => rules.skip rules.declare fun _ =>
      rules.seq (rules.declareTypeParameters enters s c.typeParameters) <|
      rules.seq (rules.value enters c.superClass) <| rules.seq (rules.types enters c.implements)
      (rules.values enters c.members)) (.ofShape is (by simp)) (by simp)
  exact ite (fun _ => rules.skip (rules.observe _) fun _ =>
    rules.skip rules.declare fun _ => inside)
    fun _ => inside

theorem walkField (key : Child) (computed : Bool) (annotated init : Child) :
    J _ (walkField walk key computed annotated init)
      (key.toList ++ (annotated.toList ++ init.toList)) :=
  rules.guarded (rules.value enters key) <| rules.seq (rules.type enters annotated) <|
    rules.option fun x => rules.inScope (fun _ => enters .value x) (.part (.inl rfl)) (by simp)

theorem walkExport (declaration : Child) (specifiers : List NodeId) (source : Child) :
    J _ (walkExport t walk declaration specifiers source) (declaration.toList ++ specifiers) := by
  refine rules.seq (rules.value enters declaration) (ite (fun _ => rules.forM fun specifier _ => ?_)
    fun _ => rules.nothing ())
  split
  · rename_i target _ is
    exact rules.slots (rules.value enters target) is (.refl _)
  · exact rules.nothing ()

omit enters in
theorem walkImport (specifiers : List NodeId) : J _ (walkImport t node specifiers) [] := by
  refine rules.skip (rules.observe _) fun _ => rules.forMQuiet fun specifier _ => ?_
  split
  · exact rules.declare
  · exact rules.pure ()

theorem walkCatch {param annotated body : Child}
    (is : t.nodes.shape? node = some (.catchClause param annotated body)) :
    J _ (walkCatch t walk node param annotated body) [node] :=
  rules.inScope (fun _ => rules.seq (rules.declarePattern enters) <|
    rules.seq (rules.type enters annotated) (rules.value enters body))
    (.ofShape is (by simp)) (by simp)

theorem walkEnum (name : Child) (members : List NodeId) :
    J _ (walkEnum t walk node name members) members := by
  refine rules.skip (rules.observe _) fun _ => rules.skip rules.declare fun _ =>
    rules.forM fun member _ => ?_
  split
  · rename_i initializer is
    exact rules.slots (rules.value enters initializer) is (by simp)
  · exact rules.nothing ()

theorem switchInside (cases : List NodeId) : J _ (switchInside t walk cases) cases := by
  refine rules.forM fun case _ => ?_
  split
  · rename_i test consequent is
    exact rules.slots (rules.seq (rules.value enters test) (rules.values enters consequent)) is
      (by simp)
  · exact rules.nothing ()

theorem walkAssignment (operator : Token.Kind) (left right : Child) :
    J _ (walkAssignment t walk operator left right) (left.toList ++ right.toList) := by
  have rest := rules.value enters right
  exact ite (fun _ => rules.seq (rules.assignPattern enters left .writing) rest)
    fun _ => rules.seq (rules.updateTarget enters left) rest

theorem entityHead (name : Child) :
    J _ (Scope.type walk (name.bind (entityHead t))) name.toList := by
  cases name with
  | none => exact rules.pure ()
  | some name =>
    cases head : Scope.entityHead t name with
    | none => simpa [head, Scope.type] using rules.nothing ()
    | some first =>
      simpa [head, Scope.type] using rules.part (enters .type first) (entered_entityHead head)

/-- A node is walked as a type when it is one; another node is walked as a value. -/
theorem typeStep (node : NodeId) : J _ (typeStep t walk node) [node] := by
  unfold Scope.typeStep
  split
  · exact rules.nothing ()
  rename_i shape is
  split
  case h_1 name => exact rules.typeName is
  case h_2 name arguments =>
    exact rules.slots (rules.seq (rules.entityHead enters name) (rules.types enters arguments)) is
      (by simp)
  case h_3 left right => exact rules.entityHead enters (some node)
  case h_4 name =>
    split
    · rename_i head found
      obtain ⟨first, rfl, found⟩ := Option.bind_eq_some_iff.mp found
      split
      · rename_i isName
        exact rules.slots (rules.part (rules.refers (.refer .reading) isName)
          (entered_entityHead found)) is (by simp)
      · exact rules.nothing ()
    · exact rules.nothing ()
  case h_5 s | h_6 s | h_7 s => exact rules.slots (rules.walkSignature enters s) is (by simp)
  case h_8 params annotated =>
    exact rules.slots (rules.seq (rules.signatureParams enters params)
      (rules.type enters annotated)) is (by simp)
  case h_9 key computed _ annotated =>
    exact rules.slots (rules.guarded (rules.value enters key) (rules.type enters annotated)) is
      (by simp)
  case h_10 name constraint default =>
    exact rules.slots (rules.seq (rules.type enters constraint) (rules.type enters default)) is
      (by simp)
  case h_11 annotated => exact rules.slots (rules.type enters annotated) is (by simp)
  case h_12 literal =>
    split
    · rename_i substitutions template
      obtain ⟨x, rfl, template⟩ := Option.bind_eq_some_iff.mp template
      exact rules.slots (rules.slots (rules.types enters substitutions) template (by simp))
        is (by simp)
    · exact rules.nothing ()
  case h_13 | h_14 | h_15 | h_16 | h_17 => exact rules.nothing ()
  case h_29 => exact enters .value node
  all_goals exact rules.slots (rules.types enters _) is (.refl _)

end Routines
end Follows

/-- The judgement follows the walk through the routines that are left to it as well. -/
structure Accompanies (t : Tree) (J : (α : Type) → Record α → List NodeId → Prop) : Prop
    extends Follows t J where
  switch {walk : Walker} (enters : ∀ position x, J _ (walk position x) [x]) {node : NodeId}
    {discriminant : Child} {cases : List NodeId}
    (is : t.nodes.shape? node = some (.switch discriminant cases)) :
    J _ (walkSwitch t walk node discriminant cases) [node]
  forEach {walk : Walker} (enters : ∀ position x, J _ (walk position x) [x]) {node : NodeId}
    {left right body : Child} (row : t.row node = left.toList ++ right.toList ++ body.toList)
    (head : ∀ declaration, left = some declaration → IsRoundHead t declaration) :
    J _ (walkForEach t walk node left right body) [node]

namespace Accompanies

variable (rules : Accompanies t J)

include rules

theorem valueStep {walk : Walker} (enters : ∀ position x, J _ (walk position x) [x])
    (node : NodeId) : J _ (valueStep t walk node) [node] := by
  unfold Scope.valueStep
  split
  · exact rules.nothing ()
  rename_i shape is
  have one := rules.value enters
  have all := rules.values enters
  have oneType := rules.type enters
  have allTypes := rules.types enters
  cases shape <;> dsimp only
  case identifier name => exact rules.refers (.refer .reading) is
  case function f => exact rules.walkFunction enters is
  case classLike c => exact rules.walkClass enters is
  case forIn left right body _ =>
    refine rules.forEach enters ?_ fun declaration same => .forIn (same ▸ is)
    simp [Tree.row, is]
  case forOf left right body _ =>
    refine rules.forEach enters ?_ fun declaration same => .forOf (same ▸ is)
    simp [Tree.row, is]
  case switch discriminant cases => exact rules.switch enters is
  case catchClause param annotated body => exact rules.walkCatch enters is
  case forLoop init test update body =>
    exact rules.inHeadScope (rules.seq (one init) <| rules.seq (one test) <|
      rules.seq (one update) (one body)) (.ofShape is (by simp))
  case staticBlock statements | block statements =>
    exact rules.inScope (fun _ => all statements) (.ofShape is (by simp)) (by simp)
  case objectPattern | arrayPattern | assignmentPattern | restElement =>
    exact rules.assignPattern enters (some node) .writing
  case property p =>
    by_cases computed : p.computed
    · exact rules.slots (rules.guarded (one p.key) (one p.value)) is (by simp [computed])
    · simp only [computed]
      exact rules.slots (one p.value) is (by simp [computed])
  case sourceFile statements => exact rules.slots (all statements) is (by simp)
  case variableDeclaration word declarators =>
    exact rules.fold (rules.variableDeclaration enters node word declarators) (.declarators is)
  case methodDefinition key computed _ method =>
    exact rules.slots (rules.guarded (one key) (one method)) is (by simp)
  case propertyDefinition key computed _ annotated init =>
    exact rules.slots (rules.walkField enters key computed annotated init) is (by simp)
  case importDeclaration specifiers _ _ =>
    exact rules.slots (rules.walkImport specifiers) is (List.nil_sublist _)
  case exportNamed declaration specifiers source _ =>
    exact rules.slots (rules.walkExport enters declaration specifiers source) is (by simp)
  case exportDefault a | expressionStatement a | returning a | throwing a | labeled _ a =>
    exact rules.slots (one a) is (by simp)
  case typeAlias name params annotated =>
    exact rules.slots (rules.skip (rules.observe _) fun _ => rules.skip rules.declare fun _ =>
      rules.seq (allTypes params) (oneType annotated)) is (by simp)
  case interface name params bases members =>
    exact rules.slots (rules.skip (rules.observe _) fun _ => rules.skip rules.declare fun _ =>
      rules.seq (allTypes params) (rules.seq (allTypes bases) (allTypes members))) is (by simp)
  case enum name _ members => exact rules.slots (rules.walkEnum enters name members) is (by simp)
  case update argument => exact rules.slots (rules.updateTarget enters argument) is (by simp)
  case assignment operator left right =>
    exact rules.slots (rules.walkAssignment enters operator left right) is (by simp)
  case member object property computed _ =>
    exact rules.slots (rules.seq (one object)
      (Follows.ite (fun _ => one property) fun _ => rules.nothing ())) is (by simp)
  case call c | new c =>
    exact rules.slots (rules.seq (one c.callee) <| rules.seq (allTypes c.typeArguments) <|
      all c.arguments) is
      (by simp [Shape.callChildren])
  case typeCast expression annotated =>
    exact rules.fold (rules.seq (one expression) (oneType annotated)) (.cast is)
  all_goals first
    | exact rules.nothing ()
    | exact enters .type node
    | exact rules.slots (all _) is (.refl _)

theorem walkUpTo (n : Nat) (position : Position) (node : NodeId) :
    J _ (walkUpTo t n position node) [node] := by
  induction n generalizing position node with
  | zero => exact rules.nothing ()
  | succ n ih =>
    cases position with
    | value => exact rules.valueStep ih node
    | type => exact rules.typeStep ih node

theorem declareGlobals (s : ScopeId) (globals : Globals) : J _ (declareGlobals t s globals) [] := by
  refine rules.forMQuiet fun (name, access) _ => Follows.ite (fun _ => rules.pure ()) fun _ =>
    rules.skip rules.declareImplicit fun b => ?_
  cases b with
  | none => exact rules.pure ()
  | some b => exact rules.permit b _

/-- A judgement that follows the walk holds of the walk of a tree. -/
theorem walkTree (environment : Environment) : J _ (walkTree t environment) [t.root] := by
  have body := rules.walkUpTo (2 * t.nodes.size + 2) .value t.root
  refine rules.inScope (fun s => rules.skip (rules.declareGlobals s _) fun _ => ?_)
    (.part (.inl rfl)) (by simp)
  dsimp only
  split
  · exact body
  · exact rules.inScope (fun _ => body) (.part (.inl rfl)) (by simp)

end Accompanies
end LoopCapture.Scope
