import LoopCapture.Proofs.Scope.Coverage

/-!
# Each routine of the walk covers its node

The routines look into declarators, parameters, members of enumerations and cases themselves, take
patterns apart, and call the walker at all other parts. The walker is called at a node at most once
for each position, so with enough count a walk covers the tree.
-/

namespace LoopCapture.Scope
open Syntax (Child NodeId Shape Tree Role Function Signature standing)

variable {t : Tree} {g : Graph} {x node : NodeId} {bound : Nat}

/-- The node is covered if it is a part and precedes the bound. -/
def Graph.CoversPart (g : Graph) (t : Tree) (bound : Nat) (x : NodeId) : Prop :=
  x < bound → t.nodes.HasRole x .part → g.Covers t x

theorem Graph.covers_of_parts (precede : t.ChildrenPrecede) {shape : Shape}
    (is : t.nodes.shape? node = some shape) (plain : shape.isFunction = false)
    (parts : ∀ part asked, (part, asked) ∈ shape.places → asked = .part ∧ g.CoversPart t bound part)
    (lt : node < bound) : g.Covers t node := by
  refine covers_of_houses (fun isFunction => ?_) fun y houses => ?_
  · simp [Tree.isFunction, Tree.shape?, is, plain] at isFunction
  · have before : y < node := precede node y houses.mem_childrenOf
    obtain ⟨other, asked, same, mem, stands⟩ := houses
    obtain rfl := Option.some.inj (is.symm.trans same)
    obtain ⟨rfl, covers⟩ := parts y asked mem
    exact covers (Nat.lt_trans before lt) stands

/-- Most nodes have a place for each child, where any part may stand. -/
theorem Graph.covers_of_slots (precede : t.ChildrenPrecede) {shape : Shape}
    (is : t.nodes.shape? node = some shape)
    (slots : ∀ part, some part ∈ shape.slots → g.CoversPart t bound part) (lt : node < bound)
    (plain : shape.isFunction = false) (all : shape.places = standing .part shape.children) :
    g.Covers t node := by
  refine covers_of_parts precede is plain (fun part asked mem => ?_) lt
  rw [all, Syntax.mem_standing, Shape.mem_children_iff_slots] at mem
  exact ⟨mem.2, slots part mem.1⟩

namespace PatternParts

def Covered (parts : PatternParts) (g : Graph) (t : Tree) (bound : Nat) : Prop :=
  ∀ x, x ∈ parts.types ∨ x ∈ parts.evaluated → g.CoversPart t bound x

variable {parts : PatternParts}

theorem Covered.of_evaluate {child : Child} (h : (parts.evaluate child).Covered g t bound) :
    parts.Covered g t bound ∧ ∀ x, child = some x → g.CoversPart t bound x := by
  refine ⟨fun x mem => h x ?_, fun x is => h x (.inr ?_)⟩
  · exact mem.imp_right fun mem => Array.mem_append_left _ mem
  · simp [evaluate, is]

theorem Covered.of_annotate {child : Child} (h : (parts.annotate child).Covered g t bound) :
    parts.Covered g t bound ∧ ∀ x, child = some x → g.CoversPart t bound x := by
  refine ⟨fun x mem => h x ?_, fun x is => h x (.inl ?_)⟩
  · exact mem.imp_left fun mem => Array.mem_append_left _ mem
  · simp [annotate, is]

/-- What holds after a fold and goes back over each of its steps holds before it, and each step may
tell more. -/
theorem of_foldl {α β : Type} {S : β → Prop} {Q : α → Prop} {add : β → α → β} {l : List α}
    (back : ∀ b, ∀ x ∈ l, S (add b x) → S b ∧ Q x) {b : β} (h : S (l.foldl add b)) :
    S b ∧ ∀ x ∈ l, Q x := by
  induction l generalizing b with
  | nil => exact ⟨h, by simp⟩
  | cons x l ih =>
    obtain ⟨next, later⟩ := ih (fun b y mem => back b y (List.mem_cons_of_mem x mem)) h
    obtain ⟨here, first⟩ := back b x List.mem_cons_self next
    exact ⟨here, List.forall_mem_cons.mpr ⟨first, later⟩⟩

/-- A pattern is covered when all that it is taken apart into is. -/
theorem Covered.of_addFrom (precede : t.ChildrenPrecede) {defaults : Nat}
    (h : (addFrom t parts node defaults).Covered g t bound) : parts.Covered g t bound ∧
      (node < bound → t.nodes.HasRole node .part ∨ t.nodes.HasRole node .parameter →
        g.Covers t node) := by
  induction node using Nat.strongRecOn generalizing parts defaults with
  | ind node ih =>
    -- a part that is taken apart in turn
    have into {parts : PatternParts} {child : Child} {defaults : Nat}
        (slot : ∀ part, child = some part → part < node)
        (h : (parts.into t node child defaults).Covered g t bound) :
        parts.Covered g t bound ∧ ∀ part, child = some part → g.CoversPart t bound part := by
      cases child with
      | none => exact ⟨h, by simp⟩
      | some part =>
        have lt := slot part rfl
        rw [PatternParts.into, if_pos lt] at h
        obtain ⟨before, covers⟩ := ih part lt h
        exact ⟨before, fun x same lt stands =>
          Option.some.inj same ▸ covers (Option.some.inj same ▸ lt)
          (.inl (Option.some.inj same ▸ stands))⟩
    have below {shape : Shape} (is : t.nodes.shape? node = some shape) (part : NodeId)
        (slot : some part ∈ shape.slots) : part < node :=
      precede node part (Tree.mem_children_of_slot is slot)
    rw [addFrom] at h
    split at h
    case h_1 none =>
      refine ⟨h, fun _ stands => ?_⟩
      obtain ⟨shape, is, -⟩ | ⟨shape, is, -⟩ := stands <;> simp [none] at is
    case h_2 name is =>
      exact ⟨h, fun lt _ => Graph.covers_of_parts precede is rfl (by simp [Shape.places]) lt⟩
    case h_3 properties is =>
      have steps : parts.Covered g t bound ∧
          ∀ property ∈ properties, g.CoversPart t bound property := by
        refine of_foldl (S := (Covered · g t bound)) (fun parts property mem h => ?_) h
        have lt : property < node := below is property (List.mem_map_of_mem mem)
        split at h
        · rename_i p prop
          have inner (part : NodeId) (slot : some part ∈ [p.key, p.value]) : part < node :=
            Nat.lt_trans (precede property part (Tree.mem_children_of_slot prop slot)) lt
          obtain ⟨keyed, value⟩ := into (fun part value => inner part (by simp [value])) h
          have key : parts.Covered g t bound ∧ (p.computed = true →
              ∀ part, p.key = some part → g.CoversPart t bound part) := by
            by_cases computed : p.computed
            · simpa [computed] using Covered.of_evaluate (by simpa [computed] using keyed)
            · exact ⟨by simpa [computed] using keyed, by simp [computed]⟩
          refine ⟨key.1, fun lt _ => Graph.covers_of_parts precede prop rfl ?_ lt⟩
          simp only [Shape.places, List.mem_append, Shape.mem_keyPlaces, Syntax.mem_standing,
            Option.mem_toList]
          rintro part asked (⟨computed, is, rfl⟩ | ⟨is, rfl⟩)
          · exact ⟨rfl, key.2 computed part is⟩
          · exact ⟨rfl, value part is⟩
        · have slot (part : NodeId) (same : some property = some part) : part < node :=
            Option.some.inj same ▸ lt
          obtain ⟨before, covers⟩ := into slot h
          exact ⟨before, covers property rfl⟩
      exact ⟨steps.1, fun lt _ =>
        Graph.covers_of_slots precede is (by simpa [Shape.slots] using steps.2) lt rfl rfl⟩
    case h_4 elements is =>
      have steps : parts.Covered g t bound ∧
          ∀ element ∈ elements, ∀ part, element = some part → g.CoversPart t bound part :=
        of_foldl (S := (Covered · g t bound)) (fun parts element mem h =>
          into (fun part same => below is part (same ▸ mem)) h) h
      exact ⟨steps.1, fun lt _ =>
        Graph.covers_of_slots precede is (fun part mem => steps.2 _ mem part rfl) lt rfl rfl⟩
    case h_5 left right is =>
      obtain ⟨h, last⟩ := h.of_evaluate
      obtain ⟨before, first⟩ :=
        into (fun part same => below is part (by simp [Shape.slots, same])) h
      refine ⟨before, fun lt _ => Graph.covers_of_slots precede is ?_ lt rfl rfl⟩
      simp only [Shape.slots, List.mem_cons, List.not_mem_nil, or_false]
      rintro part (rfl | rfl)
      · exact first part rfl
      · exact last part rfl
    case h_6 argument is | h_8 argument is =>
      obtain ⟨before, inner⟩ :=
        into (fun part same => below is part (by simp [Shape.slots, same])) h
      refine ⟨before, fun lt _ => Graph.covers_of_slots precede is ?_ lt rfl rfl⟩
      simp only [Shape.slots, List.mem_singleton]
      rintro part rfl
      exact inner part rfl
    case h_7 pattern _ annotated is | h_9 pattern annotated is =>
      obtain ⟨h, last⟩ := h.of_annotate
      obtain ⟨before, first⟩ :=
        into (fun part same => below is part (by simp [Shape.slots, same])) h
      refine ⟨before, fun lt _ => Graph.covers_of_slots precede is ?_ lt rfl rfl⟩
      simp only [Shape.slots, List.mem_cons, List.not_mem_nil, or_false]
      rintro part (rfl | rfl)
      · exact first part rfl
      · exact last part rfl
    case h_10 name is =>
      exact ⟨h, fun lt _ => Graph.covers_of_parts precede is rfl (by simp [Shape.places]) lt⟩
    case h_11 shape _ _ _ _ _ notParameter _ _ _ is =>
      obtain ⟨before, covers⟩ := h.of_evaluate
      refine ⟨before, fun lt stands => stands.elim (covers node rfl lt) fun stands => ?_⟩
      obtain ⟨other, same, admits⟩ := stands
      obtain rfl := Option.some.inj (is.symm.trans same)
      obtain named | param := Role.eq_of_admits admits (by decide)
      · exact Graph.covers_of_name ⟨shape, is, by simp [Role.admits, named]⟩
      · obtain ⟨_, _, _, rfl⟩ := Shape.eq_parameter_of_role param
        exact (notParameter _ _ _ rfl).elim

end PatternParts

section Routines

variable {walk : Walker} {asked : Role} (precede : t.ChildrenPrecede)
  (covers : ∀ position x role, Syntax.Role.isWalked role = true →
    (walk position x).Covers t bound [(x, role)])

include covers

-- the children of a node stand in its slots
attribute [local simp] Shape.places Shape.children Shape.slots

theorem covers_value (child : Child) :
    (value walk child).Covers t bound (standing .part child.toList) :=
  .option fun x => covers .value x .part rfl

theorem covers_values (nodes : List NodeId) :
    (values walk nodes).Covers t bound (standing .part nodes) :=
  .all fun x _ => covers .value x .part rfl

theorem covers_type (child : Child) :
    (type walk child).Covers t bound (standing .part child.toList) :=
  .option fun x => covers .type x .part rfl

theorem covers_types (role : Role) (nodes : List NodeId) (walked : role.isWalked = true) :
    (types walk nodes).Covers t bound (standing role nodes) :=
  .all fun x _ => covers .type x role walked

theorem covers_patternRest (parts : PatternParts) : (patternRest walk parts).Covers t bound
    (standing .part parts.types.toList ++ standing .part parts.evaluated.toList) :=
  .seq (covers_types covers .part _ rfl) (covers_values covers _)

omit covers in
include precede in
/-- A step that covers what a pattern is taken apart into covers the pattern. -/
theorem Record.Covers.pattern {α : Type} {p : Record α} {pattern : Child}
    (target : asked = .part ∨ asked = .parameter)
    (h : p.Covers t bound (standing .part (PatternParts.ofNode t pattern).types.toList ++
      standing .part (PatternParts.ofNode t pattern).evaluated.toList)) :
    p.Covers t bound (standing asked pattern.toList) := by
  cases pattern with
  | none => exact nothing p
  | some node =>
    intro r size x role mem lt stands
    obtain ⟨rfl, rfl⟩ := Prod.mk.inj (List.mem_singleton.mp mem)
    have parts : (PatternParts.ofNode t (some x)).Covered (p.run r).2.graph t bound :=
      fun y mem => h r size y .part (by simpa using mem)
    refine (parts.of_addFrom precede).2 lt ?_
    obtain rfl | rfl := target
    · exact .inl stands
    · exact .inr stands

include precede in
theorem covers_declarePattern (target : asked = .part ∨ asked = .parameter) {pattern : Child}
    {s : Option ScopeId} {kind : DeclarationKind} {declaration : NodeId} {owningLoop : Child}
    {isInitialized : Bool} :
    (declarePattern t walk pattern s kind declaration owningLoop isInitialized).Covers t bound
      (standing asked pattern.toList) :=
  .pattern precede target (.after fun _ => covers_patternRest covers _)

include precede in
theorem covers_assignPattern (pattern : Child) (usage : Usage) :
    (assignPattern t walk pattern usage).Covers t bound (standing .part pattern.toList) :=
  .pattern precede (.inl rfl) (.after fun _ => covers_patternRest covers _)

include precede in
/-- A pattern that is taken apart leads only to nodes before it. -/
theorem covers_assignNode {shape : Shape} (is : t.nodes.shape? node = some shape)
    (apart : shape.isTakenApart = true) (part : shape.role = .part) (usage : Usage) :
    (assignPattern t walk (some node) usage).Covers t (bound + 1) [(node, asked)] := by
  intro r size x role mem lt _
  obtain ⟨rfl, rfl⟩ := Prod.mk.inj (List.mem_singleton.mp mem)
  have rest : (assignPattern t walk (some x) usage).Covers t bound _ :=
    .after fun _ => covers_patternRest covers _
  have under := PatternParts.all_ofNode_of_isTakenApart is apart
  have before (y : NodeId)
      (mem : y ∈ (PatternParts.ofNode t (some x)).types ∨
        y ∈ (PatternParts.ofNode t (some x)).evaluated) : y < bound :=
    Nat.lt_of_lt_of_le ((mem.elim (under.types y) (under.evaluated y)).lt precede)
      (Nat.le_of_lt_succ lt)
  have parts : (PatternParts.ofNode t (some x)).Covered
      ((assignPattern t walk (some x) usage).run r).2.graph t (bound + 1) :=
    fun y mem _ => rest r size y .part (by simpa using mem) (before y mem)
  exact (parts.of_addFrom precede).2 lt (.inl ⟨shape, is, by simp [Role.admits, part]⟩)

include precede in
theorem covers_updateTarget (target : Child) :
    (updateTarget t walk target).Covers t bound (standing .part target.toList) :=
  .ite (covers_assignPattern precede covers target .updating) (covers_value covers target)

include precede

theorem covers_declareTypeParameters (s : ScopeId) (params : List NodeId) :
    (declareTypeParameters t walk s params).Covers t bound (standing .typeParameter params) := by
  refine .all fun param _ => ?_
  split
  · rename_i name constraint default is
    exact .slots precede (Nat.le_succ bound) (.after fun _ => .seq (covers_type covers constraint)
      (covers_type covers default)) is rfl (by simp)
  · rename_i other
    refine .other (fun shape is role => ?_) (by decide)
    obtain ⟨_, _, _, rfl⟩ := Shape.eq_typeParameter_of_role role
    exact other _ _ _ is

/-- The targets of a signature's parameters are overlooked. -/
theorem covers_signatureParams {params : List NodeId} {shape : Shape}
    (is : t.nodes.shape? node = some shape) (own : shape.signatureParams = params) :
    (signatureParams t walk params).Covers t bound (standing .parameter params) := by
  refine .all fun param mem => ?_
  split
  · rename_i pattern isOptional annotated isParam
    refine .fold precede (covers_type covers annotated) isParam (by simp [Shape.isFunction]) ?_
      (Nat.le_succ bound)
    intro x role place
    obtain ⟨slot, rfl⟩ := Syntax.mem_standing.mp place
    rw [Shape.mem_children_iff_slots, Shape.slots] at slot
    obtain rfl | same : some x = pattern ∨ some x = annotated := by simpa using slot
    · exact .inr (.target is (own ▸ mem) isParam)
    · exact .inl (by simp [← same])
  · rename_i other
    refine .other (fun shape is role => ?_) (by decide)
    obtain ⟨_, _, _, rfl⟩ := Shape.eq_parameter_of_role role
    exact other _ _ _ is

omit precede in
theorem covers_signatureKey (key : Child) :
    (signatureKey t walk key).Covers t bound (standing .part key.toList) := by
  cases key with
  | none => exact .nothing _
  | some x =>
    unfold signatureKey
    split
    case h_5 => exact covers_value covers (some x)
    all_goals
      rename_i is
      refine .name fun shape same _ => ?_
      cases is.symm.trans same <;> rfl

theorem covers_walkSignature {s : Signature} {shape : Shape} (is : t.nodes.shape? node = some shape)
    (own : shape.signatureParams = s.params) : (walkSignature t walk s).Covers t bound
      (Shape.signaturePlaces s) := by
  refine (Record.Covers.seq (covers_signatureKey covers s.key) <|
    .seq (covers_types covers .typeParameter s.typeParameters rfl) <|
    .seq (covers_signatureParams precede covers is own) (covers_type covers s.returnType)).mono ?_
  simp [Shape.signaturePlaces]

theorem covers_template (literal : Child) :
    (match t.shape? literal with
      | some (.template _ substitutions) => types walk substitutions
      | _ => pure () : Record Unit).Covers t bound (standing .template literal.toList) := by
  cases literal with
  | none => exact .nothing _
  | some x =>
    split
    · rename_i substitutions is
      exact (covers_types covers .part substitutions rfl).slots precede (Nat.le_succ bound) is rfl
        (by simp)
    · rename_i other
      refine .other (fun shape is role => ?_) (by decide)
      obtain ⟨_, _, rfl⟩ := Shape.eq_template_of_role role
      exact other _ _ is

omit covers precede in
/-- A node that is walked stands as none of what routines look into themselves. -/
theorem Record.Covers.absent {α : Type} {p : Record α} (walked : asked.isWalked = true)
    {shape : Shape} (is : t.nodes.shape? node = some shape) (role : shape.role.isWalked = false)
    (other : shape.role ≠ .template) (unnamed : shape.role ≠ .name) :
    p.Covers t bound [(node, asked)] := by
  refine .name fun same is' admits => ?_
  obtain rfl := Option.some.inj (is.symm.trans is')
  generalize shape.role = stands at *
  cases asked <;> cases stands <;> simp_all [Role.isWalked, Role.admits]

/-- A node is walked as a type when it is one; another node is walked as a value. -/
theorem covers_typeStep (walked : asked.isWalked = true)
    (switch : ∀ shape, t.nodes.shape? node = some shape → shape.standsAsType = false →
      (walk .value node).Covers t (bound + 1) [(node, asked)]) :
    (typeStep t walk node).Covers t (bound + 1) [(node, asked)] := by
  have rule {p : Record Unit} {places : Syntax.Places} {shape : Shape} (h : p.Covers t bound places)
      (is : t.nodes.shape? node = some shape) (plain : shape.isFunction = false)
      (all : shape.places ⊆ places) : p.Covers t (bound + 1) [(node, asked)] :=
    h.slots precede (Nat.le_refl (bound + 1)) is plain all
  unfold typeStep
  split
  · rename_i none
    exact .name (by simp [none])
  rename_i shape is
  split
  case h_1 name => exact rule (.nothing _) is rfl (by simp)
  case h_2 name arguments =>
    exact rule (.after fun _ => covers_types covers .part arguments rfl) is rfl (by simp)
  case h_3 left right => exact rule (.nothing _) is rfl (by simp)
  case h_4 name => exact rule (.nothing _) is rfl (by simp)
  case h_5 s | h_6 s | h_7 s =>
    exact rule (covers_walkSignature precede covers is rfl) is rfl (by simp)
  case h_8 params annotated =>
    exact rule (.seq (covers_signatureParams precede covers is rfl)
      (covers_type covers annotated)) is
      rfl (by simp)
  case h_9 key computed _ annotated =>
    exact rule (.key (covers_value covers key) (covers_type covers annotated)) is rfl (by simp)
  case h_10 name constraint default =>
    exact rule (.seq (covers_type covers constraint) (covers_type covers default)) is rfl (by simp)
  case h_11 annotated => exact rule (covers_type covers annotated) is rfl (by simp)
  case h_12 literal => exact rule (covers_template precede covers literal) is rfl (by simp)
  case h_13 | h_15 | h_16 | h_17 => exact rule (.nothing _) is rfl (by simp)
  case h_14 => exact .absent walked is rfl (by simp [Shape.role]) (by simp [Shape.role])
  case h_26 | h_27 =>
    refine rule (.append (covers_types covers .typeParameter _ rfl)
      (covers_types covers .part _ rfl)) is rfl ?_
    rintro ⟨x, role⟩ place
    simp only [Shape.places, Syntax.mem_standing, List.mem_append] at place ⊢
    simp only [Shape.mem_children_iff_slots, Shape.slots, List.mem_cons]
    grind
  case h_29 =>
    refine switch _ is ?_
    cases shape <;> first | rfl | grind
  all_goals exact rule (covers_types covers .part _ rfl) is rfl (List.Subset.refl _)

theorem covers_variableDeclaration (node : NodeId) (word : Syntax.DeclarationWord)
    (declarators : List NodeId) : (variableDeclaration t walk node word declarators).Covers t bound
      (standing .declarator declarators) := by
  refine .after fun _ => .after fun _ => .all fun declarator _ => ?_
  split
  · rename_i target annotated init is
    exact .slots precede (Nat.le_succ bound)
      (.seq (covers_declarePattern precede covers (.inl rfl)) <|
      .seq (covers_type covers annotated) (covers_value covers init)) is rfl (by simp)
  · rename_i other
    refine .other (fun shape is role => ?_) (by decide)
    obtain ⟨_, _, _, rfl⟩ := Shape.eq_variableDeclarator_of_role role
    exact other _ _ _ is

omit precede covers in
theorem Record.Covers.inHeadScope {lexical : Bool} {step : Record Unit} {places : Syntax.Places}
    (h : step.Covers t bound places) : (inHeadScope lexical node step).Covers t bound places :=
  .ite (.inScope fun _ => h) h

theorem covers_walkForEach (left right body : Child) :
    (walkForEach t walk node left right body).Covers t bound
      (standing .part left.toList ++
        (standing .part right.toList ++ standing .part body.toList)) := by
  have rest : (do value walk right; value walk body : Record Unit).Covers t bound
      (standing .part right.toList ++ standing .part body.toList) :=
    .seq (covers_value covers right) (covers_value covers body)
  refine .inHeadScope ?_
  split
  · rename_i declaration word declarators is
    have first : (variableDeclaration t walk declaration word declarators).Covers t bound
        [(declaration, .part)] :=
      (covers_variableDeclaration precede covers declaration word declarators).slots precede
        (Nat.le_succ bound) is rfl (by simp)
    exact .seq first (.after fun _ => rest)
  · exact .seq (covers_assignPattern precede covers _ .writing) rest

theorem covers_functionBody (f : Function) :
    (functionBody t walk f).Covers t bound (standing .part f.body.toList) := by
  unfold functionBody
  split
  · rename_i statements is
    obtain ⟨x, same, is⟩ := Option.bind_eq_some_iff.mp is
    rw [same]
    exact (covers_values covers statements).slots precede (Nat.le_succ bound) is rfl (by simp)
  · exact covers_value covers f.body

theorem covers_functionParts (f : Function) (s : ScopeId) :
    (functionParts t walk node f s).Covers t bound (Shape.functionPlaces f) := by
  refine (Record.Covers.seq (covers_declareTypeParameters precede covers s f.typeParameters) <|
    .seq (.all fun param _ => covers_declarePattern precede covers (.inr rfl)) <|
    .seq (covers_type covers f.returnType) (covers_functionBody precede covers f)).mono ?_
  simp [Shape.functionPlaces]

theorem covers_walkFunctionScope (f : Function) :
    (walkFunctionScope t walk node f).Covers t bound (Shape.functionPlaces f) :=
  .inScope fun s => .ite (covers_functionParts precede covers f s)
    (.after fun _ => covers_functionParts precede covers f s)

theorem covers_walkFunction (f : Function) :
    (walkFunction t walk node f).Covers t bound (Shape.functionPlaces f) := by
  have own : (walkFunctionScope t walk node f).Covers t bound (Shape.functionPlaces f) :=
    covers_walkFunctionScope precede covers f
  have named : (inScope .functionExpressionName node fun s => do
      declare t (some s) f.name .functionExpressionName node
      walkFunctionScope t walk node f).Covers t bound (Shape.functionPlaces f) :=
    .inScope fun _ => .after fun _ => own
  exact .ite (.after fun _ => .after fun _ => .ite named own) (.ite named own)

omit precede covers in
theorem scopes_walkFunction (inside : node < t.nodes.size) (f : Function) :
    (walkFunction t walk node f).Scopes t node := by
  have own : (if f.form = .expression ∧ f.name.isSome then
      inScope .functionExpressionName node fun s => do
        declare t (some s) f.name .functionExpressionName node
        walkFunctionScope t walk node f
      else walkFunctionScope t walk node f).Scopes t node :=
    .ite (.inScope inside) (.inScope inside)
  exact .ite (.after fun _ => .after fun _ => own) own

theorem covers_walkClass (c : Syntax.Class) :
    (walkClass t walk node c).Covers t bound (Shape.classLike c).places := by
  have inside : (inScope .classBody node fun s => do
      declare t (some s) c.name .className node
      declareTypeParameters t walk s c.typeParameters
      value walk c.superClass
      types walk c.implements
      values walk c.members).Covers t bound (Shape.classLike c).places := by
    refine .inScope fun s => .after fun _ => .mono
      (.seq (covers_declareTypeParameters precede covers s c.typeParameters) <|
        .seq (covers_value covers c.superClass) <| .seq (covers_types covers .part c.implements rfl)
        (covers_values covers c.members)) ?_
    simp [Shape.places]
  exact .ite (.after fun _ => .after fun _ => inside) inside

omit precede in
theorem covers_walkField (key : Child) (computed : Bool) (annotated init : Child) :
    (walkField walk key computed annotated init).Covers t bound
      (Shape.keyPlaces key computed ++
        (standing .part annotated.toList ++ standing .part init.toList)) :=
  .key (covers_value covers key) <| .seq (covers_type covers annotated) <|
    .option fun x => .inScope fun _ => covers .value x .part rfl

theorem covers_walkSwitch (discriminant : Child) (cases : List NodeId) :
    (walkSwitch t walk node discriminant cases).Covers t bound
      (standing .part discriminant.toList ++ standing .switchCase cases) := by
  refine .seq (covers_value covers discriminant) (.inScope fun _ => .all fun case _ => ?_)
  split
  · rename_i test consequent is
    exact .slots precede (Nat.le_succ bound) (.seq (covers_value covers test)
      (covers_values covers consequent)) is rfl (by simp)
  · rename_i other
    refine .other (fun shape is role => ?_) (by decide)
    obtain ⟨_, _, rfl⟩ := Shape.eq_switchCase_of_role role
    exact other _ _ is

theorem covers_walkCatch (param annotated body : Child) :
    (walkCatch t walk node param annotated body).Covers t bound (standing .part param.toList ++
      (standing .part annotated.toList ++ standing .part body.toList)) :=
  .inScope fun _ => .seq (covers_declarePattern precede covers (.inl rfl)) <|
    .seq (covers_type covers annotated) (covers_value covers body)

/-- The names of the members of an enumeration are overlooked. -/
theorem covers_walkEnum (name : Child) (members : List NodeId) :
    (walkEnum t walk node name members).Covers t bound (standing .enumMember members) := by
  refine .after fun _ => .after fun _ => .all fun member _ => ?_
  split
  · rename_i key initializer is
    refine .fold precede (covers_value covers initializer) is (by simp [Shape.isFunction]) ?_
      (Nat.le_succ bound)
    intro x role place
    obtain ⟨slot, rfl⟩ := Syntax.mem_standing.mp place
    rw [Shape.mem_children_iff_slots, Shape.slots] at slot
    obtain rfl | same : some x = key ∨ some x = initializer := by simpa using slot
    · exact .inr (.memberName is)
    · exact .inl (by simp [← same])
  · rename_i other
    refine .other (fun shape is role => ?_) (by decide)
    obtain ⟨_, _, rfl⟩ := Shape.eq_enumMember_of_role role
    exact other _ _ is

theorem covers_walkAssignment (operator : Token.Kind) (left right : Child) :
    (walkAssignment t walk operator left right).Covers t bound
      (standing .part left.toList ++ standing .part right.toList) := by
  have rest := covers_value covers right
  exact .ite (.seq (covers_assignPattern precede covers left .writing) rest)
    (.seq (covers_updateTarget precede covers left) rest)

/-- A node is walked as a value unless it is a type. -/
theorem covers_valueStep (walked : asked.isWalked = true)
    (switch : ∀ shape, t.nodes.shape? node = some shape → shape.standsAsType = true →
      (walk .type node).Covers t (bound + 1) [(node, asked)]) :
    (valueStep t walk node).Covers t (bound + 1) [(node, asked)] := by
  have rule {p : Record Unit} {places : Syntax.Places} {shape : Shape} (h : p.Covers t bound places)
      (is : t.nodes.shape? node = some shape) (plain : shape.isFunction = false)
      (all : shape.places ⊆ places) : p.Covers t (bound + 1) [(node, asked)] :=
    h.slots precede (Nat.le_refl (bound + 1)) is plain all
  unfold valueStep
  split
  · rename_i none
    exact .name (by simp [none])
  rename_i shape is
  have one := covers_value covers
  have all := covers_values covers
  have oneType := covers_type covers
  cases shape <;> dsimp only
  case function f =>
    have inside : node < t.nodes.size := by
      obtain ⟨n, found, -⟩ := Option.map_eq_some_iff.mp is
      exact (Array.getElem?_eq_some_iff.mp found).1
    exact .fold precede (covers_walkFunction precede covers f) is
      (fun _ => scopes_walkFunction inside f) (fun _ _ => .inl) (Nat.le_refl _)
  case classLike c => exact rule (covers_walkClass precede covers c) is rfl (List.Subset.refl _)
  case forIn left right body _ | forOf left right body _ =>
    exact rule (covers_walkForEach precede covers left right body) is rfl (by simp)
  case objectPattern | arrayPattern | assignmentPattern | restElement =>
    exact covers_assignNode precede covers is rfl rfl .writing
  case parameter | variableDeclarator | enumMember =>
    exact .absent walked is rfl (by simp [Shape.role]) (by simp [Shape.role])
  case importDeclaration specifiers source _ =>
    refine .fold precede (.nothing _) is (by simp [Shape.isFunction]) ?_ (Nat.le_refl _)
    intro x role place
    obtain ⟨rfl, -⟩ : source = some x ∧ role = .part := by simpa [Shape.places] using place
    exact .inr (.imported is)
  case sourceFile statements => exact rule (all statements) is rfl (by simp)
  case variableDeclaration word declarators =>
    exact rule (covers_variableDeclaration precede covers node word declarators) is rfl (by simp)
  case methodDefinition key computed _ method =>
    exact rule (.key (one key) (one method)) is rfl (by simp)
  case propertyDefinition key computed _ annotated init =>
    exact rule (covers_walkField covers key computed annotated init) is rfl (by simp)
  case staticBlock statements | block statements =>
    exact rule (.inScope fun _ => all statements) is rfl (by simp)
  case exportNamed declaration specifiers source _ =>
    exact rule (.seq (one declaration) (.nothing _)) is rfl (by simp)
  case exportDefault a | expressionStatement a | returning a | throwing a | labeled _ a =>
    exact rule (one a) is rfl (by simp)
  case typeAlias name params annotated =>
    exact rule (.after fun _ => .after fun _ =>
      .seq (covers_types covers .typeParameter params rfl) (oneType annotated)) is rfl (by simp)
  case interface name params bases members =>
    exact rule (.after fun _ => .after fun _ =>
      .seq (covers_types covers .typeParameter params rfl) <|
      .seq (covers_types covers .part bases rfl) (covers_types covers .part members rfl)) is rfl
      (by simp)
  case enum name _ members =>
    exact rule (covers_walkEnum precede covers name members) is rfl (by simp)
  case forLoop init test update body =>
    exact rule (.inHeadScope <| .seq (one init) <| .seq (one test) <|
      .seq (one update) (one body)) is
      rfl (by simp)
  case switch discriminant cases =>
    exact rule (covers_walkSwitch precede covers discriminant cases) is rfl (by simp)
  case catchClause param annotated body =>
    exact rule (covers_walkCatch precede covers param annotated body) is rfl (by simp)
  case property p => exact rule (.key (one p.key) (one p.value)) is rfl (by simp)
  case update argument => exact rule (covers_updateTarget precede covers argument) is rfl (by simp)
  case assignment operator left right =>
    exact rule (covers_walkAssignment precede covers operator left right) is rfl (by simp)
  case member object property computed _ =>
    cases computed
    · exact rule (.seq (one object) (.nothing _)) is rfl (by simp [Shape.keyPlaces])
    · exact rule (.seq (one object) (one property)) is rfl (List.Subset.refl _)
  case call c | new c =>
    exact rule (.seq (one c.callee) <| .seq (covers_types covers .part c.typeArguments rfl) <|
      all c.arguments) is rfl (by simp [Shape.callChildren])
  case typeCast expression annotated =>
    exact rule (.seq (one expression) (oneType annotated)) is rfl (by simp)
  case ifElse | whileLoop | doWhile | tryCatch | withObject | switchCase | template | taggedTemplate
    | array | object | spread | unary | binary | logical | conditional | sequence | await | yield
    | importCall | nonNull => exact rule (all _) is rfl (List.Subset.refl _)
  case identifier | propertyName | privateName | empty | debugger | breaking | continuing | literal
    | this | super | metaProperty | exportAll | importSpecifier | exportSpecifier =>
    exact rule (.nothing _) is rfl (List.Subset.refl _)
  all_goals exact switch _ is rfl

end Routines

variable (precede : t.ChildrenPrecede)

include precede

/-- With enough count a walk covers the node it is called at. A node is walked once as a value and
once as a type, and what it leads to has smaller places. -/
theorem covers_walkUpTo (node : NodeId) {n : Nat} (enough : 2 * node + 2 ≤ n) (position : Position)
    {asked : Role} (walked : asked.isWalked = true) :
    (walkUpTo t n position node).Covers t (node + 1) [(node, asked)] := by
  induction node using Nat.strongRecOn generalizing n position asked with
  | ind node ih =>
    have lower {m : Nat} (le : 2 * node ≤ m) (position : Position) (x : NodeId) (role : Role)
        (walked : role.isWalked = true) :
        (walkUpTo t m position x).Covers t node [(x, role)] := by
      intro r size y other mem lt stands
      obtain ⟨rfl, rfl⟩ := Prod.mk.inj (List.mem_singleton.mp mem)
      exact ih y lt (by grind) position walked r size y other mem (Nat.lt_succ_self y) stands
    have typed {m : Nat} (le : 2 * node ≤ m)
        (switch : ∀ shape, t.nodes.shape? node = some shape → shape.standsAsType = false →
          (walkUpTo t m .value node).Covers t (node + 1) [(node, asked)]) :
        (walkUpTo t (m + 1) .type node).Covers t (node + 1) [(node, asked)] :=
      covers_typeStep precede (lower le) walked switch
    have valued {m : Nat} (le : 2 * node ≤ m)
        (switch : ∀ shape, t.nodes.shape? node = some shape → shape.standsAsType = true →
          (walkUpTo t m .type node).Covers t (node + 1) [(node, asked)]) :
        (walkUpTo t (m + 1) .value node).Covers t (node + 1) [(node, asked)] :=
      covers_valueStep precede (lower le) walked switch
    obtain ⟨n, rfl⟩ := Nat.exists_eq_add_of_le' enough
    cases position with
    | value =>
      refine valued (by grind) fun shape is asType => typed (m := n + 2 * node) (by grind) ?_
      intro other same asValue
      grind
    | type =>
      refine typed (by grind) fun shape is asValue => valued (m := n + 2 * node) (by grind) ?_
      intro other same asType
      grind

theorem covers_walkTree (root : t.nodes.HasRole t.root .part) (environment : Environment) :
    ((walkTree t environment).run { graph := .empty t }).2.graph.Covers t t.root := by
  have inside : t.root < t.nodes.size := by
    obtain ⟨shape, is, -⟩ := root
    obtain ⟨n, found, -⟩ := Option.map_eq_some_iff.mp is
    exact (Array.getElem?_eq_some_iff.mp found).1
  have body : (walkUpTo t (2 * t.nodes.size + 2) .value t.root).Covers t (t.root + 1)
      [(t.root, .part)] := covers_walkUpTo precede t.root (by grind) .value rfl
  have walk : (walkTree t environment).Covers t (t.root + 1) [(t.root, .part)] := by
    refine .inScope fun s => .after fun _ => ?_
    dsimp only
    split
    · exact body
    · exact .inScope fun _ => body
  exact walk _ (by simp [Graph.empty]) t.root .part (List.mem_singleton_self _)
    (Nat.lt_succ_self t.root) root

end LoopCapture.Scope
