import LoopCapture.Proofs.Scope.Licit
import LoopCapture.Proofs.Scope.Parts

/-!
# The walk takes licit steps

Each routine of the walk is licit when the walker is licit on what is under the node. What a routine
relies on is known before its first step and stays known: which nodes the open scope is around, and
which scopes own variables.
-/

namespace LoopCapture

/-- The shapes of nodes that are walked as types also where values stand. -/
def Syntax.Shape.standsAsType : Syntax.Shape → Bool
  | .typeParameter .. | .typeKeyword _ | .typeReference .. | .qualifiedName .. | .typeQuery _
  | .typeLiteral _ | .propertySignature .. | .methodSignature _ | .callSignature _
  | .indexSignature .. | .functionType _ | .arrayType _ | .tupleType _ | .unionType _
  | .intersectionType _ | .literalType _ | .typeOperator .. | .indexedAccessType ..
  | .conditionalType .. | .inferType _ | .mappedType .. | .typePredicate .. => true
  | _ => false

namespace Scope
open Syntax (Child NodeId Shape Tree Function Class Signature)

/-- A recording whose tables agree and have a place for every node. -/
structure Recording.Fits (t : Tree) (r : Recording) : Prop where
  consistent : r.Consistent
  nodes : r.graph.nodeScopes.size = t.nodes.size

/-- A recording whose open scope is not that of a name and is around the given nodes, and in which
the given scopes own variables. -/
structure Recording.Ready (t : Tree) (P : NodeId → Prop) (V : ScopeId → Prop) (r : Recording) :
    Prop extends r.Fits t where
  surrounds : ∀ x, P x → r.Surrounds t x
  owners : ∀ s, V s → r.graph.OwnsVariables s
  plain : ∀ s, r.current = some s → ¬ r.graph.IsNameScope s

/-- A program takes licit steps from every recording that is ready for it. -/
def Record.Walks {α : Type} (t : Tree) (P : NodeId → Prop) (V : ScopeId → Prop) (p : Record α) :
    Prop := ∀ r, r.Ready t P V → p.Licit t r

variable {t : Tree} {P Q : NodeId → Prop} {V W : ScopeId → Prop}

theorem Recording.Fits.run {α : Type} {r : Recording} (h : r.Fits t) (p : Record α) :
    (p.run r).2.Fits t where
  consistent := p.consistent_run h.consistent
  nodes := (p.size_nodeScopes_run r).trans h.nodes

theorem Recording.Fits.enter {r : Recording} (h : r.Fits t) (kind : ScopeKind) (block : NodeId) :
    (r.enter kind block).Fits t where
  consistent := h.consistent.enter kind block
  nodes := by simpa [Recording.enter, Graph.addScope] using h.nodes

theorem Recording.Ready.imp {r : Recording} (h : r.Ready t P V) (fewer : ∀ x, Q x → P x)
    (owners : ∀ s, W s → V s) : r.Ready t Q W :=
  ⟨h.toFits, fun x q => h.surrounds x (fewer x q), fun s w => h.owners s (owners s w), h.plain⟩

theorem Recording.Ready.run {α : Type} {r : Recording} (h : r.Ready t P V) (p : Record α) :
    (p.run r).2.Ready t P V where
  toFits := h.toFits.run p
  plain s opened := by
    have before : r.current = some s := (p.grows_run r).current_eq ▸ opened
    rw [Graph.isNameScope_congr (p.frame?_run (h.consistent.sound.current s before))]
    exact h.plain s before
  surrounds x q := (p.surrounds_run h.consistent.sound x).mpr (h.surrounds x q)
  owners s v := (h.owners s v).of_frames fun _ _ found =>
    (p.frame?_run (Graph.lt_size_of_frame? found)).trans found

/-- A new scope is around what is in the node that opens it, and that of a function around what is
under the node. -/
theorem Recording.surrounds_enter (r : Recording) {kind : ScopeKind} {block x : NodeId}
    (inside : t.Below x block ∧ (kind = .function → x ≠ block)) :
    (r.enter kind block).Surrounds t x := by
  intro s opened f found
  obtain rfl := Option.some.inj opened
  simp only [Recording.enter, Graph.frame?_addScope, if_pos] at found
  obtain rfl := Option.some.inj found
  exact inside

theorem Recording.not_isNameScope_enter (r : Recording) {kind : ScopeKind} {block : NodeId}
    (plain : kind ≠ .functionExpressionName) {s : ScopeId}
    (opened : (r.enter kind block).current = some s) :
    ¬ (r.enter kind block).graph.IsNameScope s := by
  rintro ⟨f, found, names⟩
  obtain rfl := Option.some.inj opened
  simp only [Recording.enter, Graph.frame?_addScope, if_pos] at found
  obtain rfl := Option.some.inj found
  exact plain names

theorem Recording.Fits.ready_enter {r : Recording} (h : r.Fits t) {kind : ScopeKind}
    (plain : kind ≠ .functionExpressionName) (block : NodeId) : (r.enter kind block).Ready t
      (fun x => t.Below x block ∧ (kind = .function → x ≠ block)) fun _ => False where
  toFits := h.enter kind block
  surrounds _ := r.surrounds_enter
  owners _ none := none.elim
  plain _ := r.not_isNameScope_enter plain

theorem Recording.Fits.ready_enter_other {r : Recording} (h : r.Fits t) {kind : ScopeKind}
    (other : kind ≠ .function ∧ kind ≠ .functionExpressionName) {block : NodeId} :
    (r.enter kind block).Ready t (· = block) fun _ => False := by
  refine (h.ready_enter other.2 block).imp ?_ fun _ => id
  rintro x rfl
  exact ⟨.refl x, fun is => absurd is other.1⟩

/-- Any scope may be opened in a scope that is not that of a name, but that of a function expression
with a name. -/
theorem Recording.Ready.hosts {r : Recording} (h : r.Ready t P V) {kind : ScopeKind}
    {block : NodeId}
    (unnamed : kind = .function → ∀ f : Function, t.nodes.shape? block = some (.function f) →
      ¬ (f.form = .expression ∧ f.name.isSome = true)) : r.graph.Hosts t r.current kind block where
  single s opened names := absurd names (h.plain s opened)
  named f own function is form text := by
    refine absurd ⟨form, ?_⟩ (unnamed function f is)
    cases name : f.name with
    | none => simp [name, Tree.nameText?, Tree.shape?] at text
    | some node => rfl

theorem Recording.Surrounds.under (precede : t.ChildrenPrecede) {r : Recording} {x node : NodeId}
    (h : r.Surrounds t node) (under : t.Under x node) : r.Surrounds t x := by
  intro s opened f found
  obtain ⟨below, own⟩ := h s opened f found
  refine ⟨under.below.trans below, fun _ same => ?_⟩
  exact absurd (under.lt precede) (Nat.not_lt.mpr (same ▸ below.le precede))

namespace Record.Walks

theorem imp {α : Type} {p : Record α} (h : p.Walks t P V) (fewer : ∀ x, P x → Q x)
    (owners : ∀ s, V s → W s) : p.Walks t Q W :=
  fun r ready => h r (ready.imp fewer owners)

theorem pure {α : Type} (a : α) : (Pure.pure a : Record α).Walks t P V := fun _ _ => trivial

theorem bind {α β : Type} {p : Record α} {next : α → Record β} (h : p.Walks t P V)
    (rest : ∀ a, (next a).Walks t P V) : (p >>= next).Walks t P V :=
  fun r ready => ⟨h r ready, rest _ _ (ready.run p)⟩

theorem seq {α β : Type} {p : Record α} {q : Record β} (h : p.Walks t P V) (h' : q.Walks t P V) :
    (p >>= fun _ => q).Walks t P V :=
  h.bind fun _ => h'

theorem ite {α : Type} {c : Prop} [Decidable c] {p q : Record α} (h : c → p.Walks t P V)
    (h' : ¬ c → q.Walks t P V) : (if c then p else q).Walks t P V := by
  split
  · exact h ‹_›
  · exact h' ‹_›

/-- One step that is taken on a condition, and another that is taken after it or in its place. -/
theorem guarded {α β : Type} {c : Prop} [Decidable c] {p : Record α} {q : Record β}
    (h : c → p.Walks t P V) (h' : q.Walks t P V) :
    (if c then p >>= fun _ => q else q).Walks t P V :=
  ite (fun is => (h is).seq h') fun _ => h'

theorem discard {α : Type} {p : Record α} (h : p.Walks t P V) : (discard p).Walks t P V :=
  fun r ready => ⟨h r ready, trivial⟩

theorem forM {α : Type} {l : List α} {f : α → Record Unit} (h : ∀ x ∈ l, (f x).Walks t P V) :
    (l.forM f).Walks t P V := by
  induction l with
  | nil => exact pure ()
  | cons x l ih =>
    exact (h x List.mem_cons_self).seq (ih fun y mem => h y (List.mem_cons_of_mem x mem))

theorem option {child : Child} {f : NodeId → Record Unit}
    (h : ∀ x, child = some x → (f x).Walks t P V) : (child.forM f).Walks t P V := by
  cases child with
  | none => exact pure ()
  | some x => exact h x rfl

theorem ofUnder {α : Type} {node : NodeId} {p : Record α} (precede : t.ChildrenPrecede)
    (h : p.Walks t (t.Under · node) V) : p.Walks t (· = node) V :=
  fun r ready => h r { ready with
    surrounds := fun _ under => (ready.surrounds node rfl).under precede under }

theorem refer {node : NodeId} (h : P node) (usage : Usage) :
    (refer t node usage).Walks t P V := by
  unfold Scope.refer
  split
  · exact fun r ready => ⟨⟨ready.surrounds node h, ready.plain⟩, ‹_›, rfl⟩
  · exact pure ()

theorem referTimes {node : NodeId} (h : P node) (usage : Usage) (n : Nat) :
    (referTimes t node usage n).Walks t P V := by
  induction n with
  | zero => exact pure ()
  | succ n ih => exact (refer h usage).seq ih

/-- A declaration may be recorded where variables are owned, or when it is no `var`. -/
theorem declare {s : Option ScopeId} {kind : DeclarationKind}
    (owned : kind = .varWord → ∀ s', s = some s' → V s') (name : Child) (declaration : NodeId)
    {owningLoop : Child} (headed : ∀ loop, owningLoop = some loop → t.IsHeadOf declaration loop) :
    (declare t s name kind declaration owningLoop).Walks t P V := by
  unfold Scope.declare
  split
  · rename_i s' _ _
    exact discard fun r ready => ⟨fun var => ready.owners s' (owned var s' rfl), headed⟩
  · exact pure ()

theorem declareHere {kind : DeclarationKind} (lexical : kind ≠ .varWord) (name : Child)
    (declaration : NodeId) {s : Option ScopeId} :
    (Scope.declare t s name kind declaration).Walks t P V :=
  declare (fun var => absurd var lexical) name declaration (by simp)

theorem openScope : openScope.Walks t P V := fun _ _ => trivial

/-- A scope that is not that of a function may be opened by a node that is no function. -/
theorem inScope {node : NodeId} {kind : ScopeKind}
    (other : kind ≠ .function ∧ kind ≠ .functionExpressionName)
    (plain : t.isFunction (some node) = false) {step : ScopeId → Record Unit}
    (inner : ∀ s, (step s).Walks t (· = node) fun _ => False) :
    (Record.inScope kind node step).Walks t (· = node) V := by
  intro r ready
  exact ⟨⟨ready.surrounds node rfl, ready.hosts fun is => absurd is other.1⟩,
    inner _ _ (ready.ready_enter_other other), fun _ is => absurd is (by simp [plain])⟩

end Record.Walks

/-- A program leaves a node with the scope of a function. -/
def Record.Opens (t : Tree) (node : NodeId) (p : Record Unit) : Prop :=
  ∀ r : Recording, r.Fits t → (p.run r).2.graph.HasFunctionScope node

theorem Record.Opens.bind {α : Type} {node : NodeId} {p : Record α} {next : α → Record Unit}
    (h : ∀ a, (next a).Opens t node) : (p >>= next).Opens t node :=
  fun _ fits => h _ _ (fits.run p)

theorem Record.Opens.ite {node : NodeId} {c : Prop} [Decidable c] {p q : Record Unit}
    (h : p.Opens t node) (h' : q.Opens t node) : (if c then p else q).Opens t node := by
  split
  · exact h
  · exact h'

theorem Record.Opens.inScope {node : NodeId} {kind : ScopeKind} {step : ScopeId → Record Unit}
    (h : ∀ s, (step s).Opens t node) : (Record.inScope kind node step).Opens t node :=
  fun _ fits => h _ _ (fits.enter kind node)

/-- The walker takes licit steps at a node, and at a function it opens the scope of the function
last. -/
structure Walker.Calls (t : Tree) (walk : Walker) (node : NodeId) : Prop where
  walks : ∀ position, (walk position node).Walks t (· = node) fun _ => False
  opens : t.isFunction (some node) = true → (walk .value node).Opens t node

/-- A node may open a scope of its own around the walk of it. -/
theorem Walker.Calls.walks_inScope {walk : Walker} {node : NodeId} (calls : walk.Calls t node)
    {kind : ScopeKind} (other : kind ≠ .function ∧ kind ≠ .functionExpressionName) :
    (inScope kind node fun _ => walk .value node).Walks t (· = node) V := by
  intro r ready
  exact ⟨⟨ready.surrounds node rfl, ready.hosts fun is => absurd is other.1⟩,
    calls.walks .value _ (ready.ready_enter_other other),
    fun _ isFunction => calls.opens isFunction _ (ready.enter kind node)⟩

/-- The walker may be called at every node under the given one. -/
def Walker.Lower (t : Tree) (walk : Walker) (node : NodeId) : Prop :=
  ∀ x, t.Under x node → walk.Calls t x

section Routines

variable {walk : Walker} {node : NodeId} (lower : walk.Lower t node)

include lower

/-- What is walked inside a node takes licit steps where the open scope is around all that is under
the node. -/
theorem walks_call {x : NodeId} (under : t.Under x node) (position : Position) :
    (walk position x).Walks t (t.Under · node) V :=
  ((lower x under).walks position).imp (by rintro _ rfl; exact under) (fun _ => False.elim)

theorem walks_value {child : Child} (under : ∀ x, child = some x → t.Under x node) :
    (value walk child).Walks t (t.Under · node) V :=
  .option fun x is => walks_call lower (under x is) .value

theorem walks_type {child : Child} (under : ∀ x, child = some x → t.Under x node) :
    (type walk child).Walks t (t.Under · node) V :=
  .option fun x is => walks_call lower (under x is) .type

theorem walks_values {l : List NodeId} (under : ∀ x ∈ l, t.Under x node) :
    (values walk l).Walks t (t.Under · node) V :=
  .forM fun x mem => walks_call lower (under x mem) .value

theorem walks_types {l : List NodeId} (under : ∀ x ∈ l, t.Under x node) :
    (types walk l).Walks t (t.Under · node) V :=
  .forM fun x mem => walks_call lower (under x mem) .type

theorem walks_patternRest {parts : PatternParts} (all : parts.All (t.Under · node)) :
    (patternRest walk parts).Walks t (t.Under · node) V :=
  (walks_types lower fun x mem => all.types x (by simpa using mem)).seq
    (walks_values lower fun x mem => all.evaluated x (by simpa using mem))

omit lower in
theorem all_ofNode_under {pattern : Child} (under : ∀ x, pattern = some x → t.Under x node) :
    (PatternParts.ofNode t pattern).All (t.Under · node) := by
  cases pattern with
  | none => exact PatternParts.all_empty
  | some x => exact (PatternParts.all_ofNode t x).imp fun y below => below.under (under x rfl)

theorem walks_declarePattern {pattern : Child} (under : ∀ x, pattern = some x → t.Under x node)
    {s : Option ScopeId} {kind : DeclarationKind}
    (owned : kind = .varWord → ∀ s', s = some s' → V s') {declaration : NodeId} {owningLoop : Child}
    (headed : ∀ loop, owningLoop = some loop → t.IsHeadOf declaration loop)
    (isInitialized : Bool) :
    (declarePattern t walk pattern s kind declaration owningLoop isInitialized).Walks t
      (t.Under · node) V := by
  have all := all_ofNode_under under
  refine .seq (.forM fun target mem => ?_) (walks_patternRest lower all)
  refine .seq (.declare owned _ _ headed) (.referTimes ?_ _ _)
  exact all.targets target (by simpa using mem)

theorem walks_assignParts {pattern : Child}
    (all : (PatternParts.ofNode t pattern).All (t.Under · node)) (usage : Usage) :
    (assignPattern t walk pattern usage).Walks t (t.Under · node) V := by
  refine .seq (.forM fun target mem => ?_) (walks_patternRest lower all)
  have under := all.targets target (by simpa using mem)
  refine .seq (.referTimes ?_ _ _) (.refer ?_ _)
  · exact under
  · exact under

theorem walks_assignPattern {pattern : Child} (under : ∀ x, pattern = some x → t.Under x node)
    (usage : Usage) : (assignPattern t walk pattern usage).Walks t (t.Under · node) V :=
  walks_assignParts lower (all_ofNode_under under) usage

theorem walks_updateTarget {target : Child} (under : ∀ x, target = some x → t.Under x node) :
    (updateTarget t walk target).Walks t (t.Under · node) V := by
  unfold updateTarget
  split
  · exact walks_assignPattern lower under .updating
  · exact walks_value lower under

theorem walks_declareTypeParameters (s : ScopeId) {params : List NodeId}
    (under : ∀ x ∈ params, t.Under x node) :
    (declareTypeParameters t walk s params).Walks t (t.Under · node) V := by
  refine .forM fun param mem => ?_
  split
  · rename_i name constraint default is
    have inside (x : NodeId) (slot : some x ∈ [name, constraint, default]) : t.Under x node :=
      (Tree.Under.slot is slot).trans (under param mem)
    exact .seq (.declareHere (by simp) name param) <|
      .seq (walks_type lower fun x same => inside x (by simp [same])) <|
      walks_type lower fun x same => inside x (by simp [same])
  · exact .pure ()

theorem walks_signatureParams {params : List NodeId} (under : ∀ x ∈ params, t.Under x node) :
    (signatureParams t walk params).Walks t (t.Under · node) V := by
  refine .forM fun param mem => ?_
  split
  · rename_i is
    exact walks_type lower fun x same =>
      (Tree.Under.slot is (by simp [Shape.slots, same])).trans (under param mem)
  · exact .pure ()

theorem walks_signatureKey {key : Child} (under : ∀ x, key = some x → t.Under x node) :
    (signatureKey t walk key).Walks t (t.Under · node) V := by
  unfold signatureKey
  split
  all_goals first | exact .pure () | exact walks_value lower under

theorem walks_walkSignature {s : Signature}
    (under : ∀ x, some x ∈ Shape.signatureChildren s → t.Under x node) :
    (walkSignature t walk s).Walks t (t.Under · node) V :=
  .seq (walks_signatureKey lower fun x is => under x (by simp [Shape.signatureChildren, is])) <|
    .seq (walks_types lower fun x mem => under x (by simp [Shape.signatureChildren, mem])) <|
    .seq (walks_signatureParams lower fun x mem =>
      under x (by simp [Shape.signatureChildren, mem])) <|
    walks_type lower fun x is => under x (by simp [Shape.signatureChildren, is])

omit lower in
theorem walks_typeQuery {name : Child} (under : ∀ x, name = some x → t.Under x node) :
    (match name.bind (entityHead t) with
      | some head =>
        match t.nodes.shape? head with
        | some (.identifier _) => refer t head .reading
        | _ => pure ()
      | none => pure () : Record Unit).Walks t (t.Under · node) V := by
  split
  · rename_i head is
    obtain ⟨x, same, found⟩ := Option.bind_eq_some_iff.mp is
    split
    · refine .refer ?_ _
      exact (below_entityHead found).under (under x same)
    · exact .pure ()
  · exact .pure ()

/-- A node is walked as a type when it is one; another node is walked as a value. -/
theorem walks_typeStep (precede : t.ChildrenPrecede)
    (switch : ∀ shape, t.nodes.shape? node = some shape → shape.standsAsType = false →
      (walk .value node).Walks t (· = node) V) :
    (typeStep t walk node).Walks t (· = node) V := by
  unfold typeStep
  split
  · exact .pure ()
  rename_i shape is
  have slot (x : NodeId) (mem : some x ∈ shape.slots) : t.Under x node := .slot is mem
  have children (x : NodeId) (mem : x ∈ shape.children) : t.Under x node :=
    slot x (by simpa [Shape.children] using mem)
  split
  case h_1 =>
    refine .refer ?_ _
    rfl
  case h_2 name arguments =>
    refine .ofUnder precede (.seq (walks_type lower fun x found => ?_)
      (walks_types lower fun x mem =>
      slot x (by simp [Shape.slots, mem])))
    obtain ⟨head, same, found⟩ := Option.bind_eq_some_iff.mp found
    exact (below_entityHead found).under (slot head (by simp [Shape.slots, same]))
  case h_3 left right =>
    exact .ofUnder precede (walks_type lower fun x found => under_entityHead is found)
  case h_4 name =>
    exact .ofUnder precede (walks_typeQuery fun x same => slot x (by simp [Shape.slots, same]))
  case h_5 | h_6 | h_7 => exact .ofUnder precede (walks_walkSignature lower slot)
  case h_8 params annotated =>
    exact .ofUnder precede <|
      .seq (walks_signatureParams lower fun x mem => slot x (by simp [Shape.slots, mem])) <|
      walks_type lower fun x same => slot x (by simp [Shape.slots, same])
  case h_9 key computed _ annotated =>
    exact .ofUnder precede <| .guarded
      (fun _ => walks_value lower fun x same => slot x (by simp [Shape.slots, same]))
      (walks_type lower fun x same => slot x (by simp [Shape.slots, same]))
  case h_10 name constraint default =>
    exact .ofUnder precede <|
      .seq (walks_type lower fun x same => slot x (by simp [Shape.slots, same])) <|
      walks_type lower fun x same => slot x (by simp [Shape.slots, same])
  case h_11 =>
    exact .ofUnder precede (walks_type lower fun x same => slot x (by simp [Shape.slots, same]))
  case h_12 literal =>
    split
    · rename_i is'
      obtain ⟨x, same, shape⟩ := Option.bind_eq_some_iff.mp is'
      refine .ofUnder precede (walks_types lower fun y mem => ?_)
      exact (Tree.Under.slot shape (by simp [Shape.slots, mem])).trans
        (slot x (by simp [Shape.slots, same]))
    · exact .pure ()
  case h_13 | h_14 | h_15 | h_16 | h_17 => exact .pure ()
  case h_29 =>
    refine switch shape is ?_
    cases shape <;> first | rfl | grind
  all_goals exact .ofUnder precede (walks_types lower children)

omit lower in
theorem isHeadOf_owningLoop? {declaration loop : NodeId}
    (owns : owningLoop? t declaration = some loop) : t.IsHeadOf declaration loop := by
  unfold owningLoop? at owns
  simp only at owns
  split at owns
  all_goals first
    | cases owns
    | rename_i is
      obtain ⟨parent, same, shape⟩ := Option.bind_eq_some_iff.mp is
      split at owns
      · obtain rfl := Option.some.inj (same.symm.trans owns)
        simpa [Tree.IsHeadOf, shape]
      · cases owns

/-- Variables declared with `var` are declared where the scope that is open when the declaration
starts says, and that scope owns variables. -/
theorem walks_variableDeclaration {declarators : List NodeId}
    (under : ∀ x ∈ declarators, t.Under x node) (declaration : NodeId)
    (word : Syntax.DeclarationWord) :
    (variableDeclaration t walk declaration word declarators).Walks t (t.Under · node) V := by
  intro r ready
  refine ⟨trivial, trivial, ?_⟩
  have owns (s : ScopeId) (is : r.current.bind r.graph.variableScope? = some s) :
      r.graph.OwnsVariables s := by
    obtain ⟨current, -, owner⟩ := Option.bind_eq_some_iff.mp is
    rw [Graph.variableScope?_eq_map_frame?, Option.map_eq_some_iff] at owner
    obtain ⟨f, found, rfl⟩ := owner
    exact (ready.consistent.graph.owner current f found).ownsVariables
  refine Record.Walks.forM (V := fun s => r.current.bind r.graph.variableScope? = some s)
    (fun declarator mem => ?_) r { ready with owners := owns }
  split
  · rename_i target annotated init is
    have slot (x : NodeId) (listed : some x ∈ [target, annotated, init]) : t.Under x node :=
      (Tree.Under.slot is listed).trans (under declarator mem)
    refine .seq (walks_declarePattern lower (fun x same => slot x (by simp [same])) ?_
      (fun loop => isHeadOf_owningLoop?) _) <|
      .seq (walks_type lower fun x same => slot x (by simp [same])) <|
      walks_value lower fun x same => slot x (by simp [same])
    intro var s is
    obtain rfl : word = .varWord := by cases word <;> first | rfl | cases var
    simpa [Record.run, openScope] using is
  · exact .pure ()

omit lower in
theorem walks_assignHead {declarators : List NodeId} (under : ∀ x ∈ declarators, t.Under x node) :
    (assignHead t declarators).Walks t (t.Under · node) V := by
  unfold assignHead
  split
  · rename_i target _ _ is
    obtain ⟨declarator, first, shape⟩ := Option.bind_eq_some_iff.mp is
    refine .forM fun x mem => .refer ?_ _
    refine (all_ofNode_under fun y same => ?_).targets x (by simpa using mem)
    exact (Tree.Under.slot shape (by simp [Shape.slots, same])).trans
      (under declarator (List.mem_of_head? first))
  · exact .pure ()

omit lower in
theorem walks_inHeadScope (plain : t.isFunction (some node) = false) (lexical : Bool)
    {step : Record Unit} (h : step.Walks t (· = node) fun _ => False) :
    (inHeadScope lexical node step).Walks t (· = node) V :=
  .ite (fun _ => .inScope (by simp) plain fun _ => h) fun _ =>
    h.imp (fun _ => id) fun _ => False.elim

theorem walks_walkForEach (precede : t.ChildrenPrecede) (plain : t.isFunction (some node) = false)
    {left right body : Child} (slot : ∀ x, some x ∈ [left, right, body] → t.Under x node) :
    (walkForEach t walk node left right body).Walks t (· = node) V := by
  refine walks_inHeadScope plain _ (.ofUnder precede ?_)
  have rest : (do value walk right; value walk body : Record Unit).Walks t (t.Under · node)
      fun _ => False :=
    .seq (walks_value lower fun x same => slot x (by simp [same]))
      (walks_value lower fun x same => slot x (by simp [same]))
  simp only
  split
  · rename_i declaration word declarators is
    have inside (x : NodeId) (mem : x ∈ declarators) : t.Under x node :=
      (Tree.Under.slot is (by simp [Shape.slots, mem])).trans (slot declaration (by simp))
    exact .seq (walks_variableDeclaration lower inside declaration word) <|
      .seq (walks_assignHead inside) rest
  · exact .seq (walks_assignPattern lower (fun x same => slot x (by simp [same])) .writing) rest

theorem walks_walkFor (precede : t.ChildrenPrecede) (plain : t.isFunction (some node) = false)
    {init test update body : Child}
    (slot : ∀ x, some x ∈ [init, test, update, body] → t.Under x node) :
    (walkFor t walk node init test update body).Walks t (· = node) V :=
  walks_inHeadScope plain _ <| .ofUnder precede <|
    .seq (walks_value lower fun x same => slot x (by simp [same])) <|
    .seq (walks_value lower fun x same => slot x (by simp [same])) <|
    .seq (walks_value lower fun x same => slot x (by simp [same])) <|
    walks_value lower fun x same => slot x (by simp [same])

def functionBody (t : Tree) (walk : Walker) (f : Function) : Record Unit :=
  match t.shape? f.body with
  | some (.block statements) => values walk statements
  | _ => value walk f.body

def functionParts (t : Tree) (walk : Walker) (node : NodeId) (f : Function) (s : ScopeId) :
    Record Unit := do
  declareTypeParameters t walk s f.typeParameters
  f.params.forM fun param => declarePattern t walk param (some s) .parameter node none false
  type walk f.returnType
  functionBody t walk f

def functionInside (t : Tree) (walk : Walker) (node : NodeId) (f : Function) (s : ScopeId) :
    Record Unit := do
  unless f.form = .arrow do
    discard <| declareImplicit s node "arguments" .implicitArguments
  declareTypeParameters t walk s f.typeParameters
  f.params.forM fun param => declarePattern t walk param (some s) .parameter node none false
  type walk f.returnType
  match t.shape? f.body with
  | some (.block statements) => values walk statements
  | _ => value walk f.body

theorem walks_functionInside {f : Function} (is : t.nodes.shape? node = some (.function f))
    (s : ScopeId) : (functionInside t walk node f s).Walks t (t.Under · node) V := by
  have slot (x : NodeId) (mem : some x ∈ (Shape.function f).slots) : t.Under x node := .slot is mem
  have rest : (functionParts t walk node f s).Walks t (t.Under · node) V := by
    refine .seq (walks_declareTypeParameters lower s fun x mem =>
      slot x (by simp [Shape.slots, mem])) <|
      .seq (.forM fun param mem => walks_declarePattern lower ?_ (by simp) (by simp) _) <|
      .seq (walks_type lower fun x same => slot x (by simp [Shape.slots, same])) ?_
    · rintro x ⟨⟩
      exact slot param (by simp [Shape.slots, mem])
    · unfold functionBody
      split
      · rename_i body
        obtain ⟨x, same, shape⟩ := Option.bind_eq_some_iff.mp body
        refine walks_values lower fun y mem => (Tree.Under.slot shape ?_).trans (slot x ?_)
        · simp [Shape.slots, mem]
        · simp [Shape.slots, same]
      · exact walks_value lower fun x same => slot x (by simp [Shape.slots, same])
  refine .ite (fun _ => rest) fun _ => .seq (.discard fun r ready => ?_) rest
  exact ⟨by simp, by simp⟩

theorem licit_functionInside (precede : t.ChildrenPrecede) {f : Function}
    (is : t.nodes.shape? node = some (.function f)) {r : Recording} (fits : r.Fits t) :
    (functionInside t walk node f r.graph.scopes.size).Licit t (r.enter .function node) := by
  refine walks_functionInside lower is _ _ ((fits.ready_enter (by simp) node).imp ?_ fun _ => id)
  exact fun x under => ⟨under.below, fun _ => Nat.ne_of_lt (under.lt precede)⟩

theorem walks_walkFunctionScope (precede : t.ChildrenPrecede) {f : Function}
    (is : t.nodes.shape? node = some (.function f))
    (unnamed : ¬ (f.form = .expression ∧ f.name.isSome = true)) :
    (walkFunctionScope t walk node f).Walks t (· = node) V := by
  intro r ready
  refine ⟨⟨ready.surrounds node rfl, ready.hosts fun _ f' is' => ?_⟩,
    licit_functionInside lower precede is ready.toFits, fun other => absurd rfl other⟩
  obtain ⟨⟩ := is.symm.trans is'
  exact unnamed

theorem opens_walkFunctionScope (precede : t.ChildrenPrecede) {f : Function}
    (is : t.nodes.shape? node = some (.function f)) :
    (walkFunctionScope t walk node f).Opens t node := by
  intro r fits
  have inside : node < r.graph.nodeScopes.size := by
    obtain ⟨n, found, -⟩ := Option.map_eq_some_iff.mp is
    exact fits.nodes ▸ (Array.getElem?_eq_some_iff.mp found).1
  exact (functionInside t walk node f _).hasFunctionScope_run
    (licit_functionInside lower precede is fits)
    (by simp [Tree.isFunction, Tree.shape?, is, Shape.isFunction])
    (Record.hasFunctionScope_enter_function inside)

omit lower in
/-- The scope of a name may take in the scope of its function when the name has been declared. -/
theorem hosts_declare_name {r : Recording} (fits : r.Fits t) {f : Function}
    (is : t.nodes.shape? node = some (.function f)) :
    ((declare t (some r.graph.scopes.size) f.name .functionExpressionName node).run
        (r.enter .functionExpressionName node)).2.graph.Hosts t (some r.graph.scopes.size) .function
      node := by
  have entered := fits.enter .functionExpressionName node
  constructor
  · rintro s ⟨⟩ - inner above
    have above : (r.enter .functionExpressionName node).graph.parentOf inner =
        some r.graph.scopes.size := by
      rw [← above]
      unfold declare
      split
      · exact (Graph.parentOf_of_frames (Recording.frame?_define _ _ _ _ _) inner).symm
      · rfl
    rw [Recording.enter, Graph.parentOf_addScope] at above
    split at above
    · exact Nat.lt_irrefl _ (fits.consistent.sound.current _ above)
    · exact Nat.lt_irrefl _ (fits.consistent.sound.graph.parent_lt_size above)
  · intro f' own _ is' _ text
    obtain ⟨⟩ := is.symm.trans is'
    have inside : r.graph.scopes.size <
        (r.enter .functionExpressionName node).graph.scopes.size := by simp [Recording.enter]
    have opened := (r.graph.frame?_addScope .functionExpressionName node r.current _).trans
      (if_pos rfl)
    refine ⟨_, rfl, ⟨_, (Record.frame?_run _ inside).trans opened, rfl⟩, ?_⟩
    · simp only [declare, text]
      refine (Graph.introduces_addDefinition inside ?_ _ _).nameNode _ _
      exact (r.graph.declared?_addScope ..).trans (by simp [Graph.declared?])

/-- The scope of a name takes in the scope of its function. -/
theorem walks_named (precede : t.ChildrenPrecede) {f : Function}
    (is : t.nodes.shape? node = some (.function f)) :
    (inScope .functionExpressionName node fun s => do
      declare t (some s) f.name .functionExpressionName node
      walkFunctionScope t walk node f).Walks t (· = node) V := by
  intro r ready
  have entered := ready.enter .functionExpressionName node
  have surrounds : (r.enter .functionExpressionName node).Surrounds t node :=
    r.surrounds_enter ⟨.refl node, by simp⟩
  refine ⟨⟨ready.surrounds node rfl, ready.hosts (by simp)⟩, ⟨?_, ?_, ?_, ?_⟩, fun _ _ => ?_⟩
  · unfold declare
    split
    · exact ⟨⟨by simp, by simp⟩, trivial⟩
    · trivial
  · refine ⟨(Record.surrounds_run _ entered.consistent.sound node).mpr surrounds, ?_⟩
    rw [(Record.grows_run _ _).current_eq]
    exact hosts_declare_name ready.toFits is
  · exact licit_functionInside lower precede is (entered.run _)
  · exact fun other => absurd rfl other
  · exact Record.Opens.bind (fun _ => opens_walkFunctionScope lower precede is) _ entered

theorem walks_walkFunction (precede : t.ChildrenPrecede) {f : Function}
    (is : t.nodes.shape? node = some (.function f)) :
    (walkFunction t walk node f).Walks t (· = node) V := by
  refine .ite (fun _ => .bind .openScope fun _ => .seq (.declareHere (by simp) _ _) ?_) fun _ => ?_
  all_goals exact .ite (fun _ => walks_named lower precede is) fun unnamed =>
    walks_walkFunctionScope lower precede is unnamed

/-- A function leaves its node with its own scope. -/
theorem opens_walkFunction (precede : t.ChildrenPrecede) {f : Function}
    (is : t.nodes.shape? node = some (.function f)) :
    (walkFunction t walk node f).Opens t node := by
  have own := opens_walkFunctionScope lower precede is
  refine .ite (.bind fun _ => .bind fun _ => ?_) ?_
  all_goals exact .ite (.inScope fun _ => .bind fun _ => own) own

theorem walks_walkClass (precede : t.ChildrenPrecede) (plain : t.isFunction (some node) = false)
    {c : Syntax.Class} (slot : ∀ x, some x ∈ (Shape.classLike c).slots → t.Under x node) :
    (walkClass t walk node c).Walks t (· = node) V := by
  have inside : (inScope .classBody node fun s => do
      declare t (some s) c.name .className node
      declareTypeParameters t walk s c.typeParameters
      value walk c.superClass
      types walk c.implements
      values walk c.members).Walks t (· = node) V :=
    .inScope (by simp) plain fun s => .ofUnder precede <| .seq (.declareHere (by simp) _ _) <|
      .seq (walks_declareTypeParameters lower s fun x mem => slot x (by simp [Shape.slots, mem])) <|
      .seq (walks_value lower fun x same => slot x (by simp [Shape.slots, same])) <|
      .seq (walks_types lower fun x mem => slot x (by simp [Shape.slots, mem])) <|
      walks_values lower fun x mem => slot x (by simp [Shape.slots, mem])
  exact .ite (fun _ => .bind .openScope fun _ => .seq (.declareHere (by simp) _ _) inside)
    fun _ => inside

/-- The initializer of a field has a scope of its own. Where the initializer is a function, its node
opens the scope of the function after that. -/
theorem walks_walkField {key annotated init : Child} {computed : Bool}
    (slot : ∀ x, some x ∈ [key, annotated, init] → t.Under x node) :
    (walkField walk key computed annotated init).Walks t (t.Under · node) V := by
  have field (x : NodeId) (under : t.Under x node) :
      (inScope .fieldInitializer x fun _ => walk .value x).Walks t (t.Under · node) V := by
    refine ((lower x under).walks_inScope (by simp)).imp ?_ fun _ => id
    rintro _ rfl
    exact under
  exact .guarded (fun _ => walks_value lower fun x same => slot x (by simp [same])) <|
    .seq (walks_type lower fun x same => slot x (by simp [same])) <|
    .option fun x same => field x (slot x (by simp [same]))

omit lower in
theorem walks_walkImport (specifiers : List NodeId) :
    (walkImport t node specifiers).Walks t P V := by
  refine .bind .openScope fun s => .forM fun specifier _ => ?_
  split
  · exact .declareHere (by simp) _ _
  · exact .pure ()

theorem walks_walkExport {declaration source : Child} {specifiers : List NodeId}
    (slot : ∀ x, some x ∈ declaration :: specifiers.map some → t.Under x node) :
    (walkExport t walk declaration specifiers source).Walks t (t.Under · node) V := by
  refine .seq (walks_value lower fun x same => slot x (by simp [same])) <|
    .ite (fun _ => .forM fun specifier mem => ?_) fun _ => .pure ()
  split
  · rename_i is
    exact walks_value lower fun x same => (Tree.Under.slot is (by simp [Shape.slots, same])).trans
      (slot specifier (by simp [mem]))
  · exact .pure ()

theorem walks_walkSwitch (precede : t.ChildrenPrecede) (plain : t.isFunction (some node) = false)
    {discriminant : Child} {cases : List NodeId}
    (slot : ∀ x, some x ∈ discriminant :: cases.map some → t.Under x node) :
    (walkSwitch t walk node discriminant cases).Walks t (· = node) V := by
  refine .seq (.ofUnder precede (walks_value lower fun x same => slot x (by simp [same]))) <|
    .inScope (by simp) plain fun _ => .ofUnder precede (.forM fun part mem => ?_)
  split
  · rename_i test consequent is
    have inside (x : NodeId) (listed : some x ∈ test :: consequent.map some) : t.Under x node :=
      (Tree.Under.slot is listed).trans (slot part (by simp [mem]))
    exact .seq (walks_value lower fun x same => inside x (by simp [same])) <|
      walks_values lower fun x mem => inside x (by simp [mem])
  · exact .pure ()

theorem walks_walkCatch (precede : t.ChildrenPrecede) (plain : t.isFunction (some node) = false)
    {param annotated body : Child}
    (slot : ∀ x, some x ∈ [param, annotated, body] → t.Under x node) :
    (walkCatch t walk node param annotated body).Walks t (· = node) V :=
  .inScope (by simp) plain fun _ => .ofUnder precede <|
    .seq (walks_declarePattern lower (fun x same => slot x (by simp [same])) (by simp)
      (by simp) _) <|
    .seq (walks_type lower fun x same => slot x (by simp [same])) <|
    walks_value lower fun x same => slot x (by simp [same])

theorem walks_walkEnum {name : Child} {members : List NodeId}
    (under : ∀ x ∈ members, t.Under x node) :
    (walkEnum t walk node name members).Walks t (t.Under · node) V := by
  refine .bind .openScope fun s => .seq (.declareHere (by simp) _ _) <| .forM fun member mem => ?_
  split
  · rename_i is
    exact walks_value lower fun x same =>
      (Tree.Under.slot is (by simp [Shape.slots, same])).trans (under member mem)
  · exact .pure ()

theorem walks_walkAssignment (operator : Token.Kind) {left right : Child}
    (slot : ∀ x, some x ∈ [left, right] → t.Under x node) :
    (walkAssignment t walk operator left right).Walks t (t.Under · node) V := by
  have rest : (value walk right).Walks t (t.Under · node) V :=
    walks_value lower fun x same => slot x (by simp [same])
  exact .ite
    (fun _ => .seq (walks_assignPattern lower (fun x same => slot x (by simp [same])) _) rest)
    fun _ => .seq (walks_updateTarget lower fun x same => slot x (by simp [same])) rest

theorem walks_valueStep (precede : t.ChildrenPrecede)
    (switch : ∀ shape, t.nodes.shape? node = some shape → shape.standsAsType = true →
      (walk .type node).Walks t (· = node) V) :
    (valueStep t walk node).Walks t (· = node) V := by
  unfold valueStep
  split
  · exact .pure ()
  rename_i shape is
  have slot (x : NodeId) (mem : some x ∈ shape.slots) : t.Under x node := .slot is mem
  have children (x : NodeId) (mem : x ∈ shape.children) : t.Under x node :=
    slot x (by simpa [Shape.children] using mem)
  have plain (other : shape.isFunction = false) : t.isFunction (some node) = false := by
    simp [Tree.isFunction, Tree.shape?, is, other]
  have one {child : Child} (mem : child ∈ shape.slots) :
      (value walk child).Walks t (t.Under · node) V :=
    walks_value lower fun x same => slot x (same ▸ mem)
  have all {l : List NodeId} (mem : ∀ x ∈ l, some x ∈ shape.slots) :
      (values walk l).Walks t (t.Under · node) V :=
    walks_values lower fun x listed => slot x (mem x listed)
  have oneType {child : Child} (mem : child ∈ shape.slots) :
      (type walk child).Walks t (t.Under · node) V :=
    walks_type lower fun x same => slot x (same ▸ mem)
  have allTypes {l : List NodeId} (mem : ∀ x ∈ l, some x ∈ shape.slots) :
      (types walk l).Walks t (t.Under · node) V :=
    walks_types lower fun x listed => slot x (mem x listed)
  have pattern (apart : shape.isTakenApart = true) :
      (assignPattern t walk (some node) .writing).Walks t (t.Under · node) V :=
    walks_assignParts lower (PatternParts.all_ofNode_of_isTakenApart is apart) _
  cases shape
  case sourceFile | staticBlock | block =>
    first
    | exact .ofUnder precede (all (by simp [Shape.slots]))
    | exact .inScope (by simp) (plain rfl) fun _ => .ofUnder precede <|
        walks_values lower fun x mem => slot x (by simp [Shape.slots, mem])
  case identifier =>
    refine .refer ?_ _
    rfl
  case variableDeclaration word declarators =>
    exact .ofUnder precede <|
      walks_variableDeclaration lower (fun x mem => slot x (by simp [Shape.slots, mem])) node word
  case function f => exact walks_walkFunction lower precede is
  case classLike c => exact walks_walkClass lower precede (plain rfl) slot
  case methodDefinition =>
    exact .ofUnder precede (.guarded (fun _ => one (by simp [Shape.slots]))
      (one (by simp [Shape.slots])))
  case propertyDefinition => exact .ofUnder precede (walks_walkField lower slot)
  case importDeclaration => exact walks_walkImport _
  case exportNamed =>
    exact .ofUnder precede (walks_walkExport lower fun x mem =>
      slot x (by simp_all [Shape.slots]; tauto))
  case exportDefault | expressionStatement | returning | throwing | labeled =>
    exact .ofUnder precede (one (by simp [Shape.slots]))
  case typeAlias =>
    exact .bind .openScope fun _ => .seq (.declareHere (by simp) _ _) <| .ofUnder precede <|
      .seq (allTypes (by simp +contextual [Shape.slots])) (oneType (by simp [Shape.slots]))
  case interface =>
    exact .bind .openScope fun _ => .seq (.declareHere (by simp) _ _) <| .ofUnder precede <|
      .seq (allTypes (by simp +contextual [Shape.slots])) <|
      .seq (allTypes (by simp +contextual [Shape.slots]))
        (allTypes (by simp +contextual [Shape.slots]))
  case enum =>
    exact .ofUnder precede (walks_walkEnum lower fun x mem => slot x (by simp [Shape.slots, mem]))
  case forLoop => exact walks_walkFor lower precede (plain rfl) slot
  case forIn | forOf => exact walks_walkForEach lower precede (plain rfl) slot
  case switch => exact walks_walkSwitch lower precede (plain rfl) slot
  case catchClause => exact walks_walkCatch lower precede (plain rfl) slot
  case property =>
    exact .ofUnder precede (.guarded (fun _ => one (by simp [Shape.slots]))
      (one (by simp [Shape.slots])))
  case update =>
    exact .ofUnder precede (walks_updateTarget lower fun x same =>
      slot x (by simp [Shape.slots, same]))
  case assignment => exact .ofUnder precede (walks_walkAssignment lower _ slot)
  case member =>
    exact .ofUnder precede <| .seq (one (by simp [Shape.slots])) <|
      .ite (fun _ => one (by simp [Shape.slots])) fun _ => .pure ()
  case call | new =>
    exact .ofUnder precede <| .seq (one (by simp [Shape.slots, Shape.callChildren])) <|
      .seq (allTypes (by simp +contextual [Shape.slots, Shape.callChildren])) <|
      all (by simp +contextual [Shape.slots, Shape.callChildren])
  case typeCast =>
    exact .ofUnder precede (.seq (one (by simp [Shape.slots])) (oneType (by simp [Shape.slots])))
  case objectPattern | arrayPattern | assignmentPattern | restElement =>
    exact .ofUnder precede (pattern rfl)
  all_goals first
    | exact .pure ()
    | exact switch _ is rfl
    | exact .ofUnder precede (walks_values lower children)

end Routines

/-- With enough count the walk takes licit steps at every node, as a value and as a type. A node is
walked once as each, and what is under it has smaller places. -/
theorem calls_walkUpTo (precede : t.ChildrenPrecede) (node : NodeId) {n : Nat}
    (enough : 2 * node + 2 ≤ n) : (walkUpTo t n).Calls t node := by
  induction node using Nat.strongRecOn generalizing n with
  | ind node ih =>
    have lower {m : Nat} (le : 2 * node ≤ m) : (walkUpTo t m).Lower t node := fun x under =>
      ih x (under.lt precede) (by have := under.lt precede; grind)
    obtain ⟨n, rfl⟩ := Nat.exists_eq_add_of_le' enough
    have typed {m : Nat} (le : 2 * node ≤ m)
        (switch : ∀ shape, t.nodes.shape? node = some shape → shape.standsAsType = false →
          (walkUpTo t m .value node).Walks t (· = node) fun _ => False) :
        (walkUpTo t (m + 1) .type node).Walks t (· = node) fun _ => False :=
      walks_typeStep (lower le) precede switch
    have valued {m : Nat} (le : 2 * node ≤ m)
        (switch : ∀ shape, t.nodes.shape? node = some shape → shape.standsAsType = true →
          (walkUpTo t m .type node).Walks t (· = node) fun _ => False) :
        (walkUpTo t (m + 1) .value node).Walks t (· = node) fun _ => False :=
      walks_valueStep (lower le) precede switch
    constructor
    · rintro (_ | _)
      · refine valued (by grind) fun shape is asType => typed (m := n + 2 * node) (by grind) ?_
        intro other same asValue
        grind
      · refine typed (by grind) fun shape is asValue => valued (m := n + 2 * node) (by grind) ?_
        intro other same asType
        grind
    · intro isFunction
      obtain ⟨f, is⟩ := Tree.isFunction_iff.mp isFunction
      have opens := opens_walkFunction (lower (m := n + (2 * node + 1)) (by grind)) precede is
      simpa [walkUpTo, valueStep, is] using opens

theorem walks_declareGlobals (s : ScopeId) (globals : Globals) :
    (declareGlobals t s globals).Walks t P V := by
  refine .forM fun (name, access) _ => .ite (fun _ => .pure ()) fun _ => .bind ?_ fun b => ?_
  · exact fun _ _ => ⟨by simp, by simp⟩
  · cases b <;> exact fun _ _ => trivial

def walkText (t : Tree) : SourceType → Record Unit
  | .script => walkUpTo t (2 * t.nodes.size + 2) .value t.root
  | .module => inScope .module t.root fun _ => walkUpTo t (2 * t.nodes.size + 2) .value t.root

def globalInside (t : Tree) (environment : Environment) (s : ScopeId) : Record Unit := do
  declareGlobals t s environment.globals
  walkText t environment.sourceType

def Recording.begun (t : Tree) : Recording := Recording.enter { graph := .empty t } .global t.root

theorem Recording.fits_begun (t : Tree) : (begun t).Fits t where
  consistent := consistent_enter_empty t rfl t.root
  nodes := by simp [begun, enter, Graph.addScope, Graph.empty]

theorem Recording.ready_begun (t : Tree) : (begun t).Ready t (· = t.root) fun _ => False where
  toFits := fits_begun t
  surrounds x is := surrounds_enter _ ⟨is ▸ .refl x, by simp⟩
  owners _ none := none.elim
  plain s := not_isNameScope_enter _ (by simp)

theorem Recording.lawful_begun (t : Tree) : (begun t).graph.Lawful t := by
  change ((Graph.empty t).addScope .global t.root none).Lawful t
  exact (Graph.lawful_empty t).addScope (Graph.sound_empty t) .global t.root (by simp) (by simp)
    ⟨by simp, by simp⟩

variable (precede : t.ChildrenPrecede) (root : t.root < t.nodes.size) (environment : Environment)

include precede root

theorem walks_walkText (sourceType : SourceType) :
    (walkText t sourceType).Walks t (· = t.root) V := by
  have calls := calls_walkUpTo precede t.root (n := 2 * t.nodes.size + 2) (by grind)
  cases sourceType with
  | script => exact (calls.walks .value).imp (fun _ => id) fun _ => False.elim
  | module => exact calls.walks_inScope (by simp)

theorem walks_globalInside (s : ScopeId) :
    (globalInside t environment s).Walks t (· = t.root) V :=
  .seq (walks_declareGlobals s _) (walks_walkText precede root _)

theorem opens_walkText (isFunction : t.isFunction (some t.root) = true) (sourceType : SourceType) :
    (walkText t sourceType).Opens t t.root := by
  have calls := calls_walkUpTo precede t.root (n := 2 * t.nodes.size + 2) (by grind)
  cases sourceType with
  | script => exact calls.opens isFunction
  | module => exact .inScope fun _ => calls.opens isFunction

theorem opens_globalInside (isFunction : t.isFunction (some t.root) = true) (s : ScopeId) :
    (globalInside t environment s).Opens t t.root :=
  .bind fun _ => opens_walkText precede root isFunction _

theorem licit_walkTree : (walkTree t environment).Licit t { graph := .empty t } :=
  ⟨⟨by simp [Recording.Surrounds], ⟨by simp, by simp⟩⟩,
    walks_globalInside precede root environment _ _ (Recording.ready_begun t),
    fun _ isFunction => opens_globalInside precede root environment isFunction _ _
      (Recording.fits_begun t)⟩

end Scope
end LoopCapture
