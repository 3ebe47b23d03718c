import LoopCapture.Proofs.Scope.Following
import LoopCapture.Proofs.Scope.Frame

/-!
# The walk goes through the text in order

Each routine of the walk enters the parts of its node one after the other, as they stand in the
text, when the walker does so for the parts. The judgement names the nodes that a step enters, in
order; what a step records is recorded for these nodes.
-/

namespace LoopCapture.Scope
open Syntax (Child NodeId Shape Tree)

/-- The step records uses for the given nodes, one node after the other. -/
def Record.Visits (t : Tree) {α : Type} (p : Record α) (nodes : List NodeId) : Prop :=
  ∀ r, ∃ uses, (p.run r).2.graph.references.toList = r.graph.references.toList ++ uses ∧
    Traces t uses nodes

variable {t : Tree} {α β : Type} {nodes nodes' : List NodeId} {node : NodeId}

namespace Record.Visits

theorem mono {p : Record α} (h : p.Visits t nodes) (fewer : nodes.Sublist nodes') :
    p.Visits t nodes' := fun r =>
  (h r).imp fun _ recorded => ⟨recorded.1, recorded.2.sublist fewer⟩

theorem pure (a : α) : (Pure.pure a : Record α).Visits t [] :=
  fun _ => ⟨[], (List.append_nil _).symm, .nil⟩

theorem bind {p : Record α} {next : α → Record β} (h : p.Visits t nodes)
    (rest : ∀ a, (next a).Visits t nodes') : (p >>= next).Visits t (nodes ++ nodes') := by
  intro r
  obtain ⟨uses, recorded, traces⟩ := h r
  obtain ⟨uses', recorded', traces'⟩ := rest (p.run r).1 (p.run r).2
  exact ⟨uses ++ uses', by rw [← List.append_assoc, ← recorded]; exact recorded',
    traces.append traces'⟩

theorem observe (look : Recording → α) : (Record.observe look).Visits t [] :=
  fun _ => ⟨[], (List.append_nil _).symm, .nil⟩

theorem define (s : ScopeId) (name : String) (definition : Definition) (owningLoop : Child) :
    (Record.define s name definition owningLoop).Visits t [] := by
  refine fun r => ⟨[], ?_, .nil⟩
  simp only [run, Recording.define, Graph.nameNode]
  split <;> simp

theorem permit (b : BindingId) (writable : Bool) : (Record.permit b writable).Visits t [] :=
  fun _ => ⟨[], by simp [run, Graph.permit], .nil⟩

theorem inScope {kind : ScopeKind} {block : NodeId} {step : ScopeId → Record Unit}
    (h : ∀ s, (step s).Visits t nodes) : (Record.inScope kind block step).Visits t nodes := by
  intro r
  obtain ⟨uses, recorded, traces⟩ := h r.graph.scopes.size (r.enter kind block)
  exact ⟨uses, recorded, traces⟩

end Record.Visits

/-- A step that refers to a node records a use of it or nothing. -/
theorem recorded_refer {name : String} (is : t.nodes.shape? node = some (.identifier name))
    (usage : Usage) (r : Recording) :
    ∃ uses, ((refer t node usage).run r).2.graph.references.toList =
        r.graph.references.toList ++ uses ∧
      ∀ use ∈ uses, use.identifier = node ∧ use.IsOf t node := by
  have text : t.nameText? (some node) = some name := by
    simp [Tree.nameText?, Tree.shape?, is, Shape.nameText?]
  simp only [refer, text, Record.run, Recording.use]
  cases r.current with
  | none => exact ⟨[], by simp⟩
  | some scope =>
    refine ⟨[{ identifier := node, name, scope, start := t.startOf node, usage }], ?_, ?_⟩
    · simp [Graph.addReference]
    · simp only [List.mem_singleton, forall_eq]
      exact ⟨trivial, .inl rfl, is, rfl⟩

theorem Record.Visits.ofOne {p : Record Unit} (h : ∀ r : Recording,
    ∃ uses, (p.run r).2.graph.references.toList = r.graph.references.toList ++ uses ∧
      ∀ use ∈ uses, use.identifier = node ∧ use.IsOf t node) : p.Visits t [node] := by
  intro r
  obtain ⟨uses, recorded, of⟩ := h r
  refine ⟨uses, recorded, .single (fun use mem => (of use mem).2) ?_⟩
  refine List.pairwise_of_forall_mem_list fun use mem use' mem' => .inl (Nat.le_of_eq ?_)
  obtain ⟨same, isOf⟩ := of use mem
  obtain ⟨same', isOf'⟩ := of use' mem'
  rw [← isOf.start, ← isOf'.start, same, same']

namespace Record.Refers

/-- What is recorded are uses of the one node. -/
theorem recorded {p : Record Unit} (h : p.Refers t node) {name : String}
    (is : t.nodes.shape? node = some (.identifier name)) (r : Recording) :
    ∃ uses, (p.run r).2.graph.references.toList = r.graph.references.toList ++ uses ∧
      ∀ use ∈ uses, use.identifier = node ∧ use.IsOf t node := by
  induction h generalizing r with
  | nothing => exact ⟨[], (List.append_nil _).symm, by simp⟩
  | refer usage => exact recorded_refer is usage r
  | @seq p q _ _ ih ih' =>
    obtain ⟨uses, recorded, of⟩ := ih r
    obtain ⟨uses', recorded', of'⟩ := ih' (p.run r).2
    refine ⟨uses ++ uses', by rw [← List.append_assoc, ← recorded]; exact recorded', ?_⟩
    exact fun use mem => (List.mem_append.mp mem).elim (of use) (of' use)

end Record.Refers

section Routines

variable {size : Nat} (nested : t.IsNested size) (ordered : t.IsOrdered)

include nested ordered

/-- What is entered in place of a node may be recorded one part after the other. -/
theorem Unfolds.mayPrecede (h : Unfolds t node nodes) : nodes.Pairwise (MayPrecede t) := by
  cases h with
  | part inside => exact List.pairwise_singleton _ _
  | slots fewer => exact (pairwise_mayPrecede_row nested ordered node).sublist fewer
  | cast is => exact pairwise_mayPrecede_cast nested ordered is
  | pattern => exact pairwise_mayPrecede_parts nested ordered node

omit nested ordered in
/-- A step that enters the parts of a node enters the node. -/
theorem Record.Visits.fold {p : Record α} (h : p.Visits t nodes)
    (inside : ∀ part ∈ nodes, part = node ∨ t.Entered part node)
    (row : nodes.Pairwise (MayPrecede t)) : p.Visits t [node] := fun r =>
  (h r).imp fun _ recorded => ⟨recorded.1, recorded.2.fold inside row⟩

theorem follows_visits : Follows t fun _ p nodes => p.Visits t nodes where
  mono h fewer := h.mono fewer
  pure a := .pure a
  bind h rest := h.bind rest
  observe look := .observe look
  define s name definition owningLoop := .define s name definition owningLoop
  permit b writable := .permit b writable
  refers h is := .ofOne (h.recorded is)
  typeName is := .ofOne (recorded_refer is .inType)
  fold h unfolds := h.fold unfolds.inside (unfolds.mayPrecede nested ordered)
  inScope h unfolds _ :=
    (Record.Visits.inScope h).fold unfolds.inside (unfolds.mayPrecede nested ordered)

variable {walk : Walker} (visits : ∀ position x, (walk position x).Visits t [x])

/-- Variables that are only named are declared and not used. -/
theorem quiet_variableDeclaration {node : NodeId} {word : Syntax.DeclarationWord}
    {declarators : List NodeId}
    (plain : ∀ declarator ∈ declarators, IsPlainDeclarator t declarator) :
    (variableDeclaration t walk node word declarators).Visits t [] := by
  have rules := follows_visits nested ordered
  refine rules.skip (.observe _) fun _ => rules.skip (.observe _) fun _ =>
    rules.forMQuiet fun declarator mem => ?_
  split
  · rename_i target annotated init is
    obtain ⟨⟨once, types, evaluated⟩, rfl, rfl⟩ := plain declarator mem target annotated init is
    refine rules.skip (rules.skip (rules.forMQuiet fun target mem =>
      rules.skip rules.declare fun _ => ?_) fun _ => ?_)
      fun _ => rules.skip (.pure ()) fun _ => .pure ()
    · have zero : target.defaults = 0 := once target (Array.mem_toList_iff.mp mem)
      simpa [zero, referTimes] using Record.Visits.pure ()
    · simpa [patternRest, types, evaluated, Scope.types, values] using
        rules.seq (rules.pure ()) (rules.pure ())
  · exact .pure ()

section Head

variable {declaration : NodeId} {word : Syntax.DeclarationWord} {declarators : List NodeId}

omit nested ordered in
/-- What each round assigns is part of the pattern of the first declarator. -/
theorem exists_pattern_of_roundTargets
    (is : t.nodes.shape? declaration = some (.variableDeclaration word declarators)) :
    roundTargets t declarators = [] ∨ ∃ pattern, t.Entered pattern declaration ∧
      (roundTargets t declarators).Sublist (PatternParts.ofNode t (some pattern)).row := by
  unfold roundTargets
  split
  · rename_i target annotated init found
    obtain ⟨declarator, first, shape⟩ := Option.bind_eq_some_iff.mp found
    cases target with
    | none => exact .inl (by simp [PatternParts.ofNode])
    | some pattern =>
      have ofHead : t.Entered declarator declaration :=
        .slot is (List.mem_map_of_mem (List.mem_of_head? first))
      have ofFirst : t.Entered pattern declarator := .slot shape (by simp [Shape.slots])
      exact .inr ⟨pattern, ofFirst.trans ofHead, by simp [PatternParts.row]⟩
  · exact .inl rfl

omit nested ordered in
theorem entered_of_mem_roundTargets {x : NodeId}
    (is : t.nodes.shape? declaration = some (.variableDeclaration word declarators))
    (mem : x ∈ roundTargets t declarators) : t.Entered x declaration := by
  obtain none | ⟨pattern, entered, parts⟩ := exists_pattern_of_roundTargets is
  · simp [none] at mem
  · obtain rfl | inside := Unfolds.pattern.inside x (parts.subset mem)
    · exact entered
    · exact inside.trans entered

omit nested ordered in
theorem exists_name_of_mem_roundTargets {x : NodeId} (mem : x ∈ roundTargets t declarators) :
    ∃ name, t.nodes.shape? x = some (.identifier name) := by
  unfold roundTargets at mem
  split at mem
  · obtain ⟨target, listed, rfl⟩ := List.mem_map.mp mem
    exact PatternParts.exists_name_of_mem_targets (Array.mem_toList_iff.mp listed)
  · cases mem

theorem pairwise_mayPrecede_roundTargets
    (is : t.nodes.shape? declaration = some (.variableDeclaration word declarators)) :
    (roundTargets t declarators).Pairwise (MayPrecede t) := by
  obtain none | ⟨pattern, -, parts⟩ := exists_pattern_of_roundTargets is
  · simp [none]
  · exact (pairwise_mayPrecede_parts nested ordered pattern).sublist parts

theorem visits_assignHead (declarators : List NodeId) :
    (assignHead t declarators).Visits t (roundTargets t declarators) := by
  have rules := follows_visits nested ordered
  rw [assignHead, roundTargets]
  cases found : declarators.head?.bind (t.nodes.shape? ·) with
  | none => exact rules.pure ()
  | some shape =>
    cases shape with
    | variableDeclarator target annotated init =>
      exact rules.targets fun target name is => rules.refers (.refer .initializing) is
    | _ => exact rules.pure ()

omit nested ordered in
/-- Where the head of a loop does not just name variables, what each round assigns is recorded after
all that is in the head. -/
theorem mayPrecede_roundTargets (head : IsRoundHead t declaration)
    (is : t.nodes.shape? declaration = some (.variableDeclaration word declarators))
    (rich : ∃ declarator ∈ declarators, ¬ IsPlainDeclarator t declarator) {x : NodeId}
    (mem : x ∈ roundTargets t declarators) : MayPrecede t declaration x := by
  intro r r' h h'
  obtain ⟨name, isName⟩ := exists_name_of_mem_roundTargets mem
  exact .inr (.head head is rich h.below (h'.identifier_eq isName ▸ mem))

end Head

include visits

/-- Where the head of the loop just names variables, they are used once, as the targets of each
round. -/
theorem visits_walkForEach {left right body : Child}
    (row : t.row node = left.toList ++ right.toList ++ body.toList)
    (head : ∀ declaration, left = some declaration → IsRoundHead t declaration) :
    (walkForEach t walk node left right body).Visits t [node] := by
  have rules := follows_visits nested ordered
  have rest : (do value walk right; value walk body : Record Unit).Visits t
      (right.toList ++ body.toList) :=
    rules.seq (rules.value visits right) (rules.value visits body)
  have inOrder {p : Record Unit} (h : p.Visits t (t.row node)) : p.Visits t [node] :=
    rules.fold h (.slots (.refl _))
  have inHeadScope {lexical : Bool} {p : Record Unit} (h : p.Visits t [node]) :
      (inHeadScope lexical node p).Visits t [node] :=
    rules.inHeadScope h (.part (.inl rfl))
  refine inHeadScope ?_
  simp only
  split
  · rename_i declaration word declarators is
    have assigns := visits_assignHead nested ordered declarators
    have inside (x : NodeId) (mem : x ∈ roundTargets t declarators) : t.Entered x declaration :=
      entered_of_mem_roundTargets is mem
    have targets := pairwise_mayPrecede_roundTargets nested ordered is
    by_cases plain : ∀ declarator ∈ declarators, IsPlainDeclarator t declarator
    · have once : (assignHead t declarators).Visits t [declaration] :=
        assigns.fold (fun x mem => .inr (inside x mem)) targets
      exact inOrder
        (rules.mono (rules.skip (quiet_variableDeclaration nested ordered plain) fun _ =>
        rules.seq once rest) (by simp [row]))
    · have first :
          (variableDeclaration t walk declaration word declarators).Visits t [declaration] :=
        rules.fold (rules.variableDeclaration visits declaration word declarators) (.declarators is)
      have rich : ∃ declarator ∈ declarators, ¬ IsPlainDeclarator t declarator := by
        simpa using plain
      have row : t.row node = declaration :: (right.toList ++ body.toList) := by simpa using row
      have entered (x : NodeId) (mem : x ∈ t.row node) : t.Entered x node :=
        .single ((t.row_sublist_walked node).subset mem)
      have parts := pairwise_mayPrecede_row nested ordered node
      rw [row] at entered parts
      obtain ⟨before, after⟩ := List.pairwise_cons.mp parts
      refine (rules.seq first (rules.seq assigns rest)).fold (fun x mem => .inr ?_) ?_
      · simp only [List.mem_append, List.mem_singleton] at mem
        obtain rfl | mem | mem := mem
        · exact entered x List.mem_cons_self
        · exact (inside x mem).trans (entered declaration List.mem_cons_self)
        · exact entered x (List.mem_cons_of_mem declaration (List.mem_append.mpr mem))
      · -- what each round assigns is in the head, which ends before the rest of the loop starts
        have assigned (x : NodeId) (mem : x ∈ roundTargets t declarators) (y : NodeId)
            (mem' : y ∈ right.toList ++ body.toList) : MayPrecede t x y := fun r r' h h' =>
          before y mem' (h.enter (.inr (inside x mem))) h'
        rw [List.singleton_append, List.pairwise_cons]
        refine ⟨fun x mem => ?_, List.pairwise_append.mpr ⟨targets, after, assigned⟩⟩
        obtain mem | mem := List.mem_append.mp mem
        · exact mayPrecede_roundTargets (head declaration rfl) is rich mem
        · exact before x mem
  · exact inOrder (rules.mono (rules.seq (rules.assignPattern visits _ .writing) rest)
      (by simp [row]))

theorem visits_walkSwitch {discriminant : Child} {cases : List NodeId}
    (is : t.nodes.shape? node = some (.switch discriminant cases)) :
    (walkSwitch t walk node discriminant cases).Visits t [node] := by
  have rules := follows_visits nested ordered
  exact rules.fold (rules.seq (rules.value visits discriminant)
    (.inScope fun _ => rules.switchInside visits cases)) (.switch is)

omit visits in
theorem accompanies_visits : Accompanies t fun _ p nodes => p.Visits t nodes where
  toFollows := follows_visits nested ordered
  switch enters := visits_walkSwitch nested ordered enters
  forEach enters := visits_walkForEach nested ordered enters

omit visits in
theorem visits_walkTree (environment : Environment) : (walkTree t environment).Visits t [t.root] :=
  (accompanies_visits nested ordered).walkTree environment

omit visits in
/-- Of two uses that a walk records, the first one stands no later, unless they are in different
parts of an assertion in angle brackets, of a pattern, or of what a loop over keys or elements has
in its head. -/
theorem pairwise_walkTree (environment : Environment) :
    ((walkTree t environment).run { graph := .empty t }).2.graph.references.toList.Pairwise
      (Reference.ComesBefore t) := by
  obtain ⟨uses, recorded, traces⟩ :=
    visits_walkTree nested ordered environment { graph := .empty t }
  rw [recorded]
  exact traces.pairwise (List.pairwise_singleton _ _)

end Routines

end LoopCapture.Scope
