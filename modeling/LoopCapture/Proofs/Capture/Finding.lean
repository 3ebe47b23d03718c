import LoopCapture.Proofs.Capture.Memory
import LoopCapture.Proofs.Scope.Meaning

/-!
# What is found

A closure is found when it may outlive the round it is made in and something in it captures a
variable from outside that is not safe there. The search looks only at what passes through the scope
of the closure; by the law of resolution these are the captures of the closure and of all closures
in it.
-/

namespace LoopCapture.Capture
open Syntax (Child NodeId)
open Scope (Binding BindingId Environment Reference ReferenceId ScopeId)

namespace Program

/-- A closure with a body and a scope that is made in a loop and may outlive its round. -/
structure IsExposed (p : Program) (closure loop : NodeId) (scope : ScopeId) : Prop where
  hasBody : p.hasBody closure
  nodeScope : p.graph.nodeScope? (some closure) = some scope
  containingLoop : p.containingLoop closure = some loop
  notExempt : p.isExempt closure = false

/-- A reference made in a scope or below it that means a binding from outside, and that is not safe
in the loop. -/
structure IsUnsafeCapture (p : Program) (loop : NodeId) (scope : ScopeId) (id : ReferenceId)
    (r : Reference) (binding : Binding) : Prop where
  made : p.graph.references[id]? = some r
  meant : ∃ b, r.resolved = some b ∧ p.graph.bindings[b]? = some binding
  inside : p.graph.IsBelow r.scope scope
  outside : ¬ p.graph.IsBelow binding.scope scope
  notSafe : p.isSafe loop r = false

/-- Something is captured from a scope that is not safe in the loop. -/
def HasUnsafeCapture (p : Program) (loop : NodeId) (scope : ScopeId) : Prop :=
  ∃ id r binding, p.IsUnsafeCapture loop scope id r binding

/-- The names are those of the unsafe captures, each once, in the order in which the first
references that carry them were made. -/
def NamesUnsafeCaptures (p : Program) (loop : NodeId) (scope : ScopeId) (names : List String) :
    Prop :=
  ∃ ids : List ReferenceId, ids.Pairwise (· < ·) ∧
    (∀ id, id ∈ ids ↔ ∃ r binding, p.IsUnsafeCapture loop scope id r binding) ∧
    names = ((p.references ids).map (·.name)).eraseDups

end Program

/-- What a search for captures finds: one finding for each exposed closure with unsafe captures, no
other findings, all in source order. -/
structure FindsCaptures (p : Program) (found : List Finding) : Prop where
  one_each : ∀ closure loop scope, p.IsExposed closure loop scope → p.HasUnsafeCapture loop scope →
    ∃ finding, found.filter (·.closure == closure) = [finding] ∧
      p.NamesUnsafeCaptures loop scope finding.names
  no_other : ∀ finding ∈ found, ∃ loop scope,
    p.IsExposed finding.closure loop scope ∧ p.HasUnsafeCapture loop scope
  span_eq : ∀ finding ∈ found, p.tree.span? (some finding.closure) = some finding.span
  in_order : found.Pairwise fun a b =>
    a.span.start < b.span.start ∨ a.span.start = b.span.start ∧ b.span.stop ≤ a.span.stop
  /-- What a closure inside reads is told by the finding on the closure around it. -/
  nested : ∀ closure loop scope, p.IsExposed closure loop scope →
    ∀ inner innerScope, p.graph.nodeScope? (some inner) = some innerScope →
    p.graph.IsBelow innerScope scope →
    ∀ (id : ReferenceId) (r : Reference) (b : BindingId) (binding : Binding),
    p.graph.references[id]? = some r → p.graph.IsBelow r.scope innerScope →
    r.resolved = some b → p.graph.bindings[b]? = some binding →
    ¬ p.graph.IsBelow binding.scope scope → p.isSafe loop r = false →
    ∃ finding ∈ found, finding.closure = closure ∧ r.name ∈ finding.names

variable {p : Program}

def unsafeIds (p : Program) (loop : NodeId) (scope : ScopeId) : List ReferenceId :=
  (p.graph.through scope).filter fun id => p.graph.references[id]?.any (p.isUnsafe loop)

theorem references_filter (test : Reference → Bool) (ids : List ReferenceId) :
    p.references (ids.filter fun id => p.graph.references[id]?.any test) =
      (p.references ids).filter test := by
  induction ids with
  | nil => rfl
  | cons id ids ih =>
    unfold Program.references at ih ⊢
    cases found : p.graph.references[id]? with
    | none => simpa [found] using ih
    | some r => by_cases passes : test r <;> simp [found, passes, ih]

/-- By the law of resolution the search looks at the right references. -/
theorem mem_unsafeIds (linked : p.graph.Linked p.tree) (loop : NodeId) (scope : ScopeId)
    (id : ReferenceId) :
    id ∈ unsafeIds p loop scope ↔ ∃ r binding, p.IsUnsafeCapture loop scope id r binding := by
  rw [unsafeIds, List.mem_filter, Option.any_eq_true]
  constructor
  · rintro ⟨through, r, made, isUnsafe⟩
    obtain ⟨isSome, notSafe⟩ := Bool.and_eq_true_iff.mp isUnsafe
    obtain ⟨b, meant⟩ := Option.isSome_iff_exists.mp isSome
    obtain ⟨binding, found⟩ := linked.exists_binding made meant
    obtain ⟨inside, outside⟩ :=
      (linked.mem_through_iff_isBelow made meant found scope).mp through
    exact ⟨r, binding, made, ⟨b, meant, found⟩, inside, outside, by simpa using notSafe⟩
  · rintro ⟨r, binding, made, ⟨b, meant, found⟩, inside, outside, notSafe⟩
    refine ⟨(linked.mem_through_iff_isBelow made meant found scope).mpr ⟨inside, outside⟩, r, made,
      ?_⟩
    simp [Program.isUnsafe, meant, notSafe]

theorem unsafeNames_eq {closure : NodeId} {scope : ScopeId}
    (nodeScope : p.graph.nodeScope? (some closure) = some scope) (loop : NodeId) :
    p.unsafeNames loop closure =
      ((p.references (unsafeIds p loop scope)).map (·.name)).eraseDups := by
  rw [unsafeIds, references_filter, Program.unsafeNames, nodeScope]
  rfl

theorem namesUnsafeCaptures (linked : p.graph.Linked p.tree) {closure : NodeId} {scope : ScopeId}
    (nodeScope : p.graph.nodeScope? (some closure) = some scope) (loop : NodeId) :
    p.NamesUnsafeCaptures loop scope (p.unsafeNames loop closure) :=
  ⟨unsafeIds p loop scope, (linked.resolved.through_increasing scope).filter _,
    mem_unsafeIds linked loop scope, unsafeNames_eq nodeScope loop⟩

/-- Every unsafe capture is named. -/
theorem name_mem_of_isUnsafeCapture {loop : NodeId} {scope : ScopeId} {names : List String}
    (told : p.NamesUnsafeCaptures loop scope names) {id : ReferenceId} {r : Reference}
    {binding : Binding} (capture : p.IsUnsafeCapture loop scope id r binding) :
    r.name ∈ names := by
  obtain ⟨ids, -, complete, rfl⟩ := told
  rw [List.mem_eraseDups, List.mem_map]
  refine ⟨r, ?_, rfl⟩
  exact List.mem_filterMap.mpr ⟨id, (complete id).mpr ⟨r, binding, capture⟩, capture.made⟩

/-- Only unsafe captures are named. -/
theorem hasUnsafeCapture_of_name_mem {loop : NodeId} {scope : ScopeId} {names : List String}
    (told : p.NamesUnsafeCaptures loop scope names) {name : String} (mem : name ∈ names) :
    p.HasUnsafeCapture loop scope := by
  obtain ⟨ids, -, complete, rfl⟩ := told
  rw [List.mem_eraseDups, List.mem_map] at mem
  obtain ⟨r, read, -⟩ := mem
  obtain ⟨id, known, -⟩ := List.mem_filterMap.mp read
  obtain ⟨r, binding, capture⟩ := (complete id).mp known
  exact ⟨id, r, binding, capture⟩

theorem span?_of_hasBody {closure : NodeId} (h : p.hasBody closure) :
    ∃ span, p.tree.span? (some closure) = some span := by
  cases found : p.tree.nodes[closure]? with
  | none =>
    simp [Program.hasBody, Syntax.Tree.function?, Syntax.Tree.shape?, Syntax.NodeTable.shape?,
      found] at h
  | some node => exact ⟨node.span, by simp [Syntax.Tree.span?, found]⟩

/-- An exposed closure with unsafe captures gives a finding that names them. -/
theorem exists_finding (linked : p.graph.Linked p.tree) {closure loop : NodeId} {scope : ScopeId}
    (exposed : p.IsExposed closure loop scope) (captures : p.HasUnsafeCapture loop scope) :
    ∃ finding, p.finding? closure = some finding ∧
      p.NamesUnsafeCaptures loop scope finding.names := by
  obtain ⟨hasBody, nodeScope, containingLoop, notExempt⟩ := exposed
  obtain ⟨id, r, binding, capture⟩ := captures
  obtain ⟨span, spans⟩ := span?_of_hasBody hasBody
  have told := namesUnsafeCaptures linked nodeScope loop
  have named : p.unsafeNames loop closure ≠ [] :=
    List.ne_nil_of_mem (name_mem_of_isUnsafeCapture told capture)
  refine ⟨⟨closure, p.tree.kindName (some closure), p.unsafeNames loop closure, span⟩, ?_, told⟩
  simp [Program.finding?, Program.exposingLoop?, Program.findingOf?, hasBody, notExempt,
    containingLoop, named, spans]

/-- A finding comes from an exposed closure with unsafe captures and spans that closure. -/
theorem isExposed_of_finding (linked : p.graph.Linked p.tree) {closure : NodeId}
    {finding : Finding} (h : p.finding? closure = some finding) :
    finding.closure = closure ∧ p.tree.span? (some closure) = some finding.span ∧
      ∃ loop scope, p.IsExposed closure loop scope ∧ p.HasUnsafeCapture loop scope := by
  obtain ⟨loop, exposing, given⟩ := Option.bind_eq_some_iff.mp h
  rw [Program.exposingLoop?] at exposing
  rw [Program.findingOf?] at given
  split at exposing
  · rename_i exposes
    obtain ⟨hasBody, notExempt⟩ := Bool.and_eq_true_iff.mp exposes
    split at given
    · cases given
    · rename_i named
      obtain ⟨span, spans, rfl⟩ := Option.map_eq_some_iff.mp given
      refine ⟨rfl, spans, loop, ?_⟩
      cases nodeScope : p.graph.nodeScope? (some closure) with
      | none => simp [Program.unsafeNames, nodeScope] at named
      | some scope =>
        obtain ⟨name, mem⟩ := List.exists_mem_of_ne_nil _ (mt List.isEmpty_iff.mpr named)
        have told := namesUnsafeCaptures linked nodeScope loop
        exact ⟨scope, ⟨hasBody, nodeScope, exposing, by simpa using notExempt⟩,
          hasUnsafeCapture_of_name_mem told mem⟩
  · cases exposing

theorem nodup_closures (p : Program) : p.closures.Nodup :=
  List.nodup_range.filter _

theorem mem_closures_of_hasBody {closure : NodeId} (h : p.hasBody closure) :
    closure ∈ p.closures := by
  obtain ⟨f, function, -⟩ := (Option.any_eq_true _ _).mp h
  obtain ⟨node, found, -⟩ := Option.map_eq_some_iff.mp
    (Syntax.Tree.function?_eq_some_iff.mp function)
  have small := (Array.getElem?_eq_some_iff.mp found).1
  exact List.mem_filter.mpr ⟨List.mem_range.mpr small, Syntax.Tree.isFunction_of_function? function⟩

/-- Of results that tell what they came from, one at most came from each item. -/
theorem filter_filterMap_of_nodup {α β : Type} [BEq α] [LawfulBEq α] {make : α → Option β}
    {source : β → α} (h : ∀ a b, make a = some b → source b = a) {items : List α}
    (nodup : items.Nodup) {item : α} (mem : item ∈ items) :
    (items.filterMap make).filter (source · == item) = (make item).toList := by
  have others (rest : List α) (absent : item ∉ rest) :
      (rest.filterMap make).filter (source · == item) = [] := by
    rw [List.filter_eq_nil_iff]
    intro b made
    obtain ⟨a, is, from_a⟩ := List.mem_filterMap.mp made
    rw [beq_iff_eq, h a b from_a]
    rintro rfl
    exact absent is
  induction items with
  | nil => cases mem
  | cons first rest ih =>
    obtain ⟨fresh, nodup⟩ := List.nodup_cons.mp nodup
    by_cases same : first = item
    · subst same
      cases made : make first with
      | none => simp [made, others rest fresh]
      | some b => simp [made, others rest fresh, h first b made]
    · have later : item ∈ rest := (List.mem_cons.mp mem).resolve_left (Ne.symm same)
      cases made : make first with
      | none => simpa [made] using ih nodup later
      | some b => simpa [made, h first b made, same] using ih nodup later

theorem precedes_iff (a b : Finding) : a.precedes b ↔
    a.span.start < b.span.start ∨ a.span.start = b.span.start ∧ b.span.stop ≤ a.span.stop := by
  simp [Finding.precedes]

theorem pairwise_precedes (p : Program) : p.findings.Pairwise (·.precedes ·) := by
  apply List.pairwise_mergeSort
  · intro a b c
    grind [Finding.precedes]
  · intro a b
    grind [Finding.precedes]

/-- The findings of a program are as they should be. -/
theorem findsCaptures_findings (linked : p.graph.Linked p.tree) : FindsCaptures p p.findings := by
  have same := List.mergeSort_perm (p.closures.filterMap p.finding?) Finding.precedes
  have from_closure : ∀ finding ∈ p.findings, p.finding? finding.closure = some finding := by
    intro finding mem
    obtain ⟨closure, -, given⟩ := List.mem_filterMap.mp (same.mem_iff.mp mem)
    rwa [(isExposed_of_finding linked given).1]
  have one_each : ∀ closure loop scope, p.IsExposed closure loop scope →
      p.HasUnsafeCapture loop scope → ∃ finding,
        p.findings.filter (·.closure == closure) = [finding] ∧
          p.NamesUnsafeCaptures loop scope finding.names := by
    intro closure loop scope exposed captures
    obtain ⟨finding, given, told⟩ := exists_finding linked exposed captures
    refine ⟨finding, ?_, told⟩
    have only := filter_filterMap_of_nodup
      (fun closure finding given => (isExposed_of_finding linked given).1) (nodup_closures p)
      (mem_closures_of_hasBody exposed.hasBody)
    have kept := same.filter (·.closure == closure)
    rw [only, given] at kept
    exact List.perm_singleton.mp kept
  refine ⟨one_each, fun finding mem => ?_, fun finding mem => ?_, ?_, ?_⟩
  · exact (isExposed_of_finding linked (from_closure finding mem)).2.2
  · exact (isExposed_of_finding linked (from_closure finding mem)).2.1
  · exact (pairwise_precedes p).imp fun h => (precedes_iff _ _).mp h
  · intro closure loop scope exposed inner innerScope _ below id r b binding made inside meant is
      outside notSafe
    have capture : p.IsUnsafeCapture loop scope id r binding :=
      ⟨made, ⟨b, meant, is⟩, inside.trans below, outside, notSafe⟩
    obtain ⟨finding, only, told⟩ := one_each closure loop scope exposed ⟨id, r, binding, capture⟩
    have mem : finding ∈ p.findings.filter (·.closure == closure) := only ▸ List.mem_cons_self
    obtain ⟨mem, same⟩ := List.mem_filter.mp mem
    exact ⟨finding, mem, beq_iff_eq.mp same, name_mem_of_isUnsafeCapture told capture⟩

/-- Whatever text and whatever surroundings, a session that has remembered nothing yet finds what
should be found. -/
theorem findsCaptures_ofText (text : List Char) (environment : Environment) :
    FindsCaptures (.ofText text environment)
      ((Session.findings (.ofText text environment)).run {}).1 := by
  have linked := Scope.Graph.linked_ofTree (Grammar.parseText text).tree environment
  have answers := Session.answers_findings (p := .ofText text environment)
  rw [(answers {} (Memory.sound_empty _)).1]
  exact findsCaptures_findings linked

end LoopCapture.Capture
