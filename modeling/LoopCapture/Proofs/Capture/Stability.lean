import LoopCapture.Proofs.Capture.Loop
import LoopCapture.Proofs.Capture.Memory
import LoopCapture.Proofs.Scope.Meaning

/-!
# Which captures are not safe

A capture is not safe in a loop when some write, anywhere in the text, may change what it sees
between the rounds. The verdict does not depend on what a session remembers.
-/

namespace LoopCapture.Capture
open Syntax (NodeId)
open Scope (Binding BindingId Definition Environment Reference ReferenceId)

namespace Program

/-- What a definition declares, it declares strictly inside the loop. -/
def DeclaresInside (p : Program) (loop : NodeId) (d : Definition) : Prop :=
  ∃ outer inner, p.tree.span? (some loop) = some outer ∧
    p.tree.span? (some d.declaration) = some inner ∧
    outer.start < inner.start ∧ inner.stop < outer.stop

/-- A write that is made from another function than that of the binding, or not before the outermost
loop starts. -/
structure IsLateWrite (p : Program) (loop : NodeId) (b : BindingId) (binding : Binding)
    (id : ReferenceId) (w : Reference) : Prop where
  made : p.graph.references[id]? = some w
  meant : w.resolved = some b
  writes : w.usage.write = true
  late : p.graph.variableScope? w.scope ≠ p.graph.variableScope? binding.scope ∨
    p.tree.startOf (p.topLoop loop (freshDeclaration binding)) ≤ w.start

/-- A binding that is no constant and not fresh on every round, and that some late write changes. -/
structure IsUnstable (p : Program) (loop : NodeId) (b : BindingId) (binding : Binding) : Prop where
  found : p.graph.bindings[b]? = some binding
  notConst : binding.first.kind ≠ .constWord
  notUsing : binding.first.kind ≠ .usingWord
  notAwaitUsing : binding.first.kind ≠ .awaitUsing
  notFresh : ¬ (binding.first.kind = .letWord ∧ p.DeclaresInside loop binding.first)
  changed : ∃ id w, p.IsLateWrite loop b binding id w

end Program

structure JudgesCaptures (p : Program) (safe : NodeId → Reference → Bool) : Prop where
  notSafe_iff : ∀ loop r, safe loop r = false ↔
    r.usage.isType = false ∧ ∃ b binding, r.resolved = some b ∧ p.IsUnstable loop b binding
  safe_of_unwritten : ∀ b, (∀ (id : ReferenceId) (w : Reference),
      p.graph.references[id]? = some w → w.resolved = some b → w.usage.write = false) →
    ∀ loop r, r.resolved = some b → safe loop r = true
  /-- What is not declared by `let` is judged in a loop as in the loops around it. -/
  safe_containingLoop : ∀ loop outer, p.containingLoop loop = some outer →
    ∀ r b binding, r.resolved = some b → p.graph.bindings[b]? = some binding →
    binding.first.kind ≠ .letWord → safe loop r = safe outer r

namespace Program

variable {p : Program} {loop : NodeId} {b : BindingId} {binding : Binding}

theorem isInside_iff (d : Definition) :
    p.isInside loop d.declaration = true ↔ p.DeclaresInside loop d := by
  unfold isInside DeclaresInside
  split
  · simp [*, Text.Span.strictlyContains]
  · simp_all

theorem mem_references {ids : List ReferenceId} {w : Reference} :
    w ∈ p.references ids ↔ ∃ id ∈ ids, p.graph.references[id]? = some w :=
  List.mem_filterMap

theorem mem_references_of_found (linked : p.graph.Linked p.tree)
    (found : p.graph.bindings[b]? = some binding) {w : Reference} :
    w ∈ p.references binding.references.toList ↔
      ∃ id : ReferenceId, p.graph.references[id]? = some w ∧ w.resolved = some b := by
  have listed : p.graph.referencesOf b = binding.references.toList := by
    simp [Scope.Graph.referencesOf, found]
  rw [mem_references, ← listed]
  constructor
  · rintro ⟨id, mem, made⟩
    obtain ⟨w', made', meant⟩ := (linked.mem_referencesOf b).mp mem
    obtain rfl : w = w' := Option.some.inj (made.symm.trans made')
    exact ⟨id, made, meant⟩
  · rintro ⟨id, made, meant⟩
    exact ⟨id, (linked.mem_referencesOf b).mpr ⟨w, made, meant⟩, made⟩

theorem isConstant_eq_false_iff (kind : Scope.DeclarationKind) :
    kind.isConstant = false ↔ kind ≠ .constWord ∧ kind ≠ .usingWord ∧ kind ≠ .awaitUsing := by
  cases kind <;> simp [Scope.DeclarationKind.isConstant]

theorem freshDeclaration_any_isInside :
    (freshDeclaration binding).any (p.isInside loop) = true ↔
      binding.first.kind = .letWord ∧ p.DeclaresInside loop binding.first := by
  rw [freshDeclaration, ← isInside_iff]
  split <;> simp [*]

theorem isSettled_eq_false_iff {border : Text.Offset} {w : Reference} :
    p.isSettled binding border w = false ↔ w.usage.write = true ∧
      (p.graph.variableScope? w.scope ≠ p.graph.variableScope? binding.scope ∨
        border ≤ w.start) := by
  simp [isSettled, Decidable.imp_iff_not_or]

/-- A binding is not stable in a loop exactly when it is no constant, not fresh on every round, and
changed late. -/
theorem isStable_eq_false_iff (linked : p.graph.Linked p.tree) :
    p.isStable loop b = false ↔ ∃ binding, p.IsUnstable loop b binding := by
  rw [isStable]
  cases found : p.graph.bindings[b]? with
  | none =>
    apply iff_of_false (by simp)
    rintro ⟨binding, isUnstable⟩
    rw [isUnstable.found] at found
    cases found
  | some binding =>
    rw [Option.all_some, Bool.or_eq_false_iff, Bool.or_eq_false_iff, isConstant_eq_false_iff,
      ← Bool.not_eq_true (Option.any _ _), freshDeclaration_any_isInside, List.all_eq_false]
    constructor
    · rintro ⟨⟨⟨notConst, notUsing, notAwaitUsing⟩, notFresh⟩, w, mem, notSettled⟩
      obtain ⟨id, made, meant⟩ := (mem_references_of_found linked found).mp mem
      obtain ⟨writes, late⟩ := isSettled_eq_false_iff.mp (Bool.eq_false_iff.mpr notSettled)
      exact ⟨binding, found, notConst, notUsing, notAwaitUsing, notFresh, id, w, made, meant,
        writes, late⟩
    · rintro ⟨binding', same, notConst, notUsing, notAwaitUsing, notFresh, id, w, isLate⟩
      obtain rfl : binding = binding' := Option.some.inj (found.symm.trans same)
      refine ⟨⟨⟨notConst, notUsing, notAwaitUsing⟩, notFresh⟩, w,
        (mem_references_of_found linked found).mpr ⟨id, isLate.made, isLate.meant⟩, ?_⟩
      rw [isSettled_eq_false_iff.mpr ⟨isLate.writes, isLate.late⟩]
      exact Bool.false_ne_true

theorem isSafe_eq_false_iff (linked : p.graph.Linked p.tree) (r : Reference) :
    p.isSafe loop r = false ↔
      r.usage.isType = false ∧ ∃ b binding, r.resolved = some b ∧ p.IsUnstable loop b binding := by
  rw [isSafe, Bool.or_eq_false_iff]
  refine and_congr_right fun _ => ?_
  cases meant : r.resolved with
  | none => simp
  | some b => simp [isStable_eq_false_iff linked]

/-- The outermost loop around a loop is the outermost one around the loops around it. -/
theorem isStable_containingLoop (follow : p.ParentsFollow) {outer : NodeId}
    (around : p.containingLoop loop = some outer) (found : p.graph.bindings[b]? = some binding)
    (notLet : binding.first.kind ≠ .letWord) : p.isStable loop b = p.isStable outer b := by
  have lt := lt_containingLoop follow around
  have same : p.topLoop loop none = p.topLoop outer none :=
    topLoop_eq_of_containingLoop follow around (startsFrom_zero (Nat.lt_trans lt.1 lt.2))
      (startsFrom_zero lt.2)
  simp [isStable, found, freshDeclaration, notLet, same]

theorem isSafe_containingLoop (follow : p.ParentsFollow) {outer : NodeId}
    (around : p.containingLoop loop = some outer) {r : Reference} (meant : r.resolved = some b)
    (found : p.graph.bindings[b]? = some binding) (notLet : binding.first.kind ≠ .letWord) :
    p.isSafe loop r = p.isSafe outer r := by
  rw [isSafe, isSafe, meant, Option.all_some, Option.all_some,
    isStable_containingLoop follow around found notLet]

end Program

variable {p : Program}

theorem judgesCaptures_isSafe (linked : p.graph.Linked p.tree) (follow : p.ParentsFollow) :
    JudgesCaptures p p.isSafe where
  notSafe_iff loop r := Program.isSafe_eq_false_iff linked r
  safe_of_unwritten b unwritten loop r meant := by
    by_contra notSafe
    obtain ⟨-, b', binding, meant', isUnstable⟩ :=
      (Program.isSafe_eq_false_iff linked r).mp (Bool.eq_false_iff.mpr notSafe)
    obtain rfl : b = b' := Option.some.inj (meant.symm.trans meant')
    obtain ⟨id, w, isLate⟩ := isUnstable.changed
    have writes := isLate.writes
    rw [unwritten id w isLate.made isLate.meant] at writes
    cases writes
  safe_containingLoop loop outer around r b binding meant found notLet :=
    Program.isSafe_containingLoop follow around meant found notLet

theorem run_isSafe_memoryAfter (asked : List Session.Question) (loop : NodeId) (r : Reference) :
    ((Session.isSafe p loop r).run (Session.memoryAfter p asked)).1 = p.isSafe loop r :=
  (Session.answers_isSafe loop r _ (Session.sound_memoryAfter asked)).1

/-- Whatever text and whatever surroundings, a session judges captures so, whatever it was asked
before. -/
theorem judgesCaptures_ofText (text : List Char) (environment : Environment)
    (asked : NodeId → Reference → List Session.Question) :
    JudgesCaptures (.ofText text environment) fun loop r =>
      ((Session.isSafe (.ofText text environment) loop r).run
        (Session.memoryAfter (.ofText text environment) (asked loop r))).1 := by
  have linked := Scope.Graph.linked_ofTree (Grammar.parseText text).tree environment
  have follow := Program.parentsFollow_ofText text environment
  have judges := judgesCaptures_isSafe (p := .ofText text environment) linked follow
  simpa only [run_isSafe_memoryAfter] using judges

end LoopCapture.Capture
