import LoopCapture.Capture.Session

/-!
# Remembering changes no answer

A session that starts with a sound memory gives the answers that the definitions give, and its
memory stays sound. A memory is sound when all that it knows is so.
-/

namespace LoopCapture.Capture
open Text (Offset)
open Syntax (Child NodeId parentWalkLimit)
open Scope (BindingId Reference)

/-- All that a memory knows about a program is so. -/
structure Memory.Sound (m : Memory) (p : Program) : Prop where
  exempt : ∀ closure verdict, m.exempt[closure]? = some verdict → verdict = p.isExempt closure
  stable : ∀ loop b verdict, m.stable[(loop, b)]? = some verdict → verdict = p.isStable loop b

namespace Memory

variable {p : Program} {m : Memory}

theorem sound_empty (p : Program) : ({} : Memory).Sound p where
  exempt := by simp
  stable := by simp

theorem Sound.insertExempt (h : m.Sound p) (closure : NodeId) :
    { m with exempt := m.exempt.insert closure (p.isExempt closure) }.Sound p where
  exempt other verdict known := by
    rw [Std.HashMap.getElem?_insert] at known
    split at known
    · rename_i same
      rw [← Option.some.inj known, beq_iff_eq.mp same]
    · exact h.exempt other verdict known
  stable := h.stable

theorem Sound.insertStable (h : m.Sound p) (loop : NodeId) (b : BindingId) :
    { m with stable := m.stable.insert (loop, b) (p.isStable loop b) }.Sound p where
  exempt := h.exempt
  stable otherLoop other verdict known := by
    rw [Std.HashMap.getElem?_insert] at known
    split at known
    · rename_i same
      obtain ⟨rfl, rfl⟩ := Prod.mk.inj (beq_iff_eq.mp same)
      exact (Option.some.inj known).symm
    · exact h.stable otherLoop other verdict known

end Memory

namespace Session

variable {α β : Type} {p : Program}

/-- With every sound memory the session answers so and leaves a sound memory. -/
def Answers (p : Program) (session : Session α) (answer : α) : Prop :=
  ∀ m : Memory, m.Sound p → (session.run m).1 = answer ∧ (session.run m).2.Sound p

theorem Answers.pure (answer : α) : Answers p (return answer) answer :=
  fun _ sound => ⟨rfl, sound⟩

theorem Answers.bind {session : Session α} {next : α → Session β} {first : α} {answer : β}
    (h : Answers p session first) (h' : Answers p (next first) answer) :
    Answers p (session >>= next) answer := by
  intro m sound
  obtain ⟨told, kept⟩ := h m sound
  have rest := h' _ kept
  rw [← told] at rest
  exact rest

/-- An answer that is looked up is right, and one that is worked out is remembered. -/
theorem answers_isExempt (closure : NodeId) :
    Answers p (isExempt p closure) (p.isExempt closure) := by
  intro m sound
  cases known : m.exempt[closure]? with
  | some verdict =>
    have right := sound.exempt closure verdict known
    simpa [isExempt, known] using ⟨right, sound⟩
  | none =>
    have run : (isExempt p closure).run m =
        (p.isExempt closure,
          { m with exempt := m.exempt.insert closure (p.isExempt closure) }) := by
      simp [isExempt, known]
      rfl
    rw [run]
    exact ⟨rfl, sound.insertExempt closure⟩

theorem answers_loopAround (n : Nat) (inner : NodeId) :
    Answers p (loopAround p n inner) (p.loopAround n inner) := by
  induction n generalizing inner with
  | zero => exact .pure none
  | succ n ih =>
    rw [loopAround, Program.loopAround]
    cases p.tree.parent inner with
    | none => exact .pure none
    | some outer =>
      by_cases loop : repeats p.tree outer inner
      · simpa [loop] using .pure (some outer)
      · by_cases function : p.tree.isFunction (some outer)
        · simp only [loop, function]
          refine (answers_isExempt outer).bind ?_
          cases p.isExempt outer
          · exact .pure none
          · exact ih outer
        · simpa [loop, function] using ih outer

theorem answers_containingLoop (node : NodeId) :
    Answers p (containingLoop p node) (p.containingLoop node) :=
  answers_loopAround parentWalkLimit node

theorem answers_climb (border : Offset) (n : Nat) (top : NodeId) (loop : Child) :
    Answers p (climb p border n top loop) (p.climb border n top loop) := by
  induction n generalizing top loop with
  | zero => exact .pure top
  | succ n ih =>
    cases loop with
    | none => exact .pure top
    | some loop =>
      rw [climb, Program.climb]
      by_cases after : p.startsFrom border loop
      · simpa only [after, if_true] using (answers_containingLoop loop).bind (ih _ _)
      · simpa [after] using .pure top

theorem answers_topLoop (loop : NodeId) (excluded : Child) :
    Answers p (topLoop p loop excluded) (p.topLoop loop excluded) :=
  answers_climb _ _ _ _

theorem answers_judge (loop : NodeId) (b : BindingId) :
    Answers p (judge p loop b) (p.isStable loop b) := by
  rw [judge, Program.isStable]
  cases p.graph.bindings[b]? with
  | none => exact .pure true
  | some binding =>
    by_cases fixed : binding.first.kind.isConstant ||
        (freshDeclaration binding).any (p.isInside loop)
    · simpa [fixed] using .pure true
    · simp only [fixed, Option.all_some, Bool.false_or]
      exact (answers_topLoop loop (freshDeclaration binding)).bind (.pure _)

theorem answers_isStable (loop : NodeId) (b : BindingId) :
    Answers p (isStable p loop b) (p.isStable loop b) := by
  intro m sound
  cases known : m.stable[(loop, b)]? with
  | some verdict =>
    have right := sound.stable loop b verdict known
    simpa [isStable, known] using ⟨right, sound⟩
  | none =>
    obtain ⟨told, kept⟩ := answers_judge loop b m sound
    have run : (isStable p loop b).run m =
        (((judge p loop b).run m).1,
          { ((judge p loop b).run m).2 with
            stable := ((judge p loop b).run m).2.stable.insert (loop, b)
              ((judge p loop b).run m).1 }) := by
      simp [isStable, known]
      rfl
    rw [run, told]
    exact ⟨rfl, kept.insertStable loop b⟩

theorem answers_isSafe (loop : NodeId) (r : Reference) :
    Answers p (isSafe p loop r) (p.isSafe loop r) := by
  rw [isSafe, Program.isSafe]
  by_cases inType : r.usage.isType
  · simpa [inType] using .pure true
  · cases r.resolved with
    | none => simpa [inType] using .pure true
    | some b => simpa [inType] using answers_isStable loop b

theorem answers_unsafeAmong (loop : NodeId) (references : List Reference) :
    Answers p (unsafeAmong p loop references) (references.filter (p.isUnsafe loop)) := by
  induction references with
  | nil => exact .pure []
  | cons r rest ih =>
    rw [unsafeAmong, List.filter_cons, Program.isUnsafe]
    cases r.resolved with
    | none => simpa using ih
    | some b =>
      simp only [Option.isNone_some, Option.isSome_some, Bool.true_and]
      refine (answers_isSafe loop r).bind ?_
      cases p.isSafe loop r
      · exact ih.bind (.pure _)
      · exact ih

theorem answers_finding? (closure : NodeId) :
    Answers p (finding? p closure) (p.finding? closure) := by
  rw [finding?, Program.finding?, Program.exposingLoop?]
  by_cases body : p.hasBody closure
  · simp only [body, Bool.not_true, Bool.true_and]
    refine (answers_containingLoop closure).bind ?_
    cases p.containingLoop closure with
    | none => simpa using .pure none
    | some loop =>
      refine (answers_isExempt closure).bind ?_
      cases p.isExempt closure
      · change Answers p _ (p.findingOf? closure (p.unsafeNames loop closure))
        rw [Program.unsafeNames]
        cases p.graph.nodeScope? (some closure) with
        | none => simpa [Program.findingOf?] using .pure none
        | some scope => exact (answers_unsafeAmong loop _).bind (.pure _)
      · exact .pure none
  · simpa [body] using .pure none

theorem answers_findingsOn (closures : List NodeId) :
    Answers p (findingsOn p closures) (closures.filterMap p.finding?) := by
  induction closures with
  | nil => exact .pure []
  | cons closure rest ih =>
    rw [findingsOn, List.filterMap_cons]
    refine (answers_finding? closure).bind ?_
    cases p.finding? closure with
    | none => exact ih
    | some finding => exact ih.bind (.pure _)

theorem answers_findings : Answers p (findings p) p.findings :=
  (answers_findingsOn p.closures).bind (.pure _)

inductive Question where
  | isExempt (closure : NodeId)
  | containingLoop (node : NodeId)
  | topLoop (loop : NodeId) (excluded : Child)
  | isSafe (loop : NodeId) (r : Reference)
  | finding (closure : NodeId)
  | findings

def Question.ask (p : Program) : Question → Session Unit
  | .isExempt closure => do let _ ← Session.isExempt p closure
  | .containingLoop node => do let _ ← Session.containingLoop p node
  | .topLoop loop excluded => do let _ ← Session.topLoop p loop excluded
  | .isSafe loop r => do let _ ← Session.isSafe p loop r
  | .finding closure => do let _ ← Session.finding? p closure
  | .findings => do let _ ← Session.findings p

theorem answers_ask (q : Question) : Answers p (q.ask p) () := by
  cases q with
  | isExempt closure => exact (answers_isExempt closure).bind (.pure ())
  | containingLoop node => exact (answers_containingLoop node).bind (.pure ())
  | topLoop loop excluded => exact (answers_topLoop loop excluded).bind (.pure ())
  | isSafe loop r => exact (answers_isSafe loop r).bind (.pure ())
  | finding closure => exact (answers_finding? closure).bind (.pure ())
  | findings => exact answers_findings.bind (.pure ())

/-- What a session remembers after the given questions. -/
def memoryAfter (p : Program) (asked : List Question) : Memory :=
  ((asked.forM (·.ask p)).run {}).2

theorem answers_forM_ask (asked : List Question) : Answers p (asked.forM (·.ask p)) () := by
  induction asked with
  | nil => exact .pure ()
  | cons q asked ih => exact (answers_ask q).bind ih

theorem sound_memoryAfter (asked : List Question) : (memoryAfter p asked).Sound p :=
  (answers_forM_ask asked {} (Memory.sound_empty p)).2

end Session
end LoopCapture.Capture
