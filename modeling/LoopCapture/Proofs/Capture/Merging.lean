import LoopCapture.Proofs.Capture.Stability

/-!
# Names with several declarations

A scope has one binding for all declarations of a name: a type beside a value, a configured global
beside a variable, a variable declared twice. The first declaration decides how captures are judged.
What it vouches for stands whatever declarations follow it. What a later one vouches for counts for
nothing by itself: there a capture is safe when no write is late, as it is for any variable.
-/

namespace LoopCapture.Capture
open Syntax (NodeId)
open Scope (Binding BindingId Definition Environment Reference)

namespace Program

/-- After such a declaration a closure made on a round of the loop sees the value of its round: the
declaration is of a constant, or of a `let` strictly inside the loop. -/
def Vouches (p : Program) (loop : NodeId) (d : Definition) : Prop :=
  d.kind = .constWord ∨ d.kind = .usingWord ∨ d.kind = .awaitUsing ∨
    d.kind = .letWord ∧ p.DeclaresInside loop d

variable {p : Program} {loop : NodeId} {b : BindingId} {binding : Binding}

/-- A binding is unstable when its first declaration does not vouch for it and some write is late.
-/
theorem isUnstable_iff : p.IsUnstable loop b binding ↔
    p.graph.bindings[b]? = some binding ∧ ¬ p.Vouches loop binding.first ∧
      ∃ id w, p.IsLateWrite loop b binding id w := by
  constructor
  · rintro ⟨found, notConst, notUsing, notAwaitUsing, notFresh, changed⟩
    refine ⟨found, ?_, changed⟩
    rintro (is | is | is | is)
    exacts [notConst is, notUsing is, notAwaitUsing is, notFresh is]
  · rintro ⟨found, unvouched, changed⟩
    simp only [Vouches, not_or] at unvouched
    obtain ⟨notConst, notUsing, notAwaitUsing, notFresh⟩ := unvouched
    exact ⟨found, notConst, notUsing, notAwaitUsing, notFresh, changed⟩

/-- Where a value reference means a binding, its capture is safe when the first declaration vouches
for the binding or no write is late. -/
theorem isSafe_iff (linked : p.graph.Linked p.tree) {r : Reference}
    (isValue : r.usage.isType = false)
    (meant : r.resolved = some b) (found : p.graph.bindings[b]? = some binding) :
    p.isSafe loop r = true ↔
      p.Vouches loop binding.first ∨ ¬ ∃ id w, p.IsLateWrite loop b binding id w := by
  have isUnsafe : p.isSafe loop r = false ↔
      ¬ p.Vouches loop binding.first ∧ ∃ id w, p.IsLateWrite loop b binding id w := by
    rw [isSafe_eq_false_iff linked]
    constructor
    · rintro ⟨-, b', binding', meant', isUnstable⟩
      obtain rfl := Option.some.inj (meant.symm.trans meant')
      obtain ⟨found', unvouched, changed⟩ := isUnstable_iff.mp isUnstable
      obtain rfl := Option.some.inj (found.symm.trans found')
      exact ⟨unvouched, changed⟩
    · rintro ⟨unvouched, changed⟩
      exact ⟨isValue, b, binding, meant, isUnstable_iff.mpr ⟨found, unvouched, changed⟩⟩
  rw [← Bool.not_eq_false, isUnsafe, not_and_or, not_not]

end Program

structure JudgesMerged (p : Program) (safe : NodeId → Reference → Bool) : Prop where
  /-- What comes after the first declaration takes nothing away. -/
  safe_of_first : ∀ loop r b binding, r.usage.isType = false → r.resolved = some b →
    p.graph.bindings[b]? = some binding → p.Vouches loop binding.first → safe loop r = true
  /-- A declaration that would vouch for the binding, but comes after one that does not, adds
  nothing: its own first value may be the late write. -/
  safe_iff_of_later : ∀ loop r b binding, r.usage.isType = false → r.resolved = some b →
    p.graph.bindings[b]? = some binding → ¬ p.Vouches loop binding.first →
    (∃ d ∈ binding.later, p.Vouches loop d) →
    (safe loop r = true ↔ ¬ ∃ id w, p.IsLateWrite loop b binding id w)

/-- Whatever text and whatever surroundings, a session judges captures of names with several
declarations so, whatever it was asked before. -/
theorem judgesMerged_ofText (text : List Char) (environment : Environment)
    (asked : NodeId → Reference → List Session.Question) :
    JudgesMerged (.ofText text environment) fun loop r =>
      ((Session.isSafe (.ofText text environment) loop r).run
        (Session.memoryAfter (.ofText text environment) (asked loop r))).1 := by
  have linked : (Program.ofText text environment).graph.Linked
      (Program.ofText text environment).tree :=
    Scope.Graph.linked_ofTree (Grammar.parseText text).tree environment
  simp only [run_isSafe_memoryAfter]
  refine ⟨fun loop r b binding isValue meant found vouched => ?_,
    fun loop r b binding isValue meant found unvouched _ => ?_⟩
  · exact (Program.isSafe_iff linked isValue meant found).mpr (.inl vouched)
  · rw [Program.isSafe_iff linked isValue meant found, or_iff_right unvouched]

end LoopCapture.Capture
