import LoopCapture.Proofs.Grammar.Layout
import LoopCapture.Grammar.Parse

/-!
# Speculation

Looking ahead and trying are steps that go back. What they go back to is remembered in part only: of
nodes and errors the number, of a look ahead not even that. Whether the whole state comes back is
therefore a matter of what is run in between.
-/

namespace LoopCapture.Grammar

namespace Parse

/-- While the first step is run from a state, the second one is run from another. What is run within
looks ahead and attempts counts, whether it is kept or not. -/
inductive Runs : {α β : Type} → Parse α → State → Parse β → State → Prop
  | self {α : Type} (p : Parse α) (s : State) : Runs p s p s
  | first {α β γ : Type} {p : Parse α} {next : α → Parse β} {s s' : State} {q : Parse γ} :
    Runs p s q s' → Runs (.andThen p next) s q s'
  | second {α β γ : Type} {p : Parse α} {next : α → Parse β} {s s' : State} {q : Parse γ} :
    Runs (next (p.run s).1) (p.run s).2 q s' → Runs (.andThen p next) s q s'
  | within {α γ : Type} {change : Context → Context} {p : Parse α} {s s' : State} {q : Parse γ} :
    Runs p { s with context := change s.context } q s' → Runs (within change p) s q s'
  | guarded {γ : Type} {p : Parse Syntax.Child} {s s' : State} {q : Parse γ} :
    s.depth < depthLimit → Runs p { s with depth := s.depth + 1 } q s' →
    Runs (guarded p) s q s'
  | lookAhead {α γ : Type} {p : Parse α} {s s' : State} {q : Parse γ} :
    Runs p s q s' → Runs (lookAhead p) s q s'
  | attempt {α γ : Type} {p : Parse (Option α)} {s s' : State} {q : Parse γ} :
    Runs p s q s' → Runs (attempt p) s q s'
  | labelled {α γ : Type} {label : Label α} {p : Parse α} {s s' : State} {q : Parse γ} :
    Runs p s q s' → Runs (labelled label p) s q s'

variable {α β : Type}

/-- Every look ahead that is run leaves the state as it was, and so does every attempt that
fails. -/
structure SpeculatesCleanly (p : Parse α) (s : State) : Prop where
  lookAhead : ∀ {β : Type} (q : Parse β) (s' : State), p.Runs s (lookAhead q) s' →
    ((lookAhead q).run s').2 = s'
  attempt : ∀ {β : Type} (q : Parse (Option β)) (s' : State), p.Runs s (attempt q) s' →
    ((attempt q).run s').1 = none → ((attempt q).run s').2 = s'

/-- The same, read off the parts of the step along its run. -/
def Transacts : {α : Type} → Parse α → State → Prop
  | _, .andThen p next, s => p.Transacts s ∧ (next (p.run s).1).Transacts (p.run s).2
  | _, .within change p, s => p.Transacts { s with context := change s.context }
  | _, .guarded p, s => s.depth < depthLimit → p.Transacts { s with depth := s.depth + 1 }
  | _, .lookAhead p, s => p.Transacts s ∧ ((lookAhead p).run s).2 = s
  | _, .attempt p, s =>
    p.Transacts s ∧ (((attempt p).run s).1 = none → ((attempt p).run s).2 = s)
  | _, .labelled _ p, s => p.Transacts s
  | _, .done _, _ | _, .observe _, _ | _, .advance, _ | _, .reread _, _ | _, .reportHere _, _
  | _, .addNode _ _ _, _ | _, .reshape _ _, _ | _, .becomePattern _, _ => True

theorem Transacts.runs {p : Parse α} {s s' : State} {q : Parse β} (runs : p.Runs s q s') :
    p.Transacts s → q.Transacts s' := by
  induction runs with
  | self => exact id
  | first _ ih => exact fun transacts => ih transacts.1
  | second _ ih => exact fun transacts => ih transacts.2
  | within _ ih => exact ih
  | guarded free _ ih => exact fun transacts => ih (transacts free)
  | lookAhead _ ih => exact fun transacts => ih transacts.1
  | attempt _ ih => exact fun transacts => ih transacts.1
  | labelled _ ih => exact ih

theorem Transacts.speculatesCleanly {p : Parse α} {s : State} (h : p.Transacts s) :
    p.SpeculatesCleanly s where
  lookAhead _ _ runs := (h.runs runs).2
  attempt _ _ runs := (h.runs runs).2

/-- A step that leaves the state as it is. -/
class Still (p : Parse α) : Prop where
  transacts : ∀ s, p.Transacts s
  run_snd : ∀ s, (p.run s).2 = s

/-- A step that moves over tokens and does nothing else; the scanner may meet errors. -/
class Peeks (p : Parse α) : Prop where
  transacts : ∀ s, p.Transacts s
  run_snd : ∀ s, ∃ scanner lastEnd, (p.run s).2 = { s with scanner, lastEnd } ∧
    ∃ more, scanner.errors = s.scanner.errors ++ more

instance (a : α) : Still (pure a : Parse α) := ⟨fun _ => trivial, fun _ => rfl⟩

theorem still_observe (look : State → α) : Still (.observe look) := ⟨fun _ => trivial, fun _ => rfl⟩

instance {p : Parse α} [h : Still p] : Peeks p :=
  ⟨h.transacts, fun s => ⟨s.scanner, s.lastEnd, h.run_snd s, #[], by simp⟩⟩

instance {p : Parse α} {next : α → Parse β} [h : Still p] [h' : ∀ a, Still (next a)] :
    Still (p >>= next) where
  transacts s := ⟨h.transacts s, (h' _).transacts _⟩
  run_snd s := ((h' _).run_snd _).trans (h.run_snd s)

instance {p : Parse α} {next : α → Parse β} [h : Peeks p] [h' : ∀ a, Peeks (next a)] :
    Peeks (p >>= next) where
  transacts s := ⟨h.transacts s, (h' _).transacts _⟩
  run_snd s := by
    obtain ⟨scanner, lastEnd, run, more, errors⟩ := h.run_snd s
    obtain ⟨scanner', lastEnd', run', more', errors'⟩ := (h' (p.run s).1).run_snd (p.run s).2
    refine ⟨scanner', lastEnd', run'.trans (by rw [run]), more ++ more', ?_⟩
    rw [errors', run, errors, Array.append_assoc]

instance {c : Prop} [Decidable c] {p q : Parse α} [Still p] [Still q] :
    Still (if c then p else q) := by
  split <;> infer_instance

instance {c : Prop} [Decidable c] {p q : Parse α} [Peeks p] [Peeks q] :
    Peeks (if c then p else q) := by
  split <;> infer_instance

instance : Peeks advance where
  transacts _ := trivial
  run_snd s := ⟨s.scanner.scan, s.scanner.stop.offset, rfl, s.scanner.errors_scan⟩

instance {label : Label α} {p : Parse α} [h : Peeks p] : Peeks (labelled label p) :=
  ⟨h.transacts, h.run_snd⟩

instance {p : Parse α} [h : Peeks p] : Peeks (discard p) where
  transacts s := ⟨h.transacts s, trivial⟩
  run_snd := h.run_snd

/-- Nothing is left of a look ahead. -/
theorem run_lookAhead (p : Parse α) [h : Peeks p] (s : State) : ((lookAhead p).run s).2 = s := by
  obtain ⟨scanner, lastEnd, run, more, errors⟩ := h.run_snd s
  simp only [Parse.run, run, State.rewindToken]
  rw [Token.Scanner.rewind_of_append errors]

theorem Peeks.bind {p : Parse α} {next : α → Parse β} [Peeks p] (h : ∀ a, Peeks (next a)) :
    Peeks (p >>= next) :=
  inferInstance

theorem Still.lookAhead {p : Parse α} (h : Peeks p) : Still (lookAhead p) where
  transacts s := ⟨h.transacts s, run_lookAhead p s⟩
  run_snd := run_lookAhead p

instance {p : Parse α} [h : Peeks p] : Still (lookAhead p) := .lookAhead h

end Parse
end LoopCapture.Grammar
