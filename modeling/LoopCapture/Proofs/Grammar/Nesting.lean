import LoopCapture.Grammar.SourceFile
import LoopCapture.Proofs.Grammar.Destructuring.Steps

/-!
# How deep a parse believes it is

The depth that a step leaves behind is the depth it began with and one more for every construct that
it gave up at the limit. Only a failed attempt takes such a rise back. So a text that nests too
deeply in one place has fewer levels left for all that follows.
-/

namespace LoopCapture.Grammar
open Syntax (Child NodeTable)
open Text (Offset byteSize)
open Token (Shows)

namespace Parse

/-- The constructs that a step gives up at the limit, without those of attempts that fail. -/
def givenUp {α : Type} : Parse α → State → Nat
  | .andThen p next, s => p.givenUp s + (next (p.run s).1).givenUp (p.run s).2
  | .within change p, s => p.givenUp { s with context := change s.context }
  | .guarded p, s =>
    if s.depth < depthLimit then p.givenUp { s with depth := s.depth + 1 } else 1
  | .lookAhead p, s => p.givenUp s
  | .attempt p, s =>
    if (p.run s).1.isSome ∧ (p.run s).2.errorCount = s.errorCount then p.givenUp s else 0
  | .labelled _ p, s => p.givenUp s
  | _, _ => 0

theorem run_andThen {α β : Type} (p : Parse α) (next : α → Parse β) (s : State) :
    (Parse.andThen p next).run s = (next (p.run s).1).run (p.run s).2 :=
  rfl

theorem run_guarded_of_limit_le (p : Parse Child) {s : State} (full : depthLimit ≤ s.depth) :
    (guarded p).run s = (none, s.giveUp) := by
  simp [run, Nat.not_lt.mpr full]

/-- Below the limit a guarded step gives up what it contains gives up one level deeper. -/
theorem givenUp_guarded_of_lt (p : Parse Child) {s : State} (free : s.depth < depthLimit) :
    (guarded p).givenUp s = p.givenUp { s with depth := s.depth + 1 } := by
  simp [givenUp, free]

theorem depth_giveUp (s : State) : s.giveUp.depth = s.depth + 1 :=
  rfl

/-- Every step raises the depth by the number of constructs it gives up. -/
theorem depth_run {α : Type} (p : Parse α) (s : State) :
    (p.run s).2.depth = s.depth + p.givenUp s := by
  induction p generalizing s with
  | done a => rfl
  | andThen p next ihp ihn =>
    rw [run_andThen, ihn, ihp, givenUp, Nat.add_assoc]
  | observe look => rfl
  | advance => rfl
  | reread again => rfl
  | reportHere fault => rfl
  | addNode start stop shape => rfl
  | reshape node shape => rfl
  | becomePattern node => rfl
  | within change p ih => exact ih _
  | guarded p ih =>
    by_cases free : s.depth < depthLimit
    · have inner := ih { s with depth := s.depth + 1 }
      rw [givenUp_guarded_of_lt p free]
      simp [run, free, inner, Nat.add_right_comm _ 1]
    · rw [run_guarded_of_limit_le p (Nat.not_lt.mp free)]
      simp [givenUp, free, depth_giveUp]
  | lookAhead p ih => exact ih s
  | attempt p ih =>
    by_cases kept : (p.run s).1.isSome ∧ (p.run s).2.errorCount = s.errorCount
    · simp [run, givenUp, State.mark, kept, ih]
    · simp [run, givenUp, State.mark, State.rewind, kept]
  | labelled label p ih => exact ih s

/-- No step lowers the depth. -/
theorem depth_le_run {α : Type} (p : Parse α) (s : State) : s.depth ≤ (p.run s).2.depth := by
  rw [depth_run]
  exact Nat.le_add_right _ _

/-- Once the limit is reached, whatever is guarded later is given up as well. -/
theorem run_guarded_after {α : Type} (p : Parse α) (q : Parse Child) {s : State}
    (full : depthLimit ≤ s.depth) :
    (guarded q).run (p.run s).2 = (none, (p.run s).2.giveUp) :=
  run_guarded_of_limit_le q (Nat.le_trans full (depth_le_run p s))

end Parse

/-- The goals that nest one level deeper. -/
def Goal.isGuarded : Goal → Bool
  | .statement | .assignment | .unary | .type => true
  | _ => false

theorem exists_guarded_of_isGuarded (size : Nat) {goal : Goal} (h : goal.isGuarded) :
    ∃ body, ∀ s, (parseWithin size goal).run s = (guarded body).run s := by
  have steps : goalsPerToken * (size + 2) = goalsPerToken * (size + 1) + 15 + 1 := by
    simp [goalsPerToken]
    omega
  rw [parseWithin, steps]
  cases goal <;> first | exact ⟨_, fun _ => rfl⟩ | cases h

namespace Parse
variable {α β γ : Type} {s after s' : State} {q : Parse γ}

theorem Runs.andThen {p : Parse α} {next : α → Parse β} {a : α} (run : p.run s = (a, after))
    (runs : (next a).Runs after q s') : (p >>= next).Runs s q s' := by
  refine .second ?_
  rwa [run]

theorem Runs.trans {p : Parse α} {r : Parse β} {s'' : State} (runs : p.Runs s q s')
    (runs' : q.Runs s' r s'') : p.Runs s r s'' := by
  induction runs with
  | self => exact runs'
  | first _ ih => exact .first (ih runs')
  | second _ ih => exact .second (ih runs')
  | within _ ih => exact .within (ih runs')
  | guarded free _ ih => exact .guarded free (ih runs')
  | lookAhead _ ih => exact .lookAhead (ih runs')
  | attempt _ ih => exact .attempt (ih runs')
  | labelled _ ih => exact .labelled (ih runs')

def braces (n : Nat) : List Char := List.replicate n '{'

theorem byteSize_braces (n : Nat) : byteSize (braces n) = n := by
  induction n with
  | zero => rfl
  | succ n ih =>
    change 1 + byteSize (braces n) = n + 1
    rw [ih, Nat.add_comm]

theorem shows_braces (offset : Offset) (n : Nat) :
    Shows ⟨offset, braces (n + 1)⟩ (.punctuator .openBrace) "" offset ⟨offset + 1, braces n⟩ :=
  Token.shows_plain .empty .openBrace rfl (braces n) offset

variable (t : NodeTable) (offset : Offset)

/-- The block that a brace opens begins with a statement at the next brace. -/
theorem runs_statementBody_braces (parse : Parser) (s : State)
    (plain : s.context.withoutIn = false) (n : Nat) :
    (statementBody parse).Runs (s.facing ⟨offset, braces (n + 2)⟩ t) (parse .statement)
      (s.facing ⟨offset + 1, braces (n + 1)⟩ t) := by
  have shows := shows_braces offset (n + 1)
  have shows' := shows_braces (offset + 1) n
  have opened : (discard (expectMark .openBrace)).run (s.facing ⟨offset, braces (n + 2)⟩ t) =
      ((), s.facing ⟨offset + 1, braces (n + 1)⟩ t) := by
    rw [run_discard, expectMark, run_expect_same shows]
  have context : { s.context with withoutIn := false } = s.context := by simp [← plain]
  refine .andThen (run_here shows) (.andThen (run_kind shows) ?_)
  refine .labelled (.andThen (run_here shows) (.andThen opened (.first (.within ?_))))
  simp only [State.facing, context]
  change (blockStatements parse).Runs (s.facing ⟨offset + 1, braces (n + 1)⟩ t) _ _
  refine .labelled (.first (.second (.first (.labelled ?_))))
  refine .andThen (run_atClose shows' _) (.first (.labelled ?_))
  exact .andThen (run_here shows') (.first (.self _ _))

/-- Statements nest as deeply as there are braces, up to the limit. -/
theorem runs_statement_braces (fuel left n : Nat) (s : State)
    (plain : s.context.withoutIn = false) (free : s.depth + n ≤ depthLimit) :
    (parseUpTo (fuel + n) .statement).Runs (s.facing ⟨offset, braces (left + n + 1)⟩ t)
      (parseUpTo fuel .statement)
      (({ s with depth := s.depth + n } : State).facing ⟨offset + n, braces (left + 1)⟩ t) := by
  induction n generalizing s offset with
  | zero => exact .self _ _
  | succ n ih =>
    have depth : s.depth + 1 + n = s.depth + (n + 1) := Nat.add_right_comm s.depth 1 n
    have place : offset + 1 + n = offset + (n + 1) := Nat.add_right_comm offset 1 n
    have inner := runs_statementBody_braces t offset (parseUpTo (fuel + n))
      { s with depth := s.depth + 1 } plain (left + n)
    have deeper := ih (offset + 1) { s with depth := s.depth + 1 } plain
      (Nat.le_trans (Nat.le_of_eq depth) free)
    simp only [depth, place] at deeper
    have below : s.depth < depthLimit := by omega
    exact .labelled (.guarded below (inner.trans deeper))

end Parse

/-- The state in the innermost of as many blocks as may nest, where the text opens one more. -/
def deepest : State :=
  ({ State.ofText (Parse.braces (depthLimit + 1)) with depth := depthLimit } : State).facing
    ⟨depthLimit, Parse.braces 1⟩ #[]

theorem runs_deepest : ∃ fuel, sourceFile.Runs (.ofText (Parse.braces (depthLimit + 1)))
    (parseUpTo fuel .statement) deepest := by
  let start := State.ofText (Parse.braces (depthLimit + 1))
  have shows := Parse.shows_braces 0 depthLimit
  have size : start.size = depthLimit + 1 := Parse.byteSize_braces _
  have enough : depthLimit ≤ goalsPerToken * (start.size + 2) := by
    rw [size]
    decide
  obtain ⟨fuel, fuelled⟩ := Nat.exists_eq_add_of_le' enough
  have nested := Parse.runs_statement_braces #[] 0 fuel 0 depthLimit start rfl (Nat.le_refl _)
  rw [← fuelled] at nested
  simp only [Nat.zero_add] at nested
  have advanced : advance.run start = ((), start.facing ⟨0, Parse.braces (depthLimit + 1)⟩ #[]) :=
    rfl
  refine ⟨fuel, .andThen advanced (.second (.first (.labelled (.first ?_))))⟩
  refine .second (.first (.labelled (.andThen (Parse.run_isAt shows _) ?_)))
  refine .andThen (Parse.run_atMark shows _) (.first (.labelled ?_))
  exact .andThen (Parse.run_here shows) (.first nested)

/-- A guarded goal comes back to the depth it was called at exactly when nothing in it was given up
for good; each construct given up raises the depth by one, and at the limit the goal itself is given
up, with no result and one level lost. -/
theorem depth_parseWithin_guarded (size : Nat) (goal : Goal) (h : goal.isGuarded) (s : State) :
    ((parseWithin size goal).run s).2.depth = s.depth + (parseWithin size goal).givenUp s ∧
    (((parseWithin size goal).run s).2.depth = s.depth ↔ (parseWithin size goal).givenUp s = 0) ∧
    (depthLimit ≤ s.depth →
      (parseWithin size goal).run s = (none, s.giveUp) ∧
        ((parseWithin size goal).run s).2.depth = s.depth + 1) := by
  have depth := Parse.depth_run (parseWithin size goal) s
  refine ⟨depth, by omega, fun full => ?_⟩
  obtain ⟨body, guards⟩ := exists_guarded_of_isGuarded size h
  rw [guards, Parse.run_guarded_of_limit_le body full]
  exact ⟨rfl, rfl⟩

/-- The statement at one brace too many is given up, and the limit is then exceeded. -/
theorem depth_statement_at_limit :
    Goal.statement.isGuarded ∧
    (∃ fuel, sourceFile.Runs (.ofText (Parse.braces (depthLimit + 1))) (parseUpTo fuel .statement)
      deepest) ∧
    depthLimit ≤ deepest.depth ∧
    ((parseWithin (depthLimit + 1) .statement).run deepest).2.depth = depthLimit + 1 := by
  have full : depthLimit ≤ deepest.depth := Nat.le_refl _
  have lost := (depth_parseWithin_guarded (depthLimit + 1) .statement rfl deepest).2.2 full
  exact ⟨rfl, runs_deepest, full, lost.2⟩

/-- After a whole text the depth is the number of constructs given up in it. -/
theorem depth_sourceFile (text : List Char) :
    (sourceFile.run (.ofText text)).2.depth = sourceFile.givenUp (.ofText text) := by
  rw [Parse.depth_run]
  exact Nat.zero_add _

end LoopCapture.Grammar
