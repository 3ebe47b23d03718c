import LoopCapture.Proofs.Grammar.Progress.Statements
import LoopCapture.Proofs.Grammar.Placed

/-!
# Parsing a text ends by itself

The bounds on the rounds of loops and on the nesting of goals are there for the recursion and are
never met. A loop that goes on has consumed a token, and a routine that is entered while it is
active is entered at a later token. So the goals that are open at one token are different ones, and
each token that is left leaves room for all of them.
-/

namespace LoopCapture.Grammar
open Text (Offset byteSize)
open Parse
open State (StandsIn)

/-- How many other goals a goal may open at its own token, one inside the other. -/
def Goal.height : Goal → Nat
  | .bindingTarget => 0
  | .typeOperator => 1
  | .type => 2
  | .creation => 3
  | .leftHandSide => 4
  | .unary => 5
  | .binary _ => 6
  | .assignment => 7
  | .statementBody => 8
  | .statement => 9

theorem Goal.height_lt_goalsPerToken (goal : Goal) : goal.height < goalsPerToken := by
  cases goal <;> exact Nat.le_of_ble_eq_true rfl

theorem Goal.height_lt_height {goal other : Goal}
    (lt : goal.routine.ctorIdx < other.routine.ctorIdx) : goal.height < other.height := by
  cases goal <;> cases other <;> first
    | exact Nat.le_of_ble_eq_true rfl
    | exact absurd lt (Nat.not_lt.mpr (Nat.le_of_ble_eq_true rfl))

theorem Goal.rank_routine (goal : Goal) (k : Token.Kind) :
    goal.routine.rank k = goal.routine.ctorIdx + 1 := by
  cases goal <;> simp [Goal.routine, Routine.rank]

variable {text : List Char} {n bound : Nat} {place : Offset}

/-- A count leaves room for all goals at each token after the place, and for those below the bound
there. -/
structure Affords (text : List Char) (n bound : Nat) (place : Offset) : Prop where
  tokens : goalsPerToken * (byteSize text - place) ≤ n
  goals : ∀ goal : Goal, goal.routine.ctorIdx + 1 < bound →
    goalsPerToken * (byteSize text - place) + goal.height < n

theorem Affords.of_reached (h : Affords text n bound place) {goal : Goal} {s : State}
    (stands : s.StandsIn text) (reached : place ≤ s.here)
    (below : s.here = place → goal.routine.ctorIdx + 1 < bound) :
    goalsPerToken * (byteSize text - s.here) + goal.height < n := by
  obtain same | later := Nat.eq_or_lt_of_le reached
  · rw [← same]
    exact h.goals goal (below same.symm)
  · have room := goal.height_lt_goalsPerToken
    have tokens := h.tokens
    have within : s.here ≤ byteSize text := stands.here_le
    have fewer : byteSize text - s.here + 1 ≤ byteSize text - place :=
      Nat.sub_lt_sub_left (Nat.lt_of_lt_of_le later within) later
    have more := Nat.mul_le_mul_left goalsPerToken fewer
    rw [Nat.mul_add, Nat.mul_one] at more
    omega

theorem serves_parseUpTo (h : Affords text n bound place) :
    Parser.Serves (parseUpTo n) text bound place := by
  induction n generalizing bound place with
  | zero =>
    intro goal s stands suits reached below
    exact absurd (h.of_reached stands reached below) (Nat.not_lt_zero _)
  | succ n ih =>
    intro goal s stands suits reached below
    have room := h.of_reached stands reached below
    have inner : Affords text n (goal.routine.ctorIdx + 1) s.here := by
      refine ⟨by omega, fun other lower => ?_⟩
      have higher := Goal.height_lt_height (Nat.lt_of_succ_lt_succ lower)
      omega
    have body : (goalStep (parseUpTo n) goal).Proceeds (goal.routine.ctorIdx + 1) s never :=
      paces_goalStep goal stands suits (ih inner)
    exact body.routine (goal.rank_routine _)

/-- A token that was read again gives a routine the same rank. -/
theorem Routine.rank_le_of_becomes {k k' : Token.Kind} (becomes : k.Becomes k')
    (routine : Routine) :
    routine.rank k ≤ routine.rank k' := by
  unfold Routine.rank Token.Kind.Becomes at *
  grind

/-- An orderly routine enters itself at a later token only. -/
theorem Parse.IsOrderly.reenters {α β : Type} {routine : Routine} {p : Parse α} {q : Parse β}
    {s s' : State} (h : (labelled (.routine routine) p).IsOrderly s) (stands : s.StandsIn text)
    (again : p.Runs s (labelled (.routine routine) q) s') : s.here < s'.here := by
  have reaches : p.Along (fun _ _ _ s' => s.Reaches s') s :=
    along_of_forall stands fun _ _ _ _ _ reaches => reaches
  obtain later | ⟨start, becomes⟩ := (Along.runs again reaches).1
  · exact later
  · have lower : routine.rank s'.scanner.kind < routine.rank s.scanner.kind :=
      (Along.runs again h.1).1 (congrArg Token.Cursor.offset start)
    exact absurd (routine.rank_le_of_becomes becomes) (Nat.not_le.mpr lower)

theorem standsIn_advance_ofText (text : List Char) : (State.ofText text).advance.StandsIn text where
  stands := (Token.Scanner.standsIn_scan (.refl _)).1
  holds := (Token.Scanner.holds_ofText text).scan
  size_eq := rfl

theorem serves_parseWithin (text : List Char) (bound : Nat) (place : Offset) :
    Parser.Serves (parseWithin (byteSize text)) text bound place := by
  refine serves_parseUpTo ⟨Nat.mul_le_mul_left _ (by omega), fun goal _ => ?_⟩
  have low := goal.height_lt_goalsPerToken
  have fewer : goalsPerToken * (byteSize text - place) ≤ goalsPerToken * byteSize text :=
    Nat.mul_le_mul_left _ (Nat.sub_le _ _)
  rw [Nat.mul_add]
  omega

/-- Everything that is run for a text is orderly. -/
theorem isOrderly_sourceFile (text : List Char) : sourceFile.IsOrderly (.ofText text) := by
  have statements : Paces (parseWithin (byteSize text)) (Routine.topLevelStatements.ctorIdx + 2)
      anywhere (topLevelStatements (parseWithin (byteSize text))) never := Advances.paces
  have proceeds := statements (standsIn_advance_ofText text) trivial (serves_parseWithin text _ _)
  exact ⟨trivial, trivial, proceeds.orderly, trivial⟩

/-- The statements of a text end where the text does. -/
theorem kind_topLevelStatements {parse : Parser} {s : State}
    (orderly : (topLevelStatements parse).IsOrderly s) :
    ((topLevelStatements parse).run s).2.scanner.kind = .endOfFile := by
  obtain ⟨-, ⟨-, loop⟩, -⟩ := orderly
  refine ends_repeatUpTo (fun s => s.scanner.kind = .endOfFile) (fun statements s _ => ?_) loop
  change (Parse.run (if s.scanner.kind == .endOfFile then _ else _) s).1 = _ →
    (Parse.run (if s.scanner.kind == .endOfFile then _ else _) s).2.scanner.kind = _
  split
  · rename_i ends
    exact fun _ => beq_iff_eq.mp ends
  · change (Parse.run (if s.scanner.kind == .punctuator .closeBrace then _ else _) s).1 = _ → _
    split <;> exact fun done => nomatch done

/-- What a parse does again it does at a later token, and it comes to the end of the text. -/
structure ParsesThrough (text : List Char) : Prop where
  /-- The result is a node that spans the text, and the current token is the end of it. -/
  ends : ∃ statements, (sourceFile.run (.ofText text)).2.nodes[(sourceFile.run (.ofText text)).1]? =
    some ⟨0, byteSize text, .sourceFile statements⟩
  atEnd : (sourceFile.run (.ofText text)).2.scanner.kind = .endOfFile
  /-- No bound is met, neither on the rounds of a loop nor on the nesting of goals. -/
  unbounded : ∀ {α : Type} (p : Parse α) (s : State),
    ¬ sourceFile.Runs (.ofText text) (labelled .bound p) s
  /-- A round after which a loop goes on has consumed a token. -/
  rounds : ∀ {α : Type} (round : Parse (Round α)) (s : State),
    sourceFile.Runs (.ofText text) (labelled .round round) s →
      ∀ a, (round.run s).1 = .again a → s.here < (round.run s).2.here
  /-- A routine that is entered while it is active has consumed a token in between. -/
  reentries : ∀ {α β : Type} (routine : Routine) (p : Parse α) (q : Parse β) (s s' : State),
    sourceFile.Runs (.ofText text) (labelled (.routine routine) p) s →
      p.Runs s (labelled (.routine routine) q) s' → s.here < s'.here

theorem parsesThrough (text : List Char) : ParsesThrough text where
  ends := ⟨_, Array.getElem?_push_size⟩
  atEnd := kind_topLevelStatements (isOrderly_sourceFile text).2.2.1
  unbounded _ _ runs := (Along.runs runs (isOrderly_sourceFile text)).1
  rounds _ _ runs := (Along.runs runs (isOrderly_sourceFile text)).1
  reentries routine p q s s' active again := by
    have stands : sourceFile.Along (fun _ _ _ s => s.StandsIn text) (.ofText text) :=
      ⟨trivial, trivial, along_of_forall (standsIn_advance_ofText text)
        fun _ _ _ _ h _ => h, trivial⟩
    have orderly : (labelled (.routine routine) p).IsOrderly s :=
      Along.runs active (isOrderly_sourceFile text)
    exact orderly.reenters (Along.runs active stands).1 again

end LoopCapture.Grammar
