import LoopCapture.Proofs.Grammar.Building.Tokens
import LoopCapture.Proofs.Token.Lossless

/-!
# Parses move on

The rules by which a construct is checked: what it does again, be it a round of a loop or a routine
inside itself, it does at a later token. A construct enters at its own token only routines that rank
below it, and once it has consumed a token it may enter all of them.
-/

namespace LoopCapture.Token
open Text (byteSize)

/-- What a token may become when it is read again: it does not end the text, and a brace or bracket
that opens or closes something was there before. -/
def Kind.Becomes (k k' : Kind) : Prop :=
  k' = k ∨ k ≠ .endOfFile ∧ k' ≠ .endOfFile ∧ k' ≠ .punctuator .openBrace ∧
    k' ≠ .punctuator .closeBracket

theorem Kind.Becomes.trans {k k' k'' : Kind} (h : k.Becomes k') (h' : k'.Becomes k'') :
    k.Becomes k'' := by
  unfold Becomes at *
  grind

end LoopCapture.Token

namespace LoopCapture.Grammar
open Text (Offset byteSize)
open Token (Kind Scanner)
open Syntax (Child)

theorem Rereading.becomes_apply (again : Rereading) (s : Scanner) :
    s.kind.Becomes (again.apply s).kind := by
  have greater (cs : List Char) : (Token.Punctuator.extendGreater cs).1 ≠ .openBrace ∧
      (Token.Punctuator.extendGreater cs).1 ≠ .closeBracket := by
    unfold Token.Punctuator.extendGreater
    split <;> simp
  cases again with
  | greater =>
    simp only [apply, Scanner.rescanGreater]
    split
    · exact .inr ⟨by simp [*], by simp, by simpa using (greater _).1, by simpa using (greater _).2⟩
    · exact .inl rfl
  | slash =>
    simp only [apply, Scanner.rescanSlash]
    split
    · exact .inr (by simp [Scanner.become, Token.regExpLexeme]; grind)
    · exact .inl rfl
  | template =>
    simp only [apply, Scanner.rescanTemplate]
    split
    · exact .inr (by simp [Scanner.become, Token.templateLexeme, *])
    · exact .inl rfl

namespace State

def here (s : State) : Offset := s.scanner.start.offset

/-- The current token is one of the text. -/
structure StandsIn (text : List Char) (s : State) : Prop where
  stands : s.scanner.StandsIn text
  holds : s.scanner.Holds text
  size_eq : s.size = byteSize text

/-- The second state is at a later token, or at the same one, which may have been read again. -/
def Reaches (s s' : State) : Prop :=
  s.here < s'.here ∨ s'.scanner.start = s.scanner.start ∧ s.scanner.kind.Becomes s'.scanner.kind

variable {text : List Char} {s s' s'' : State}

theorem Reaches.refl (s : State) : s.Reaches s := .inr ⟨rfl, .inl rfl⟩

theorem Reaches.here_le (h : s.Reaches s') : s.here ≤ s'.here := by
  obtain later | ⟨same, -⟩ := h
  · exact Nat.le_of_lt later
  · exact Nat.le_of_eq (congrArg Token.Cursor.offset same.symm)

theorem Reaches.trans (h : s.Reaches s') (h' : s'.Reaches s'') : s.Reaches s'' := by
  obtain later | ⟨same, becomes⟩ := h
  · exact .inl (Nat.lt_of_lt_of_le later h'.here_le)
  · obtain later | ⟨same', becomes'⟩ := h'
    · refine .inl (Nat.lt_of_le_of_lt (Nat.le_of_eq ?_) later)
      exact congrArg Token.Cursor.offset same.symm
    · exact .inr ⟨same'.trans same, becomes.trans becomes'⟩

/-- At the same token. -/
theorem Reaches.becomes (h : s.Reaches s') (same : ¬ s.here < s'.here) :
    s'.scanner.start = s.scanner.start ∧ s.scanner.kind.Becomes s'.scanner.kind :=
  h.resolve_left same

theorem StandsIn.here_le (h : s.StandsIn text) : s.here ≤ byteSize text := h.stands.start_le

/-- A state at the same token of the same text stands in it as well. -/
theorem StandsIn.congr (h : s.StandsIn text) (scanner : { s'.scanner with errors := #[] } =
    { s.scanner with errors := #[] }) (size : s'.size = s.size) : s'.StandsIn text := by
  obtain ⟨start, stop, kind, value, -⟩ := Scanner.mk.inj scanner
  obtain ⟨⟨a, b, c, d⟩, ⟨a', b'⟩, e⟩ := h
  simp only [Scanner.current] at b'
  refine ⟨⟨?_, ?_, ?_, ?_⟩, ⟨?_, ?_⟩, ?_⟩
  all_goals simp_all [Scanner.current]

theorem StandsIn.advance (h : s.StandsIn text) : s.advance.StandsIn text where
  stands := (Scanner.standsIn_scan h.stands.stop_before).1
  holds := h.holds.scan
  size_eq := h.size_eq

/-- The next token is a later one, unless the text is at its end. -/
theorem StandsIn.lt_advance (h : s.StandsIn text) (more : s.scanner.kind ≠ .endOfFile) :
    s.here < s.advance.here :=
  Nat.lt_of_lt_of_le (h.stands.proper more) (Scanner.standsIn_scan h.stands.stop_before).2

theorem StandsIn.reaches_advance (h : s.StandsIn text) : s.Reaches s.advance := by
  by_cases more : s.scanner.kind = .endOfFile
  · obtain ⟨same, none⟩ := h.holds.rest_eq_nil more
    have ends := Scanner.scan_of_rest_eq_nil none
    have stays : (Token.skipTrivia s.scanner.stop false).cursor = s.scanner.stop := by
      unfold Token.skipTrivia
      split <;> simp_all
    refine .inr ⟨?_, .inl (ends.trans more.symm)⟩
    rw [same]
    exact (Scanner.start_scan s.scanner).trans stays
  · exact .inl (h.lt_advance more)

theorem StandsIn.reread (h : s.StandsIn text) (again : Rereading) :
    (s.reread again).StandsIn text where
  stands := again.standsIn_apply h.stands
  holds := h.holds.reread again
  size_eq := h.size_eq

theorem reaches_reread (s : State) (again : Rereading) : s.Reaches (s.reread again) :=
  .inr ⟨(again.rereadFrom_apply s.scanner).start, again.becomes_apply s.scanner⟩

end State

namespace Parse
open State (StandsIn)

variable {α β : Type} {text : List Char} {s : State}

/-- No step goes back, and all stay in the text. -/
theorem standsIn_run (p : Parse α) (h : s.StandsIn text) :
    (p.run s).2.StandsIn text ∧ s.Reaches (p.run s).2 := by
  induction p generalizing s with
  | done | observe | addNode | reshape | becomePattern | reportHere =>
    exact ⟨h.congr rfl rfl, .inr ⟨rfl, .inl rfl⟩⟩
  | andThen p next ihp ihn =>
    have first := ihp h
    have second := ihn (p.run s).1 first.1
    exact ⟨second.1, first.2.trans second.2⟩
  | advance => exact ⟨h.advance, h.reaches_advance⟩
  | reread again => exact ⟨h.reread again, s.reaches_reread again⟩
  | within change p ih =>
    have inner := ih (s := { s with context := change s.context }) (h.congr rfl rfl)
    exact ⟨inner.1.congr rfl rfl, inner.2⟩
  | guarded p ih =>
    by_cases free : s.depth < depthLimit
    · have inner := ih (s := { s with depth := s.depth + 1 }) (h.congr rfl rfl)
      simp only [run, if_pos free]
      exact ⟨inner.1.congr rfl rfl, inner.2⟩
    · have scanner : s.giveUp.scanner = s.scanner := by
        unfold State.giveUp
        split <;> rfl
      have size : s.giveUp.size = s.size := by
        unfold State.giveUp
        split <;> rfl
      simp only [run, if_neg free]
      exact ⟨h.congr (by rw [scanner]) size, .inr ⟨by rw [scanner], .inl (by rw [scanner])⟩⟩
  | lookAhead p ih =>
    exact ⟨h.congr rfl ((ih h).1.size_eq.trans h.size_eq.symm), .inr ⟨rfl, .inl rfl⟩⟩
  | attempt p ih =>
    simp only [run]
    split
    · exact ih h
    · exact ⟨h.congr rfl ((ih h).1.size_eq.trans h.size_eq.symm), .inr ⟨rfl, .inl rfl⟩⟩
  | labelled label p ih => exact ih h

theorem here_le_run (p : Parse α) (h : s.StandsIn text) : s.here ≤ (p.run s).2.here :=
  (standsIn_run p h).2.here_le

end Parse

/-- Where a routine stands among those of the same token: after all that it enters there. A block at
its brace enters none. -/
def Routine.rank (routine : Routine) (k : Kind) : Nat :=
  if routine = .block ∧ k = .punctuator .openBrace then 0 else routine.ctorIdx + 1

/-- Every labelled step that is run passes the check. -/
def Parse.Along (check : ∀ α : Type, Label α → Parse α → State → Prop) :
    {α : Type} → Parse α → State → Prop
  | _, .andThen p next, s => p.Along check s ∧ (next (p.run s).1).Along check (p.run s).2
  | _, .within change p, s => p.Along check { s with context := change s.context }
  | _, .guarded p, s => s.depth < depthLimit → p.Along check { s with depth := s.depth + 1 }
  | _, .lookAhead p, s | _, .attempt p, s => p.Along check s
  | α, .labelled label p, s => check α label p s ∧ p.Along check s
  | _, .done _, _ | _, .observe _, _ | _, .advance, _ | _, .reread _, _ | _, .reportHere _, _
  | _, .addNode _ _ _, _ | _, .reshape _ _, _ | _, .becomePattern _, _ => True

/-- A routine that is entered at the place ranks below the bound. -/
def Label.EntersBelow (place : Offset) (bound : Nat) :
    ∀ α : Type, Label α → Parse α → State → Prop
  | _, .routine r, _, s => s.here = place → r.rank s.scanner.kind < bound
  | _, .round, _, _ | _, .bound, _, _ => True

/-- A routine enters at its own token only routines of lower rank, a round of a loop that goes on
consumes a token, and bounds are never met. -/
def Label.IsOrderly : ∀ α : Type, Label α → Parse α → State → Prop
  | _, .routine r, p, s => p.Along (EntersBelow s.here (r.rank s.scanner.kind)) s
  | _, .round, p, s => ∀ a, (p.run s).1 = .again a → s.here < (p.run s).2.here
  | _, .bound, _, _ => False

namespace Parse
open State (StandsIn)

variable {α β : Type} {text : List Char} {s s' : State} {place : Offset} {bound bound' : Nat}
  {check check' : ∀ α : Type, Label α → Parse α → State → Prop}

theorem Along.runs {p : Parse α} {q : Parse β} (runs : p.Runs s q s') :
    p.Along check s → q.Along check s' := by
  induction runs with
  | self => exact id
  | first _ ih => exact fun along => ih along.1
  | second _ ih | labelled _ ih => exact fun along => ih along.2
  | within _ ih | lookAhead _ ih | attempt _ ih => exact ih
  | guarded free _ ih => exact fun along => ih (along free)

/-- A check that all labelled steps from the current token on pass. -/
theorem along_of_forall {p : Parse α} (h : s.StandsIn text)
    (passes : ∀ (α : Type) (label : Label α) (q : Parse α) (s' : State), s'.StandsIn text →
      s.Reaches s' → check α label q s') : p.Along check s := by
  induction p generalizing s with
  | done | observe | advance | reread | reportHere | addNode | reshape | becomePattern => trivial
  | andThen p next ihp ihn =>
    obtain ⟨stands, reaches⟩ := standsIn_run p h
    refine ⟨ihp h passes, ihn _ stands fun α label q s' stands' reaches' => ?_⟩
    exact passes α label q s' stands' (reaches.trans reaches')
  | within change p ih =>
    exact ih (s := { s with context := change s.context }) (h.congr rfl rfl) passes
  | guarded p ih =>
    exact fun _ => ih (s := { s with depth := s.depth + 1 }) (h.congr rfl rfl) passes
  | lookAhead p ih | attempt p ih => exact ih h passes
  | labelled label p ih => exact ⟨passes _ label p s h (.refl s), ih h passes⟩

theorem Along.imp {p : Parse α} (along : p.Along check s)
    (imp : ∀ (α : Type) (label : Label α) (q : Parse α) (s' : State), check α label q s' →
      check' α label q s') : p.Along check' s := by
  induction p generalizing s with
  | done | observe | advance | reread | reportHere | addNode | reshape | becomePattern => trivial
  | andThen p next ihp ihn => exact ⟨ihp along.1, ihn _ along.2⟩
  | within change p ih => exact ih (s := { s with context := change s.context }) along
  | guarded p ih => exact fun free => ih (s := { s with depth := s.depth + 1 }) (along free)
  | lookAhead p ih | attempt p ih => exact ih along
  | labelled label p ih => exact ⟨imp _ label p s along.1, ih along.2⟩

/-- Each routine that is entered at the place ranks below the bound. -/
def EntersBelow (place : Offset) (bound : Nat) (p : Parse α) (s : State) : Prop :=
  p.Along (Label.EntersBelow place bound) s

/-- Each labelled step that is run is orderly. -/
def IsOrderly (p : Parse α) (s : State) : Prop := p.Along Label.IsOrderly s

theorem EntersBelow.mono {p : Parse α} (h : p.EntersBelow place bound s) (le : bound ≤ bound') :
    p.EntersBelow place bound' s :=
  h.imp fun _ label _ _ => by
    cases label with
    | routine r => exact fun below same => Nat.lt_of_lt_of_le (below same) le
    | round | bound => exact id

/-- What is run past the place enters nothing there. -/
theorem entersBelow_of_lt (p : Parse α) (h : s.StandsIn text) (past : place < s.here) :
    p.EntersBelow place bound s :=
  along_of_forall h fun _ label _ s' _ reaches => by
    cases label with
    | routine r =>
      exact fun same => absurd same (Nat.ne_of_gt (Nat.lt_of_lt_of_le past reaches.here_le))
    | round | bound => trivial

end Parse

namespace Parse

/-- What comes of running a construct: all that is run is orderly, and what is entered at its token
ranks below the bound. With some results it has consumed a token. -/
structure Proceeds {α : Type} (bound : Nat) (p : Parse α) (s : State) (past : α → Prop) : Prop where
  orderly : p.IsOrderly s
  below : p.EntersBelow s.here bound s
  moves : past (p.run s).1 → s.here < (p.run s).2.here

abbrev never {α : Type} (_ : α) : Prop := False

abbrev always {α : Type} (_ : α) : Prop := True

end Parse

/-- The goals come out well after the place, and those below the bound there as well. -/
def Parser.Serves (parse : Parser) (text : List Char) (bound : Nat) (place : Offset) : Prop :=
  ∀ (goal : Goal) (s : State), s.StandsIn text → Parse.Suits goal s.scanner → place ≤ s.here →
    (s.here = place → goal.routine.ctorIdx + 1 < bound) →
      (parse goal).Proceeds (goal.routine.ctorIdx + 2) s Parse.never

namespace Parse
open State (StandsIn)

variable {α β γ : Type} {text : List Char} {s : State}

/-- On a suitable token, and with goals that come out well, a construct does so. -/
def Paces (parse : Parser) (bound : Nat) (now : Scanner → Prop) (p : Parse α) (past : α → Prop) :
    Prop :=
  ∀ ⦃text s⦄, s.StandsIn text → now s.scanner → parse.Serves text bound s.here →
    p.Proceeds bound s past

end Parse
end LoopCapture.Grammar
