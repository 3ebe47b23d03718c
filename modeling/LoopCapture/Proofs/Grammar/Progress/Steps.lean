import LoopCapture.Proofs.Grammar.Progress

/-!
# Steps that move on

A step over tokens enters no routine. Before a token was consumed, a construct may enter what ranks
below it, and afterwards everything. Each round of a loop that goes on consumes a token, so there
are fewer rounds than bytes.
-/

namespace LoopCapture.Grammar.Parse
open Text (Offset byteSize)
open Token (Kind Keyword Punctuator Scanner)
open Syntax (Child NodeId Shape)
open State (StandsIn)

variable {α β γ : Type} {text : List Char} {parse : Parser} {s s' : State}
  {bound bound' : Nat} {now now' : Scanner → Prop} {past : β → Prop}

/-- More than the rank of any routine. -/
def allRoutines : Nat := 128

theorem ctorIdx_add_two_le (routine : Routine) : routine.ctorIdx + 2 ≤ allRoutines := by
  cases routine <;> decide

theorem Serves.mono {place : Offset} (h : parse.Serves text bound place) (le : bound' ≤ bound) :
    parse.Serves text bound' place :=
  fun goal s stands suits reached below =>
    h goal s stands suits reached fun same => Nat.lt_of_lt_of_le (below same) le

/-- Past a token there is no bound. -/
theorem Serves.later (h : parse.Serves text bound s.here) (later : s.here < s'.here) :
    parse.Serves text bound' s'.here :=
  fun goal t stands suits reached _ =>
    h goal t stands suits (Nat.le_trans (Nat.le_of_lt later) reached) fun same =>
      absurd (Nat.lt_of_lt_of_le later reached) (Nat.not_lt.mpr (Nat.le_of_eq same))

theorem Paces.weaken {p : Parse β} {past' : β → Prop} (h : Paces parse bound' now' p past')
    (le : bound' ≤ bound) (suits : ∀ s, now s → now' s) (fewer : ∀ b, past b → past' b) :
    Paces parse bound now p past := by
  intro text s stands is serves
  have outcome := h stands (suits _ is) (Serves.mono serves le)
  exact ⟨outcome.orderly, outcome.below.mono le, fun found => outcome.moves (fewer _ found)⟩

/-- The token is the one that was known, or what it was read as again. -/
def Since (now : Scanner → Prop) (s : Scanner) : Prop :=
  ∃ before, now before ∧ s.start = before.start ∧ before.kind.Becomes s.kind

theorem Since.atToken {t : Scanner} (h : Since now t)
    (is : ∀ s, now s → atToken s := by grind) : atToken t := by
  obtain ⟨before, known, -, becomes⟩ := h
  have more := is before known
  unfold Kind.Becomes at becomes
  grind

theorem Since.offset_start {t : Scanner} {place : Offset} (h : Since now t)
    (is : ∀ s, now s → s.start.offset = place := by grind) : t.start.offset = place := by
  obtain ⟨before, known, same, -⟩ := h
  rw [same, is before known]

theorem Proceeds.bindStill {p : Parse α} {next : α → Parse β} {mid : α → Prop}
    (first : p.Proceeds bound s mid) (here : (p.run s).2.here = s.here)
    (second : (next (p.run s).1).Proceeds bound (p.run s).2 past) :
    (p >>= next).Proceeds bound s past :=
  ⟨⟨first.orderly, second.orderly⟩, ⟨first.below, here ▸ second.below⟩,
    fun found => here ▸ second.moves found⟩

theorem Proceeds.bindLater {p : Parse α} {next : α → Parse β} {mid : α → Prop}
    (first : p.Proceeds bound s mid) (stands : (p.run s).2.StandsIn text)
    (moved : s.here < (p.run s).2.here)
    (second : (next (p.run s).1).IsOrderly (p.run s).2) : (p >>= next).Proceeds bound s past :=
  ⟨⟨first.orderly, second⟩, ⟨first.below, entersBelow_of_lt _ stands moved⟩,
    fun _ => Nat.lt_of_lt_of_le moved (here_le_run _ stands)⟩

/-- One step and then another one, whatever token it is at. -/
theorem Proceeds.bindAnywhere {p : Parse α} {next : α → Parse β} {mid : α → Prop}
    (first : p.Proceeds bound s mid) (stands : s.StandsIn text)
    (second : (next (p.run s).1).Proceeds bound (p.run s).2 past) :
    (p >>= next).Proceeds bound s past := by
  obtain ⟨stands', reaches⟩ := standsIn_run p stands
  by_cases moved : s.here < (p.run s).2.here
  · exact first.bindLater stands' moved second.orderly
  · exact first.bindStill (congrArg Token.Cursor.offset (reaches.becomes moved).1) second

/-- One step and then another one, which is at the same token or at a later one. Past a token it
does not matter how far what is entered is bounded. -/
theorem Paces.bind {p : Parse α} {next : α → Parse β} {mid : α → Prop}
    (h : Paces parse bound now p mid)
    (still : ∀ a, ¬ mid a → Paces parse bound (Since now) (next a) past)
    (later : ∀ a, ∃ bound', Paces parse bound' anywhere (next a) never) :
    Paces parse bound now (p >>= next) past := by
  intro text s stands is serves
  have first := h stands is serves
  obtain ⟨stands', reaches⟩ := standsIn_run p stands
  by_cases moved : s.here < (p.run s).2.here
  · obtain ⟨bound', rest⟩ := later (p.run s).1
    have second := rest stands' trivial (Serves.later serves moved)
    exact first.bindLater stands' moved second.orderly
  · obtain ⟨same, becomes⟩ := reaches.becomes moved
    have here : (p.run s).2.here = s.here := congrArg Token.Cursor.offset same
    refine first.bindStill here (still _ (fun found => moved (first.moves found)) stands' ?_ ?_)
    · exact ⟨s.scanner, is, same, becomes⟩
    · exact here ▸ serves

theorem Paces.bindLater {p : Parse α} {next : α → Parse β} (h : Paces parse bound' now' p always)
    (below : bound' ≤ bound) (suits : ∀ s, now s → now' s)
    (later : ∀ a, Paces parse allRoutines anywhere (next a) never) :
    Paces parse bound now (p >>= next) past :=
  (h.weaken below suits fun _ => id).bind (fun _ stays => absurd trivial stays) fun a =>
    ⟨allRoutines, later a⟩

/-- An attempt and what comes after it, which consumed a token if the attempt succeeded. -/
theorem Paces.bindOption {p : Parse (Option α)} {next : Option α → Parse β}
    (h : Paces parse bound' now' p fun a? => a?.isSome = true) (below : bound' ≤ bound)
    (suits : ∀ s, now s → now' s) (missing : Paces parse bound anywhere (next none) past)
    (found : ∀ a, Paces parse allRoutines anywhere (next (some a)) never) :
    Paces parse bound now (p >>= next) past := by
  refine (h.weaken below suits fun _ => id).bind (fun a? fails => ?_) fun a? => ?_
  · obtain rfl : a? = none := by simpa using fails
    exact missing.weaken (Nat.le_refl _) (fun _ _ => trivial) fun _ => id
  · cases a? with
    | none => exact ⟨bound, missing.weaken (Nat.le_refl _) (fun _ => id) fun _ => False.elim⟩
    | some a => exact ⟨allRoutines, found a⟩

/-- One step and then another one, whatever token it is at. -/
theorem Paces.bindAnywhere {p : Parse α} {next : α → Parse β} {mid : α → Prop}
    (h : Paces parse bound now p mid)
    (h' : ∀ a, Paces parse bound anywhere (next a) past) :
    Paces parse bound now (p >>= next) past :=
  h.bind (fun a _ => (h' a).weaken (Nat.le_refl _) (fun _ _ => trivial) fun _ => id) fun a =>
    ⟨bound, (h' a).weaken (Nat.le_refl _) (fun _ => id) fun _ none => none.elim⟩

theorem Paces.pure {b : β} (stays : ¬ past b := by exact id) :
    Paces parse bound now (pure b) past :=
  fun _ _ _ _ _ => ⟨trivial, trivial, fun found => absurd found stays⟩

theorem Paces.pureBind {a : α} {next : α → Parse β} (h : Paces parse bound now (next a) past) :
    Paces parse bound now (Pure.pure a >>= next) past := by
  intro text s stands is serves
  have outcome := h stands is serves
  exact ⟨⟨trivial, outcome.orderly⟩, ⟨trivial, outcome.below⟩, outcome.moves⟩

theorem Paces.assoc {p : Parse α} {next : α → Parse γ} {last : γ → Parse β}
    (h : Paces parse bound now (p >>= fun a => next a >>= last) past) :
    Paces parse bound now (p >>= next >>= last) past := by
  intro text s stands is serves
  obtain ⟨⟨orderly, orderly', orderly''⟩, ⟨below, below', below''⟩, moves⟩ := h stands is serves
  exact ⟨⟨⟨orderly, orderly'⟩, orderly''⟩, ⟨⟨below, below'⟩, below''⟩, moves⟩

theorem Paces.ite {c : Prop} [Decidable c] {p q : Parse β} (h : c → Paces parse bound now p past)
    (h' : ¬ c → Paces parse bound now q past) :
    Paces parse bound now (if c then p else q) past := by
  split
  · exact h ‹_›
  · exact h' ‹_›

theorem Paces.byCases {p : Parse β} (c : Scanner → Prop)
    (h : Paces parse bound (fun s => now s ∧ c s) p past)
    (h' : Paces parse bound (fun s => now s ∧ ¬ c s) p past) : Paces parse bound now p past := by
  intro text s stands is serves
  by_cases holds : c s.scanner
  · exact h stands ⟨is, holds⟩ serves
  · exact h' stands ⟨is, holds⟩ serves

theorem Paces.absurd {p : Parse β} (none : ∀ s, ¬ now s) : Paces parse bound now p past :=
  fun _ s _ is => (none s.scanner is).elim

/-- A step over tokens, which enters no routine. -/
class Walks (p : Parse α) : Prop where
  proceeds : ∀ ⦃text s⦄, s.StandsIn text → p.Proceeds 0 s never

theorem Walks.paces {p : Parse α} [h : Walks p] (parse : Parser) :
    Paces parse bound now p never :=
  fun _ _ stands _ _ =>
    have outcome := h.proceeds stands
    ⟨outcome.orderly, outcome.below.mono (Nat.zero_le _), False.elim⟩

theorem Walks.of_paces {p : Parse α} (h : Paces (fun _ => Pure.pure none) 0 anywhere p never) :
    Walks p where
  proceeds _ _ stands := h stands trivial fun _ _ _ _ _ _ => ⟨trivial, trivial, False.elim⟩

instance (a : α) : Walks (pure a : Parse α) := ⟨fun _ _ _ => ⟨trivial, trivial, False.elim⟩⟩

instance (look : State → α) : Walks (.observe look) := ⟨fun _ _ _ => ⟨trivial, trivial, False.elim⟩⟩

instance : Walks advance := ⟨fun _ _ _ => ⟨trivial, trivial, False.elim⟩⟩

instance (again : Rereading) : Walks (reread again) :=
  ⟨fun _ _ _ => ⟨trivial, trivial, False.elim⟩⟩

instance (fault : Diagnostic.Fault) : Walks (reportHere fault) :=
  ⟨fun _ _ _ => ⟨trivial, trivial, False.elim⟩⟩

instance (start stop : Offset) (shape : Shape) : Walks (addNode start stop shape) :=
  ⟨fun _ _ _ => ⟨trivial, trivial, False.elim⟩⟩

instance (node : NodeId) (shape : Shape) : Walks (reshape node shape) :=
  ⟨fun _ _ _ => ⟨trivial, trivial, False.elim⟩⟩

instance (node : NodeId) : Walks (Parse.becomePattern node) :=
  ⟨fun _ _ _ => ⟨trivial, trivial, False.elim⟩⟩

instance {p : Parse α} {next : α → Parse β} [Walks p] [h : ∀ a, Walks (next a)] :
    Walks (p >>= next) :=
  .of_paces ((Walks.paces _).bindAnywhere fun a => (h a).paces _)

theorem Walks.bind {p : Parse α} {next : α → Parse β} [Walks p] (h : ∀ a, Walks (next a)) :
    Walks (p >>= next) :=
  inferInstance

instance {c : Prop} [Decidable c] {p q : Parse α} [Walks p] [Walks q] :
    Walks (if c then p else q) := by
  split <;> infer_instance

instance {p q : Parse Bool} [Walks p] [Walks q] : Walks (p <&&> q) := by
  have rest (b : Bool) : Walks (match toBool b with | true => q | false => pure b) := by
    split <;> infer_instance
  exact inferInstanceAs (Walks (p >>= _))

instance {p q : Parse Bool} [Walks p] [Walks q] : Walks (p <||> q) := by
  have rest (b : Bool) : Walks (match toBool b with | true => pure b | false => q) := by
    split <;> infer_instance
  exact inferInstanceAs (Walks (p >>= _))

theorem Walks.lookAhead {p : Parse α} (h : Walks p) : Walks (lookAhead p) :=
  ⟨fun _ _ stands => ⟨(h.proceeds stands).orderly, (h.proceeds stands).below, False.elim⟩⟩

instance {p : Parse α} [h : Walks p] : Walks (lookAhead p) := h.lookAhead

instance {p : Parse α} [h : Walks p] {f : α → β} : Walks (f <$> p) :=
  inferInstanceAs (Walks (p >>= fun a => pure (f a)))

instance {p : Parse α} [h : Walks p] : Walks (discard p) :=
  inferInstanceAs (Walks ((fun _ => ()) <$> p))

/-- Looks at the state. What that tells of the current token is known until the next step. -/
theorem Paces.look {p : Parse γ} {tells : γ → Scanner → Prop} [t : Tells p tells] [w : Walks p]
    {next : γ → Parse β} (h : ∀ a, Paces parse bound (fun s => now s ∧ tells a s) (next a) past) :
    Paces parse bound now (p >>= next) past := by
  intro text s stands is serves
  have first : p.Proceeds bound s never := w.paces parse stands is serves
  have same := t.run_snd s
  refine first.bindStill (congrArg State.here same) ?_
  rw [same]
  exact h _ stands ⟨is, t.tells s⟩ serves

theorem Paces.test {test : Parse Bool} {tells : Bool → Scanner → Prop} [Tells test tells]
    [Walks test] {p q : Parse β} (yes : Paces parse bound (fun s => now s ∧ tells true s) p past)
    (no : Paces parse bound (fun s => now s ∧ tells false s) q past) :
    Paces parse bound now (test >>= fun is => if is = true then p else q) past := by
  refine .look fun is => ?_
  cases is with
  | false => exact no
  | true => exact yes

/-- A step over tokens and then another one, whatever token it is at. -/
theorem Paces.skip {p : Parse γ} [h : Walks p] {next : γ → Parse β}
    (h' : ∀ a, Paces parse bound anywhere (next a) past) :
    Paces parse bound now (p >>= next) past :=
  (h.paces parse).bindAnywhere h'

/-- A step that is taken on a condition, and another one after it. -/
theorem Paces.skipIf {c : Prop} [Decidable c] {p : Parse γ} [Walks p] {q : Parse β}
    (h : Paces parse bound anywhere q past) :
    Paces parse bound now (if c then p >>= fun _ => q else q) past :=
  .ite (fun _ => .skip fun _ => h) fun _ =>
    h.weaken (Nat.le_refl _) (fun _ _ => trivial) fun _ => id

theorem Paces.skipUnless {c : Prop} [Decidable c] {p : Parse γ} [Walks p] {q : Parse β}
    (h : Paces parse bound anywhere q past) :
    Paces parse bound now (if c then q else p >>= fun _ => q) past :=
  .ite (fun _ => h.weaken (Nat.le_refl _) (fun _ _ => trivial) fun _ => id) fun _ =>
    .skip fun _ => h

theorem paces_advance : Paces parse bound atToken advance always :=
  fun _ _ stands is _ => ⟨trivial, trivial, fun _ => stands.lt_advance is⟩

theorem Paces.take {next : Unit → Parse β} (h : Paces parse allRoutines anywhere (next ()) never)
    (is : ∀ s, now s → atToken s := by grind) : Paces parse bound now (advance >>= next) past :=
  paces_advance.bindLater (Nat.le_refl bound) is fun _ => h

instance : Walks state := inferInstanceAs (Walks (.observe _))

instance : Walks kind := inferInstanceAs (Walks (.observe _))

instance : Walks here := inferInstanceAs (Walks (.observe _))

instance : Walks tokenEnd := inferInstanceAs (Walks (.observe _))

instance : Walks value := inferInstanceAs (Walks (.observe _))

instance : Walks afterLineBreak := inferInstanceAs (Walks (.observe _))

instance (node : Child) : Walks (shapeOf node) := inferInstanceAs (Walks (.observe _))

instance (k : Kind) : Walks (isAt k) := inferInstanceAs (Walks (_ >>= _))

instance (m : Punctuator) : Walks (atMark m) := inferInstanceAs (Walks (isAt _))

instance (w : Keyword) : Walks (atWord w) := inferInstanceAs (Walks (isAt _))

instance : Walks atName := inferInstanceAs (Walks (_ >>= _))

instance : Walks atAnyWord := inferInstanceAs (Walks (_ >>= _))

instance (text : String) : Walks (atNameText text) := by
  unfold atNameText
  infer_instance

instance (k : Kind) : Walks (optional k) := by
  unfold optional
  infer_instance

instance (m : Punctuator) : Walks (optionalMark m) := inferInstanceAs (Walks (optional _))

instance (w : Keyword) : Walks (optionalWord w) := inferInstanceAs (Walks (optional _))

instance (k : Kind) : Walks (expect k) := by
  unfold expect
  infer_instance

instance (m : Punctuator) : Walks (expectMark m) := inferInstanceAs (Walks (expect _))

instance (w : Keyword) : Walks (expectWord w) := inferInstanceAs (Walks (expect _))

instance : Walks atStatementEnd := by
  unfold atStatementEnd
  infer_instance

instance : Walks semicolon := by
  unfold semicolon
  infer_instance

instance (k : Kind) : Walks (nextIs k) := inferInstanceAs (Walks (lookAhead _))

instance (m : Punctuator) : Walks (nextIsMark m) := inferInstanceAs (Walks (nextIs _))

instance {test : Parse Bool} [Walks test] : Walks (nextOnSameLine test) := by
  unfold nextOnSameLine
  infer_instance

instance (close : Kind) : Walks (atClose close) := by
  unfold atClose
  infer_instance

instance (start : Offset) (shape : Shape) : Walks (finish start shape) :=
  inferInstanceAs (Walks (_ >>= _))

instance : Walks identifier := by
  unfold identifier
  infer_instance

instance : Walks propertyName := by
  unfold propertyName
  infer_instance

instance (form : Syntax.LiteralForm) : Walks (literal form) := by
  unfold literal
  infer_instance

theorem Paces.reread {again : Rereading} {next : Unit → Parse β}
    (h : Paces parse bound (Since now) (next ()) past) :
    Paces parse bound now (Grammar.reread again >>= next) past := by
  intro text s stands is serves
  have first : (Grammar.reread again).Proceeds bound s never := Walks.paces parse stands is serves
  have same : (again.apply s.scanner).start = s.scanner.start :=
    (again.rereadFrom_apply s.scanner).start
  have here : (s.reread again).here = s.here := congrArg Token.Cursor.offset same
  refine first.bindStill here (h (stands.reread again) ?_ (here ▸ serves))
  exact ⟨s.scanner, is, same, again.becomes_apply s.scanner⟩

/-- A step that consumes a token of the kind, or stays where it is. -/
class Tries (p : Parse Bool) (k : outParam Kind) : Prop extends Walks p where
  run_of_eq : ∀ s, s.scanner.kind = k → p.run s = (true, s.advance)
  run_of_ne : ∀ s, s.scanner.kind ≠ k → (p.run s).1 = false ∧
    (p.run s).2.scanner = s.scanner ∧ (p.run s).2.size = s.size

instance (k : Kind) : Tries (optional k) k where
  run_of_eq s is := by rw [run_optional, if_pos (beq_iff_eq.mpr is)]
  run_of_ne s other := by
    rw [run_optional, if_neg (by simpa using other)]
    exact ⟨rfl, rfl, rfl⟩

instance (m : Punctuator) : Tries (optionalMark m) (.punctuator m) :=
  inferInstanceAs (Tries (optional _) _)

instance (w : Keyword) : Tries (optionalWord w) (.keyword w) :=
  inferInstanceAs (Tries (optional _) _)

instance (k : Kind) : Tries (expect k) k where
  run_of_eq s is := by rw [run_expect, if_pos (beq_iff_eq.mpr is)]
  run_of_ne s other := by
    rw [run_expect, if_neg (by simpa using other)]
    exact ⟨rfl, rfl, rfl⟩

instance (m : Punctuator) : Tries (expectMark m) (.punctuator m) :=
  inferInstanceAs (Tries (expect _) _)

instance (w : Keyword) : Tries (expectWord w) (.keyword w) :=
  inferInstanceAs (Tries (expect _) _)

/-- One way after the token, and another one where it is not there. -/
theorem Paces.whether {p : Parse Bool} {k : Kind} [t : Tries p k] {next : Bool → Parse β}
    (yes : Paces parse allRoutines anywhere (next true) never)
    (no : Paces parse bound (fun s => now s ∧ s.kind ≠ k) (next false) past)
    (proper : k ≠ .endOfFile := by simp) : Paces parse bound now (p >>= next) past := by
  intro text s stands is serves
  have first : p.Proceeds bound s never := t.toWalks.paces parse stands is serves
  by_cases found : s.scanner.kind = k
  · have moved : s.here < s.advance.here := stands.lt_advance (found ▸ proper)
    have second := yes stands.advance trivial (Serves.later serves moved)
    have run := t.run_of_eq s found
    refine first.bindLater (standsIn_run p stands).1 (by rwa [run]) ?_
    rw [run]
    exact second.orderly
  · obtain ⟨result, scanner, size⟩ := t.run_of_ne s found
    have stands' : (p.run s).2.StandsIn text := stands.congr (by rw [scanner]) size
    have here : (p.run s).2.here = s.here := congrArg (·.start.offset) scanner
    have second := no stands' (scanner ▸ ⟨is, found⟩) (here ▸ serves)
    rw [← result] at second
    exact first.bindStill here second

theorem Paces.ifOptional {test : Parse Bool} {k : Kind} [Tries test k] {p q : Parse β}
    (yes : Paces parse allRoutines anywhere p never)
    (no : Paces parse bound (fun s => now s ∧ s.kind ≠ k) q past)
    (proper : k ≠ .endOfFile := by simp) :
    Paces parse bound now (test >>= fun is => if is = true then p else q) past :=
  .whether (by rwa [if_pos rfl]) (by rwa [if_neg Bool.false_ne_true]) proper

/-- The same way, after the token or where it is not there. -/
theorem Paces.optionally {p : Parse Bool} {k : Kind} [Tries p k] {next : Unit → Parse β}
    (yes : Paces parse allRoutines anywhere (next ()) never)
    (no : Paces parse bound (fun s => now s ∧ s.kind ≠ k) (next ()) past)
    (proper : k ≠ .endOfFile := by simp) : Paces parse bound now (discard p >>= next) past :=
  .assoc (.whether (.pureBind yes) (.pureBind no) proper)

/-- The token is there. -/
theorem Paces.expected {p : Parse Bool} {k : Kind} [t : Tries p k] {next : Unit → Parse β}
    (h : Paces parse allRoutines anywhere (next ()) never)
    (is : ∀ s, now s → s.kind = k := by grind)
    (proper : k ≠ .endOfFile := by simp) :
    Paces parse bound now (discard p >>= next) past :=
  .optionally h (.absurd fun s other => other.2 (is s other.1)) proper

section Around

variable {p : Parse β}

theorem Paces.within {change : Context → Context} (h : Paces parse bound now p past) :
    Paces parse bound now (within change p) past := by
  intro text s stands is serves
  have inner := h (s := { s with context := change s.context }) (stands.congr rfl rfl) is serves
  exact ⟨inner.orderly, inner.below, inner.moves⟩

theorem Paces.guarded {p : Parse Child} (h : Paces parse bound now p never) :
    Paces parse bound now (guarded p) never := by
  intro text s stands is serves
  have inner := h (s := { s with depth := s.depth + 1 }) (stands.congr rfl rfl) is serves
  exact ⟨fun _ => inner.orderly, fun _ => inner.below, False.elim⟩

/-- An attempt that fails has consumed nothing. -/
theorem Paces.attempt {p : Parse (Option α)} {past : Option α → Prop}
    (h : Paces parse bound now p past) (fails : ¬ past none := by simp) :
    Paces parse bound now (attempt p) past := by
  intro text s stands is serves
  have inner := h stands is serves
  refine ⟨inner.orderly, inner.below, fun found => ?_⟩
  simp only [run] at found ⊢
  split at found
  · rename_i kept
    rw [if_pos kept]
    exact inner.moves found
  · exact (fails found).elim

/-- A routine ranks after all that it enters where it starts. -/
theorem Proceeds.routine {routine : Routine} {rank : Nat} (h : p.Proceeds rank s past)
    (is : routine.rank s.scanner.kind = rank) :
    (labelled (.routine routine) p).Proceeds (rank + 1) s past := by
  subst is
  exact ⟨⟨h.below, h.orderly⟩, ⟨fun _ => Nat.lt_succ_self _, h.below.mono (Nat.le_succ _)⟩, h.moves⟩

theorem Paces.routineAt {routine : Routine} {rank : Nat} (h : Paces parse rank now p past)
    (is : ∀ s, now s → routine.rank s.kind = rank) :
    Paces parse (rank + 1) now (labelled (.routine routine) p) past :=
  fun _ s stands known serves =>
    (h stands known (Serves.mono serves (Nat.le_succ _))).routine (is s.scanner known)

theorem Paces.routine {routine : Routine} (h : Paces parse (routine.ctorIdx + 1) now p past)
    (other : routine ≠ .block := by decide) :
    Paces parse (routine.ctorIdx + 2) now (labelled (.routine routine) p) past :=
  h.routineAt fun s _ => by simp [Routine.rank, other]

end Around

def goesOn : Round α → Prop
  | .again _ => True
  | .done _ => False

/-- Rounds that consume a token each are fewer than the bytes that are left. -/
theorem paces_repeatUpTo {step : α → Parse (Round α)}
    (h : ∀ a, Paces parse bound anywhere (step a) goesOn) (n : Nat) (a : α) ⦃text : List Char⦄
    ⦃s : State⦄ (stands : s.StandsIn text) (serves : parse.Serves text bound s.here)
    (enough : byteSize text - s.here < n) : (repeatUpTo step n a).Proceeds bound s never := by
  induction n generalizing a s with
  | zero => exact absurd enough (Nat.not_lt_zero _)
  | succ n ih =>
    have first := h a stands trivial serves
    obtain ⟨stands', reaches⟩ := standsIn_run (step a) stands
    have round : (labelled .round (step a)).Proceeds bound s goesOn := by
      refine ⟨⟨fun a' again => first.moves ?_, first.orderly⟩, ⟨trivial, first.below⟩, first.moves⟩
      rw [again]
      trivial
    have here := here_le_run (step a) stands
    cases result : ((step a).run s).1 with
    | again a' =>
      have moved : s.here < ((step a).run s).2.here := first.moves (result ▸ trivial)
      refine round.bindLater stands' moved ?_
      change (match ((step a).run s).1 with
        | .again a => repeatUpTo step n a
        | .done a => pure a).IsOrderly _
      rw [result]
      refine (ih a' stands' (Serves.later serves moved) ?_).orderly
      have reached : ((step a).run s).2.here ≤ byteSize text := stands'.here_le
      exact Nat.lt_of_lt_of_le (Nat.sub_lt_sub_left (Nat.lt_of_lt_of_le moved reached) moved)
        (Nat.le_of_lt_succ enough)
    | done a' =>
      have rest : (pure a' : Parse α).Proceeds bound ((step a).run s).2 never :=
        ⟨trivial, trivial, False.elim⟩
      refine round.bindAnywhere stands ?_
      change (match ((step a).run s).1 with
        | .again a => repeatUpTo step n a
        | .done a => pure a).Proceeds bound _ never
      rwa [result]

/-- A loop that is orderly ends with a round that is done. -/
theorem ends_repeatUpTo {step : α → Parse (Round α)} (ended : State → Prop)
    (h : ∀ a s a', ((step a).run s).1 = .done a' → ended ((step a).run s).2) {n : Nat} {a : α}
    {s : State} (orderly : (repeatUpTo step n a).IsOrderly s) :
    ended ((repeatUpTo step n a).run s).2 := by
  induction n generalizing a s with
  | zero => exact orderly.1.elim
  | succ n ih =>
    obtain ⟨-, rest⟩ := orderly
    change ended (run (match ((step a).run s).1 with
      | .again a => repeatUpTo step n a
      | .done a => pure a) _).2
    change IsOrderly (match ((step a).run s).1 with
      | .again a => repeatUpTo step n a
      | .done a => pure a) _ at rest
    cases result : ((step a).run s).1 with
    | again a' =>
      rw [result] at rest
      exact ih rest
    | done a' => exact h a s a' result

/-- A loop whose rounds consume a token each where they do not end it. -/
theorem Paces.iterate {step : α → Parse (Round α)} {a : α}
    (h : ∀ a, Paces parse bound anywhere (step a) goesOn) :
    Paces parse bound now (iterate a step) never := by
  intro text s stands _ serves
  have looks : Paces parse bound anywhere state never := Walks.paces parse
  refine (looks stands trivial serves).bindStill rfl ?_
  refine paces_repeatUpTo h _ a stands serves ?_
  change byteSize text - s.here < s.size - s.here + 2
  rw [stands.size_eq]
  exact Nat.lt_add_of_pos_right Nat.zero_lt_two

/-- A loop that consumes a token at least in its first round. -/
theorem Paces.iterateOnce {step : α → Parse (Round α)} {a : α}
    (h : ∀ a, Paces parse bound anywhere (step a) goesOn)
    (first : Paces parse bound now (step a) always) :
    Paces parse bound now (Grammar.iterate a step) always := by
  intro text s stands is serves
  have loop : (Grammar.iterate a step).Proceeds bound s never := Paces.iterate h stands is serves
  refine ⟨loop.orderly, loop.below, fun _ => ?_⟩
  have moved := (first stands is serves).moves trivial
  exact Nat.lt_of_lt_of_le moved (here_le_run _ (standsIn_run (step a) stands).1)

/-- A condition that all tokens meet. -/
class Every (now : Scanner → Prop) : Prop where
  holds : ∀ s, now s

instance : Every anywhere := ⟨fun _ => trivial⟩

/-- A construct that proceeds on suitable tokens. Constructs have instances of this, and the rule
for a part finds the instance of that part. -/
class Advances (parse : Parser) (p : Parse α) (bound : outParam Nat)
    (now : outParam (Scanner → Prop)) : Prop where
  paces : Paces parse bound now p never
  bound_le : bound ≤ allRoutines := by decide

instance (priority := low) {p : Parse α} [h : Walks p] : Advances parse p 0 anywhere where
  paces := h.paces parse

instance (goal : Goal) : Advances parse (parse goal) (goal.routine.ctorIdx + 2) (Suits goal) where
  paces _ s stands suits serves :=
    serves goal s stands suits (Nat.le_refl _) fun _ => Nat.lt_succ_self _
  bound_le := ctorIdx_add_two_le _

section Parts

variable {p : Parse α}

/-- A part, which ranks below the construct and stands at a suitable token, and what comes after it.
-/
theorem Paces.partAt [h : Advances parse p bound' now'] {next : α → Parse β}
    (below : bound' ≤ bound)
    (suits : ∀ s, now s → now' s) (h' : ∀ a, Paces parse bound anywhere (next a) past) :
    Paces parse bound now (p >>= next) past :=
  (h.paces.weaken below suits fun _ => id).bindAnywhere h'

theorem Paces.part [Advances parse p bound' anywhere] {next : α → Parse β} (below : bound' ≤ bound)
    (h' : ∀ a, Paces parse bound anywhere (next a) past) :
    Paces parse bound now (p >>= next) past :=
  .partAt below (fun _ _ => trivial) h'

/-- A part and what comes after it, which knows the token if the part consumes nothing. -/
theorem Paces.partSince [h : Advances parse p bound' now'] {next : α → Parse β}
    (below : bound' ≤ bound) (suits : ∀ s, now s → now' s)
    (still : ∀ a, Paces parse bound (Since now) (next a) past)
    (later : ∀ a, Paces parse allRoutines anywhere (next a) never) :
    Paces parse bound now (p >>= next) past :=
  (h.paces.weaken below suits fun _ => id).bind (fun a _ => still a) fun a =>
    ⟨allRoutines, later a⟩

/-- The last part of a construct, which stands at a suitable token. -/
theorem Paces.lastAt {p : Parse β} [h : Advances parse p bound' now'] (below : bound' ≤ bound)
    (suits : ∀ s, now s → now' s) : Paces parse bound now p never :=
  h.paces.weaken below suits fun _ => id

theorem Paces.last {p : Parse β} [Advances parse p bound' anywhere] (below : bound' ≤ bound) :
    Paces parse bound now p never :=
  .lastAt below fun _ _ => trivial

/-- A part that may be missing, which stands at a suitable token. -/
theorem Paces.optionAt {p : Parse (Option α)} [Advances parse p bound' now']
    {next : Option α → Parse β} (below : bound' ≤ bound) (suits : ∀ s, now s → now' s)
    (missing : Paces parse bound anywhere (next none) past)
    (found : ∀ a, Paces parse bound anywhere (next (some a)) past) :
    Paces parse bound now (p >>= next) past := by
  refine .partAt below suits fun a => ?_
  cases a with
  | none => exact missing
  | some a => exact found a

theorem Paces.option {p : Parse (Option α)} [Advances parse p bound' anywhere]
    {next : Option α → Parse β} (below : bound' ≤ bound)
    (missing : Paces parse bound anywhere (next none) past)
    (found : ∀ a, Paces parse bound anywhere (next (some a)) past) :
    Paces parse bound now (p >>= next) past :=
  .optionAt below (fun _ _ => trivial) missing found

end Parts

/-- A construct that proceeds where everything may be entered. -/
class Roams (parse : Parser) (p : Parse α) : Prop where
  paces : Paces parse allRoutines anywhere p never

theorem Paces.free {p : Parse β} [h : Roams parse p] :
    Paces parse allRoutines anywhere p never := h.paces

theorem Paces.roam {p : Parse α} [h : Roams parse p] {next : α → Parse β}
    (h' : ∀ a, Paces parse allRoutines anywhere (next a) past) :
    Paces parse allRoutines now (p >>= next) past :=
  (h.paces.weaken (Nat.le_refl _) (fun _ _ => trivial) fun _ => id).bindAnywhere h'

instance (priority := low) {p : Parse α} [h : Advances parse p bound now] [every : Every now] :
    Roams parse p where
  paces := h.paces.weaken h.bound_le (fun s _ => every.holds s) fun _ => id

instance {p : Parse α} [h : Walks p] : Roams parse p := ⟨h.paces parse⟩

instance {p : Parse α} {next : α → Parse β} [h : Roams parse p] [h' : ∀ a, Roams parse (next a)] :
    Roams parse (p >>= next) where
  paces := h.paces.bindAnywhere fun a => (h' a).paces

instance {c : Prop} [Decidable c] {p q : Parse α} [h : Roams parse p] [h' : Roams parse q] :
    Roams parse (if c then p else q) where
  paces := .ite (fun _ => h.paces) fun _ => h'.paces

section Around

variable {p : Parse α}

instance {change : Context → Context} [h : Advances parse p bound now] :
    Advances parse (within change p) bound now :=
  ⟨h.paces.within, h.bound_le⟩

instance [h : Advances parse p bound now] : Advances parse (allowIn p) bound now :=
  inferInstanceAs (Advances parse (within _ _) bound now)

instance [h : Advances parse p bound now] : Advances parse (disallowIn p) bound now :=
  inferInstanceAs (Advances parse (within _ _) bound now)

instance [h : Advances parse p bound now] {f : α → β} : Advances parse (f <$> p) bound now where
  paces := h.paces.bindAnywhere fun _ => .pure
  bound_le := h.bound_le

instance [h : Advances parse p bound now] :
    Advances parse (p >>= fun a => pure (some a)) bound now :=
  inferInstanceAs (Advances parse (some <$> p) bound now)

instance [h : Advances parse p bound now] : Advances parse (discard p) bound now :=
  inferInstanceAs (Advances parse ((fun _ => ()) <$> p) bound now)

instance {change : Context → Context} [h : Roams parse p] : Roams parse (within change p) :=
  ⟨h.paces.within⟩

instance [h : Roams parse p] : Roams parse (allowIn p) :=
  inferInstanceAs (Roams parse (within _ _))

instance [h : Roams parse p] : Roams parse (disallowIn p) :=
  inferInstanceAs (Roams parse (within _ _))

instance {p : Parse (Option α)} [h : Roams parse p] : Roams parse (attempt p) :=
  ⟨h.paces.attempt⟩

theorem Advances.routine {routine : Routine}
    (h : Paces parse (routine.ctorIdx + 1) now p never) (other : routine ≠ .block := by decide) :
    Advances parse (labelled (.routine routine) p) (routine.ctorIdx + 2) now where
  paces := h.routine other
  bound_le := ctorIdx_add_two_le _

end Around

section Lists

variable {item : Parse Child}

instance {close : Kind} [h : Advances parse item bound now] [every : Every now] :
    Advances parse (commaList close item) bound anywhere where
  paces := by
    refine .bindAnywhere (.iterate fun items => ?_) fun items => .pure
    refine .test .pure (.optionAt (Nat.le_refl _) (fun s _ => every.holds s) .pure fun node => ?_)
    exact .ifOptional .pure .pure
  bound_le := h.bound_le

instance {separator : Punctuator} [h : Advances parse item bound now] [every : Every now] :
    Advances parse (separated (.punctuator separator) item) bound anywhere where
  paces := by
    refine .bindAnywhere (.iterate fun items => ?_) fun items => .pure
    refine .optionAt (Nat.le_refl _) (fun s _ => every.holds s) .pure fun node => ?_
    exact .ifOptional .pure .pure
  bound_le := h.bound_le

end Lists

end LoopCapture.Grammar.Parse
