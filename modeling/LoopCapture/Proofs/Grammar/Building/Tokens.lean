import LoopCapture.Proofs.Grammar.Building

/-!
# Steps that look and steps over tokens

What a look at the state tells of the current token is known until the next step. A token that is
consumed, or an error, puts a construct past the place where it started.
-/

namespace LoopCapture.Grammar.Parse
open Text (Offset)
open Token (Kind Keyword Punctuator Scanner)
open Syntax (Child NodeId Shape)

variable {α β γ : Type} {text : List Char} {base : Nat} {now now' : Scanner → Prop} {b : Offset}
  {known given : List Fact} {mid : α → List Fact} {post : β → List Fact}

theorem Still.outcome {p : Parse γ} [h : Still p] {s : State} (sound : s.layout.Sound text base) :
    Outcome text base s p fun _ => [] where
  transacts := h.transacts s
  sound := by rwa [h.run_snd]
  leads := by rw [h.run_snd]; exact .refl base _
  holds := by simp

/-- A step that leaves the state as it is, with what its result tells of the current token. -/
class Tells (p : Parse α) (tells : outParam (α → Scanner → Prop)) : Prop extends Still p where
  tells : ∀ s, tells (p.run s).1 s.scanner

instance (priority := low) {p : Parse α} [Still p] : Tells p fun _ _ => True := ⟨fun _ => trivial⟩

instance : Still state := still_observe _

instance : Still value := still_observe _

instance : Still afterLineBreak := still_observe _

instance (node : Child) : Still (shapeOf node) := still_observe _

instance : Tells kind fun k s => s.kind = k where
  toStill := still_observe _
  tells _ := rfl

instance : Tells here fun start s => s.start.offset = start where
  toStill := still_observe _
  tells _ := rfl

instance : Tells tokenEnd fun stop s => s.stop.offset = stop where
  toStill := still_observe _
  tells _ := rfl

instance (k : Kind) : Tells (isAt k) fun yes s => (s.kind == k) = yes where
  toStill := inferInstanceAs (Still (_ >>= _))
  tells _ := rfl

instance (m : Punctuator) : Tells (atMark m) fun yes s => (s.kind == .punctuator m) = yes :=
  inferInstanceAs (Tells (isAt _) _)

instance (w : Keyword) : Tells (atWord w) fun yes s => (s.kind == .keyword w) = yes :=
  inferInstanceAs (Tells (isAt _) _)

theorem isWord_of_isName {k : Kind} (named : k.isName = true) : k.isWord = true := by
  cases k with
  | identifier | keyword => rfl
  | _ => cases named

instance : Tells atName fun yes s => s.kind.isName = yes where
  toStill := inferInstanceAs (Still (_ >>= _))
  tells _ := rfl

instance : Tells atAnyWord fun yes s => s.kind.isWord = yes where
  toStill := inferInstanceAs (Still (_ >>= _))
  tells _ := rfl

instance : Still atStatementEnd := by
  unfold atStatementEnd
  infer_instance

instance (close : Kind) :
    Tells (atClose close) fun yes s => (s.kind == close || s.kind == .endOfFile) = yes where
  toStill := by
    unfold atClose
    infer_instance
  tells _ := rfl

instance (k : Kind) : Still (nextIs k) := inferInstanceAs (Still (lookAhead _))

instance (m : Punctuator) : Still (nextIsMark m) := inferInstanceAs (Still (nextIs _))

instance {test : Parse Bool} [Peeks test] : Still (nextOnSameLine test) :=
  inferInstanceAs (Still (lookAhead _))

instance {p q : Parse Bool} [Still p] [Still q] : Still (p <&&> q) := by
  have stops (b : Bool) : Still (match toBool b with | true => q | false => pure b) := by
    split <;> infer_instance
  exact inferInstanceAs (Still (p >>= _))

instance {p q : Parse Bool} [Still p] [Still q] : Still (p <||> q) := by
  have stops (b : Bool) : Still (match toBool b with | true => pure b | false => q) := by
    split <;> infer_instance
  exact inferInstanceAs (Still (p >>= _))

theorem Still.bind {p : Parse α} {next : α → Parse β} [Still p] (h : ∀ a, Still (next a)) :
    Still (p >>= next) :=
  inferInstance

theorem Still.and {p q : Parse Bool} [Still p] (h : Still q) : Still (p <&&> q) := inferInstance

theorem run_and (p q : Parse Bool) [h : Still p] (s : State) :
    ((p <&&> q).run s).1 = ((p.run s).1 && (q.run s).1) := by
  have run : (p <&&> q).run s =
    (match (p.run s).1 with | true => q | false => pure (p.run s).1).run (p.run s).2 := rfl
  rw [run, h.run_snd]
  cases (p.run s).1 <;> rfl

theorem run_or_eq (p q : Parse Bool) [h : Still p] (s : State) :
    (p <||> q).run s = if (p.run s).1 = true then (true, s) else q.run s := by
  have run : (p <||> q).run s =
    (match (p.run s).1 with | true => pure (p.run s).1 | false => q).run (p.run s).2 := rfl
  rw [run, h.run_snd]
  cases (p.run s).1 <;> rfl

theorem run_or (p q : Parse Bool) [h : Still p] (s : State) :
    ((p <||> q).run s).1 = ((p.run s).1 || (q.run s).1) := by
  rw [run_or_eq]
  cases (p.run s).1 <;> rfl

instance {p q : Parse Bool} {tells tells' : Bool → Scanner → Prop} [h : Tells p tells]
    [h' : Tells q tells'] :
    Tells (p <&&> q) fun both s => both = true → tells true s ∧ tells' true s where
  tells s both := by
    rw [run_and, Bool.and_eq_true] at both
    exact ⟨both.1 ▸ h.tells s, both.2 ▸ h'.tells s⟩

instance {p q : Parse Bool} {tells tells' : Bool → Scanner → Prop} [h : Tells p tells]
    [h' : Tells q tells'] :
    Tells (p <||> q) fun one s => (one = true → tells true s ∨ tells' true s) ∧
      (one = false → tells false s ∧ tells' false s) where
  tells s := by
    rw [run_or, Bool.or_eq_true, Bool.or_eq_false_iff]
    refine ⟨fun one => one.imp (fun is => ?_) fun is => ?_, fun neither => ⟨?_, ?_⟩⟩
    · exact is ▸ h.tells s
    · exact is ▸ h'.tells s
    · exact neither.1 ▸ h.tells s
    · exact neither.2 ▸ h'.tells s

instance (text : String) :
    Tells (atNameText text) fun yes s => yes = true → s.kind.isName = true where
  toStill := inferInstanceAs (Still (_ >>= _))
  tells s is := by
    have named : (s.scanner.kind.isName && s.scanner.value == text) = true := is
    exact (Bool.and_eq_true_iff.mp named).1

/-- Looks at the state. What that tells of the current token is known until the next step. -/
theorem Builds.look {p : Parse γ} {tells : γ → Scanner → Prop} [t : Tells p tells]
    {next : γ → Parse β} (h : ∀ a, Builds (fun s => now s ∧ tells a s) b known (next a) post) :
    Builds now b known (p >>= next) post := by
  intro text base s sound is reached holds
  refine (Still.outcome sound : Outcome text base s p fun _ => []).bind ?_
  rw [t.run_snd s]
  exact h _ sound ⟨is, t.tells s⟩ reached holds

theorem Builds.test {test : Parse Bool} {tells : Bool → Scanner → Prop} [Tells test tells]
    {p q : Parse β} (yes : Builds (fun s => now s ∧ tells true s) b known p post)
    (no : Builds (fun s => now s ∧ tells false s) b known q post) :
    Builds now b known (test >>= fun is => if is = true then p else q) post := by
  refine .look fun is => ?_
  cases is with
  | false => exact no
  | true => exact yes

/-- A step that moves on and hands over nothing. -/
class Skips (p : Parse α) : Prop where
  builds : Builds anywhere 0 [] p fun _ => []

/-- A step that consumes a token or reports an error, and hands over nothing. -/
class Passes (p : Parse α) : Prop where
  builds : ∀ b, Builds anywhere b [] p fun _ => [.passed b]

theorem Builds.skip {p : Parse γ} [h : Skips p] {next : γ → Parse β}
    (h' : ∀ a, Builds anywhere b known (next a) post) : Builds now b known (p >>= next) post := by
  have here : Builds anywhere b [] p fun _ => [] :=
    h.builds.weaken (fun _ is => is) (Nat.zero_le b) (.refl b []) fun _ => .refl 0 []
  exact here.bindWith (fun _ _ => trivial) (gives_nil b known) h'

theorem Builds.pass {p : Parse γ} [h : Passes p] {next : γ → Parse β}
    (h' : ∀ a, Builds anywhere b (.passed b :: known) (next a) post) :
    Builds now b known (p >>= next) post :=
  (h.builds b).bindWith (fun _ _ => trivial) (gives_nil b known) h'

instance {p : Parse α} [h : Passes p] : Skips p :=
  ⟨(h.builds 0).weaken (fun _ is => is) (Nat.le_refl 0) (.refl 0 []) fun _ => gives_nil 0 _⟩

instance {p : Parse α} [h : Still p] : Skips p := ⟨fun _ _ _ sound _ _ _ => Still.outcome sound⟩

instance : Skips advance :=
  ⟨fun _ _ _ sound _ _ _ => ⟨trivial, sound.advance, sound.leads_advance, by simp⟩⟩

instance (again : Rereading) : Skips (reread again) :=
  ⟨fun _ _ _ sound _ _ _ => ⟨trivial, sound.reread again, Layout.leads_reread _ _ again, by simp⟩⟩

/-- The current token is still a token when it is read again. -/
theorem Builds.reread {again : Rereading} {next : Unit → Parse β}
    (h : Builds atToken b known (next ()) post) (is : ∀ s, now s → atToken s := by grind) :
    Builds now b known (Grammar.reread again >>= next) post := by
  intro text base s sound here reached holds
  have leads : s.layout.Leads base (s.layout.reread again) := Layout.leads_reread _ _ again
  have first : Outcome text base s (Grammar.reread again) fun _ => [] :=
    ⟨trivial, sound.reread again, leads, by simp⟩
  refine first.bind (h first.sound ?_ (Nat.le_trans reached leads.here_le) ?_)
  · exact (again.rereadFrom_apply s.scanner).notEnd (is _ here)
  · exact fun f mem => (holds f mem).leads leads

theorem builds_advance : Builds atToken b [] advance fun _ => [.passed b] :=
  fun _ _ _ sound is reached _ => ⟨trivial, sound.advance, sound.leads_advance, by
    simp only [List.mem_singleton, forall_eq]
    exact sound.hasPassed_advance reached is⟩

/-- A report is kept unless one is there already. -/
theorem exists_errors_reportHere (s : State) (fault : Diagnostic.Fault) :
    ∃ more, (s.reportHere fault).errors = s.errors ++ more ∧ (s.reportHere fault).errors ≠ #[] := by
  simp only [State.reportHere]
  split
  · rename_i again
    exact ⟨#[], by simp, fun none => by simp [none] at again⟩
  · exact ⟨_, Array.push_eq_append, by simp⟩

instance (fault : Diagnostic.Fault) : Passes (reportHere fault) where
  builds b text base s sound _ _ _ := by
    obtain ⟨more, errors, faulty⟩ := exists_errors_reportHere s fault
    have after : ((reportHere fault).run s).2.layout =
        { s.layout with errors := s.layout.errors ++ more } :=
      congrArg (fun errors => { s.layout with errors }) errors
    refine ⟨trivial, ?_, ?_, ?_⟩
    · rw [after]
      exact sound.addErrors more
    · rw [after]
      exact Layout.leads_errors base _ more
    · simp only [List.mem_singleton, forall_eq]
      exact .inr (.inl faulty)

theorem Builds.take {next : Unit → Parse β}
    (h : Builds anywhere b (.consumed b :: .passed b :: known) (next ()) post)
    (is : ∀ s, now s → atToken s := by grind) : Builds now b known (advance >>= next) post := by
  have token : Builds now b [] advance fun _ => [.consumed b, .passed b] := by
    intro text base s sound here reached holds
    have later : b < s.layout.advance.lastEnd :=
      Nat.lt_of_le_of_lt reached (sound.stands.proper (is _ here))
    refine ⟨trivial, sound.advance, sound.leads_advance, ?_⟩
    simp only [List.forall_mem_cons, Fact.Holds]
    exact ⟨later, .inl later, by simp⟩
  exact token.bindWith (fun _ is => is) (gives_nil b known) fun _ => h

theorem Builds.consume {next : Unit → Parse β}
    (h : Builds anywhere b (.passed b :: known) (next ()) post)
    (is : ∀ s, now s → atToken s := by grind) : Builds now b known (advance >>= next) post :=
  builds_advance.bindWith is (gives_nil b known) fun _ => h

theorem Builds.consumeToken (start stop : Offset) {next : Unit → Parse β}
    (h : Builds anywhere b (.token start stop :: .consumed b :: .passed b :: known) (next ()) post)
    (is : ∀ s, now s → atToken s ∧ s.start.offset = start ∧ s.stop.offset = stop := by grind) :
    Builds now b known (advance >>= next) post := by
  have token : Builds now b [] advance fun _ => [.token start stop, .consumed b, .passed b] := by
    intro text base s sound here reached holds
    obtain ⟨proper, rfl, rfl⟩ := is _ here
    have extent := sound.stands.proper proper
    refine ⟨trivial, sound.advance, sound.leads_advance, ?_⟩
    simp only [List.forall_mem_cons, Fact.Holds]
    exact ⟨⟨extent, Nat.le_refl _⟩, Nat.lt_of_le_of_lt reached extent,
      sound.hasPassed_advance reached proper, by simp⟩
  exact token.bindWith (fun _ is => is) (gives_nil b known) fun _ => h

theorem outcome_optional (k : Kind) {s : State} (sound : s.layout.Sound text base) :
    Outcome text base s (optional k) fun _ => [] := by
  have looks : Outcome text base s (isAt k) fun _ => [] := Still.outcome sound
  refine looks.bind ?_
  change Outcome text base s (if (s.scanner.kind == k) = true then
    advance >>= fun _ => pure true else pure false) fun _ => []
  split
  · exact ⟨⟨trivial, trivial⟩, sound.advance, sound.leads_advance, by simp⟩
  · exact Still.outcome sound

theorem run_optional (k : Kind) (s : State) :
    (optional k).run s = if s.scanner.kind == k then (true, s.advance) else (false, s) := by
  change Parse.run (if (s.scanner.kind == k) = true then
    advance >>= fun _ => pure true else pure false) s = _
  split <;> rfl

theorem run_expect (k : Kind) (s : State) : (expect k).run s =
    if s.scanner.kind == k then (true, s.advance)
    else (false, s.reportHere (.tokenExpected k.spelling)) := by
  change Parse.run (if (s.scanner.kind == k) = true then
    advance >>= fun _ => pure true else reportHere _ >>= fun _ => pure false) s = _
  split <;> rfl

/-- Consumes a token if it is the wanted one; where it is not, the state is as it was. -/
theorem Builds.optional {k : Kind} {next : Bool → Parse β}
    (yes : Builds anywhere b (.passed b :: known) (next true) post)
    (no : Builds (fun s => now s ∧ (s.kind == k) = false) b known (next false) post)
    (proper : k ≠ .endOfFile := by simp) : Builds now b known (optional k >>= next) post := by
  intro text base s sound is reached holds
  have first := outcome_optional k sound
  refine first.bind ?_
  rw [run_optional]
  split
  · rename_i at_
    obtain rfl := eq_of_beq at_
    have passed := sound.hasPassed_advance reached proper
    refine yes sound.advance trivial (Nat.le_trans reached sound.leads_advance.here_le) ?_
    simp only [List.forall_mem_cons]
    exact ⟨passed, fun f mem => (holds f mem).leads sound.leads_advance⟩
  · rename_i other
    exact no sound ⟨is, Bool.eq_false_iff.mpr other⟩ reached holds

theorem Builds.ifOptional {k : Kind} {p q : Parse β}
    (yes : Builds anywhere b (.passed b :: known) p post)
    (no : Builds (fun s => now s ∧ (s.kind == k) = false) b known q post)
    (proper : k ≠ .endOfFile := by simp) :
    Builds now b known (Grammar.optional k >>= fun is => if is = true then p else q) post :=
  .optional (by rwa [if_pos rfl]) (by rwa [if_neg Bool.false_ne_true]) proper

instance (k : Kind) : Peeks (optional k) := by
  unfold Grammar.optional
  infer_instance

instance (m : Punctuator) : Peeks (optionalMark m) := inferInstanceAs (Peeks (optional _))

instance (k : Kind) : Skips (optional k) := ⟨fun _ _ _ sound _ _ _ => outcome_optional k sound⟩

instance (m : Punctuator) : Skips (optionalMark m) := inferInstanceAs (Skips (optional _))

instance (w : Keyword) : Skips (optionalWord w) := inferInstanceAs (Skips (optional _))

theorem builds_expect {k : Kind} (proper : k ≠ .endOfFile) :
    Builds anywhere b [] (expect k) fun _ => [.passed b] := by
  refine .test (.consume .pure) ?_
  exact .pass fun _ => .pure

instance (m : Punctuator) : Passes (expectMark m) := ⟨fun _ => builds_expect (by simp)⟩

instance (w : Keyword) : Passes (expectWord w) := ⟨fun _ => builds_expect (by simp)⟩

instance {p : Parse α} [h : Skips p] : Skips (discard p) := ⟨h.builds.discard⟩

instance {p : Parse α} [h : Passes p] : Passes (discard p) := ⟨fun b => (h.builds b).discard⟩

instance {p : Parse α} {next : α → Parse β} [h : Skips p] [h' : ∀ a, Skips (next a)] :
    Skips (p >>= next) :=
  ⟨.skip fun a => (h' a).builds⟩

instance {c : Prop} [Decidable c] {p q : Parse α} [h : Skips p] [h' : Skips q] :
    Skips (if c then p else q) :=
  ⟨.ite (fun _ => h.builds) fun _ => h'.builds⟩

instance {p q : Parse Bool} [h : Skips p] [h' : Skips q] : Skips (p <&&> q) := by
  have rest (b : Bool) : Skips (match toBool b with | true => q | false => pure b) := by
    split <;> infer_instance
  exact inferInstanceAs (Skips (p >>= _))

instance {p q : Parse Bool} [h : Skips p] [h' : Skips q] : Skips (p <||> q) := by
  have rest (b : Bool) : Skips (match toBool b with | true => pure b | false => q) := by
    split <;> infer_instance
  exact inferInstanceAs (Skips (p >>= _))

theorem Builds.skipIf {c : Prop} [Decidable c] {p : Parse γ} {q : Parse β}
    (h : Builds anywhere b known q post) (skips : Skips p := by infer_instance) :
    Builds now b known (if c then p >>= fun _ => q else q) post :=
  .ite (fun _ => .skip fun _ => h) fun _ =>
    h.weaken (fun _ _ => trivial) (Nat.le_refl b) (.refl b known) fun _ => .refl b _

theorem Builds.skipUnless {c : Prop} [Decidable c] {p : Parse γ} {q : Parse β}
    (h : Builds anywhere b known q post) (skips : Skips p := by infer_instance) :
    Builds now b known (if c then q else p >>= fun _ => q) post :=
  .ite (fun _ => h.weaken (fun _ _ => trivial) (Nat.le_refl b) (.refl b known) fun _ => .refl b _)
    fun _ => .skip fun _ => h

theorem Skips.bind {p : Parse α} {next : α → Parse β} [Skips p] (h : ∀ a, Skips (next a)) :
    Skips (p >>= next) :=
  inferInstance

instance : Skips semicolon := by
  unfold semicolon
  infer_instance

end LoopCapture.Grammar.Parse
