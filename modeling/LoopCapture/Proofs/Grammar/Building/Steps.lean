import LoopCapture.Proofs.Grammar.Building.Nodes

/-!
# Steps around steps, and loops

A construct in another context, one level deeper or tried out comes out as it does by itself. What
each round of a loop keeps, the loop keeps.
-/

namespace LoopCapture.Grammar.Parse
open Text (Offset)
open Token (Kind Keyword Punctuator Scanner)
open Syntax (Child NodeId Shape)

variable {α β γ : Type} {text : List Char} {base : Nat} {now now' : Scanner → Prop} {b : Offset}
  {known given : List Fact} {mid : α → List Fact} {post : β → List Fact}

theorem Builds.within {p : Parse β} {change : Context → Context} (h : Builds now b known p post) :
    Builds now b known (within change p) post := by
  intro text base s sound is reached holds
  have inner : Outcome text base { s with context := change s.context } p post :=
    h sound is reached holds
  exact ⟨inner.transacts, inner.sound, inner.leads, inner.holds⟩

theorem Builds.labelled {label : Label β} {p : Parse β} (h : Builds now b known p post) :
    Builds now b known (labelled label p) post := by
  intro text base s sound is reached holds
  have inner : Outcome text base s p post := h sound is reached holds
  exact ⟨inner.transacts, inner.sound, inner.leads, inner.holds⟩

/-- A construct that is given up results in nothing. -/
theorem outcome_giveUp {s : State} (sound : s.layout.Sound text base) :
    s.giveUp.layout.Sound text base ∧ s.layout.Leads base s.giveUp.layout := by
  unfold State.giveUp
  split
  · have report : Outcome text base s (reportHere .expressionExpected) fun _ => [.passed 0] :=
      Passes.builds 0 sound trivial (Nat.zero_le _) (by simp)
    exact ⟨report.sound, report.leads⟩
  · exact ⟨sound, .refl base _⟩

theorem Builds.guarded {p : Parse Child} {post : Child → List Fact} (h : Builds now b known p post)
    (gives : Gives b known (post none)) : Builds now b known (guarded p) post := by
  intro text base s sound is reached holds
  by_cases free : s.depth < depthLimit
  · have inner : Outcome text base { s with depth := s.depth + 1 } p post :=
      h sound is reached holds
    have run : (Grammar.guarded p).run s = ((p.run { s with depth := s.depth + 1 }).1,
        { (p.run { s with depth := s.depth + 1 }).2 with
          depth := (p.run { s with depth := s.depth + 1 }).2.depth - 1 }) := by
      simp [Parse.run, free]
    refine ⟨fun _ => inner.transacts, ?_, ?_, ?_⟩
    · rw [run]
      exact inner.sound
    · rw [run]
      exact inner.leads
    · rw [run]
      exact inner.holds
  · obtain ⟨sound', leads⟩ := outcome_giveUp sound
    have run : (Grammar.guarded p).run s = (none, s.giveUp) := by simp [Parse.run, free]
    refine ⟨fun lt => absurd lt free, ?_, ?_, ?_⟩
    · rwa [run]
    · rwa [run]
    · rw [run]
      exact fun f mem => (gives sound reached holds f mem).leads leads

theorem shrink_eq_of_older {t t' : Syntax.NodeTable} (older : ∀ id < t.size, t'[id]? = t[id]?) :
    t'.shrink t.size = t := by
  refine Array.ext_getElem? fun id => ?_
  rw [Array.shrink_eq_take]
  grind

/-- An attempt that fails leaves behind what was there: all that was run was added since. -/
theorem rewind_of_leads {s after : State} (leads : s.layout.Leads s.nodes.size after.layout) :
    after.rewind s.mark = s := by
  obtain ⟨more, errors⟩ := leads.errors
  obtain ⟨others, tokenErrors⟩ := leads.tokenErrors
  have scanner : after.scanner.rewind s.scanner = s.scanner :=
    Scanner.rewind_of_append tokenErrors
  have nodes : after.nodes.shrink s.nodes.size = s.nodes := shrink_eq_of_older leads.older
  have errors : after.errors.shrink s.errors.size = s.errors := by
    rw [show after.errors = s.errors ++ more from errors]
    simp
  have size : after.size = s.size := leads.size_eq
  simp only [State.rewind, State.mark, State.rewindToken, scanner, nodes, errors, size]

/-- An attempt does what its step does, or nothing. Nodes that are there already do not change in
either case, so within it nothing may be known of them. -/
theorem Builds.attempt {p : Parse (Option α)} {post : Option α → List Fact}
    (h : Builds now b [] p post) (nothing : post none = []) :
    Builds now b [] (attempt p) post := by
  intro text base s sound is reached holds
  have inner := h sound.now is reached (by simp)
  have fails : (p.run s).2.rewind s.mark = s := rewind_of_leads inner.leads
  by_cases kept : (p.run s).1.isSome ∧ (p.run s).2.errorCount = s.errorCount
  · have run : (Grammar.attempt p).run s = p.run s := by
      simp only [Parse.run, State.mark, kept, and_self, if_true]
    have succeeds : (p.run s).1 ≠ none := Option.isSome_iff_ne_none.mp kept.1
    refine ⟨⟨inner.transacts, ?_⟩, ?_, ?_, ?_⟩
    · rw [run]
      exact fun none => absurd none succeeds
    · rw [run]
      exact sound.earlier inner.leads inner.sound
    · rw [run]
      exact inner.leads.lower sound.base_le
    · rw [run]
      exact fun f mem => (inner.holds f mem).earlier sound.base_le
  · have run : (Grammar.attempt p).run s = (none, s) := by
      have refused : ¬ ((p.run s).1.isSome ∧ (p.run s).2.errorCount = s.mark.errorCount) := kept
      simp only [Parse.run, if_neg refused, fails]
    refine ⟨⟨inner.transacts, ?_⟩, ?_, ?_, ?_⟩
    · rw [run]
      exact fun _ => rfl
    · rwa [run]
    · rw [run]
      exact .refl base _
    · simp [run, nothing]

section Around

variable [Carries α]

instance {p : Parse α} {change : Context → Context} [h : Yields p now] :
    Yields (within change p) now :=
  ⟨fun b => (h.builds b).within⟩

instance {p : Parse α} {change : Context → Context} [h : YieldsPast p now] :
    YieldsPast (within change p) now :=
  ⟨fun b => (h.builds b).within⟩

instance {p : Parse α} [Yields p now] : Yields (allowIn p) now :=
  inferInstanceAs (Yields (within _ _) now)

instance {p : Parse α} [YieldsPast p now] : YieldsPast (allowIn p) now :=
  inferInstanceAs (YieldsPast (within _ _) now)

instance {p : Parse α} [Yields p now] : Yields (disallowIn p) now :=
  inferInstanceAs (Yields (within _ _) now)

instance {p : Parse α} [YieldsPast p now] : YieldsPast (disallowIn p) now :=
  inferInstanceAs (YieldsPast (within _ _) now)

theorem Yields.labelled {label : Label α} {p : Parse α} (h : Yields p now) :
    Yields (labelled label p) now :=
  ⟨fun b => (h.builds b).labelled⟩

instance {label : Label α} {p : Parse α} [h : Yields p now] : Yields (labelled label p) now :=
  h.labelled

instance {p : Parse Child} [h : Yields p now] : Yields (guarded p) now :=
  ⟨fun b => (h.builds b).guarded (by simp [Gives])⟩

theorem Yields.attempt {p : Parse (Option α)} (h : Yields p now) : Yields (attempt p) now where
  builds b := by
    have nothing : Builds now b [] p fun a => a.elim [] fun a => [.placed b (carried a)] :=
      (h.builds b).promise fun a => by cases a <;> simp +contextual [Gives]
    exact (nothing.attempt rfl).promise fun a => by cases a <;> simp +contextual [Gives]

instance {p : Parse (Option α)} [Yields p now] : Yields (attempt p) now := .attempt inferInstance

end Around

theorem builds_repeatUpTo {inv : α → List Fact} {step : α → Parse (Round α)}
    (h : ∀ a, Builds anywhere b (inv a) (step a) fun | .again a | .done a => inv a) (n : Nat)
    (a : α) : Builds anywhere b (inv a) (repeatUpTo step n a) inv := by
  induction n generalizing a with
  | zero => exact .labelled (.pure (.refl b _))
  | succ n ih =>
    refine (h a).labelled.bindWith (fun _ is => is) (.refl b _) fun round => ?_
    cases round with
    | again a' =>
      exact (ih a').weaken (fun _ is => is) (Nat.le_refl b) (gives_left b _ _) fun _ => .refl b _
    | done a' => exact .pure (gives_left b _ _)

/-- What each round keeps, the whole loop keeps. -/
theorem builds_iterate (inv : α → List Fact) {step : α → Parse (Round α)}
    (h : ∀ a, Builds anywhere b (inv a) (step a) fun | .again a | .done a => inv a) (a : α) :
    Builds anywhere b (inv a) (iterate a step) inv := by
  refine .look fun s => ?_
  exact (builds_repeatUpTo h _ a).weaken (fun _ _ => trivial) (Nat.le_refl b) (.refl b _)
    fun _ => .refl b _

theorem Skips.iterate {step : α → Parse (Round α)} (h : ∀ a, Skips (step a)) (a : α) :
    Skips (iterate a step) where
  builds := builds_iterate (fun _ => []) (fun a => (h a).builds.promise fun r => by
    cases r <;> exact .refl 0 []) a

instance {step : α → Parse (Round α)} [h : ∀ a, Skips (step a)] (a : α) : Skips (iterate a step) :=
  .iterate h a

theorem peeks_repeatUpTo {step : α → Parse (Round α)} (h : ∀ a, Peeks (step a)) (n : Nat) (a : α) :
    Peeks (repeatUpTo step n a) := by
  induction n generalizing a with
  | zero => exact inferInstanceAs (Peeks (labelled _ (pure a)))
  | succ n ih =>
    refine .bind fun round => ?_
    cases round with
    | again a' => exact ih a'
    | done a' => exact inferInstanceAs (Peeks (pure a'))

instance {step : α → Parse (Round α)} [h : ∀ a, Peeks (step a)] (a : α) : Peeks (iterate a step) :=
  .bind fun _ => peeks_repeatUpTo h _ a

theorem Yields.iterate [Carries α] {step : α → Parse (Round α)} (h : ∀ b a,
      Builds anywhere b [.placed b (carried a)] (step a) fun r => [.placed b (carried r)])
    (a : α) (empty : carried a = [] := by rfl) : Yields (iterate a step) anywhere where
  builds b := by
    have loop : Builds anywhere b [.placed b (carried a)] (Grammar.iterate a step) fun a =>
        [.placed b (carried a)] := by
      refine builds_iterate (fun a => [.placed b (carried a)]) (fun a => ?_) a
      exact (h b a).promise fun r => by cases r <;> exact .refl b _
    exact loop.weaken (fun _ is => is) (Nat.le_refl b) (by simp [Gives, empty]) fun _ => .refl b _

theorem Builds.collect [Carries α] {step : α → Parse (Round α)} {a : α} {next : α → Parse β}
    (h : ∀ b a, Builds anywhere b [.placed b (carried a)] (step a) fun r =>
      [.placed b (carried r)])
    (h' : ∀ a, Builds anywhere b
      (.placed b (carried a) :: .apart (placedIn known) (carried a) :: known) (next a) post)
    (empty : carried a = [] := by rfl) :
    Builds now b known (Grammar.iterate a step >>= next) post :=
  haveI : Yields (Grammar.iterate a step) anywhere := .iterate h a empty
  .part h'

theorem Builds.iterate [Carries α] {step : α → Parse (Round α)} {a : α}
    (h : ∀ a, Builds anywhere b [.placed b (carried a), .passed b] (step a) fun r =>
      [.placed b (carried r), .passed b])
    (gives : Gives b known [.placed b (carried a), .passed b] := by simp +contextual [Gives]) :
    Builds now b known (Grammar.iterate a step) fun a => [.placed b (carried a), .passed b] := by
  have loop : Builds anywhere b [.placed b (carried a), .passed b] (Grammar.iterate a step) fun a =>
      [.placed b (carried a), .passed b] := by
    refine builds_iterate (fun a => [.placed b (carried a), .passed b]) (fun a => ?_) a
    exact (h a).promise fun r => by cases r <;> exact .refl b _
  exact loop.weaken (fun _ _ => trivial) (Nat.le_refl b) gives fun _ => .refl b _

instance {close : Kind} {item : Parse Child} [Yields item anywhere] :
    Yields (commaList close item) anywhere where
  builds b := by
    refine .collect (fun b items => ?_) fun items => .pure
    refine .test .pure (.option .pure fun node => ?_)
    exact .ifOptional .pure .pure

instance {separator : Punctuator} {item : Parse Child} [Yields item anywhere] :
    Yields (separated (.punctuator separator) item) anywhere where
  builds b := by
    refine .collect (fun b items => ?_) fun items => .pure
    exact .option .pure fun node => .ifOptional .pure .pure

/-- What each item of a list needs may be known of all of them. -/
theorem builds_forM {items : List α} {step : α → Parse Unit}
    (h : ∀ a ∈ items, Builds anywhere b known (step a) fun _ => []) :
    Builds anywhere b known (items.forM step) fun _ => [] := by
  induction items with
  | nil => exact .pure
  | cons a rest ih =>
    rw [List.forall_mem_cons] at h
    exact h.1.bindWith (fun _ is => is) (.refl b known) fun _ => ih h.2

end LoopCapture.Grammar.Parse
