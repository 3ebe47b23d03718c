import LoopCapture.Proofs.Grammar.Building.Tokens

/-!
# Parts and nodes

A construct knows where the nodes of its parts start, and puts a new node around them. A node may be
given another shape as long as it was made after the chosen moment.
-/

namespace LoopCapture.Grammar.Parse
open Text (Offset)
open Token (Kind Keyword Punctuator Scanner)
open Syntax (Child Node NodeId NodeTable Shape)

variable {α β γ : Type} {text : List Char} {base : Nat} {now now' : Scanner → Prop} {b : Offset}
  {known given : List Fact} {mid : α → List Fact} {post : β → List Fact}

/-- What a step results in stands after all that was made before. -/
theorem apart_of_yields [Carries α] (p : Parse α) [h : Yields p now'] {s : State}
    (sound : s.layout.Sound text base) (is : now' s.scanner)
    (holds : ∀ f ∈ known, f.Holds base s.layout) :
    (p.run s).2.layout.nodes.Apart (placedIn known) (carried (p.run s).1) := by
  have outcome := h.builds s.layout.here sound is (Nat.le_refl _) (by simp)
  have made : s.layout.EndsAll s.layout.here (placedIn known) :=
    sound.endsAll (placesAll_placedIn holds)
  exact (made.leads outcome.leads).apart (outcome.holds _ List.mem_cons_self).1

theorem Builds.ofPlaced {p : Parse β} {post : β → List Fact} {node : NodeId}
    (h : Builds now b (.passed b :: .placed b [node] :: known) p post) :
    Builds now b (.placed b [node] :: known) p post := by
  intro text base s sound is reached holds
  have all : s.layout.PlacesAll base b [node] := (holds _ List.mem_cons_self).1
  have placed := all node (List.mem_singleton_self node)
  exact h sound is reached (List.forall_mem_cons.mpr ⟨sound.hasPassed placed, holds⟩)

section Parts

variable [Carries α]

instance {p : Parse α} [h : YieldsPast p now] : Yields p now := ⟨fun b => (h.builds b).promise⟩

/-- A part, whose nodes start where it starts or later and stand after what was made before. -/
theorem Builds.part {p : Parse α} [h : Yields p now'] {next : α → Parse γ} {post : γ → List Fact}
    (h' : ∀ a, Builds anywhere b
      (.placed b (carried a) :: .apart (placedIn known) (carried a) :: known) (next a) post)
    (suits : ∀ s, now s → now' s := by
      first | exact fun _ _ => trivial | grind) : Builds now b known (p >>= next) post := by
  intro text base s sound is reached holds
  have first := h.builds b sound (suits _ is) reached (by simp)
  have apart := apart_of_yields p sound (suits _ is) holds
  refine first.bind (h' _ first.sound trivial (Nat.le_trans reached first.leads.here_le) ?_)
  simp only [List.forall_mem_cons]
  exact ⟨first.holds _ List.mem_cons_self, apart, fun f mem => (holds f mem).leads first.leads⟩

/-- A part that consumes a token or reports an error. -/
theorem Builds.past {p : Parse α} [h : YieldsPast p now'] {next : α → Parse γ}
    {post : γ → List Fact}
    (h' : ∀ a, Builds anywhere b
      (.placed b (carried a) :: .apart (placedIn known) (carried a) :: .passed b :: known)
      (next a) post)
    (suits : ∀ s, now s → now' s := by
      first | exact fun _ _ => trivial | grind) : Builds now b known (p >>= next) post := by
  intro text base s sound is reached holds
  have first := h.builds b sound (suits _ is) reached (by simp)
  have apart := apart_of_yields p sound (suits _ is) holds
  have made := List.forall_mem_cons.mp first.holds
  refine first.bind (h' _ first.sound trivial (Nat.le_trans reached first.leads.here_le) ?_)
  simp only [List.forall_mem_cons]
  exact ⟨made.1, apart, made.2 _ List.mem_cons_self,
    fun f mem => (holds f mem).leads first.leads⟩

theorem Builds.last {p : Parse α} [h : Yields p now'] (suits : ∀ s, now s → now' s := by
      first | exact fun _ _ => trivial | grind) :
    Builds now b known p fun a => [.placed b (carried a)] :=
  (h.builds b).weaken suits (Nat.le_refl b) (gives_nil b known) fun _ => .refl b _

theorem Builds.lastPast {p : Parse α} [h : YieldsPast p now']
    (suits : ∀ s, now s → now' s := by
      first | exact fun _ _ => trivial | grind) :
    Builds now b known p fun a => [.placed b (carried a), .passed b] :=
  (h.builds b).weaken suits (Nat.le_refl b) (gives_nil b known) fun _ => .refl b _

instance (priority := low) {p : Parse α} [h : Yields p anywhere] : Skips p :=
  ⟨(h.builds 0).promise fun _ => gives_nil 0 _⟩

theorem gives_lower {start : Offset} (le : b ≤ start) (nodes : List NodeId) :
    Gives start [.placed start nodes, .passed start] [.placed b nodes, .passed b] := by
  intro text base l sound reached holds
  simp only [List.forall_mem_cons, Fact.Holds] at holds ⊢
  exact ⟨⟨holds.1.1.lower le, holds.1.2⟩, holds.2.1.lower le, by simp⟩

theorem gives_lower_placed {start : Offset} (le : b ≤ start) (nodes : List NodeId) :
    Gives start [.placed start nodes] [.placed b nodes] := by
  intro text base l sound reached holds
  simp only [List.forall_mem_cons, Fact.Holds] at holds ⊢
  exact ⟨⟨holds.1.1.lower le, holds.1.2⟩, by simp⟩

/-- From here on, what starts at the current token or later. -/
theorem Builds.here {next : Offset → Parse γ} {post : γ → List Fact} (h : ∀ start, b ≤ start →
      Builds (fun s => now s ∧ s.start.offset = start) start known (next start) post) :
    Builds now b known (here >>= next) post := by
  intro text base s sound is reached holds
  have looks : Outcome text base s Grammar.here fun _ => [] := Still.outcome sound
  exact looks.bind (h s.layout.here reached sound ⟨is, rfl⟩ (Nat.le_refl _) holds)

theorem Builds.hereAfter {next : Offset → Parse γ} {post : γ → List Fact} (h : ∀ start, b ≤ start →
      Builds (fun s => now s ∧ s.start.offset = start) start
        (.ended start (placedIn known) :: known) (next start) post) :
    Builds now b known (Grammar.here >>= next) post := by
  intro text base s sound is reached holds
  have looks : Outcome text base s Grammar.here fun _ => [] := Still.outcome sound
  refine looks.bind (h s.layout.here reached sound ⟨is, rfl⟩ (Nat.le_refl _) ?_)
  exact List.forall_mem_cons.mpr ⟨sound.endsAll (placesAll_placedIn holds), holds⟩

theorem Builds.start {next : Offset → Parse α} (h : ∀ start,
      Builds (fun s => now s ∧ s.start.offset = start) start known (next start)
        fun a => [.placed start (carried a)]) :
    Builds now b known (Grammar.here >>= next) fun a => [.placed b (carried a)] :=
  .here fun start le => (h start).weaken (fun _ is => is) (Nat.le_refl start) (.refl start known)
    fun _ => gives_lower_placed le _

theorem Builds.startPast {next : Offset → Parse α} (h : ∀ start,
      Builds (fun s => now s ∧ s.start.offset = start) start known (next start)
        fun a => [.placed start (carried a), .passed start]) :
    Builds now b known (Grammar.here >>= next) fun a => [.placed b (carried a), .passed b] :=
  .here fun start le => (h start).weaken (fun _ is => is) (Nat.le_refl start) (.refl start known)
    fun _ => gives_lower le _

theorem Yields.start {next : Offset → Parse α} (h : ∀ start,
      Builds (fun s => now s ∧ s.start.offset = start) start [] (next start)
        fun a => [.placed start (carried a)]) : Yields (here >>= next) now :=
  ⟨fun _ => .start h⟩

theorem YieldsPast.start {next : Offset → Parse α} (h : ∀ start,
      Builds (fun s => now s ∧ s.start.offset = start) start [] (next start)
        fun a => [.placed start (carried a), .passed start]) : YieldsPast (here >>= next) now :=
  ⟨fun _ => .startPast h⟩

theorem Builds.opened {start : Offset} {p : Parse α}
    (h : Builds now start known p fun a => [.placed start (carried a)])
    (gives : Gives b known [.opened b start] := by simp +contextual [Gives]) :
    Builds now b known p fun a => [.placed b (carried a)] := by
  intro text base s sound is reached holds
  have opened := gives sound reached holds
  simp only [List.mem_singleton, forall_eq, Fact.Holds] at opened
  exact (h.weaken (fun _ is => is) (Nat.le_refl start) (.refl start known)
    fun _ => gives_lower_placed opened.1 _) sound is opened.2 holds

instance {p : Parse α} [h : Yields p now] : Yields (some <$> p) now :=
  ⟨fun b => (h.builds b).map⟩

instance {p : Parse NodeId} [Yields p now] : Yields (p >>= fun node => pure (some node)) now :=
  ⟨fun _ => .part fun _ => .pure⟩

instance : Yields (pure none : Parse (Option α)) anywhere := ⟨fun _ => .pure⟩

instance : Yields (pure [] : Parse (List α)) anywhere := ⟨fun _ => .pure⟩

theorem Builds.bindIf {test : Parse Bool} {tells : Bool → Scanner → Prop} [Tells test tells]
    {now'' : Scanner → Prop} {p q : Parse α} [Yields p now'] [Yields q now''] {next : α → Parse β}
    (after : ∀ a, Builds anywhere b
      (.placed b (carried a) :: .apart (placedIn known) (carried a) :: known) (next a) post)
    (suits : ∀ s, now s → tells true s → now' s := by
      first | exact fun _ _ _ => trivial | grind)
    (suits' : ∀ s, now s → tells false s → now'' s := by
      first | exact fun _ _ _ => trivial | grind) :
    Builds now b known (test >>= fun is => if is = true then p >>= next else q >>= next) post :=
  .test (.part after fun s is => suits s is.1 is.2) (.part after fun s is => suits' s is.1 is.2)

theorem Builds.bindIte {c : Prop} [Decidable c] {p q : Parse α} [Yields p anywhere]
    [Yields q anywhere] {next : α → Parse β}
    (after : ∀ a, Builds anywhere b
      (.placed b (carried a) :: .apart (placedIn known) (carried a) :: known) (next a) post) :
    Builds now b known (if c then p >>= next else q >>= next) post :=
  .ite (fun _ => .part after) fun _ => .part after

/-- One of two parts, the first of them after a token that only it begins with. -/
theorem Builds.bindIfOptional {k : Kind} {p q : Parse α} [Yields p anywhere] [Yields q anywhere]
    {next : α → Parse β}
    (after : ∀ a, Builds anywhere b
      (.placed b (carried a) :: .apart (placedIn known) (carried a) :: known) (next a) post)
    (proper : k ≠ .endOfFile := by simp) :
    Builds now b known
      (Grammar.optional k >>= fun is => if is = true then p >>= next else q >>= next)
      post := by
  refine .ifOptional (.part fun a => ?_) (.part after) proper
  exact (after a).weaken (fun _ is => is) (Nat.le_refl b) (by simp +contextual [Gives])
    fun _ => .refl b _

end Parts

/-- A part that may be missing. Where it is not, it starts with a token. -/
theorem Builds.option {p : Parse Child} [Yields p now'] {next : Child → Parse γ}
    {post : γ → List Fact} (missing : Builds anywhere b known (next none) post)
    (found : ∀ node, Builds anywhere b
      (.passed b :: .placed b [node] :: .apart (placedIn known) [node] :: known)
      (next (some node)) post)
    (suits : ∀ s, now s → now' s := by
      first | exact fun _ _ => trivial | grind) : Builds now b known (p >>= next) post := by
  refine .part (fun a => ?_) suits
  cases a with
  | none => exact missing.forget.forget
  | some node => exact (found node).ofPlaced

theorem Builds.partGiven {p : Parse α} {next : α → Parse β} (h : Builds now' b given p mid)
    (h' : ∀ a, Builds anywhere b (mid a ++ known) (next a) post)
    (gives : Gives b known given := by simp +contextual [Gives])
    (suits : ∀ s, now s → now' s := by
      first | exact fun _ _ => trivial | grind) :
    Builds now b known (p >>= next) post :=
  h.bindWith suits gives h'

theorem Builds.lastGiven {p : Parse β} {post' : β → List Fact} (h : Builds now' b given p post')
    (gives : Gives b known given := by simp +contextual [Gives])
    (suits : ∀ s, now s → now' s := by
      first | exact fun _ _ => trivial | grind)
    (promise : ∀ a, Gives b (post' a) (post a) := by simp +contextual [Gives]) :
    Builds now b known p post :=
  h.weaken suits (Nat.le_refl b) gives promise

/-- Back to the place where the construct started, with what is needed there. -/
theorem Builds.back {start : Offset} (le : start ≤ b) (facts : List Fact) {p : Parse β}
    (h : Builds now start facts p post)
    (gives : Gives b known facts := by
      simp only [Gives, List.cons_append, List.nil_append, List.forall_mem_cons, Fact.Holds,
        placedIn]
      grind [Layout.PlacesAll.lower, Layout.HasPassed.lower, Layout.EndsAll.apart]) :
    Builds now b known p post :=
  h.weaken (fun _ is => is) le gives fun _ => .refl start _

theorem Outcome.addNode {s : State} {start stop : Offset} {shape : Shape}
    (sound : s.layout.Sound text base)
    (precedes : (Syntax.Node.mk start stop shape).Precedes s.layout.here s.layout.lastEnd)
    (nests : ∀ child ∈ shape.children, s.layout.Places base start child ∧ s.layout.lastEnd ≤ stop)
    (proper : s.layout.IsFaulty ∨ start < stop)
    (named : shape.nameText?.isSome = true → start < stop)
    (row : s.layout.nodes.InRow shape.row)
    (loop : s.layout.nodes.OpensLoop ⟨start, stop, shape⟩) :
    Outcome text base s (addNode start stop shape) fun node =>
      [.placed start [node], .passed start] := by
  have after : ((Parse.addNode start stop shape).run s).2.layout =
    s.layout.addNode ⟨start, stop, shape⟩ := rfl
  have added : (s.layout.addNode ⟨start, stop, shape⟩).Sound text base := by
    refine sound.addNode precedes (fun child mem => ?_) proper named row loop
    obtain ⟨⟨above, c, found, le⟩, last⟩ := nests child mem
    refine ⟨above, c, found, le, fun extent => ?_⟩
    have before := sound.precedes c (Array.mem_of_getElem? found)
    exact Nat.le_trans (before.stop_le extent) last
  have placed : (s.layout.addNode ⟨start, stop, shape⟩).Places base start s.nodes.size :=
    ⟨sound.base_le, ⟨start, stop, shape⟩, by simp [Layout.addNode, State.layout], Nat.le_refl _⟩
  refine ⟨trivial, added, Layout.leads_addNode sound.base_le _, ?_⟩
  simp only [List.forall_mem_cons, Fact.Holds]
  exact ⟨⟨Layout.placesAll_cons.mpr ⟨placed, by simp⟩, by simp⟩, added.hasPassed placed, by simp⟩

theorem consumed_of_needs {start : Offset} {shape : Shape} {l : Layout}
    (h : ∀ f ∈ needs start shape, f.Holds base l) (isName : shape.nameText?.isSome = true) :
    start < l.lastEnd := by
  cases shape <;> simp_all [Shape.nameText?]

theorem opensLoop_of_needs {start stop : Offset} {shape : Shape} {l : Layout}
    (h : ∀ f ∈ needs start shape, f.Holds base l) : l.nodes.OpensLoop ⟨start, stop, shape⟩ := by
  intro isLoop child mem
  have placed : l.PlacesAll base (start + 1) shape.children := by
    cases shape <;> first
      | exact h _ List.mem_cons_self
      | exact absurd isLoop Bool.false_ne_true
  obtain ⟨-, c, found, le⟩ := placed child mem
  exact ⟨c, found, le⟩

/-- A node from the place where the construct started to the last token. -/
theorem builds_finish {start : Offset} {shape : Shape} (le : start ≤ b)
    (gives : Gives b known (makes start shape)) :
    Builds now b known (finish start shape) fun node => [.placed start [node], .passed start] := by
  intro text base s sound is reached holds
  have facts := gives sound reached holds
  simp only [makes, List.forall_mem_cons, Fact.Holds] at facts
  obtain ⟨children, row, passed, others⟩ := facts
  have added : Outcome text base s (addNode start (max s.lastEnd start) shape) fun node =>
      [.placed start [node], .passed start] := by
    refine .addNode sound ⟨Nat.le_max_right _ _, Nat.le_trans le reached, fun extent => ?_⟩
      (fun child mem => ⟨children child mem, Nat.le_max_left _ _⟩) (passed.symm.imp_right ?_)
      (fun isName => ?_) row (opensLoop_of_needs others)
    · have extent : start < max s.lastEnd start := extent
      have later : start < s.lastEnd := by grind
      exact Nat.max_le.mpr ⟨Nat.le_refl _, Nat.le_of_lt later⟩
    · exact fun consumed => Nat.lt_of_lt_of_le consumed (Nat.le_max_left _ _)
    · exact Nat.lt_of_lt_of_le (consumed_of_needs others isName) (Nat.le_max_left _ _)
  exact ⟨⟨trivial, trivial⟩, added.sound, added.leads, added.holds⟩

theorem inRow_of_leaf {shape : Shape} {t : NodeTable} (leaf : shape.children = []) :
    t.InRow shape.row := by
  have none : shape.row = [] :=
    List.sublist_nil.mp (leaf ▸ shape.row_sublist_walked.trans shape.walked_sublist_children)
  simp [none]

/-- A node without parts is as good as no loop. -/
theorem opensLoop_of_leaf {start stop : Offset} {shape : Shape} {t : NodeTable}
    (leaf : shape.children = []) : t.OpensLoop ⟨start, stop, shape⟩ := by
  intro isLoop child mem
  rw [leaf] at mem
  cases mem

theorem builds_addToken {start stop : Offset} {shape : Shape} (leaf : shape.children = [])
    (gives : Gives b known [.token start stop]) :
    Builds now b known (addNode start stop shape) fun node =>
      [.placed start [node], .passed start] := by
  intro text base s sound is reached holds
  have facts := gives sound reached holds
  simp only [List.mem_singleton, forall_eq, Fact.Holds] at facts
  have here : start ≤ s.layout.here :=
    Nat.le_trans (Nat.le_of_lt facts.1) (Nat.le_trans facts.2 sound.lastEnd_le)
  exact .addNode sound ⟨Nat.le_of_lt facts.1, here, fun _ => facts.2⟩
    (fun child mem => absurd (leaf ▸ mem) List.not_mem_nil) (.inr facts.1) (fun _ => facts.1)
    (inRow_of_leaf leaf) (opensLoop_of_leaf leaf)

theorem Builds.addToken {start stop : Offset} {shape : Shape} {next : NodeId → Parse β}
    (h : ∀ node, Builds anywhere b (.placed start [node] :: .passed start :: known)
      (next node) post)
    (gives : Gives b known [.token start stop] := by simp +contextual [Gives])
    (leaf : shape.children = [] := by rfl) :
    Builds now b known (addNode start stop shape >>= next) post :=
  (builds_addToken leaf gives).bindWith (fun _ is => is) (.refl b known) h

theorem outcome_addCopy {s : State} {start : Offset} {id : NodeId} {n : Syntax.Node} {shape : Shape}
    (sound : s.layout.Sound text base) (found : s.nodes[id]? = some n) (le : start ≤ n.start)
    (isName : n.shape.nameText?.isSome = true) (leaf : shape.children = []) :
    Outcome text base s (addNode n.start n.stop shape) fun copy =>
      [.opened start n.start, .placed n.start [copy], .passed n.start] := by
  have mem : n ∈ s.layout.nodes := Array.mem_of_getElem? found
  have added : Outcome text base s (addNode n.start n.stop shape) fun copy =>
      [.placed n.start [copy], .passed n.start] :=
    .addNode sound ((sound.precedes n mem).congr rfl)
      (fun child mem => absurd (leaf ▸ mem) List.not_mem_nil)
      (.inr (sound.named n mem isName)) (fun _ => sound.named n mem isName)
      (inRow_of_leaf leaf) (opensLoop_of_leaf leaf)
  have here := Nat.le_trans (sound.precedes n mem).start_le added.leads.here_le
  exact ⟨added.transacts, added.sound, added.leads,
    List.forall_mem_cons.mpr ⟨⟨le, here⟩, added.holds⟩⟩

/-- A new node, and what follows at the place where it starts. -/
theorem Builds.finish {start : Offset} {shape : Shape} {next : NodeId → Parse β}
    (h : ∀ node, Builds anywhere start (.placed start [node] :: .passed start :: known)
      (next node) post)
    (gives : Gives b known (makes start shape) := by
      simp +contextual [Gives, Syntax.Shape.row, Syntax.Shape.walked, toList_eq_carried])
    (le : start ≤ b := by first | exact Nat.le_refl _ | assumption) :
    Builds now b known (Grammar.finish start shape >>= next) post := by
  refine (builds_finish le gives).bindWith (fun _ is => is) (.refl b known) fun node => ?_
  exact (h node).weaken (fun _ is => is) le (.refl b _) fun _ => .refl start _

theorem Builds.finishAs {start : Offset} {shape : Shape}
    (gives : Gives b known (makes start shape) := by
      simp +contextual [Gives, Syntax.Shape.row, Syntax.Shape.walked, toList_eq_carried])
    (le : start ≤ b := by first | exact Nat.le_refl _ | assumption) :
    Builds now b known (Grammar.finish start shape) fun node =>
      [.placed start (carried node), .passed start] :=
  builds_finish le gives

/-- After its first token a construct is past the place where it starts. -/
theorem Builds.beyond (start : Offset) {p : Parse β} (h : Builds anywhere (start + 1) known p post)
    (gives : Gives b known [.consumed start] := by simp +contextual [Gives]) :
    Builds now b known p post := by
  intro text base s sound is reached holds
  have consumed := gives sound reached holds
  simp only [List.mem_singleton, forall_eq, Fact.Holds] at consumed
  exact h sound trivial (Nat.le_trans consumed sound.lastEnd_le) holds

/-- A loop, all of whose parts start after its first token. -/
theorem Builds.finishLoop {start : Offset} {shape : Shape}
    (needed : needs start shape = [.inside (start + 1) shape.children] := by rfl)
    (gives : Gives (start + 1) known
        [.inside (start + 1) shape.children, .row shape.row, .passed start] := by
      simp +contextual [Gives, Syntax.Shape.row, Syntax.Shape.walked, toList_eq_carried]) :
    Builds now (start + 1) known (Grammar.finish start shape) fun node =>
      [.placed start (carried node), .passed start] := by
  refine builds_finish (Nat.le_succ start) fun text base l sound reached holds => ?_
  have facts := gives sound reached holds
  simp only [List.forall_mem_cons, Fact.Holds] at facts
  simp only [makes, needed, List.forall_mem_cons, Fact.Holds]
  exact ⟨facts.1.lower (Nat.le_succ start), facts.2.1, facts.2.2.1, facts.1, by simp⟩

theorem outcome_reshaped {s : State} {p : Parse Unit} {nodes : Syntax.NodeTable}
    (sound : s.layout.Sound text base) (transacts : p.Transacts s)
    (run : (p.run s).2.layout = s.layout.reshaped nodes)
    (reshapes : s.nodes.Reshapes base nodes) : Outcome text base s p fun _ => [] := by
  refine ⟨transacts, ?_, ?_, by simp⟩
  · rw [run]
    exact sound.reshaped reshapes
  · rw [run]
    exact Layout.leads_reshaped reshapes

/-- A literal that becomes a pattern must be among the nodes that may change. -/
theorem builds_becomePattern {node : NodeId} {start : Offset}
    (gives : Gives b known [.placed start [node]]) :
    Builds now b known (Parse.becomePattern node) fun _ => [] := by
  intro text base s sound is reached holds
  have placed := gives sound reached holds
  simp only [List.mem_singleton, forall_eq, Fact.Holds] at placed
  exact outcome_reshaped sound trivial rfl
    (Syntax.NodeTable.reshapes_asPattern (placed.1 node (by simp)).1 sound.closed)

end LoopCapture.Grammar.Parse
