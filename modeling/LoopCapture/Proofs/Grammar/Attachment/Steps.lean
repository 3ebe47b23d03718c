import LoopCapture.Proofs.Grammar.Attachment

/-!
# Steps that lose no node

Steps that only look or move on make no nodes; a new node takes up what was held as its parts; and a
loop loses nothing that a round does not lose.
-/

namespace LoopCapture.Grammar.Parse
open Text (Offset)
open Token (Kind Keyword Punctuator Scanner)
open Syntax (Child NodeId NodeTable Places Role Shape standing)

variable {α β : Type} {ok : β → Prop} {given : Places} {mid : α → Places} {post : β → Places}

/-- A step that gives nodes other shapes at most, with the same places. -/
theorem Idle.of_preserves {p : Parse α}
    (preserves : ∀ s : State, s.nodes.Preserves (p.run s).2.nodes)
    (size : ∀ s : State, (p.run s).2.nodes.size = s.nodes.size) : Idle p where
  settles s _ _ _ := by
    refine ⟨preserves s, fun _ _ _ none => absurd none List.not_mem_nil, fun _ x source => ?_⟩
    grind

theorem Idle.of_nodes {p : Parse α} (same : ∀ s : State, (p.run s).2.nodes = s.nodes) : Idle p :=
  .of_preserves (fun s => same s ▸ .refl _) fun s => by rw [same]

instance {p : Parse α} [h : Peeks p] : Idle p :=
  .of_nodes fun s => by
    obtain ⟨scanner, lastEnd, run, -⟩ := h.run_snd s
    rw [run]

instance (again : Rereading) : Idle (reread again) := .of_nodes fun _ => rfl

instance (fault : Diagnostic.Fault) : Idle (reportHere fault) := .of_nodes fun _ => rfl

instance (node : NodeId) : Idle (Parse.becomePattern node) :=
  .of_preserves (fun s => Syntax.NodeTable.preserves_asPattern node s.nodes)
    fun s => (Syntax.NodeTable.asPattern_same node s.nodes).1

/-- A look ahead is undone, whatever it makes. -/
instance {p : Parse α} : Idle (lookAhead p) where
  settles s transacts _ _ := by
    have same := transacts.2
    refine ⟨?_, fun _ _ _ none => absurd none List.not_mem_nil, fun _ x source => ?_⟩
    · rw [same]
      exact .refl _
    · rw [same] at source
      grind

theorem carried_nodes (nodes : List NodeId) : carried nodes = nodes :=
  List.flatMap_singleton' nodes

theorem toList_eq_carried (child : Child) : Option.toList child = carried child := by
  cases child <;> rfl

theorem mem_carried {child : Child} {node : NodeId} :
    node ∈ carried child ↔ child = some node := by
  cases child <;> simp [carried, eq_comm]

theorem mem_carried_array {nodes : Array NodeId} {node : NodeId} :
    node ∈ carried nodes ↔ node ∈ nodes := by
  simp [carried]

attribute [local simp] carried_nodes toList_eq_carried mem_carried mem_carried_array

theorem Settles.skip {p : Parse α} [h : Idle p] {next : α → Parse β}
    (h' : ∀ a, Settles ok given (next a) post) : Settles ok given (p >>= next) post :=
  h.settles.bindWith given (.refl given) h'

theorem Settles.ite {c : Prop} [Decidable c] {p q : Parse β} (h : c → Settles ok given p post)
    (h' : ¬ c → Settles ok given q post) : Settles ok given (if c then p else q) post := by
  split
  · exact h ‹_›
  · exact h' ‹_›

theorem Settles.test {test : Parse Bool} [Idle test] {p q : Parse β}
    (h : Settles ok given p post) (h' : Settles ok given q post) :
    Settles ok given (test >>= fun is => if is = true then p else q) post :=
  .skip fun _ => .ite (fun _ => h) fun _ => h'

/-- A step that is taken on a condition, and another after it. -/
theorem Settles.skipIf {c : Prop} [Decidable c] {p : Parse α} {q : Parse β}
    (h : Settles ok given q post) (idle : Idle p := by infer_instance) :
    Settles ok given (if c then p >>= fun _ => q else q) post :=
  .ite (fun _ => .skip fun _ => h) fun _ => h

theorem Settles.skipUnless {c : Prop} [Decidable c] {p : Parse α} {q : Parse β}
    (h : Settles ok given q post) (idle : Idle p := by infer_instance) :
    Settles ok given (if c then q else p >>= fun _ => q) post :=
  .ite (fun _ => h) fun _ => .skip fun _ => h

theorem Settles.pure {a : β} (gives : ok a → Rearranges given (post a) := by
      exact fun _ => .of_mem (by simp +contextual [Shape.role, Shape.functionPlaces,
          Shape.signaturePlaces, or_imp, forall_and])
        (by simp +contextual [Shape.role, Shape.functionPlaces, Shape.signaturePlaces, or_imp,
          forall_and])) :
    Settles ok given (pure a) post :=
  fun s _ _ holds => {
    preserves := .refl _
    stands := fun good => (gives good s.nodes holds).1
    settles := fun good x source => by
      obtain ⟨role, mem⟩ | new := source
      · exact .inr (((gives good s.nodes holds).2 x role mem).imp_right .inl)
      · exact absurd new.2 (Nat.not_lt.mpr new.1) }

theorem Settles.pureBind {a : α} {next : α → Parse β} (h : Settles ok given (next a) post) :
    Settles ok given (Pure.pure a >>= next) post := by
  intro s transacts valid holds
  have outcome := h transacts.2 valid holds
  exact ⟨outcome.preserves, outcome.stands, fun good x source =>
    (outcome.settles good x source).imp_left .second⟩

/-- After a report there is nothing to show. -/
theorem Settles.fault {fault : Diagnostic.Fault} {next : Unit → Parse β} :
    Settles ok given (reportHere fault >>= next) post := by
  intro s transacts valid
  exact absurd (errors_eq_empty transacts.2 valid) (errors_reportHere_ne s fault)

instance {p : Parse α} {next : α → Parse β} [Idle p] [h : ∀ a, Idle (next a)] :
    Idle (p >>= next) :=
  ⟨.skip fun a => (h a).settles⟩

instance {c : Prop} [Decidable c] {p q : Parse α} [h : Idle p] [h' : Idle q] :
    Idle (if c then p else q) :=
  ⟨.ite (fun _ => h.settles) fun _ => h'.settles⟩

instance {p q : Parse Bool} [h : Idle p] [h' : Idle q] : Idle (p <&&> q) := by
  have rest (b : Bool) : Idle (match toBool b with | true => q | false => pure b) := by
    split <;> infer_instance
  exact inferInstanceAs (Idle (p >>= _))

instance {p q : Parse Bool} [h : Idle p] [h' : Idle q] : Idle (p <||> q) := by
  have rest (b : Bool) : Idle (match toBool b with | true => pure b | false => q) := by
    split <;> infer_instance
  exact inferInstanceAs (Idle (p >>= _))

theorem Settles.discard {p : Parse α} {held : Places} (h : Settles anyway given p fun _ => held) :
    Settles anyway given (discard p) fun _ => held := by
  intro s transacts valid holds
  have outcome := h transacts.1 valid holds
  exact ⟨outcome.preserves, fun _ => outcome.stands trivial, fun _ x source =>
    (outcome.settles trivial x source).imp_left .first⟩

instance {p : Parse α} [h : Idle p] : Idle (discard p) := ⟨h.settles.discard⟩

instance (w : Keyword) : Peeks (optionalWord w) := inferInstanceAs (Peeks (optional _))

instance (k : Kind) : Idle (expect k) :=
  ⟨.test (.skip fun _ => .pure) .fault⟩

instance (m : Punctuator) : Idle (expectMark m) := inferInstanceAs (Idle (expect _))

instance (w : Keyword) : Idle (expectWord w) := inferInstanceAs (Idle (expect _))

instance : Idle semicolon := by
  unfold semicolon
  infer_instance

theorem Settles.map {p : Parse α} {f : α → β} (h : Settles anyway given p fun a => post (f a)) :
    Settles ok given (f <$> p) post := by
  intro s transacts valid holds
  have outcome := h transacts.1 valid holds
  exact ⟨outcome.preserves, fun _ => outcome.stands trivial, fun _ x source =>
    (outcome.settles trivial x source).imp_left .first⟩

section Parts

variable [Carries α] {role : Role}

theorem Settles.part {p : Parse α} [h : Delivers p role] {next : α → Parse β}
    (h' : ∀ a, Settles ok (standing role (carried a) ++ given) (next a) post) :
    Settles ok given (p >>= next) post :=
  h.settles.bindWith given (.refl given) h'

/-- The last part of a construct, when only names are held. -/
theorem Settles.last {p : Parse β} [Carries β] [h : Delivers p role]
    (gives : Rearranges given [] := by exact .refl [])
    (promise : ∀ b, Rearranges (standing role (carried b)) (post b) := by exact fun _ => .refl _) :
    Settles ok given p post :=
  h.settles.weaken (fun _ _ => trivial) gives fun b _ => promise b

instance {p : Parse NodeId} [h : Delivers p role] : Delivers (some <$> p) role := ⟨.map h.settles⟩

instance {p : Parse NodeId} [Delivers p role] :
    Delivers (p >>= fun node => pure (some node)) role :=
  ⟨.part fun _ => .pure⟩

instance (priority := low) {p : Parse α} [h : Delivers p .name] : Idle p where
  settles := h.settles.weaken (fun _ => id) (.refl []) fun _ _ =>
    .of_mem (by simp) fun _ _ mem => .inl (Syntax.mem_standing.mp mem).2

end Parts

theorem Settles.option {role : Role} {p : Parse Child} [Delivers p role] {next : Child → Parse β}
    (missing : Settles ok given (next none) post)
    (found : ∀ node, Settles ok ((node, role) :: given) (next (some node)) post) :
    Settles ok given (p >>= next) post := by
  refine .part fun a => ?_
  cases a with
  | none => exact missing
  | some node => exact found node

theorem admits_self (role : Role) : role.admits role = true := by
  cases role <;> rfl

theorem settles_addNode {start stop : Offset} {shape : Shape} (rest : Places)
    (known : ∀ x role, (x, role) ∈ rest → (x, role) ∈ given)
    (all : ∀ x role, (x, role) ∈ given →
      role = .name ∨ (x, role) ∈ shape.places ∨ (x, role) ∈ rest) :
    Settles anyway given (addNode start stop shape) fun node => (node, shape.role) :: rest := by
  intro s _ _ holds
  have preserves := Syntax.NodeTable.preserves_push s.nodes ⟨start, stop, shape⟩
  have new : NodeTable.shape? (s.nodes.push ⟨start, stop, shape⟩) s.nodes.size = some shape := by
    simp [NodeTable.shape?]
  refine ⟨preserves, fun _ x role mem => ?_, fun _ x source => .inr ?_⟩
  · obtain same | mem := List.mem_cons.mp mem
    · obtain ⟨rfl, rfl⟩ := Prod.mk.inj same
      exact ⟨shape, new, admits_self _⟩
    · exact (holds x role (known x role mem)).preserved preserves
  · obtain ⟨role, mem⟩ | made := source
    · have stands := (holds x role mem).preserved preserves
      obtain rfl | place | kept := all x role mem
      · exact .inl stands
      · exact .inr (.inr ⟨s.nodes.size, shape, role, new, place, stands⟩)
      · exact .inr (.inl ⟨role, List.mem_cons_of_mem _ kept⟩)
    · have size : ((addNode start stop shape).run s).2.nodes.size = s.nodes.size + 1 := by
        simp [run, State.addNode]
      obtain rfl : x = s.nodes.size := by grind
      exact .inr (.inl ⟨shape.role, List.mem_cons_self⟩)

theorem settles_finish {start : Offset} {shape : Shape} (rest : Places)
    (known : ∀ x role, (x, role) ∈ rest → (x, role) ∈ given)
    (all : ∀ x role, (x, role) ∈ given →
      role = .name ∨ (x, role) ∈ shape.places ∨ (x, role) ∈ rest) :
    Settles anyway given (finish start shape) fun node => (node, shape.role) :: rest := by
  have looks : Idle state := inferInstance
  exact .skip fun s => settles_addNode rest known all

theorem Settles.finish {start : Offset} {shape : Shape} {next : NodeId → Parse β}
    (h : ∀ node, Settles ok [(node, shape.role)] (next node) post)
    (all : ∀ x role, (x, role) ∈ given → role = .name ∨ (x, role) ∈ shape.places := by
      simp +contextual [Shape.places, Shape.functionPlaces, Shape.signaturePlaces,
        Shape.mem_keyPlaces, Shape.slots, Shape.role, or_imp, forall_and]) :
    Settles ok given (finish start shape >>= next) post :=
  (settles_finish [] (by simp) fun x role mem => (all x role mem).imp_right .inl).bind h

theorem Settles.finishBeside {start : Offset} {shape : Shape} {next : NodeId → Parse β}
    (rest : Places) (h : ∀ node, Settles ok ((node, shape.role) :: rest) (next node) post)
    (known : ∀ x role, (x, role) ∈ rest → (x, role) ∈ given := by simp +contextual)
    (all : ∀ x role, (x, role) ∈ given →
        role = .name ∨ (x, role) ∈ shape.places ∨ (x, role) ∈ rest := by
      simp +contextual [Shape.places, Shape.functionPlaces, Shape.signaturePlaces,
        Shape.mem_keyPlaces, Shape.slots, Shape.role, or_imp, forall_and]) :
    Settles ok given (Grammar.finish start shape >>= next) post :=
  (settles_finish rest known all).bind h

theorem Settles.finishAs {start : Offset} {shape : Shape} {post : NodeId → Places}
    {ok : NodeId → Prop}
    (all : ∀ x role, (x, role) ∈ given → role = .name ∨ (x, role) ∈ shape.places := by
      simp +contextual [Shape.places, Shape.functionPlaces, Shape.signaturePlaces,
        Shape.mem_keyPlaces, Shape.slots, Shape.role, or_imp, forall_and])
    (promise : ∀ node, Rearranges [(node, shape.role)] (post node) := by exact fun _ => .refl _) :
    Settles ok given (Grammar.finish start shape) post :=
  (settles_finish [] (by simp) fun x role mem => (all x role mem).imp_right .inl).weaken
    (fun _ _ => trivial) (.refl given) fun node _ => promise node

/-- The nodes of a step that leaves them out need not be held. -/
theorem idle_of_leavesOut {p : Parse α} {mid : α → Places} (out : LeavesOut (discard p))
    (h : Settles anyway [] p mid) : Idle (discard p) where
  settles s transacts valid holds := by
    refine ⟨(h transacts.1 valid holds).preserves, by simp, fun _ x source => ?_⟩
    obtain ⟨role, none⟩ | made := source
    · exact absurd none List.not_mem_nil
    · exact .inl (.here out made.1 made.2)

theorem Settles.within {p : Parse β} {change : Context → Context} (h : Settles ok given p post) :
    Settles ok given (within change p) post := by
  intro s transacts valid holds
  have outcome := h (s := { s with context := change s.context }) transacts valid holds
  exact ⟨outcome.preserves, outcome.stands, fun good x source =>
    (outcome.settles good x source).imp_left .within⟩

theorem Settles.labelled {p : Parse β} {label : Label β} (h : Settles ok given p post) :
    Settles ok given (labelled label p) post := by
  intro s transacts valid holds
  have outcome := h transacts valid holds
  exact ⟨outcome.preserves, outcome.stands, fun good x source =>
    (outcome.settles good x source).imp_left .labelled⟩

theorem Idle.labelled {p : Parse α} {label : Label α} (h : Idle p) : Idle (labelled label p) :=
  ⟨h.settles.labelled⟩

instance {p : Parse α} {label : Label α} [h : Idle p] : Idle (labelled label p) := h.labelled

/-- A construct that is given up results in nothing and makes nothing. -/
theorem Settles.guarded {p : Parse Child} {post : Child → Places} (h : Settles anyway [] p post)
    (nothing : post none = []) : Settles anyway [] (guarded p) post := by
  intro s transacts valid holds
  by_cases free : s.depth < depthLimit
  · have run : (Grammar.guarded p).run s = ((p.run { s with depth := s.depth + 1 }).1,
        { (p.run { s with depth := s.depth + 1 }).2 with
          depth := (p.run { s with depth := s.depth + 1 }).2.depth - 1 }) := by
      simp [Parse.run, free]
    rw [run] at valid
    have outcome := h (s := { s with depth := s.depth + 1 }) (transacts free) valid holds
    refine ⟨?_, ?_, fun _ x source => ?_⟩
    · rw [run]
      exact outcome.preserves
    · rw [run]
      exact outcome.stands
    · rw [run] at source ⊢
      exact (outcome.settles trivial x source).imp_left (.guarded free)
  · have run : (Grammar.guarded p).run s = (none, s.giveUp) := by simp [Parse.run, free]
    have same : s.giveUp.nodes = s.nodes := by
      unfold State.giveUp
      split <;> rfl
    refine ⟨?_, ?_, ?_⟩
    · rw [run, same]
      exact .refl _
    · simp [run, nothing]
    · rw [run, same]
      grind

/-- Where an attempt fails, nothing need be kept. -/
theorem Settles.refuse {post : Option α → Places} :
    Settles (fun a => a.isSome = true) given (Pure.pure none) post :=
  .pure fun some => absurd some (by simp)

/-- An attempt that succeeds does what its step does, and one that fails does nothing. -/
theorem Settles.attempt {p : Parse (Option α)} {post : Option α → Places}
    (h : Settles (fun a => a.isSome = true) [] p post) (nothing : post none = []) :
    Settles anyway [] (attempt p) post := by
  intro s transacts valid holds
  by_cases failed : ((Grammar.attempt p).run s).1 = none
  · have same := transacts.2 failed
    refine ⟨?_, ?_, ?_⟩
    · rw [same]
      exact .refl _
    · simp [failed, nothing]
    · rw [same]
      grind
  · have kept : (p.run s).1.isSome ∧ (p.run s).2.errorCount = s.errorCount := by
      by_contra refused
      have refused : ¬ ((p.run s).1.isSome ∧ (p.run s).2.errorCount = s.mark.errorCount) := refused
      exact failed (by simp only [Parse.run, if_neg refused])
    have run : (Grammar.attempt p).run s = p.run s := by
      simp only [Parse.run, State.mark, kept, and_self, if_true]
    rw [run] at valid
    have outcome := h transacts.1 valid holds
    refine ⟨?_, fun _ => ?_, fun _ x source => ?_⟩
    · rw [run]
      exact outcome.preserves
    · rw [run]
      exact outcome.stands kept.1
    · rw [run] at source ⊢
      exact (outcome.settles kept.1 x source).imp_left (.attempt failed)

section Around

variable [Carries α] {role : Role}

instance {p : Parse α} {change : Context → Context} [h : Delivers p role] :
    Delivers (within change p) role :=
  ⟨h.settles.within⟩

instance {p : Parse α} {label : Label α} [h : Delivers p role] :
    Delivers (labelled label p) role :=
  ⟨h.settles.labelled⟩

instance {p : Parse α} [Delivers p role] : Delivers (allowIn p) role :=
  inferInstanceAs (Delivers (within _ _) role)

instance {p : Parse α} [Delivers p role] : Delivers (disallowIn p) role :=
  inferInstanceAs (Delivers (within _ _) role)

instance {p : Parse Child} [h : Delivers p role] : Delivers (guarded p) role :=
  ⟨h.settles.guarded rfl⟩

end Around

theorem settles_repeatUpTo {inv : α → Places} {step : α → Parse (Round α)}
    (h : ∀ a, Settles anyway (inv a) (step a) fun r => inv r.result) (n : Nat) (a : α) :
    Settles anyway (inv a) (repeatUpTo step n a) inv := by
  induction n generalizing a with
  | zero => exact .labelled (.pure fun _ => .refl _)
  | succ n ih =>
    refine (h a).labelled.bind fun round => ?_
    cases round with
    | again a' => exact ih a'
    | done a' => exact .pure fun _ => .refl _

/-- What each round does not lose, the whole loop does not lose. -/
theorem settles_iterate (inv : α → Places) {step : α → Parse (Round α)}
    (h : ∀ a, Settles anyway (inv a) (step a) fun r => inv r.result) (a : α) :
    Settles anyway (inv a) (iterate a step) inv := by
  have looks : Idle state := inferInstance
  exact .skip fun s => settles_repeatUpTo h _ a

theorem Idle.iterate {step : α → Parse (Round α)} (h : ∀ a, Idle (step a)) (a : α) :
    Idle (iterate a step) :=
  ⟨settles_iterate (fun _ => []) (fun a => (h a).settles) a⟩

theorem Settles.iterate [Carries α] (role : Role) {step : α → Parse (Round α)} {a : α}
    (h : ∀ a, Settles anyway (standing role (carried a)) (step a) fun r =>
      standing role (carried r.result))
    (gives : Rearranges given (standing role (carried a)) := by exact .refl _) :
    Settles anyway given (Grammar.iterate a step) fun a => standing role (carried a) :=
  (settles_iterate (fun a => standing role (carried a)) h a).weaken (fun _ => id) gives
    fun _ _ => .refl _

theorem Settles.collect [Carries α] (role : Role) {step : α → Parse (Round α)} {a : α}
    {next : α → Parse β}
    (h : ∀ a, Settles anyway (standing role (carried a)) (step a) fun r =>
      standing role (carried r.result))
    (h' : ∀ a, Settles ok (standing role (carried a) ++ given) (next a) post)
    (empty : carried a = [] := by rfl) :
    Settles ok given (Grammar.iterate a step >>= next) post := by
  have loop := settles_iterate (fun a => standing role (carried a)) h a
  rw [empty] at loop
  exact loop.bindWith given (.refl given) h'

instance {close : Kind} {item : Parse Child} {role : Role} [Delivers item role] :
    Delivers (commaList close item) role where
  settles := by
    refine .collect role (fun items => ?_) fun items => .pure
    refine .test .pure (.option .pure fun node => ?_)
    exact .test .pure .pure

instance {separator : Kind} {item : Parse Child} {role : Role} [Delivers item role] :
    Delivers (separated separator item) role where
  settles := by
    refine .collect role (fun items => ?_) fun items => .pure
    exact .option .pure fun node => .test .pure .pure

theorem settles_forM {items : List α} {step : α → Parse Unit} (h : ∀ a, Idle (step a)) :
    Settles anyway [] (items.forM step) fun _ => [] := by
  induction items with
  | nil => exact .pure
  | cons a rest ih => exact .skip fun _ => ih

end LoopCapture.Grammar.Parse
