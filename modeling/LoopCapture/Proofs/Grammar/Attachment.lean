import LoopCapture.Grammar.SourceFile
import LoopCapture.Proofs.Grammar.Building.Steps
import LoopCapture.Proofs.Syntax.Places

/-!
# Every node has a place

The rules by which a construct is shown to lose no node: all that it makes or was given it hands on
or puts into a place of another node, where it may stand. Names are not counted. A few steps make
nodes that are left out of the tree; these are told apart by the step that made them. Nothing is
said of texts with errors, so a step that reports one needs no further thought.
-/

namespace LoopCapture.Grammar
open Syntax (Child NodeId NodeTable Places Role Shape standing)

/-- Steps whose nodes are left out of the tree: decorators, the attributes of an import, and the
type arguments after `typeof` and in imported types. -/
inductive LeavesOut : Parse Unit → Prop where
  | decorator (n : Nat) : LeavesOut (discard (parseUpTo n .leftHandSide))
  | attributes (n : Nat) : LeavesOut (discard (primary (parseUpTo n)))
  | typeArguments (n : Nat) : LeavesOut (discard (typeArguments (parseUpTo n)))

/-- The node is made, while the step is run from the state, by one that leaves it out. -/
inductive Parse.LeftOut (x : NodeId) : {α : Type} → Parse α → State → Prop where
  | here {p : Parse Unit} {s : State} :
    LeavesOut p → s.nodes.size ≤ x → x < (p.run s).2.nodes.size → LeftOut x p s
  | first {α β : Type} {p : Parse α} {next : α → Parse β} {s : State} :
    LeftOut x p s → LeftOut x (.andThen p next) s
  | second {α β : Type} {p : Parse α} {next : α → Parse β} {s : State} :
    LeftOut x (next (p.run s).1) (p.run s).2 → LeftOut x (.andThen p next) s
  | within {α : Type} {change : Context → Context} {p : Parse α} {s : State} :
    LeftOut x p { s with context := change s.context } → LeftOut x (within change p) s
  | guarded {p : Parse Child} {s : State} :
    s.depth < depthLimit → LeftOut x p { s with depth := s.depth + 1 } → LeftOut x (guarded p) s
  | attempt {α : Type} {p : Parse (Option α)} {s : State} :
    ((attempt p).run s).1 ≠ none → LeftOut x p s → LeftOut x (attempt p) s
  | labelled {α : Type} {label : Label α} {p : Parse α} {s : State} :
    LeftOut x p s → LeftOut x (labelled label p) s

/-- Who holds the one may hold the other: nodes may stand as what asks for less, and names may be
forgotten. -/
def Rearranges (held held' : Places) : Prop :=
  ∀ t : NodeTable, (∀ x role, (x, role) ∈ held → t.HasRole x role) →
    (∀ x role, (x, role) ∈ held' → t.HasRole x role) ∧
      ∀ x role, (x, role) ∈ held → t.HasRole x .name ∨ ∃ role', (x, role') ∈ held'

theorem Rearranges.of_mem {held held' : Places}
    (known : ∀ x role, (x, role) ∈ held' → (x, role) ∈ held)
    (all : ∀ x role, (x, role) ∈ held → role = .name ∨ (x, role) ∈ held') :
    Rearranges held held' := by
  refine fun t stands => ⟨fun x role mem => stands x role (known x role mem), fun x role mem => ?_⟩
  obtain rfl | mem' := all x role mem
  · exact .inl (stands x .name mem)
  · exact .inr ⟨role, mem'⟩

theorem Rearranges.refl (held : Places) : Rearranges held held :=
  .of_mem (fun _ _ => id) fun _ _ => .inr

/-- Nodes that may stand in one place may stand in another that asks for less. -/
theorem Rearranges.lower {role role' : Role} (nodes : List NodeId)
    (less : ∀ other, role.admits other = true → role'.admits other = true) :
    Rearranges (standing role nodes) (standing role' nodes) := by
  simp only [Rearranges, Syntax.mem_standing]
  refine fun t stands => ⟨fun x other mem => ?_, fun x other mem => .inr ⟨role', mem.1, rfl⟩⟩
  exact mem.2 ▸ (stands x role ⟨mem.1, rfl⟩).mono less

/-- Names may stand anywhere. -/
theorem Rearranges.names (nodes : List NodeId) (role : Role) :
    Rearranges (standing .name nodes) (standing role nodes) :=
  .lower nodes fun other => by cases other <;> simp [Role.admits]

theorem Rearranges.append {held held' : Places} (h : Rearranges held held') (rest : Places) :
    Rearranges (held ++ rest) (held' ++ rest) := by
  intro t stands
  obtain ⟨known, all⟩ := h t fun x role mem => stands x role (List.mem_append_left rest mem)
  refine ⟨fun x role mem => ?_, fun x role mem => ?_⟩
  · obtain mem | mem := List.mem_append.mp mem
    · exact known x role mem
    · exact stands x role (List.mem_append_right held mem)
  · obtain mem | mem := List.mem_append.mp mem
    · exact (all x role mem).imp_right fun ⟨role', mem⟩ =>
        ⟨role', List.mem_append_left rest mem⟩
    · exact .inr ⟨role, List.mem_append_right held' mem⟩

def Round.result {α : Type} : Round α → α
  | .again a | .done a => a

@[simp] theorem Round.result_again {α : Type} (a : α) : Round.result (.again a) = a := rfl

@[simp] theorem Round.result_done {α : Type} (a : α) : Round.result (.done a) = a := rfl

namespace Parse

/-- The node is a name, is held, or has a place in another node. -/
def Settled (t : NodeTable) (held : Places) (x : NodeId) : Prop :=
  t.HasRole x .name ∨ (∃ role, (x, role) ∈ held) ∨ ∃ y, t.Houses y x

variable {α β γ : Type}

/-- What comes of running a step that was given some nodes: parts stay where they are and, if the
result is a good one, what is promised may stand as promised, and each node that was given or is new
is settled or left out. -/
structure Accounts (ok : α → Prop) (given : Places) (p : Parse α) (post : α → Places) (s : State) :
    Prop where
  preserves : s.nodes.Preserves (p.run s).2.nodes
  stands : ok (p.run s).1 →
    ∀ x role, (x, role) ∈ post (p.run s).1 → (p.run s).2.nodes.HasRole x role
  settles : ok (p.run s).1 → ∀ x,
    ((∃ role, (x, role) ∈ given) ∨ s.nodes.size ≤ x ∧ x < (p.run s).2.nodes.size) →
      p.LeftOut x s ∨ Settled (p.run s).2.nodes (post (p.run s).1) x

/-- A step that is given some nodes loses none, unless there are errors or the result is not a good
one. -/
def Settles (ok : α → Prop) (given : Places) (p : Parse α) (post : α → Places) : Prop :=
  ∀ ⦃s⦄, p.Transacts s → (p.run s).2.errors = #[] →
    (∀ x role, (x, role) ∈ given → s.nodes.HasRole x role) → Accounts ok given p post s

abbrev anyway (_ : α) : Prop := True

/-- The nodes that a construct results in may stand as the role, and no other node is lost. -/
class Delivers [Carries α] (p : Parse α) (role : outParam Role) : Prop where
  settles : Settles anyway [] p fun a => standing role (carried a)

/-- No node is left to hold. -/
class Idle (p : Parse α) : Prop where
  settles : Settles anyway [] p fun _ => []

/-- A parser whose goals result in parts. -/
class Attaches (parse : Parser) : Prop where
  level : ∃ n, parse = parseUpTo n
  delivers : ∀ goal, Delivers (parse goal) .part

theorem errors_reportHere_ne (s : State) (fault : Diagnostic.Fault) :
    (s.reportHere fault).errors ≠ #[] := by
  simp only [State.reportHere]
  split
  · rename_i same
    rintro empty
    simp [empty] at same
  · simp

theorem errors_giveUp {s : State} (valid : s.giveUp.errors = #[]) : s.errors = #[] := by
  unfold State.giveUp at valid
  split at valid
  · exact absurd valid (errors_reportHere_ne s _)
  · exact valid

/-- Errors stay, where attempts that fail leave the state as it was. -/
theorem errors_eq_empty {p : Parse α} {s : State} (transacts : p.Transacts s)
    (valid : (p.run s).2.errors = #[]) : s.errors = #[] := by
  induction p generalizing s with
  | done | observe | advance | reread | addNode | reshape | becomePattern => exact valid
  | reportHere fault => exact absurd valid (errors_reportHere_ne s fault)
  | andThen p next ihp ihn => exact ihp transacts.1 (ihn _ transacts.2 valid)
  | within change p ih => exact ih (s := { s with context := change s.context }) transacts valid
  | guarded p ih =>
    by_cases free : s.depth < depthLimit
    · rw [run, if_pos free] at valid
      exact ih (s := { s with depth := s.depth + 1 }) (transacts free) valid
    · rw [run, if_neg free] at valid
      exact errors_giveUp valid
  | lookAhead p ih => rwa [transacts.2] at valid
  | attempt p ih =>
    by_cases failed : ((attempt p).run s).1 = none
    · rwa [transacts.2 failed] at valid
    · refine ih transacts.1 ?_
      simp only [run] at failed valid
      grind
  | labelled label p ih => exact ih transacts valid

section Rules

variable {ok : β → Prop} {given held : Places} {mid : α → Places} {post : β → Places}

/-- One step and then another one, given what is known of all results of the first. -/
theorem Settles.bindKnown {p : Parse α} {next : α → Parse β} {known : α → Prop}
    (h : Settles anyway given p mid) (results : ∀ s, known (p.run s).1)
    (h' : ∀ a, known a → Settles ok (mid a) (next a) post) :
    Settles ok given (p >>= next) post := by
  intro s transacts valid holds
  have first := h transacts.1 (errors_eq_empty transacts.2 valid) holds
  have second := h' _ (results s) transacts.2 valid (first.stands trivial)
  refine ⟨first.preserves.trans second.preserves, second.stands, fun good x source => ?_⟩
  have later (source : (∃ role, (x, role) ∈ mid (p.run s).1) ∨ (p.run s).2.nodes.size ≤ x ∧
        x < ((next (p.run s).1).run (p.run s).2).2.nodes.size) :
      (p >>= next).LeftOut x s ∨ Settled ((p >>= next).run s).2.nodes
        (post ((p >>= next).run s).1) x :=
    (second.settles good x source).imp_left .second
  -- a node is at hand after the first step, or is new in the second one
  by_cases new : (p.run s).2.nodes.size ≤ x
  · obtain ⟨role, mem⟩ | made := source
    · obtain ⟨shape, is, -⟩ := holds x role mem
      have lt : x < s.nodes.size := by
        obtain ⟨n, found, -⟩ := Option.map_eq_some_iff.mp is
        exact (Array.getElem?_eq_some_iff.mp found).1
      exact absurd new (Nat.not_le.mpr (Nat.lt_of_lt_of_le lt first.preserves.size_le))
    · exact later (.inr ⟨new, made.2⟩)
  · have early := source.imp_right fun made => And.intro made.1 (Nat.not_le.mp new)
    obtain out | settled := first.settles trivial x early
    · exact .inl (.first out)
    · obtain name | held | houses := settled
      · exact .inr (.inl (name.preserved second.preserves))
      · exact later (.inl held)
      · exact .inr (.inr (.inr (houses.imp fun y => (·.preserved second.preserves))))

theorem Settles.bind {p : Parse α} {next : α → Parse β} (h : Settles anyway given p mid)
    (h' : ∀ a, Settles ok (mid a) (next a) post) : Settles ok given (p >>= next) post :=
  have results (s : State) : anyway (p.run s).1 := trivial
  h.bindKnown results fun a _ => h' a

/-- What is held beside stays held. -/
theorem Settles.frame {p : Parse β} (h : Settles ok given p post) (rest : Places) :
    Settles ok (given ++ rest) p fun a => post a ++ rest := by
  intro s transacts valid holds
  have outcome := h transacts valid fun x role mem => holds x role (List.mem_append_left rest mem)
  refine ⟨outcome.preserves, fun good x role mem => ?_, fun good x source => ?_⟩
  · obtain mem | mem := List.mem_append.mp mem
    · exact outcome.stands good x role mem
    · exact (holds x role (List.mem_append_right given mem)).preserved outcome.preserves
  · have inner (source : (∃ role, (x, role) ∈ given) ∨
          s.nodes.size ≤ x ∧ x < (p.run s).2.nodes.size) :
        p.LeftOut x s ∨ Settled (p.run s).2.nodes (post (p.run s).1 ++ rest) x :=
      (outcome.settles good x source).imp_right fun settled => settled.imp_right <|
        Or.imp_left fun ⟨role, mem⟩ => ⟨role, List.mem_append_left rest mem⟩
    obtain ⟨role, mem⟩ | new := source
    · obtain mem | mem := List.mem_append.mp mem
      · exact inner (.inl ⟨role, mem⟩)
      · exact .inr (.inr (.inl ⟨role, List.mem_append_right _ mem⟩))
    · exact inner (.inr new)

theorem Settles.weaken {p : Parse β} {ok' : β → Prop} {post' : β → Places}
    (h : Settles ok' held p post') (good : ∀ b, ok b → ok' b) (gives : Rearranges given held)
    (promise : ∀ b, ok b → Rearranges (post' b) (post b)) : Settles ok given p post := by
  intro s transacts valid holds
  obtain ⟨stands, kept⟩ := gives s.nodes holds
  have outcome := h transacts valid stands
  refine ⟨outcome.preserves, fun is => ?_, fun is x source => ?_⟩
  · exact (promise _ is _ (outcome.stands (good _ is))).1
  · have after : (∃ role, (x, role) ∈ held) ∨ s.nodes.size ≤ x ∧ x < (p.run s).2.nodes.size →
        p.LeftOut x s ∨ Settled (p.run s).2.nodes (post (p.run s).1) x := by
      intro source
      refine (outcome.settles (good _ is) x source).imp_right fun settled => ?_
      obtain name | ⟨role, mem⟩ | houses := settled
      · exact .inl name
      · exact ((promise _ is _ (outcome.stands (good _ is))).2 x role mem).imp_right .inl
      · exact .inr (.inr houses)
    obtain ⟨role, mem⟩ | new := source
    · obtain name | found := kept x role mem
      · exact .inr (.inl (name.preserved outcome.preserves))
      · exact after (.inl found)
    · exact after (.inr new)

/-- One step, with what it needs, and then another one, with the rest. -/
theorem Settles.bindWith (rest : Places) {p : Parse α} {next : α → Parse β}
    (h : Settles anyway held p mid) (gives : Rearranges given (held ++ rest))
    (h' : ∀ a, Settles ok (mid a ++ rest) (next a) post) : Settles ok given (p >>= next) post :=
  ((h.frame rest).weaken (fun _ => id) gives fun _ _ => .refl _).bind h'

end Rules
end Parse
end LoopCapture.Grammar
