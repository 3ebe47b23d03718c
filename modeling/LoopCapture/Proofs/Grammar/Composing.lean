import LoopCapture.Proofs.Grammar.Attachment
import LoopCapture.Proofs.Grammar.Spelling
import LoopCapture.Proofs.Syntax.Settled

/-!
# Patterns are made of patterns

A step that makes a pattern makes it of targets of declarations; all other patterns come of
literals. So in the table that a parse works on, all patterns are settled at any time.

A routine is found to make no pattern by what it is made of. The few routines that make patterns
hand on what they know of their targets: a target stays one, whatever is parsed after it.
-/

namespace LoopCapture.Grammar
open Text (Offset)
open Token (Keyword Kind Punctuator)
open Syntax (Child NodeId NodeTable Shape)
open Syntax.NodeTable (Declares Owned Standing Upholds)

theorem State.nodes_giveUp (s : State) : s.giveUp.nodes = s.nodes := by
  unfold State.giveUp
  split <;> rfl

namespace Parse

variable {α β : Type}

/-- Along the run of a step, each pattern that is made has targets of declarations only, and no node
is given another shape but a name of a property that of a variable. -/
def Composes : {α : Type} → Parse α → State → Prop
  | _, .andThen p next, s => p.Composes s ∧ (next (p.run s).1).Composes (p.run s).2
  | _, .within change p, s => p.Composes { s with context := change s.context }
  | _, .guarded p, s => s.depth < depthLimit → p.Composes { s with depth := s.depth + 1 }
  | _, .lookAhead p, s | _, .attempt p, s | _, .labelled _ p, s => p.Composes s
  | _, .addNode start stop shape, s => shape.isPattern = true →
    Declares (s.nodes.push ⟨start, stop, shape⟩) .target s.nodes.size
  | _, .reshape node shape, s =>
    ∃ name, s.nodes.shape? node = some (.propertyName name) ∧ shape = .identifier name
  | _, .done _, _ | _, .observe _, _ | _, .advance, _ | _, .reread _, _ | _, .reportHere _, _
  | _, .becomePattern _, _ => True

theorem Composes.runs {p : Parse α} {s s' : State} {q : Parse β} (runs : p.Runs s q s') :
    p.Composes s → q.Composes s' := by
  induction runs with
  | self => exact id
  | first _ ih => exact fun composes => ih composes.1
  | second _ ih => exact fun composes => ih composes.2
  | within _ ih => exact ih
  | guarded free _ ih => exact fun composes => ih (composes free)
  | lookAhead _ ih => exact ih
  | attempt _ ih => exact ih
  | labelled _ ih => exact ih

/-- Declarations stay what they are while the step is run, and so does all else that is no literal.
-/
theorem Composes.upholds {p : Parse α} {s : State} (h : p.Composes s) :
    s.nodes.Upholds (p.run s).2.nodes := by
  induction p generalizing s with
  | done a => exact .refl _
  | andThen p next ihp ihn => exact (ihp h.1).trans (ihn _ h.2)
  | observe look => exact .refl _
  | advance => exact .refl _
  | reread again => exact .refl _
  | reportHere fault => exact .refl _
  | addNode start stop shape => exact Syntax.NodeTable.upholds_push _ _
  | reshape node shape =>
    obtain ⟨name, was, rfl⟩ := h
    exact Syntax.NodeTable.upholds_refer was
  | becomePattern node => exact Syntax.NodeTable.upholds_asPattern s.nodes node
  | within change p ih => exact ih (s := { s with context := change s.context }) h
  | guarded p ih =>
    by_cases free : s.depth < depthLimit
    · simpa [run, free] using ih (s := { s with depth := s.depth + 1 }) (h free)
    · simpa [run, free, s.nodes_giveUp] using Upholds.refl s.nodes
  | lookAhead p ih => exact ih h
  | attempt p ih =>
    have upholds := ih h
    by_cases kept : (p.run s).1.isSome ∧ (p.run s).2.errorCount = s.errorCount
    · simpa [run, State.mark, kept] using upholds
    · simpa [run, State.mark, kept, State.rewind] using upholds.shrink
  | labelled label p ih => exact ih h

/-- The step is run on a table in order with settled patterns, and keeps to the rules. -/
structure Tidy (p : Parse α) (s : State) : Prop where
  composes : p.Composes s
  transacts : p.Transacts s
  spends : ∃ held post, p.Spends held post ∧ Owned s.nodes held
  settled : s.nodes.PatternsSettled

theorem Tidy.precede {p : Parse α} {s : State} (h : p.Tidy s) : s.nodes.ChildrenPrecede :=
  h.spends.elim fun _ ⟨_, _, owned⟩ => owned.precede

namespace Tidy

variable {p : Parse α} {next : α → Parse β} {s : State}

theorem first (h : (Parse.andThen p next).Tidy s) : p.Tidy s :=
  ⟨h.composes.1, h.transacts.1, h.spends.elim fun held ⟨_, spends, owned⟩ =>
    ⟨held, _, spends, owned⟩,
    h.settled⟩

theorem second (h : (Parse.andThen p next).Tidy s) (settled : (p.run s).2.nodes.PatternsSettled) :
    (next (p.run s).1).Tidy (p.run s).2 := by
  obtain ⟨held, post, spends, owned⟩ := h.spends
  obtain ⟨rest, spends', owned', -⟩ := Spends.sound (p := p) spends owned
  exact ⟨h.composes.2, h.transacts.2, ⟨rest, post, spends', owned'⟩, settled⟩

theorem within {change : Context → Context} (h : (Parse.within change p).Tidy s) :
    p.Tidy { s with context := change s.context } :=
  ⟨h.composes, h.transacts, h.spends, h.settled⟩

theorem guarded {p : Parse Child} (h : (Parse.guarded p).Tidy s) (free : s.depth < depthLimit) :
    p.Tidy { s with depth := s.depth + 1 } :=
  ⟨h.composes free, h.transacts free,
    h.spends.elim fun held ⟨_, spends, owned⟩ => ⟨held, _, spends.2, owned⟩, h.settled⟩

theorem lookAhead (h : (Parse.lookAhead p).Tidy s) : p.Tidy s :=
  ⟨h.composes, h.transacts.1, h.spends, h.settled⟩

theorem attempt {p : Parse (Option α)} (h : (Parse.attempt p).Tidy s) : p.Tidy s :=
  ⟨h.composes, h.transacts.1, h.spends.elim fun held ⟨_, spends, owned⟩ =>
    ⟨held, _, spends.2, owned⟩,
    h.settled⟩

theorem labelled {label : Label α} (h : (Parse.labelled label p).Tidy s) : p.Tidy s :=
  ⟨h.composes, h.transacts, h.spends, h.settled⟩

/-- After the step all patterns are settled again. -/
theorem settled_run {p : Parse α} {s : State} (h : p.Tidy s) :
    (p.run s).2.nodes.PatternsSettled := by
  induction p generalizing s with
  | done a => exact h.settled
  | andThen p next ihp ihn => exact ihn _ (h.second (ihp h.first))
  | observe look => exact h.settled
  | advance => exact h.settled
  | reread again => exact h.settled
  | reportHere fault => exact h.settled
  | addNode start stop shape =>
    exact h.settled.push h.precede fun isPattern => (h.composes isPattern).settled
  | reshape node shape =>
    obtain ⟨name, was, rfl⟩ := h.composes
    exact h.settled.refer was
  | becomePattern node =>
    exact Syntax.NodeTable.patternsSettled_asPattern h.precede h.settled node
  | within change p ih => exact ih h.within
  | guarded p ih =>
    by_cases free : s.depth < depthLimit
    · simpa [run, free] using ih (h.guarded free)
    · simpa [run, free, s.nodes_giveUp] using h.settled
  | lookAhead p ih =>
    rw [h.transacts.2]
    exact h.settled
  | attempt p ih =>
    -- an attempt that fails goes back to the table before it
    cases result : ((Parse.attempt p).run s).1 with
    | none =>
      rw [h.transacts.2 result]
      exact h.settled
    | some a =>
      have settled := ih h.attempt
      by_cases kept : (p.run s).1.isSome ∧ (p.run s).2.errorCount = s.errorCount
      · simpa [run, State.mark, kept] using settled
      · simp [run, State.mark, kept] at result
  | labelled label p ih => exact ih h.labelled

theorem runs {p : Parse α} {s s' : State} {q : Parse β} (runs : p.Runs s q s') :
    p.Tidy s → q.Tidy s' := by
  induction runs with
  | self => exact id
  | first _ ih => exact fun h => ih h.first
  | second _ ih => exact fun h => ih (h.second h.first.settled_run)
  | within _ ih => exact fun h => ih h.within
  | guarded free _ ih => exact fun h => ih (h.guarded free)
  | lookAhead _ ih => exact fun h => ih h.lookAhead
  | attempt _ ih => exact fun h => ih h.attempt
  | labelled _ ih => exact fun h => ih h.labelled

theorem precede_run (h : p.Tidy s) : (p.run s).2.nodes.ChildrenPrecede := by
  obtain ⟨held, post, spends, owned⟩ := h.spends
  obtain ⟨_, -, owned', -⟩ := Spends.sound spends owned
  exact owned'.precede

end Tidy

/-- Whatever state it is run from, a step makes patterns of targets of declarations only. -/
class Composing (p : Parse α) : Prop where
  composes : ∀ s, p.Composes s

section Steps

instance (a : α) : Composing (pure a : Parse α) := ⟨fun _ => trivial⟩

theorem composing_observe (look : State → α) : Composing (.observe look) := ⟨fun _ => trivial⟩

instance : Composing state := composing_observe _

instance : Composing kind := composing_observe _

instance : Composing here := composing_observe _

instance : Composing tokenEnd := composing_observe _

instance : Composing value := composing_observe _

instance : Composing afterLineBreak := composing_observe _

instance (node : Child) : Composing (shapeOf node) := composing_observe _

instance {p : Parse α} {next : α → Parse β} [h : Composing p] [h' : ∀ a, Composing (next a)] :
    Composing (p >>= next) :=
  ⟨fun s => ⟨h.composes s, (h' _).composes _⟩⟩

theorem Composing.bind {p : Parse α} {next : α → Parse β} [Composing p]
    (h : ∀ a, Composing (next a)) : Composing (p >>= next) :=
  inferInstance

theorem Composing.andThen {p : Parse α} {next : α → Parse β} (h : Composing p)
    (h' : ∀ a, Composing (next a)) : Composing (p >>= next) :=
  inferInstance

theorem Composing.labelled {label : Label α} {p : Parse α} (h : Composing p) :
    Composing (labelled label p) :=
  ⟨h.composes⟩

theorem Composing.option {p : Parse (Option α)} {next : Option α → Parse β} [Composing p]
    (missing : Composing (next none)) (found : ∀ a, Composing (next (some a))) :
    Composing (p >>= next) :=
  .bind fun a? => by
    cases a? with
    | none => exact missing
    | some a => exact found a

theorem Composing.ite {c : Prop} [Decidable c] {p q : Parse α} (h : Composing p)
    (h' : Composing q) : Composing (if c then p else q) := by
  split
  · exact h
  · exact h'

instance {c : Prop} [Decidable c] {p q : Parse α} [h : Composing p] [h' : Composing q] :
    Composing (if c then p else q) :=
  .ite h h'

theorem Composing.skipIf {c : Prop} [Decidable c] {p : Parse α} {q : Parse β} [Composing p]
    (h : Composing q) : Composing (if c then p >>= fun _ => q else q) :=
  .ite inferInstance h

instance {p q : Parse Bool} [Composing p] [Composing q] : Composing (p <||> q) := by
  have stops (b : Bool) : Composing (match toBool b with | true => pure b | false => q) := by
    split <;> infer_instance
  exact inferInstanceAs (Composing (p >>= _))

theorem Composing.and {p q : Parse Bool} [Composing p] (h : Composing q) :
    Composing (p <&&> q) := by
  have stops (b : Bool) : Composing (match toBool b with | true => q | false => pure b) := by
    split <;> infer_instance
  exact inferInstanceAs (Composing (p >>= _))

instance {p q : Parse Bool} [Composing p] [h : Composing q] : Composing (p <&&> q) := .and h

instance : Composing advance := ⟨fun _ => trivial⟩

instance (again : Rereading) : Composing (reread again) := ⟨fun _ => trivial⟩

instance (fault : Diagnostic.Fault) : Composing (reportHere fault) := ⟨fun _ => trivial⟩

instance (node : NodeId) : Composing (Parse.becomePattern node) := ⟨fun _ => trivial⟩

/-- Any node but a pattern may be added. -/
instance {start stop : Offset} {shape : Shape} [plain : IsFalse shape.isPattern] :
    Composing (addNode start stop shape) :=
  ⟨fun _ isPattern => absurd isPattern (Bool.eq_false_iff.mp plain.eq)⟩

instance {start : Offset} {shape : Shape} [IsFalse shape.isPattern] :
    Composing (finish start shape) := by
  unfold finish
  infer_instance

instance {p : Parse α} {change : Context → Context} [h : Composing p] :
    Composing (within change p) :=
  ⟨fun _ => h.composes _⟩

instance {p : Parse α} {label : Label α} [h : Composing p] : Composing (labelled label p) :=
  h.labelled

instance {p : Parse α} [h : Composing p] : Composing (discard p) :=
  ⟨fun s => ⟨h.composes s, trivial⟩⟩

instance {p : Parse α} {f : α → β} [h : Composing p] : Composing (f <$> p) :=
  ⟨fun s => ⟨h.composes s, trivial⟩⟩

instance {p : Parse α} [Composing p] : Composing (allowIn p) :=
  inferInstanceAs (Composing (within _ _))

instance {p : Parse α} [Composing p] : Composing (disallowIn p) :=
  inferInstanceAs (Composing (within _ _))

instance {p : Parse Child} [h : Composing p] : Composing (guarded p) := ⟨fun _ _ => h.composes _⟩

theorem Composing.lookAhead {p : Parse α} (h : Composing p) : Composing (lookAhead p) :=
  ⟨h.composes⟩

instance {p : Parse α} [h : Composing p] : Composing (lookAhead p) := h.lookAhead

theorem Composing.attempt {p : Parse (Option α)} (h : Composing p) : Composing (attempt p) :=
  ⟨h.composes⟩

instance {p : Parse (Option α)} [h : Composing p] : Composing (attempt p) := h.attempt

theorem composing_repeatUpTo {step : α → Parse (Round α)} (h : ∀ a, Composing (step a)) (n : Nat)
    (a : α) : Composing (repeatUpTo step n a) := by
  induction n generalizing a with
  | zero => exact inferInstanceAs (Composing (labelled _ (pure a)))
  | succ n ih =>
    refine .andThen (.labelled (h a)) fun round => ?_
    cases round with
    | again a => exact ih a
    | done a => exact inferInstanceAs (Composing (pure a))

theorem Composing.iterate {step : α → Parse (Round α)} (h : ∀ a, Composing (step a)) (a : α) :
    Composing (iterate a step) :=
  have _rest (s : State) := composing_repeatUpTo h (s.size - s.scanner.start.offset + 2) a
  inferInstanceAs (Composing (state >>= _))

instance {step : α → Parse (Round α)} [h : ∀ a, Composing (step a)] (a : α) :
    Composing (iterate a step) :=
  .iterate h a

end Steps

instance (k : Kind) : Composing (isAt k) := by
  unfold isAt
  infer_instance

instance (m : Punctuator) : Composing (atMark m) := inferInstanceAs (Composing (isAt _))

instance (w : Keyword) : Composing (atWord w) := inferInstanceAs (Composing (isAt _))

instance : Composing atName := by
  unfold atName
  infer_instance

instance : Composing atAnyWord := by
  unfold atAnyWord
  infer_instance

instance (text : String) : Composing (atNameText text) := by
  unfold atNameText
  infer_instance

instance (close : Kind) : Composing (atClose close) := by
  unfold atClose
  infer_instance

instance : Composing atStatementEnd := by
  unfold atStatementEnd
  infer_instance

instance (k : Kind) : Composing (nextIs k) := by
  unfold nextIs
  infer_instance

instance (m : Punctuator) : Composing (nextIsMark m) := inferInstanceAs (Composing (nextIs _))

instance {test : Parse Bool} [Composing test] : Composing (nextOnSameLine test) := by
  unfold nextOnSameLine
  infer_instance

instance (k : Kind) : Composing (optional k) := by
  unfold optional
  infer_instance

instance (k : Kind) : Composing (expect k) := by
  unfold expect
  infer_instance

instance (m : Punctuator) : Composing (optionalMark m) := inferInstanceAs (Composing (optional _))

instance (w : Keyword) : Composing (optionalWord w) := inferInstanceAs (Composing (optional _))

instance (m : Punctuator) : Composing (expectMark m) := inferInstanceAs (Composing (expect _))

instance (w : Keyword) : Composing (expectWord w) := inferInstanceAs (Composing (expect _))

instance : Composing semicolon := by
  unfold semicolon
  infer_instance

instance (form : Syntax.LiteralForm) : Composing (literal form) := by
  unfold literal
  infer_instance

instance : Composing identifier := by
  unfold identifier
  infer_instance

instance : Composing propertyName := by
  unfold propertyName
  infer_instance

instance {close : Kind} {item : Parse Child} [Composing item] :
    Composing (commaList close item) := by
  unfold commaList
  have round (items : Array NodeId) (node : Child) : Composing (match node with
      | none => pure (.done items)
      | some node => optionalMark .comma >>= fun comma =>
        if comma = true then pure (.again (items.push node))
        else pure (.done (items.push node)) : Parse (Round (Array NodeId))) := by
    split <;> infer_instance
  infer_instance

instance {separator : Kind} {item : Parse Child} [Composing item] :
    Composing (separated separator item) := by
  unfold separated
  have round (items : Array NodeId) (node : Child) : Composing (match node with
      | none => pure (.done items)
      | some node => optional separator >>= fun another =>
        if another = true then pure (.again (items.push node))
        else pure (.done (items.push node)) : Parse (Round (Array NodeId))) := by
    split <;> infer_instance
  infer_instance

/-- What is known of a table stays true while patterns are made of targets of declarations. -/
class Lasting (known : NodeTable → Prop) : Prop where
  uphold : ∀ {t t' : NodeTable}, t.Upholds t' → known t → known t'

instance : Lasting fun _ => True := ⟨fun _ => id⟩

instance {standing : Standing} {x : NodeId} : Lasting fun t => Declares t standing x :=
  ⟨fun upholds h => h.uphold upholds⟩

instance {known known' : NodeTable → Prop} [h : Lasting known] [h' : Lasting known'] :
    Lasting fun t => known t ∧ known' t :=
  ⟨fun upholds holds => ⟨h.uphold upholds holds.1, h'.uphold upholds holds.2⟩⟩

instance {c : Prop} {known : NodeTable → Prop} [h : Lasting known] : Lasting fun t => c → known t :=
  ⟨fun upholds holds is => h.uphold upholds (holds is)⟩

instance {known : α → NodeTable → Prop} [h : ∀ a, Lasting (known a)] :
    Lasting fun t => ∀ a, known a t :=
  ⟨fun upholds holds a => (h a).uphold upholds (holds a)⟩

/-- From a table of which something is known, a step makes patterns of targets of declarations only,
and something is known of its result. -/
def Grants (known : NodeTable → Prop) (p : Parse α) (promise : α → NodeTable → Prop) : Prop :=
  ∀ s, known s.nodes → p.Composes s ∧ promise (p.run s).1 (p.run s).2.nodes

/-- The node that a construct results in stands in patterns of declarations. -/
class Declaring (p : Parse Child) (standing : outParam Standing) : Prop where
  grants : Grants (fun _ => True) p fun child t => ∀ x, child = some x → t.Declares standing x

section Grants

variable {known known' : NodeTable → Prop} {mid : α → NodeTable → Prop}
  {promise promise' : β → NodeTable → Prop} {standing : Standing}

instance (priority := low) {p : Parse Child} [h : Declaring p standing] : Composing p :=
  ⟨fun s => (h.grants s trivial).1⟩

theorem Grants.mono {p : Parse β} (h : Grants known' p promise)
    (before : ∀ t, known t → known' t) (after : ∀ b t, promise b t → promise' b t) :
    Grants known p promise' :=
  fun s holds => (h s (before _ holds)).imp id (after _ _)

theorem Grants.pure {b : β} (h : ∀ t, known t → promise b t) : Grants known (pure b) promise :=
  fun _ holds => ⟨trivial, h _ holds⟩

theorem Grants.bind {p : Parse α} {next : α → Parse β} (h : Grants known p mid)
    (h' : ∀ a, Grants (mid a) (next a) promise) : Grants known (p >>= next) promise := by
  intro s holds
  obtain ⟨composes, result⟩ := h s holds
  obtain ⟨composes', result'⟩ := h' (p.run s).1 (p.run s).2 result
  exact ⟨⟨composes, composes'⟩, result'⟩

theorem Grants.skip {p : Parse α} [h : Composing p] [lasting : Lasting known] {next : α → Parse β}
    (h' : ∀ a, Grants known (next a) promise) : Grants known (p >>= next) promise :=
  .bind (fun s holds => ⟨h.composes s, lasting.uphold (h.composes s).upholds holds⟩) h'

theorem Grants.ite {c : Prop} [Decidable c] {p q : Parse β} (h : Grants known p promise)
    (h' : Grants known q promise) : Grants known (if c then p else q) promise := by
  split
  · exact h
  · exact h'

theorem Grants.labelled {label : Label β} {p : Parse β} (h : Grants known p promise) :
    Grants known (labelled label p) promise :=
  h

/-- The result of a construct, if there is one, and what was known before. -/
theorem Grants.option {p : Parse Child} [h : Declaring p standing] [lasting : Lasting known]
    {next : Child → Parse β} (missing : Grants known (next none) promise)
    (found : ∀ x, Grants (fun t => known t ∧ Declares t standing x) (next (some x)) promise) :
    Grants known (p >>= next) promise := by
  intro s holds
  obtain ⟨composes, result⟩ := h.grants s trivial
  have still := lasting.uphold composes.upholds holds
  have rest : Grants (fun t => known t ∧ ∀ x, (p.run s).1 = some x → Declares t standing x)
      (next (p.run s).1) promise := by
    cases (p.run s).1 with
    | none => exact missing.mono (fun _ holds => holds.1) fun _ _ => id
    | some x => exact (found x).mono (fun _ holds => ⟨holds.1, holds.2 x rfl⟩) fun _ _ => id
  obtain ⟨composes', result'⟩ := rest _ ⟨still, result⟩
  exact ⟨⟨composes, composes'⟩, result'⟩

theorem Grants.given {p : Parse Child} [h : Declaring p standing] {next : Child → Parse β}
    (h' : ∀ child,
      Grants (fun t => ∀ x, child = some x → t.Declares standing x) (next child) promise) :
    Grants (fun _ => True) (p >>= next) promise :=
  .bind h.grants h'

/-- A new node that stands in declarations because of what is known. -/
theorem Grants.addNode {start stop : Offset} {shape : Shape} [lasting : Lasting known]
    (h : ∀ t x, known t → t.shape? x = some shape → Declares t standing x)
    (own : shape.isPattern = true → standing = .target := by
      first | exact fun _ => rfl | exact nofun) :
    Grants known (addNode start stop shape) fun x t => Declares t standing x := by
  intro s holds
  have declares : Declares (s.nodes.push ⟨start, stop, shape⟩) standing s.nodes.size :=
    h _ _ (lasting.uphold (Syntax.NodeTable.upholds_push _ _) holds)
      (by simp [NodeTable.shape?])
  exact ⟨fun isPattern => own isPattern ▸ declares, declares⟩

theorem Grants.finish {start : Offset} {shape : Shape} [lasting : Lasting known]
    (h : ∀ t x, known t → t.shape? x = some shape → Declares t standing x)
    (own : shape.isPattern = true → standing = .target := by
      first | exact fun _ => rfl | exact nofun) :
    Grants known (finish start shape) fun x t => Declares t standing x :=
  .skip fun _ => .addNode h own

theorem Grants.some {p : Parse NodeId} (h : Grants known p fun x t => Declares t standing x) :
    Grants known (p >>= fun x => Pure.pure (some x)) fun child t =>
      ∀ x, child = .some x → Declares t standing x :=
  .bind h fun _ => .pure fun _ holds _ same => Option.some.inj same ▸ holds

theorem Grants.repeatUpTo {step : α → Parse (Round α)}
    (h : ∀ a, Grants (mid a) (step a) fun round => mid round.result) (n : Nat) (a : α) :
    Grants (mid a) (repeatUpTo step n a) mid := by
  induction n generalizing a with
  | zero => exact .labelled (.pure fun _ => id)
  | succ n ih =>
    refine .bind (.labelled (h a)) fun round => ?_
    cases round with
    | again a => exact ih a
    | done a => exact .pure fun _ => id

theorem Grants.iterate {step : α → Parse (Round α)} [lasting : ∀ a, Lasting (mid a)]
    (h : ∀ a, Grants (mid a) (step a) fun round => mid round.result) (a : α) :
    Grants (mid a) (iterate a step) mid :=
  .skip fun _ => .repeatUpTo h _ a

/-- Something is known of each of the items. -/
def Each {γ : Type} (fact : γ → NodeTable → Prop) (items : Array γ) (t : NodeTable) : Prop :=
  ∀ c ∈ items, fact c t

instance {γ : Type} {fact : γ → NodeTable → Prop} [h : ∀ c, Lasting (fact c)] {items : Array γ} :
    Lasting (Each fact items) :=
  ⟨fun upholds each c mem => (h c).uphold upholds (each c mem)⟩

theorem Each.push {γ : Type} {fact : γ → NodeTable → Prop} {items : Array γ} {c : γ} {t : NodeTable}
    (each : Each fact items t) (h : fact c t) : Each fact (items.push c) t := by
  intro d mem
  obtain old | rfl := Array.mem_push.mp mem
  · exact each d old
  · exact h

/-- A loop that collects items one after the other. What is known of an item stays so. -/
theorem Grants.collect {γ : Type} {fact : γ → NodeTable → Prop} [∀ c, Lasting (fact c)]
    {step : Array γ → Parse (Round (Array γ))}
    (h : ∀ items, Grants (Each fact items) (step items) fun round => Each fact round.result) :
    Grants (fun _ => True) (Grammar.iterate #[] step >>= fun items => Pure.pure items.toList)
      fun items t => ∀ c ∈ items, fact c t :=
  .bind (.mono (.iterate h #[]) (fun _ _ _ mem => by simp at mem) fun _ _ => id) fun _ =>
    .pure fun _ each c mem => each c (by simpa using mem)

theorem Grants.commaList {close : Kind} {item : Parse Child} [Declaring item standing] :
    Grants (fun _ => True) (commaList close item) fun items t =>
      ∀ x ∈ items, Declares t standing x := by
  refine .collect fun items => .skip fun closed => .ite (.pure fun _ => id) ?_
  refine .option (.pure fun _ => id) fun x => .skip fun comma => ?_
  exact .ite (.pure fun _ holds => holds.1.push holds.2) (.pure fun _ holds => holds.1.push holds.2)

end Grants

end Parse
end LoopCapture.Grammar
