import LoopCapture.Proofs.Grammar.Building.Tokens
import LoopCapture.Proofs.Syntax.Spelled

/-!
# A parse spells the names it makes

Each step keeps the scanner on the text and the names of the table on their spelling. A routine is
found to do so by what it is made of, but for the few that make a name from what they read before.
-/

namespace LoopCapture.Grammar
open Text (Offset)
open Token (Keyword Kind Punctuator Scanner)
open Syntax (Child NodeId Shape)

/-- The scanner stands on the text, and the names made so far span their spelling. -/
structure State.IsSpelled (text : List Char) (s : State) : Prop where
  scanner : s.scanner.Holds text
  nodes : s.nodes.IsSpelled text

theorem State.IsSpelled.giveUp {text : List Char} {s : State} (h : s.IsSpelled text) :
    s.giveUp.IsSpelled text ∧ s.nodes.GoesOn s.giveUp.nodes := by
  unfold State.giveUp
  split
  · exact ⟨⟨h.scanner, h.nodes⟩, .refl _⟩
  · exact ⟨⟨h.scanner, h.nodes⟩, .refl _⟩

namespace Parse

variable {α β : Type} {text : List Char}

/-- The names are spelled after a step, and the table goes on from the one before. -/
structure Writes (text : List Char) (p : Parse α) (s : State) : Prop where
  spelled : (p.run s).2.IsSpelled text
  goesOn : s.nodes.GoesOn (p.run s).2.nodes

abbrev wherever (_ : Scanner) : Prop := True

/-- On a suitable token, a step spells the names it makes. -/
class Spells (p : Parse α) (now : outParam (Scanner → Prop)) : Prop where
  writes : ∀ ⦃text s⦄, s.IsSpelled text → now s.scanner → p.Writes text s

/-- A condition that is seen to be false. -/
class IsFalse (b : Bool) : Prop where
  eq : b = false

instance : IsFalse false := ⟨rfl⟩

/-- The token that an object creation begins with; the other goals begin anywhere. -/
abbrev Begins : Goal → Scanner → Prop
  | .creation => fun s => s.kind = .keyword .new_
  | _ => wherever

section Steps

variable {now : Scanner → Prop}

theorem Writes.of_nodes_eq {p : Parse α} {s : State} (h : s.IsSpelled text)
    (scanner : (p.run s).2.scanner.Holds text) (nodes : (p.run s).2.nodes = s.nodes) :
    p.Writes text s :=
  ⟨⟨scanner, nodes ▸ h.nodes⟩, nodes ▸ .refl _⟩

instance (priority := low) {p : Parse α} [still : Still p] : Spells p wherever where
  writes text s h _ := by
    refine .of_nodes_eq h ?_ ?_ <;> rw [still.run_snd]
    exact h.scanner

theorem Writes.bind {p : Parse α} {next : α → Parse β} {s : State} (h : p.Writes text s)
    (h' : (next (p.run s).1).Writes text (p.run s).2) : (p >>= next).Writes text s :=
  ⟨h'.spelled, h.goesOn.trans h'.goesOn⟩

instance {p : Parse α} {next : α → Parse β} [h : Spells p now]
    [h' : ∀ a, Spells (next a) wherever] : Spells (p >>= next) now where
  writes _ _ spelled is :=
    have first := h.writes spelled is
    first.bind ((h' _).writes first.spelled trivial)

theorem Spells.bind {p : Parse α} {next : α → Parse β} [Spells p now]
    (h : ∀ a, Spells (next a) wherever) : Spells (p >>= next) now :=
  inferInstance

theorem Spells.andThen {p : Parse α} {next : α → Parse β} (h : Spells p now)
    (h' : ∀ a, Spells (next a) wherever) : Spells (p >>= next) now :=
  inferInstance

theorem Spells.labelled {label : Label α} {p : Parse α} (h : Spells p now) :
    Spells (labelled label p) now :=
  ⟨fun _ _ spelled is =>
    have inner := h.writes spelled is
    ⟨inner.spelled, inner.goesOn⟩⟩

theorem Spells.option {p : Parse (Option α)} {next : Option α → Parse β} [Spells p now]
    (missing : Spells (next none) wherever) (found : ∀ a, Spells (next (some a)) wherever) :
    Spells (p >>= next) now :=
  .bind fun a? => by
    cases a? with
    | none => exact missing
    | some a => exact found a

theorem Spells.ite {c : Prop} [Decidable c] {p q : Parse α} (h : Spells p now) (h' : Spells q now) :
    Spells (if c then p else q) now := by
  split
  · exact h
  · exact h'

instance {c : Prop} [Decidable c] {p q : Parse α} [h : Spells p wherever] [h' : Spells q wherever] :
    Spells (if c then p else q) wherever :=
  .ite h h'

theorem Spells.skipIf {c : Prop} [Decidable c] {p : Parse α} {q : Parse β} [Spells p wherever]
    (h : Spells q wherever) : Spells (if c then p >>= fun _ => q else q) wherever :=
  .ite inferInstance h

instance {p q : Parse Bool} [Spells p now] [Spells q wherever] : Spells (p <||> q) now := by
  have stops (b : Bool) : Spells (match toBool b with | true => pure b | false => q) wherever := by
    split <;> infer_instance
  exact inferInstanceAs (Spells (p >>= _) now)

instance {p q : Parse Bool} [Spells p now] [Spells q wherever] : Spells (p <&&> q) now := by
  have stops (b : Bool) : Spells (match toBool b with | true => q | false => pure b) wherever := by
    split <;> infer_instance
  exact inferInstanceAs (Spells (p >>= _) now)

instance : Spells advance wherever where
  writes _ _ h _ := .of_nodes_eq h h.scanner.scan rfl

instance (again : Rereading) : Spells (reread again) wherever where
  writes _ _ h _ := .of_nodes_eq h (h.scanner.reread again) rfl

instance (fault : Diagnostic.Fault) : Spells (reportHere fault) wherever where
  writes _ _ h _ := .of_nodes_eq h h.scanner rfl

/-- Any node but a name may be added. -/
instance {start stop : Offset} {shape : Shape} [nameless : IsFalse shape.isBareName] :
    Spells (addNode start stop shape) wherever where
  writes _ s h _ := by
    refine ⟨⟨h.scanner, h.nodes.push fun name is => ?_⟩, Syntax.NodeTable.goesOn_push _ _⟩
    have none := nameless.eq
    obtain is | is := is <;> rw [show shape = _ from is] at none <;> cases none

instance {start : Offset} {shape : Shape} [IsFalse shape.isBareName] :
    Spells (finish start shape) wherever := by
  unfold finish
  infer_instance

instance (node : NodeId) : Spells (Parse.becomePattern node) wherever where
  writes _ s h _ := by
    have on := Syntax.NodeTable.goesOn_asPattern s.nodes node
    exact ⟨⟨h.scanner, h.nodes.goesOn on (Syntax.NodeTable.asPattern_same node s.nodes).1⟩, on⟩

instance {p : Parse α} {change : Context → Context} [h : Spells p now] :
    Spells (within change p) now where
  writes text s spelled is :=
    have inner : p.Writes text { s with context := change s.context } :=
      h.writes ⟨spelled.scanner, spelled.nodes⟩ is
    ⟨⟨inner.spelled.scanner, inner.spelled.nodes⟩, inner.goesOn⟩

instance {p : Parse α} {label : Label α} [h : Spells p now] : Spells (labelled label p) now :=
  h.labelled

instance {p : Parse α} [h : Spells p now] : Spells (discard p) now :=
  ⟨fun _ _ spelled is =>
    have inner := h.writes spelled is
    ⟨inner.spelled, inner.goesOn⟩⟩

instance {p : Parse α} {f : α → β} [h : Spells p now] : Spells (f <$> p) now :=
  ⟨fun _ _ spelled is =>
    have inner := h.writes spelled is
    ⟨inner.spelled, inner.goesOn⟩⟩

instance {p : Parse α} [Spells p now] : Spells (allowIn p) now :=
  inferInstanceAs (Spells (within _ _) now)

instance {p : Parse α} [Spells p now] : Spells (disallowIn p) now :=
  inferInstanceAs (Spells (within _ _) now)

instance {p : Parse Child} [h : Spells p now] : Spells (guarded p) now where
  writes text s spelled is := by
    by_cases free : s.depth < depthLimit
    · have inner : p.Writes text { s with depth := s.depth + 1 } :=
        h.writes ⟨spelled.scanner, spelled.nodes⟩ is
      refine ⟨?_, ?_⟩ <;> simp only [run, if_pos free]
      · exact ⟨inner.spelled.scanner, inner.spelled.nodes⟩
      · exact inner.goesOn
    · obtain ⟨after, on⟩ := State.IsSpelled.giveUp spelled
      refine ⟨?_, ?_⟩ <;> simp only [run, if_neg free]
      · exact after
      · exact on

theorem holds_rewind {s after : Scanner} (h : s.Holds text) : (after.rewind s).Holds text :=
  ⟨h.start, h.reads⟩

instance (priority := low) {p : Parse α} [h : Spells p now] : Spells (lookAhead p) now where
  writes text s spelled is := by
    have inner := h.writes spelled is
    exact ⟨⟨holds_rewind spelled.scanner, inner.spelled.nodes⟩, inner.goesOn⟩

theorem Spells.attempt {p : Parse (Option α)} (h : Spells p now) : Spells (attempt p) now where
  writes text s spelled is := by
    have inner := h.writes spelled is
    by_cases kept : (p.run s).1.isSome ∧ (p.run s).2.errorCount = s.mark.errorCount
    · refine ⟨?_, ?_⟩ <;> simp only [run, if_pos kept]
      · exact inner.spelled
      · exact inner.goesOn
    · have on := inner.goesOn.shrink
      refine ⟨?_, ?_⟩ <;> simp only [run, if_neg kept]
      · refine ⟨holds_rewind spelled.scanner, spelled.nodes.goesOn on ?_⟩
        simp [State.mark, State.rewind, inner.goesOn.size_le]
      · exact on

instance {p : Parse (Option α)} [h : Spells p now] : Spells (attempt p) now := h.attempt

theorem spells_repeatUpTo {step : α → Parse (Round α)} (h : ∀ a, Spells (step a) wherever) (n : Nat)
    (a : α) : Spells (repeatUpTo step n a) wherever := by
  induction n generalizing a with
  | zero => exact inferInstanceAs (Spells (labelled _ (pure a)) wherever)
  | succ n ih =>
    refine Spells.andThen (.labelled (h a)) fun round => ?_
    cases round with
    | again a => exact ih a
    | done a => exact inferInstanceAs (Spells (pure a) wherever)

theorem Spells.iterate {step : α → Parse (Round α)} (h : ∀ a, Spells (step a) wherever) (a : α) :
    Spells (iterate a step) wherever :=
  have _rest (s : State) := spells_repeatUpTo h (s.size - s.scanner.start.offset + 2) a
  inferInstanceAs (Spells (state >>= _) wherever)

instance {step : α → Parse (Round α)} [h : ∀ a, Spells (step a) wherever] (a : α) :
    Spells (iterate a step) wherever :=
  .iterate h a

end Steps

instance (k : Kind) : Spells (optional k) wherever := by
  unfold optional
  infer_instance

instance (k : Kind) : Spells (expect k) wherever := by
  unfold expect
  infer_instance

instance (m : Punctuator) : Spells (optionalMark m) wherever :=
  inferInstanceAs (Spells (optional _) _)

instance (w : Keyword) : Spells (optionalWord w) wherever := inferInstanceAs (Spells (optional _) _)

instance (m : Punctuator) : Spells (expectMark m) wherever := inferInstanceAs (Spells (expect _) _)

instance (w : Keyword) : Spells (expectWord w) wherever := inferInstanceAs (Spells (expect _) _)

instance : Spells semicolon wherever := by
  unfold semicolon
  infer_instance

instance (form : Syntax.LiteralForm) : Spells (literal form) wherever := by
  unfold literal
  infer_instance

instance {close : Kind} {item : Parse Child} [Spells item wherever] :
    Spells (commaList close item) wherever := by
  unfold commaList
  have round (items : Array NodeId) (node : Child) : Spells (match node with
      | none => pure (.done items)
      | some node => optionalMark .comma >>= fun comma =>
        if comma = true then pure (.again (items.push node))
        else pure (.done (items.push node)) : Parse (Round (Array NodeId))) wherever := by
    split <;> infer_instance
  infer_instance

instance {separator : Kind} {item : Parse Child} [Spells item wherever] :
    Spells (separated separator item) wherever := by
  unfold separated
  have round (items : Array NodeId) (node : Child) : Spells (match node with
      | none => pure (.done items)
      | some node => optional separator >>= fun another =>
        if another = true then pure (.again (items.push node))
        else pure (.done (items.push node)) : Parse (Round (Array NodeId))) wherever := by
    split <;> infer_instance
  infer_instance

instance : Tells value fun value s => s.value = value where
  toStill := still_observe _
  tells _ := rfl

section Looks

variable {now : Scanner → Prop} {tells : α → Scanner → Prop} {p : Parse α} {q : Parse β}
  {next : α → Parse β}

theorem Spells.free [h : Spells q wherever] : Spells q now :=
  ⟨fun _ _ spelled _ => h.writes spelled trivial⟩

theorem Spells.suits {now' : Scanner → Prop} [h : Spells q now'] (suits : ∀ s, now s → now' s) :
    Spells q now :=
  ⟨fun _ _ spelled is => h.writes spelled (suits _ is)⟩

theorem Writes.look {s : State} [still : Still p] (h : (next (p.run s).1).Writes text s) :
    (p >>= next).Writes text s := by
  have run : (p >>= next).run s = (next (p.run s).1).run s := by
    change (next (p.run s).1).run (p.run s).2 = _
    rw [still.run_snd]
  exact ⟨run ▸ h.spelled, run ▸ h.goesOn⟩

/-- What a look tells of the current token is known until the next step. -/
theorem Spells.look [t : Tells p tells]
    (h : ∀ a, Spells (next a) fun s => now s ∧ tells a s) : Spells (p >>= next) now where
  writes _ s spelled is := .look ((h _).writes spelled ⟨is, t.tells s⟩)

theorem Spells.test {test : Parse Bool} {tells : Bool → Scanner → Prop} [Tells test tells]
    {yes no : Parse β} (h : Spells yes fun s => now s ∧ tells true s)
    (h' : Spells no fun s => now s ∧ tells false s) :
    Spells (test >>= fun is => if is = true then yes else no) now := by
  refine .look fun is => ?_
  cases is with
  | false => exact h'
  | true => exact h

theorem Spells.ifOptional {k : Kind} {yes no : Parse β} [h : Spells yes wherever]
    (h' : Spells no now) :
    Spells (optional k >>= fun found => if found = true then yes else no) now where
  writes text s spelled is := by
    have first : (optional k).Writes text s := Spells.writes spelled trivial
    by_cases found : (s.scanner.kind == k) = true
    · have run : ((optional k).run s).1 = true := by
        change (Parse.run (if (s.scanner.kind == k) = true then _ else _) s).1 = _
        rw [if_pos found]
        rfl
      refine first.bind ?_
      rw [if_pos run]
      exact h.writes first.spelled trivial
    · have run : (optional k).run s = (false, s) := by
        change (Parse.run (if (s.scanner.kind == k) = true then _ else _) s) = _
        rw [if_neg found]
        rfl
      have missing : ∀ after, after = (false, s) →
          Parse.run (if after.1 = true then yes else no) after.2 = no.run s := by
        rintro _ rfl
        rfl
      have same : (optional k >>= fun found => if found = true then yes else no).run s =
          no.run s := missing _ run
      have rest := h'.writes spelled is
      exact ⟨same ▸ rest.spelled, same ▸ rest.goesOn⟩

end Looks

section Names

variable {now : Scanner → Prop} {s : State}

theorem slice_of_isWord {s : Scanner} (h : s.Holds text) (isWord : s.kind.isWord = true) :
    Text.slice? s.start.offset s.stop.offset text = some s.value.toList := by
  obtain ⟨token, slice, -, fits⟩ := h.faithful.value
  have value : s.value = String.ofList token := by
    cases is : s.kind <;> simp_all [Kind.Fits, Kind.isWord]
  rw [slice, value, String.toList_ofList]

theorem Spells.ofKeyword {p : Parse α}
    (h : Spells p fun s => now s ∧ ∀ word, s.kind = .keyword word → s.value = word.spelling) :
    Spells p now where
  writes text s spelled is := by
    refine h.writes spelled ⟨is, fun word keyword => ?_⟩
    obtain ⟨token, -, -, fits⟩ := spelled.scanner.faithful.value
    rw [keyword] at fits
    exact fits.2

/-- A node for a name that is written where the node stands. -/
theorem writes_addName (spelled : s.IsSpelled text) {start stop : Offset} {name : String}
    (written : Text.slice? start stop text = some name.toList) (shape : Shape)
    (is : ∀ other, shape = .identifier other ∨ shape = .propertyName other → other = name) :
    (addNode start stop shape).Writes text s :=
  ⟨⟨spelled.scanner, spelled.nodes.push fun other named => is other named ▸ written⟩,
    Syntax.NodeTable.goesOn_push _ _⟩

/-- The current token is a word that starts at the place, and the shape is that of its name. -/
structure NamesToken (start : Offset) (shape : Shape) (s : Scanner) : Prop where
  isWord : s.kind.isWord = true
  start_eq : s.start.offset = start
  value_eq : ∀ name, shape = .identifier name ∨ shape = .propertyName name → name = s.value

theorem Spells.word {start : Offset} {shape : Shape} {next : NodeId → Parse β}
    [h : ∀ node, Spells (next node) wherever] (suits : ∀ s, now s → NamesToken start shape s) :
    Spells (advance >>= fun _ => finish start shape >>= next) now where
  writes text s spelled is := by
    obtain ⟨isWord, rfl, value⟩ := suits s.scanner is
    have written := slice_of_isWord spelled.scanner isWord
    have moved : (advance : Parse Unit).Writes text s := Spells.writes spelled trivial
    have ends : max s.scanner.stop.offset s.scanner.start.offset = s.scanner.stop.offset :=
      Nat.max_eq_left spelled.scanner.faithful.ordered
    have node : (addNode s.scanner.start.offset (max s.scanner.stop.offset s.scanner.start.offset)
        shape).Writes text s.advance :=
          writes_addName moved.spelled (ends.symm ▸ written) shape value
    have added : (finish s.scanner.start.offset shape).Writes text s.advance :=
      ⟨node.spelled, node.goesOn⟩
    exact moved.bind (added.bind ((h _).writes added.spelled trivial))

theorem namesToken {start : Offset} {name : String} {s : Scanner} {shape : Shape}
    (isWord : s.kind.isWord = true) (start_eq : s.start.offset = start) (value_eq : s.value = name)
    (is : shape = .identifier name ∨ shape = .propertyName name) : NamesToken start shape s := by
  refine ⟨isWord, start_eq, fun other named => ?_⟩
  obtain rfl | rfl := is <;> obtain named | named := named <;> cases named <;> exact value_eq.symm

end Names

instance : Spells identifier wherever := by
  refine .test (.look fun start => .look fun name => .word fun s is => ?_) .free
  exact namesToken (isWord_of_isName is.1.1.2) is.1.2 is.2 (.inl rfl)

instance : Spells propertyName wherever := by
  refine .test (.look fun start => .look fun name => .word fun s is => ?_) .free
  exact namesToken is.1.1.2 is.1.2 is.2 (.inr rfl)

end Parse
end LoopCapture.Grammar
