import LoopCapture.Proofs.Grammar.Handover
import LoopCapture.Proofs.Grammar.Speculation

/-!
# Building nodes where they belong

The rules by which a construct is checked: what it makes starts where the construct starts or later,
a new node lies around its children and past its first token, and older nodes are left alone. Parts
that are parsed one after the other stand one after the other. What is known along the way stays
known, since a parse only adds.
-/

namespace LoopCapture.Grammar
open Text (Offset)
open Token (Kind Keyword Punctuator Scanner)
open Syntax (Child NodeId Shape)

/-- What is known of a parse and stays so. -/
inductive Fact where
  /-- A token after the place was consumed, or there is an error. -/
  | passed (b : Offset)
  /-- The nodes start at the place or later, and stand one after the other. -/
  | placed (b : Offset) (nodes : List NodeId)
  | inside (b : Offset) (nodes : List NodeId)
  | row (nodes : List NodeId)
  /-- What takes up room among the nodes ends before any of the others starts. -/
  | apart (nodes others : List NodeId)
  /-- What takes up room among the nodes ends at the place or before it. -/
  | ended (b : Offset) (nodes : List NodeId)
  | token (start stop : Offset)
  /-- The second place lies between the first one and the current token. -/
  | opened (b start : Offset)
  | consumed (b : Offset)

/-- The fact holds of the nodes that were made after the first `base` ones. -/
@[simp] def Fact.Holds (base : Nat) (l : Layout) : Fact → Prop
  | .passed b => l.HasPassed b
  | .placed b nodes => l.PlacesAll base b nodes ∧ l.nodes.InRow nodes
  | .inside b nodes => l.PlacesAll base b nodes
  | .row nodes => l.nodes.InRow nodes
  | .apart nodes others => l.nodes.Apart nodes others
  | .ended b nodes => l.EndsAll b nodes
  | .token start stop => start < stop ∧ stop ≤ l.lastEnd
  | .opened b start => b ≤ start ∧ start ≤ l.here
  | .consumed b => b < l.lastEnd

variable {text : List Char} {base : Nat} {l l' : Layout}

theorem Fact.Holds.leads {f : Fact} (h : f.Holds base l) (leads : l.Leads base l') :
    f.Holds base l' := by
  cases f with
  | passed b => exact Layout.HasPassed.leads h leads
  | placed b nodes => exact ⟨fun id mem => (h.1 id mem).leads leads, leads.inRow h.2⟩
  | inside b nodes => exact fun id mem => (h id mem).leads leads
  | row nodes => exact leads.inRow h
  | apart nodes others => exact leads.apart h
  | ended b nodes => exact Layout.EndsAll.leads h leads
  | token start stop => exact ⟨h.1, Nat.le_trans h.2 leads.lastEnd_le⟩
  | opened b start => exact ⟨h.1, Nat.le_trans h.2 leads.here_le⟩
  | consumed b => exact Nat.lt_of_lt_of_le h leads.lastEnd_le

theorem Fact.Holds.earlier {f : Fact} {later : Nat} (h : f.Holds later l) (le : base ≤ later) :
    f.Holds base l := by
  cases f with
  | placed b nodes => exact ⟨fun id mem => ⟨Nat.le_trans le (h.1 id mem).1, (h.1 id mem).2⟩, h.2⟩
  | inside b nodes => exact fun id mem => ⟨Nat.le_trans le (h id mem).1, (h id mem).2⟩
  | _ => exact h

/-- The nodes that are known to be placed, in the order in which they were made. -/
@[simp] def placedIn : List Fact → List NodeId
  | [] => []
  | .placed _ nodes :: known => placedIn known ++ nodes
  | _ :: known => placedIn known

theorem placesAll_placedIn {known : List Fact} (holds : ∀ f ∈ known, f.Holds base l) :
    l.PlacesAll base 0 (placedIn known) := by
  induction known with
  | nil => simp
  | cons f known ih =>
    obtain ⟨holds, rest⟩ := List.forall_mem_cons.mp holds
    cases f with
    | placed b nodes =>
      exact Layout.placesAll_append.mpr ⟨ih rest, Layout.PlacesAll.lower holds.1 (Nat.zero_le b)⟩
    | _ => exact ih rest

/-- What must be known beside its parts where a node is made: a name needs a token, and a loop
starts before its parts. -/
@[simp] def needs (start : Offset) : Shape → List Fact
  | .identifier _ | .propertyName _ | .privateName _ => [.consumed start]
  | .whileLoop test body => [.inside (start + 1) (Shape.whileLoop test body).children]
  | .doWhile body test => [.inside (start + 1) (Shape.doWhile body test).children]
  | .forLoop init test update body =>
    [.inside (start + 1) (Shape.forLoop init test update body).children]
  | .forIn left right body isAwait =>
    [.inside (start + 1) (Shape.forIn left right body isAwait).children]
  | .forOf left right body isAwait =>
    [.inside (start + 1) (Shape.forOf left right body isAwait).children]
  | _ => []

/-- What must be known where a node is made: its children are inside and those in a row stand so,
its place is passed, and what the shape needs. -/
@[simp] def makes (start : Offset) (shape : Shape) : List Fact :=
  .inside start shape.children :: .row shape.row :: .passed start :: needs start shape

theorem toList_eq_carried (child : Child) : child.toList = Parse.carried child := by
  cases child <;> rfl

@[simp, grind =] theorem isName_endOfFile : Kind.isName .endOfFile = false := rfl

@[simp, grind =] theorem isWord_endOfFile : Kind.isWord .endOfFile = false := rfl

/-- Where the current token is not before the place, the known facts give the others. -/
def Gives (b : Offset) (known facts : List Fact) : Prop :=
  ∀ ⦃text base l⦄, l.Sound text base → b ≤ l.here → (∀ f ∈ known, f.Holds base l) →
    ∀ f ∈ facts, f.Holds base l

theorem gives_nil (b : Offset) (known : List Fact) : Gives b known [] :=
  fun _ _ _ _ _ _ _ none => absurd none List.not_mem_nil

theorem gives_tail (b : Offset) (f : Fact) (known : List Fact) : Gives b (f :: known) known :=
  fun _ _ _ _ _ holds g mem => holds g (List.mem_cons_of_mem f mem)

theorem gives_left (b : Offset) (facts known : List Fact) : Gives b (facts ++ known) facts :=
  fun _ _ _ _ _ holds g mem => holds g (List.mem_append_left known mem)

theorem Gives.refl (b : Offset) (known : List Fact) : Gives b known known :=
  fun _ _ _ _ _ holds => holds

namespace Parse

variable {α β γ : Type}

/-- What comes of running a step: it speculates cleanly, the layout stays sound, it leads on, and
the result is as promised. -/
structure Outcome (text : List Char) (base : Nat) (s : State) (p : Parse α) (post : α → List Fact) :
    Prop where
  transacts : p.Transacts s
  sound : (p.run s).2.layout.Sound text base
  leads : s.layout.Leads base (p.run s).2.layout
  holds : ∀ f ∈ post (p.run s).1, f.Holds base (p.run s).2.layout

/-- On a suitable token that does not start before the place, and with the known facts, a step comes
out well. -/
def Builds (now : Scanner → Prop) (b : Offset) (known : List Fact) (p : Parse α)
    (post : α → List Fact) : Prop :=
  ∀ ⦃text base s⦄, s.layout.Sound text base → now s.scanner → b ≤ s.layout.here →
    (∀ f ∈ known, f.Holds base s.layout) → Outcome text base s p post

/-- No matter what the current token is. -/
abbrev anywhere (_ : Scanner) : Prop := True

abbrev atToken (s : Scanner) : Prop := s.kind ≠ .endOfFile

/-- An object creation begins with a token of its own; for the other goals that does not matter. -/
abbrev Suits : Goal → Scanner → Prop
  | .creation => atToken
  | _ => anywhere

/-- The nodes that a construct results in start where it starts or later. Constructs have instances
of this, and the rule for a part finds the instance of that part. -/
class Yields [Carries α] (p : Parse α) (now : outParam (Scanner → Prop)) : Prop where
  builds : ∀ b, Builds now b [] p fun a => [.placed b (carried a)]

/-- The same of a construct that consumes a token or reports an error. -/
class YieldsPast [Carries α] (p : Parse α) (now : outParam (Scanner → Prop)) : Prop where
  builds : ∀ b, Builds now b [] p fun a => [.placed b (carried a), .passed b]

/-- The same of what is left of a construct that started at the place, with what was known there. -/
abbrev YieldsFrom [Carries α] (start : Offset) (known : List Fact) (p : Parse α) : Prop :=
  Builds anywhere start known p fun a => [.placed start (carried a)]

section Rules

variable {now now' : Scanner → Prop} {b b' : Offset} {known given : List Fact}
  {mid : α → List Fact} {post : β → List Fact}

theorem Outcome.bind {s : State} {p : Parse α} {next : α → Parse β}
    (first : Outcome text base s p mid)
    (second : Outcome text base (p.run s).2 (next (p.run s).1) post) :
    Outcome text base s (p >>= next) post :=
  ⟨⟨first.transacts, second.transacts⟩, second.sound, first.leads.trans second.leads,
    second.holds⟩

/-- A step after which another one is known to come out well. -/
theorem Outcome.bindBuilds {s : State} {p : Parse α} {next : α → Parse β}
    (first : Outcome text base s p mid)
    (h : ∀ a, Builds anywhere b (mid a ++ known) (next a) post) (reached : b ≤ s.layout.here)
    (holds : ∀ f ∈ known, f.Holds base s.layout) : Outcome text base s (p >>= next) post := by
  refine first.bind (h _ first.sound trivial (Nat.le_trans reached first.leads.here_le) ?_)
  exact fun f mem => (List.mem_append.mp mem).elim (first.holds f) fun old =>
    (holds f old).leads first.leads

/-- A step may know more than it needs and promise less than it keeps. -/
theorem Builds.weaken {p : Parse α} {post' : α → List Fact} (h : Builds now' b' given p mid)
    (suits : ∀ s, now s → now' s) (le : b' ≤ b) (gives : Gives b known given)
    (promise : ∀ a, Gives b' (mid a) (post' a)) : Builds now b known p post' := by
  intro text base s sound is reached holds
  have outcome := h sound (suits _ is) (Nat.le_trans le reached) (gives sound reached holds)
  exact { outcome with
    holds := promise _ outcome.sound
      (Nat.le_trans (Nat.le_trans le reached) outcome.leads.here_le) outcome.holds }

theorem Builds.since {start : Offset} {p : Parse β} (h : Builds now start known p post)
    (gives : Gives b known [.opened b start] := by simp +contextual [Gives]) :
    Builds now b known p post := by
  intro text base s sound is reached holds
  have opened := gives sound reached holds
  simp only [List.mem_singleton, forall_eq, Fact.Holds] at opened
  exact h sound is opened.2 holds

theorem Builds.forget {p : Parse α} {f : Fact} (h : Builds now b known p mid) :
    Builds now b (f :: known) p mid :=
  h.weaken (fun _ is => is) (Nat.le_refl b) (gives_tail b f known) fun _ => .refl b _

theorem Builds.promise {p : Parse α} {post' : α → List Fact} (h : Builds now b known p mid)
    (gives : ∀ a, Gives b (mid a) (post' a) := by simp +contextual [Gives]) :
    Builds now b known p post' :=
  h.weaken (fun _ is => is) (Nat.le_refl b) (.refl b known) gives

/-- One step and then another, which knows what was known before and what the first one promises. -/
theorem Builds.bindWith {p : Parse α} {next : α → Parse β} (h : Builds now' b given p mid)
    (suits : ∀ s, now s → now' s) (gives : Gives b known given)
    (h' : ∀ a, Builds anywhere b (mid a ++ known) (next a) post) :
    Builds now b known (p >>= next) post := by
  intro text base s sound is reached holds
  have first := h sound (suits _ is) reached (gives sound reached holds)
  exact first.bindBuilds h' reached holds

/-- What is known before a step is known after it. -/
theorem Builds.keeps {p : Parse α} (h : Builds now b known p mid) :
    Builds now b known p fun a => mid a ++ known := by
  intro text base s sound is reached holds
  have outcome := h sound is reached holds
  exact { outcome with
    holds := fun f mem => (List.mem_append.mp mem).elim (outcome.holds f) fun old =>
      (holds f old).leads outcome.leads }

theorem Builds.pure {a : β} (gives : Gives b known (post a) := by simp +contextual [Gives]) :
    Builds now b known (pure a) post :=
  fun _ _ _ sound _ reached holds =>
    ⟨trivial, sound, .refl _ _, gives sound reached holds⟩

theorem Builds.pureBind {a : α} {next : α → Parse β} (h : Builds now b known (next a) post) :
    Builds now b known (Pure.pure a >>= next) post := by
  intro text base s sound is reached holds
  have outcome := h sound is reached holds
  exact ⟨⟨trivial, outcome.transacts⟩, outcome.sound, outcome.leads, outcome.holds⟩

theorem Builds.map {p : Parse α} {f : α → β} (h : Builds now b known p fun a => post (f a)) :
    Builds now b known (f <$> p) post := by
  intro text base s sound is reached holds
  have outcome := h sound is reached holds
  exact ⟨⟨outcome.transacts, trivial⟩, outcome.sound, outcome.leads, outcome.holds⟩

theorem Builds.discard {p : Parse α} {facts : List Fact} (h : Builds now b known p fun _ => facts) :
    Builds now b known (discard p) fun _ => facts := by
  intro text base s sound is reached holds
  have outcome := h sound is reached holds
  exact ⟨⟨outcome.transacts, trivial⟩, outcome.sound, outcome.leads, outcome.holds⟩

theorem Builds.ite {c : Prop} [Decidable c] {p q : Parse β} (h : c → Builds now b known p post)
    (h' : ¬ c → Builds now b known q post) : Builds now b known (if c then p else q) post := by
  split
  · exact h ‹_›
  · exact h' ‹_›

end Rules
end Parse
end LoopCapture.Grammar
