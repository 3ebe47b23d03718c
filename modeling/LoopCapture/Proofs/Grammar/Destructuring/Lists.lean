import LoopCapture.Proofs.Grammar.Destructuring.Operand
import LoopCapture.Proofs.Grammar.Destructuring.Phrase

/-!
# Reading the parts of a pattern

What it means that a step reads a phrase: it consumes the text of the phrase, makes the nodes of the
phrase and results in the last one of them. The lists between brackets are read alike by both
grammars, given how each reads what stands between the commas.
-/

namespace LoopCapture.Grammar
open Text (Offset byteSize)
open Token (BeginsWith Gap Kind Punctuator Shows Word)
open Syntax (Child NodeId NodeTable Shape)

namespace Phrase

variable {f : Form}

def Form.isSingle : Form → Bool
  | .elements | .properties => false
  | _ => true

/-- The first token of a phrase starts after its gap. -/
theorem shows_first (x : Phrase f) (single : f.isSingle = true) {mark : Punctuator} {cs : List Char}
    (h : BeginsWith mark cs) (after : Offset) :
    ∃ v d, Shows ⟨after, x.text ++ cs⟩ x.firstKind v (after + byteSize x.lead) d := by
  induction x generalizing mark cs after with
  | name n | shorthand n => exact ⟨_, _, Token.shows_word n h.endsName after⟩
  | array gap | object gap | rest gap | computed gap | restProperty gap =>
    rw [text, List.append_assoc]
    exact ⟨_, _, Token.shows_mark gap (.inl rfl) after⟩
  | plain t ih => exact ih rfl h after
  | defaulted t eq d ih =>
    rw [text, List.append_assoc, List.append_assoc]
    exact ih rfl (.mark_append eq (Token.ends_word d cs)) after
  | item v ih => exact ih rfl h after
  | shorthandDefaulted n eq d =>
    rw [text, List.append_assoc, List.append_assoc]
    exact ⟨_, _, Token.shows_word n (Token.endsName_mark eq (Token.ends_word d cs)) after⟩
  | named key colon v =>
    rw [text, List.append_assoc, List.append_assoc]
    exact ⟨_, _, Token.shows_word key (Token.endsName_mark colon (.inl rfl)) after⟩
  | _ => cases single

/-- A part begins with a word, a bracket or dots: with no closing bracket and no comma. -/
theorem firstKind_ne (x : Phrase f) (single : f.isSingle = true) {k : Kind}
    (other : k = .endOfFile ∨ k = .punctuator .comma ∨ k = .punctuator .closeBracket ∨
      k = .punctuator .closeBrace) : (x.firstKind == k) = false := by
  have word (n : Word) : (n.name.kind == k) = false := by
    refine beq_eq_false_iff_ne.mpr fun is => ?_
    obtain same | ⟨word, same, -⟩ := n.name.kind_eq <;> rw [is] at same <;> subst same <;>
      simp at other
  induction x with
  | name n | shorthand n | shorthandDefaulted n | named n => exact word n
  | array | object | rest | computed | restProperty => obtain rfl | rfl | rfl | rfl := other <;> rfl
  | plain t ih | defaulted t _ _ ih => exact ih rfl
  | item v ih => exact ih rfl
  | _ => cases single

/-- A step reads a phrase where a mark follows that ends it. An equals sign ends no more than a
target. -/
def Reads (p : Parse Child) (s : State) (literal : Bool) (x : Phrase f) : Prop :=
  ∀ ⦃after : Offset⦄ ⦃t : NodeTable⦄ ⦃mark : Punctuator⦄ ⦃cs : List Char⦄, BeginsWith mark cs →
    mark.endsOperand = true → (mark = .eq → f = .target) →
    after + byteSize (x.text ++ cs) ≤ s.size →
    p.run (s.facing ⟨after, x.text ++ cs⟩ t) = (some (x.root t.size),
      s.facing ⟨after + byteSize x.text, cs⟩ (t ++ x.nodes literal t.size after))

end Phrase

/-- One round over the elements of an array. -/
def elementRound (element : Parse Child) (elements : Array Child) :
    Parse (Round (Array Child)) := do
  if ← atClose (.punctuator .closeBracket) then return .done elements
  if ← optionalMark .comma then return .again (elements.push none)
  match ← element with
  | none => return .done elements
  | some node =>
    let elements := elements.push (some node)
    if ← atMark .closeBracket <||> expectMark .comma then return .again elements
    else return .done elements

/-- A step for one element reads all of them, up to a closing bracket. -/
def Phrase.ReadsElements (element : Parse Child) (s : State) (literal : Bool)
    (es : Phrase .elements) : Prop :=
  ∀ ⦃after : Offset⦄ ⦃t : NodeTable⦄ ⦃cs : List Char⦄ (items : Array Child) (more : Nat),
    BeginsWith .closeBracket cs → after + byteSize (es.text ++ cs) ≤ s.size →
    (repeatUpTo (elementRound element) (es.rounds + more) items).run
        (s.facing ⟨after, es.text ++ cs⟩ t) =
      (items ++ (es.items t.size).toArray,
        s.facing ⟨after + byteSize es.text, cs⟩ (t ++ es.nodes literal t.size after))

namespace Phrase
open Parse

variable {element : Parse Child} {s : State} {literal : Bool}

theorem readsElements_none : ReadsElements element s literal noElements := by
  intro after t cs items more follows fits
  obtain ⟨v, i, d, closes⟩ := follows.shows after
  have round : (elementRound element items).run (s.facing ⟨after, cs⟩ t) =
      (.done items, s.facing ⟨after, cs⟩ t) := by
    simp only [elementRound, run_bind, run_atClose closes, beq_self_eq_true, Bool.true_or, if_true,
      run_pure]
  rw [text, List.nil_append, show noElements.rounds = 1 from rfl, Nat.add_comm, run_repeatUpTo,
    round]
  simp [Phrase.items, nodes, byteSize]

theorem readsElements_hole {comma : Gap} {es : Phrase .elements}
    (rest : ReadsElements element s literal es) :
    ReadsElements element s literal (hole comma es) := by
  intro after t cs items more follows fits
  rw [text, List.append_assoc] at fits ⊢
  have shows := Token.shows_plain comma .comma rfl (es.text ++ cs) after
  have noClose : (Kind.punctuator .comma == .punctuator .closeBracket ||
      Kind.punctuator .comma == .endOfFile) = false := rfl
  have round : (elementRound element items).run
      (s.facing ⟨after, comma.mark .comma ++ (es.text ++ cs)⟩ t) =
      (.again (items.push none),
        s.facing ⟨after + byteSize (comma.mark .comma), es.text ++ cs⟩ t) := by
    simp only [elementRound, run_bind, run_atClose shows, noClose, Bool.false_eq_true, if_false,
      optionalMark, run_optional_same shows, if_true, run_pure]
  rw [rounds, Nat.add_right_comm, run_repeatUpTo, round]
  rw [Text.byteSize_append, ← Nat.add_assoc] at fits
  refine (rest (items.push none) more follows fits).trans ?_
  rw [Text.byteSize_append, ← Nat.add_assoc, nodes]
  simp [Phrase.items]

/-- A round over an element, which a comma or the closing bracket follows. -/
theorem run_elementRound {e : Phrase .element} (reads : Reads element s literal e)
    {after : Offset} {t : NodeTable} {cs : List Char} {mark : Punctuator} (items : Array Child)
    (follows : BeginsWith mark cs) (ends : mark.endsOperand = true) (noEq : mark ≠ .eq)
    (fits : after + byteSize (e.text ++ cs) ≤ s.size) :
    (elementRound element items).run (s.facing ⟨after, e.text ++ cs⟩ t) =
      ((atMark .closeBracket <||> expectMark .comma) >>= fun goesOn =>
        pure (if goesOn = true then .again (items.push (some (e.root t.size)))
          else .done (items.push (some (e.root t.size)))) : Parse (Round (Array Child))).run
        (s.facing ⟨after + byteSize e.text, cs⟩ (t ++ e.nodes literal t.size after)) := by
  obtain ⟨v, d, first⟩ := e.shows_first rfl follows after
  have noClose := e.firstKind_ne rfl (.inr (.inr (.inl rfl)))
  have noEnd := e.firstKind_ne rfl (.inl rfl)
  have noComma := run_optional_other (s := s) (t := t) first (e.firstKind_ne rfl (.inr (.inl rfl)))
  simp only [elementRound, run_bind, run_atClose first, noClose, noEnd, Bool.or_self,
    Bool.false_eq_true, if_false, optionalMark, noComma,
    reads follows ends (fun is => absurd is noEq) fits]
  simp only [run_ite, run_pure]
  split <;> rfl

theorem readsElements_last {e : Phrase .element} (reads : Reads element s literal e) :
    ReadsElements element s literal (lastElement e) := by
  intro after t cs items more follows fits
  have round := run_elementRound (t := t) reads items follows rfl (by simp) fits
  obtain ⟨v, i, d, closes⟩ := follows.shows (after + byteSize e.text)
  simp only [run_bind, run_either, run_atMark closes, beq_self_eq_true, if_true, run_pure] at round
  rw [text, show (lastElement e).rounds = 1 + 1 from rfl, Nat.add_right_comm, run_repeatUpTo, round]
  rw [text, Text.byteSize_append, ← Nat.add_assoc] at fits
  refine (@readsElements_none element s literal _ _ _ (items.push (some (e.root t.size))) more
    follows fits).trans ?_
  simp [Phrase.items, nodes, text, byteSize]

theorem readsElements_more {e : Phrase .element} {comma : Gap} {es : Phrase .elements}
    (reads : Reads element s literal e) (rest : ReadsElements element s literal es) :
    ReadsElements element s literal (moreElements e comma es) := by
  intro after t cs items more follows fits
  rw [text, List.append_assoc, List.append_assoc] at fits ⊢
  have shows := Token.shows_plain comma .comma rfl (es.text ++ cs) (after + byteSize e.text)
  have round := run_elementRound (t := t) reads items (.plain_append comma .comma rfl _) rfl
    (by simp) fits
  have noClose : (Kind.punctuator .comma == .punctuator .closeBracket) = false := rfl
  simp only [run_bind, run_either, run_atMark shows, noClose, Bool.false_eq_true, if_false,
    expectMark, run_expect_same shows, if_true, run_pure] at round
  rw [rounds, Nat.add_right_comm, run_repeatUpTo, round]
  simp only [Text.byteSize_append, ← Nat.add_assoc] at fits
  refine (rest (items.push (some (e.root t.size))) more follows ?_).trans ?_
  · rw [Text.byteSize_append, ← Nat.add_assoc]
    exact fits
  · simp [Phrase.items, nodes, Text.byteSize_append, Nat.add_assoc, size_nodes]

end Phrase

/-- One round over items with commas between them. -/
def commaRound (close : Kind) (item : Parse Child) (items : Array NodeId) :
    Parse (Round (Array NodeId)) := do
  if ← atClose close then return .done items
  match ← item with
  | none => return .done items
  | some node =>
    if ← optionalMark .comma then return .again (items.push node)
    else return .done (items.push node)

/-- A step for one property reads all of them, up to a closing brace. -/
def Phrase.ReadsMembers (member : Parse Child) (s : State) (literal : Bool)
    (ps : Phrase .properties) : Prop :=
  ∀ ⦃after : Offset⦄ ⦃t : NodeTable⦄ ⦃cs : List Char⦄ (items : Array NodeId) (more : Nat),
    BeginsWith .closeBrace cs → after + byteSize (ps.text ++ cs) ≤ s.size →
    (repeatUpTo (commaRound (.punctuator .closeBrace) member) (ps.rounds + more) items).run
        (s.facing ⟨after, ps.text ++ cs⟩ t) =
      (items ++ (ps.members t.size).toArray,
        s.facing ⟨after + byteSize ps.text, cs⟩ (t ++ ps.nodes literal t.size after))

namespace Phrase
open Parse

variable {f : Form} {element member : Parse Child} {s : State} {literal : Bool}

theorem readsMembers_none : ReadsMembers member s literal noProperties := by
  intro after t cs items more follows fits
  obtain ⟨v, i, d, closes⟩ := follows.shows after
  have round : (commaRound (.punctuator .closeBrace) member items).run (s.facing ⟨after, cs⟩ t) =
      (.done items, s.facing ⟨after, cs⟩ t) := by
    simp only [commaRound, run_bind, run_atClose closes, beq_self_eq_true, Bool.true_or, if_true,
      run_pure]
  rw [text, List.nil_append, show noProperties.rounds = 1 from rfl, Nat.add_comm, run_repeatUpTo,
    round]
  simp [members, nodes, byteSize]

/-- A round over a property, which a comma or the closing brace follows. -/
theorem run_memberRound {p : Phrase .property} (reads : Reads member s literal p)
    {after : Offset} {t : NodeTable} {cs : List Char} {mark : Punctuator} (items : Array NodeId)
    (follows : BeginsWith mark cs) (ends : mark.endsOperand = true) (noEq : mark ≠ .eq)
    (fits : after + byteSize (p.text ++ cs) ≤ s.size) :
    (commaRound (.punctuator .closeBrace) member items).run (s.facing ⟨after, p.text ++ cs⟩ t) =
      (optionalMark .comma >>= fun goesOn =>
        pure (if goesOn = true then .again (items.push (p.root t.size))
          else .done (items.push (p.root t.size))) : Parse (Round (Array NodeId))).run
        (s.facing ⟨after + byteSize p.text, cs⟩ (t ++ p.nodes literal t.size after)) := by
  obtain ⟨v, d, first⟩ := p.shows_first rfl follows after
  have noClose := p.firstKind_ne rfl (.inr (.inr (.inr rfl)))
  have noEnd := p.firstKind_ne rfl (.inl rfl)
  simp only [commaRound, run_bind, run_atClose first, noClose, noEnd, Bool.or_self,
    Bool.false_eq_true, if_false, reads follows ends (fun is => absurd is noEq) fits]
  simp only [run_ite, run_pure]
  split <;> rfl

theorem readsMembers_last {p : Phrase .property} (reads : Reads member s literal p) :
    ReadsMembers member s literal (lastProperty p) := by
  intro after t cs items more follows fits
  have round := run_memberRound (t := t) reads items follows rfl (by simp) fits
  obtain ⟨v, i, d, closes⟩ := follows.shows (after + byteSize p.text)
  have noComma : (Kind.punctuator .closeBrace == .punctuator .comma) = false := rfl
  simp only [run_bind, optionalMark, run_optional_other closes noComma, Bool.false_eq_true,
    if_false, run_pure] at round
  rw [text, show (lastProperty p).rounds = 1 + 1 from rfl, Nat.add_right_comm, run_repeatUpTo,
    round]
  simp [members, nodes]

theorem readsMembers_more {p : Phrase .property} {comma : Gap} {ps : Phrase .properties}
    (reads : Reads member s literal p) (rest : ReadsMembers member s literal ps) :
    ReadsMembers member s literal (moreProperties p comma ps) := by
  intro after t cs items more follows fits
  rw [text, List.append_assoc, List.append_assoc] at fits ⊢
  have shows := Token.shows_plain comma .comma rfl (ps.text ++ cs) (after + byteSize p.text)
  have round := run_memberRound (t := t) reads items (.plain_append comma .comma rfl _) rfl
    (by simp) fits
  simp only [run_bind, optionalMark, run_optional_same shows, if_true, run_pure] at round
  rw [rounds, Nat.add_right_comm, run_repeatUpTo, round]
  simp only [Text.byteSize_append, ← Nat.add_assoc] at fits
  refine (rest (items.push (p.root t.size)) more follows ?_).trans ?_
  · rw [Text.byteSize_append, ← Nat.add_assoc]
    exact fits
  · simp [members, nodes, Text.byteSize_append, Nat.add_assoc, size_nodes]

/-- There is room for all rounds in what is left of the text. -/
theorem exists_rounds (x : Phrase f) {after size : Nat} {cs : List Char}
    (fits : after + byteSize (x.text ++ cs) ≤ size) :
    ∃ more, size - (after + byteSize x.lead) + 2 = x.rounds + more := by
  have bound := x.rounds_le
  rw [Text.byteSize_append] at fits
  exact Nat.exists_eq_add_of_le (by omega)

/-- A list of no parts takes one round. The others start with the first token of the first part. -/
theorem exists_rounds_first {x : Phrase f} (list : f.isSingle = false) {after : Offset}
    {cs : List Char} {mark : Punctuator} (follows : BeginsWith mark cs)
    (fits : after + byteSize (x.text ++ cs) ≤ s.size) : ∃ more,
      s.size - (Token.Scanner.next ⟨after, x.text ++ cs⟩).start.offset + 2 = x.rounds + more := by
  cases x with
  | noElements | noProperties => exact Nat.exists_eq_add_of_le (Nat.le_add_left 1 _)
  | hole comma es =>
    have first := Token.shows_plain comma .comma rfl (es.text ++ cs) after
    rw [text, List.append_assoc, first.start]
    exact exists_rounds (hole comma es) fits
  | lastElement e =>
    obtain ⟨v, d, first⟩ := e.shows_first rfl follows after
    rw [text, first.start]
    exact exists_rounds (lastElement e) fits
  | lastProperty p =>
    obtain ⟨v, d, first⟩ := p.shows_first rfl follows after
    rw [text, first.start]
    exact exists_rounds (lastProperty p) fits
  | moreElements e comma es =>
    obtain ⟨v, d, first⟩ := e.shows_first rfl (.plain_append comma .comma rfl (es.text ++ cs)) after
    rw [text, List.append_assoc, List.append_assoc, first.start]
    exact exists_rounds (moreElements e comma es) fits
  | moreProperties p comma ps =>
    obtain ⟨v, d, first⟩ := p.shows_first rfl (.plain_append comma .comma rfl (ps.text ++ cs)) after
    rw [text, List.append_assoc, List.append_assoc, first.start]
    exact exists_rounds (moreProperties p comma ps) fits
  | _ => cases list

theorem run_elementList {es : Phrase .elements} (reads : ReadsElements element s literal es)
    {after : Offset} {t : NodeTable} {cs : List Char} (follows : BeginsWith .closeBracket cs)
    (fits : after + byteSize (es.text ++ cs) ≤ s.size) :
    (elementList element).run (s.facing ⟨after, es.text ++ cs⟩ t) = (es.items t.size,
      s.facing ⟨after + byteSize es.text, cs⟩ (t ++ es.nodes literal t.size after)) := by
  obtain ⟨more, rounds⟩ := exists_rounds_first rfl follows fits
  have run : (elementList element).run (s.facing ⟨after, es.text ++ cs⟩ t) =
      (iterate #[] (elementRound element) >>= fun items => pure items.toList).run
        (s.facing ⟨after, es.text ++ cs⟩ t) := rfl
  have loop : (iterate #[] (elementRound element)).run (s.facing ⟨after, es.text ++ cs⟩ t) =
      (repeatUpTo (elementRound element) (es.rounds + more) #[]).run
        (s.facing ⟨after, es.text ++ cs⟩ t) := by
    rw [← rounds]
    rfl
  rw [run, run_bind, loop, reads #[] more follows fits]
  simp [run_pure]

theorem run_memberList {ps : Phrase .properties} (reads : ReadsMembers member s literal ps)
    {after : Offset} {t : NodeTable} {cs : List Char} (follows : BeginsWith .closeBrace cs)
    (fits : after + byteSize (ps.text ++ cs) ≤ s.size) :
    (commaList (.punctuator .closeBrace) member).run (s.facing ⟨after, ps.text ++ cs⟩ t) =
      (ps.members t.size,
        s.facing ⟨after + byteSize ps.text, cs⟩ (t ++ ps.nodes literal t.size after)) := by
  obtain ⟨more, rounds⟩ := exists_rounds_first rfl follows fits
  have run : (commaList (.punctuator .closeBrace) member).run
        (s.facing ⟨after, ps.text ++ cs⟩ t) =
      (iterate #[] (commaRound (.punctuator .closeBrace) member) >>=
        fun items => pure items.toList).run (s.facing ⟨after, ps.text ++ cs⟩ t) := rfl
  have loop : (iterate #[] (commaRound (.punctuator .closeBrace) member)).run
        (s.facing ⟨after, ps.text ++ cs⟩ t) =
      (repeatUpTo (commaRound (.punctuator .closeBrace) member) (ps.rounds + more) #[]).run
        (s.facing ⟨after, ps.text ++ cs⟩ t) := by
    rw [← rounds]
    rfl
  rw [run, run_bind, loop, reads #[] more follows fits]
  simp [run_pure]

end Phrase

/-- A list between brackets, the first of which is ahead. -/
def bracketed {α : Type} (close : Punctuator) (list : Parse α) (shape : α → Shape) :
    Parse Child := do
  let start ← here
  advance
  let items ← list
  discard <| expectMark close
  finish start (shape items)

namespace Phrase
open Parse

variable {s : State} {literal : Bool}

theorem run_bracketed {α : Type} {list : Parse α} {a : α} {mark close : Punctuator}
    {inner cs : List Char} {after : Offset} {t t' : NodeTable} (opening closing : Gap)
    (plain : mark.isPlain = true) (plain' : close.isPlain = true) (shape : α → Shape)
    (h : list.run (s.facing ⟨after + byteSize (opening.mark mark),
        inner ++ (closing.mark close ++ cs)⟩ t) = (a, s.facing
      ⟨after + byteSize (opening.mark mark) + byteSize inner, closing.mark close ++ cs⟩ t')) :
    (bracketed close list shape).run
        (s.facing ⟨after, opening.mark mark ++ (inner ++ (closing.mark close ++ cs))⟩ t) =
      (some t'.size, s.facing
        ⟨after + byteSize (opening.mark mark ++ (inner ++ closing.mark close)), cs⟩
        (t'.push ⟨after + byteSize opening.text,
          after + byteSize (opening.mark mark ++ (inner ++ closing.mark close)), shape a⟩)) := by
  have first := Token.shows_plain opening mark plain (inner ++ (closing.mark close ++ cs)) after
  have last := Token.shows_plain closing close plain' cs
    (after + byteSize (opening.mark mark) + byteSize inner)
  have le : after + byteSize opening.text ≤ after + byteSize (opening.mark mark) +
      byteSize inner + byteSize (closing.mark close) :=
    Nat.le_trans (Nat.add_le_add_left (Nat.le_of_lt (byteSize_gap_lt opening mark)) after)
      (Nat.le_trans (Nat.le_add_right _ _) (Nat.le_add_right _ _))
  simp only [bracketed, run_bind, run_here first, run_advance first, h, run_discard, expectMark,
    run_expect_same last, run_finish_at le, run_pure, Text.byteSize_append, ← Nat.add_assoc]

/-- An array is read by a step that takes what is between brackets for its elements. -/
theorem reads_array {p : Parse Child} (list : Parse (List Child)) {es : Phrase .elements}
    (opening closing : Gap)
    (choice : ∀ ⦃c v i d t⦄, Shows c (.punctuator .openBracket) v i d → p.run (s.facing c t) =
      (bracketed .closeBracket list fun items =>
        if literal then .array items else .arrayPattern items).run (s.facing c t))
    (inner : ∀ ⦃after : Offset⦄ ⦃t : NodeTable⦄ ⦃cs⦄, BeginsWith .closeBracket cs →
      after + byteSize (es.text ++ cs) ≤ s.size →
      list.run (s.facing ⟨after, es.text ++ cs⟩ t) = (es.items t.size,
        s.facing ⟨after + byteSize es.text, cs⟩ (t ++ es.nodes literal t.size after))) :
    Reads p s literal (array opening es closing) := by
  intro after t mark cs follows _ _ fits
  simp only [text, List.append_assoc] at fits ⊢
  rw [Text.byteSize_append, ← Nat.add_assoc] at fits
  rw [choice (Token.shows_plain opening .openBracket rfl _ after), run_bracketed opening closing rfl
    rfl _ (inner (.plain_append closing .closeBracket rfl cs) fits), Array.size_append, size_nodes,
    nodes, Array.append_push]
  rfl

/-- An object is read by a step that takes what is between braces for its properties. -/
theorem reads_object {p : Parse Child} (properties : Parse (List NodeId)) {ps : Phrase .properties}
    (opening closing : Gap)
    (choice : ∀ ⦃c v i d t⦄, Shows c (.punctuator .openBrace) v i d → p.run (s.facing c t) =
      (bracketed .closeBrace properties fun members =>
        if literal then .object members else .objectPattern members).run (s.facing c t))
    (inner : ∀ ⦃after : Offset⦄ ⦃t : NodeTable⦄ ⦃cs⦄, BeginsWith .closeBrace cs →
      after + byteSize (ps.text ++ cs) ≤ s.size →
      properties.run (s.facing ⟨after, ps.text ++ cs⟩ t) = (ps.members t.size,
        s.facing ⟨after + byteSize ps.text, cs⟩ (t ++ ps.nodes literal t.size after))) :
    Reads p s literal (object opening ps closing) := by
  intro after t mark cs follows _ _ fits
  simp only [text, List.append_assoc] at fits ⊢
  rw [Text.byteSize_append, ← Nat.add_assoc] at fits
  rw [choice (Token.shows_plain opening .openBrace rfl _ after), run_bracketed opening closing rfl
    rfl _ (inner (.plain_append closing .closeBrace rfl cs) fits), Array.size_append, size_nodes,
    nodes, Array.append_push]
  rfl

end Phrase

/-- An operand after dots, which are ahead. -/
def spreading (operand : Parse Child) (shape : Child → Shape) : Parse Child := do
  let start ← here
  advance
  let target ← operand
  finish start (shape target)

namespace Phrase
open Parse

variable {operand p : Parse Child} {s : State} {literal : Bool} {x : Phrase .target}

theorem run_spreading (inner : Reads operand s literal (plain x)) (dots : Gap) {after : Offset}
    {t : NodeTable} {mark : Punctuator} {cs : List Char} (follows : BeginsWith mark cs)
    (ends : mark.endsOperand = true) (noEq : mark ≠ .eq)
    (fits : after + byteSize (dots.mark .ellipsis ++ (x.text ++ cs)) ≤ s.size) :
    (spreading operand fun target => if literal then .spread target else .restElement target).run
        (s.facing ⟨after, dots.mark .ellipsis ++ (x.text ++ cs)⟩ t) =
      (some ((rest dots x).root t.size), s.facing ⟨after + byteSize (rest dots x).text, cs⟩
        (t ++ (rest dots x).nodes literal t.size after)) := by
  have first := Token.shows_plain dots .ellipsis rfl (x.text ++ cs) after
  rw [Text.byteSize_append, ← Nat.add_assoc] at fits
  have target := inner (t := t) follows ends (fun is => absurd is noEq) fits
  have le : after + byteSize dots.text ≤
      after + byteSize (dots.mark .ellipsis) + byteSize x.text :=
    Nat.le_trans (Nat.add_le_add_left (Nat.le_of_lt (byteSize_gap_lt dots .ellipsis)) after)
      (Nat.le_add_right _ _)
  rw [text] at target
  simp only [spreading, run_bind, run_here first, run_advance first, target, run_finish_at le,
    run_pure]
  simp only [nodes, Array.append_push, Array.size_append, size_nodes, node, text,
    Text.byteSize_append, ← Nat.add_assoc]
  rfl

theorem reads_rest (operand : Parse Child) (inner : Reads operand s literal (plain x)) (dots : Gap)
    (choice : ∀ ⦃c v i d t⦄, Shows c (.punctuator .ellipsis) v i d → p.run (s.facing c t) =
      (spreading operand fun target =>
        if literal then .spread target else .restElement target).run (s.facing c t)) :
    Reads p s literal (rest dots x) := by
  intro after t mark cs follows ends noEq fits
  rw [text, List.append_assoc] at fits ⊢
  rw [choice (Token.shows_plain dots .ellipsis rfl _ after)]
  exact run_spreading inner dots follows ends (fun is => by cases noEq is) fits

theorem reads_restProperty (operand : Parse Child) (inner : Reads operand s literal (plain x))
    (dots : Gap)
    (choice : ∀ ⦃c v i d t⦄, Shows c (.punctuator .ellipsis) v i d → p.run (s.facing c t) =
      (spreading operand fun target =>
        if literal then .spread target else .restElement target).run (s.facing c t)) :
    Reads p s literal (restProperty dots x) := by
  intro after t mark cs follows ends noEq fits
  rw [text, List.append_assoc] at fits ⊢
  rw [choice (Token.shows_plain dots .ellipsis rfl _ after)]
  exact run_spreading inner dots follows ends (fun is => by cases noEq is) fits

end Phrase

/-- The steps of a grammar that read the parts of a pattern. -/
structure Phrase.Steps where
  target : Parse Child
  value : Parse Child
  element : Parse Child
  property : Parse Child

/-- The steps of a grammar read a phrase. A list is read by the step for its parts. -/
def Phrase.IsRead (steps : Phrase.Steps) (s : State) (literal : Bool) :
    {f : Phrase.Form} → Phrase f → Prop
  | .target, x => x.Reads steps.target s literal
  | .value, x => x.Reads steps.value s literal
  | .element, x => x.Reads steps.element s literal
  | .property, x => x.Reads steps.property s literal
  | .elements, x => x.ReadsElements steps.element s literal
  | .properties, x => x.ReadsMembers steps.property s literal

end LoopCapture.Grammar
