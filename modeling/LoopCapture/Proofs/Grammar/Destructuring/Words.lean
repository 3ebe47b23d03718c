import LoopCapture.Proofs.Grammar.Destructuring.Lists

/-!
# Names and keys in patterns

A name that is a default or a computed key is an expression to either grammar. Keys are read by one
routine in both of them.
-/

namespace LoopCapture.Token
open Text (byteSize)

theorem Name.isName_kind (n : Name) : n.kind.isName = true := by
  obtain is | ⟨word, is, contextual, -⟩ := n.kind_eq
  · rw [is]; rfl
  · rw [is, Kind.isName, Kind.isContextual, contextual, Bool.or_true]

theorem Name.isWord_kind (n : Name) : n.kind.isWord = true := by
  obtain is | ⟨word, is, -⟩ := n.kind_eq <;> rw [is] <;> rfl

theorem Name.beginsOperand_kind (n : Name) : n.kind.beginsOperand = true := by
  obtain is | ⟨word, is, contextual, other⟩ := n.kind_eq
  · rw [is]; rfl
  · rw [is, Kind.beginsOperand, contextual, bne_iff_ne.mpr other]; rfl

theorem Word.byteSize_gap_le (w : Word) : byteSize w.gap.text ≤ byteSize w.text := by
  rw [Word.text, Text.byteSize_append]
  exact Nat.le_add_right _ _

end LoopCapture.Token

namespace LoopCapture.Grammar.Parse
open Phrase (nameNode)
open Text (Offset byteSize)
open Token (BeginsWith Gap Kind Punctuator Shows Word)
open Syntax (Child NodeId NodeTable)

variable {parse : Parser} {s : State} {w : Word} {after : Offset} {t : NodeTable} {m : Punctuator}
  {cs : List Char}

theorem run_identifier_word (ends : Token.EndsName cs) :
    identifier.run (s.facing ⟨after, w.text ++ cs⟩ t) = (some t.size,
      s.facing ⟨after + byteSize w.text, cs⟩ (t.push (nameNode w after .identifier))) :=
  run_identifier (Token.shows_word w ends after) w.name.isName_kind
    (Nat.add_le_add_left w.byteSize_gap_le after)

theorem run_propertyName_word (ends : Token.EndsName cs) :
    propertyName.run (s.facing ⟨after, w.text ++ cs⟩ t) = (some t.size,
      s.facing ⟨after + byteSize w.text, cs⟩ (t.push (nameNode w after .propertyName))) :=
  run_propertyName (Token.shows_word w ends after) w.name.isWord_kind
    (Nat.add_le_add_left w.byteSize_gap_le after)

theorem run_primary_word (follows : BeginsWith m cs) :
    (primary parse).run (s.facing ⟨after, w.text ++ cs⟩ t) = (some t.size,
      s.facing ⟨after + byteSize w.text, cs⟩ (t.push (nameNode w after .identifier))) := by
  have first := Token.shows_word w follows.endsName after
  obtain ⟨v, i, d, next⟩ := follows.shows (after + byteSize w.text)
  have noFunction : (nextOnSameLine (atWord .function_)).run (s.facing ⟨after, w.text ++ cs⟩ t) =
      (false, s.facing ⟨after, w.text ++ cs⟩ t) :=
    run_nextOnSameLine first (by rw [run_atWord next]; rfl)
  have choice : (primary parse).run (s.facing ⟨after, w.text ++ cs⟩ t) = (do
      if ← (pure (w.name.kind == .keyword .async_)) <&&> nextOnSameLine (atWord .function_) then
        advance
        functionExpression parse (after + byteSize w.gap.text) true
      else if w.name.kind.isName then identifier
      else
        reportHere .expressionExpected
        return none : Parse Child).run (s.facing ⟨after, w.text ++ cs⟩ t) := by
    rw [primary, run_labelled, run_bind, run_here first, run_bind, run_kind first]
    obtain is | ⟨word, is, contextual, -⟩ := w.name.kind_eq <;> rw [is]
    cases word <;> first | rfl | cases contextual
  rw [choice, run_bind, run_both, run_pure]
  simp only [noFunction, ite_self, Bool.false_eq_true, if_false, w.name.isName_kind, if_true]
  exact run_identifier_word follows.endsName

theorem run_assignment_word {n : Nat} (fuel : 4 ≤ n) (free : s.depth + 2 ≤ depthLimit)
    (outside : s.context.isGenerator = false) (follows : BeginsWith m cs)
    (ends : m.endsOperand = true) (noEq : m ≠ .eq) :
    (parseUpTo n .assignment).run (s.facing ⟨after, w.text ++ cs⟩ t) = (some t.size,
      s.facing ⟨after + byteSize w.text, cs⟩ (t.push (nameNode w after .identifier))) := by
  obtain ⟨n, rfl⟩ := Nat.exists_eq_add_of_le' fuel
  have first := Token.shows_word w follows.endsName after
  obtain ⟨v, i, d, next⟩ := follows.shows (after + byteSize w.text)
  exact run_assignment_operand free outside first w.name.beginsOperand_kind next ends noEq
    (run_arrowFunction (run_mayBeArrow_name first w.name.isName_kind next ends))
    (run_primary_word follows)

theorem run_propertyKey_word (ends : Token.EndsName cs) :
    (propertyKey parse).run (s.facing ⟨after, w.text ++ cs⟩ t) = ((some t.size, false),
      s.facing ⟨after + byteSize w.text, cs⟩ (t.push (nameNode w after .propertyName))) := by
  have first := Token.shows_word w ends after
  have choice : (propertyKey parse).run (s.facing ⟨after, w.text ++ cs⟩ t) =
      (do return (← propertyName, false) : Parse (Child × Bool)).run
        (s.facing ⟨after, w.text ++ cs⟩ t) := by
    rw [propertyKey, run_labelled, run_bind, run_kind first]
    obtain is | ⟨word, is, -⟩ := w.name.kind_eq <;> rw [is] <;> rfl
  rw [choice, run_bind, run_propertyName_word ends, run_pure]

theorem run_propertyKey_computed {n : Nat} (fuel : 4 ≤ n) (free : s.depth + 2 ≤ depthLimit)
    (outside : s.context.isGenerator = false) (opening closing : Gap) :
    (propertyKey (parseUpTo n)).run (s.facing ⟨after, opening.mark .openBracket ++
        (w.text ++ (closing.mark .closeBracket ++ cs))⟩ t) = ((some t.size, true),
      s.facing ⟨after + byteSize (opening.mark .openBracket) + byteSize w.text +
        byteSize (closing.mark .closeBracket), cs⟩
        (t.push (nameNode w (after + byteSize (opening.mark .openBracket)) .identifier))) := by
  have first := Token.shows_plain opening .openBracket rfl
    (w.text ++ (closing.mark .closeBracket ++ cs)) after
  have last := Token.shows_plain closing .closeBracket rfl cs
    (after + byteSize (opening.mark .openBracket) + byteSize w.text)
  have key : (allowIn (parseUpTo n .assignment)).run
      (s.facing ⟨after + byteSize (opening.mark .openBracket),
        w.text ++ (closing.mark .closeBracket ++ cs)⟩ t) = (some t.size,
      s.facing ⟨after + byteSize (opening.mark .openBracket) + byteSize w.text,
        closing.mark .closeBracket ++ cs⟩
        (t.push (nameNode w (after + byteSize (opening.mark .openBracket)) .identifier))) :=
    run_within (run_assignment_word fuel free outside
      (.plain_append closing .closeBracket rfl cs) rfl (by simp))
  simp only [propertyKey, run_labelled, run_bind, run_kind first, run_advance first, key,
    run_discard, expectMark, run_expect_same last, run_pure]

theorem run_shorthandDefault_none {default : Parse Child} (follows : BeginsWith m cs)
    (noEq : m ≠ .eq) (start : Offset) (name : NodeId) :
    (shorthandDefault start name default).run (s.facing ⟨after, cs⟩ t) =
      (name, s.facing ⟨after, cs⟩ t) := by
  obtain ⟨v, i, d, next⟩ := follows.shows after
  have other : (Kind.punctuator m == .punctuator .eq) = false :=
    beq_eq_false_iff_ne.mpr fun is => noEq (by injection is)
  simp only [shorthandDefault, run_bind, optionalMark, run_optional_other next other,
    Bool.false_eq_true, if_false, run_pure]

theorem run_shorthandDefault_eq {default : Parse Child} {eq : Gap} {right : Child} {after' : Offset}
    {cs' : List Char} {t' : NodeTable} (ends : Punctuator.eq.Ends cs) {start : Offset}
    (name : NodeId) (le : start ≤ after')
    (h : default.run (s.facing ⟨after + byteSize (eq.mark .eq), cs⟩ t) =
      (right, s.facing ⟨after', cs'⟩ t')) :
    (shorthandDefault start name default).run (s.facing ⟨after, eq.mark .eq ++ cs⟩ t) =
      (t'.size, s.facing ⟨after', cs'⟩
        (t'.push ⟨start, after', .assignmentPattern name right⟩)) := by
  have shows := Token.shows_mark eq ends after
  simp only [shorthandDefault, run_bind, optionalMark, run_optional_same shows, if_true, h]
  exact run_finish le _

end LoopCapture.Grammar.Parse

namespace LoopCapture.Grammar
open Text (Offset byteSize)
open Token (BeginsWith EndsName Gap Punctuator Word)
open Syntax (Child Node NodeId NodeTable)

def shorthandRest (default : Parse Child) (start : Offset) (key target : NodeId) : Parse Child := do
  let value ← shorthandDefault start target default
  finish start (.property ⟨key, value, .init, false, true, false⟩)

def keyedRest (value : Parse Child) (start : Offset) (key : NodeId) (computed : Bool) :
    Parse Child := do
  let content ← value
  finish start (.property ⟨key, content, .init, computed, false, false⟩)

namespace Phrase
open Parse

variable {p default value : Parse Child} {s : State} {literal : Bool} {w : Word}

/-- A step takes a word before a mark for a name and a target. -/
def TakesShorthand (p default : Parse Child) (s : State) (w : Word) : Prop :=
  ∀ ⦃after : Offset⦄ ⦃t : NodeTable⦄ ⦃mark : Punctuator⦄ ⦃cs⦄, BeginsWith mark cs →
    mark.endsOperand = true → p.run (s.facing ⟨after, w.text ++ cs⟩ t) =
      (shorthandRest default (after + byteSize w.gap.text) t.size (t.size + 1)).run
        (s.facing ⟨after + byteSize w.text, cs⟩
          ((t.push (nameNode w after .propertyName)).push (nameNode w after .identifier)))

theorem reads_shorthand (takes : TakesShorthand p default s w) :
    Reads p s literal (shorthand w) := by
  intro after t mark cs follows ends noEq _
  have le := Nat.add_le_add_left w.byteSize_gap_le after
  rw [text, takes follows ends, shorthandRest, run_bind,
    run_shorthandDefault_none follows fun is => by cases noEq is]
  simp only [run_bind, run_finish_at le, run_pure]
  simp only [nodes, node, text, lead, root, count, Array.size_push]
  exact congrArg (fun t => (_, s.facing _ t)) (Array.ext' (by simp))

theorem reads_shorthandDefaulted (takes : TakesShorthand p default s w) (eq : Gap) (d : Word)
    (reads : ∀ ⦃after : Offset⦄ ⦃t : NodeTable⦄ ⦃mark : Punctuator⦄ ⦃cs⦄, BeginsWith mark cs →
      mark.endsOperand = true → mark ≠ .eq → default.run (s.facing ⟨after, d.text ++ cs⟩ t) =
        (some t.size, s.facing ⟨after + byteSize d.text, cs⟩
          (t.push (nameNode d after .identifier)))) :
    Reads p s literal (shorthandDefaulted w eq d) := by
  intro after t mark cs follows ends noEq _
  have le := Nat.add_le_add_left (shorthandDefaulted w eq d).byteSize_lead_le after
  simp only [lead, text, Text.byteSize_append, ← Nat.add_assoc] at le
  rw [text, List.append_assoc, List.append_assoc,
    takes (.mark_append eq (Token.ends_word d cs)) rfl, shorthandRest, run_bind,
    run_shorthandDefault_eq (Token.ends_word d cs) _ le
      (reads follows ends fun is => by cases noEq is)]
  simp only [run_bind, run_finish_at le, run_pure]
  simp only [nodes, node, text, lead, root, count, Array.size_push, Text.byteSize_append,
    ← Nat.add_assoc]
  exact congrArg (fun t => (_, s.facing _ t)) (Array.ext' (by simp))

theorem run_keyedRest {v : Phrase .value} (inner : Reads value s literal v) {key : Node}
    {after start : Offset} {t : NodeTable} {mark : Punctuator} {cs : List Char}
    (follows : BeginsWith mark cs) (ends : mark.endsOperand = true) (noEq : mark ≠ .eq)
    (fits : after + byteSize (v.text ++ cs) ≤ s.size) (le : start ≤ after + byteSize v.text)
    (computed : Bool) :
    (keyedRest value start t.size computed).run (s.facing ⟨after, v.text ++ cs⟩ (t.push key)) =
      (some (t.size + (v.count + 2) - 1), s.facing ⟨after + byteSize v.text, cs⟩
        (t ++ (#[key] ++ v.nodes literal (t.size + 1) after).push ⟨start, after + byteSize v.text,
          .property ⟨t.size, v.root (t.size + 1), .init, computed, false, false⟩⟩)) := by
  have content := inner (t := t.push key) follows ends (fun is => absurd is noEq) fits
  rw [Array.size_push] at content
  simp only [keyedRest, run_bind, content, run_finish_at le, run_pure]
  simp [size_nodes, Nat.add_assoc, Nat.add_comm 1]

theorem reads_named {v : Phrase .value} (inner : Reads value s literal v) (key : Word) (colon : Gap)
    (takes : ∀ ⦃after : Offset⦄ ⦃t : NodeTable⦄ ⦃cs : List Char⦄,
      p.run (s.facing ⟨after, key.text ++ (colon.mark .colon ++ cs)⟩ t) =
        (keyedRest value (after + byteSize key.gap.text) t.size false).run
          (s.facing ⟨after + byteSize key.text + byteSize (colon.mark .colon), cs⟩
            (t.push (nameNode key after .propertyName)))) :
    Reads p s literal (named key colon v) := by
  intro after t mark cs follows ends noEq fits
  simp only [text, List.append_assoc] at fits ⊢
  simp only [Text.byteSize_append key.text, Text.byteSize_append (colon.mark .colon),
    ← Nat.add_assoc] at fits
  have le := Nat.add_le_add_left (named key colon v).byteSize_lead_le after
  simp only [lead, text, Text.byteSize_append, ← Nat.add_assoc] at le
  rw [takes, run_keyedRest inner follows ends (fun is => by cases noEq is) fits le]
  simp only [nodes, node, text, Text.byteSize_append, ← Nat.add_assoc]
  rfl

theorem reads_computed {v : Phrase .value} (inner : Reads value s literal v) (key : Word)
    (opening closing colon : Gap) (takes : ∀ ⦃after : Offset⦄ ⦃t : NodeTable⦄ ⦃cs : List Char⦄,
      p.run (s.facing ⟨after, opening.mark .openBracket ++
          (key.text ++ (closing.mark .closeBracket ++ (colon.mark .colon ++ cs)))⟩ t) =
        (keyedRest value (after + byteSize opening.text) t.size true).run
          (s.facing ⟨after + byteSize (opening.mark .openBracket) + byteSize key.text +
              byteSize (closing.mark .closeBracket) + byteSize (colon.mark .colon), cs⟩
            (t.push (nameNode key (after + byteSize (opening.mark .openBracket)) .identifier)))) :
    Reads p s literal (computed opening key closing colon v) := by
  intro after t mark cs follows ends noEq fits
  simp only [text, List.append_assoc] at fits ⊢
  simp only [Text.byteSize_append (opening.mark .openBracket), Text.byteSize_append key.text,
    Text.byteSize_append (closing.mark .closeBracket), Text.byteSize_append (colon.mark .colon),
    ← Nat.add_assoc] at fits
  have le := Nat.add_le_add_left (computed opening key closing colon v).byteSize_lead_le after
  simp only [lead, text, Text.byteSize_append, ← Nat.add_assoc] at le
  rw [takes, run_keyedRest inner follows ends (fun is => by cases noEq is) fits le]
  simp only [nodes, node, text, Text.byteSize_append, ← Nat.add_assoc]
  rfl

end Phrase
end LoopCapture.Grammar
