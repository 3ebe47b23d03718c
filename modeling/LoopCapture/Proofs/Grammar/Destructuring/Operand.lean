import LoopCapture.Grammar.SourceFile
import LoopCapture.Proofs.Grammar.Destructuring.Steps

/-!
# Expressions that are one operand

Where a separator, a closing bracket or an equals sign follows what is read as a primary expression,
nothing on the way up to an assignment expression adds to it: there are no members, no operators and
no arrow.
-/

namespace LoopCapture.Token

/-- The marks after which no operand goes on: separators, closing brackets and the equals sign. -/
def Punctuator.endsOperand : Punctuator → Bool
  | .comma | .closeBracket | .closeBrace | .closeParen | .semicolon | .eq => true
  | _ => false

/-- The tokens that begin a literal, a name or an expression between parentheses. -/
def Kind.beginsOperand : Kind → Bool
  | .identifier | .punctuator .openBracket | .punctuator .openBrace | .punctuator .openParen => true
  | .keyword word => word.isContextual && word != .await_
  | _ => false

end LoopCapture.Token

namespace LoopCapture.Grammar.Parse
open Text (Offset)
open Token (Cursor Kind Keyword Punctuator Scanner Shows)
open Syntax (Child Node NodeId NodeTable Shape)

variable {α β : Type} {parse : Parser} {s : State} {c c' d d' : Cursor} {t t' : NodeTable}
  {k : Kind} {m : Punctuator} {v v' : String} {i i' : Offset} {id : NodeId}

/-- A scanner that nothing is wrong with is gone back to as it was. -/
theorem rewind_next (shows : Shows c k v i d) :
    (Scanner.next c').rewind (Scanner.next c) = Scanner.next c :=
  Scanner.rewind_of_append (show _ = _ ++ (Scanner.next c').errors by simp [shows.quiet])

theorem run_lookAhead_facing {p : Parse α} {a : α} (shows : Shows c k v i d) (c' : Cursor)
    (h : p.run (s.facing c t) = (a, s.facing c' t)) :
    (lookAhead p).run (s.facing c t) = (a, s.facing c t) := by
  have run : (lookAhead p).run (s.facing c t) = ((p.run (s.facing c t)).1,
    (p.run (s.facing c t)).2.rewindToken (Scanner.next c) c.offset) := rfl
  rw [run, h]
  simp only [State.rewindToken, State.facing, rewind_next shows]

/-- Nothing is left of an attempt that fails. -/
theorem run_attempt_facing {p : Parse (Option α)} {more : NodeTable} (shows : Shows c k v i d)
    (h : p.run (s.facing c t) = (none, s.facing c' (t ++ more))) :
    (attempt p).run (s.facing c t) = (none, s.facing c t) := by
  have run : (attempt p).run (s.facing c t) =
      if (p.run (s.facing c t)).1.isSome ∧
        (p.run (s.facing c t)).2.errorCount = (s.facing c t).mark.errorCount then
        p.run (s.facing c t)
      else (none, (p.run (s.facing c t)).2.rewind (s.facing c t).mark) := rfl
  rw [run, h, if_neg (by simp)]
  simp [State.rewind, State.rewindToken, State.mark, State.facing, rewind_next shows]

theorem run_nextIsMark (shows : Shows c k v i d) {k' : Kind} (next : Shows d k' v' i' d')
    (m : Punctuator) : (nextIsMark m).run (s.facing c t) = (k' == .punctuator m, s.facing c t) := by
  refine run_lookAhead_facing shows d ?_
  rw [run_bind, run_advance shows, run_isAt next]

theorem run_repeatUpTo (step : α → Parse (Round α)) (n : Nat) (a : α) (s : State) :
    (repeatUpTo step (n + 1) a).run s =
      match (step a).run s with
      | (.again a, s) => (repeatUpTo step n a).run s
      | (.done a, s) => (a, s) := by
  rw [repeatUpTo, run_bind, run_labelled]
  obtain ⟨round, s'⟩ := (step a).run s
  cases round <;> rfl

theorem run_iterate_done {step : α → Parse (Round α)} {a a' : α} {s s' : State}
    (h : (step a).run s = (.done a', s')) : (iterate a step).run s = (a', s') := by
  have run : (iterate a step).run s =
    (repeatUpTo step (s.size - s.scanner.start.offset + 2) a).run s := rfl
  rw [run, run_repeatUpTo, h]

theorem run_chain (shows : Shows c (.punctuator m) v i d) (ends : m.endsOperand = true)
    (start : Offset) (allowCalls : Bool) (object : NodeId) :
    (chain parse start allowCalls object).run (s.facing c t) = (some object, s.facing c t) := by
  rw [chain, run_labelled]
  refine run_iterate_done ?_
  simp only [chainRound, run_bind, run_kind shows]
  cases m <;> first | rfl | cases ends

theorem run_leftHandSideBody (first : Shows c k v i d) (begins : k.beginsOperand = true)
    (last : Shows c' (.punctuator m) v' i' d') (ends : m.endsOperand = true)
    (h : (primary parse).run (s.facing c t) = (some id, s.facing c' t')) :
    (leftHandSideBody parse).run (s.facing c t) = (some id, s.facing c' t') := by
  have noNew : (k == .keyword .new_) = false := by
    cases k with
    | keyword word => cases word <;> first | rfl | cases begins
    | _ => rfl
  simp only [leftHandSideBody, run_bind, run_here first, run_atWord first, noNew,
    Bool.false_eq_true, if_false, h, run_chain last ends]

theorem run_postfixBody (first : Shows c k v i d) (last : Shows c' (.punctuator m) v' i' d')
    (ends : m.endsOperand = true)
    (h : (parse .leftHandSide).run (s.facing c t) = (some id, s.facing c' t')) :
    (postfixBody parse).run (s.facing c t) = (some id, s.facing c' t') := by
  simp only [postfixBody, run_labelled, run_bind, run_here first, h, run_kind last]
  cases m <;> first | rfl | cases ends

theorem run_unaryBody (first : Shows c k v i d) (begins : k.beginsOperand = true) :
    (unaryBody parse).run (s.facing c t) = (postfixBody parse).run (s.facing c t) := by
  simp only [unaryBody, run_bind, run_here first, run_kind first]
  cases k with
  | keyword word => cases word <;> first | rfl | cases begins
  | punctuator m => cases m <;> first | rfl | cases begins
  | identifier => rfl
  | _ => cases begins

theorem run_binaryRound (last : Shows c (.punctuator m) v i d) (ends : m.endsOperand = true)
    (start : Offset) (above : Nat) (left : Child) :
    (binaryRound parse start above left).run (s.facing c t) = (.done left, s.facing c t) := by
  have same : (reread .greater).run (s.facing c t) = ((), s.facing c t) := by
    have scanner : (Scanner.next c).rescanGreater = Scanner.next c := by
      rw [Scanner.rescanGreater, last.kind, if_neg]
      rintro ⟨⟩
      cases ends
    simp only [Parse.run, State.reread, State.facing, Rereading.apply, scanner]
  have level : ∀ withoutIn, precedence withoutIn (.punctuator m) = 0 := by
    cases m <;> first | exact fun _ => rfl | cases ends
  simp only [binaryRound, run_bind, same, run_kind last, level, Nat.zero_le, if_true]
  rfl

theorem run_guarded {p : Parse Child} {child : Child} (free : s.depth < depthLimit)
    (h : p.run ({ s with depth := s.depth + 1 }.facing c t) =
      (child, { s with depth := s.depth + 1 }.facing c' t')) :
    (guarded p).run (s.facing c t) = (child, s.facing c' t') := by
  have run : (guarded p).run (s.facing c t) =
      ((p.run ({ s with depth := s.depth + 1 }.facing c t)).1,
        { (p.run ({ s with depth := s.depth + 1 }.facing c t)).2 with
          depth := (p.run ({ s with depth := s.depth + 1 }.facing c t)).2.depth - 1 }) := by
    simp only [Parse.run, State.facing, free, if_true]
  rw [run, h]
  rfl

theorem run_within {p : Parse α} {a : α} {change : Context → Context}
    (h : p.run ({ s with context := change s.context }.facing c t) =
      (a, { s with context := change s.context }.facing c' t')) :
    (within change p).run (s.facing c t) = (a, s.facing c' t') := by
  have run : (within change p).run (s.facing c t) =
    ((p.run ({ s with context := change s.context }.facing c t)).1,
      { (p.run ({ s with context := change s.context }.facing c t)).2 with
        context := s.context }) := rfl
  rw [run, h]
  rfl

theorem run_conditional {n : Nat} (free : s.depth < depthLimit) (first : Shows c k v i d)
    (begins : k.beginsOperand = true) (last : Shows c' (.punctuator m) v' i' d')
    (ends : m.endsOperand = true)
    (h : (primary (parseUpTo n)).run ({ s with depth := s.depth + 1 }.facing c t) =
      (some id, { s with depth := s.depth + 1 }.facing c' t')) :
    (conditional (parseUpTo (n + 3))).run (s.facing c t) = (some id, s.facing c' t') := by
  have unary : (parseUpTo (n + 2) .unary).run (s.facing c t) = (some id, s.facing c' t') :=
    run_guarded free ((run_unaryBody first begins).trans
      (run_postfixBody first last ends (run_leftHandSideBody first begins last ends h)))
  have binary : (parseUpTo (n + 3) (.binary 0)).run (s.facing c t) = (some id, s.facing c' t') := by
    have run : (parseUpTo (n + 3) (.binary 0)).run (s.facing c t) =
      (binaryBody (parseUpTo (n + 2)) 0).run (s.facing c t) := rfl
    rw [run]
    simp only [binaryBody, run_bind, run_here first, unary]
    exact run_iterate_done (run_binaryRound last ends i 0 (some id))
  have noQuestion : (optional (.punctuator .question)).run (s.facing c' t') =
      (false, s.facing c' t') := by
    refine run_optional_other last ?_
    cases m <;> first | rfl | cases ends
  simp only [conditional, run_labelled, run_bind, run_here first, binary, optionalMark, noQuestion,
    Bool.false_eq_true, if_false]
  rfl

theorem run_nextOnSameLine {test : Parse Bool} (shows : Shows c k v i d)
    (h : test.run (s.facing d t) = (false, s.facing d t)) :
    (nextOnSameLine test).run (s.facing c t) = (false, s.facing c t) := by
  refine run_lookAhead_facing shows d ?_
  have look : afterLineBreak.run (s.facing d t) = ((Scanner.next d).lineBreak, s.facing d t) := rfl
  rw [run_bind, run_advance shows, run_bind, look, run_ite, h, run_pure, ite_self]

/-- A name before a mark that ends an operand is no parameter of an arrow function. -/
theorem run_mayBeArrow_name (first : Shows c k v i d) (named : k.isName = true)
    (next : Shows d (.punctuator m) v' i' d') (ends : m.endsOperand = true) :
    mayBeArrow.run (s.facing c t) = (false, s.facing c t) := by
  have noMark : (nextIsMark .arrow).run (s.facing c t) = (false, s.facing c t) := by
    rw [run_nextIsMark first next]
    cases m <;> first | rfl | cases ends
  have noHead : (nextOnSameLine (atName <||> atMark .openParen <||> atMark .less <||>
      atMark .arrow)).run (s.facing c t) = (false, s.facing c t) := by
    refine run_nextOnSameLine first ?_
    simp only [run_either, run_atName next, run_atMark next]
    cases m <;> first | rfl | cases ends
  simp only [mayBeArrow, run_bind, run_kind first]
  split
  · cases named
  · cases named
  · exact noHead
  · simp only [run_both, run_pure, named, if_true, noMark]

theorem run_mayBeArrow_bracket (first : Shows c k v i d)
    (bracket : k = .punctuator .openBracket ∨ k = .punctuator .openBrace) :
    mayBeArrow.run (s.facing c t) = (false, s.facing c t) := by
  simp only [mayBeArrow, run_bind, run_kind first]
  obtain rfl | rfl := bracket <;> rfl

theorem run_arrowFunction (h : mayBeArrow.run (s.facing c t) = (false, s.facing c t)) :
    (arrowFunction parse).run (s.facing c t) = (none, s.facing c t) := by
  simp only [arrowFunction, run_labelled, run_bind, h, Bool.false_eq_true, if_false, run_pure]

/-- What stands where an assignment may begin, and what becomes of it before an operator. -/
theorem run_assignmentBody_left {n : Nat} (free : s.depth < depthLimit)
    (outside : s.context.isGenerator = false) (first : Shows c k v i d)
    (begins : k.beginsOperand = true) (last : Shows c' (.punctuator m) v' i' d')
    (ends : m.endsOperand = true)
    (arrow : (arrowFunction (parseUpTo (n + 3))).run (s.facing c t) = (none, s.facing c t))
    (h : (primary (parseUpTo n)).run ({ s with depth := s.depth + 1 }.facing c t) =
      (some id, { s with depth := s.depth + 1 }.facing c' t')) :
    (assignmentBody (parseUpTo (n + 3))).run (s.facing c t) =
      (if m.isAssignment = true then do
          if Kind.punctuator m = .punctuator .eq then becomePattern id
          advance
          let right ← parseUpTo (n + 3) .assignment
          finish i (.assignment (.punctuator m) id right)
        else return (id : Child) : Parse Child).run (s.facing c' t') := by
  have state : Grammar.state.run (s.facing c t) = (s.facing c t, s.facing c t) := rfl
  have noYield : ((k == .keyword .yield_) && (s.facing c t).context.isGenerator) = false := by
    rw [show (s.facing c t).context.isGenerator = false from outside, Bool.and_false]
  simp only [assignmentBody, run_bind, run_atWord first, state, noYield, Bool.false_eq_true,
    if_false, arrow, run_here first, run_conditional free first begins last ends h, run_kind last]
  rfl

theorem run_assignment_operand {n : Nat} (free : s.depth + 1 < depthLimit)
    (outside : s.context.isGenerator = false) (first : Shows c k v i d)
    (begins : k.beginsOperand = true) (last : Shows c' (.punctuator m) v' i' d')
    (ends : m.endsOperand = true) (noEq : m ≠ .eq)
    (arrow : (arrowFunction (parseUpTo (n + 3))).run ({ s with depth := s.depth + 1 }.facing c t) =
      (none, { s with depth := s.depth + 1 }.facing c t))
    (h : (primary (parseUpTo n)).run ({ s with depth := s.depth + 2 }.facing c t) =
      (some id, { s with depth := s.depth + 2 }.facing c' t')) :
    (parseUpTo (n + 4) .assignment).run (s.facing c t) = (some id, s.facing c' t') := by
  refine run_guarded (Nat.lt_of_succ_lt free) ?_
  refine (run_assignmentBody_left (s := { s with depth := s.depth + 1 }) free outside first begins
    last ends arrow h).trans ?_
  cases m <;> first | rfl | exact absurd rfl noEq | cases ends

theorem run_assignment_eq {n : Nat} {c'' : Cursor} {right : Child} {t'' : NodeTable}
    (free : s.depth + 1 < depthLimit)
    (outside : s.context.isGenerator = false) (first : Shows c k v i d)
    (begins : k.beginsOperand = true) (last : Shows c' (.punctuator .eq) v' i' d')
    (arrow : (arrowFunction (parseUpTo (n + 3))).run ({ s with depth := s.depth + 1 }.facing c t) =
      (none, { s with depth := s.depth + 1 }.facing c t))
    (h : (primary (parseUpTo n)).run ({ s with depth := s.depth + 2 }.facing c t) =
      (some id, { s with depth := s.depth + 2 }.facing c' t'))
    (value : (parseUpTo (n + 3) .assignment).run
      ({ s with depth := s.depth + 1 }.facing d' (t'.asPattern id)) =
      (right, { s with depth := s.depth + 1 }.facing c'' t'')) (le : i ≤ c''.offset) :
    (parseUpTo (n + 4) .assignment).run (s.facing c t) =
      (some t''.size, s.facing c''
        (t''.push ⟨i, c''.offset, .assignment (.punctuator .eq) id right⟩)) := by
  refine run_guarded (Nat.lt_of_succ_lt free) ?_
  refine (run_assignmentBody_left (s := { s with depth := s.depth + 1 }) free outside first begins
    last rfl arrow h).trans ?_
  have become : (becomePattern id).run ({ s with depth := s.depth + 1 }.facing c' t') =
    ((), { s with depth := s.depth + 1 }.facing c' (t'.asPattern id)) := rfl
  simp only [Punctuator.isAssignment, if_true, run_bind, become, run_advance last, value,
    run_finish le]
  rfl

end LoopCapture.Grammar.Parse
