import LoopCapture.Proofs.Grammar.Destructuring.Parameter

/-!
# Texts of one statement

A text is one statement where nothing is left after it. Of the statements there are the declaration
of a pattern and the assignment to a pattern between parentheses.
-/

namespace LoopCapture.Grammar.Parse
open Text (Offset byteSize)
open Token (BeginsWith Cursor Gap Keyword Kind Punctuator Shows Word)
open Syntax (Child DeclarationWord Node NodeId NodeTable)

variable {parse : Parser} {s : State} {c c' d d' e : Cursor} {t t' : NodeTable} {k k' : Kind}
  {m : Punctuator} {v v' : String} {i i' : Offset} {node : NodeId}

theorem run_expression_single (first : Shows c k v i d)
    (h : (parse .assignment).run (s.facing c t) = (some node, s.facing c' t'))
    (next : Shows c' k' v' i' d') (ends : (k' == .punctuator .comma) = false) :
    (expression parse).run (s.facing c t) = (some node, s.facing c' t') := by
  simp only [expression, run_labelled, run_bind, run_here first, h, optionalMark,
    run_optional_other next ends, Bool.false_eq_true, if_false, run_pure]

theorem run_primary_parenthesized {child : Child} (opens : Shows c (.punctuator .openParen) v i d)
    (h : (expression parse).run
      ({ s with context := { s.context with withoutIn := false } }.facing d t) =
      (child, { s with context := { s.context with withoutIn := false } }.facing c' t'))
    (closes : Shows c' (.punctuator .closeParen) v' i' e) :
    (primary parse).run (s.facing c t) = (child, s.facing e t') := by
  have inner : (allowIn (expression parse)).run (s.facing d t) = (child, s.facing c' t') :=
    run_within h
  simp only [primary, run_labelled, run_bind, run_here opens, run_kind opens, run_advance opens,
    inner, run_discard, expectMark, run_expect_same closes, run_pure]

theorem run_semicolon (shows : Shows c (.punctuator .semicolon) v i d) :
    semicolon.run (s.facing c t) = ((), s.facing d t) := by
  simp only [semicolon, run_bind, optionalMark, run_optional_same shows, if_true, run_pure]

theorem run_expressionStatement {cs : List Char} {after : Offset}
    (first : Shows c k v i d)
    (h : (expression parse).run
      ({ s with context := { s.context with withoutIn := false } }.facing c t) =
      (some node, { s with context := { s.context with withoutIn := false } }.facing c' t'))
    (ends : semicolon.run (s.facing c' t') = ((), s.facing ⟨after, cs⟩ t')) (le : i ≤ after) :
    (expressionStatement parse).run (s.facing c t) =
      (some t'.size, s.facing ⟨after, cs⟩ (t'.push ⟨i, after, .expressionStatement node⟩)) := by
  have inner : (allowIn (expression parse)).run (s.facing c t) = (some node, s.facing c' t') :=
    run_within h
  simp only [expressionStatement, run_labelled, run_bind, run_here first, inner, ends,
    run_finish_at le, run_pure]

/-- A parenthesis opens an expression and nothing else that is a statement. -/
theorem run_statementBody_parenthesis (opens : Shows c (.punctuator .openParen) v i d) :
    (statementBody parse).run (s.facing c t) = (expressionStatement parse).run (s.facing c t) := by
  have noName : (Kind.punctuator .openParen).isName = false := rfl
  have noText (text : String) : (atNameText text).run (s.facing c t) = (false, s.facing c t) := by
    simp only [atNameText, run_bind, run_atName opens, noName, run_pure]
    rfl
  simp only [statementBody, run_bind, run_here opens, run_kind opens, plainStatement, atNamespace,
    atNamespaceWord, run_both, run_either, noText, Bool.false_eq_true, if_false, run_atName opens,
    noName]

def separatedRound (separator : Kind) (item : Parse Child) (items : Array NodeId) :
    Parse (Round (Array NodeId)) := do
  match ← item with
  | none => return .done items
  | some node =>
    if ← optional separator then return .again (items.push node)
    else return .done (items.push node)

theorem run_separated_single {separator : Kind} {item : Parse Child}
    (h : item.run (s.facing c t) = (some node, s.facing c' t')) (next : Shows c' k' v' i' d')
    (ends : (k' == separator) = false) :
    (separated separator item).run (s.facing c t) = ([node], s.facing c' t') := by
  have run : (separated separator item).run (s.facing c t) =
      (iterate #[] (separatedRound separator item) >>= fun items => pure items.toList).run
        (s.facing c t) := rfl
  have loop : (iterate #[] (separatedRound separator item)).run (s.facing c t) =
      (#[node], s.facing c' t') := by
    refine run_iterate_done ?_
    simp only [separatedRound, run_bind, h, run_optional_other next ends, Bool.false_eq_true,
      if_false, run_pure]
    rfl
  rw [run, run_bind, loop, run_pure]

theorem run_variableStatement {cs : List Char} {after : Offset}
    (first : Shows c (.keyword .let_) v i d)
    (h : (declarator parse).run
      ({ s with context := { s.context with withoutIn := false } }.facing d t) =
      (some node, { s with context := { s.context with withoutIn := false } }.facing c' t'))
    (last : Shows c' (.punctuator .semicolon) v' i' ⟨after, cs⟩) (le : i ≤ after) :
    (variableStatement parse).run (s.facing c t) = (t'.size,
      s.facing ⟨after, cs⟩ (t'.push ⟨i, after, .variableDeclaration .letWord [node]⟩)) := by
  have declares : (allowIn (variableDeclaration parse)).run (s.facing c t) =
      ((.letWord, [node]), s.facing c' t') := by
    have noComma : (Kind.punctuator .semicolon == .punctuator .comma) = false := rfl
    have list := run_separated_single h last noComma
    refine run_within ?_
    simp only [variableDeclaration, run_labelled, run_bind, run_kind first, run_pure,
      run_advance first]
    exact congrArg (fun r : List NodeId × State => ((DeclarationWord.letWord, r.1), r.2)) list
  simp only [variableStatement, run_labelled, run_bind, run_here first, declares,
    run_semicolon last, run_finish_at le]

theorem run_statementBody_let (first : Shows c (.keyword .let_) v i d) (next : Shows d k v' i' d')
    (declares : k.isName = true ∨ k = .punctuator .openBracket ∨ k = .punctuator .openBrace) :
    (statementBody parse).run (s.facing c t) =
      (do return ← variableStatement parse : Parse Child).run (s.facing c t) := by
  have declaresAhead : atLetDeclaration.run (s.facing c t) = (true, s.facing c t) := by
    refine run_lookAhead_facing first d ?_
    simp only [run_bind, run_advance first, run_either, run_atName next, run_atMark next]
    obtain named | rfl | rfl := declares
    · rw [if_pos named]
    · rfl
    · rfl
  simp only [statementBody, run_bind, run_here first, run_kind first, statementIf, declaresAhead,
    if_true]

/-- A statement at the end of a text leaves nothing to skip. -/
theorem run_listedStatement_last {n : Nat} {statements : Array NodeId} (first : Shows c k v i d)
    (h : (parseUpTo n .statement).run (s.facing c t) = (some node, s.facing c' t'))
    (last : Shows c' .endOfFile v' i' d') :
    (listedStatement (parseUpTo n) statements).run (s.facing c t) =
      (statements.push node, s.facing c' t') := by
  have atEnd : (isAt .endOfFile).run (s.facing c' t') = (true, s.facing c' t') := run_isAt last _
  simp only [listedStatement, run_labelled, run_bind, run_here first, h, run_here last, atEnd,
    Bool.not_true, Bool.and_false, Bool.false_eq_true, if_false, run_pure]

theorem run_topLevelStatements_single {n : Nat} (first : Shows c k v i d)
    (begins : (k == .endOfFile) = false ∧ (k == .punctuator .closeBrace) = false)
    (h : (parseUpTo n .statement).run (s.facing c t) = (some node, s.facing c' t'))
    (last : Shows c' .endOfFile v' i' d') :
    (topLevelStatements (parseUpTo n)).run (s.facing c t) = ([node], s.facing c' t') := by
  have atEnd : (isAt .endOfFile).run (s.facing c' t') = (true, s.facing c' t') := run_isAt last _
  obtain ⟨noEnd, noClose⟩ := begins
  simp only [topLevelStatements, run_labelled]
  rw [run_bind, iterate, run_bind,
    show Grammar.state.run (s.facing c t) = (s.facing c t, s.facing c t) from rfl,
    run_repeatUpTo]
  simp only [run_bind, run_isAt first, noEnd, run_atMark first, noClose, Bool.false_eq_true,
    if_false, run_listedStatement_last first h last, run_pure]
  rw [run_repeatUpTo]
  simp only [run_bind, atEnd, if_true, run_pure]
  rfl

theorem parseText_single {text : List Char} (first : Shows ⟨0, text⟩ k v i d)
    (begins : (k == .endOfFile) = false ∧ (k == .punctuator .closeBrace) = false)
    (h : (parseWithin (byteSize text) .statement).run ((State.ofText text).facing ⟨0, text⟩ #[]) =
      (some node, (State.ofText text).facing ⟨byteSize text, []⟩ t)) :
    parseText text =
      ⟨.ofTable (t.push ⟨0, byteSize text, .sourceFile [node]⟩) t.size, []⟩ := by
  have last := Token.shows_end (byteSize text)
  have starts : advance.run (.ofText text) = ((), (State.ofText text).facing ⟨0, text⟩ #[]) := rfl
  have size : Grammar.state.run ((State.ofText text).facing ⟨0, text⟩ #[]) =
      ((State.ofText text).facing ⟨0, text⟩ #[], (State.ofText text).facing ⟨0, text⟩ #[]) := rfl
  have run : sourceFile.run (.ofText text) = (t.size, (State.ofText text).facing ⟨byteSize text, []⟩
      (t.push ⟨0, byteSize text, .sourceFile [node]⟩)) := by
    simp only [sourceFile, run_bind, starts, size]
    rw [show ((State.ofText text).facing ⟨0, text⟩ #[]).size = byteSize text from rfl,
      show parseWithin (byteSize text) = parseUpTo (goalsPerToken * (byteSize text + 2)) from rfl,
      run_topLevelStatements_single first begins h last]
    rfl
  have clean : ((State.ofText text).facing ⟨byteSize text, []⟩
      (t.push ⟨0, byteSize text, .sourceFile [node]⟩)).syntaxErrors = [] := by
    have quiet : (Token.Scanner.next ⟨byteSize text, []⟩).errors = #[] := last.quiet
    simp [State.syntaxErrors, State.facing, State.ofText, quiet, onePerStart]
  rw [parseText, run]
  simp only [clean]
  rfl

end LoopCapture.Grammar.Parse
