import LoopCapture.Proofs.Grammar.Destructuring.Statement
import LoopCapture.Proofs.Grammar.Operators.Climbing
import LoopCapture.Proofs.Grammar.Placed

/-!
# Operators in a statement

A text of names with operators between them is one statement. Nothing is wrong with it, and what it
computes is the operation that reads like the text and is grouped by how tightly operators bind.
-/

namespace LoopCapture.Grammar
open Text (Offset byteSize)
open Token (Cursor Gap Kind Punctuator Scanner Shows)
open Syntax (Child NodeId NodeTable)

namespace Parse

variable {parse : Parser} {s : State} {c c' d d' d'' : Cursor} {t t' : NodeTable} {k : Kind}
  {v v' v'' : String} {i i' i'' : Offset} {node : NodeId}

/-- A name that no arrow follows is no parameter of an arrow function. -/
theorem run_mayBeArrow_plain (first : Shows c .identifier v i d) (next : Shows d k v' i' d')
    (noArrow : (k == .punctuator .arrow) = false) :
    mayBeArrow.run (s.facing c t) = (false, s.facing c t) := by
  have named : Kind.isName .identifier = true := rfl
  simp only [mayBeArrow, run_bind, run_kind first, run_both, run_pure, named, if_true,
    run_nextIsMark first next, noArrow]

/-- A chain of operators at the end of the text is a whole assignment expression. -/
theorem run_assignmentBody_last (first : Shows c .identifier v i d) (next : Shows d k v' i' d')
    (noArrow : (k == .punctuator .arrow) = false) (last : Shows c' .endOfFile v'' i'' d'')
    (h : (parse (.binary 0)).run (s.facing c t) = (some node, s.facing c' t')) :
    (assignmentBody parse).run (s.facing c t) = (some node, s.facing c' t') := by
  have state : Grammar.state.run (s.facing c t) = (s.facing c t, s.facing c t) := rfl
  have noYield : (Kind.identifier == .keyword .yield_) = false := rfl
  have noMark : (Kind.endOfFile == .punctuator .question) = false := rfl
  have noAssignment : Kind.isAssignment .endOfFile = false := rfl
  simp only [assignmentBody, run_bind, run_atWord first, state, noYield, Bool.false_and,
    Bool.false_eq_true, if_false, run_arrowFunction (run_mayBeArrow_plain first next noArrow),
    run_here first, conditional, run_labelled, h, optionalMark, run_optional_other last noMark,
    run_pure, run_kind last, noAssignment]

theorem run_semicolon_end (last : Shows c .endOfFile v i d) :
    semicolon.run (s.facing c t) = ((), s.facing c t) := by
  have noMark : (Kind.endOfFile == .punctuator .semicolon) = false := rfl
  have ends : atStatementEnd.run (s.facing c t) = (true, s.facing c t) := by
    simp only [atStatementEnd, run_bind, run_kind last, beq_self_eq_true, Bool.or_true,
      Bool.true_or, run_pure]
    rfl
  simp only [semicolon, run_bind, optionalMark, run_optional_other last noMark,
    Bool.false_eq_true, if_false, ends]
  rfl

/-- A name before an operator or the end of the text opens an expression, even where the name is a
word that may open a namespace. -/
theorem run_statementBody_plain (first : Shows c .identifier v i d) (next : Shows d k v' i' d')
    (follows : k ∈ Operator.followers) :
    (statementBody parse).run (s.facing c t) = (expressionStatement parse).run (s.facing c t) := by
  have named : Kind.isName .identifier = true := rfl
  have noBody : ∀ k ∈ Operator.followers, k.isName = false ∧ (k == .string) = false ∧
    (k == .punctuator .openBrace) = false ∧ (k == .punctuator .colon) = false := by decide
  obtain ⟨noName, noString, noBrace, noColon⟩ := noBody k follows
  have word (name : String) : (atNameText name).run (s.facing c t) = (v == name, s.facing c t) := by
    simp only [atNameText, run_bind, run_atName first, run_value first, named, Bool.true_and,
      run_pure]
  have noHead : atNamespace.run (s.facing c t) = (false, s.facing c t) := by
    obtain ⟨opens, words⟩ :
        ∃ opens, atNamespaceWord.run (s.facing c t) = (opens, s.facing c t) := by
      simp only [atNamespaceWord, run_either, word]
      split
      · exact ⟨_, rfl⟩
      · split <;> exact ⟨_, rfl⟩
    rw [atNamespace, run_both, words]
    cases opens with
    | false => rfl
    | true =>
      refine run_nextOnSameLine first ?_
      simp only [run_bind, run_atMark next, run_either, run_atName next, run_isAt next, noBrace,
        noName, noString, Bool.false_eq_true, if_false, run_pure]
  simp only [statementBody, run_bind, run_here first, run_kind first, plainStatement, noHead,
    Bool.false_eq_true, if_false, run_both, run_atName first, named, if_true,
    run_nextIsMark first next, noColon]

/-- A chain of operators at the end of the text is a statement. -/
theorem run_statement_last {n : Nat} {last : Offset} (free : s.depth + 1 < depthLimit)
    (first : Shows c .identifier v i d) (next : Shows d k v' i' d')
    (follows : k ∈ Operator.followers) (le : i ≤ last)
    (h : (parseUpTo n (.binary 0)).run ({ s with
        depth := s.depth + 2, context := { s.context with withoutIn := false } }.facing c t) =
      (some node, { s with
        depth := s.depth + 2, context := { s.context with withoutIn := false } }.facing
          ⟨last, []⟩ t')) :
    (parseUpTo (n + 2) .statement).run (s.facing c t) =
      (some t'.size, s.facing ⟨last, []⟩ (t'.push ⟨i, last, .expressionStatement node⟩)) := by
  have ends := Token.shows_end last
  have noArrow : ∀ k ∈ Operator.followers, (k == .punctuator .arrow) = false := by decide
  have assignment : (parseUpTo (n + 1) .assignment).run ({ s with
        depth := s.depth + 1, context := { s.context with withoutIn := false } }.facing c t) =
      (some node, { s with
        depth := s.depth + 1, context := { s.context with withoutIn := false } }.facing
          ⟨last, []⟩ t') :=
    run_guarded free (run_assignmentBody_last first next (noArrow k follows) ends h)
  have expression := run_expression_single first assignment ends rfl
  refine run_guarded (Nat.lt_of_succ_lt free)
    ((run_statementBody_plain first next follows).trans ?_)
  exact run_expressionStatement (s := { s with depth := s.depth + 1 }) first expression
    (run_semicolon_end ends) le

end Parse

/-- A parsed text is valid, and it is one statement: an operation. -/
structure ParsedText.IsOperation (p : ParsedText) (e : Operation) : Prop where
  valid : p.errors = []
  placed : ∃ statement node : NodeId,
    p.tree.nodes.shape? p.tree.root = some (.sourceFile [statement]) ∧
    p.tree.nodes.shape? statement = some (.expressionStatement (some node)) ∧
    e.IsAt p.tree.nodes node

def operationText (first : PlainName) (operands : Operands) : List Char :=
  first.text ++ operands.text

open Parse

/-- From the first token of a text on, the attempts of a chain of operators are undone. -/
theorem transacts_binary (text : List Char) (n depth : Nat) (context : Context) :
    (parseUpTo n (.binary 0)).Transacts
      ({ State.ofText text with depth, context }.facing ⟨0, text⟩ #[]) := by
  have outcome := Yields.builds (p := parseUpTo n (.binary 0)) 0
    (s := { State.ofText text with depth, context }.facing ⟨0, text⟩ #[])
    (sound_advance_ofText text) trivial (Nat.zero_le _) (by simp)
  exact outcome.transacts

/-- Precedence climbing: a text of names and operators is one valid statement, and its operation
reads like the text and is grouped by how tightly operators bind. -/
theorem exists_isOperation_parseText (first : PlainName) (operands : Operands) :
    ∃ e : Operation, (parseText (operationText first operands)).IsOperation e ∧
      e.reading = .inl first :: operands.items ∧ e.IsGrouped := by
  have shows := Token.shows_word (first.word .empty) operands.endsName 0
  rw [show (first.word .empty).name.kind = .identifier from first.plain] at shows
  obtain ⟨k, v, i, d, next, follows, -⟩ :=
    operands.exists_shows (0 + byteSize (first.word .empty).text)
  have clear : '(' ∉ operationText first operands :=
    fun mem => (List.mem_append.mp mem).elim first.openParen_not_mem operands.openParen_not_mem
  have surroundings : State.ReadsOperators (operationText first operands)
      { State.ofText (operationText first operands) with depth := 2 } :=
    ⟨clear, rfl, show 2 < depthLimit by decide, rfl⟩
  have enough : operands.length + 3 ≤ 16 * byteSize (operationText first operands) + 29 := by
    have length := operands.length_le_byteSize
    rw [operationText, Text.byteSize_append]
    omega
  obtain ⟨e, t, node, binary, isAt, reads, grouped⟩ :=
    exists_run_binary .empty (t := #[]) surroundings enough (.refl _)
      (transacts_binary (operationText first operands) _ 2 {})
  have steps : goalsPerToken * (byteSize (operationText first operands) + 2) =
      16 * byteSize (operationText first operands) + 29 + 1 + 2 := by
    rw [goalsPerToken]
    omega
  have statement := run_statement_last (s := State.ofText (operationText first operands))
    (show 1 < depthLimit by decide) shows next follows (Nat.zero_le _) binary
  rw [← steps] at statement
  have parsed : parseText (operationText first operands) = _ :=
    parseText_single shows ⟨rfl, rfl⟩ statement
  refine ⟨e, ⟨by rw [parsed], t.size, node, ?_, ?_, ?_⟩, reads, grouped⟩
  · rw [parsed]
    exact shape?_push_size _ _
  · rw [parsed]
    exact Keeps.push _ _ _ _ (shape?_push_size t _)
  · rw [parsed]
    exact (Keeps.push _ _).isAt ((Keeps.push t _).isAt isAt)

end LoopCapture.Grammar
