import LoopCapture.Proofs.Grammar.Destructuring.Statement
import LoopCapture.Proofs.Grammar.Handover.Statements
import LoopCapture.Proofs.Syntax.Descent

/-!
# The two readings of a pattern agree

A pattern is read by one grammar where it is declared and by another one where it is assigned to. In
either place it makes the same nodes, moved to where the pattern stands.
-/

namespace LoopCapture.Syntax

/-- A text is the declaration of one variable. -/
def Tree.Declares (t : Tree) (pattern : NodeId) : Prop :=
  ∃ statement declarator init,
    t.shape? (some t.root) = some (.sourceFile [statement]) ∧
    t.shape? (some statement) = some (.variableDeclaration .letWord [declarator]) ∧
    t.shape? (some declarator) = some (.variableDeclarator pattern none init)

def Tree.AssignsTo (t : Tree) (pattern : NodeId) : Prop :=
  ∃ statement assignment value,
    t.shape? (some t.root) = some (.sourceFile [statement]) ∧
    t.shape? (some statement) = some (.expressionStatement assignment) ∧
    t.shape? assignment = some (.assignment (.punctuator .eq) pattern value)

/-- Up to a node two trees are the same, so what is below it in the one is below it in the other. -/
theorem Tree.Below.of_agree {t t' : Tree} (precede : t.ChildrenPrecede) {x node : NodeId}
    (agree : ∀ i ≤ node, t.nodes.shape? i = t'.nodes.shape? i) (h : t.Below x node) :
    t'.Below x node := by
  induction h using Relation.ReflTransGen.head_induction_on with
  | refl => exact .refl _
  | @head x y mem h ih =>
    have same : t.children y = t'.children y := by
      rw [Tree.children, Tree.children, agree y (Tree.Below.le precede h)]
    exact Relation.ReflTransGen.head (same ▸ mem) ih

end LoopCapture.Syntax

namespace LoopCapture.Grammar
open Text (Offset byteSize)
open Token (BeginsWith Gap Keyword Kind Name Punctuator Shows Word)
open Syntax (Child Node NodeId NodeTable Tree)

namespace Phrase
open Parse

variable {f : Form}

variable {s : State} {n : Nat} {after : Offset} {t : NodeTable} {cs : List Char}

theorem run_declarator (x : Phrase .target) (eq : Gap) (d : Word) (fuel : 2 * x.levels ≤ n)
    (room : 3 ≤ n) (free : s.depth + 2 ≤ depthLimit) (outside : s.context.isGenerator = false)
    {mark : Punctuator} (follows : BeginsWith mark cs) (ends : mark.endsOperand = true)
    (noEq : mark ≠ .eq)
    (fits : after + byteSize (x.text ++ (eq.mark .eq ++ (d.text ++ cs))) ≤ s.size) :
    (declarator (parseUpTo (n + 1))).run
        (s.facing ⟨after, x.text ++ (eq.mark .eq ++ (d.text ++ cs))⟩ t) =
      (some (t.size + x.count + 1), s.facing ⟨after + byteSize (defaulted x eq d).text, cs⟩
        (t ++ ((x.nodes false t.size after).push
          (nameNode d (after + byteSize x.text + byteSize (eq.mark .eq)) .identifier)).push
          ((defaulted x eq d).node after
            (.variableDeclarator (x.root t.size) none (t.size + x.count : NodeId))))) := by
  have opens : BeginsWith .eq (eq.mark .eq ++ (d.text ++ cs)) :=
    .mark_append eq (Token.ends_word d cs)
  obtain ⟨v, d', first⟩ := x.shows_first rfl opens after
  have shows := Token.shows_mark eq (Token.ends_word d cs) (after + byteSize x.text)
  have target := x.reads_bindingTarget fuel free outside (t := t) opens rfl (fun _ => rfl) fits
  have init : (parseUpTo (n + 1) .assignment).run (s.facing
      ⟨after + byteSize x.text + byteSize (eq.mark .eq), d.text ++ cs⟩
      (t ++ x.nodes false t.size after)) = _ :=
    run_assignment_word (Nat.succ_le_succ room) free outside follows ends noEq
  have le := Nat.add_le_add_left (defaulted x eq d).byteSize_lead_le after
  simp only [lead, text, Text.byteSize_append, ← Nat.add_assoc] at le
  have noBang : (Kind.punctuator .eq == .punctuator .bang) = false := rfl
  have noColon : (Kind.punctuator .eq == .punctuator .colon) = false := rfl
  simp only [declarator, run_bind, run_here first, target, run_discard, optionalMark,
    run_optional_other shows noBang, typeAfterColon, run_labelled, run_optional_other shows noColon,
    Bool.false_eq_true, if_false, run_pure, run_optional_same shows, if_true, init,
    run_finish_at le]
  simp only [Array.append_push, Array.size_push, Array.size_append, size_nodes, node, text,
    lead, Text.byteSize_append, ← Nat.add_assoc]

theorem firstKind_target (x : Phrase .target) : x.firstKind.isName = true ∨
    x.firstKind = .punctuator .openBracket ∨ x.firstKind = .punctuator .openBrace := by
  cases x with
  | name w => exact .inl w.name.isName_kind
  | array => exact .inr (.inl rfl)
  | object => exact .inr (.inr rfl)

/-- The nodes of a declaration of one variable after those of the pattern: its initial value, the
variable and the declaration. -/
theorem run_statement_let (x : Phrase .target) (w : Word) (isLet : w.name.kind = .keyword .let_)
    (eq : Gap) (d : Word) (semicolon : Gap) (fuel : 2 * x.levels ≤ n) (room : 3 ≤ n)
    (free : s.depth + 3 ≤ depthLimit) (outside : s.context.isGenerator = false)
    (apart : Token.EndsName
      (x.text ++ (eq.mark .eq ++ (d.text ++ (semicolon.mark .semicolon ++ cs)))))
    (fits : after + byteSize (w.text ++ (x.text ++ (eq.mark .eq ++ (d.text ++
      (semicolon.mark .semicolon ++ cs))))) ≤ s.size) :
    ∃ init declared declaration : Node, (parseUpTo (n + 2) .statement).run (s.facing ⟨after,
        w.text ++ (x.text ++ (eq.mark .eq ++ (d.text ++ (semicolon.mark .semicolon ++ cs))))⟩ t) =
      (some (t.size + x.count + 2), s.facing ⟨after + byteSize w.text +
          byteSize (defaulted x eq d).text + byteSize (semicolon.mark .semicolon), cs⟩
        (t ++ (((x.nodes false t.size (after + byteSize w.text)).push init).push declared).push
          declaration)) ∧
      declared.shape = .variableDeclarator (x.root t.size) none (t.size + x.count : NodeId) ∧
      declaration.shape = .variableDeclaration .letWord [t.size + x.count + 1] := by
  have first := Token.shows_word w apart after
  rw [isLet] at first
  obtain ⟨v, d', next⟩ := x.shows_first rfl (.mark_append eq (Token.ends_word d
    (semicolon.mark .semicolon ++ cs))) (after + byteSize w.text)
  have last := Token.shows_plain semicolon .semicolon rfl cs
    (after + byteSize w.text + byteSize (defaulted x eq d).text)
  rw [Text.byteSize_append, ← Nat.add_assoc] at fits
  have declares := x.run_declarator eq d fuel room
    (s := { s with depth := s.depth + 1, context := { s.context with withoutIn := false } })
    free outside (.plain_append semicolon .semicolon rfl cs) rfl (by simp) fits (t := t)
  have le : after + byteSize w.gap.text ≤ after + byteSize w.text +
      byteSize (defaulted x eq d).text + byteSize (semicolon.mark .semicolon) :=
    Nat.le_trans (Nat.add_le_add_left w.byteSize_gap_le after)
      (Nat.le_trans (Nat.le_add_right _ _) (Nat.le_add_right _ _))
  have statement :=
    run_variableStatement (s := { s with depth := s.depth + 1 }) first declares last le
  have body : (statementBody (parseUpTo (n + 1))).run ({ s with depth := s.depth + 1 }.facing
      ⟨after, w.text ++
        (x.text ++ (eq.mark .eq ++ (d.text ++ (semicolon.mark .semicolon ++ cs))))⟩ t) = _ :=
    (run_statementBody_let first next x.firstKind_target).trans
      (congrArg (fun r : NodeId × State => ((some r.1 : Child), r.2)) statement)
  refine ⟨nameNode d (after + byteSize w.text + byteSize x.text + byteSize (eq.mark .eq))
      .identifier,
    (defaulted x eq d).node (after + byteSize w.text)
      (.variableDeclarator (x.root t.size) none (t.size + x.count : NodeId)),
    ⟨after + byteSize w.gap.text, after + byteSize w.text + byteSize (defaulted x eq d).text +
      byteSize (semicolon.mark .semicolon), .variableDeclaration .letWord [t.size + x.count + 1]⟩,
    (run_guarded (by omega) body).trans ?_, rfl, rfl⟩
  simp only [Array.append_push, Array.size_push, Array.size_append, size_nodes]

/-- An assignment to a pattern is an operand between parentheses. -/
theorem run_assignment_parenthesized (x : Phrase .target) (opening eq : Gap) (d : Word)
    (closing : Gap) (fuel : 2 * (defaulted x eq d).levels ≤ n)
    (free : s.depth + 2 + (defaulted x eq d).levels ≤ depthLimit)
    (outside : s.context.isGenerator = false) {mark : Punctuator} (follows : BeginsWith mark cs)
    (ends : mark.endsOperand = true) (noEq : mark ≠ .eq)
    (fits : after + byteSize (opening.mark .openParen ++ (x.text ++ (eq.mark .eq ++
      (d.text ++ (closing.mark .closeParen ++ cs))))) ≤ s.size) :
    (parseUpTo (n + 4) .assignment).run (s.facing ⟨after, opening.mark .openParen ++ (x.text ++
        (eq.mark .eq ++ (d.text ++ (closing.mark .closeParen ++ cs))))⟩ t) =
      (some ((defaulted x eq d).root t.size),
        s.facing ⟨after + byteSize (opening.mark .openParen) + byteSize (defaulted x eq d).text +
            byteSize (closing.mark .closeParen), cs⟩
          (t ++ (defaulted x eq d).nodes true t.size
            (after + byteSize (opening.mark .openParen)))) := by
  have opens := Token.shows_plain opening .openParen rfl
    (x.text ++ (eq.mark .eq ++ (d.text ++ (closing.mark .closeParen ++ cs)))) after
  obtain ⟨v, d', first⟩ := x.shows_first rfl
    (.mark_append eq (Token.ends_word d (closing.mark .closeParen ++ cs)))
    (after + byteSize (opening.mark .openParen))
  have closes := Token.shows_plain closing .closeParen rfl cs
    (after + byteSize (opening.mark .openParen) + byteSize (defaulted x eq d).text)
  obtain ⟨v', i', d'', last⟩ := follows.shows (after + byteSize (opening.mark .openParen) +
    byteSize (defaulted x eq d).text + byteSize (closing.mark .closeParen))
  have three : 3 ≤ (defaulted x eq d).levels := Nat.le_max_right _ _
  have deeper : x.levels ≤ (defaulted x eq d).levels :=
    Nat.le_trans (Nat.le_add_right _ 2) (Nat.le_max_left _ _)
  have arrow := x.run_arrowFunction_parenthesized opening eq d closing (n := n + 2) (t := t)
    (s := { s with depth := s.depth + 1 }) (by omega) (by omega) (by simp only; omega) outside
    follows ends fits
  rw [Text.byteSize_append, ← Nat.add_assoc] at fits
  have assigned := (defaulted x eq d).isRead_literal (n := n)
    (s := { s with depth := s.depth + 2, context := { s.context with withoutIn := false } })
    fuel free outside (t := t) (.plain_append closing .closeParen rfl cs) rfl (by simp)
    (by simpa only [text, List.append_assoc] using fits)
  rw [text, List.append_assoc, List.append_assoc] at assigned
  have noComma : (Kind.punctuator .closeParen == .punctuator .comma) = false := rfl
  have inner := run_primary_parenthesized (s := { s with depth := s.depth + 2 }) opens
    (run_expression_single first assigned closes noComma) closes
  exact run_assignment_operand (by omega) outside opens rfl last ends noEq arrow inner

/-- An assignment to a pattern between parentheses, as a statement. -/
theorem run_statement_parenthesized (x : Phrase .target) (opening eq : Gap) (d : Word)
    (closing semicolon : Gap) (fuel : 2 * (defaulted x eq d).levels ≤ n)
    (free : s.depth + 3 + (defaulted x eq d).levels ≤ depthLimit)
    (outside : s.context.isGenerator = false)
    (fits : after + byteSize (opening.mark .openParen ++ (x.text ++ (eq.mark .eq ++ (d.text ++
      (closing.mark .closeParen ++ (semicolon.mark .semicolon ++ cs)))))) ≤ s.size) :
    ∃ value assignment statement : Node, (parseUpTo (n + 5) .statement).run (s.facing ⟨after,
        opening.mark .openParen ++ (x.text ++ (eq.mark .eq ++ (d.text ++
          (closing.mark .closeParen ++ (semicolon.mark .semicolon ++ cs)))))⟩ t) =
      (some (t.size + x.count + 2), s.facing ⟨after + byteSize (opening.mark .openParen) +
          byteSize (defaulted x eq d).text + byteSize (closing.mark .closeParen) +
          byteSize (semicolon.mark .semicolon), cs⟩
        (t ++ (((x.nodes false t.size (after + byteSize (opening.mark .openParen))).push value).push
          assignment).push statement)) ∧
      assignment.shape = .assignment (.punctuator .eq) (x.root t.size) (t.size + x.count : NodeId) ∧
      statement.shape = .expressionStatement (t.size + x.count + 1 : NodeId) := by
  have opens := Token.shows_plain opening .openParen rfl (x.text ++ (eq.mark .eq ++ (d.text ++
    (closing.mark .closeParen ++ (semicolon.mark .semicolon ++ cs))))) after
  have last := Token.shows_plain semicolon .semicolon rfl cs (after +
    byteSize (opening.mark .openParen) + byteSize (defaulted x eq d).text +
    byteSize (closing.mark .closeParen))
  have noComma : (Kind.punctuator .semicolon == .punctuator .comma) = false := rfl
  have operand := x.run_assignment_parenthesized opening eq d closing (n := n) (t := t)
    (s := { s with depth := s.depth + 1, context := { s.context with withoutIn := false } })
    fuel (by simp only; omega) outside (.plain_append semicolon .semicolon rfl cs) rfl
      (by simp) fits
  have le : after + byteSize opening.text ≤ after + byteSize (opening.mark .openParen) +
      byteSize (defaulted x eq d).text + byteSize (closing.mark .closeParen) +
      byteSize (semicolon.mark .semicolon) := by
    have lt := byteSize_gap_lt opening .openParen
    simp only [Nat.add_assoc]
    exact Nat.add_le_add_left (Nat.le_trans (Nat.le_of_lt lt) (Nat.le_add_right _ _)) after
  have statement := run_expressionStatement (s := { s with depth := s.depth + 1 }) opens
    (run_expression_single opens operand last noComma) (run_semicolon last) le
  refine ⟨nameNode d (after + byteSize (opening.mark .openParen) + byteSize x.text +
      byteSize (eq.mark .eq)) .identifier,
    (defaulted x eq d).node (after + byteSize (opening.mark .openParen))
      (.assignment (.punctuator .eq) (x.root t.size) (t.size + x.count : NodeId)),
    ⟨after + byteSize opening.text, after + byteSize (opening.mark .openParen) +
      byteSize (defaulted x eq d).text + byteSize (closing.mark .closeParen) +
      byteSize (semicolon.mark .semicolon), .expressionStatement (t.size + x.count + 1 : NodeId)⟩,
    (run_guarded (by omega) ((run_statementBody_parenthesis opens).trans statement)).trans ?_,
    rfl, rfl⟩
  simp only [nodes, Array.append_push, Array.size_append, Array.size_push, size_nodes]
  rfl

end Phrase

namespace Phrase
open Parse

variable {f : Form}

def letWord : Word :=
  ⟨.empty, ⟨'l', ['e', 't'], rfl, List.all_eq_true.mp rfl, fun word is => by
    obtain rfl : Keyword.let_ = word := Option.some.inj is
    exact ⟨rfl, nofun⟩⟩⟩

def letter (gap : Gap) (c : Char) (starts : Token.isNameStart c = true)
    (free : Keyword.ofSpelling? (String.ofList [c]) = none) : Word :=
  ⟨gap, ⟨c, [], starts, nofun, fun word is => by rw [free] at is; cases is⟩⟩

def initializer : Word := letter .space 'x' rfl rfl

def declarationText (x : Phrase .target) : List Char := "let ".toList ++ (x.text ++ " = x;".toList)

def assignmentText (x : Phrase .target) : List Char := "(".toList ++ (x.text ++ " = x);".toList)

theorem declarationText_eq (x : Phrase .target) : x.declarationText =
    letWord.text ++ ((x.indent .space).text ++ (Gap.space.mark .eq ++ (initializer.text ++
      (Gap.empty.mark .semicolon ++ [])))) := by
  rw [text_indent, List.append_assoc]
  rfl

theorem assignmentText_eq (x : Phrase .target) : x.assignmentText =
    Gap.empty.mark .openParen ++ (x.text ++ (Gap.space.mark .eq ++ (initializer.text ++
      (Gap.empty.mark .closeParen ++ (Gap.empty.mark .semicolon ++ []))))) :=
  rfl

theorem byteSize_declarationText (x : Phrase .target) :
    byteSize x.declarationText = byteSize x.text + 9 := by
  have word : byteSize "let ".toList = 4 := rfl
  have rest : byteSize " = x;".toList = 5 := rfl
  simp only [declarationText, Text.byteSize_append, word, rest]
  omega

theorem byteSize_assignmentText (x : Phrase .target) :
    byteSize x.assignmentText = byteSize x.text + 7 := by
  have opening : byteSize "(".toList = 1 := rfl
  have rest : byteSize " = x);".toList = 6 := rfl
  simp only [assignmentText, Text.byteSize_append, opening, rest]
  omega

/-- The tree of a declaration: after the nodes of the pattern come the initial value, the variable,
the declaration and the text. -/
theorem parseText_declaration (x : Phrase .target) :
    ∃ init declared declaration : Node,
      parseText x.declarationText = ⟨.ofTable
        (((((x.nodes false 0 4).push init).push declared).push declaration).push
          ⟨0, byteSize x.declarationText, .sourceFile [x.count + 2]⟩) (x.count + 3), []⟩ ∧
      declared.shape = .variableDeclarator (x.root 0) none (x.count : NodeId) ∧
      declaration.shape = .variableDeclaration .letWord [x.count + 1] := by
  have size := x.byteSize_declarationText
  have bound := x.levels_le.1
  obtain ⟨n, goals⟩ : ∃ n, goalsPerToken * (byteSize x.declarationText + 2) = n + 2 :=
    Nat.exists_eq_add_of_le' (by simp only [goalsPerToken]; omega)
  have parse : parseWithin (byteSize x.declarationText) = parseUpTo (n + 2) := by
    rw [parseWithin, goals]
  simp only [goalsPerToken] at goals
  have apart : Token.EndsName ((x.indent .space).text ++ (Gap.space.mark .eq ++ (initializer.text ++
      (Gap.empty.mark .semicolon ++ [])))) := by
    rw [text_indent]
    rintro _ ⟨⟩
    decide
  have fits : 0 + byteSize (letWord.text ++ ((x.indent .space).text ++ (Gap.space.mark .eq ++
      (initializer.text ++ (Gap.empty.mark .semicolon ++ []))))) ≤ byteSize x.declarationText := by
    rw [← declarationText_eq]
    exact Nat.le_of_eq (Nat.zero_add _)
  obtain ⟨init, declared, declaration, run, isDeclared, is⟩ := (x.indent .space).run_statement_let
    (s := .ofText x.declarationText) (t := #[]) (n := n)
    letWord rfl .space initializer .empty (by rw [levels_indent]; omega) (by omega)
    (show 0 + 3 ≤ depthLimit by decide) rfl apart fits
  have first := Token.shows_word letWord apart 0
  rw [← declarationText_eq] at first run
  rw [← parse, nodes_indent, count_indent] at run
  rw [root_indent, count_indent] at isDeclared
  rw [count_indent] at is
  have stop : 0 + byteSize letWord.text +
      byteSize (defaulted (x.indent .space) .space initializer).text +
      byteSize (Gap.empty.mark .semicolon) = byteSize x.declarationText := by
    rw [declarationText_eq]
    simp only [text, Text.byteSize_append, byteSize]
    omega
  rw [stop] at run
  simp only [List.size_toArray, List.length_nil, Nat.zero_add, Array.empty_append]
    at run is isDeclared
  refine ⟨init, declared, declaration, (parseText_single first ⟨rfl, rfl⟩ run).trans ?_,
    isDeclared, is⟩
  simp only [Array.size_push, size_nodes]
  rfl

/-- The tree of an assignment: after the nodes of the pattern come the value, the assignment, the
statement and the text. -/
theorem parseText_assignment (x : Phrase .target) (nested : x.levels + 5 ≤ depthLimit) :
    ∃ value assignment statement : Node,
      parseText x.assignmentText = ⟨.ofTable
        (((((x.nodes false 0 1).push value).push assignment).push statement).push
          ⟨0, byteSize x.assignmentText, .sourceFile [x.count + 2]⟩) (x.count + 3), []⟩ ∧
      assignment.shape = .assignment (.punctuator .eq) (x.root 0) (x.count : NodeId) ∧
      statement.shape = .expressionStatement (x.count + 1 : NodeId) := by
  have size := x.byteSize_assignmentText
  have bound := x.levels_le.1
  have deepest : (defaulted x .space initializer).levels = max (x.levels + 2) 3 := rfl
  obtain ⟨n, goals⟩ : ∃ n, goalsPerToken * (byteSize x.assignmentText + 2) = n + 5 :=
    Nat.exists_eq_add_of_le' (by simp only [goalsPerToken]; omega)
  have parse : parseWithin (byteSize x.assignmentText) = parseUpTo (n + 5) := by
    rw [parseWithin, goals]
  simp only [goalsPerToken] at goals
  have fits : 0 + byteSize (Gap.empty.mark .openParen ++ (x.text ++ (Gap.space.mark .eq ++
      (initializer.text ++ (Gap.empty.mark .closeParen ++ (Gap.empty.mark .semicolon ++ [])))))) ≤
      byteSize x.assignmentText := by
    rw [← assignmentText_eq]
    exact Nat.le_of_eq (Nat.zero_add _)
  obtain ⟨value, assignment, statement, run, isAssignment, is⟩ := x.run_statement_parenthesized
    (s := .ofText x.assignmentText) (t := #[]) (n := n)
    .empty .space initializer .empty .empty (by omega)
    (show 0 + 3 + max (x.levels + 2) 3 ≤ depthLimit by simp only [depthLimit] at *; omega) rfl fits
  have first := Token.shows_plain .empty .openParen rfl (x.text ++ (Gap.space.mark .eq ++
    (initializer.text ++ (Gap.empty.mark .closeParen ++ (Gap.empty.mark .semicolon ++ []))))) 0
  rw [← assignmentText_eq] at first run
  rw [← parse] at run
  have stop : 0 + byteSize (Gap.empty.mark .openParen) +
      byteSize (defaulted x .space initializer).text + byteSize (Gap.empty.mark .closeParen) +
      byteSize (Gap.empty.mark .semicolon) = byteSize x.assignmentText := by
    rw [assignmentText_eq]
    simp only [text, Text.byteSize_append, byteSize]
    omega
  rw [stop] at run
  simp only [List.size_toArray, List.length_nil, Nat.zero_add, Array.empty_append]
    at run is isAssignment
  refine ⟨value, assignment, statement, (parseText_single first ⟨rfl, rfl⟩ run).trans ?_,
    isAssignment, is⟩
  simp only [Array.size_push, size_nodes]
  rfl

end Phrase

/-- A pattern is the same where it is declared and where it is assigned to. Each of its nodes has
the same shape and the same distance from the start of the pattern, and nothing is wrong with either
text. -/
structure ReadsAlike (x : Phrase .target) : Prop where
  declares : (parseText x.declarationText).tree.Declares (x.root 0)
  assigns : (parseText x.assignmentText).tree.AssignsTo (x.root 0)
  below : ∀ node, (parseText x.declarationText).tree.Below node (x.root 0) ↔
    (parseText x.assignmentText).tree.Below node (x.root 0)
  /-- The declared pattern begins with the fifth byte, the one assigned to with the second. -/
  same : ∀ node, (parseText x.declarationText).tree.Below node (x.root 0) →
    ∃ n : Node, (x.nodes false 0 0)[node]? = some n ∧
      (parseText x.declarationText).tree.nodes[node]? = some (n.moved 4) ∧
      (parseText x.assignmentText).tree.nodes[node]? = some (n.moved 1)
  declaresQuietly : (parseText x.declarationText).errors = []
  assignsQuietly : (parseText x.assignmentText).errors = []

namespace Phrase

theorem push_found {t : NodeTable} {i : NodeId} {n m : Node} (h : t[i]? = some n) :
    (t.push m)[i]? = some n := by
  obtain ⟨lt, -⟩ := Array.getElem?_eq_some_iff.mp h
  rw [Array.getElem?_push_lt lt, ← h, Array.getElem?_eq_getElem lt]

/-- The bound is the one of the assignment, in which an element lies two levels deeper than the
array around it. The declaration needs none. -/
theorem readsAlike (x : Phrase .target) (nested : x.levels + 5 ≤ depthLimit) : ReadsAlike x := by
  obtain ⟨init, declared, declaration, parsed, isDeclared, isDeclaration⟩ := x.parseText_declaration
  obtain ⟨value, assignment, statement, parsed', isAssignment, isStatement⟩ :=
    x.parseText_assignment nested
  have agree : ∀ node ≤ x.root 0, ∃ n : Node, (x.nodes false 0 0)[node]? = some n ∧
      (parseText x.declarationText).tree.nodes[node]? = some (n.moved 4) ∧
      (parseText x.assignmentText).tree.nodes[node]? = some (n.moved 1) := by
    intro node le
    have lt : node < (x.nodes false 0 0).size := by
      rw [size_nodes, ← Nat.zero_add x.count]
      exact Nat.lt_of_le_of_lt le (x.root_lt 0)
    have found := Array.getElem?_eq_getElem lt
    have moved (bytes : Offset) : (x.nodes false 0 bytes)[node]? =
        some ((x.nodes false 0 0)[node].moved bytes) := by
      rw [← Nat.zero_add bytes, nodes_moved, Nat.zero_add, Array.getElem?_map, found]
      rfl
    refine ⟨_, found, ?_, ?_⟩
    · rw [parsed]
      exact push_found (push_found (push_found (push_found (moved 4))))
    · rw [parsed']
      exact push_found (push_found (push_found (push_found (moved 1))))
  have shapes : ∀ node ≤ x.root 0, (parseText x.declarationText).tree.nodes.shape? node =
      (parseText x.assignmentText).tree.nodes.shape? node := by
    intro node le
    obtain ⟨n, -, found, found'⟩ := agree node le
    rw [NodeTable.shape?, NodeTable.shape?, found, found']
    rfl
  have precede (text : List Char) : (parseText text).tree.ChildrenPrecede :=
    (owned_parseText text).precede
  refine ⟨?_, ?_, fun node => ⟨.of_agree (precede _) shapes,
    .of_agree (precede _) fun i le => (shapes i le).symm⟩,
    fun node h => agree node (h.le (precede _)), ?_, ?_⟩
  · rw [parsed]
    refine ⟨x.count + 2, x.count + 1, x.count, ?_, ?_, ?_⟩ <;>
      simp [Tree.ofTable, Tree.shape?, NodeTable.shape?, Array.getElem?_push, size_nodes,
        isDeclared, isDeclaration]
  · rw [parsed']
    refine ⟨x.count + 2, (x.count + 1 : NodeId), (x.count : NodeId), ?_, ?_, ?_⟩ <;>
      simp [Tree.ofTable, Tree.shape?, NodeTable.shape?, Array.getElem?_push, size_nodes,
        isAssignment, isStatement]
  · rw [parsed]
  · rw [parsed']

def nestedPattern : Phrase .target :=
  array .empty
    (moreElements (item (plain (name (letter .empty 'a' rfl rfl)))) .empty
      (hole .space
        (moreElements (item (defaulted (name (letter .space 'b' rfl rfl)) .space initializer))
          .empty (lastElement (item (plain (object .space
            (moreProperties (shorthand (letter .space 'c' rfl rfl)) .empty
              (lastProperty (restProperty .space (name (letter .empty 'd' rfl rfl))))) .space)))))))
    .empty

theorem readsAlike_nestedPattern : nestedPattern.text = "[a, , b = x, { c, ...d }]".toList ∧
    nestedPattern.levels + 5 ≤ depthLimit ∧ ReadsAlike nestedPattern :=
  ⟨rfl, by decide, readsAlike nestedPattern (by decide)⟩

end Phrase
end LoopCapture.Grammar
