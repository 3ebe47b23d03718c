import LoopCapture.Grammar.SourceFile
import LoopCapture.Proofs.Grammar.Building.Modules

/-!
# Statements are built where they belong
-/

namespace LoopCapture.Grammar
open Text (Offset)
open Syntax (Child NodeId Shape DeclarationWord)
open Token (Kind)
open Parse

instance : Still atLetDeclaration := by
  unfold atLetDeclaration
  infer_instance

instance : Still atUsingDeclaration := by
  unfold atUsingDeclaration
  infer_instance

instance : Still atAwaitUsingDeclaration := by
  unfold atAwaitUsingDeclaration
  infer_instance

/-- A declaration begins with a word. -/
instance : Tells atForDeclaration fun yes s => yes = true → atToken s where
  toStill := .bind fun k => by split <;> infer_instance
  tells s yes isEnd := by
    have no : (atForDeclaration.run s).1 = false := by
      change (Parse.run (match s.scanner.kind with
        | .keyword .var_ | .keyword .const_ => pure true
        | .keyword .let_ => atLetDeclaration
        | .keyword .using_ => atUsingDeclaration
        | .keyword .await_ => atAwaitUsingDeclaration
        | _ => pure false) s).1 = false
      rw [isEnd]
      rfl
    exact Bool.false_ne_true (no.symm.trans yes)

instance : Still atNamespaceWord := by
  unfold atNamespaceWord
  infer_instance

instance : Peeks skipDottedName := by
  unfold skipDottedName
  infer_instance

instance : Still atNamespace := by
  unfold atNamespace
  infer_instance

instance : Still atDeclarationStart :=
  .bind fun k => by split <;> infer_instance

instance : YieldsPast jumpLabel atToken where
  builds b := by
    refine .consume (.look fun named => .look fun broken => ?_)
    extract_lets after
    have rest (label : Child) : Builds anywhere b [.placed b (carried label), .passed b]
        (after label) fun label => [.placed b (carried label), .passed b] :=
      .skip fun _ => .pure
    exact .ite (fun _ => .part fun label => .lastGiven (rest label))
      fun _ => .part fun label => .lastGiven (rest label)

variable {parse : Parser} [∀ goal, Yields (parse goal) (Suits goal)]

instance : YieldsPast (parenthesized parse) anywhere where
  builds b := by
    exact .pass fun _ => .part fun node => .skip fun _ => .pure

instance : Yields (declarator parse) anywhere := by
  refine .start fun start => .option .pure fun target => .skip fun _ => ?_
  refine .part fun type => ?_
  exact .bindIfOptional fun init => .finish fun node => .pure

instance : YieldsPast (variableDeclaration parse) atToken where
  builds b := by
    refine .labelled ?_
    refine .look fun k => ?_
    extract_lets after
    have rest {now : Token.Scanner → Prop} (is : ∀ s, now s → atToken s) (word : DeclarationWord) :
        Builds now b [] (after word) fun d => [.placed b (carried d), .passed b] :=
      .consume (.part fun declarators => .pure) is
    split
    · exact .pureBind (rest (by grind) _)
    · exact .pureBind (rest (by grind) _)
    · exact .pureBind (rest (by grind) _)
    · refine .consume (.pureBind (.skip fun _ => ?_))
      exact .part fun declarators => .pure
    · exact .pureBind (rest (by grind) _)

instance : Yields (variableStatement parse) atToken := by
  refine .labelled ?_
  refine .start fun start => ?_
  refine .past fun (word, declarators) => ?_
  exact .skip fun _ => .promise .finishAs

instance : Yields (ifStatement parse) anywhere := by
  refine .labelled ?_
  refine .start fun start => .skip fun _ => .past fun test => ?_
  refine .part fun consequent => ?_
  exact .bindIfOptional fun alternate => .promise .finishAs

instance : Yields (forInit parse) anywhere where
  builds b := by
    refine .test .pure (.look fun declares => .ite (fun _ => .start fun start => ?_) fun _ => ?_)
    · refine .past fun (word, declarators) => ?_
      exact .finish fun node => .pure
    · exact .last

theorem yieldsFrom_forEachRest (start : Offset) (left : Child) (isAwait : Bool) :
    Builds anywhere (start + 1) [.placed (start + 1) (carried left), .passed start]
      (forEachRest parse start left isAwait) fun node => [.placed start (carried node)] := by
  refine .look fun overKeys => .skip fun _ => .look fun shape => ?_
  extract_lets make after
  have made (right : Child) : Builds anywhere (start + 1)
      [.placed (start + 1) (carried left ++ carried right), .passed start]
        (make right) fun node => [.placed start (carried node)] := by
    refine .skip fun _ => .part fun body => ?_
    cases overKeys <;> exact .promise .finishLoop
  have rest : Builds anywhere (start + 1)
      [.placed (start + 1) (carried left), .passed start] (after ()) fun node =>
        [.placed start (carried node)] :=
    .ite (fun _ => .part fun right => .lastGiven (made right))
      fun _ => .part fun right => .lastGiven (made right)
  split
  · exact .lastGiven rest
  · exact .partGiven (builds_becomePatternOf left) fun _ => .lastGiven rest

instance (close : Kind) : Yields (forPart parse close) anywhere :=
  ⟨fun b => .test .pure .last⟩

instance : Yields (forStatement parse) atToken := by
  refine .labelled ?_
  refine .start fun start => .take (.beyond start (.skip fun isAwait => .skip fun _ => ?_))
  refine .part fun init => .test ?_ (.skip fun _ => ?_)
  · exact .lastGiven (yieldsFrom_forEachRest start init isAwait)
  · refine .part fun test => .skip fun _ => ?_
    refine .part fun update => .skip fun _ => ?_
    exact .part fun body => .promise .finishLoop

instance : Yields (whileStatement parse) atToken := by
  refine .labelled ?_
  refine .start fun start => .take (.beyond start (.part fun test => ?_))
  exact .part fun body => .promise .finishLoop

instance : Yields (doStatement parse) atToken := by
  refine .labelled ?_
  refine .start fun start => .take (.beyond start (.part fun body => .skip fun _ => ?_))
  refine .part fun test => .skip fun _ => ?_
  exact .promise .finishLoop

instance : Yields (caseTest parse) anywhere where
  builds b := by
    exact .ifOptional .last (.ifOptional .pure .pure)

theorem builds_switchCase (b : Offset) (cases : Array NodeId) :
    Builds anywhere b [.placed b (carried cases)] (switchCase parse cases) fun cases =>
      [.placed b (carried cases)] := by
  refine .hereAfter fun start le => .part fun test => ?_
  cases test with
  | none => exact .skip fun _ => .skip fun _ => .pure
  | some test =>
    refine .pass fun _ => .collect (fun b statements => .test .pure ?_) fun statements => ?_
    · exact .partGiven (builds_listedStatement b statements) fun statements => .pure
    · refine .finish fun node => .back le
        [.placed b (carried cases), .placed b [node], .apart (carried cases) [node]] ?_
      exact .pure

instance : Yields (switchStatement parse) anywhere := by
  refine .labelled ?_
  refine .start fun start => .skip fun _ => ?_
  refine .past fun discriminant => ?_
  refine .skip fun _ => .collect (fun b cases => .test .pure ?_) fun cases => ?_
  · exact .partGiven (builds_switchCase b cases) fun cases => .pure
  · exact .skip fun _ => .promise .finishAs

instance : Yields (catchClause parse) anywhere where
  builds b := by
    refine .test (.start fun start => .consume (.skip fun _ => ?_)) .pure
    extract_lets after
    have rest (param type : Child) : YieldsFrom start
        [.placed start (carried param ++ carried type), .passed start] (after (param, type)) :=
      .part fun body => .finish fun node => .pure
    refine .ite (fun _ => .part fun param => ?_)
      fun _ => .pureBind (.lastGiven (rest none none))
    refine .part fun type => ?_
    exact .skip fun _ => .pureBind (.lastGiven (rest param type))

instance : Yields (tryStatement parse) atToken := by
  refine .labelled ?_
  refine .start fun start => .consume (.part fun body => ?_)
  refine .part fun handler => ?_
  refine .bindIfOptional fun finalizer => .skipIf ?_
  exact .promise .finishAs

instance : Yields (withStatement parse) anywhere := by
  refine .labelled ?_
  refine .start fun start => .skip fun _ => .past fun object => ?_
  exact .part fun body => .promise .finishAs

instance : Yields (returnStatement parse) atToken := by
  refine .labelled ?_
  refine .start fun start => .consume ?_
  refine .bindIf fun argument => .skip fun _ => ?_
  exact .promise .finishAs

instance : Yields (throwStatement parse) atToken := by
  refine .labelled ?_
  refine .start fun start => .consume (.part fun argument => ?_)
  exact .skip fun _ => .promise .finishAs

instance : Yields (labeledStatement parse) anywhere := by
  refine .labelled ?_
  refine .start fun start => .past fun label => .skip fun _ => ?_
  exact .part fun body => .promise .finishAs

instance : Yields (expressionStatement parse) anywhere := by
  refine .labelled ?_
  refine .start fun start => .option (.skip fun _ => .pure)
    fun node => ?_
  exact .skip fun _ => .finish fun node => .pure

instance : Yields (namespaceDeclaration parse) anywhere where
  builds b := by
    refine .labelled ?_
    exact .skip fun _ => .skip fun _ => .last

instance : Yields (plainStatement parse) anywhere where
  builds b := by
    refine .test .last (.test ?_ ?_)
    · exact .part fun node => .pure
    · exact .last

theorem builds_statementIf {now : Token.Scanner → Prop} {b : Offset} {known : List Fact}
    {condition : Parse Bool} {statement : Parse Child} [Still condition]
    (h : Builds now b known statement fun node => [.placed b (carried node)]) :
    Builds now b known (statementIf parse condition statement) fun node =>
      [.placed b (carried node)] :=
  .look fun _ => .ite (fun _ => .lastGiven h) fun _ => .last

instance : Yields (statementBody parse) anywhere := by
  refine .start fun start => .look fun k => ?_
  split
  · exact .last
  · exact .consume (.finish fun node => .pure)
  · exact .part fun _ => .last
  · exact .part fun node => .pure
  · refine .test (.skip fun _ => ?_) ?_
    · exact .partGiven (yieldsFrom_enumeration start true) fun node => .pure
    · exact .part fun node => .pure
  · exact builds_statementIf .last
  · exact builds_statementIf .last
  · exact builds_statementIf .last
  · exact .lastGiven (yieldsFrom_functionDeclaration start false false)
  · refine builds_statementIf (.skip fun _ => ?_)
    exact yieldsFrom_functionDeclaration start true false
  · exact .lastGiven (yieldsFrom_classLike start true false)
  · refine builds_statementIf (.skip fun _ => ?_)
    exact yieldsFrom_classLike start true false
  · exact .part fun node => .pure
  · exact .part fun node => .pure
  · exact .part fun node => .pure
  · exact .part fun node => .pure
  · exact .part fun node => .pure
  · exact .part fun node => .pure
  · exact .past fun label => .finish fun node => .pure
  · exact .past fun label => .finish fun node => .pure
  · exact .part fun node => .pure
  · exact .part fun node => .pure
  · exact .consume (.skip fun _ => .finish fun node => .pure)
  · exact .part fun node => .pure
  · exact builds_statementIf .last
  · exact .part fun node => .pure
  · exact builds_statementIf .last
  · exact builds_statementIf .last
  · refine builds_statementIf ?_
    exact .partGiven (yieldsFrom_enumeration start false) fun node => .pure
  · exact builds_statementIf (.skip fun _ => .last)
  · exact .last

theorem yields_goalStep (goal : Goal) : Yields (goalStep parse goal) (Suits goal) := by
  cases goal with
  | statement => exact inferInstanceAs (Yields (guarded (statementBody parse)) anywhere)
  | statementBody => exact inferInstanceAs (Yields (statementBody parse) anywhere)
  | assignment => exact inferInstanceAs (Yields (guarded (assignmentBody parse)) anywhere)
  | binary above => exact inferInstanceAs (Yields (binaryBody parse above) anywhere)
  | unary => exact inferInstanceAs (Yields (guarded (unaryBody parse)) anywhere)
  | leftHandSide => exact inferInstanceAs (Yields (leftHandSideBody parse) anywhere)
  | creation => exact inferInstanceAs (Yields (creationBody parse) atToken)
  | bindingTarget => exact inferInstanceAs (Yields (bindingTarget parse) anywhere)
  | type => exact inferInstanceAs (Yields (guarded (typeBody parse)) anywhere)
  | typeOperator => exact inferInstanceAs (Yields (typeOperator parse) anywhere)

instance : Yields (topLevelStatements parse) anywhere where
  builds b := by
    refine .labelled ?_
    refine .collect (fun b statements => .test .pure (.test ?_ ?_)) fun statements => .pure
    · exact .skip fun _ => .skip fun _ => .pure
    · exact .partGiven (builds_listedStatement b statements) fun statements => .pure

instance (n : Nat) (goal : Goal) : Yields (parseUpTo n goal) (Suits goal) := by
  induction n generalizing goal with
  | zero => exact ⟨fun b => .labelled .pure⟩
  | succ n ih => exact ⟨fun b => ((yields_goalStep goal).builds b).labelled⟩

instance (size : Nat) (goal : Goal) : Yields (parseWithin size goal) (Suits goal) :=
  inferInstanceAs (Yields (parseUpTo _ goal) _)

end LoopCapture.Grammar
