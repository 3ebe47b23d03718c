import LoopCapture.Grammar.Functions
import LoopCapture.Proofs.Grammar.Building.Types

/-!
# Blocks, functions and classes are built where they belong
-/

namespace LoopCapture.Grammar
open Text (Offset)
open Syntax (Child NodeId FunctionForm)
open Parse

instance : Still modifiesMember := by
  have looks : Peeks (kind >>= fun k => match k with
      | .privateName | .string | .number | .punctuator .openBracket | .punctuator .star => pure true
      | k => pure k.isWord) := .bind fun k => by split <;> infer_instance
  exact inferInstanceAs (Still (nextOnSameLine _))

instance : Skips memberModifiers := by
  refine .iterate (fun isStatic => .bind fun k => ?_) false
  extract_lets after
  have rest (isModifier : Bool) : Skips (after isModifier) := by
    simp only [after]
    infer_instance
  split <;> infer_instance

instance (form : FunctionForm) (computed isStatic : Bool) (key : Child) :
    Still (methodForm form computed isStatic key) := by
  unfold methodForm
  infer_instance

variable {parse : Parser} [∀ goal, Yields (parse goal) (Suits goal)]

theorem builds_listedStatement (b : Offset) (statements : Array NodeId) :
    Builds anywhere b [.placed b (carried statements)] (listedStatement parse statements)
      fun statements => [.placed b (carried statements)] := by
  refine .labelled ?_
  refine .look fun start => .part fun statement => .look fun now => ?_
  refine .look fun ends => .skipIf ?_
  cases statement <;> exact .pure

instance : Yields (blockStatements parse) anywhere where
  builds b := by
    refine .labelled ?_
    refine .collect (fun b statements => .test .pure ?_) fun statements => .pure
    exact .partGiven (builds_listedStatement b statements) fun statements => .pure

instance : Yields (block parse) anywhere := by
  refine .labelled ?_
  refine .start fun start => .pass fun _ => ?_
  refine .part fun statements => .skip fun _ => ?_
  exact .finish fun node => .pure

instance : YieldsPast (signature parse none) anywhere :=
  ⟨fun b => (builds_signature b none).lastGiven⟩

theorem builds_functionRest (b : Offset) (form : FunctionForm) (isGenerator isAsync : Bool)
    (name : Child) :
    Builds anywhere b [.placed b (carried name)]
      (functionRest parse form isGenerator isAsync name) fun f =>
        [.placed b (carried f), .passed b] := by
  refine .labelled ?_
  refine .within (.past fun s => ?_)
  exact .bindIf fun body => .pure

theorem yieldsFrom_functionDeclaration (start : Offset) (isAsync nameOptional : Bool) :
    YieldsFrom start [] (functionDeclaration parse start isAsync nameOptional) := by
  refine .labelled ?_
  refine .skip fun _ => .skip fun isGenerator => .look fun named => ?_
  extract_lets after
  have rest (name : Child) : YieldsFrom start [.placed start (carried name)] (after name) := by
    refine .partGiven (builds_functionRest start .declaration isGenerator isAsync name)
      fun f => ?_
    exact .finish fun node => .skipIf .pure
  refine .ite (fun _ => .part fun name => .lastGiven (rest name)) fun _ => ?_
  exact .skipUnless (.part fun name => .lastGiven (rest name))

theorem yieldsFrom_functionExpression (start : Offset) (isAsync : Bool) :
    YieldsFrom start [] (functionExpression parse start isAsync) := by
  refine .labelled ?_
  refine .skip fun _ => .skip fun isGenerator => ?_
  refine .bindIf fun name => ?_
  refine .partGiven (builds_functionRest start .expression isGenerator isAsync name)
    fun f => ?_
  exact .skipIf (.finish fun node => .pure)

theorem yieldsFrom_staticBlock (start : Offset) :
    YieldsFrom start [] (staticBlock parse start) := by
  refine .skip fun _ => .pass fun _ => ?_
  refine .part fun statements => .skip fun _ => ?_
  exact .finish fun node => .pure

theorem yieldsFrom_methodRest (start : Offset) (form : FunctionForm)
    (isGenerator isAsync isStatic : Bool) (key : NodeId) (computed : Bool) :
    YieldsFrom start [.placed start [key], .passed start]
      (methodRest parse start form isGenerator isAsync isStatic key computed) := by
  refine .look fun form => .hereAfter fun valueStart le => ?_
  refine .partGiven (builds_functionRest valueStart form isGenerator isAsync none) fun f => ?_
  refine .finish fun method => .skipIf ?_
  refine .back le [.placed start [key], .placed start [method], .apart [key] [method],
    .passed start] ?_
  exact .finish fun node => .pure

theorem yieldsFrom_fieldRest (start : Offset) (isStatic : Bool) (key : NodeId) (computed : Bool) :
    YieldsFrom start [.placed start [key], .passed start]
      (fieldRest parse start isStatic key computed) := by
  refine .part fun type => ?_
  refine .bindIfOptional fun initializer => .skip fun _ => ?_
  exact .finish fun node => .pure

theorem yieldsFrom_memberRest (start : Offset) (isStatic : Bool) :
    YieldsFrom start [] (memberRest parse start isStatic) := by
  refine .look fun isAsync => .skipIf (.skip fun isGenerator => ?_)
  refine .look fun gets => .look fun sets => ?_
  extract_lets after
  have rest (accessor : Option FunctionForm) : YieldsFrom start [] (after accessor) := by
    refine .skipIf (.key (fun _ => .pure) fun key computed => ?_)
    refine .skip fun _ => .skipUnless (.look fun opens => .ite (fun _ => ?_) fun _ => ?_)
    · exact .lastGiven
        (yieldsFrom_methodRest start _ isGenerator isAsync isStatic key computed)
    · exact .lastGiven (yieldsFrom_fieldRest start isStatic key computed)
  refine .ite (fun _ => .skip rest) fun _ => .ite (fun _ => .skip rest) fun _ => ?_
  exact .ite (fun _ => .skip rest) fun _ => .skip rest

instance : Yields (classMember parse) anywhere := by
  refine .labelled ?_
  refine .start fun start => .part fun _ => ?_
  refine .skip fun isStatic => .test (.lastGiven (yieldsFrom_staticBlock start)) ?_
  refine .test (.lastGiven (yieldsFrom_indexSignature start)) ?_
  exact .lastGiven (yieldsFrom_memberRest start isStatic)

instance : Yields (classMembers parse) anywhere where
  builds b := by
    refine .labelled ?_
    refine .skip fun opens => .ite (fun _ => ?_) fun _ => .pure
    refine .collect (fun b members => .test .pure ?_) fun members => .skip fun _ => .pure
    refine .ifOptional .pure (.look fun start => .part fun member => ?_)
    refine .look fun now => .skipIf ?_
    cases member <;> exact .pure

instance : Yields (supertypes parse) anywhere :=
  inferInstanceAs (Yields (separated _ _) anywhere)

instance : Yields (classHeritage parse) anywhere where
  builds b := by
    refine .ifOptional (.part fun superClass => ?_) .pure
    exact .bindIf fun arguments => .pure

theorem yieldsFrom_classLike (start : Offset) (isDeclaration nameOptional : Bool) :
    YieldsFrom start [] (classLike parse start isDeclaration nameOptional) := by
  refine .labelled ?_
  refine .pass fun _ => .look fun named => .look fun implement => ?_
  extract_lets after
  have rest (name : Child) : YieldsFrom start [.placed start (carried name), .passed start]
      (after name) := by
    refine .part fun typeParameters => ?_
    refine .part fun (superClass, arguments) => ?_
    refine .bindIfOptional fun implemented => ?_
    refine .part fun members => ?_
    exact .finish fun node => .pure
  have named {p : Parse Child} {now : Token.Scanner → Prop} [Yields p anywhere] :
      Builds now start [.passed start] (p >>= after) fun node => [.placed start (carried node)] :=
    .part fun name => .lastGiven (rest name)
  refine .ite (fun _ => named) fun _ => ?_
  exact .ite (fun _ => .skip fun _ => named) fun _ => named

end LoopCapture.Grammar
