import LoopCapture.Proofs.Grammar.Attachment.Types
import LoopCapture.Proofs.Grammar.Building.Functions

/-!
# Blocks, functions and classes lose no node
-/

namespace LoopCapture.Grammar
open Text (Offset)
open Syntax (Child NodeId FunctionForm Places Role Shape standing)
open Parse

attribute [local simp] carried_nodes toList_eq_carried mem_carried mem_carried_array

instance : Idle memberModifiers := by
  refine .iterate (fun isStatic => .mk (.skip fun k => ?_)) false
  extract_lets after
  have rest (isModifier : Bool) : Idle (after isModifier) := by
    simp only [after]
    infer_instance
  split
  all_goals exact .skip fun isModifier => (rest isModifier).settles

variable {parse : Parser} [Attaches parse]

theorem settles_listedStatement (statements : Array NodeId) :
    Settles anyway (standing .part (carried statements)) (listedStatement parse statements)
      fun statements => standing .part (carried statements) := by
  refine .labelled ?_
  refine .skip fun start => .part fun statement => .skip fun now => .skip fun ends => .skipIf ?_
  cases statement <;> exact .pure

instance : Delivers (blockStatements parse) .part where
  settles := by
    refine .labelled ?_
    refine .collect .part (fun statements => .test .pure ?_) fun statements => .pure
    exact (settles_listedStatement statements).bind fun statements => .pure

instance : Delivers (block parse) .part where
  settles := by
    refine .labelled ?_
    refine .skip fun start => .skip fun _ => .part fun statements => .skip fun _ => ?_
    exact .finish fun node => .pure

theorem settles_functionRest (form : FunctionForm) (isGenerator isAsync : Bool) (name : Child) :
    Settles anyway [] (functionRest parse form isGenerator isAsync name)
      Shape.functionPlaces := by
  refine .labelled ?_
  refine .within (.signature [] fun s keyless => .test (.part fun body => ?_) (.pureBind ?_))
  all_goals
    simp only [Shape.signaturePlaces, keyless]
    exact .pure

theorem settles_functionDeclaration (start : Offset) (isAsync nameOptional : Bool) :
    Settles anyway [] (functionDeclaration parse start isAsync nameOptional)
      fun node => standing .part (carried node) := by
  refine .labelled ?_
  refine .skip fun _ => .skip fun isGenerator => .skip fun named => ?_
  extract_lets after
  have rest (name : Child) : Settles anyway [] (after name)
      fun node => standing .part (carried node) := by
    refine (settles_functionRest .declaration isGenerator isAsync name).bind fun f => ?_
    exact .finish fun node => .skipIf .pure
  refine .ite (fun _ => .skip rest) fun _ => ?_
  exact .skipUnless (.skip rest)

theorem settles_functionExpression (start : Offset) (isAsync : Bool) :
    Settles anyway [] (functionExpression parse start isAsync)
      fun node => standing .part (carried node) := by
  refine .labelled ?_
  refine .skip fun _ => .skip fun isGenerator => ?_
  refine .test (.skip fun name => ?_) (.pureBind ?_)
  all_goals
    refine (settles_functionRest .expression isGenerator isAsync _).bind fun f => ?_
    exact .ite (fun _ => .fault) fun _ => .finish fun node => .pure

theorem settles_staticBlock (start : Offset) :
    Settles anyway [] (staticBlock parse start) fun node => standing .part (carried node) := by
  refine .skip fun _ => .skip fun _ => .part fun statements => .skip fun _ => ?_
  exact .finish fun node => .pure

theorem settles_methodRest (start : Offset) (form : FunctionForm)
    (isGenerator isAsync isStatic : Bool) (key : NodeId) (computed : Bool) :
    Settles anyway [(key, keyRole computed)]
      (methodRest parse start form isGenerator isAsync isStatic key computed)
      fun node => standing .part (carried node) := by
  refine .skip fun form => .skip fun valueStart => ?_
  refine .bindWith [(key, keyRole computed)]
    (settles_functionRest form isGenerator isAsync none) (.refl _) fun f => ?_
  refine .finishBeside [(key, keyRole computed)] fun method => .skipIf ?_
  exact .finish fun node => .pure

theorem settles_fieldRest (start : Offset) (isStatic : Bool) (key : NodeId) (computed : Bool) :
    Settles anyway [(key, keyRole computed)] (fieldRest parse start isStatic key computed)
      fun node => standing .part (carried node) := by
  refine .part fun type => .test (.part fun initializer => ?_) (.pureBind ?_)
  all_goals exact .skip fun _ => .finish fun node => .pure

theorem settles_memberRest (start : Offset) (isStatic : Bool) :
    Settles anyway [] (memberRest parse start isStatic)
      fun node => standing .part (carried node) := by
  refine .skip fun isAsync => .skipIf (.skip fun isGenerator => ?_)
  refine .skip fun gets => .skip fun sets => ?_
  extract_lets after
  have rest (accessor : Option FunctionForm) : Settles anyway [] (after accessor)
      fun node => standing .part (carried node) := by
    refine .skipIf (.key (fun _ => .pure) fun key computed => ?_)
    refine .skip fun _ => .skipUnless (.test ?_ (settles_fieldRest start isStatic key computed))
    exact settles_methodRest start _ isGenerator isAsync isStatic key computed
  refine .ite (fun _ => .skip rest) fun _ => .ite (fun _ => .skip rest) fun _ => ?_
  exact .ite (fun _ => .skip rest) fun _ => .skip rest

instance : Delivers (classMember parse) .part where
  settles := by
    refine .labelled ?_
    refine .skip fun start => .skip fun _ => .skip fun isStatic => ?_
    refine .test (settles_staticBlock start) (.test (settles_indexSignature start) ?_)
    exact settles_memberRest start isStatic

instance : Delivers (classMembers parse) .part where
  settles := by
    refine .labelled ?_
    refine .skip fun opens => .ite (fun _ => ?_) fun _ => .pure
    refine .collect .part (fun members => .test .pure ?_) fun members => .skip fun _ => .pure
    refine .test .pure (.skip fun start => .part fun member => .skip fun now => .skipIf ?_)
    cases member <;> exact .pure

instance : Delivers (supertypes parse) .part :=
  inferInstanceAs (Delivers (separated _ _) .part)

instance : Delivers (classHeritage parse) .part where
  settles := by
    refine .test (.part fun superClass => ?_) .pure
    exact .test (.part fun arguments => .pure) (.pureBind .pure)

theorem settles_classLike (start : Offset) (isDeclaration nameOptional : Bool) :
    Settles anyway [] (classLike parse start isDeclaration nameOptional)
      fun node => standing .part (carried node) := by
  refine .labelled ?_
  refine .skip fun _ => .skip fun named => .skip fun implement => ?_
  extract_lets after
  have rest (name : Child) : Settles anyway [] (after name)
      fun node => standing .part (carried node) := by
    refine .part fun typeParameters => .part fun (superClass, arguments) => ?_
    refine .test (.part fun implemented => ?_) (.pureBind ?_)
    all_goals exact .part fun members => .finish fun node => .pure
  refine .ite (fun _ => .skip rest) fun _ => ?_
  exact .ite (fun _ => .fault) fun _ => .skip rest

end LoopCapture.Grammar
