import LoopCapture.Grammar.Functions
import LoopCapture.Proofs.Grammar.Handover.Types

/-!
# Blocks, functions and classes hand nodes over
-/

namespace LoopCapture.Grammar
open Syntax (Child NodeId Shape FunctionForm Within)
open Parse

theorem takes_modifiesMember : Takes [] modifiesMember := by
  refine takes_nextOnSameLine (.skip fun k => ?_)
  split <;> simp

theorem takes_memberModifiers : Takes [] memberModifiers := by
  refine takes_iterate (fun isStatic => .skip fun k => ?_) false
  extract_lets after
  have rest (isModifier : Bool) : Takes [] (after isModifier) := by simp [after]
  split
  all_goals first | exact takes_modifiesMember.bind rest | exact rest false

theorem takes_methodForm (form : FunctionForm) (computed isStatic : Bool) (key : Child) :
    Takes [] (methodForm form computed isStatic key) := by
  simp [methodForm]

variable {parse : Parser} (parts : ∀ goal, Takes [] (parse goal))

include parts

theorem takes_listedStatement (statements : Array NodeId) :
    Takes (carried statements) (listedStatement parse statements) := by
  simp [listedStatement]
  exact fun start => (parts _).bindOption (by simp) fun statement => by simp

theorem takes_blockStatements : Takes [] (blockStatements parse) := by
  refine takes_labelled.mpr ?_
  refine (takes_iterate (fun statements => ?_) #[]).bind fun statements => by simp
  simp
  exact (takes_listedStatement parts statements).bindWith [] (by simp)
    fun statements => by simp

theorem takes_block : Takes [] (block parse) := by
  simp [block]
  exact fun start => (takes_blockStatements parts).within.bind fun statements => by simp

theorem takes_functionRest (form : FunctionForm) (isGenerator isAsync : Bool) (name : Child) :
    Takes (carried name) (functionRest parse form isGenerator isAsync name) := by
  refine takes_labelled.mpr ?_
  refine Takes.within ?_
  refine (takes_signature parts none).bind fun s => ?_
  refine .bindIf (takes_block parts) (by simp) fun body => ?_
  simp
  grind [Within]

theorem takes_functionDeclaration (start : Text.Offset) (isAsync nameOptional : Bool) :
    Takes [] (functionDeclaration parse start isAsync nameOptional) := by
  unfold functionDeclaration
  refine takes_labelled.mpr ?_
  refine .skip fun _ => .skip fun isGenerator => .skip fun _ => ?_
  extract_lets after
  have rest (name : Child) : Takes (carried name) (after name) := by
    refine (takes_functionRest parts .declaration isGenerator isAsync name).bindWith []
      (by simp) fun f => ?_
    exact takes_finish_bind [] (by simp) fun node => by simp
  refine .ite (takes_identifier.bind rest) ?_
  exact .ite (rest none) (.skip fun _ => rest none)

theorem takes_functionExpression (start : Text.Offset) (isAsync : Bool) :
    Takes [] (functionExpression parse start isAsync) := by
  unfold functionExpression
  refine takes_labelled.mpr ?_
  refine .skip fun _ => .skip fun isGenerator => ?_
  refine .bindIf takes_identifier (by simp) fun name => ?_
  refine (takes_functionRest parts .expression isGenerator isAsync name).bindWith []
    (by simp) fun f => ?_
  simp

theorem takes_staticBlock (start : Text.Offset) : Takes [] (staticBlock parse start) := by
  simp [staticBlock]
  exact (takes_blockStatements parts).within.bind fun statements => by simp

theorem takes_methodRest (start : Text.Offset) (form : FunctionForm)
    (isGenerator isAsync isStatic : Bool) (key : NodeId) (computed : Bool) :
    Takes [key] (methodRest parse start form isGenerator isAsync isStatic key computed) := by
  unfold methodRest
  refine (takes_methodForm form computed isStatic key).bind fun form => .skip fun valueStart => ?_
  refine (takes_functionRest parts form isGenerator isAsync none).bind fun f => ?_
  refine takes_finish_bind [key] (by simp; grind [Within]) fun method => ?_
  simp

theorem takes_fieldRest (start : Text.Offset) (isStatic : Bool) (key : NodeId) (computed : Bool) :
    Takes [key] (fieldRest parse start isStatic key computed) := by
  unfold fieldRest
  refine (takes_typeAfterColon parts).bind fun type => ?_
  refine .bindIf (parts _).within (by simp) fun initializer => ?_
  simp

theorem takes_memberRest (start : Text.Offset) (isStatic : Bool) :
    Takes [] (memberRest parse start isStatic) := by
  unfold memberRest
  refine (Takes.and takes_test takes_modifiesMember).bind fun isAsync =>
    .skipWhen (.skip fun isGenerator => ?_)
  refine (Takes.and takes_test takes_modifiesMember).bind fun _ => ?_
  refine (Takes.and takes_test takes_modifiesMember).bind fun _ => ?_
  extract_lets after
  have rest (accessor : Option FunctionForm) : Takes [] (after accessor) := by
    refine .skipWhen (takes_propertyKey_bind parts (by simp) fun key computed => ?_)
    refine .skip fun _ => .skipUnless (.skip fun _ => .ite ?_ ?_)
    · exact takes_methodRest parts start _ isGenerator isAsync isStatic key computed
    · exact takes_fieldRest parts start isStatic key computed
  exact .ite (rest none) (.ite (rest (some .getter)) (.ite (rest (some .setter)) (rest none)))

theorem takes_classMember : Takes [] (classMember parse) := by
  unfold classMember
  refine takes_labelled.mpr ?_
  refine .skip fun start => ?_
  refine (takes_decorators parts).bind fun _ => ?_
  refine takes_memberModifiers.bind fun isStatic => ?_
  refine .skip fun _ => .ite (by simp [takes_staticBlock parts]) (.skip fun _ => ?_)
  exact .ite (by simp [takes_indexSignature parts]) (by simp [takes_memberRest parts])

theorem takes_classMembers : Takes [] (classMembers parse) := by
  simp [classMembers]
  refine (takes_iterate (fun members => ?_) #[]).bind fun members => by simp
  simp
  exact fun start => (takes_classMember parts).bindOption (by simp) fun member => by simp

theorem takes_supertypes : Takes [] (supertypes parse) :=
  takes_separated (takes_typeReference parts)

theorem takes_classHeritage : Takes [] (classHeritage parse) := by
  simp [classHeritage]
  refine (parts _).bind fun superClass => ?_
  exact .bindIf (takes_typeArguments parts) (by simp) fun arguments => by simp

theorem takes_classLike (start : Text.Offset) (isDeclaration nameOptional : Bool) :
    Takes [] (classLike parse start isDeclaration nameOptional) := by
  unfold classLike
  refine takes_labelled.mpr ?_
  refine .skip fun _ => .skip fun _ => .skip fun _ => ?_
  extract_lets after
  have rest (name : Child) : Takes (carried name) (after name) := by
    refine (takes_typeParameters parts).bind fun typeParameters => ?_
    refine (takes_classHeritage parts).bind fun (superClass, arguments) => ?_
    refine .bindIf (takes_supertypes parts) (by simp) fun implemented => ?_
    exact (takes_classMembers parts).within.bind fun members => by simp
  refine .ite (takes_identifier.bind rest) ?_
  exact .ite (.skip fun _ => rest none) (rest none)

end LoopCapture.Grammar
