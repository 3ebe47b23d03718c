import LoopCapture.Proofs.Grammar.Building.Functions
import LoopCapture.Proofs.Grammar.Progress.Types

/-!
# Blocks, functions and classes move on
-/

namespace LoopCapture.Grammar
open Text (Offset)
open Syntax (Child NodeId FunctionForm)
open Token (Scanner)
open Parse

variable {parse : Parser} {bound : Nat}

theorem paces_listedStatement (statements : Array NodeId) :
    Paces parse (Routine.listedStatement.ctorIdx + 2) atToken (listedStatement parse statements)
      always := by
  refine .routine (.look fun start => .partSince (by decide) (fun _ _ => trivial)
    (fun statement => ?_) fun statement => ?_)
  · refine .look fun h => .look fun ends => ?_
    dsimp only
    refine .ite (fun _ => .take .free fun s is => is.1.1.atToken) fun other => .absurd ?_
    rintro s ⟨⟨since, rfl⟩, rfl⟩
    have more := since.atToken
    have same : s.start.offset = start := since.offset_start
    grind
  · dsimp only
    exact .free

instance : Advances parse (blockStatements parse) (Routine.blockStatements.ctorIdx + 2)
    anywhere := by
  refine .routine (.bindAnywhere (.iterate fun statements => .test .pure ?_) fun _ => .pure)
  exact (paces_listedStatement statements).bindLater (by decide) (by grind) fun _ => .pure

abbrev atBrace (s : Scanner) : Prop := s.kind = .punctuator .openBrace

theorem paces_block_atBrace : Paces parse 1 atBrace (block parse) never := by
  refine .routineAt ?_ fun s is => by simp [Routine.rank, is]
  refine .look fun start => .expected ?_
  exact .free

instance : Advances parse (block parse) (Routine.block.ctorIdx + 2) anywhere where
  paces := by
    refine .byCases atBrace ?_ ?_
    · exact paces_block_atBrace.weaken (by decide) (fun s is => is.2) fun _ => id
    · refine .routineAt ?_ fun s is => by simp [Routine.rank, is]
      exact .look fun start => .skip fun _ => .part (by decide) fun statements => .last (by decide)

instance {form : FunctionForm} {isGenerator isAsync : Bool} {name : Child} :
    Advances parse (functionRest parse form isGenerator isAsync name)
      (Routine.functionRest.ctorIdx + 2) anywhere := by
  refine .routine (.within (.part (by decide) fun s => ?_))
  dsimp only
  refine .test ?_ (.pureBind .pure)
  have inner : Paces parse (Routine.functionRest.ctorIdx + 1)
      (fun s => anywhere s ∧ (s.kind == .punctuator .openBrace) = true) (block parse) never :=
    paces_block_atBrace.weaken (by decide) (by grind) fun _ => id
  exact inner.bindAnywhere fun body => .pure

instance {start : Offset} {isAsync nameOptional : Bool} :
    Advances parse (functionDeclaration parse start isAsync nameOptional)
      (Routine.functionDeclaration.ctorIdx + 2) anywhere := by
  refine .routine (.skip fun _ => .skip fun isGenerator => .skip fun named => ?_)
  have rest (name : Child) : Paces parse (Routine.functionDeclaration.ctorIdx + 1) anywhere (do
      let f ← functionRest parse .declaration isGenerator isAsync name
      let node ← finish start (.function f)
      if f.body.isNone then semicolon
      return some node) never :=
    .part (by decide) fun f => .skip fun node => .skipIf .pure
  dsimp only
  exact .ite (fun _ => .skip rest) fun _ => .skipUnless (.pureBind (rest _))

instance {start : Offset} {isAsync : Bool} :
    Advances parse (functionExpression parse start isAsync)
      (Routine.functionExpression.ctorIdx + 2) anywhere := by
  refine .routine (.skip fun _ => .skip fun isGenerator => .skip fun named => ?_)
  dsimp only
  refine .ite (fun _ => .skip fun name => ?_) fun _ => .pureBind ?_
  all_goals exact .part (by decide) fun f => .skipIf (.last (by decide))

instance : Walks modifiesMember := by
  have looks (k : Token.Kind) : Walks (match k with
      | .privateName | .string | .number | .punctuator .openBracket | .punctuator .star => pure true
      | k => pure k.isWord) := by split <;> infer_instance
  exact inferInstanceAs (Walks (nextOnSameLine _))

instance : Walks memberModifiers := by
  refine .of_paces (.iterate fun isStatic => .look fun k => ?_)
  dsimp only
  split
  all_goals first
    | exact .look fun isModifier => .ite (fun _ => .take .pure) fun _ => .pure
    | exact .pureBind (.ite (fun never => absurd never Bool.false_ne_true) fun _ => .pure)

instance {start : Offset} : Advances parse (staticBlock parse start) 0 atToken where
  paces := .take .free

instance {form : FunctionForm} {computed isStatic : Bool} {key : Child} :
    Walks (methodForm form computed isStatic key) := by
  unfold methodForm
  infer_instance

instance {start : Offset} {form : FunctionForm} {isGenerator isAsync isStatic : Bool}
    {key : NodeId} {computed : Bool} :
    Advances parse (methodRest parse start form isGenerator isAsync isStatic key computed)
      (Routine.functionRest.ctorIdx + 2) anywhere where
  paces := .skip fun form => .skip fun valueStart => .part (by decide) fun f => .skip fun method =>
    .skipIf (.last (by decide))

instance {start : Offset} {isStatic : Bool} {key : NodeId} {computed : Bool} :
    Advances parse (fieldRest parse start isStatic key computed)
      (Routine.typeAfterColon.ctorIdx + 2) anywhere where
  paces := by
    refine .part (by decide) fun type => ?_
    dsimp only
    exact .ifOptional .free (.pureBind (.last (by decide)))

instance {start : Offset} {isStatic : Bool} : Advances parse (memberRest parse start isStatic)
    (Routine.functionRest.ctorIdx + 2) anywhere where
  paces := by
    refine .skip fun isAsync => .skipIf (.skip fun isGenerator => ?_)
    refine .skip fun getter => .skip fun setter => ?_
    extract_lets after
    have rest (accessor : Option FunctionForm) :
        Paces parse (Routine.functionRest.ctorIdx + 2) anywhere (after accessor) never := by
      refine .skipIf (.part (by decide) fun (key, computed) => ?_)
      cases key with
      | none => exact .pure
      | some key =>
        exact .skip fun isOptional => .skipUnless (.test (.last (by decide)) (.last (by decide)))
    refine .ite (fun _ => .pureBind (rest none)) fun _ => ?_
    refine .ite (fun _ => .pureBind (rest _)) fun _ => ?_
    exact .ite (fun _ => .pureBind (rest _)) fun _ => .pureBind (rest none)

instance : Advances parse (classMember parse) (Routine.classMember.ctorIdx + 2) anywhere := by
  refine .routine (.look fun start => .part (by decide) fun _ => .skip fun isStatic => ?_)
  exact .test (.lastAt (by decide) (by grind)) (.test (.last (by decide)) (.last (by decide)))

instance : Advances parse (classMembers parse) (Routine.classMembers.ctorIdx + 2) anywhere := by
  refine .routine (.ifOptional ?_ .pure)
  refine .bindAnywhere (.iterate fun members => ?_) fun members => .free
  refine .test .pure (.ifOptional .pure (.look fun start => ?_))
  refine .partSince (by decide) (fun _ _ => trivial) (fun member => .look fun h => ?_)
    fun member => ?_
  · dsimp only
    refine .ite (fun _ => .take .pure fun s is => is.1.atToken) fun other => .absurd ?_
    exact fun s is => other (beq_iff_eq.mpr (is.2 ▸ is.1.offset_start))
  · dsimp only
    exact .free

instance : Advances parse (supertypes parse) (Routine.typeReference.ctorIdx + 2) anywhere :=
  inferInstanceAs (Advances parse (separated _ _) _ _)

instance : Advances parse (classHeritage parse) 0 anywhere where
  paces := by
    refine .ifOptional ?_ .pure
    dsimp only
    exact .free

instance {start : Offset} {isDeclaration nameOptional : Bool} :
    Advances parse (classLike parse start isDeclaration nameOptional)
      (Routine.classLike.ctorIdx + 2) anywhere := by
  refine .routine (.skip fun _ => .skip fun named => .skip fun implemented => ?_)
  extract_lets after skipped
  have rest (name : Child) :
      Paces parse (Routine.classLike.ctorIdx + 1) anywhere (after name) never := by
    refine .part (by decide) fun typeParameters =>
      .part (by decide) fun (superClass, arguments) => ?_
    dsimp only
    refine .ifOptional .free (.pureBind ?_)
    exact .part (by decide) fun members => .last (by decide)
  exact .ite (fun _ => .skip rest) fun _ => .skipIf (.pureBind (rest none))

end LoopCapture.Grammar
