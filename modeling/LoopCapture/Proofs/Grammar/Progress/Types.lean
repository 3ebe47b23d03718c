import LoopCapture.Proofs.Grammar.Building.Types
import LoopCapture.Proofs.Grammar.Progress.Steps

/-!
# Patterns and types move on
-/

namespace LoopCapture.Grammar
open Text (Offset)
open Syntax (Child NodeId Shape)
open Token (Kind Punctuator)
open Parse

variable {parse : Parser} {bound : Nat}

instance : Walks variance :=
  .of_paces (.iterate fun _ => .test (.take .pure) .pure)

instance : Walks entityName := by
  refine .of_paces (.test ?_ (.skip fun _ => .pure))
  refine .skip fun start => .skip fun text => .skip fun _ => .skip fun first => ?_
  refine .iterate fun name => .ifOptional ?_ .pure
  exact .free

instance : Walks atPredicateSubject := by
  unfold atPredicateSubject
  infer_instance

instance : Walks optionalSign := by
  unfold optionalSign
  infer_instance

instance : Walks atIndexSignature := by
  unfold atIndexSignature
  infer_instance

instance : Walks atConstructSignature := by
  unfold atConstructSignature
  infer_instance

instance : Walks atParameters := by
  unfold atParameters
  infer_instance

instance : Walks atMappedType := by
  refine .lookAhead (.bind fun _ => .bind fun signed => ?_)
  have inBrackets : Walks (atMark .openBracket >>= fun opened => if opened = true then
      advance >>= fun _ => atName >>= fun named =>
        if named = true then advance >>= fun _ => atWord .in_ else pure false
    else pure false) := inferInstance
  dsimp only
  infer_instance

instance : Walks atReadonlyModifier := by
  unfold atReadonlyModifier
  have looks (k : Kind) : Walks (match k with
      | .punctuator .colon | .punctuator .question | .punctuator .openParen
      | .punctuator .semicolon | .punctuator .comma | .punctuator .closeBrace => pure false
      | _ => pure true) := by split <;> infer_instance
  infer_instance

instance : Walks atAccessorModifier := by
  unfold atAccessorModifier
  have looks (k : Kind) : Walks (match k with
      | .string | .number | .punctuator .openBracket => pure true
      | k => pure k.isWord) := by split <;> infer_instance
  infer_instance

instance : Walks parameterModifiers := by
  refine .of_paces (.iterate fun _ => .look fun k => ?_)
  dsimp only
  split
  case h_6 => exact .pureBind (.ite (fun never => absurd never Bool.false_ne_true) fun _ => .pure)
  all_goals exact .look fun isModifier => .ite (fun _ => .take .pure) fun _ => .pure

instance : Advances parse (typeAfterColon parse) (Routine.typeAfterColon.ctorIdx + 2) anywhere :=
  .routine (.ifOptional .free .pure)

instance : Advances parse (typeOrPredicate parse) (Routine.typeOrPredicate.ctorIdx + 2)
    anywhere := by
  refine .routine (.look fun start => .test (.take ?_) (.test ?_ (.last (by decide))))
  · dsimp only
    exact .free
  · refine .part (by decide) fun parameter => .skip fun _ => .part (by decide) fun type =>
      .last (by decide)

instance : Advances parse (returnTypeAfterColon parse)
    (Routine.returnTypeAfterColon.ctorIdx + 2) anywhere :=
  .routine (.ifOptional .free .pure)

instance : Advances parse (typeArguments parse) (Routine.typeArguments.ctorIdx + 2) anywhere :=
  .routine (.ifOptional .free .pure)

instance : Advances parse (typeParameter parse) 0 anywhere where
  paces := by
    refine .look fun start => .skip fun _ => .option (by decide) .pure fun name => ?_
    dsimp only
    refine .ifOptional .free (.pureBind (.ifOptional .free (.pureBind (.last (by decide)))))

instance : Advances parse (typeParameters parse) (Routine.typeParameters.ctorIdx + 2) anywhere :=
  .routine (.ifOptional .free .pure)

instance : Advances parse (typeReference parse) (Routine.typeReference.ctorIdx + 2) anywhere := by
  refine .routine (.look fun start => .option (by decide) .pure fun name => ?_)
  refine .skip fun opens => .skip fun broken => ?_
  exact .ite (fun _ => .part (by decide) fun arguments => .last (by decide)) fun _ =>
    .pureBind (.last (by decide))

instance : Advances parse (propertyKey parse) (Routine.propertyKey.ctorIdx + 2) anywhere := by
  refine .routine (.look fun k => ?_)
  split
  · exact .take .free
  · exact .last (by decide)
  · exact .last (by decide)
  · exact .last (by decide)
  · exact .last (by decide)
  · exact .ite (fun _ => .last (by decide)) fun _ => .last (by decide)

instance : Advances parse (bindingElement parse) (Routine.bindingElement.ctorIdx + 2) anywhere := by
  refine .routine (.look fun start => .option (by decide) .pure fun target => ?_)
  exact .ifOptional .free .pure

instance {start : Offset} {name : NodeId} {default : Parse Child} [Roams parse default] :
    Advances parse (shorthandDefault start name default) 0 anywhere where
  paces := .ifOptional .free .pure

instance : Advances parse (bindingProperty parse) (Routine.bindingElement.ctorIdx + 2)
    anywhere where
  paces := by
    refine .look fun start => .ifOptional .free ?_
    refine .test ?_ ?_
    · exact .look fun name => .look fun stop => .take .free
    · refine .part (by decide) fun (key, computed) => ?_
      cases key with
      | none => exact .pure
      | some key => exact .skip fun _ => .part (by decide) fun target => .last (by decide)

instance : Advances parse (objectPattern parse) (Routine.objectPattern.ctorIdx + 2) atToken := by
  refine .routine ?_
  exact .look fun start => .take .free

/-- An element that consumes nothing is no reason to go on: what closes the list was not there
before it. -/
instance {item : Parse Child} {now : Token.Scanner → Prop} [h : Advances parse item bound now]
    [every : Every now] : Advances parse (elementList item) bound anywhere where
  paces := by
    refine .bindAnywhere (.iterate fun elements => ?_) fun elements => .pure
    refine .test .pure (.ifOptional .pure ?_)
    refine .partSince (Nat.le_refl _) (fun s _ => every.holds s) (fun element => ?_)
      fun element => ?_
    · cases element with
      | none => exact .pure
      | some node =>
        refine .assoc (.look fun closes => ?_)
        cases closes with
        | true =>
          refine .absurd ?_
          rintro s ⟨⟨before, ⟨⟨-, open_⟩, -⟩, -, becomes⟩, closes⟩
          grind [Kind.Becomes]
        | false =>
          dsimp only [toBool]
          exact .ifOptional .pure .pure
    · cases element with
      | none => exact .pure
      | some node => exact .free
  bound_le := h.bound_le

instance : Advances parse (bindingArrayElement parse) (Routine.bindingElement.ctorIdx + 2)
    anywhere where
  paces := .look fun start => .ifOptional .free (.last (by decide))

instance : Advances parse (arrayPattern parse) (Routine.arrayPattern.ctorIdx + 2) atToken := by
  refine .routine ?_
  exact .look fun start => .take .free

instance : Advances parse (bindingTarget parse) (Routine.arrayPattern.ctorIdx + 2) anywhere where
  paces := by
    refine .look fun k => ?_
    split
    · exact .lastAt (by decide) (by grind)
    · exact .lastAt (by decide) (by grind)
    · exact .last (by decide)

instance : Advances parse (decorators parse) (Routine.decorators.ctorIdx + 2) anywhere := by
  refine .routine (.iterate fun _ => ?_)
  exact .ifOptional .free .pure

theorem paces_decorators_atSign : Paces parse (Routine.decorators.ctorIdx + 2)
    (fun s => s.kind = .punctuator .atSign) (decorators parse) always := by
  refine .routine (.iterateOnce (fun _ => ?_) ?_)
  · exact .ifOptional .free .pure
  · exact .ifOptional .free (.absurd fun s other => other.2 other.1)

instance : Advances parse (parameterTarget parse) (Routine.bindingTarget.ctorIdx + 2)
    anywhere where
  paces := by
    refine .look fun start => .look fun k => ?_
    split
    · exact .take .free
    · exact .take .free
    · exact .last (by decide)

instance : Advances parse (parameter parse) (Routine.parameter.ctorIdx + 2) anywhere := by
  refine .routine (.look fun start => .part (by decide) fun _ => .skip fun _ =>
    .look fun targetStart => ?_)
  refine .option (by decide) .pure fun target => .skip fun isOptional =>
    .part (by decide) fun type => ?_
  exact .part (by decide) fun pattern => .last (by decide)

instance : Advances parse (parameterList parse) (Routine.parameterList.ctorIdx + 2) anywhere :=
  .routine (.ifOptional .free .pure)

instance {key : Child} : Advances parse (signature parse key) (Routine.signature.ctorIdx + 2)
    anywhere :=
  .routine (.part (by decide) fun typeParameters => .part (by decide) fun params =>
    .part (by decide) fun returnType => .pure)

instance : Advances parse (functionType parse) (Routine.functionType.ctorIdx + 2) anywhere := by
  refine .routine (.skip fun isConstructor => .skip fun opens => .skip fun less => ?_)
  refine .ite (fun _ => .attempt ?_) fun _ => .pure
  refine .skip fun start => .skip fun _ => .skip fun _ => .part (by decide) fun typeParameters => ?_
  refine .test (.part (by decide) fun params => .ifOptional .free .pure) .pure

/-- Members that stand for themselves where there is no separator. -/
instance {separator : Punctuator} {join : List NodeId → Shape} {member : Parse Child}
    {now : Token.Scanner → Prop} [h : Advances parse member bound now] [every : Every now] :
    Advances parse (typeChain (.punctuator separator) join member) bound anywhere where
  paces := by
    refine .look fun start => .skip fun _ => ?_
    exact .optionAt (Nat.le_refl _) (fun s _ => every.holds s) .pure fun first =>
      .ifOptional .free .pure
  bound_le := h.bound_le

instance : Advances parse (unionType parse) (Routine.unionType.ctorIdx + 2) anywhere := by
  have intersections : Advances parse (labelled (.routine .intersectionType)
      (typeChain (.punctuator .amp) .intersectionType (parse .typeOperator)))
      (Routine.intersectionType.ctorIdx + 2) anywhere := .routine (.last (by decide))
  exact .routine (.last (by decide))

instance : Advances parse (typeBody parse) (Routine.unionType.ctorIdx + 2) anywhere where
  paces := by
    refine .option (by decide) (.look fun start => .option (by decide) .pure fun check => ?_)
      fun node => .pure
    refine .look fun s => .look fun extends_ => .look fun broken => ?_
    refine .ite (fun _ => .pure) fun other => .take .free ?_
    rintro t ⟨⟨⟨-, -⟩, is⟩, -⟩
    grind

instance : Advances parse (inferBound parse) 0 anywhere where
  paces := by
    refine .test ?_ .pure
    have tries : Paces parse 0 (fun s => anywhere s ∧ (s.kind == .keyword .extends_) = true)
        (attempt do
          advance
          let bound ← within disallowConditional (parse .type)
          if ← atMark .question then return none else return some bound) never :=
      .attempt (.take .free)
    exact tries.bindAnywhere fun bound => .pure

instance : Advances parse (typeQuery parse) (Routine.typeQuery.ctorIdx + 2) anywhere := by
  refine .routine (.look fun start => .skip fun _ => .skip fun name => ?_)
  refine .skip fun opens => .skip fun broken => ?_
  exact .ite (fun _ => .part (by decide) fun arguments => .last (by decide)) fun _ =>
    .last (by decide)

instance : Advances parse (tupleElement parse) allRoutines anywhere where
  paces := by
    have labelled : Walks (atAnyWord <&&> lookAhead do
      advance
      discard <| optionalMark .question
      atMark .colon) := inferInstance
    unfold tupleElement
    dsimp only
    refine .skip fun _ => .skip fun labelled => .ite (fun _ => ?_) fun _ => ?_
    · refine .skip fun _ => .skip fun _ => .skip fun _ => .skip fun _ => ?_
      exact .option (by decide) .pure fun element => .last (by decide)
    · exact .option (by decide) .pure fun element => .last (by decide)

instance : Advances parse (tupleType parse) (Routine.tupleType.ctorIdx + 2) atToken := by
  refine .routine ?_
  exact .look fun start => .take .free

/-- A mapped type starts at its brace. -/
instance : Advances parse (mappedType parse) (Routine.mappedType.ctorIdx + 2)
    fun s => s.kind = .punctuator .openBrace := by
  refine .routine ?_
  refine .look fun start => .expected (.skip fun _ => .skip fun _ => .skip fun _ => ?_)
  refine .skip fun parameterStart => .skip fun name => .skip fun _ => ?_
  refine .part (by decide) fun constraint => ?_
  dsimp only
  refine .ifOptional (.part (by decide) fun renamed => ?_) (.pureBind ?_)
  all_goals
    refine .skip fun parameter => .skip fun _ => .skip fun _ => .skip fun _ => ?_
    exact .free

instance {start : Offset} : Advances parse (indexSignature parse start)
    (Routine.indexSignature.ctorIdx + 2) anywhere := by
  refine .routine (.skip fun _ => .look fun parameterStart => .skip fun name => ?_)
  refine .part (by decide) fun keyType => .skip fun parameter => .skip fun _ =>
    .part (by decide) fun type => .last (by decide)

instance : Advances parse (typeMember parse) (Routine.typeMember.ctorIdx + 2) anywhere := by
  refine .routine (.look fun start => .skip fun isConstruct => .skipIf ?_)
  refine .skip fun atParameters => .ite (fun _ => .part (by decide) fun s =>
    .last (by decide)) fun _ => ?_
  refine .skip fun readonly => .skipIf (.test (.last (by decide)) ?_)
  refine .skip fun accessor => .skipIf (.part (by decide) fun (key, computed) => ?_)
  cases key with
  | none => exact .pure
  | some key =>
    refine .skip fun isOptional => .test (.part (by decide) fun s => .last (by decide)) ?_
    exact .part (by decide) fun type => .last (by decide)

/-- A member that consumes nothing is skipped. -/
instance : Advances parse (typeMembers parse) (Routine.typeMembers.ctorIdx + 2) anywhere := by
  refine .routine (.ifOptional ?_ .pure)
  refine .bindAnywhere (.iterate fun members => ?_) fun members => .free
  refine .test .pure (.look fun start => ?_)
  refine .partSince (by decide) (fun _ _ => trivial) (fun member => ?_) fun member => ?_
  · dsimp only
    refine .ifOptional .free (.optionally .free (.look fun h => ?_))
    refine .ite (fun _ => .take .pure fun s is => is.1.1.1.atToken) fun other => .absurd ?_
    exact fun s is => other (beq_iff_eq.mpr (is.2 ▸ is.1.1.1.offset_start))
  · dsimp only
    exact .free

theorem paces_templateParts {substitution : Parse Child} [Roams parse substitution] :
    Paces parse 0 atToken (templateParts substitution) always := by
  refine .look fun head => .take ?_
  dsimp only
  refine .bindAnywhere (.iterate fun parts => ?_) fun parts => .pure
  obtain ⟨quasis, nodes⟩ := parts
  refine .bindAnywhere .free fun node => ?_
  refine .test (.reread ?_) (.skip fun _ => .pure)
  exact .look fun text => .look fun isTail => .take .pure fun s is => is.1.1.atToken

instance {substitution : Parse Child} [Roams parse substitution] :
    Advances parse (templateParts substitution) 0 atToken where
  paces := paces_templateParts.weaken (Nat.le_refl _) (fun _ => id) fun _ => False.elim

instance : Walks wholeTemplate := by
  unfold wholeTemplate
  infer_instance

instance {start : Offset} {p : Parse NodeId} {now : Token.Scanner → Prop}
    [h : Advances parse p bound now] : Advances parse (literalType start p) bound now where
  paces := h.paces.bindAnywhere fun _ => .last (Nat.zero_le _)
  bound_le := h.bound_le

instance : Advances parse (importedType parse) (Routine.typeArguments.ctorIdx + 2) anywhere where
  paces := by
    refine .look fun start => .skip fun _ => .skip fun _ => .skip fun _ => .skip fun _ => ?_
    refine .bindAnywhere (?_ : Paces _ _ _ _ never) fun _ => ?_
    · exact .iterate fun _ => .ifOptional .free .pure
    refine .skip fun less => .ite (fun _ => .part (by decide) fun _ => .last (by decide)) fun _ =>
      .last (by decide)

instance : Advances parse (namedType parse) (Routine.typeReference.ctorIdx + 2) anywhere where
  paces := by
    refine .look fun start => .test ?_ (.skip fun _ => .pure)
    refine .skip fun text => .skip fun follows => ?_
    refine .ite (fun _ => .last (by decide)) fun _ => .last (by decide)

instance : Advances parse (primaryType parse) (Routine.primaryType.ctorIdx + 2) anywhere := by
  refine .routine (.look fun start => .look fun k => ?_)
  split
  · exact .take .free
  · refine .test (.lastAt (by decide) (by grind)) ?_
    exact .part (by decide) fun members => .last (by decide)
  · exact .lastAt (by decide) (by grind)
  · exact .last (by decide)
  · exact .last (by decide)
  · exact .last (by decide)
  · exact .last (by decide)
  · exact .last (by decide)
  · exact .last (by decide)
  · exact .last (by decide)
  · exact .assoc (.partAt (by decide) (by grind) fun parts => .last (by decide))
  · exact .test (.last (by decide)) (.last (by decide))
  · exact .last (by decide)
  · exact .last (by decide)

instance : Advances parse (postfixType parse) (Routine.postfixType.ctorIdx + 2) anywhere := by
  refine .routine (.look fun start => .option (by decide) .pure fun first =>
    .iterate fun type => ?_)
  refine .look fun opens => .look fun broken => .ite (fun is => ?_) fun _ => .pure
  exact .take .free

instance : Advances parse (typeOperator parse) (Routine.postfixType.ctorIdx + 2) anywhere where
  paces := by
    refine .look fun start => .look fun k => .ite (fun is => .take .free) fun _ => ?_
    refine .test (.take .free) (.test (.take .free) (.last (by decide)))

end LoopCapture.Grammar
