import LoopCapture.Grammar.Types
import LoopCapture.Proofs.Grammar.Handover

/-!
# Patterns and types hand nodes over
-/

namespace LoopCapture.Grammar
open Syntax (Child NodeId Shape Within)
open Token (Kind)
open Parse

theorem takes_identifier : Takes [] identifier := by
  simp [identifier]

theorem takes_propertyName : Takes [] propertyName := by
  simp [propertyName]

@[simp] theorem takes_literal (form : Syntax.LiteralForm) : Takes [] (literal form) := by
  simp [literal]

theorem takes_entityName : Takes [] entityName := by
  simp [entityName]
  intro start text
  refine takes_finish_bind [] (by simp) fun first => ?_
  refine takes_iterate (fun name => ?_) (some first)
  simp
  exact takes_propertyName.bind fun right => by simp

instance : Quiet atPredicateSubject := by
  unfold atPredicateSubject
  infer_instance

theorem takes_variance : Takes [] variance :=
  takes_iterate (fun _ => by simp) ()

instance : Quiet optionalSign := by
  simp only [optionalSign]
  infer_instance

instance : Quiet atIndexSignature := by
  unfold atIndexSignature
  infer_instance

instance : Quiet atConstructSignature := by
  unfold atConstructSignature
  infer_instance

instance : Quiet atParameters := by
  unfold atParameters
  infer_instance

theorem takes_atMappedType : Takes [] atMappedType := by
  refine Takes.lookAhead (.skip fun _ => .skip fun _ => .skipWhen ?_)
  simp

theorem takes_atReadonlyModifier : Takes [] atReadonlyModifier := by
  refine .and (by simp) (.lookAhead (.skip fun _ => .skip fun k => ?_))
  split <;> simp

theorem takes_atAccessorModifier : Takes [] atAccessorModifier := by
  refine .and (by simp) (.lookAhead (.skip fun _ => .skip fun k => ?_))
  split <;> simp

theorem takes_shorthandDefault (start : Text.Offset) (name : NodeId) {default : Parse Child}
    (h : Takes [] default) : Takes [name] (shorthandDefault start name default) := by
  simp [shorthandDefault]
  exact h.bind fun right => by simp

theorem takes_elementList {element : Parse Child} (h : Takes [] element) :
    Takes [] (elementList element) := by
  refine (takes_iterate (fun elements => ?_) #[]).bind fun elements => by simp
  simp
  exact h.bindOption (by simp) fun node => by simp

theorem takes_parameterModifiers : Takes [] parameterModifiers := by
  refine takes_iterate (fun _ => .skip fun k => ?_) ()
  split <;> simp

theorem takes_typeChain (separator : Kind) {join : List NodeId → Shape} {member : Parse Child}
    (slots : ∀ l, (join l).slots = l.map some) (h : Takes [] member) :
    Takes [] (typeChain separator join member) := by
  unfold typeChain
  refine .skip fun start => .skip fun _ => ?_
  refine h.bindOption (by simp) fun first => ?_
  simp
  exact (takes_separated h).bind fun rest => by simp [-Shape.slots, slots]

section

variable {parse : Parser} (parts : ∀ goal, Takes [] (parse goal))

include parts

theorem takes_typeAfterColon : Takes [] (typeAfterColon parse) := by
  simp [typeAfterColon, parts]

theorem takes_typeOrPredicate : Takes [] (typeOrPredicate parse) := by
  simp [typeOrPredicate, parts]
  intro start
  constructor
  · refine takes_propertyName.bind fun parameter => ?_
    simp
    exact (parts _).bind fun type => by simp
  · refine takes_propertyName.bind fun parameter => ?_
    simp
    exact (parts _).bind fun type => by simp

theorem takes_returnTypeAfterColon : Takes [] (returnTypeAfterColon parse) := by
  simp [returnTypeAfterColon, takes_typeOrPredicate parts]

theorem takes_typeArguments : Takes [] (typeArguments parse) := by
  simp [typeArguments]
  exact (takes_commaList (parts _)).bind fun arguments => by simp

theorem takes_typeParameter : Takes [] (typeParameter parse) := by
  unfold typeParameter
  refine .skip fun start => ?_
  refine takes_variance.bind fun _ => ?_
  refine takes_identifier.bindOption (by simp) fun name => ?_
  refine .bindIf (parts _) (by simp) fun constraint => ?_
  refine .bindIf (parts _) (by simp) fun default => ?_
  simp

theorem takes_typeParameters : Takes [] (typeParameters parse) := by
  simp [typeParameters]
  exact (takes_commaList (takes_typeParameter parts)).bind fun params => by simp

theorem takes_typeReference : Takes [] (typeReference parse) := by
  unfold typeReference
  refine takes_labelled.mpr ?_
  refine .skip fun start => ?_
  refine takes_entityName.bindOption (by simp) fun name => ?_
  simp
  exact (takes_typeArguments parts).bind fun arguments => by simp

theorem takes_propertyKey : Takes [] (propertyKey parse) := by
  unfold propertyKey
  refine takes_labelled.mpr ?_
  refine .skip fun k => ?_
  split
  · simp
    exact (parts _).within.bind fun key => by simp
  · exact (takes_literal _).bind fun key => by simp
  · exact (takes_literal _).bind fun key => by simp
  · exact (takes_literal _).bind fun key => by simp
  · simp
    exact fun start name => takes_finish_bind [] (by simp) fun key => by simp
  · simp
    exact fun _ => takes_propertyName.bind fun key => by simp

theorem takes_propertyKey_bind {α : Type} [Carries α] {given : List NodeId}
    {next : Child × Bool → Parse α} (missing : ∀ computed, Takes given (next (none, computed)))
    (h : ∀ key computed, Takes (given ++ [key]) (next (some key, computed))) :
    Takes given (propertyKey parse >>= next) := by
  refine (takes_propertyKey parts).bind fun (key, computed) => ?_
  cases key with
  | none => simpa using missing computed
  | some key => simpa using h key computed

theorem takes_bindingElement : Takes [] (bindingElement parse) := by
  unfold bindingElement
  refine takes_labelled.mpr ?_
  refine .skip fun start => ?_
  refine (parts _).bindOption (by simp) fun target => ?_
  simp
  exact (parts _).within.bind fun right => by simp

theorem takes_bindingProperty : Takes [] (bindingProperty parse) := by
  simp [bindingProperty]
  refine fun start => ⟨⟨?_, fun name stop => ?_⟩, ?_⟩
  · refine takes_propertyKey_bind parts (by simp) fun key computed => ?_
    simp
    exact (takes_bindingElement parts).bind fun target => by simp
  · refine takes_addNode_bind [] (by simp) fun key => ?_
    refine takes_addNode_bind [key] (by simp) fun name => ?_
    refine (takes_shorthandDefault start name (parts _).within).bindWith [key] ?_
      fun target => by simp
    grind [Within]
  · exact (parts _).bind fun target => by simp

theorem takes_objectPattern : Takes [] (objectPattern parse) := by
  simp [objectPattern]
  intro start
  exact (takes_commaList (takes_bindingProperty parts)).bind fun properties => by simp

theorem takes_bindingArrayElement : Takes [] (bindingArrayElement parse) := by
  simp [bindingArrayElement, takes_bindingElement parts]
  exact fun start => (parts _).bind fun target => by simp

theorem takes_arrayPattern : Takes [] (arrayPattern parse) := by
  simp [arrayPattern]
  intro start
  exact (takes_elementList (takes_bindingArrayElement parts)).bind fun elements => by simp

theorem takes_bindingTarget : Takes [] (bindingTarget parse) := by
  unfold bindingTarget
  refine .skip fun k => ?_
  split
  · exact takes_objectPattern parts
  · exact takes_arrayPattern parts
  · exact takes_identifier

theorem takes_decorators : Takes [] (decorators parse) := by
  refine takes_labelled.mpr ?_
  refine takes_iterate (fun _ => ?_) ()
  simp
  exact (takes_discard (parts _)).bind fun _ => by simp

theorem takes_parameterTarget : Takes [] (parameterTarget parse) := by
  unfold parameterTarget
  refine .skip fun start => .skip fun k => ?_
  split
  · simp
  · simp
    exact (parts _).bind fun target => by simp
  · exact parts _

theorem takes_parameter : Takes [] (parameter parse) := by
  unfold parameter
  refine takes_labelled.mpr ?_
  refine .skip fun start => ?_
  refine (takes_decorators parts).bind fun _ => ?_
  refine takes_parameterModifiers.bind fun _ => ?_
  refine .skip fun targetStart => ?_
  refine (takes_parameterTarget parts).bindOption (by simp) fun target => ?_
  refine .skip fun isOptional => ?_
  refine (takes_typeAfterColon parts).bind fun type => ?_
  refine (takes_shorthandDefault targetStart target (parts _)).bindWith (carried type)
    (by simp) fun pattern => ?_
  simp
  grind [Within]

theorem takes_parameterList : Takes [] (parameterList parse) := by
  simp [parameterList]
  exact (takes_commaList (takes_parameter parts)).within.bind fun params => by simp

theorem takes_signature (key : Child) : Takes (carried key) (signature parse key) := by
  unfold signature
  refine takes_labelled.mpr ?_
  refine (takes_typeParameters parts).bind fun typeParameters => ?_
  refine (takes_parameterList parts).bind fun params => ?_
  refine (takes_returnTypeAfterColon parts).bind fun returnType => ?_
  simp

theorem takes_functionType : Takes [] (functionType parse) := by
  simp [functionType]
  refine takes_attempt ?_
  refine .skip fun start => .skip fun _ => .skip fun _ => ?_
  refine (takes_typeParameters parts).bind fun typeParameters => ?_
  simp
  refine (takes_parameterList parts).bind fun params => ?_
  simp
  exact (takes_typeOrPredicate parts).bind fun returnType => by simp

theorem takes_unionType : Takes [] (unionType parse) :=
  takes_labelled.mpr <| takes_typeChain _ (fun _ => rfl) <|
    takes_labelled.mpr (takes_typeChain _ (fun _ => rfl) (parts _))

theorem takes_typeBody : Takes [] (typeBody parse) := by
  unfold typeBody
  refine (takes_functionType parts).bindOption ?_ fun node => by simp
  refine .skip fun start => ?_
  refine (takes_unionType parts).bindOption (by simp) fun check => ?_
  refine .skip fun _ => .skip fun _ => .skip fun _ => .ite (by simp) (.skip fun _ => ?_)
  refine (parts _).within.bind fun bound => .skip fun _ => ?_
  refine (parts _).within.bind fun whenTrue => .skip fun _ => ?_
  exact (parts _).within.bind fun whenFalse => by simp

theorem takes_inferBound : Takes [] (inferBound parse) := by
  simp [inferBound]
  refine (takes_attempt (.skip fun _ => ?_)).bind fun bound => ?_
  · exact (parts _).within.bind fun bound => by simp
  · cases bound <;> simp

theorem takes_typeQuery : Takes [] (typeQuery parse) := by
  simp [typeQuery]
  refine fun start => takes_entityName.bind fun name => ?_
  simp
  exact (takes_discard (takes_typeArguments parts)).bind fun _ => by simp

theorem takes_tupleElement : Takes [] (tupleElement parse) := by
  simp [tupleElement]
  exact (parts _).bindOption (by simp) fun element => by simp

theorem takes_tupleType : Takes [] (tupleType parse) := by
  simp [tupleType]
  exact fun start => (takes_commaList (takes_tupleElement parts)).bind fun elements => by simp

theorem takes_mappedType : Takes [] (mappedType parse) := by
  simp [mappedType]
  refine fun start parameterStart => takes_identifier.bind fun name => .skip fun _ => ?_
  refine (parts _).bind fun constraint => ?_
  refine .bindIf (parts _) (by simp) fun renamed => ?_
  refine takes_finish_bind [] (by simp) fun parameter => ?_
  simp
  exact (takes_typeAfterColon parts).bind fun type => by simp

theorem takes_indexSignature (start : Text.Offset) : Takes [] (indexSignature parse start) := by
  unfold indexSignature
  refine takes_labelled.mpr ?_
  refine .skip fun _ => .skip fun parameterStart => ?_
  refine takes_propertyName.bind fun name => ?_
  refine (takes_typeAfterColon parts).bind fun keyType => ?_
  refine takes_finish_bind [] (by simp) fun parameter => ?_
  refine .skip fun _ => ?_
  exact (takes_typeAfterColon parts).bind fun type => by simp

theorem takes_typeMember : Takes [] (typeMember parse) := by
  unfold typeMember
  refine takes_labelled.mpr ?_
  refine .skip fun start => .skip fun isConstruct => .skipWhen (.skip fun _ => .ite ?_ ?_)
  · exact (takes_signature parts none).bind fun s => by simp
  · refine takes_atReadonlyModifier.bind fun _ => .skipWhen (.skip fun _ => ?_)
    refine .ite (takes_indexSignature parts start) ?_
    refine takes_atAccessorModifier.bind fun _ => .skipWhen ?_
    refine takes_propertyKey_bind parts (by simp) fun key computed => ?_
    refine .skip fun isOptional => .skip fun _ => .ite ?_ ?_
    · exact (takes_signature parts (some key)).bindWith [] (by simp) fun s => by simp
    · exact (takes_typeAfterColon parts).bind fun type => by simp

theorem takes_typeMembers : Takes [] (typeMembers parse) := by
  simp [typeMembers]
  refine (takes_iterate (fun members => ?_) #[]).bind fun members => by simp
  simp
  exact fun start => (takes_typeMember parts).bindOption (by simp) fun member => by simp

end

theorem takes_templateParts {substitution : Parse Child} (h : Takes [] substitution) :
    Takes [] (templateParts substitution) := by
  simp [templateParts]
  intro head
  refine Takes.bind (takes_iterate ?_ (#[head], #[])) ?_
  · rintro ⟨quasis, nodes⟩
    exact h.bindOption (by simp) fun node => by simp
  · rintro ⟨quasis, nodes⟩
    simp

theorem takes_wholeTemplate : Takes [] wholeTemplate := by
  simp [wholeTemplate]

theorem takes_literalType (start : Text.Offset) {literal : Parse NodeId} (h : Takes [] literal) :
    Takes [] (literalType start literal) :=
  h.bind fun node => by simp

section

variable {parse : Parser} (parts : ∀ goal, Takes [] (parse goal))

include parts

theorem takes_importedType : Takes [] (importedType parse) := by
  simp [importedType]
  intro start
  refine (takes_iterate (fun _ => ?_) ()).bind fun _ => ?_
  · simp
    exact (takes_discard takes_propertyName).bind fun _ => by simp
  · simp
    exact (takes_discard (takes_typeArguments parts)).bind fun _ => by simp

theorem takes_namedType : Takes [] (namedType parse) := by
  simp [namedType, takes_typeReference parts]

theorem takes_primaryType : Takes [] (primaryType parse) := by
  unfold primaryType
  refine takes_labelled.mpr ?_
  refine .skip fun start => .skip fun k => ?_
  split
  · simp
    exact (parts _).within.bind fun inner => by simp
  · refine takes_atMappedType.bind fun _ => .ite (takes_mappedType parts) ?_
    exact (takes_typeMembers parts).bind fun members => by simp
  · exact takes_tupleType parts
  · exact takes_typeQuery parts
  · exact takes_literalType start (takes_literal _)
  · exact takes_literalType start (takes_literal _)
  · exact takes_literalType start (takes_literal _)
  · exact takes_literalType start (takes_literal _)
  · exact takes_literalType start (takes_literal _)
  · exact takes_literalType start takes_wholeTemplate
  · exact takes_literalType start ((takes_templateParts (parts _)).bind
      fun (quasis, nodes) => by simp)
  · exact .skip fun _ => .ite (takes_literalType start (by simp)) (takes_namedType parts)
  · exact takes_importedType parts
  · exact takes_namedType parts

theorem takes_postfixType : Takes [] (postfixType parse) := by
  unfold postfixType
  refine takes_labelled.mpr ?_
  refine .skip fun start => ?_
  refine (takes_primaryType parts).bindOption (by simp) fun first => ?_
  refine takes_iterate (fun type => ?_) (some first)
  simp
  exact (parts _).bind fun index => by simp

theorem takes_typeOperator : Takes [] (typeOperator parse) := by
  simp [typeOperator, takes_postfixType parts, parts]
  refine fun start k => ⟨fun _ => ?_, fun _ _ parameterStart => ?_⟩
  · exact (parts _).bind fun operand => by simp
  · refine takes_identifier.bind fun name => ?_
    refine (takes_inferBound parts).bind fun bound => ?_
    exact takes_finish_bind [] (by simp) fun parameter => by simp

end
end LoopCapture.Grammar
