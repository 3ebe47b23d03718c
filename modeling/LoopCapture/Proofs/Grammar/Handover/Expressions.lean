import LoopCapture.Grammar.Expressions
import LoopCapture.Proofs.Grammar.Handover.Functions

/-!
# Expressions hand nodes over
-/

namespace LoopCapture.Grammar
open Syntax (Child NodeId Shape FunctionForm PropertyForm Within)
open Token (Kind)
open Parse

instance : Carries ArrowHead :=
  ⟨fun head => carried head.typeParameters ++ carried head.params ++ carried head.returnType⟩

@[simp] theorem carried_arrowHead (head : ArrowHead) :
    carried head =
      carried head.typeParameters ++ carried head.params ++ carried head.returnType := rfl

theorem takes_mayBeArrow : Takes [] mayBeArrow := by
  refine .skip fun k => ?_
  split
  · simp
  · simp
  · simp
  · exact .and (by simp) (by simp)

theorem takes_modifiesProperty : Takes [] modifiesProperty := by
  refine Takes.lookAhead (.skip fun _ => .skip fun k => ?_)
  split <;> simp

theorem takes_atAsyncProperty : Takes [] atAsyncProperty :=
  .and takes_test (.and (takes_nextOnSameLine (by simp)) takes_modifiesProperty)

theorem takes_bareParameter : Takes [] bareParameter :=
  .skip fun start => takes_identifier.bind fun name => by simp

theorem takes_memberName : Takes [] memberName := by
  simp [memberName, takes_propertyName]

theorem takes_metaProperty (start stop : Text.Offset) (word : String) :
    Takes [] (metaProperty start stop word) := by
  refine takes_addNode_bind [] (by simp) fun head => ?_
  exact takes_propertyName.bind fun property => by simp

theorem takes_regExp : Takes [] regExp := by
  simp [regExp]

instance (node : Child) : Quiet (becomePattern node) := by
  cases node
  · exact inferInstanceAs (Quiet (pure ()))
  · exact .of_unit fun _ _ => .rfl

variable {parse : Parser} (parts : ∀ goal, Takes [] (parse goal))

include parts

theorem takes_expression : Takes [] (expression parse) := by
  unfold expression
  refine takes_labelled.mpr ?_
  refine .skip fun start => (parts _).bindOption (by simp) fun first => ?_
  simp
  exact (takes_separated (parts _)).bind fun rest => by simp

theorem takes_spreadable : Takes [] (spreadable parse) := by
  simp [spreadable, parts]
  exact fun start => (parts _).bind fun argument => by simp

theorem takes_arguments : Takes [] (arguments parse) := by
  simp [arguments]
  exact (takes_commaList (takes_spreadable parts)).within.bind fun list => by simp

theorem takes_yielding : Takes [] (yielding parse) := by
  unfold yielding
  refine takes_labelled.mpr ?_
  refine .skip fun start => .skip fun _ => .skip fun _ => ?_
  refine (Takes.and (by simp) (by simp)).bind fun delegate => .skip fun k => ?_
  extract_lets make after
  have made (argument : Child) : Takes (carried argument) (make argument) := by simp [make]
  have rest (hasArgument : Bool) : Takes [] (after hasArgument) :=
    .ite ((parts _).bind made) (made none)
  split
  all_goals exact rest _

theorem takes_arrowHead : Takes [] (arrowHead parse) := by
  unfold arrowHead
  refine takes_labelled.mpr ?_
  refine .skip fun start => .skip fun isAsync => .skipWhen (.skip fun _ => ?_)
  extract_lets after
  have rest (head? : Option ArrowHead) : Takes (carried head?) (after head?) := by
    cases head? with
    | none => simp [after]
    | some head => simp [after]
  refine .ite (takes_bareParameter.bind fun param => ?_) ?_
  · simpa using rest (some ⟨start, isAsync, [], [param], none⟩)
  · refine (takes_typeParameters parts).bind fun typeParameters => ?_
    refine .skip fun _ => .ite ?_ (by simpa using (rest none).weaken (within_nil _))
    refine (takes_parameterList parts).bind fun params => ?_
    refine (takes_returnTypeAfterColon parts).bind fun returnType => ?_
    simpa using rest (some ⟨start, isAsync, typeParameters, params, returnType⟩)

theorem takes_arrowBody (head : ArrowHead) : Takes (carried head) (arrowBody parse head) := by
  unfold arrowBody
  refine takes_labelled.mpr ?_
  refine (Takes.within ?_).bind fun body => ?_
  · exact .skip fun _ => .ite (takes_block parts) (parts _)
  · simp

theorem takes_arrowFunction : Takes [] (arrowFunction parse) := by
  unfold arrowFunction
  refine takes_labelled.mpr ?_
  refine takes_mayBeArrow.bind fun _ => .ite ?_ (by simp)
  refine (takes_attempt (takes_arrowHead parts)).bindOption (by simp) fun head => ?_
  exact (takes_arrowBody parts head).bindWith [] (by simp) fun node => by simp

theorem takes_conditional : Takes [] (conditional parse) := by
  unfold conditional
  refine takes_labelled.mpr ?_
  refine .skip fun start => (parts _).bindOption (by simp) fun test => ?_
  refine .skip fun _ => .ite ?_ (by simp)
  refine (parts _).within.bind fun consequent => .skip fun _ => ?_
  exact (parts _).bind fun alternate => by simp

theorem takes_assignmentBody : Takes [] (assignmentBody parse) := by
  unfold assignmentBody
  refine .skip fun _ => .skip fun _ => .ite (takes_yielding parts) ?_
  refine (takes_arrowFunction parts).bindOption ?_ fun node => by simp
  refine .skip fun start => ?_
  refine (takes_conditional parts).bindOption (by simp) fun left => ?_
  refine .skip fun operator => .ite ?_ (by simp)
  refine .skipWhen (.skip fun _ => ?_)
  exact (parts _).bind fun right => by simp

theorem takes_castTarget (operator : Kind) : Takes [] (castTarget parse operator) := by
  simp [castTarget, parts]

theorem takes_binaryRound (start : Text.Offset) (above : Nat) (left : Child) :
    Takes (carried left) (binaryRound parse start above left) := by
  unfold binaryRound
  refine .skip fun _ => .skip fun operator => .skip fun _ => .ite (by simp) (.ite ?_ ?_)
  · simp
    exact (takes_castTarget parts operator).bind fun type => by simp
  · refine .skip fun _ => (parts _).bind fun right => .skipWhen ?_
    refine takes_finish_bind [] ?_ fun node => by simp
    split <;> simp

theorem takes_binaryBody (above : Nat) : Takes [] (binaryBody parse above) := by
  unfold binaryBody
  refine .skip fun start => (parts _).bindOption (by simp) fun first => ?_
  exact takes_iterate (takes_binaryRound parts start above) (some first)

theorem takes_postfixBody : Takes [] (postfixBody parse) := by
  unfold postfixBody
  refine takes_labelled.mpr ?_
  refine .skip fun start => (parts _).bind fun operand => ?_
  simp

theorem takes_angleCast : Takes [] (angleCast parse) := by
  unfold angleCast
  refine .skip fun start => .skip fun _ => (parts _).bind fun type => .skip fun _ => ?_
  refine (parts _).bind fun operand => ?_
  simp
  grind [Within]

theorem takes_unaryBody : Takes [] (unaryBody parse) := by
  unfold unaryBody
  refine .skip fun start => .skip fun operator => ?_
  split
  all_goals first
    | exact takes_angleCast parts
    | exact takes_postfixBody parts
    | exact .skip fun _ => (parts _).bind fun argument => by simp
    | exact .skip fun _ => .ite (.skip fun _ => (parts _).bind fun argument => by simp)
        (takes_postfixBody parts)

theorem takes_template : Takes [] (template parse) := by
  simp [template, takes_wholeTemplate]
  exact fun start => (takes_templateParts (takes_expression parts).within).bind
    fun (quasis, nodes) => by simp

theorem takes_computedKey : Takes [] (computedKey parse) :=
  (takes_expression parts).within.bind fun key => by simp

theorem takes_optionalLink (start : Text.Offset) (object : Child) (allowCalls : Bool) :
    Takes (carried object) (optionalLink parse start object allowCalls) := by
  unfold optionalLink
  refine .skip fun _ => .ite ?_ (.skip fun _ => .ite ?_ (.skip fun _ => .ite ?_ ?_))
  · exact (takes_arguments parts).bind fun list => by simp
  · exact (takes_computedKey parts).bind fun key => by simp
  · refine (takes_typeArguments parts).bind fun types => ?_
    exact (takes_arguments parts).bind fun list => by simp
  · exact takes_memberName.bind fun name => by simp

theorem takes_callTypeArguments : Takes [] (callTypeArguments parse) := by
  refine takes_attempt ((takes_typeArguments parts).bind fun types => ?_)
  simp

theorem takes_chainRound (start : Text.Offset) (allowCalls : Bool) (object : Child) :
    Takes (carried object) (chainRound parse start allowCalls object) := by
  unfold chainRound
  refine .skip fun k => ?_
  split
  · refine .skip fun _ => takes_memberName.bind fun name => ?_
    simp
  · refine .skip fun _ => ?_
    exact (takes_optionalLink parts start object allowCalls).bindWith [] (by simp)
      fun node => by simp
  · refine .skip fun _ => (takes_computedKey parts).bind fun key => ?_
    simp
  · simp
  · exact (takes_template parts).bind fun quasi => by simp
  · exact (takes_template parts).bind fun quasi => by simp
  · exact .ite ((takes_arguments parts).bind fun list => by simp) (by simp)
  · refine .ite ?_ (by simp)
    refine (takes_callTypeArguments parts).bindOption (by simp) fun types => ?_
    exact (takes_arguments parts).bind fun list => by simp
  · simp

theorem takes_chain (start : Text.Offset) (allowCalls : Bool) (object : NodeId) :
    Takes [object] (chain parse start allowCalls object) :=
  takes_labelled.mpr (takes_iterate (takes_chainRound parts start allowCalls) (some object))

theorem takes_importExpression : Takes [] (importExpression parse) := by
  unfold importExpression
  refine takes_labelled.mpr ?_
  refine .skip fun start => .skip fun stop => .skip fun _ => .skip fun _ => .ite ?_ ?_
  · exact (takes_metaProperty start stop "import").bind fun node => by simp
  · simp
    exact (takes_arguments parts).bind fun list => by simp

theorem takes_arrayLiteral : Takes [] (arrayLiteral parse) := by
  simp [arrayLiteral]
  exact fun start => (takes_elementList (takes_spreadable parts)).within.bind
    fun elements => by simp

theorem takes_shorthandProperty (start : Text.Offset) (key : NodeId) (computed : Bool) :
    Takes [key] (shorthandProperty parse start key computed) := by
  unfold shorthandProperty
  refine .skip fun shape => .skip fun s => ?_
  split
  · rename_i node _
    refine takes_addNode_bind [key] (by simp) fun target => ?_
    refine (takes_shorthandDefault node.start target (parts _)).bindWith [key] ?_
      fun target => by simp
    grind [Within]
  · simp

theorem takes_propertyMethod (start : Text.Offset) (form : PropertyForm)
    (isGenerator isAsync : Bool) (key : NodeId) (computed : Bool) :
    Takes [key] (propertyMethod parse start form isGenerator isAsync key computed) := by
  unfold propertyMethod
  refine .skip fun valueStart => ?_
  refine (takes_functionRest parts _ isGenerator isAsync none).bind fun f => ?_
  refine takes_finish_bind [key] (by simp; grind [Within]) fun method => ?_
  simp

theorem takes_objectProperty (start : Text.Offset) : Takes [] (objectProperty parse start) := by
  unfold objectProperty
  refine takes_atAsyncProperty.bind fun isAsync => .skipWhen (.skip fun isGenerator => ?_)
  refine (Takes.and takes_test takes_modifiesProperty).bind fun _ => ?_
  refine (Takes.and takes_test takes_modifiesProperty).bind fun _ => ?_
  extract_lets after
  have rest (form : PropertyForm) : Takes [] (after form) := by
    refine .skipWhen (takes_propertyKey_bind parts (by simp) fun key computed => ?_)
    refine .skip fun _ => .ite ?_ (.skip fun _ => .ite ?_ ?_)
    · exact takes_propertyMethod parts start form isGenerator isAsync key computed
    · exact (parts _).bind fun content => by simp
    · exact takes_shorthandProperty parts start key computed
  exact .ite (rest .init) (.ite (rest .get) (.ite (rest .set) (rest .init)))

theorem takes_objectMember : Takes [] (objectMember parse) := by
  unfold objectMember
  refine takes_labelled.mpr ?_
  refine .skip fun start => .skip fun _ => .ite ?_ (takes_objectProperty parts start)
  exact (parts _).bind fun argument => by simp

theorem takes_objectLiteral : Takes [] (objectLiteral parse) := by
  simp [objectLiteral]
  exact fun start => (takes_commaList (takes_objectMember parts)).within.bind
    fun properties => by simp

theorem takes_primary : Takes [] (primary parse) := by
  unfold primary
  refine takes_labelled.mpr ?_
  refine .skip fun start => .skip fun k => ?_
  split
  · simp
  · simp
  · exact (takes_literal _).bind fun node => by simp
  · exact (takes_literal _).bind fun node => by simp
  · exact (takes_literal _).bind fun node => by simp
  · exact (takes_literal _).bind fun node => by simp
  · exact (takes_literal _).bind fun node => by simp
  · exact (takes_literal _).bind fun node => by simp
  · exact takes_regExp.bind fun node => by simp
  · exact takes_regExp.bind fun node => by simp
  · exact (takes_template parts).bind fun node => by simp
  · exact (takes_template parts).bind fun node => by simp
  · simp
    exact (takes_expression parts).within.bind fun inner => by simp
  · exact takes_arrayLiteral parts
  · exact takes_objectLiteral parts
  · exact takes_functionExpression parts start false
  · exact takes_classLike parts start false true
  · exact parts _
  · exact takes_importExpression parts
  · exact takes_memberName
  · refine (Takes.and (by simp) (by simp)).bind fun _ => .ite ?_ (.ite takes_identifier (by simp))
    exact .skip fun _ => takes_functionExpression parts start true

theorem takes_creationBody : Takes [] (creationBody parse) := by
  unfold creationBody
  refine .skip fun start => .skip fun stop => .skip fun _ => .skip fun _ => .ite ?_ ?_
  · exact (takes_metaProperty start stop "new").bind fun node => by simp
  · refine .skip fun calleeStart => ?_
    refine .bindIf (parts _) (takes_primary parts) fun callee? => ?_
    cases callee? with
    | none => simp
    | some callee =>
      refine (takes_chain parts calleeStart false callee).bindWith [] (by simp)
        fun callee => .skip fun _ => ?_
      extract_lets after
      have rest (types : List NodeId) : Takes (carried callee ++ carried types) (after types) :=
        .bindIf (takes_arguments parts) (by simp) fun list => by simp
      refine .ite ((takes_attempt (takes_typeArguments parts).map_some).bind fun types => ?_) ?_
      · cases types with
        | none => simpa using rest []
        | some types => simpa using rest types
      · simpa using rest []

theorem takes_leftHandSideBody : Takes [] (leftHandSideBody parse) := by
  unfold leftHandSideBody
  refine .skip fun start => ?_
  refine .bindIf (parts _) (takes_primary parts) fun object? => ?_
  cases object? with
  | none => simp
  | some object => exact takes_chain parts start true object

end LoopCapture.Grammar
