import LoopCapture.Proofs.Grammar.Attachment.Functions
import LoopCapture.Proofs.Grammar.Building.Expressions

/-!
# Expressions lose no node
-/

namespace LoopCapture.Grammar
open Text (Offset)
open Syntax (Child NodeId PropertyForm Role Shape standing)
open Token (Kind)
open Parse

attribute [local simp] carried_nodes toList_eq_carried mem_carried mem_carried_array

variable {parse : Parser} [Attaches parse]

instance : Delivers (expression parse) .part where
  settles := by
    refine .labelled (.skip fun start => .option .pure fun first => .test ?_ .pure)
    exact .part fun rest => .finish fun node => .pure

instance : Delivers (spreadable parse) .part where
  settles := by
    refine .labelled (.skip fun start => .test ?_ .last)
    exact .part fun argument => .finish fun node => .pure

instance : Delivers (arguments parse) .part where
  settles := by
    refine .labelled (.skip fun opens => .ite (fun _ => ?_) fun _ => .pure)
    exact .part fun list => .skip fun _ => .pure

instance : Delivers (yielding parse) .part where
  settles := by
    refine .labelled (.skip fun start => .skip fun _ => .skip fun broken => ?_)
    refine .skip fun delegate => .skip fun k => ?_
    extract_lets last after
    have rest (hasArgument : Bool) : Settles anyway [] (after hasArgument)
        fun node => standing .part (carried node) := by
      refine .ite (fun _ => .part fun argument => ?_) fun _ => .pureBind ?_
      all_goals exact .finish fun node => .pure
    split
    all_goals exact .pureBind (rest _)

instance : Delivers bareParameter .parameter where
  settles := .skip fun start => .skip fun name => .finishAs

/-- What the head of an arrow function holds. -/
def headPlaces (head : ArrowHead) : Syntax.Places :=
  standing .typeParameter head.typeParameters ++ standing .parameter head.params ++
    standing .part head.returnType.toList

theorem settles_arrowHead : Settles (fun head => head.isSome = true) [] (arrowHead parse)
    fun head => head.elim [] headPlaces := by
  refine .labelled (.skip fun start => .skip fun isAsync => .skipIf (.skip fun named => ?_))
  extract_lets after
  have found (head : ArrowHead) : Settles (fun head => head.isSome = true) (headPlaces head)
      (after (some head)) fun head => head.elim [] headPlaces := by
    refine .skip fun arrow => .skip fun broken => .ite (fun _ => .skip fun _ => ?_) fun _ => .refuse
    exact .pure fun _ => .refl _
  have missing (given : Syntax.Places) : Settles (fun head => head.isSome = true) given
      (after none) fun head => head.elim [] headPlaces := .refuse
  refine .ite (fun _ => .part fun param => .pureBind ?_) fun _ => .part fun typeParameters => ?_
  · exact (found _).weaken (fun _ => id) (.of_mem (by simp [headPlaces]) (by simp [headPlaces]))
      fun _ _ => .refl _
  · refine .test (.part fun params => .part fun returnType => .pureBind ?_) (.pureBind (missing _))
    refine (found _).weaken (fun _ => id) (.of_mem ?_ ?_) fun _ _ => .refl _
    · simp +contextual [headPlaces, or_imp]
    · simp +contextual [headPlaces, or_imp]

theorem settles_arrowBody (head : ArrowHead) : Settles anyway (headPlaces head)
    (arrowBody parse head) fun node => standing .part (carried node) := by
  refine .labelled ?_
  have body : Delivers (atMark .openBrace >>= fun opens =>
      if opens = true then block parse else parse .assignment) .part := ⟨.test .last .last⟩
  refine .part fun body => .finishAs ?_
  simp +contextual [headPlaces, Shape.places, Shape.functionPlaces, or_imp]

instance : Delivers (arrowFunction parse) .part where
  settles := by
    refine .labelled (.test ?_ .pure)
    have head : Settles anyway [] (attempt (arrowHead parse)) fun head => head.elim [] headPlaces :=
      .attempt settles_arrowHead rfl
    refine head.bind fun head => ?_
    cases head with
    | none => exact .pure
    | some head => exact (settles_arrowBody head).bind fun node => .pure

instance : Delivers (conditional parse) .part where
  settles := by
    refine .labelled (.skip fun start => .option .pure fun test => .test ?_ .pure)
    refine .part fun consequent => .skip fun _ => .part fun alternate => ?_
    exact .finish fun node => .pure

instance (node : Child) : Idle (becomePattern node) := by
  unfold becomePattern
  split <;> infer_instance

instance : Delivers (assignmentBody parse) .part where
  settles := by
    refine .skip fun yields => .skip fun s => .ite (fun _ => .last) fun _ => ?_
    refine .option (.skip fun start => .option .pure fun left => .skip fun operator => ?_)
      fun node => .pure
    refine .ite (fun _ => .skipIf (.skip fun _ => .part fun right => ?_)) fun _ => .pure
    exact .finish fun node => .pure

instance {operator : Kind} : Delivers (castTarget parse operator) .part where
  settles := by
    refine .skip fun const => .ite (fun _ => .skip fun start => .skip fun _ => ?_) fun _ => .last
    exact .finish fun node => .pure

theorem settles_binaryRound (start : Offset) (above : Nat) (left : Child) :
    Settles anyway (standing .part (carried left)) (binaryRound parse start above left)
      fun round => standing .part (carried round.result) := by
  refine .skip fun _ => .skip fun operator => .skip fun s => .ite (fun _ => .pure) fun _ => ?_
  refine .ite (fun _ => .skip fun broken => .ite (fun _ => .pure) fun _ => .skip fun _ => ?_) ?_
  · exact .part fun type => .finish fun node => .pure
  · refine fun _ => .skip fun _ => .part fun right => .ite (fun _ => .fault) fun _ => ?_
    cases isLogical operator
    all_goals exact .finish fun node => .pure

instance {above : Nat} : Delivers (binaryBody parse above) .part where
  settles := by
    refine .skip fun start => .option .pure fun first => ?_
    exact .iterate .part (settles_binaryRound start above)

instance : Delivers (postfixBody parse) .part where
  settles := by
    refine .labelled (.skip fun start => .part fun operand => .skip fun operator => ?_)
    refine .skip fun broken => .ite (fun _ => .skip fun _ => ?_) fun _ => .pure
    exact .finish fun node => .pure

instance : Delivers (angleCast parse) .part where
  settles := by
    refine .skip fun start => .skip fun _ => .part fun type => .skip fun _ => ?_
    exact .part fun operand => .finish fun node => .pure

instance : Delivers (unaryBody parse) .part where
  settles := by
    refine .skip fun start => .skip fun operator => ?_
    split
    all_goals first
      | exact .last
      | exact .skip fun _ => .part fun argument => .finish fun node => .pure
      | skip
    refine .skip fun s => .ite (fun _ => .skip fun _ => ?_) fun _ => .last
    exact .part fun argument => .finish fun node => .pure

instance : Delivers memberName .name where
  settles := by
    refine .test (.skip fun start => .skip fun name => .skip fun _ => ?_) .last
    exact .finish fun node => .pure

instance : Delivers (template parse) .template where
  settles := by
    refine .labelled (.test .last (.skip fun start => .part fun (quasis, nodes) => ?_))
    exact .finishAs

instance : Delivers (computedKey parse) .part where
  settles := .part fun key => .skip fun _ => .pure

theorem settles_optionalLink (start : Offset) (object : Child) (allowCalls : Bool) :
    Settles anyway (standing .part (carried object)) (optionalLink parse start object allowCalls)
      fun node => standing .part (carried node) := by
  refine .skip fun opens => .ite (fun _ => .part fun list => .finishAs) fun _ => ?_
  refine .test (.part fun key => .finishAs) (.skip fun less => .ite (fun _ => ?_) fun _ => ?_)
  · exact .part fun types => .part fun list => .finishAs
  · exact .skip fun name => .finishAs

theorem settles_template :
    Settles anyway [] (template parse) fun node => standing .part (carried node) :=
  Delivers.settles.weaken (fun _ => id) (.refl []) fun node _ =>
    .lower [node] fun other => by cases other <;> simp [Role.admits]

theorem settles_callTypeArguments : Settles anyway [] (callTypeArguments parse)
    fun types => standing .part (types.elim [] id) := by
  refine .attempt (.part fun types => .skip fun opens => ?_) rfl
  cases opens with
  | false => exact .refuse
  | true => exact .pure

theorem settles_chainRound (start : Offset) (allowCalls : Bool) (object : Child) :
    Settles anyway (standing .part (carried object)) (chainRound parse start allowCalls object)
      fun round => standing .part (carried round.result) := by
  refine .skip fun k => ?_
  split
  · exact .skip fun _ => .skip fun name => .finish fun node => .pure
  · exact .skip fun _ => (settles_optionalLink start object allowCalls).bind fun node => .pure
  · exact .skip fun _ => .part fun key => .finish fun node => .pure
  · refine .skip fun broken => .ite (fun _ => .pure) fun _ => .skip fun _ => ?_
    exact .finish fun node => .pure
  · exact settles_template.bindWith _ (.refl _) fun quasi => .finish fun node => .pure
  · exact settles_template.bindWith _ (.refl _) fun quasi => .finish fun node => .pure
  · exact .ite (fun _ => .part fun list => .finish fun node => .pure) fun _ => .pure
  · refine .ite (fun _ => ?_) fun _ => .pure
    refine settles_callTypeArguments.bindWith _ (.refl _) fun types => ?_
    cases types with
    | none => exact .pure
    | some types => exact .part fun list => .finish fun node => .pure
  · exact .pure

theorem settles_chain (start : Offset) (allowCalls : Bool) (object : NodeId) :
    Settles anyway [(object, .part)] (chain parse start allowCalls object)
      fun node => standing .part (carried node) :=
  .labelled (.iterate .part (settles_chainRound start allowCalls))

instance {start stop : Offset} {word : String} : Delivers (metaProperty start stop word) .part where
  settles := .skip fun head => .skip fun property => .finishAs

instance : Delivers (importExpression parse) .part where
  settles := by
    refine .labelled (.skip fun start => .skip fun stop => .skip fun _ =>
      .test ?_ (.test ?_ .fault))
    · exact .part fun node => .pure
    · exact .part fun list => .finish fun node => .pure

instance : Delivers (arrayLiteral parse) .part where
  settles := by
    refine .labelled (.skip fun start => .skip fun _ => .part fun elements => .skip fun _ => ?_)
    exact .finish fun node => .pure

/-- The variable that a shorthand property names is a name like its key. -/
theorem settles_shorthandProperty (start : Offset) (key : NodeId) (computed : Bool) :
    Settles anyway [(key, keyRole computed)] (shorthandProperty parse start key computed)
      fun node => standing .part (carried node) := by
  refine .skip fun shape => .skip fun s => ?_
  split
  · rename_i name node _
    refine .part fun target => ?_
    refine .bindWith [(key, .name)] (settles_shorthandDefault node.start target) (.append ?_ _)
      fun value => .finish fun node => .pure
    exact .names [target] .part
  · exact .fault

theorem settles_propertyMethod (start : Offset) (form : PropertyForm) (isGenerator isAsync : Bool)
    (key : NodeId) (computed : Bool) : Settles anyway [(key, keyRole computed)]
      (propertyMethod parse start form isGenerator isAsync key computed)
      fun node => standing .part (carried node) := by
  refine .skip fun valueStart => ?_
  refine .bindWith [(key, keyRole computed)]
    (settles_functionRest _ isGenerator isAsync none) (.refl _) fun f => ?_
  exact .finishBeside [(key, keyRole computed)] fun method => .finish fun node => .pure

theorem settles_objectProperty (start : Offset) : Settles anyway [] (objectProperty parse start)
    fun node => standing .part (carried node) := by
  refine .skip fun isAsync => .skipIf (.skip fun isGenerator => ?_)
  refine .skip fun gets => .skip fun sets => ?_
  extract_lets after
  have rest (form : PropertyForm) : Settles anyway [] (after form)
      fun node => standing .part (carried node) := by
    refine .skipIf (.key (fun _ => .pure) fun key computed => .skip fun opens => ?_)
    refine .ite (fun _ => settles_propertyMethod start form isGenerator isAsync key computed)
      fun _ => .test (.part fun content => ?_) (settles_shorthandProperty start key computed)
    exact .finish fun node => .pure
  refine .ite (fun _ => .pureBind (rest _)) fun _ => .ite (fun _ => .pureBind (rest _)) fun _ => ?_
  exact .ite (fun _ => .pureBind (rest _)) fun _ => .pureBind (rest _)

instance : Delivers (objectMember parse) .part where
  settles := by
    refine .labelled (.skip fun start => .test ?_ (settles_objectProperty start))
    exact .part fun argument => .finish fun node => .pure

instance : Delivers (objectLiteral parse) .part where
  settles := by
    refine .labelled (.skip fun start => .skip fun _ => .part fun properties => .skip fun _ => ?_)
    exact .finish fun node => .pure

instance : Delivers regExp .name where
  settles := .skip fun _ => .last

theorem Parse.Settles.asPart {p : Parse Child} [Delivers p .name] :
    Settles anyway [] p fun node => standing .part (carried node) :=
  .last (.refl []) fun _ => .names _ .part

instance : Delivers (primary parse) .part where
  settles := by
    refine .labelled (.skip fun start => .skip fun k => ?_)
    split
    · exact .skip fun _ => .finish fun node => .pure
    · exact .skip fun _ => .finish fun node => .pure
    · exact .asPart
    · exact .asPart
    · exact .asPart
    · exact .asPart
    · exact .asPart
    · exact .asPart
    · exact .asPart
    · exact .asPart
    · exact settles_template.bind fun node => .pure
    · exact settles_template.bind fun node => .pure
    · exact .skip fun _ => .part fun inner => .skip fun _ => .pure
    · exact .last
    · exact .last
    · exact settles_functionExpression start false
    · exact settles_classLike start false true
    · exact .last
    · exact .last
    · exact .asPart
    · refine .skip fun isAsync => .ite (fun _ => ?_) fun _ =>
        .ite (fun _ => .asPart) fun _ => .fault
      exact .skip fun _ => settles_functionExpression start true

instance : Delivers (creationBody parse) .part where
  settles := by
    refine .skip fun start => .skip fun stop => .skip fun _ => .test ?_ ?_
    · exact .part fun node => .pure
    refine .skip fun calleeStart => .skip fun again => ?_
    extract_lets after
    have rest (callee? : Child) : Settles anyway (standing .part (carried callee?)) (after callee?)
        fun node => standing .part (carried node) := by
      cases callee? with
      | none => exact .pure
      | some callee =>
        refine (settles_chain calleeStart false callee).bind fun callee => .skip fun less => ?_
        extract_lets after
        have rest (types : List NodeId) : Settles anyway
            (standing .part types ++ standing .part (carried callee)) (after types)
            fun node => standing .part (carried node) := by
          refine .test (.part fun list => ?_) (.pureBind ?_)
          all_goals exact .finish fun node => .pure
        have tries : Settles anyway [] (attempt (some <$> typeArguments parse)) fun types =>
            standing .part (types.elim [] id) :=
          .attempt (.map (.last (.refl []) fun types => by simpa using .refl _)) rfl
        refine .ite (fun _ => tries.bindWith _ (.refl _) fun types => .pureBind ?_)
          fun _ => .pureBind (rest [])
        cases types <;> exact rest _
    refine .ite (fun _ => .part fun callee? => ?_) fun _ => .part fun callee? => ?_
    all_goals simpa using rest callee?

instance : Delivers (leftHandSideBody parse) .part where
  settles := by
    refine .skip fun start => ?_
    extract_lets after
    have rest (object? : Child) : Settles anyway (standing .part (carried object?)) (after object?)
        fun node => standing .part (carried node) := by
      cases object? with
      | none => exact .pure
      | some object => exact settles_chain start true object
    refine .test (.part fun object? => ?_) (.part fun object? => ?_)
    all_goals simpa using rest object?

end LoopCapture.Grammar
