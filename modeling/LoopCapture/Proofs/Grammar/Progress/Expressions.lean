import LoopCapture.Proofs.Grammar.Building.Expressions
import LoopCapture.Proofs.Grammar.Progress.Functions

/-!
# Expressions move on
-/

namespace LoopCapture.Grammar
open Text (Offset)
open Syntax (Child NodeId Shape FunctionForm PropertyForm)
open Token (Kind Scanner)
open Parse

variable {parse : Parser} {bound : Nat}

instance : Walks mayBeArrow := by
  have looks (k : Kind) : Walks (match k with
      | .punctuator .openParen | .punctuator .less => pure true
      | .keyword .async_ =>
        nextOnSameLine (atName <||> atMark .openParen <||> atMark .less <||> atMark .arrow)
      | k => pure k.isName <&&> nextIsMark .arrow) := by split <;> infer_instance
  exact inferInstanceAs (Walks (_ >>= _))

instance : Walks modifiesProperty := by
  have looks (k : Kind) : Walks (match k with
      | .string | .number | .bigInt | .privateName | .punctuator .openBracket
      | .punctuator .star => pure true
      | k => pure k.isWord) := by split <;> infer_instance
  exact inferInstanceAs (Walks (lookAhead (_ >>= _)))

instance : Walks atAsyncProperty := by
  unfold atAsyncProperty
  infer_instance

instance : Walks bareParameter := by
  unfold bareParameter
  infer_instance

instance (node : Child) : Walks (becomePattern node) := by
  unfold becomePattern
  split <;> infer_instance

instance : Walks memberName := by
  unfold memberName
  infer_instance

instance {start stop : Offset} {word : String} : Walks (metaProperty start stop word) := by
  unfold metaProperty
  infer_instance

instance : Walks regExp := by
  unfold regExp
  infer_instance

instance : Advances parse (expression parse) (Routine.expression.ctorIdx + 2) anywhere := by
  refine .routine (.look fun start => .option (by decide) .pure fun first => ?_)
  exact .ifOptional .free .pure

instance : Advances parse (spreadable parse) (Routine.spreadable.ctorIdx + 2) anywhere := by
  refine .routine (.look fun start => ?_)
  exact .ifOptional .free (.last (by decide))

instance : Advances parse (arguments parse) (Routine.arguments.ctorIdx + 2) anywhere :=
  .routine (.ifOptional .free .pure)

instance : Advances parse (yielding parse) (Routine.yielding.ctorIdx + 2) atToken := by
  refine .routine ?_
  refine .look fun start => .take (.skip fun broken => .skip fun delegate => .look fun k => ?_)
  extract_lets make after
  have rest (hasArgument : Bool) : Paces parse allRoutines anywhere (after hasArgument) never := by
    simp only [after, make]
    exact .free
  split
  all_goals exact .skip rest

theorem paces_arrowHead : Paces parse (Routine.arrowHead.ctorIdx + 2) anywhere (arrowHead parse)
    fun head? => head?.isSome = true := by
  refine .routine (.look fun start => .skip fun isAsync => .skipIf (.skip fun named => ?_))
  extract_lets after
  have rest {now : Scanner → Prop} (head? : Option ArrowHead) :
      Paces parse (Routine.arrowHead.ctorIdx + 1) now (after head?) fun head? =>
        head?.isSome = true := by
    cases head? with
    | none => exact .pure (by simp)
    | some head =>
      refine .look fun arrow => .look fun broken => .ite (fun both => ?_) fun _ => .pure (by simp)
      refine .take .free ?_
      grind
  refine .ite (fun _ => .skip fun param => ?_) fun _ => .part (by decide) fun typeParameters => ?_
  · refine .pureBind ?_
    exact rest (some ⟨start, isAsync, [], [param], none⟩)
  · refine .test (.part (by decide) fun params => .part (by decide) fun returnType => ?_)
      (.pureBind (rest none))
    refine .pureBind ?_
    exact rest (some ⟨start, isAsync, typeParameters, params, returnType⟩)

instance {head : ArrowHead} : Advances parse (arrowBody parse head)
    (Routine.arrowBody.ctorIdx + 2) anywhere := by
  refine .routine (.bindAnywhere (.within (.test ?_ (.last (by decide)))) fun body =>
    .last (by decide))
  exact paces_block_atBrace.weaken (by decide) (by grind) fun _ => id

instance : Advances parse (arrowFunction parse) (Routine.arrowFunction.ctorIdx + 2) anywhere := by
  refine .routine (.skip fun may => .ite (fun _ => ?_) fun _ => .pure)
  exact paces_arrowHead.attempt.bindOption (by decide) (fun _ _ => trivial) .pure fun head => .free

theorem ne_of_isAssignment {k : Kind} (assigns : k.isAssignment = true) : k ≠ .endOfFile := by
  rintro rfl
  cases assigns

instance : Advances parse (conditional parse) (Routine.conditional.ctorIdx + 2) anywhere := by
  refine .routine (.look fun start => .option (by decide) .pure fun test => ?_)
  exact .ifOptional .free .pure

instance : Advances parse (assignmentBody parse) (Routine.arrowFunction.ctorIdx + 2) anywhere where
  paces := by
    refine .look fun yields => .look fun s => .ite (fun both => ?_) fun _ => ?_
    · exact .lastAt (by decide) (by grind)
    refine .option (by decide) ?_ fun node => .pure
    refine .look fun start => .option (by decide) .pure fun left => ?_
    refine .look fun operator => .ite (fun assigns => ?_) fun _ => .pure
    have other : operator ≠ .endOfFile := ne_of_isAssignment assigns
    dsimp only
    refine .ite (fun _ => ?_) fun _ => .take .free fun s is => is.2.trans_ne other
    refine .partSince (by decide) (fun _ _ => trivial) (fun _ => ?_) fun _ => .free
    exact .take .free fun s is => is.atToken fun t known => known.2.trans_ne other

theorem ne_of_precedence {withoutIn : Bool} {above : Nat} {k : Kind}
    (level : ¬ precedence withoutIn k ≤ above) : k ≠ .endOfFile := by
  rintro rfl
  exact level (Nat.zero_le above)

instance {operator : Kind} : Roams parse (castTarget parse operator) := by
  unfold castTarget
  infer_instance

theorem paces_binaryRound (start : Offset) (above : Nat) (left : Child) :
    Paces parse 0 anywhere (binaryRound parse start above left) goesOn := by
  refine .skip fun _ => .look fun operator => .look fun s => .ite (fun _ => .pure) fun level => ?_
  have more (t : Scanner) (is : t.kind = operator) : atToken t :=
    is.trans_ne (ne_of_precedence level)
  refine .ite (fun _ => .test .pure (.take ?_ ?_)) fun _ => .take ?_ ?_
  · exact .free
  · exact fun t is => more t is.1.1.2
  · dsimp only
    exact .free
  · exact fun t is => more t is.1.2

instance {above : Nat} : Advances parse (binaryBody parse above) (Routine.unary.ctorIdx + 2)
    anywhere where
  paces := by
    refine .look fun start => .option (by decide) .pure fun first => ?_
    exact .iterate fun a => (paces_binaryRound start above a).weaken (by decide)
      (fun _ => id) fun _ => id

instance : Advances parse (postfixBody parse) (Routine.postfixBody.ctorIdx + 2) anywhere := by
  refine .routine (.look fun start => .part (by decide) fun operand => ?_)
  refine .skip fun operator => .skip fun broken => .ite (fun _ => ?_) fun _ => .pure
  exact .skip fun _ => .last (by decide)

instance : Advances parse (angleCast parse) 0 atToken where
  paces := .look fun start => .take .free

instance : Advances parse (unaryBody parse) (Routine.postfixBody.ctorIdx + 2) anywhere where
  paces := by
    refine .look fun start => .look fun operator => ?_
    split
    all_goals first
      | exact .last (by decide)
      | exact .take .free
      | exact .lastAt (by decide) (by grind)
      | exact .look fun s => .ite (fun _ => .take .free) fun _ => .last (by decide)

theorem paces_template : Paces parse (Routine.template.ctorIdx + 2) atToken (template parse)
    always := by
  refine .routine (.test ?_ ?_)
  · exact .look fun start => .look fun text => .take .free
  · refine .look fun start => ?_
    exact paces_templateParts.bindLater (by decide) (by grind) fun parts => .free

instance : Advances parse (template parse) (Routine.template.ctorIdx + 2) atToken where
  paces := paces_template.weaken (Nat.le_refl _) (fun _ => id) fun _ => False.elim

instance : Advances parse (computedKey parse) allRoutines anywhere where
  paces := .part (by decide) fun key => .skip fun _ => .pure

instance {start : Offset} {object : Child} {allowCalls : Bool} :
    Roams parse (optionalLink parse start object allowCalls) where
  paces := by
    refine .roam fun opens => .ite (fun _ => .roam fun list => .free) fun _ => ?_
    refine .ifOptional (.roam fun key => .free) (.roam fun less => .ite (fun _ => ?_) fun _ => ?_)
    · exact .roam fun types => .roam fun list => .free
    · exact .roam fun name => .free

theorem paces_arguments_atParen : Paces parse (Routine.arguments.ctorIdx + 2)
    (fun s => s.kind = .punctuator .openParen) (arguments parse) always :=
  .routine (.ifOptional .free (.absurd fun _ other => other.2 other.1))

theorem paces_typeArguments_atLess : Paces parse (Routine.typeArguments.ctorIdx + 2)
    (fun s => s.kind = .punctuator .less) (typeArguments parse) always :=
  .routine (.ifOptional .free (.absurd fun _ other => other.2 other.1))

theorem paces_callTypeArguments : Paces parse (Routine.typeArguments.ctorIdx + 2)
    (fun s => s.kind = .punctuator .less) (callTypeArguments parse) fun types? =>
      types?.isSome = true :=
  .attempt (paces_typeArguments_atLess.bindLater (Nat.le_refl _) (fun _ => id) fun types => .free)

theorem paces_chainRound (start : Offset) (allowCalls : Bool) (object : Child) :
    Paces parse (Routine.template.ctorIdx + 2) anywhere
      (chainRound parse start allowCalls object) goesOn := by
  refine .look fun k => ?_
  split
  · exact .take .free
  · exact .take .free
  · exact .take .free
  · exact .test .pure (.take .free)
  · exact paces_template.bindLater (by decide) (by grind) fun quasi => .free
  · exact paces_template.bindLater (by decide) (by grind) fun quasi => .free
  · refine .ite (fun _ => ?_) fun _ => .pure
    exact paces_arguments_atParen.bindLater (by decide) (by grind) fun list => .free
  · refine .ite (fun _ => ?_) fun _ => .pure
    exact paces_callTypeArguments.bindOption (by decide) (by grind) .pure fun types => .free
  · exact .pure

instance {start : Offset} {allowCalls : Bool} {object : NodeId} :
    Advances parse (chain parse start allowCalls object) (Routine.chain.ctorIdx + 2) anywhere :=
  .routine (.iterate fun object => (paces_chainRound start allowCalls object).weaken (by decide)
    (fun _ => id) fun _ => id)

instance : Advances parse (importExpression parse) (Routine.importExpression.ctorIdx + 2)
    anywhere := by
  refine .routine (.look fun start => .look fun stop => .skip fun _ => ?_)
  exact .ifOptional .free (.test (.part (by decide) fun list => .last (by decide))
    (.skip fun _ => .pure))

instance : Advances parse (arrayLiteral parse) (Routine.arrayLiteral.ctorIdx + 2) atToken := by
  refine .routine ?_
  exact .look fun start => .take .free

instance {start : Offset} {key : NodeId} {computed : Bool} :
    Advances parse (shorthandProperty parse start key computed) 0 anywhere where
  paces := by
    refine .skip fun shape => .skip fun s => ?_
    split
    · exact .skip fun target => .part (by decide) fun target => .last (by decide)
    · exact .skip fun _ => .pure

instance {start : Offset} {form : PropertyForm} {isGenerator isAsync : Bool} {key : NodeId}
    {computed : Bool} :
    Advances parse (propertyMethod parse start form isGenerator isAsync key computed)
      (Routine.functionRest.ctorIdx + 2) anywhere where
  paces := .skip fun valueStart => .part (by decide) fun f => .last (by decide)

instance {start : Offset} : Advances parse (objectProperty parse start)
    (Routine.functionRest.ctorIdx + 2) anywhere where
  paces := by
    refine .skip fun isAsync => .skipIf (.skip fun isGenerator => ?_)
    refine .skip fun gets => .skip fun sets => ?_
    extract_lets after
    have rest (form : PropertyForm) :
        Paces parse (Routine.functionRest.ctorIdx + 2) anywhere (after form) never := by
      refine .skipIf (.part (by decide) fun (key, computed) => ?_)
      cases key with
      | none => exact .pure
      | some key =>
        exact .skip fun opens => .ite (fun _ => .last (by decide)) fun _ =>
          .ifOptional .free (.last (by decide))
    refine .ite (fun _ => .pureBind (rest _)) fun _ =>
      .ite (fun _ => .pureBind (rest _)) fun _ => ?_
    exact .ite (fun _ => .pureBind (rest _)) fun _ => .pureBind (rest _)

instance : Advances parse (objectMember parse) (Routine.objectMember.ctorIdx + 2) anywhere := by
  refine .routine (.look fun start => ?_)
  exact .ifOptional .free (.last (by decide))

instance : Advances parse (objectLiteral parse) (Routine.objectLiteral.ctorIdx + 2) atToken := by
  refine .routine ?_
  exact .look fun start => .take .free

instance : Advances parse (primary parse) (Routine.primary.ctorIdx + 2) anywhere := by
  refine .routine (.look fun start => .look fun k => ?_)
  split
  all_goals first
    | exact .last (by decide)
    | exact .lastAt (by decide) (by grind)
    | exact .take .free
    | skip
  refine .look fun isAsync => .ite (fun _ => ?_) fun _ => .ite (fun _ => ?_) fun _ => ?_
  · exact .skip fun _ => .last (by decide)
  · exact .last (by decide)
  · exact .last (by decide)

instance : Advances parse (creationBody parse) 0 atToken where
  paces := by
    refine .look fun start => .look fun stop =>
      .take (.ifOptional .free (.look fun calleeStart => ?_))
    have made {now : Scanner → Prop} (callee : Child) (types : List NodeId) :
        Paces parse allRoutines now (do
        let list ← if ← atMark .openParen then arguments parse else pure []
        let node ← finish start (.new ⟨callee, types, list, false⟩)
        return some node) never :=
      .test (.roam fun list => .roam fun node => .pure) (.pureBind (.roam fun node => .pure))
    have created (callee : NodeId) : Paces parse allRoutines anywhere (do
        let callee ← chain parse calleeStart false callee
        let types ←
          if ← atMark .less then
            let types ← attempt (some <$> typeArguments parse)
            pure (types.getD [])
          else pure []
        let list ← if ← atMark .openParen then arguments parse else pure []
        let node ← finish start (.new ⟨callee, types, list, false⟩)
        return some node) never := by
      refine .roam fun callee => .test (.roam fun types => ?_) ?_
      · exact .pureBind (made callee _)
      · exact .pureBind (made callee [])
    dsimp only
    refine .test (.optionAt (by decide) (by grind) .pure created) ?_
    exact .option (by decide) .pure created

instance : Advances parse (leftHandSideBody parse) (Routine.primary.ctorIdx + 2) anywhere where
  paces := by
    refine .look fun start => ?_
    refine .test (.optionAt (by decide) (by grind) .pure fun object => .last (by decide)) ?_
    exact .option (by decide) .pure fun object => .last (by decide)

end LoopCapture.Grammar
