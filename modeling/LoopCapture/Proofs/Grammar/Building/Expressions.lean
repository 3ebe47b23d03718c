import LoopCapture.Grammar.Expressions
import LoopCapture.Proofs.Grammar.Handover.Expressions
import LoopCapture.Proofs.Grammar.Building.Functions

/-!
# Expressions are built where they belong
-/

namespace LoopCapture.Grammar
open Text (Offset)
open Syntax (Child NodeId Shape FunctionForm PropertyForm)
open Token (Kind)
open Parse

instance : Still mayBeArrow := by
  refine .bind fun k => ?_
  split <;> infer_instance

instance : Still modifiesProperty :=
  .lookAhead (.bind fun _ => .bind fun k => by split <;> infer_instance)

instance : Still atAsyncProperty := by
  unfold atAsyncProperty
  infer_instance

instance : YieldsPast bareParameter anywhere := by
  refine .start fun start => .past fun name => ?_
  exact .finishAs

instance : YieldsPast memberName anywhere where
  builds b := by
    refine .test ?_ .lastPast
    refine .startPast fun start => .look fun name => .take ?_
    exact .finish fun node => .pure

theorem yieldsFrom_metaProperty (start stop : Offset) (word : String) :
    YieldsFrom start [.token start stop] (metaProperty start stop word) := by
  refine .addToken fun head => .part fun property => ?_
  exact .promise .finishAs

theorem builds_becomePatternOf {b : Offset} (node : Child) :
    Builds anywhere b [.placed b (carried node)] (becomePattern node) fun _ => [] := by
  cases node with
  | none => exact .pure
  | some node => exact builds_becomePattern (.refl b _)

instance : YieldsPast regExp atToken :=
  ⟨fun b => .reread .lastPast⟩

variable {parse : Parser} [∀ goal, Yields (parse goal) (Suits goal)]

instance : Yields (expression parse) anywhere := by
  refine .labelled ?_
  refine .start fun start => .option .pure fun first => .ifOptional ?_ .pure
  refine .part fun rest => ?_
  exact .finish fun node => .pure

instance : Yields (spreadable parse) anywhere := by
  refine .labelled ?_
  refine .start fun start => .ifOptional ?_ .last
  exact .part fun argument => .finish fun node => .pure

instance : YieldsPast (arguments parse) anywhere where
  builds b := by
    refine .labelled ?_
    refine .pass fun opens => .ite (fun _ => ?_) fun _ => .pure
    exact .part fun list => .skip fun _ => .pure

instance : Yields (yielding parse) atToken := by
  refine .labelled ?_
  refine .start fun start => .consume (.look fun broken => .skip fun delegate => .look fun k => ?_)
  extract_lets make after
  have made (argument : Child) : YieldsFrom start [.placed start (carried argument), .passed start]
      (make argument) :=
    .finish fun node => .pure
  have rest (hasArgument : Bool) : YieldsFrom start [.passed start] (after hasArgument) :=
    .ite (fun _ => .part fun argument => .lastGiven (made argument))
      fun _ => .part fun argument => .lastGiven (made argument)
  split
  all_goals exact .skip rest

/-- A head remembers where it started, which is not before the place. -/
theorem builds_arrowHead (b : Offset) :
    Builds anywhere b [] (arrowHead parse) fun head? => head?.elim [] fun head =>
      [.opened b head.start, .placed head.start (carried head), .passed head.start] := by
  refine .labelled ?_
  refine .here fun start le => .look fun isAsync => .skipIf (.look fun named => ?_)
  extract_lets after
  have rest (head : ArrowHead) (starts : head.start = start) :
      Builds anywhere start [.placed start (carried head), .passed start] (after (some head))
      fun head? =>
        head?.elim [] fun head =>
          [.opened b head.start, .placed head.start (carried head), .passed head.start] := by
    subst starts
    refine .look fun arrow => .look fun broken => .ite (fun _ => .skip fun _ => .pure ?_)
      fun _ => .pure
    simp +contextual [Gives, le]
  refine .ite (fun _ => ?_) fun _ => .part fun typeParameters => ?_
  · exact .past fun param => .pureBind (.lastGiven (rest _ rfl))
  refine .test ?_ (.pureBind .pure)
  refine .past fun params => ?_
  refine .part fun returnType => ?_
  exact .pureBind (.lastGiven (rest _ rfl))

theorem builds_arrowBody (head : ArrowHead) :
    Builds anywhere head.start [.placed head.start (carried head), .passed head.start]
      (arrowBody parse head) fun node =>
        [.placed head.start (carried node), .passed head.start] := by
  refine .labelled ?_
  have body : Yields (atMark .openBrace >>= fun braced =>
      if braced = true then block parse else parse .assignment) anywhere :=
    ⟨fun b => .test .last .last⟩
  exact .part fun body => .finishAs

instance : Yields (arrowFunction parse) anywhere where
  builds b := by
    refine .labelled ?_
    refine .test (.partGiven ((builds_arrowHead b).attempt rfl) fun head? => ?_) .pure
    cases head? with
    | none => exact .pure
    | some head => exact .opened (.partGiven (builds_arrowBody head) fun node => .pure)

instance : Yields (conditional parse) anywhere := by
  refine .labelled ?_
  refine .start fun start => .option .pure fun test => .ifOptional ?_ .pure
  refine .part fun consequent => .skip fun _ => ?_
  refine .part fun alternate => ?_
  exact .finish fun node => .pure

instance : Yields (assignmentBody parse) anywhere where
  builds b := by
    refine .look fun yields => .look fun s => .ite (fun both => .last)
      fun _ => ?_
    refine .option ?_ fun node => .pure
    refine .start fun start => .option .pure fun left => ?_
    refine .look fun operator => .ite (fun _ => ?_) fun _ => .pure
    extract_lets after
    have rest : YieldsFrom start [.placed start [left], .passed start] (after ()) := by
      refine .skip fun _ => .part fun right => ?_
      exact .finish fun node => .pure
    refine .ite (fun _ => ?_) fun _ => .lastGiven rest
    exact .partGiven (builds_becomePatternOf left) fun _ => .lastGiven rest

instance (operator : Kind) : Yields (castTarget parse operator) anywhere where
  builds b := by
    refine .look fun isConst => .ite (fun both => ?_) fun _ => .last
    refine .start fun start => .consume ?_
    exact .finish fun node => .pure

theorem builds_binaryRound (start : Offset) (above : Nat) (left : Child) :
    Builds anywhere start [.placed start (carried left), .passed start]
      (binaryRound parse start above left) fun r => [.placed start (carried r), .passed start] := by
  refine .skip fun _ => .look fun operator => .look fun s => .ite (fun _ => .pure) fun _ => ?_
  refine .ite (fun _ => .test .pure (.skip fun _ => ?_)) fun _ => .skip fun _ => ?_
  · refine .part fun type => ?_
    exact .finish fun node => .pure
  · refine .part fun right => .skipIf (.finish (fun node => .pure) ?_)
    split <;> simp +contextual [Gives, Shape.row, Shape.walked]

instance (above : Nat) : Yields (binaryBody parse above) anywhere := by
  refine .start fun start => .option .pure fun first => ?_
  exact .promise (.iterate (builds_binaryRound start above))

instance : Yields (postfixBody parse) anywhere := by
  refine .labelled ?_
  refine .start fun start => .option ?_ fun operand => ?_
  · exact .look fun operator => .look fun broken => .ite (by simp) fun _ => .pure
  · refine .look fun operator => .look fun broken => .ite (fun _ => .skip fun _ => ?_)
      fun _ => .pure
    exact .finish fun node => .pure

instance : Yields (angleCast parse) atToken := by
  refine .start fun start => .consume (.part fun type => .skip fun _ => ?_)
  exact .part fun operand => .finish fun node => .pure

instance : Yields (unaryBody parse) anywhere := by
  refine .start fun start => .look fun operator => ?_
  split
  all_goals first
    | exact .last
    | exact .look fun s => .ite
        (fun _ => .consume (.part fun argument => .finish fun node => .pure))
        fun _ => .last
    | exact .consume (.part fun argument => .finish fun node => .pure)

instance : YieldsPast (template parse) atToken where
  builds b := by
    refine .labelled ?_
    refine .test .lastPast (.startPast fun start => ?_)
    refine .past fun (quasis, nodes) => ?_
    exact .finishAs

instance : Yields (computedKey parse) anywhere :=
  ⟨fun b => .part fun key => .skip fun _ => .pure⟩

theorem builds_optionalLink (start : Offset) (object : Child) (allowCalls : Bool) :
    Builds anywhere start [.placed start (carried object), .passed start]
      (optionalLink parse start object allowCalls) fun node =>
        [.placed start (carried node), .passed start] := by
  refine .look fun opens => .ite (fun _ => ?_) fun _ => .ifOptional ?_ ?_
  · exact .part fun list => .finishAs
  · exact .part fun key => .finishAs
  refine .look fun less => .ite (fun _ => ?_) fun _ => ?_
  · refine .part fun types => ?_
    exact .part fun list => .finishAs
  · exact .part fun name => .finishAs

instance : Yields (callTypeArguments parse) anywhere := by
  have closed : Yields (typeArguments parse >>= fun types => atMark .openParen >>=
      fun opens => pure (if opens = true then some types else none)) anywhere := by
    refine ⟨fun b => .part fun types => .look fun opens => ?_⟩
    cases opens <;> exact .pure
  exact closed.attempt

theorem builds_chainRound (start : Offset) (allowCalls : Bool) (object : Child) :
    Builds anywhere start [.placed start (carried object), .passed start]
      (chainRound parse start allowCalls object) fun r =>
        [.placed start (carried r), .passed start] := by
  refine .look fun k => ?_
  split
  · refine .skip fun _ => .part fun name => ?_
    exact .finish fun node => .pure
  · refine .skip fun _ => .partGiven (builds_optionalLink start object allowCalls)
      fun node => ?_
    exact .pure
  · refine .skip fun _ => .part fun key => ?_
    exact .finish fun node => .pure
  · refine .test .pure (.skip fun _ => ?_)
    exact .finish fun node => .pure
  · exact .part fun quasi => .finish fun node => .pure
  · exact .part fun quasi => .finish fun node => .pure
  · refine .ite (fun _ => ?_) fun _ => .pure
    exact .part fun list => .finish fun node => .pure
  · refine .ite (fun _ => .part fun types => ?_) fun _ => .pure
    cases types with
    | none => exact .pure
    | some types =>
      exact .part fun list => .finish fun node => .pure
  · exact .pure

theorem builds_chain (start : Offset) (allowCalls : Bool) (object : NodeId) :
    Builds anywhere start [.placed start [object], .passed start]
      (chain parse start allowCalls object) fun node =>
        [.placed start (carried node), .passed start] :=
  .labelled (.iterate (builds_chainRound start allowCalls))

instance : Yields (importExpression parse) atToken := by
  refine .labelled ?_
  refine .start fun start => .look fun stop =>
    .consumeToken start stop (.ifOptional ?_ (.test ?_ ?_))
  · exact .partGiven (yieldsFrom_metaProperty start stop "import") fun node => .pure
  · exact .part fun list => .finish fun node => .pure
  · exact .skip fun _ => .pure

instance : Yields (arrayLiteral parse) atToken := by
  refine .labelled ?_
  refine .start fun start => .consume ?_
  refine .part fun elements => ?_
  exact .skip fun _ => .finish fun node => .pure

theorem yieldsFrom_shorthandProperty (start : Offset) (key : NodeId) (computed : Bool) :
    YieldsFrom start [.placed start [key], .passed start]
      (shorthandProperty parse start key computed) := by
  intro text base s sound is reached holds
  refine (Still.outcome sound : Outcome text base s (shapeOf key) fun _ => []).bind ?_
  refine (Still.outcome sound : Outcome text base s state fun _ => []).bind ?_
  change Outcome text base s _ _
  split
  · rename_i name node shape found
    -- the variable stands where the key does, and that may be after the start of the property
    have placed : s.layout.PlacesAll base start [key] := (holds _ List.mem_cons_self).1
    obtain ⟨-, n, found', le⟩ := placed key (List.mem_singleton_self key)
    obtain rfl : n = node := Option.some.inj (found'.symm.trans found)
    have isName : n.shape.nameText?.isSome = true := by
      have same : some n.shape = some (.propertyName name) := by
        rw [← shape]
        exact (congrArg (·.map (·.shape)) found).symm
      simp [Option.some.inj same, Shape.nameText?]
    refine (outcome_addCopy sound found le isName rfl).bindBuilds (fun target => ?_) reached holds
    refine .since (.partGiven (builds_shorthandDefault n.start target) fun target => ?_)
    refine .back le [.placed start [key], .placed start [target], .passed start] ?_
    exact .finish fun node => .pure
  · exact (Builds.skip fun _ => .pure : Builds anywhere start _ _ _) sound trivial reached holds

theorem yieldsFrom_propertyMethod (start : Offset) (form : PropertyForm)
    (isGenerator isAsync : Bool) (key : NodeId) (computed : Bool) :
    YieldsFrom start [.placed start [key], .passed start]
      (propertyMethod parse start form isGenerator isAsync key computed) := by
  refine .hereAfter fun valueStart le => ?_
  refine .partGiven (builds_functionRest valueStart _ isGenerator isAsync none) fun f => ?_
  refine .finish fun method => ?_
  refine .back le [.placed start [key], .placed start [method], .apart [key] [method],
    .passed start] ?_
  cases computed <;> exact .finish fun node => .pure

theorem yieldsFrom_objectProperty (start : Offset) :
    YieldsFrom start [] (objectProperty parse start) := by
  refine .look fun isAsync => .skipIf (.skip fun isGenerator => ?_)
  refine .look fun gets => .look fun sets => ?_
  extract_lets after
  have rest (form : PropertyForm) : YieldsFrom start [] (after form) := by
    refine .skipIf (.key (fun _ => .pure) fun key computed => ?_)
    refine .look fun opens => .ite (fun _ => ?_) fun _ => .ifOptional ?_ ?_
    · exact .lastGiven (yieldsFrom_propertyMethod start form isGenerator isAsync key computed)
    · refine .part fun content => ?_
      cases computed <;> exact .finish fun node => .pure
    · exact .lastGiven (yieldsFrom_shorthandProperty start key computed)
  refine .ite (fun _ => .skip rest) fun _ => .ite (fun _ => .skip rest) fun _ => ?_
  exact .ite (fun _ => .skip rest) fun _ => .skip rest

instance : Yields (objectMember parse) anywhere := by
  refine .labelled ?_
  refine .start fun start => .ifOptional ?_ (.lastGiven (yieldsFrom_objectProperty start))
  exact .part fun argument => .finish fun node => .pure

instance : Yields (objectLiteral parse) atToken := by
  refine .labelled ?_
  refine .start fun start => .consume ?_
  refine .part fun properties => ?_
  exact .skip fun _ => .finish fun node => .pure

instance : Yields (primary parse) anywhere := by
  refine .labelled ?_
  refine .start fun start => .look fun k => ?_
  split
  · exact .consume (.finish fun node => .pure)
  · exact .consume (.finish fun node => .pure)
  · exact .past fun node => .pure
  · exact .past fun node => .pure
  · exact .past fun node => .pure
  · exact .past fun node => .pure
  · exact .past fun node => .pure
  · exact .past fun node => .pure
  · exact .past fun node => .pure
  · exact .past fun node => .pure
  · exact .past fun node => .pure
  · exact .past fun node => .pure
  · exact .skip fun _ => .part fun inner => .skip fun _ => .pure
  · exact .last
  · exact .last
  · exact .lastGiven (yieldsFrom_functionExpression start false)
  · exact .lastGiven (yieldsFrom_classLike start false true)
  · exact .last
  · exact .last
  · exact .last
  · refine .look fun isAsync => .ite (fun _ => ?_) fun _ => .ite (fun _ => ?_) fun _ => ?_
    · exact .skip fun _ => .lastGiven (yieldsFrom_functionExpression start true)
    · exact .last
    · exact .skip fun _ => .pure

instance : Yields (creationBody parse) atToken := by
  refine .start fun start => .look fun stop => .consumeToken start stop (.ifOptional ?_ ?_)
  · exact .partGiven (yieldsFrom_metaProperty start stop "new") fun node => .pure
  refine .here fun calleeStart le => ?_
  refine .bindIf fun callee? => ?_
  cases callee? with
  | none => exact .pure
  | some callee =>
    -- the callee is put together at its own start, and the creation around it
    refine .ofPlaced (.partGiven (builds_chain calleeStart false callee) fun callee => ?_)
    refine .back le [.placed start (carried callee), .passed start] (.look fun less => ?_)
    extract_lets after
    have rest (types : List NodeId) : YieldsFrom start
        [.placed start (carried callee ++ carried types), .passed start] (after types) :=
      .bindIf fun list => .finish fun node => .pure
    refine .ite (fun _ => ?_) fun _ => .part fun types => .lastGiven (rest types)
    refine .part fun types => ?_
    cases types <;> exact .pureBind (.lastGiven (rest _))

instance : Yields (leftHandSideBody parse) anywhere := by
  refine .start fun start => .bindIf fun object? => ?_
  cases object? with
  | none => exact .pure
  | some object => exact .ofPlaced (.lastGiven (builds_chain start true object))

end LoopCapture.Grammar
