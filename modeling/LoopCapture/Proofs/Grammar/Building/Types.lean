import LoopCapture.Grammar.Types
import LoopCapture.Proofs.Grammar.Building.Steps

/-!
# Patterns and types are built where they belong
-/

namespace LoopCapture.Grammar
open Text (Offset)
open Syntax (Child NodeId Shape)
open Token (Punctuator)
open Parse

instance : YieldsPast identifier anywhere where
  builds b := by
    refine .test ?_ (.pass fun _ => .pure)
    refine .startPast fun start => .look fun name => .take ?_
    exact .finish fun node => .pure

instance : YieldsPast propertyName anywhere where
  builds b := by
    refine .test ?_ (.pass fun _ => .pure)
    refine .startPast fun start => .look fun name => .take ?_
    exact .finish fun node => .pure

instance (form : Syntax.LiteralForm) : YieldsPast (literal form) atToken := by
  refine .start fun start => .look fun text => .consume ?_
  exact .finishAs

instance : YieldsPast entityName anywhere where
  builds b := by
    refine .test ?_ (.pass fun _ => .pure)
    refine .startPast fun start => .look fun text => .take ?_
    refine .finish fun first => .iterate fun name => ?_
    refine .ifOptional ?_ .pure
    refine .past fun right => ?_
    exact .finish fun node => .pure

instance : Still atPredicateSubject := by
  unfold atPredicateSubject
  infer_instance

instance : Skips variance := inferInstanceAs (Skips (iterate _ _))

instance : Skips optionalSign := by
  unfold optionalSign
  infer_instance

instance : Still atIndexSignature := by
  unfold atIndexSignature
  infer_instance

instance : Still atConstructSignature := by
  unfold atConstructSignature
  infer_instance

instance : Still atParameters := by
  unfold atParameters
  infer_instance

instance : Still atMappedType := by
  refine .lookAhead (.bind fun _ => .bind fun signed => ?_)
  dsimp only
  have inBrackets : Peeks (atMark .openBracket >>= fun opened => if opened = true then
      advance >>= fun _ => atName >>= fun named =>
        if named = true then advance >>= fun _ => atWord .in_ else pure false
    else pure false) := inferInstance
  infer_instance

instance : Still atReadonlyModifier :=
  .and (.lookAhead (.bind fun _ => .bind fun k => by split <;> infer_instance))

instance : Still atAccessorModifier :=
  .and (.lookAhead (.bind fun _ => .bind fun k => by split <;> infer_instance))

theorem builds_shorthandDefault (start : Offset) (name : NodeId) {default : Parse Child}
    [Yields default anywhere] :
    Builds anywhere start [.placed start [name], .passed start]
      (shorthandDefault start name default)
      fun node => [.placed start [node], .passed start] := by
  refine .ifOptional ?_ .pure
  refine .part fun right => ?_
  exact .finishAs

instance {element : Parse Child} [Yields element anywhere] :
    Yields (elementList element) anywhere where
  builds b := by
    refine .collect (fun b elements => ?_) fun elements => .pure
    refine .test .pure (.ifOptional .pure ?_)
    refine .option .pure fun node => .skip fun ends => ?_
    exact .ite (fun _ => .pure) fun _ => .pure

instance : Skips parameterModifiers := by
  refine .iterate (fun _ => .bind fun k => ?_) ()
  extract_lets after
  have rest (isModifier : Bool) : Skips (after isModifier) := by
    simp only [after]
    infer_instance
  split <;> infer_instance

theorem yields_typeChain {separator : Punctuator} {join : List NodeId → Shape}
    {member : Parse Child} [Yields member anywhere] (slots : ∀ l, (join l).slots = l.map some)
    (row : ∀ l, (join l).row = (join l).children)
    (plain : ∀ start l, needs start (join l) = []) :
    Yields (typeChain (.punctuator separator) join member) anywhere := by
  refine .start fun start => .skip fun _ => .option .pure fun first => ?_
  refine .ifOptional (.part fun rest => ?_) .pure
  refine .finish (fun node => .pure) ?_
  simp +contextual [Gives, -Shape.slots, -needs, slots, row, plain]

instance {separator : Punctuator} {member : Parse Child} [Yields member anywhere] :
    Yields (typeChain (.punctuator separator) .unionType member) anywhere :=
  yields_typeChain (fun _ => rfl) (fun _ => rfl) fun _ _ => rfl

instance {separator : Punctuator} {member : Parse Child} [Yields member anywhere] :
    Yields (typeChain (.punctuator separator) .intersectionType member) anywhere :=
  yields_typeChain (fun _ => rfl) (fun _ => rfl) fun _ _ => rfl

section

variable {parse : Parser} [∀ goal, Yields (parse goal) (Suits goal)]

instance : Yields (typeAfterColon parse) anywhere where
  builds b := by
    refine .labelled ?_
    exact .ifOptional .last .pure

instance : Yields (typeOrPredicate parse) anywhere := by
  refine .labelled ?_
  refine .start fun start => .test ?_ (.test ?_ .last)
  · refine .skip fun _ => .past fun parameter => ?_
    refine .look fun is => .look fun broken => ?_
    extract_lets after
    have rest (type : Child) : YieldsFrom start
        [.placed start (carried parameter ++ carried type), .passed start] (after type) :=
      .finish fun node => .pure
    exact .ite (fun _ => .skip fun _ => .part fun type => .lastGiven (rest type)) fun _ =>
      .part fun type => .lastGiven (rest type)
  · refine .past fun parameter => .skip fun _ => .part fun type => ?_
    exact .finish fun node => .pure

instance : Yields (returnTypeAfterColon parse) anywhere where
  builds b := by
    refine .labelled ?_
    exact .ifOptional .last .pure

instance : YieldsPast (typeArguments parse) anywhere where
  builds b := by
    refine .labelled ?_
    refine .pass fun opens => .ite (fun _ => ?_) fun _ => .pure
    exact .part fun arguments => .skip fun _ => .pure

instance : Yields (typeParameter parse) anywhere := by
  refine .start fun start => .skip fun _ => ?_
  refine .option .pure fun name => ?_
  refine .bindIfOptional fun constraint => ?_
  refine .bindIfOptional fun default => ?_
  exact .finish fun node => .pure

instance : Yields (typeParameters parse) anywhere where
  builds b := by
    refine .labelled ?_
    refine .ifOptional ?_ .pure
    refine .part fun params => .skip fun _ => .pure

instance : Yields (typeReference parse) anywhere := by
  refine .labelled ?_
  refine .start fun start => ?_
  refine .option .pure fun name => ?_
  refine .look fun opens => .look fun broken => ?_
  refine .bindIte fun arguments => ?_
  exact .finish fun node => .pure

instance : Yields (propertyKey parse) anywhere where
  builds b := by
    refine .labelled ?_
    refine .look fun k => ?_
    split
    · refine .skip fun _ => .part fun key => .skip fun _ => .pure
    · exact .past fun node => .pure
    · exact .past fun node => .pure
    · exact .past fun node => .pure
    · refine .start fun start => .look fun name => .take (.finish fun node => .pure)
    · refine .ite (fun _ => ?_) fun _ => .skip fun _ => .pure
      exact .past fun name => .pure

theorem Parse.Builds.key {now : Token.Scanner → Prop} {b : Offset} {known : List Fact} {α : Type}
    {next : Child × Bool → Parse α} {post : α → List Fact}
    (missing : ∀ computed, Builds anywhere b known (next (none, computed)) post)
    (found : ∀ key computed, Builds anywhere b
      (.passed b :: .placed b [key] :: .apart (placedIn known) [key] :: known)
      (next (some key, computed)) post) :
    Builds now b known (propertyKey parse >>= next) post := by
  refine .part fun (key, computed) => ?_
  cases key with
  | none => exact (missing computed).forget.forget
  | some key => exact (found key computed).ofPlaced

instance : Yields (bindingElement parse) anywhere := by
  refine .labelled ?_
  refine .start fun start => .option .pure fun target => ?_
  refine .ifOptional ?_ .pure
  exact .part fun right => .finish fun node => .pure

instance : Yields (bindingProperty parse) anywhere := by
  refine .start fun start => .ifOptional ?_ (.test ?_ ?_)
  · exact .part fun target => .finish fun node => .pure
  · refine .look fun name => .look fun stop => .consumeToken start stop ?_
    refine .addToken fun key => .addToken fun target => ?_
    refine .partGiven (builds_shorthandDefault start target) fun target => ?_
    exact .finish fun node => .pure
  · refine .key (fun _ => .pure) fun key computed => .skip fun _ => .part fun target => ?_
    cases computed <;> exact .finish fun node => .pure

instance : Yields (objectPattern parse) atToken := by
  refine .labelled ?_
  refine .start fun start => .consume ?_
  refine .part fun properties => .skip fun _ => ?_
  exact .finish fun node => .pure

instance : Yields (bindingArrayElement parse) anywhere := by
  refine .start fun start => .ifOptional ?_ .last
  exact .part fun target => .finish fun node => .pure

instance : Yields (arrayPattern parse) atToken := by
  refine .labelled ?_
  refine .start fun start => .consume ?_
  refine .part fun elements => ?_
  exact .skip fun _ => .finish fun node => .pure

instance : Yields (bindingTarget parse) anywhere where
  builds b := by
    refine .look fun k => ?_
    split
    · exact .last
    · exact .last
    · exact .last

instance : Yields (decorators parse) anywhere := by
  refine .labelled ?_
  refine .iterate (fun b _ => .ifOptional ?_ .pure) ()
  exact .skip fun _ => .pure

instance : Yields (parameterTarget parse) anywhere := by
  refine .start fun start => .look fun k => ?_
  split
  · exact .take (.finish fun node => .pure)
  · exact .consume (.part fun target => .finish fun node => .pure)
  · exact .last

instance : Yields (parameter parse) anywhere := by
  refine .labelled ?_
  refine .start fun start => .part fun _ => .skip fun _ => ?_
  refine .here fun targetStart le => ?_
  refine .option .pure fun target => .skip fun isOptional => ?_
  refine .part fun type => ?_
  refine .partGiven (builds_shorthandDefault targetStart target) fun pattern => ?_
  refine .back le [.placed start (carried type), .placed start [pattern], .passed start] ?_
  exact .finish fun node => .pure

instance : YieldsPast (parameterList parse) anywhere where
  builds b := by
    refine .labelled ?_
    refine .pass fun opens => .ite (fun _ => ?_) fun _ => .pure
    exact .part fun params => .skip fun _ => .pure

theorem builds_signature (b : Offset) (key : Child) :
    Builds anywhere b [.placed b (carried key)] (signature parse key) fun s =>
      [.placed b (carried s), .passed b] := by
  refine .labelled ?_
  refine .part fun typeParameters => ?_
  refine .past fun params => ?_
  refine .part fun returnType => ?_
  exact .pure

instance : Yields (functionType parse) anywhere where
  builds b := by
    refine .labelled ?_
    refine .look fun isConstructor => .look fun opens => .look fun less => .ite (fun _ => ?_)
      fun _ => .pure
    refine .lastGiven ((Yields.attempt (.start fun start => ?_)).builds b)
    refine .skip fun _ => .skip fun _ => .part fun typeParameters => .test ?_ .pure
    refine .past fun params => .ifOptional ?_ .pure
    refine .part fun returnType => ?_
    exact .finish fun node => .pure

instance : Yields (unionType parse) anywhere :=
  inferInstanceAs (Yields (labelled _ (typeChain _ _ (labelled _ (typeChain _ _ _)))) anywhere)

instance : Yields (typeBody parse) anywhere where
  builds b := by
    refine .option (.start fun start => ?_) fun node => .pure
    refine .option .pure fun check => ?_
    refine .look fun s => .look fun extends_ => .look fun broken => ?_
    refine .ite (fun _ => .pure) fun _ => .skip fun _ => .part fun bound => .skip fun _ => ?_
    refine .part fun whenTrue => .skip fun _ => ?_
    refine .part fun whenFalse => ?_
    exact .finish fun node => .pure

instance : Yields (inferBound parse) anywhere where
  builds b := by
    refine .test ?_ .pure
    have bounds : Yields (advance >>= fun _ => within disallowConditional (parse .type) >>=
        fun bound => atMark .question >>= fun asks =>
          if asks = true then pure none else pure (some bound)) anywhere :=
      ⟨fun b => .skip fun _ => .part fun bound => .test .pure .pure⟩
    refine .part fun bound => ?_
    cases bound <;> exact .pure

instance : Yields (typeQuery parse) atToken := by
  refine .labelled ?_
  refine .start fun start => .consume (.past fun name => ?_)
  refine .look fun opens => .look fun broken => .skipIf ?_
  exact .finish fun node => .pure

instance : Yields (tupleElement parse) anywhere where
  builds b := by
    refine .skip fun _ => .look fun labelled => ?_
    extract_lets after
    have rest : Builds anywhere b [] (after ()) fun a => [.placed b (carried a)] := by
      refine .option .pure fun element => .skip fun _ => .pure
    refine .ite (fun _ => ?_) fun _ => .lastGiven rest
    exact .skip fun _ => .skip fun _ => .skip fun _ => .skip fun _ => rest

instance : Yields (tupleType parse) atToken := by
  refine .labelled ?_
  refine .start fun start => .consume ?_
  refine .part fun elements => .skip fun _ => ?_
  exact .finish fun node => .pure

instance : Yields (mappedType parse) anywhere := by
  refine .labelled ?_
  refine .start fun start => .pass fun _ => .skip fun _ => .skip fun _ => .skip fun _ => ?_
  refine .here fun parameterStart le => .past fun name => .skip fun _ => ?_
  refine .part fun constraint => ?_
  refine .bindIfOptional fun renamed => ?_
  refine .finish fun parameter => .back le [.placed start [parameter], .passed start] ?_
  refine .skip fun _ => .skip fun _ => .skip fun _ => ?_
  refine .part fun type => .skip fun _ => .skip fun _ => ?_
  exact .finish fun node => .pure

theorem yieldsFrom_indexSignature (start : Offset) :
    YieldsFrom start [] (indexSignature parse start) := by
  refine .labelled ?_
  refine .pass fun _ => .here fun parameterStart le => .past fun name => ?_
  refine .part fun keyType => ?_
  refine .finish fun parameter => .back le [.placed start [parameter], .passed start] ?_
  refine .skip fun _ => .part fun type => ?_
  exact .finish fun node => .pure

instance : Yields (typeMember parse) anywhere := by
  refine .labelled ?_
  refine .start fun start => .look fun isConstruct => .skipIf (.look fun opens => .ite ?_ ?_)
  · intro _
    refine .partGiven (builds_signature start none) fun s => ?_
    exact .finish fun node => .pure
  intro _
  refine .look fun isReadonly => .skipIf ?_
  refine .test (.lastGiven (yieldsFrom_indexSignature start)) ?_
  refine .look fun isAccessor => .skipIf (.key (fun _ => .pure) fun key computed => ?_)
  refine .skip fun isOptional => .test ?_ ?_
  · refine .partGiven (builds_signature start (some key)) fun s => ?_
    exact .finish fun node => .pure
  · refine .part fun type => ?_
    exact .finish fun node => .pure

instance : YieldsPast (typeMembers parse) anywhere where
  builds b := by
    refine .labelled ?_
    refine .pass fun opens => .ite (fun _ => ?_) fun _ => .pure
    refine .collect (fun b members => .test .pure ?_) fun members => .skip fun _ => .pure
    refine .look fun start => .part fun member => ?_
    refine .skip fun separated => .skipUnless (.look fun now => .skipIf ?_)
    cases member <;> exact .pure

  end

/-- A template begins with a token of its own. -/
instance {substitution : Parse Child} [Yields substitution anywhere] :
    YieldsPast (templateParts substitution) atToken where
  builds b := by
    refine .look fun head => .consume ?_
    refine .collect (fun b (quasis, nodes) => ?_) fun (quasis, nodes) => .pure
    refine .part fun node => .test (.skip fun _ => .look fun text => .look fun isTail => ?_) ?_
    · refine .skip fun _ => ?_
      cases isTail <;> cases node <;> exact .pure
    · refine .skip fun _ => ?_
      cases node <;> exact .pure

instance : YieldsPast wholeTemplate atToken := by
  refine .start fun start => .look fun text => .consume ?_
  exact .finishAs

theorem builds_literalType {start : Offset} {literal : Parse NodeId}
    (h : Builds atToken start [] literal fun node =>
      [.placed start (carried node), .passed start]) :
    Builds atToken start [] (literalType start literal) fun node =>
      [.placed start (carried node)] :=
  .partGiven h fun node => .finish fun node => .pure

section

variable {parse : Parser} [∀ goal, Yields (parse goal) (Suits goal)]

instance : Yields (importedType parse) atToken := by
  refine .start fun start => .consume (.skip fun _ => .skip fun _ => .skip fun _ => ?_)
  refine .skip fun _ => ?_
  refine .look fun less => .skipIf ?_
  exact .finish fun node => .pure

instance : Yields (namedType parse) anywhere := by
  refine .start fun start => .test (.look fun text => ?_) (.skip fun _ => .pure)
  refine .look fun dotted => .ite (fun _ => ?_) fun _ => .last
  exact .consume (.finish fun node => .pure)

instance : Yields (primaryType parse) anywhere := by
  refine .labelled ?_
  refine .start fun start => .look fun k => ?_
  split
  · exact .skip fun _ => .part fun inner => .skip fun _ => .pure
  · refine .test .last ?_
    exact .past fun members => .finish fun node => .pure
  · exact .last
  · exact .last
  · exact .lastGiven (builds_literalType .lastPast)
  · exact .lastGiven (builds_literalType .lastPast)
  · exact .lastGiven (builds_literalType .lastPast)
  · exact .lastGiven (builds_literalType .lastPast)
  · exact .lastGiven (builds_literalType .lastPast)
  · exact .lastGiven (builds_literalType .lastPast)
  · have template : Builds atToken start [] (templateParts (parse .type) >>= fun (quasis, nodes) =>
        finish start (.template quasis nodes)) fun node =>
          [.placed start (carried node), .passed start] :=
      .past fun (quasis, nodes) => .finishAs
    exact .lastGiven (builds_literalType template)
  · have negative : Builds atToken start [] (advance >>= fun _ => value >>= fun digits =>
        advance >>= fun _ => finish start (.literal .number ("-" ++ digits))) fun node =>
          [.placed start (carried node), .passed start] :=
      .consume (.look fun digits => .skip fun _ => .finishAs)
    exact .test (.lastGiven (builds_literalType negative)) .last
  · exact .last
  · exact .last

instance : Yields (postfixType parse) anywhere := by
  refine .labelled ?_
  refine .start fun start => .option .pure fun first => ?_
  refine .promise (.iterate fun type => ?_)
  refine .look fun opens => .look fun broken => .ite (fun _ => .skip fun _ => .ifOptional ?_ ?_)
    fun _ => .pure
  · exact .finish fun node => .pure
  · refine .part fun index => .skip fun _ => ?_
    exact .finish fun node => .pure

instance : Yields (typeOperator parse) anywhere := by
  refine .start fun start => .look fun k => .ite (fun isOperator => ?_)
    fun _ => .test ?_ (.test ?_ ?_)
  · refine .consume (.part fun operand => ?_)
    exact .finish fun node => .pure
  · exact .skip fun _ => .last
  · refine .consume (.here fun parameterStart le => ?_)
    refine .past fun name => .part fun bound => ?_
    refine .finish fun parameter => .back le [.placed start [parameter], .passed start] ?_
    exact .finish fun node => .pure
  · exact .last

end

end LoopCapture.Grammar
