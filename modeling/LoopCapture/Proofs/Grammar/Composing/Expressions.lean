import LoopCapture.Grammar.Expressions
import LoopCapture.Proofs.Grammar.Composing

/-!
# Types, functions and expressions make patterns of patterns
-/

namespace LoopCapture.Grammar
open Text (Offset)
open Syntax (Child NodeId NodeTable Shape FunctionForm PropertyForm)
open Token (Kind)
open Syntax.NodeTable (Standing)
open Parse

/-- The parts of a construct make patterns of targets only, and targets of declarations are such. -/
class Composer (parse : Parser) : Prop where
  goal : ∀ goal, Composing (parse goal)
  target : Declaring (parse .bindingTarget) .target

attribute [instance] Composer.goal Composer.target

variable {parse : Parser} [Composer parse]

instance : Composing atPredicateSubject := by
  unfold atPredicateSubject
  infer_instance

instance : Composing atMappedType := by
  refine .lookAhead (.bind fun _ => .bind fun signed => ?_)
  extract_lets rest after
  have named : Composing (rest ()) := inferInstance
  have modified : Composing (after ()) := .bind fun readonly => .ite (.bind fun _ => named) named
  exact .ite (.bind fun _ => modified) modified

instance : Composing atIndexSignature := by
  unfold atIndexSignature
  infer_instance

instance : Composing atReadonlyModifier := by
  refine .and (.lookAhead (.bind fun _ => .bind fun k => ?_))
  split <;> infer_instance

instance : Composing atAccessorModifier := by
  refine .and (.lookAhead (.bind fun _ => .bind fun k => ?_))
  split <;> infer_instance

instance : Composing atConstructSignature := by
  unfold atConstructSignature
  infer_instance

instance : Composing atParameters := by
  unfold atParameters
  infer_instance

instance : Composing (typeAfterColon parse) := by
  unfold typeAfterColon
  infer_instance

instance : Composing (typeOrPredicate parse) := by
  refine .labelled (.bind fun start => .bind fun asserted => .ite ?_ ?_)
  · refine .bind fun _ => .bind fun parameter => .bind fun typed => .bind fun broken => ?_
    exact .ite (.bind fun _ => .bind fun type => inferInstance) (.bind fun type => inferInstance)
  · exact .bind fun predicated => .ite (.bind fun parameter => inferInstance) inferInstance

instance : Composing (returnTypeAfterColon parse) := by
  unfold returnTypeAfterColon
  infer_instance

instance : Composing (typeArguments parse) := by
  unfold typeArguments
  infer_instance

instance : Composing variance := by
  unfold variance
  infer_instance

instance : Composing (typeParameter parse) := by
  refine .bind fun start => .bind fun _ => .option inferInstance fun name => .bind fun bounded => ?_
  dsimp only
  exact .ite (.bind fun constraint => inferInstance) (.bind fun constraint => inferInstance)

instance : Composing (typeParameters parse) := by
  unfold typeParameters
  infer_instance

instance : Composing entityName := by
  refine .bind fun named => .ite (.bind fun start => .bind fun name => .bind fun _ => ?_) ?_
  · exact .bind fun first => inferInstance
  · infer_instance

instance : Composing (typeReference parse) := by
  refine .labelled (.bind fun start => .option inferInstance fun name => ?_)
  dsimp only
  infer_instance

instance : Composing (propertyKey parse) := by
  refine .labelled (.bind fun k => ?_)
  split <;> infer_instance

/-- The name of a shorthand property, with a default or without. -/
theorem grants_shorthandDefault {known : NodeTable → Prop} [Lasting known] {start : Offset}
    {name : NodeId} {default : Parse Child} [Composing default]
    (h : ∀ t, known t → t.Declares .target name) :
    Grants known (shorthandDefault start name default) fun x t => t.Declares .target x := by
  refine .skip fun eq => .ite (.skip fun right => .finish fun t x holds is => ?_) (.pure h)
  exact .default is fun y same => Option.some.inj same ▸ h t holds

instance : Declaring (bindingElement parse) .target where
  grants := by
    refine .labelled (.skip fun start => .option (.pure nofun) fun target => .skip fun eq => ?_)
    refine .ite (.skip fun right => .some (.finish fun t x holds is => ?_)) (.pure ?_)
    · exact .default is fun y same => Option.some.inj same ▸ holds.2
    · exact fun t holds y same => Option.some.inj same ▸ holds.2

instance : Declaring (bindingProperty parse) .member where
  grants := by
    refine .skip fun start => .skip fun rest => .ite ?_ (.skip fun shorthand => .ite ?_ ?_)
    · refine .given fun target => .some (.mono (.finish fun t x holds is => .rest is holds)
        (fun _ => id) fun _ _ => NodeTable.Declares.member)
    · refine .skip fun name => .skip fun stop => .skip fun _ => .skip fun key => ?_
      refine .bind (.addNode fun t x _ is => .name is) fun name => ?_
      refine .bind (grants_shorthandDefault fun t => id) fun target => ?_
      refine .some (.finish fun t x holds is => .property is fun y same => ?_)
      exact Option.some.inj same ▸ holds
    · refine .skip fun (key, computed) => ?_
      cases key with
      | none => exact .pure nofun
      | some key =>
        refine .skip fun _ => .given fun target => ?_
        exact .some (.finish fun t x holds is => .property is holds)

instance : Declaring (objectPattern parse) .target where
  grants := by
    refine .labelled (.skip fun start => .skip fun _ => .bind .commaList fun members => ?_)
    exact .skip fun _ => .some (.finish fun t x holds is => .object is holds)

instance {element : Parse Child} [Composing element] : Composing (elementList element) := by
  refine .andThen (.iterate (fun elements => ?_) _) fun elements => inferInstance
  refine .bind fun closed => .ite inferInstance (.bind fun comma => .ite inferInstance ?_)
  refine .option inferInstance fun node => ?_
  dsimp only
  infer_instance

theorem Parse.Grants.elementList {element : Parse Child} {standing : Standing}
    [Declaring element standing] : Grants (fun _ => True) (elementList element) fun elements t =>
      ∀ child ∈ elements, ∀ x, child = .some x → t.Declares standing x := by
  refine .collect fun elements => .skip fun closed => .ite (.pure fun _ => id) ?_
  refine .skip fun comma => .ite (.pure fun _ holds => holds.push nofun) ?_
  refine .option (.pure fun _ => id) fun x => .skip fun comma => ?_
  refine .ite (.pure fun t holds => ?_) (.pure fun t holds => ?_)
  all_goals exact holds.1.push fun y same => Option.some.inj same ▸ holds.2

instance : Declaring (bindingArrayElement parse) .target where
  grants := by
    refine .skip fun start => .skip fun rest => .ite (.given fun target => ?_) Declaring.grants
    exact .some (.finish fun t x holds is => .rest is holds)

instance : Declaring (arrayPattern parse) .target where
  grants := by
    refine .labelled (.skip fun start => .skip fun _ => .bind .elementList fun elements => ?_)
    refine .skip fun _ => .some (.finish fun t x holds is => .array is fun y mem => ?_)
    exact holds (some y) mem y rfl

instance : Declaring identifier .target where
  grants := by
    refine .skip fun isName => .ite (.skip fun start => .skip fun name => .skip fun _ => ?_) ?_
    · exact .some (.finish fun t x _ is => .name is)
    · exact .skip fun _ => .pure nofun

instance : Declaring (bindingTarget parse) .target where
  grants := by
    refine .skip fun k => ?_
    split <;> exact Declaring.grants

instance : Composing (decorators parse) := by
  unfold decorators
  infer_instance

instance : Composing parameterModifiers := by
  refine .iterate (fun _ => .bind fun k => ?_) _
  dsimp only
  split <;> infer_instance

instance : Declaring (parameterTarget parse) .target where
  grants := by
    refine .skip fun start => .skip fun k => ?_
    split
    · exact .skip fun _ => .some (.finish fun t x _ is => .word is)
    · refine .skip fun _ => .given fun target => ?_
      exact .some (.finish fun t x holds is => .rest is holds)
    · exact Declaring.grants

instance : Declaring (parameter parse) .target where
  grants := by
    refine .labelled (.skip fun start => .skip fun _ => .skip fun _ => .skip fun targetStart => ?_)
    refine .option (.pure nofun) fun target => .skip fun isOptional => .skip fun type => ?_
    refine .bind (grants_shorthandDefault fun t => And.right) fun pattern => ?_
    exact .some (.finish fun t x holds is => .parameter is fun y same =>
      Option.some.inj same ▸ holds)

instance : Composing (parameterList parse) := by
  unfold parameterList
  infer_instance

instance {key : Child} : Composing (signature parse key) := by
  unfold signature
  infer_instance

instance : Composing (functionType parse) := by
  refine .labelled (.bind fun isConstructor => .bind fun _ => .bind fun _ => ?_)
  refine .ite (.attempt (.bind fun start => .bind fun _ => .bind fun _ => ?_)) inferInstance
  refine .bind fun typeParameters => .bind fun opened => ?_
  exact .ite (.bind fun params => inferInstance) inferInstance

instance {separator : Kind} {join : List NodeId → Shape} {member : Parse Child}
    [Composing member] [∀ nodes, IsFalse (join nodes).isPattern] :
    Composing (typeChain separator join member) := by
  refine .bind fun start => .bind fun _ => .option inferInstance fun first => ?_
  infer_instance

instance : Composing (unionType parse) := by
  unfold unionType
  infer_instance

instance : Composing (typeBody parse) := by
  refine .option (.bind fun start => .option inferInstance fun check => ?_)
    fun node => inferInstance
  refine .bind fun s => .bind fun _ => .bind fun _ => .ite inferInstance (.bind fun _ => ?_)
  exact .bind fun bound => .bind fun _ => .bind fun whenTrue => inferInstance

instance : Composing (inferBound parse) := by
  unfold inferBound
  infer_instance

instance : Composing (typeQuery parse) := by
  unfold typeQuery
  infer_instance

instance : Composing (tupleElement parse) := by
  refine .bind fun _ => .bind fun labelled => ?_
  extract_lets after
  have element : Composing (after ()) := .option inferInstance fun element => inferInstance
  exact .ite (.bind fun _ => .bind fun _ => .bind fun _ => .bind fun _ => element) element

instance : Composing (tupleType parse) := by
  unfold tupleType
  infer_instance

instance : Composing optionalSign := by
  unfold optionalSign
  infer_instance

instance : Composing (mappedType parse) := by
  refine .labelled (.bind fun start => .bind fun _ => .bind fun _ => .bind fun _ => ?_)
  refine .bind fun _ => .bind fun parameterStart => .bind fun name => .bind fun _ => ?_
  refine .bind fun constraint => .bind fun renames => ?_
  extract_lets after
  have rest (renamed : Child) : Composing (after renamed) := by
    refine .bind fun parameter => .bind fun _ => .bind fun _ => .bind fun _ => .bind fun type => ?_
    exact .bind fun _ => inferInstance
  exact .ite (.bind rest) (.bind rest)

instance {start : Offset} : Composing (indexSignature parse start) := by
  unfold indexSignature
  infer_instance

instance : Composing (typeMember parse) := by
  refine .labelled (.bind fun start => .bind fun isConstruct => .skipIf (.bind fun _ => ?_))
  refine .ite inferInstance (.bind fun readonly => .skipIf (.bind fun _ => .ite inferInstance ?_))
  refine .bind fun accessor => .skipIf (.bind fun (key, computed) => ?_)
  cases key with
  | none => exact inferInstance
  | some key => exact inferInstance

instance : Composing (typeMembers parse) := by
  refine .labelled (.bind fun opened => .ite ?_ inferInstance)
  refine .andThen (.iterate (fun members => ?_) _) fun members => inferInstance
  refine .bind fun closed => .ite inferInstance (.bind fun start => .bind fun member => ?_)
  dsimp only
  infer_instance

instance {substitution : Parse Child} [Composing substitution] :
    Composing (templateParts substitution) := by
  refine .bind fun head => .bind fun _ => ?_
  refine .andThen (.iterate (fun (quasis, nodes) => ?_) _) fun _ => inferInstance
  refine .bind fun node => .bind fun closed => ?_
  infer_instance

instance : Composing wholeTemplate := by
  unfold wholeTemplate
  infer_instance

instance {start : Offset} {p : Parse NodeId} [Composing p] :
    Composing (literalType start p) := by
  unfold literalType
  infer_instance

instance : Composing (importedType parse) := by
  refine .bind fun start => .bind fun _ => .bind fun _ => .bind fun _ => .bind fun _ => ?_
  exact .bind fun _ => .bind fun generic => .ite inferInstance inferInstance

instance : Composing (namedType parse) := by
  unfold namedType
  infer_instance

instance : Composing (primaryType parse) := by
  refine .labelled (.bind fun start => .bind fun k => ?_)
  split
  all_goals infer_instance

instance : Composing (postfixType parse) := by
  refine .labelled (.bind fun start => .option inferInstance fun first =>
    .iterate (fun type => ?_) _)
  refine .bind fun _ => .bind fun _ => .ite (.bind fun _ => ?_) inferInstance
  exact .bind fun closed => .ite inferInstance inferInstance

instance : Composing (typeOperator parse) := by
  refine .bind fun start => .bind fun k => .ite inferInstance (.bind fun unique => ?_)
  refine .ite inferInstance ?_
  infer_instance

instance {statements : Array NodeId} : Composing (listedStatement parse statements) := by
  refine .labelled (.bind fun start => .bind fun statement => ?_)
  dsimp only
  infer_instance

instance : Composing (blockStatements parse) := by
  unfold blockStatements
  infer_instance

instance : Composing (block parse) := by
  unfold block
  infer_instance

instance {form : FunctionForm} {isGenerator isAsync : Bool} {name : Child} :
    Composing (functionRest parse form isGenerator isAsync name) := by
  unfold functionRest
  dsimp only
  infer_instance

instance {start : Offset} {isAsync nameOptional : Bool} :
    Composing (functionDeclaration parse start isAsync nameOptional) := by
  refine .labelled (.bind fun _ => .bind fun isGenerator => ?_)
  extract_lets after
  have rest (name : Child) : Composing (after name) :=
    .bind fun f => .bind fun node => .skipIf inferInstance
  exact .bind fun named => .ite (.bind rest) (.ite (.bind rest) (.bind fun _ => .bind rest))

instance {start : Offset} {isAsync : Bool} :
    Composing (functionExpression parse start isAsync) := by
  refine .labelled (.bind fun _ => .bind fun isGenerator => ?_)
  extract_lets after
  have rest (name : Child) : Composing (after name) := .bind fun f => .skipIf inferInstance
  exact .bind fun named => .ite (.bind rest) (.bind rest)

instance : Composing modifiesMember := by
  refine .lookAhead (.bind fun _ => .bind fun broken => .ite inferInstance (.bind fun k => ?_))
  split <;> infer_instance

instance {form : FunctionForm} {computed isStatic : Bool} {key : Child} :
    Composing (methodForm form computed isStatic key) := by
  unfold methodForm
  infer_instance

instance : Composing memberModifiers := by
  refine .iterate (fun isStatic => .bind fun k => ?_) _
  dsimp only
  split <;> infer_instance

instance {start : Offset} : Composing (staticBlock parse start) := by
  unfold staticBlock
  infer_instance

instance {start : Offset} {form : FunctionForm} {isGenerator isAsync isStatic : Bool} {key : NodeId}
    {computed : Bool} :
    Composing (methodRest parse start form isGenerator isAsync isStatic key computed) := by
  refine .bind fun form => .bind fun valueStart => .bind fun f => .bind fun method => ?_
  exact .skipIf inferInstance

instance {start : Offset} {isStatic : Bool} {key : NodeId} {computed : Bool} :
    Composing (fieldRest parse start isStatic key computed) := by
  unfold fieldRest
  dsimp only
  infer_instance

instance {start : Offset} {isStatic : Bool} : Composing (memberRest parse start isStatic) := by
  refine .bind fun isAsync => .skipIf (.bind fun isGenerator => ?_)
  extract_lets after
  have rest (accessor : Option FunctionForm) : Composing (after accessor) := by
    refine .skipIf (.bind fun (key, computed) => ?_)
    cases key with
    | none => exact inferInstance
    | some key => exact inferInstance
  infer_instance

instance : Composing (classMember parse) := by
  unfold classMember
  infer_instance

instance : Composing (classMembers parse) := by
  refine .labelled (.bind fun opened => .ite ?_ inferInstance)
  refine .andThen (.iterate (fun members => ?_) _) fun members => inferInstance
  refine .bind fun closed => .ite inferInstance (.bind fun semicolon => .ite inferInstance ?_)
  refine .bind fun start => .bind fun member => ?_
  dsimp only
  infer_instance

instance : Composing (supertypes parse) := by
  unfold supertypes
  infer_instance

instance : Composing (classHeritage parse) := by
  unfold classHeritage
  dsimp only
  infer_instance

instance {start : Offset} {isDeclaration nameOptional : Bool} :
    Composing (classLike parse start isDeclaration nameOptional) := by
  refine .labelled (.bind fun _ => .bind fun named => .bind fun implemented => ?_)
  extract_lets after skipped
  have rest (name : Child) : Composing (after name) := by
    refine .bind fun typeParameters => .bind fun (superClass, arguments) => ?_
    dsimp only
    infer_instance
  infer_instance

instance : Composing mayBeArrow := by
  refine .bind fun k => ?_
  split <;> infer_instance

instance : Composing modifiesProperty := by
  refine .lookAhead (.bind fun _ => .bind fun k => ?_)
  split <;> infer_instance

instance : Composing atAsyncProperty := by
  unfold atAsyncProperty
  infer_instance

instance : Composing (expression parse) := by
  refine .labelled (.bind fun start => .option inferInstance fun first => ?_)
  infer_instance

instance : Composing (spreadable parse) := by
  unfold spreadable
  infer_instance

instance : Composing (arguments parse) := by
  unfold arguments
  infer_instance

instance : Composing (yielding parse) := by
  refine .labelled (.bind fun start => .bind fun _ => .bind fun broken => ?_)
  refine .bind fun delegate => .bind fun k => ?_
  dsimp only
  split <;> infer_instance

instance : Composing bareParameter := by
  unfold bareParameter
  infer_instance

instance : Composing (arrowHead parse) := by
  refine .labelled (.bind fun start => .bind fun isAsync => .skipIf (.bind fun named => ?_))
  extract_lets after
  have rest (head? : Option ArrowHead) : Composing (after head?) := by
    cases head? with
    | none => exact inferInstance
    | some head => exact inferInstance
  infer_instance

instance {head : ArrowHead} : Composing (arrowBody parse head) := by
  unfold arrowBody
  infer_instance

instance : Composing (arrowFunction parse) := by
  refine .labelled (.bind fun mayBe => .ite (.option inferInstance fun head => ?_) inferInstance)
  infer_instance

instance : Composing (conditional parse) := by
  refine .labelled (.bind fun start => .option inferInstance fun test => ?_)
  infer_instance

instance {node : Child} : Composing (becomePattern node) := by
  unfold becomePattern
  split <;> infer_instance

instance : Composing (assignmentBody parse) := by
  refine .bind fun yields => .bind fun s =>
    .ite inferInstance (.option ?_ fun node => inferInstance)
  refine .bind fun start => .option inferInstance fun left => ?_
  dsimp only
  infer_instance

instance {operator : Kind} : Composing (castTarget parse operator) := by
  unfold castTarget
  infer_instance

instance {start : Offset} {above : Nat} {left : Child} :
    Composing (binaryRound parse start above left) := by
  refine .bind fun _ => .bind fun operator => .bind fun s => ?_
  have joined (right : Child) : IsFalse (if isLogical operator then
      Shape.logical operator left right else Shape.binary operator left right).isPattern := by
    split <;> infer_instance
  dsimp only
  infer_instance

instance {above : Nat} : Composing (binaryBody parse above) := by
  refine .bind fun start => .option inferInstance fun first => ?_
  infer_instance

instance : Composing (postfixBody parse) := by
  unfold postfixBody
  infer_instance

instance : Composing (angleCast parse) := by
  unfold angleCast
  infer_instance

instance : Composing (unaryBody parse) := by
  refine .bind fun start => .bind fun operator => ?_
  split <;> infer_instance

instance : Composing memberName := by
  unfold memberName
  infer_instance

instance : Composing (template parse) := by
  unfold template
  infer_instance

instance : Composing (computedKey parse) := by
  unfold computedKey
  infer_instance

instance {start : Offset} {object : Child} {allowCalls : Bool} :
    Composing (optionalLink parse start object allowCalls) := by
  refine .bind fun calls => .ite (.bind fun list => inferInstance) ?_
  refine .bind fun computed => .ite inferInstance (.bind fun generic => ?_)
  exact .ite (.bind fun types => inferInstance) inferInstance

instance : Composing (callTypeArguments parse) := by
  unfold callTypeArguments
  infer_instance

instance {start : Offset} {allowCalls : Bool} {object : Child} :
    Composing (chainRound parse start allowCalls object) := by
  refine .bind fun k => ?_
  split
  case h_8 => exact .ite (.option inferInstance fun types => inferInstance) inferInstance
  all_goals infer_instance

instance {start : Offset} {allowCalls : Bool} {object : NodeId} :
    Composing (chain parse start allowCalls object) := by
  unfold chain
  infer_instance

instance {start stop : Offset} {word : String} : Composing (metaProperty start stop word) := by
  unfold metaProperty
  infer_instance

instance : Composing (importExpression parse) := by
  refine .labelled (.bind fun start => .bind fun stop => .bind fun _ => .bind fun dotted => ?_)
  exact .ite inferInstance (.bind fun called => .ite inferInstance inferInstance)

instance : Composing (arrayLiteral parse) := by
  unfold arrayLiteral
  infer_instance

/-- A default makes a pattern of the name, which is added just before. -/
instance {start : Offset} {key : NodeId} {computed : Bool} :
    Composing (shorthandProperty parse start key computed) := by
  refine .bind fun shape => .bind fun s => ?_
  split
  · rename_i name node is found
    refine ⟨fun s => (?_ : Grants (fun _ => True) _ fun _ _ => True) s trivial |>.1⟩
    refine .bind (.addNode fun t x _ is => .name is) fun name => ?_
    exact .bind (grants_shorthandDefault fun t => id) fun target =>
      .skip fun node => .pure fun _ _ => trivial
  · infer_instance

instance {start : Offset} {form : PropertyForm} {isGenerator isAsync : Bool} {key : NodeId}
    {computed : Bool} :
    Composing (propertyMethod parse start form isGenerator isAsync key computed) := by
  unfold propertyMethod
  dsimp only
  infer_instance

instance {start : Offset} : Composing (objectProperty parse start) := by
  refine .bind fun isAsync => .skipIf (.bind fun isGenerator => ?_)
  extract_lets after
  have rest (form : PropertyForm) : Composing (after form) := by
    refine .skipIf (.bind fun (key, computed) => ?_)
    cases key with
    | none => exact inferInstance
    | some key => exact inferInstance
  infer_instance

instance : Composing (objectMember parse) := by
  unfold objectMember
  infer_instance

instance : Composing (objectLiteral parse) := by
  unfold objectLiteral
  infer_instance

instance : Composing regExp := by
  unfold regExp
  infer_instance

instance : Composing (primary parse) := by
  refine .labelled (.bind fun start => .bind fun k => ?_)
  split <;> infer_instance

instance : Composing (creationBody parse) := by
  refine .bind fun start => .bind fun stop => .bind fun _ => .bind fun dotted => ?_
  refine .ite inferInstance (.bind fun calleeStart => ?_)
  extract_lets after
  have rest (callee? : Child) : Composing (after callee?) := by
    cases callee? with
    | none => exact inferInstance
    | some callee =>
      refine .bind fun callee => ?_
      extract_lets typed
      have last (types : List NodeId) : Composing (typed types) :=
        .bind fun called => .ite (.bind fun list => inferInstance) (.bind fun list => inferInstance)
      exact .bind fun generic => .ite (.bind fun types => .bind last) (.bind last)
  infer_instance

instance : Composing (leftHandSideBody parse) := by
  refine .bind fun start => ?_
  extract_lets after
  have rest (object? : Child) : Composing (after object?) := by
    cases object? with
    | none => exact inferInstance
    | some object => exact inferInstance
  infer_instance

end LoopCapture.Grammar
