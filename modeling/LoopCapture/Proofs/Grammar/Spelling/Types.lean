import LoopCapture.Proofs.Grammar.Building.Functions
import LoopCapture.Proofs.Grammar.Spelling

/-!
# Patterns, types and functions spell their names
-/

namespace LoopCapture.Grammar
open Text (Offset)
open Syntax (Child NodeId Shape FunctionForm)
open Token (Kind Punctuator)
open Parse

variable {parse : Parser} [∀ goal, Spells (parse goal) (Begins goal)]

instance : Spells (typeAfterColon parse) wherever := by
  unfold typeAfterColon
  infer_instance

instance : Spells (typeOrPredicate parse) wherever := by
  refine .labelled (.bind fun start => .bind fun asserted => .ite ?_ ?_)
  · refine .bind fun _ => .bind fun parameter => .bind fun typed => .bind fun broken => ?_
    exact .ite (.bind fun _ => .bind fun type => .free) (.bind fun type => .free)
  · exact .bind fun predicated => .ite (.bind fun parameter => .free) .free

instance : Spells (returnTypeAfterColon parse) wherever := by
  unfold returnTypeAfterColon
  infer_instance

instance : Spells (typeArguments parse) wherever := by
  unfold typeArguments
  infer_instance

instance : Spells variance wherever := by
  unfold variance
  infer_instance

instance : Spells (typeParameter parse) wherever := by
  refine .bind fun start => .bind fun _ => .option .free fun name => .bind fun bounded => ?_
  dsimp only
  exact .ite (.bind fun constraint => .free) (.bind fun constraint => .free)

instance : Spells (typeParameters parse) wherever := by
  unfold typeParameters
  infer_instance

/-- The first part of a name with dots is any word. -/
instance : Spells entityName wherever := by
  refine .test (.look fun start => .look fun name => .word fun s is => ?_) .free
  exact namesToken is.1.1.2 is.1.2 is.2 (.inl rfl)

instance : Spells (typeReference parse) wherever := by
  refine .labelled (.bind fun start => .option .free fun name => ?_)
  dsimp only
  infer_instance

instance : Spells (propertyKey parse) wherever := by
  refine .labelled (.bind fun k => ?_)
  split <;> infer_instance

instance {start : Offset} {name : NodeId} {default : Parse Child} [Spells default wherever] :
    Spells (shorthandDefault start name default) wherever := by
  unfold shorthandDefault
  infer_instance

instance : Spells (bindingElement parse) wherever := by
  refine .labelled (.bind fun start => .option .free fun target => ?_)
  infer_instance

theorem Parse.Spells.wordTwice {now : Token.Scanner → Prop} {start stop : Offset} {name : String}
    {next : NodeId → NodeId → Parse Child} [h : ∀ key target, Spells (next key target) wherever]
    (suits : ∀ s, now s → s.kind.isWord = true ∧ s.start.offset = start ∧ s.stop.offset = stop ∧
      s.value = name) :
    Spells (advance >>= fun _ => addNode start stop (.propertyName name) >>= fun key =>
      addNode start stop (.identifier name) >>= next key) now where
  writes text s spelled is := by
    obtain ⟨isWord, rfl, rfl, rfl⟩ := suits s.scanner is
    have written := slice_of_isWord spelled.scanner isWord
    have moved : (advance : Parse Unit).Writes text s := Spells.writes spelled trivial
    have key := writes_addName moved.spelled written (.propertyName s.scanner.value) (by simp)
    have target := writes_addName key.spelled written (.identifier s.scanner.value) (by simp)
    exact moved.bind (key.bind (target.bind ((h _ _).writes target.spelled trivial)))

instance : Spells (bindingProperty parse) wherever := by
  refine .look fun start => .ifOptional (.test ?_ ?_)
  · refine .look fun name => .look fun stop => .wordTwice fun s is => ?_
    grind [isWord_of_isName]
  · refine .andThen .free fun (key, computed) => ?_
    cases key with
    | none => exact .free
    | some key => exact .free

instance : Spells (objectPattern parse) wherever := by
  unfold objectPattern
  infer_instance

instance {element : Parse Child} [Spells element wherever] :
    Spells (elementList element) wherever := by
  refine .andThen (.iterate (fun elements => ?_) _) fun elements => .free
  refine .bind fun closed => .ite .free (.bind fun comma => .ite .free ?_)
  refine .option .free fun node => ?_
  dsimp only
  infer_instance

instance : Spells (bindingArrayElement parse) wherever := by
  unfold bindingArrayElement
  infer_instance

instance : Spells (arrayPattern parse) wherever := by
  unfold arrayPattern
  infer_instance

instance : Spells (bindingTarget parse) wherever := by
  refine .bind fun k => ?_
  split <;> infer_instance

instance : Spells (decorators parse) wherever := by
  unfold decorators
  infer_instance

instance : Spells parameterModifiers wherever := by
  refine .iterate (fun _ => .bind fun k => ?_) _
  dsimp only
  split <;> infer_instance

instance : Spells (parameterTarget parse) wherever := by
  refine .look fun start => .look fun k => ?_
  split
  · refine .ofKeyword (.word fun s is => ?_)
    exact namesToken (by rw [is.1.2]; rfl) is.1.1.2 (is.2 _ is.1.2) (.inr rfl)
  · exact .free
  · exact .free

instance : Spells (parameter parse) wherever := by
  refine .labelled (.bind fun start => .bind fun _ => .bind fun _ => .bind fun targetStart => ?_)
  refine .option .free fun target => ?_
  infer_instance

instance : Spells (parameterList parse) wherever := by
  unfold parameterList
  infer_instance

instance {key : Child} : Spells (signature parse key) wherever := by
  unfold signature
  infer_instance

instance : Spells (functionType parse) wherever := by
  refine .labelled (.bind fun isConstructor => .bind fun _ => .bind fun _ => ?_)
  refine .ite (.attempt (.bind fun start => .bind fun _ => .bind fun _ => ?_)) .free
  exact .bind fun typeParameters => .bind fun opened => .ite (.bind fun params => .free) .free

instance {separator : Kind} {join : List NodeId → Shape} {member : Parse Child}
    [Spells member wherever] [∀ nodes, IsFalse (join nodes).isBareName] :
    Spells (typeChain separator join member) wherever := by
  refine .bind fun start => .bind fun _ => .option .free fun first => ?_
  infer_instance

instance : Spells (unionType parse) wherever := by
  unfold unionType
  infer_instance

instance : Spells (typeBody parse) wherever := by
  refine .option (.bind fun start => .option .free fun check => ?_) fun node => .free
  refine .bind fun s => .bind fun _ => .bind fun _ => .ite .free (.bind fun _ => ?_)
  exact .bind fun bound => .bind fun _ => .bind fun whenTrue => .free

instance : Spells (inferBound parse) wherever := by
  unfold inferBound
  infer_instance

instance : Spells (typeQuery parse) wherever := by
  refine .labelled (.bind fun start => .bind fun _ => .bind fun name => ?_)
  exact .bind fun _ => .bind fun _ => .skipIf .free

instance : Spells (tupleElement parse) wherever := by
  refine .bind fun _ => .bind fun labelled => ?_
  extract_lets after
  have element : Spells (after ()) wherever := .option .free fun element => .free
  exact .ite (.bind fun _ => .bind fun _ => .bind fun _ => .bind fun _ => element) element

instance : Spells (tupleType parse) wherever := by
  unfold tupleType
  infer_instance

instance : Spells optionalSign wherever := by
  unfold optionalSign
  infer_instance

instance : Spells (mappedType parse) wherever := by
  refine .labelled (.bind fun start => .bind fun _ => .bind fun _ => .bind fun _ => ?_)
  refine .bind fun _ => .bind fun parameterStart => .bind fun name => .bind fun _ => ?_
  refine .bind fun constraint => .bind fun renames => ?_
  extract_lets after
  have rest (renamed : Child) : Spells (after renamed) wherever := by
    refine .bind fun parameter => .bind fun _ => .bind fun _ => .bind fun _ => .bind fun type => ?_
    exact .bind fun _ => .free
  exact .ite (.bind rest) (.bind rest)

instance {start : Offset} : Spells (indexSignature parse start) wherever := by
  refine .labelled (.bind fun _ => .bind fun parameterStart => .bind fun name => ?_)
  exact .bind fun keyType => .bind fun parameter => .free

instance : Spells (typeMember parse) wherever := by
  refine .labelled (.bind fun start => .bind fun isConstruct => .skipIf (.bind fun _ => ?_))
  refine .ite .free (.bind fun readonly => .skipIf (.bind fun _ => .ite .free ?_))
  refine .bind fun accessor => .skipIf (.bind fun (key, computed) => ?_)
  cases key with
  | none => exact .free
  | some key => exact .free

instance : Spells (typeMembers parse) wherever := by
  refine .labelled (.bind fun opened => .ite ?_ .free)
  refine .andThen (.iterate (fun members => ?_) _) fun members => .free
  refine .bind fun closed => .ite .free (.bind fun start => .bind fun member => ?_)
  dsimp only
  infer_instance

instance {substitution : Parse Child} [Spells substitution wherever] :
    Spells (templateParts substitution) wherever := by
  refine .bind fun head => .bind fun _ => ?_
  refine .andThen (.iterate (fun (quasis, nodes) => ?_) _) fun _ => .free
  refine .bind fun node => .bind fun closed => ?_
  infer_instance

instance : Spells wholeTemplate wherever := by
  unfold wholeTemplate
  infer_instance

instance {start : Offset} {p : Parse NodeId} [Spells p wherever] :
    Spells (literalType start p) wherever := by
  unfold literalType
  infer_instance

instance : Spells (importedType parse) wherever := by
  refine .bind fun start => .bind fun _ => .bind fun _ => .bind fun _ => .bind fun _ => ?_
  exact .bind fun _ => .bind fun generic => .ite .free .free

instance : Spells (namedType parse) wherever := by
  refine .bind fun start => .bind fun named => .ite (.bind fun text => ?_) .free
  exact .bind fun qualified => .ite .free .free

instance : Spells (primaryType parse) wherever := by
  refine .labelled (.bind fun start => .bind fun k => ?_)
  split
  all_goals infer_instance

instance : Spells (postfixType parse) wherever := by
  refine .labelled (.bind fun start => .option .free fun first => .iterate (fun type => ?_) _)
  refine .bind fun _ => .bind fun _ => .ite (.bind fun _ => ?_) .free
  exact .bind fun closed => .ite .free .free

instance : Spells (typeOperator parse) wherever := by
  refine .bind fun start => .bind fun k => .ite .free (.bind fun unique => .ite .free ?_)
  exact .bind fun infers => .ite (.bind fun _ => .bind fun parameterStart => .free) .free

instance {statements : Array NodeId} : Spells (listedStatement parse statements) wherever := by
  refine .labelled (.bind fun start => .bind fun statement => ?_)
  dsimp only
  infer_instance

instance : Spells (blockStatements parse) wherever := by
  unfold blockStatements
  infer_instance

instance : Spells (block parse) wherever := by
  unfold block
  infer_instance

instance {form : FunctionForm} {isGenerator isAsync : Bool} {name : Child} :
    Spells (functionRest parse form isGenerator isAsync name) wherever := by
  unfold functionRest
  dsimp only
  infer_instance

instance {start : Offset} {isAsync nameOptional : Bool} :
    Spells (functionDeclaration parse start isAsync nameOptional) wherever := by
  refine .labelled (.bind fun _ => .bind fun isGenerator => ?_)
  extract_lets after
  have rest (name : Child) : Spells (after name) wherever :=
    .bind fun f => .bind fun node => .skipIf .free
  exact .bind fun named => .ite (.bind rest) (.ite (.bind rest) (.bind fun _ => .bind rest))

instance {start : Offset} {isAsync : Bool} :
    Spells (functionExpression parse start isAsync) wherever := by
  refine .labelled (.bind fun _ => .bind fun isGenerator => ?_)
  extract_lets after
  have rest (name : Child) : Spells (after name) wherever := .bind fun f => .skipIf .free
  exact .bind fun named => .ite (.bind rest) (.bind rest)

instance : Spells memberModifiers wherever := by
  refine .iterate (fun isStatic => .bind fun k => ?_) _
  dsimp only
  split <;> infer_instance

instance {start : Offset} : Spells (staticBlock parse start) wherever := by
  unfold staticBlock
  infer_instance

instance {start : Offset} {form : FunctionForm} {isGenerator isAsync isStatic : Bool} {key : NodeId}
    {computed : Bool} :
    Spells (methodRest parse start form isGenerator isAsync isStatic key computed) wherever := by
  refine .bind fun form => .bind fun valueStart => .bind fun f => .bind fun method => ?_
  exact .skipIf .free

instance {start : Offset} {isStatic : Bool} {key : NodeId} {computed : Bool} :
    Spells (fieldRest parse start isStatic key computed) wherever := by
  unfold fieldRest
  dsimp only
  infer_instance

instance {start : Offset} {isStatic : Bool} :
    Spells (memberRest parse start isStatic) wherever := by
  refine .bind fun isAsync => .skipIf (.bind fun isGenerator => ?_)
  extract_lets after
  have rest (accessor : Option FunctionForm) : Spells (after accessor) wherever := by
    refine .skipIf (.bind fun (key, computed) => ?_)
    cases key with
    | none => exact .free
    | some key => exact .free
  infer_instance

instance : Spells (classMember parse) wherever := by
  unfold classMember
  infer_instance

instance : Spells (classMembers parse) wherever := by
  refine .labelled (.bind fun opened => .ite ?_ .free)
  refine .andThen (.iterate (fun members => ?_) _) fun members => .free
  refine .bind fun closed => .ite .free (.bind fun semicolon => .ite .free ?_)
  refine .bind fun start => .bind fun member => ?_
  dsimp only
  infer_instance

instance : Spells (supertypes parse) wherever := by
  unfold supertypes
  infer_instance

instance : Spells (classHeritage parse) wherever := by
  unfold classHeritage
  dsimp only
  infer_instance

instance {start : Offset} {isDeclaration nameOptional : Bool} :
    Spells (classLike parse start isDeclaration nameOptional) wherever := by
  refine .labelled (.bind fun _ => .bind fun named => .bind fun implemented => ?_)
  extract_lets after skipped
  have rest (name : Child) : Spells (after name) wherever := by
    refine .bind fun typeParameters => .bind fun (superClass, arguments) => ?_
    dsimp only
    infer_instance
  infer_instance

end LoopCapture.Grammar
