import LoopCapture.Proofs.Grammar.Attachment.Steps
import LoopCapture.Proofs.Grammar.Building.Types

/-!
# Patterns and types lose no node

What a parser makes of names, types, patterns and parameters it hands on. Decorators are left out,
and so are the type arguments after `typeof` and in imported types.
-/

namespace LoopCapture.Grammar
open Text (Offset)
open Syntax (Child NodeId Places Role Shape standing)
open Token (Kind)
open Parse

attribute [local simp] carried_nodes toList_eq_carried mem_carried mem_carried_array

instance : Delivers identifier .name where
  settles := by
    refine .test (.skip fun start => .skip fun name => .skip fun _ => ?_) .fault
    exact .finish fun node => .pure

instance : Delivers propertyName .name where
  settles := by
    refine .test (.skip fun start => .skip fun name => .skip fun _ => ?_) .fault
    exact .finish fun node => .pure

instance (form : Syntax.LiteralForm) : Delivers (literal form) .name where
  settles := .skip fun start => .skip fun text => .skip fun _ => .finishAs

instance : Delivers entityName .name where
  settles := by
    refine .test (.skip fun start => .skip fun text => .skip fun _ =>
      .finish fun first => ?_) .fault
    refine .iterate .name fun name => .test (.skip fun right => ?_) .pure
    exact .finish fun node => .pure

instance : Peeks variance := inferInstanceAs (Peeks (iterate _ _))

instance : Idle optionalSign := by
  unfold optionalSign
  infer_instance

instance : Idle parameterModifiers := by
  refine .iterate (fun _ => .mk (.skip fun k => ?_)) ()
  extract_lets after
  have rest (isModifier : Bool) : Idle (after isModifier) := by
    simp only [after]
    infer_instance
  split
  all_goals exact .skip fun isModifier => (rest isModifier).settles

/-- A name with a default is a part, and without one it stays what it is. -/
theorem settles_shorthandDefault (start : Offset) (name : NodeId) {default : Parse Child}
    [Delivers default .part] :
    Settles anyway [(name, .part)] (shorthandDefault start name default)
      fun node => [(node, .part)] := by
  refine .test (.part fun right => ?_) .pure
  exact .finishAs

instance {element : Parse Child} [Delivers element .part] :
    Delivers (elementList element) .part where
  settles := by
    refine .collect .part (fun elements => ?_) fun elements => .pure
    refine .test .pure (.test .pure (.option .pure fun node => ?_))
    exact .skip fun ends => .ite (fun _ => .pure) fun _ => .pure

theorem settles_typeChain {separator : Kind} {join : List NodeId → Shape} {member : Parse Child}
    [Delivers member .part] (places : ∀ l, (join l).places = standing .part (carried l))
    (role : ∀ l, (join l).role = .part) :
    Settles anyway [] (typeChain separator join member) fun a => standing .part (carried a) := by
  refine .skip fun start => .skip fun _ => .option .pure fun first => ?_
  refine .test (.part fun rest => ?_) .pure
  refine .finish (fun node => .pure fun _ => ?_) ?_
  · rw [role]
    exact .refl _
  · simp +contextual [places, or_imp]

instance {separator : Kind} {member : Parse Child} [Delivers member .part] :
    Delivers (typeChain separator .unionType member) .part :=
  ⟨settles_typeChain (fun l => by simp [Shape.places, Shape.slots]) fun _ => rfl⟩

instance {separator : Kind} {member : Parse Child} [Delivers member .part] :
    Delivers (typeChain separator .intersectionType member) .part :=
  ⟨settles_typeChain (fun l => by simp [Shape.places, Shape.slots]) fun _ => rfl⟩

/-- What the key of a property or member stands as. -/
def keyRole (computed : Bool) : Role := if computed then .part else .name

@[simp] theorem keyRole_true : keyRole true = .part := rfl

@[simp] theorem keyRole_false : keyRole false = .name := rfl

@[simp] theorem keyRole_eq_name {computed : Bool} :
    keyRole computed = .name ↔ computed = false := by
  cases computed <;> simp [keyRole]

@[simp] theorem keyRole_eq_part {computed : Bool} : keyRole computed = .part ↔ computed = true := by
  cases computed <;> simp [keyRole]

@[simp] theorem computed_or {computed : Bool} {p : Prop} :
    computed = false ∨ computed = true ∨ p := by
  cases computed <;> simp

theorem rearranges_key (nodes : List NodeId) (computed : Bool) :
    Rearranges (standing (keyRole computed) nodes) (standing .part nodes) := by
  cases computed
  · exact .names nodes .part
  · exact .refl _

section

variable {parse : Parser} [Attaches parse]

instance (goal : Goal) : Delivers (parse goal) .part := Attaches.delivers goal

instance : Delivers (typeAfterColon parse) .part where
  settles := .labelled (.test .last .pure)

instance : Delivers (typeOrPredicate parse) .part where
  settles := by
    refine .labelled ?_
    refine .skip fun start => .test (.skip fun _ => .skip fun parameter => ?_) (.test ?_ .last)
    · refine .skip fun is => .skip fun broken => ?_
      extract_lets after
      have rest (type : Child) : Settles anyway (standing .part (carried type)) (after type)
          fun a => standing .part (carried a) :=
        .finish fun node => .pure
      exact .ite (fun _ => .skip fun _ => .part fun type => by simpa using rest type)
        fun _ => .pureBind (rest none)
    · refine .skip fun parameter => .skip fun _ => .part fun type => ?_
      exact .finish fun node => .pure

instance : Delivers (returnTypeAfterColon parse) .part where
  settles := .labelled (.test .last .pure)

instance : Delivers (typeArguments parse) .part where
  settles := by
    refine .labelled ?_
    refine .skip fun opens => .ite (fun _ => ?_) fun _ => .pure
    exact .part fun arguments => .skip fun _ => .pure

instance : Idle (discard (typeArguments parse)) := by
  obtain ⟨n, rfl⟩ := ‹Attaches parse›.level
  exact idle_of_leavesOut (.typeArguments n) Delivers.settles

instance : Delivers (typeParameter parse) .typeParameter where
  settles := by
    refine .skip fun start => .skip fun _ => .option .pure fun name => ?_
    refine .test (.part fun constraint => ?_) (.pureBind ?_)
    all_goals refine .test (.part fun default => ?_) (.pureBind ?_)
    all_goals exact .finish fun node => .pure

instance : Delivers (typeParameters parse) .typeParameter where
  settles := .labelled (.test (.part fun params => .skip fun _ => .pure) .pure)

instance : Delivers (typeReference parse) .part where
  settles := by
    refine .labelled ?_
    refine .skip fun start => .option .pure fun name => .skip fun opens => .skip fun broken => ?_
    refine .ite (fun _ => .part fun arguments => ?_) fun _ => .pureBind ?_
    all_goals exact .finish fun node => .pure

theorem settles_propertyKey : Settles anyway [] (propertyKey parse) fun (key, computed) =>
    standing (keyRole computed) (carried key) := by
  refine .labelled ?_
  refine .skip fun k => ?_
  split
  · exact .skip fun _ => .part fun key => .skip fun _ => .pure
  · exact .part fun node => .pure
  · exact .part fun node => .pure
  · exact .part fun node => .pure
  · refine .skip fun start => .skip fun name => .skip fun _ => .finish fun node => .pure
  · exact .ite (fun _ => .part fun node => .pure) fun _ => .fault

theorem Parse.Settles.key {α : Type} {ok : α → Prop} {given : Places}
    {next : Child × Bool → Parse α} {post : α → Places}
    (missing : ∀ computed, Settles ok given (next (none, computed)) post)
    (found : ∀ key computed, Settles ok ((key, keyRole computed) :: given)
      (next (some key, computed)) post) :
    Settles ok given (propertyKey parse >>= next) post := by
  refine settles_propertyKey.bindWith given (.refl given) fun (key, computed) => ?_
  cases key with
  | none => exact missing computed
  | some key => exact found key computed

instance : Delivers (bindingElement parse) .part where
  settles := by
    refine .labelled ?_
    refine .skip fun start => .option .pure fun target => .test ?_ .pure
    exact .part fun right => .finish fun node => .pure

instance (start stop : Offset) (name : String) :
    Delivers (addNode start stop (.propertyName name)) .name :=
  ⟨settles_addNode [] (by simp) (by simp)⟩

instance (start stop : Offset) (name : String) :
    Delivers (addNode start stop (.identifier name)) .name :=
  ⟨settles_addNode [] (by simp) (by simp)⟩

instance : Delivers (bindingProperty parse) .part where
  settles := by
    refine .skip fun start => .test ?_ (.test ?_ ?_)
    · exact .part fun target => .finish fun node => .pure
    · refine .skip fun name => .skip fun stop => .skip fun _ => .skip fun key => ?_
      refine .part fun target => ?_
      refine .bindWith [] (settles_shorthandDefault start target) (.names [target] .part)
        fun value => ?_
      exact .finish fun node => .pure
    · refine .key (fun _ => .pure) fun key computed => .skip fun _ => ?_
      exact .part fun target => .finish fun node => .pure

instance : Delivers (objectPattern parse) .part where
  settles := by
    refine .labelled ?_
    refine .skip fun start => .skip fun _ => .part fun properties => .skip fun _ => ?_
    exact .finish fun node => .pure

instance : Delivers (bindingArrayElement parse) .part where
  settles := by
    refine .skip fun start => .test ?_ .last
    exact .part fun target => .finish fun node => .pure

instance : Delivers (arrayPattern parse) .part where
  settles := by
    refine .labelled ?_
    refine .skip fun start => .skip fun _ => .part fun elements => .skip fun _ => ?_
    exact .finish fun node => .pure

instance : Delivers (bindingTarget parse) .part where
  settles := by
    refine .skip fun k => ?_
    split
    · exact .last
    · exact .last
    · exact .last (.refl []) fun node => .names _ .part

instance : Idle (discard (parse .leftHandSide)) := by
  obtain ⟨n, rfl⟩ := ‹Attaches parse›.level
  exact idle_of_leavesOut (.decorator n) Delivers.settles

instance : Idle (decorators parse) :=
  .labelled (.iterate (fun _ => inferInstance) ())

instance : Delivers (parameterTarget parse) .part where
  settles := by
    refine .skip fun start => .skip fun k => ?_
    split
    · exact .skip fun _ => .finish fun node => .pure fun _ => .names [node] .part
    · exact .skip fun _ => .part fun target => .finish fun node => .pure
    · exact .last

instance : Delivers (parameter parse) .parameter where
  settles := by
    refine .labelled ?_
    refine .skip fun start => .skip fun _ => .skip fun _ => .skip fun targetStart => ?_
    refine .option .pure fun target => .skip fun isOptional => .part fun type => ?_
    refine .bindWith (standing .part (carried type))
      (settles_shorthandDefault targetStart target) (.of_mem ?_ ?_) fun pattern => ?_
    · simp +contextual [or_imp]
    · simp +contextual [or_imp]
    · exact .finish fun node => .pure

instance : Delivers (parameterList parse) .parameter where
  settles := by
    refine .labelled ?_
    refine .skip fun opens => .ite (fun _ => ?_) fun _ => .pure
    exact .part fun params => .skip fun _ => .pure

theorem settles_signature (key : Child) :
    Settles anyway (standing .part (carried key)) (signature parse key) Shape.signaturePlaces := by
  refine .labelled ?_
  refine .part fun typeParameters => .part fun params => .part fun returnType => ?_
  exact .pure

theorem Parse.Settles.signature {α : Type} {ok : α → Prop} {held : Places} {key : Child}
    (given : Places) {next : Syntax.Signature → Parse α} {post : α → Places}
    (h : ∀ s, s.key = key → Settles ok (Shape.signaturePlaces s ++ given) (next s) post)
    (gives : Rearranges held (standing .part (carried key) ++ given) := by exact .refl _) :
    Settles ok held (signature parse key >>= next) post :=
  (((settles_signature key).frame given).weaken (fun _ => id) gives fun _ _ => .refl _).bindKnown
    (fun _ => rfl) h

instance : Delivers (functionType parse) .part where
  settles := by
    refine .labelled ?_
    refine .skip fun isConstructor => .skip fun opens => .skip fun less => ?_
    refine .ite (fun _ => .attempt ?_ rfl) fun _ => .pure
    refine .skip fun start => .skip fun _ => .skip fun _ => .part fun typeParameters => ?_
    refine .test (.part fun params => .test (.part fun returnType => ?_) .refuse) .refuse
    exact .finish fun node => .pure

instance : Delivers (unionType parse) .part :=
  inferInstanceAs (Delivers (labelled _ (typeChain _ _ (labelled _ (typeChain _ _ _)))) .part)

instance : Delivers (typeBody parse) .part where
  settles := by
    refine .option (.skip fun start => .option .pure fun check => ?_) fun node => .pure
    refine .skip fun s => .skip fun extends_ => .skip fun broken => ?_
    refine .ite (fun _ => .pure) fun _ => .skip fun _ => .part fun bound => .skip fun _ => ?_
    refine .part fun whenTrue => .skip fun _ => .part fun whenFalse => ?_
    exact .finish fun node => .pure

instance : Delivers (inferBound parse) .part where
  settles := by
    refine .test ?_ .pure
    have bound : Settles anyway [] (attempt (advance >>= fun _ =>
        within disallowConditional (parse .type) >>= fun bound => atMark .question >>= fun asks =>
          if asks = true then pure none else pure (some bound)))
        fun bound => standing .part (carried bound) :=
      .attempt (.skip fun _ => .part fun bound => .test .refuse .pure) rfl
    refine bound.bind fun bound => ?_
    cases bound <;> exact .pure

instance : Delivers (typeQuery parse) .part where
  settles := by
    refine .labelled ?_
    refine .skip fun start => .skip fun _ => .skip fun name => .skip fun opens => ?_
    exact .skip fun broken => .skipIf (.finish fun node => .pure)

instance : Delivers (tupleElement parse) .part where
  settles := by
    refine .skip fun _ => .skip fun labelled => ?_
    extract_lets after
    have rest : Settles anyway [] (after ()) fun a => standing .part (carried a) :=
      .option .pure fun element => .skip fun _ => .pure
    refine .ite (fun _ => ?_) fun _ => rest
    exact .skip fun _ => .skip fun _ => .skip fun _ => .skip fun _ => rest

instance : Delivers (tupleType parse) .part where
  settles := by
    refine .labelled ?_
    refine .skip fun start => .skip fun _ => .part fun elements => .skip fun _ => ?_
    exact .finish fun node => .pure

instance : Delivers (mappedType parse) .part where
  settles := by
    refine .labelled ?_
    refine .skip fun start => .skip fun _ => .skip fun _ => .skip fun _ => .skip fun _ => ?_
    refine .skip fun parameterStart => .skip fun name => .skip fun _ => .part fun constraint => ?_
    refine .test (.part fun renamed => ?_) (.pureBind ?_)
    all_goals
      refine .finish fun parameter => .skip fun _ => .skip fun _ => .skip fun _ => ?_
      refine .part fun type => .skip fun _ => .skip fun _ => ?_
      exact .finish fun node => .pure

theorem settles_indexSignature (start : Offset) :
    Settles anyway [] (indexSignature parse start) fun a => standing .part (carried a) := by
  refine .labelled ?_
  refine .skip fun _ => .skip fun parameterStart => .part fun name => .part fun keyType => ?_
  refine .finish fun parameter => .skip fun _ => .part fun type => ?_
  exact .finish fun node => .pure

instance : Delivers (typeMember parse) .part where
  settles := by
    refine .labelled ?_
    refine .skip fun start => .skip fun isConstruct => .skipIf (.skip fun opens => .ite ?_ ?_)
    · intro _
      exact .signature [] fun s _ => .finish fun node => .pure
    intro _
    refine .skip fun isReadonly => .skipIf (.test (settles_indexSignature start) ?_)
    refine .skip fun isAccessor => .skipIf (.key (fun _ => .pure) fun key computed => ?_)
    refine .skip fun isOptional => .test ?_ ?_
    · exact .signature [] (fun s _ => .finish fun node => .pure) (rearranges_key [key] computed)
    · exact .part fun type => .finish fun node => .pure

instance : Delivers (typeMembers parse) .part where
  settles := by
    refine .labelled ?_
    refine .skip fun opens => .ite (fun _ => ?_) fun _ => .pure
    refine .collect .part (fun members => .test .pure ?_) fun members => .skip fun _ => .pure
    refine .skip fun start => .part fun member => ?_
    refine .skip fun separated => .skipUnless (.skip fun now => .skipIf ?_)
    cases member <;> exact .pure

instance {substitution : Parse Child} [Delivers substitution .part] :
    Delivers (templateParts substitution) .part where
  settles := by
    refine .skip fun head => .skip fun _ => ?_
    refine .collect .part (fun (quasis, nodes) => ?_) fun (quasis, nodes) => .pure
    refine .part fun node => .test (.skip fun _ => .skip fun text => .skip fun isTail => ?_) .fault
    refine .skip fun _ => ?_
    cases isTail <;> cases node <;> exact .pure

instance : Delivers wholeTemplate .template where
  settles := .skip fun start => .skip fun text => .skip fun _ => .finishAs

theorem settles_literalType (start : Offset) {literal : Parse NodeId} {role : Role}
    (h : Settles anyway [] literal fun node => [(node, role)])
    (fits : role = .name ∨ role = .template) :
    Settles anyway [] (literalType start literal) fun node => standing .part (carried node) := by
  refine h.bind fun node => .finish (fun node => .pure) fun x other mem => ?_
  obtain ⟨rfl, rfl⟩ : x = node ∧ other = role := by simpa using mem
  exact fits.imp_right fun same => by simp [Shape.places, same]

instance : Delivers (importedType parse) .part where
  settles := by
    refine .skip fun start => .skip fun _ => .skip fun _ => .skip fun _ => .skip fun _ => ?_
    have names : Idle (iterate () fun _ => optionalMark .dot >>= fun dotted =>
        if dotted = true then discard propertyName >>= fun _ => pure (Round.again ())
        else pure (Round.done ())) := .iterate (fun _ => inferInstance) ()
    refine .skip fun _ => .skip fun less => .skipIf ?_
    exact .finish fun node => .pure

instance : Delivers (namedType parse) .part where
  settles := by
    refine .skip fun start => .test (.skip fun text => .skip fun dotted => ?_) .fault
    exact .ite (fun _ => .skip fun _ => .finish fun node => .pure) fun _ => .last

instance : Delivers (primaryType parse) .part where
  settles := by
    refine .labelled ?_
    refine .skip fun start => .skip fun k => ?_
    split
    · exact .skip fun _ => .part fun inner => .skip fun _ => .pure
    · exact .test .last (.part fun members => .finish fun node => .pure)
    · exact .last
    · exact .last
    · exact settles_literalType start Delivers.settles (.inl rfl)
    · exact settles_literalType start Delivers.settles (.inl rfl)
    · exact settles_literalType start Delivers.settles (.inl rfl)
    · exact settles_literalType start Delivers.settles (.inl rfl)
    · exact settles_literalType start Delivers.settles (.inl rfl)
    · exact settles_literalType start Delivers.settles (.inr rfl)
    · refine settles_literalType start ?_ (.inr rfl)
      exact .part fun (quasis, nodes) => .finishAs
    · refine .test (settles_literalType start ?_ (.inl rfl)) .last
      exact .skip fun _ => .skip fun digits => .skip fun _ => .finishAs
    · exact .last
    · exact .last

instance : Delivers (postfixType parse) .part where
  settles := by
    refine .labelled ?_
    refine .skip fun start => .option .pure fun first => .iterate .part fun type => ?_
    refine .skip fun opens => .skip fun broken => .ite (fun _ => .skip fun _ => ?_) fun _ => .pure
    refine .test (.finish fun node => .pure) (.part fun index => .skip fun _ => ?_)
    exact .finish fun node => .pure

instance : Delivers (typeOperator parse) .part where
  settles := by
    refine .skip fun start => .skip fun k => .ite (fun _ => ?_) fun _ => .test ?_ (.test ?_ .last)
    · exact .skip fun _ => .part fun operand => .finish fun node => .pure
    · exact .skip fun _ => .last
    · refine .skip fun _ => .skip fun parameterStart => .skip fun name => .part fun bound => ?_
      exact .finish fun parameter => .finish fun node => .pure

end

end LoopCapture.Grammar
