import LoopCapture.Proofs.Grammar.Attachment.Expressions
import LoopCapture.Proofs.Grammar.Building.Statements

/-!
# Imports, exports and statements lose no node

The attributes of an import are left out.
-/

namespace LoopCapture.Grammar
open Text (Offset)
open Syntax (Child DeclarationWord NodeId Places Role Shape standing)
open Token (Kind)
open Parse

attribute [local simp] carried_nodes toList_eq_carried mem_carried mem_carried_array

instance {follows : Parse Bool} : Idle (atTypeOnly follows) := by
  unfold atTypeOnly
  infer_instance

instance : Delivers moduleExportName .name where
  settles := .test .last .last

instance {typeOnly : Bool} : Delivers (importSpecifier typeOnly) .name where
  settles := by
    refine .skip fun start => .skip fun own => .skip fun nameStart => .skip fun nameEnd => ?_
    refine .skip fun text => .option .pure fun imported => .skip fun renamed => ?_
    refine .ite (fun _ => .part fun target => ?_) fun _ => .part fun target => ?_
    all_goals exact .finish fun node => .pure

instance {typeOnly : Bool} : Delivers (importSpecifiers typeOnly) .name where
  settles := by
    refine .test ?_ (.test (.part fun list => .skip fun _ => .pure) .pure)
    refine .skip fun start => .skip fun _ => .skip fun _ => .skip fun target => ?_
    exact .finish fun node => .pure

instance : Delivers exportSpecifier .name where
  settles := by
    refine .skip fun start => .skip fun _ => .option .pure fun target => ?_
    refine .test (.part fun exported => ?_) (.pureBind ?_)
    all_goals exact .finish fun node => .pure

instance {specifier : NodeId} : Idle (referToLocal specifier) := by
  refine .mk (.skip fun shape => ?_)
  split
  · rename_i target _
    refine (Idle.of_preserves (fun s => ?_) fun s => ?_).settles
    · change s.nodes.Preserves (Parse.run (match s.nodes.shape? target with
        | some (.propertyName name) => reshape target (.identifier name)
        | _ => pure ()) s).2.nodes
      split
      · rename_i name is
        exact Syntax.NodeTable.preserves_reshape fun old was =>
          Option.some.inj (is.symm.trans was) ▸ ⟨rfl, rfl⟩
      · exact .refl _
    · change (Parse.run (match s.nodes.shape? target with
        | some (.propertyName name) => reshape target (.identifier name)
        | _ => pure ()) s).2.nodes.size = _
      split
      · exact Array.size_modify ..
      · rfl
  · exact .pure

variable {parse : Parser} [Attaches parse]

instance : Idle (discard (primary parse)) := by
  obtain ⟨n, rfl⟩ := ‹Attaches parse›.level
  exact idle_of_leavesOut (.attributes n) Delivers.settles

instance : Delivers (moduleSource parse) .name where
  settles := by
    refine .labelled (.test (.part fun source => ?_) .fault)
    refine .skip fun attributed => .skip fun broken => .ite (fun _ => ?_) fun _ => .pure
    exact .skip fun _ => .skip fun _ => .pure

theorem settles_importRest (start : Offset) (typeOnly : Bool) (first : List NodeId) :
    Settles anyway (standing .name first) (importRest parse start typeOnly first)
      fun node => [(node, .part)] := by
  refine .part fun others => .skip fun _ => .part fun source => .skip fun _ => ?_
  exact .finishAs

instance : Delivers (importDeclaration parse) .part where
  settles := by
    refine .labelled (.skip fun start => .skip fun _ => .skip fun typeOnly => ?_)
    refine .test (.part fun source => .skip fun _ => .finishAs) (.test ?_ ?_)
    · refine .skip fun targetStart => .part fun target => .test ?_ ?_
      · refine .part fun source => .skip fun _ => .finishBeside (standing .part (carried source)) ?_
        exact fun specifier => .finishAs
      · refine .finish fun specifier => .skip fun _ => ?_
        exact settles_importRest start typeOnly [specifier]
    · exact settles_importRest start typeOnly []

theorem settles_exportNames (start : Offset) (typeOnly : Bool) :
    Settles anyway [] (exportNames parse start typeOnly) fun node => [(node, .part)] := by
  refine .part fun specifiers => .skip fun _ => ?_
  have named : Idle (specifiers.forM referToLocal) := ⟨settles_forM fun _ => inferInstance⟩
  refine .test (.part fun source => .skip fun _ => .finishAs) (.skipUnless (.pureBind ?_))
  exact .skip fun _ => .finishAs

theorem settles_exportAll (start : Offset) :
    Settles anyway [] (exportAll parse start) fun node => [(node, .part)] := by
  refine .test (.part fun exported => ?_) (.pureBind ?_)
  all_goals exact .skip fun _ => .part fun source => .skip fun _ => .finishAs

instance : Delivers (typeAlias parse) .part where
  settles := by
    refine .labelled (.skip fun start => .skip fun _ => .part fun name => ?_)
    refine .part fun typeParameters => .skip fun _ => .part fun type => .skip fun _ => .finishAs

instance : Delivers (interface parse) .part where
  settles := by
    refine .labelled (.skip fun start => .skip fun _ => .part fun name => ?_)
    refine .part fun typeParameters => .test (.part fun bases => ?_) (.pureBind ?_)
    all_goals exact .part fun members => .finishAs

instance : Delivers (enumMember parse) .enumMember where
  settles := by
    refine .skip fun start => .key (fun _ => .pure) fun name computed => ?_
    refine .test (.part fun initializer => ?_) (.pureBind ?_)
    all_goals exact .finish fun node => .pure

theorem settles_enumeration (start : Offset) (isConst : Bool) :
    Settles anyway [] (enumeration parse start isConst) fun node => [(node, .part)] := by
  refine .labelled (.skip fun _ => .part fun name => .skip fun _ => .part fun members => ?_)
  exact .skip fun _ => .finishAs

instance : Delivers (defaultDeclaration parse) .part where
  settles := by
    refine .skip fun start => ?_
    extract_lets asExpression
    have expression : Settles anyway [] asExpression fun node => standing .part (carried node) :=
      .part fun node => .skip fun _ => .pure
    refine .skip fun k => ?_
    split
    · exact settles_functionDeclaration start false true
    · exact .test (.skip fun _ => settles_functionDeclaration start true true) expression
    · exact settles_classLike start true true
    · exact .test (.skip fun _ => settles_classLike start true true) expression
    · exact .test .last expression
    · exact expression

instance : Delivers (exportDeclaration parse) .part where
  settles := by
    refine .labelled (.skip fun start => .skip fun _ => .test ?_ (.test ?_ ?_))
    · exact .part fun node => .skip fun _ => .finishAs
    · exact .part fun declaration => .finishAs
    · refine .skip fun typeOnly => .test (settles_exportAll start) ?_
      refine .test (settles_exportNames start typeOnly) ?_
      exact .part fun declaration => .finishAs

instance : Delivers (parenthesized parse) .part where
  settles := .skip fun _ => .part fun node => .skip fun _ => .pure

instance : Delivers (declarator parse) .declarator where
  settles := by
    refine .skip fun start => .option .pure fun target => .skip fun _ => .part fun type => ?_
    refine .test (.part fun init => ?_) (.pureBind ?_)
    all_goals exact .finish fun node => .pure

theorem settles_variableDeclaration : Settles anyway [] (variableDeclaration parse)
    fun (_, declarators) => standing .declarator declarators := by
  refine .labelled (.skip fun k => ?_)
  extract_lets after
  have rest (word : DeclarationWord) : Settles anyway [] (after word)
      fun (_, declarators) => standing .declarator declarators :=
    .skip fun _ => .part fun declarators => .pure
  split
  all_goals first
    | exact .pureBind (rest _)
    | exact .skip fun _ => .pureBind (rest _)

instance : Delivers (variableStatement parse) .part where
  settles := by
    refine .labelled (.skip fun start => ?_)
    exact .bind (.within settles_variableDeclaration) fun (word, declarators) =>
      .skip fun _ => .finishAs

instance : Delivers (ifStatement parse) .part where
  settles := by
    refine .labelled (.skip fun start => .skip fun _ => .part fun test =>
      .part fun consequent => ?_)
    refine .test (.part fun alternate => ?_) (.pureBind ?_)
    all_goals exact .finishAs

instance : Delivers (forInit parse) .part where
  settles := by
    refine .test .pure (.skip fun declares => .ite (fun _ => .skip fun start => ?_) fun _ => .last)
    exact .bind (.within settles_variableDeclaration) fun (word, declarators) =>
      .finish fun node => .pure

theorem settles_forEachRest (start : Offset) (left : Child) (isAwait : Bool) :
    Settles anyway (standing .part (carried left)) (forEachRest parse start left isAwait)
      fun node => [(node, .part)] := by
  refine .skip fun overKeys => .skip fun _ => .skip fun shape => ?_
  extract_lets make after
  have rest : Settles anyway (standing .part (carried left)) (after ())
      fun node => [(node, .part)] := by
    have loop (right : Child) : Settles anyway (standing .part (carried right ++ carried left))
        (make right) fun node => [(node, .part)] := by
      refine .skip fun _ => .part fun body => ?_
      cases overKeys
      all_goals exact .finishAs
    refine .ite (fun _ => .part fun right => ?_) fun _ => .part fun right => ?_
    all_goals simpa using loop right
  split
  · exact rest
  · exact .skip fun _ => rest

instance {close : Kind} : Delivers (forPart parse close) .part where
  settles := .test .pure .last

instance : Delivers (forStatement parse) .part where
  settles := by
    refine .labelled (.skip fun start => .skip fun _ => .skip fun isAwait => .skip fun _ => ?_)
    refine .part fun init => .test ?_ (.skip fun _ => .part fun test => .skip fun _ => ?_)
    · simpa using settles_forEachRest start init isAwait
    · exact .part fun update => .skip fun _ => .part fun body => .finishAs

instance : Delivers (whileStatement parse) .part where
  settles := by
    refine .labelled (.skip fun start => .skip fun _ => .part fun test => .part fun body => ?_)
    exact .finishAs

instance : Delivers (doStatement parse) .part where
  settles := by
    refine .labelled (.skip fun start => .skip fun _ => .part fun body => .skip fun _ => ?_)
    exact .part fun test => .skip fun _ => .finishAs

theorem settles_caseTest : Settles anyway [] (caseTest parse)
    fun test => standing .part (test.elim [] carried) := by
  refine .test (.map (.last (.refl []) fun test => .refl _)) (.test .pure .pure)

theorem settles_switchCase (cases : Array NodeId) :
    Settles anyway (standing .switchCase (carried cases)) (switchCase parse cases)
      fun cases => standing .switchCase (carried cases) := by
  refine .skip fun start => settles_caseTest.bindWith _ (.refl _) fun test => ?_
  cases test with
  | none => exact .fault
  | some test =>
    refine .skip fun _ => .collect .part (fun statements => .test .pure ?_) fun statements => ?_
    · exact (settles_listedStatement statements).bind fun statements => .pure
    · exact .finishBeside (standing .switchCase (carried cases)) fun node => .pure

instance : Delivers (switchStatement parse) .part where
  settles := by
    refine .labelled (.skip fun start => .skip fun _ => .part fun discriminant => .skip fun _ => ?_)
    refine .collect .switchCase (fun cases => .test .pure ?_) fun cases => .skip fun _ => .finishAs
    exact (settles_switchCase cases).bind fun cases => .pure

instance : Delivers (catchClause parse) .part where
  settles := by
    refine .test (.skip fun start => .skip fun _ => ?_) .pure
    refine .test (.part fun param => .part fun type => .skip fun _ => .pureBind ?_) (.pureBind ?_)
    all_goals exact .part fun body => .finish fun node => .pure

instance : Delivers (tryStatement parse) .part where
  settles := by
    refine .labelled (.skip fun start => .skip fun _ => .part fun body => .part fun handler => ?_)
    refine .test (.part fun finalizer => ?_) (.pureBind ?_)
    all_goals exact .ite (fun _ => .fault) fun _ => .finishAs

instance : Delivers (withStatement parse) .part where
  settles := by
    refine .labelled (.skip fun start => .skip fun _ => .part fun object => .part fun body => ?_)
    exact .finishAs

instance : Delivers (returnStatement parse) .part where
  settles := by
    refine .labelled (.skip fun start => .skip fun _ => .skip fun ends => ?_)
    refine .ite (fun _ => .pureBind ?_) fun _ => .part fun argument => ?_
    all_goals exact .skip fun _ => .finishAs

instance : Delivers (throwStatement parse) .part where
  settles := by
    refine .labelled (.skip fun start => .skip fun _ => .part fun argument => .skip fun _ => ?_)
    exact .finishAs

instance : Delivers jumpLabel .name where
  settles := by
    refine .skip fun _ => .skip fun named => .skip fun broken => ?_
    refine .ite (fun _ => .part fun label => ?_) fun _ => .pureBind ?_
    all_goals exact .skip fun _ => .pure

instance : Delivers (labeledStatement parse) .part where
  settles := by
    refine .labelled (.skip fun start => .skip fun label => .skip fun _ => .part fun body => ?_)
    exact .finishAs

instance : Delivers (expressionStatement parse) .part where
  settles := by
    refine .labelled (.skip fun start => .option .fault fun node => .skip fun _ => ?_)
    exact .finish fun node => .pure

instance : Delivers (namespaceDeclaration parse) .part where
  settles := by
    have name : Idle (iterate () fun _ => atClose (.punctuator .openBrace) >>= fun closed =>
        if closed = true then pure (Round.done ())
        else advance >>= fun _ => pure (Round.again ())) := .iterate (fun _ => inferInstance) ()
    exact .labelled (.skip fun _ => .skip fun _ => .last)

instance : Delivers (plainStatement parse) .part where
  settles := by
    refine .skip fun namespaced => .ite (fun _ => .last) fun _ => .skip fun labels => ?_
    exact .ite (fun _ => .part fun node => .pure) fun _ => .last

theorem settles_statementIf {condition : Parse Bool} {statement : Parse Child} [Idle condition]
    (h : Settles anyway [] statement fun node => standing .part (carried node)) :
    Settles anyway [] (statementIf parse condition statement)
      fun node => standing .part (carried node) :=
  .skip fun holds => .ite (fun _ => h) fun _ => .last

instance : Delivers (statementBody parse) .part where
  settles := by
    refine .skip fun start => .skip fun k => ?_
    split
    case h_2 => exact .skip fun _ => .finish fun node => .pure
    case h_3 => exact .skip fun _ => .last
    case h_5 =>
      refine .test (.skip fun _ => ?_) .last
      exact (settles_enumeration start true).bind fun node => .pure
    case h_10 =>
      exact settles_statementIf (.skip fun _ => settles_functionDeclaration start true false)
    case h_12 => exact settles_statementIf (.skip fun _ => settles_classLike start true false)
    case h_19 | h_20 => exact .skip fun label => .finish fun node => .pure
    case h_23 => exact .skip fun _ => .skip fun _ => .finish fun node => .pure
    case h_29 =>
      exact settles_statementIf ((settles_enumeration start false).bind fun node => .pure)
    case h_30 => exact settles_statementIf (.skip fun _ => .last)
    all_goals first
      | exact .last
      | exact settles_statementIf .last
      | exact settles_functionDeclaration start false false
      | exact settles_classLike start true false

instance : Delivers (topLevelStatements parse) .part where
  settles := by
    refine .labelled (.collect .part (fun statements => .test .pure (.test .fault ?_))
      fun statements => .pure)
    exact (settles_listedStatement statements).bind fun statements => .pure

theorem delivers_goalStep (goal : Goal) : Delivers (goalStep parse goal) .part := by
  cases goal <;> simp only [goalStep] <;> infer_instance

omit [Attaches parse] in
theorem attaches_parseUpTo (n : Nat) : Attaches (parseUpTo n) := by
  refine ⟨⟨n, rfl⟩, fun goal => ?_⟩
  induction n generalizing goal with
  | zero => exact ⟨.labelled .pure⟩
  | succ n ih =>
    have inner : Attaches (parseUpTo n) := ⟨⟨n, rfl⟩, ih⟩
    exact ⟨(delivers_goalStep goal).settles.labelled⟩

end LoopCapture.Grammar
