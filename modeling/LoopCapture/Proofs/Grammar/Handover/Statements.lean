import LoopCapture.Grammar.SourceFile
import LoopCapture.Proofs.Grammar.Handover.Modules
import LoopCapture.Proofs.Syntax.Rooted

/-!
# Statements hand nodes over

No goal takes any node that it is not handed by its own parts. So whatever the text, valid or not,
the table of nodes that a parse leaves is in order, parents have larger places than their children,
and the nodes below the root form a tree.
-/

namespace LoopCapture.Grammar
open Syntax (Child NodeId Shape DeclarationWord Within)
open Token (Kind)
open Parse

instance : Quiet atLetDeclaration := by
  unfold atLetDeclaration
  infer_instance

instance : Quiet atUsingDeclaration := by
  unfold atUsingDeclaration
  infer_instance

theorem takes_atAwaitUsingDeclaration : Takes [] atAwaitUsingDeclaration := by
  refine takes_nextOnSameLine (.skip fun _ => .ite ?_ (by simp))
  simp

theorem takes_atForDeclaration : Takes [] atForDeclaration := by
  refine .skip fun k => ?_
  split
  all_goals first | exact takes_atAwaitUsingDeclaration | simp

instance : Quiet atNamespaceWord := by
  unfold atNamespaceWord
  infer_instance

theorem takes_skipDottedName : Takes [] skipDottedName :=
  takes_iterate (fun _ => by simp) ()

theorem takes_atNamespace : Takes [] atNamespace := by
  refine .and takes_test (takes_nextOnSameLine ?_)
  refine .skip fun _ => .ite (by simp) (.skip fun _ => .ite ?_ (by simp))
  exact takes_skipDottedName.bind fun _ => by simp

theorem takes_atDeclarationStart : Takes [] atDeclarationStart := by
  refine .skip fun k => ?_
  split <;> simp

theorem takes_jumpLabel : Takes [] jumpLabel := by
  unfold jumpLabel
  refine .skip fun _ => .skip fun _ => .skip fun _ => ?_
  extract_lets after
  have rest (label : Child) : Takes (carried label) (after label) := by simp [after]
  exact .ite (takes_propertyName.bind rest) (rest none)

variable {parse : Parser} (parts : ∀ goal, Takes [] (parse goal))

include parts

theorem takes_parenthesized : Takes [] (parenthesized parse) := by
  simp [parenthesized]
  exact (takes_expression parts).within.bind fun node => by simp

theorem takes_declarator : Takes [] (declarator parse) := by
  unfold declarator
  refine .skip fun start => (parts _).bindOption (by simp) fun target => .skip fun _ => ?_
  refine (takes_typeAfterColon parts).bind fun type => ?_
  exact .bindIf (parts _) (by simp) fun init => by simp

theorem takes_variableDeclaration : Takes [] (variableDeclaration parse) := by
  unfold variableDeclaration
  refine takes_labelled.mpr ?_
  refine .skip fun k => ?_
  extract_lets after
  have rest (word : DeclarationWord) : Takes [] (after word) :=
    .skip fun _ => (takes_separated (takes_declarator parts)).bind fun declarators => by simp
  split
  all_goals exact rest _

theorem takes_variableStatement : Takes [] (variableStatement parse) := by
  simp [variableStatement]
  exact fun start => (takes_variableDeclaration parts).within.bind
    fun (word, declarators) => by simp

theorem takes_ifStatement : Takes [] (ifStatement parse) := by
  unfold ifStatement
  refine takes_labelled.mpr ?_
  refine .skip fun start => .skip fun _ => (takes_parenthesized parts).bind fun test => ?_
  refine (parts _).bind fun consequent => ?_
  exact .bindIf (parts _) (by simp) fun alternate => by simp

theorem takes_forInit : Takes [] (forInit parse) := by
  unfold forInit
  refine .skip fun _ => .ite (by simp) (takes_atForDeclaration.bind fun _ => .ite ?_ ?_)
  · exact .skip fun start => (takes_variableDeclaration parts).within.bind
      fun (word, declarators) => by simp
  · exact (takes_expression parts).within

theorem takes_forEachRest (start : Text.Offset) (left : Child) (isAwait : Bool) :
    Takes (carried left) (forEachRest parse start left isAwait) := by
  unfold forEachRest
  refine .skip fun overKeys => .skip fun _ => .skip fun shape => ?_
  extract_lets make after
  have made (right : Child) : Takes (carried left ++ carried right) (make right) := by
    refine .skip fun _ => (parts _).bind fun body => ?_
    cases overKeys <;> simp
  have rest : Takes (carried left) (after ()) :=
    .ite ((takes_expression parts).within.bind made) ((parts _).within.bind made)
  split
  · exact rest
  · exact .skip fun _ => rest

theorem takes_forPart (close : Kind) : Takes [] (forPart parse close) :=
  .skip fun _ => .ite (by simp) (takes_expression parts).within

theorem takes_forStatement : Takes [] (forStatement parse) := by
  unfold forStatement
  refine takes_labelled.mpr ?_
  refine .skip fun start => .skip fun _ => .skip fun isAwait => .skip fun _ => ?_
  refine (takes_forInit parts).bind fun init => .skip fun _ => .ite ?_ (.skip fun _ => ?_)
  · exact takes_forEachRest parts start init isAwait
  · refine (takes_forPart parts _).bind fun test => .skip fun _ => ?_
    refine (takes_forPart parts _).bind fun update => .skip fun _ => ?_
    exact (parts _).bind fun body => by simp

theorem takes_whileStatement : Takes [] (whileStatement parse) := by
  simp [whileStatement]
  refine fun start => (takes_parenthesized parts).bind fun test => ?_
  exact (parts _).bind fun body => by simp

theorem takes_doStatement : Takes [] (doStatement parse) := by
  simp [doStatement]
  refine fun start => (parts _).bind fun body => .skip fun _ => ?_
  exact (takes_parenthesized parts).bind fun test => by simp

theorem takes_caseTest : Takes [] (caseTest parse) := by
  unfold caseTest
  exact .skip fun _ => .ite (takes_expression parts).within.map_some (by simp)

theorem takes_switchCase (cases : Array NodeId) :
    Takes (carried cases) (switchCase parse cases) := by
  unfold switchCase
  refine .skip fun start => (takes_caseTest parts).bindOption (by simp) fun test => ?_
  refine .skip fun _ => Takes.bind (takes_iterate (fun statements => ?_) #[]) fun statements => ?_
  · refine .skip fun _ => .ite (by simp) ?_
    exact (takes_listedStatement parts statements).bindWith [] (by simp)
      fun statements => by simp
  · refine takes_finish_bind (carried cases) ?_ fun node => by simp
    simp
    grind [Within]

theorem takes_switchStatement : Takes [] (switchStatement parse) := by
  simp [switchStatement]
  refine fun start => (takes_parenthesized parts).bind fun discriminant => .skip fun _ => ?_
  refine Takes.bind (takes_iterate (fun cases => ?_) #[]) fun cases => by simp
  simp
  exact (takes_switchCase parts cases).bindWith [] (by simp) fun cases => by simp

theorem takes_catchClause : Takes [] (catchClause parse) := by
  unfold catchClause
  refine .skip fun _ => .ite (.skip fun start => .skip fun _ => .skip fun _ => ?_) (by simp)
  extract_lets after
  have rest (param type : Child) : Takes (carried param ++ carried type) (after (param, type)) :=
    (takes_block parts).bind fun body => by simp
  refine .ite ((parts _).bind fun param => ?_) (by simpa using rest none none)
  refine (takes_typeAfterColon parts).bind fun type => .skip fun _ => ?_
  exact rest param type

theorem takes_tryStatement : Takes [] (tryStatement parse) := by
  unfold tryStatement
  refine takes_labelled.mpr ?_
  refine .skip fun start => .skip fun _ => (takes_block parts).bind fun body => ?_
  refine (takes_catchClause parts).bind fun handler => ?_
  refine .bindIf (takes_block parts) (by simp) fun finalizer => .skipWhen ?_
  simp

theorem takes_withStatement : Takes [] (withStatement parse) := by
  simp [withStatement]
  refine fun start => (takes_parenthesized parts).bind fun object => ?_
  exact (parts _).bind fun body => by simp

theorem takes_returnStatement : Takes [] (returnStatement parse) := by
  unfold returnStatement
  refine takes_labelled.mpr ?_
  refine .skip fun start => .skip fun _ => ?_
  exact .bindIf (by simp) (takes_expression parts).within fun argument => by simp

theorem takes_throwStatement : Takes [] (throwStatement parse) := by
  simp [throwStatement]
  exact fun start => (takes_expression parts).within.bind fun argument => by simp

theorem takes_labeledStatement : Takes [] (labeledStatement parse) := by
  unfold labeledStatement
  refine takes_labelled.mpr ?_
  refine .skip fun start => takes_propertyName.bind fun label => .skip fun _ => ?_
  exact (parts _).bind fun body => by simp

theorem takes_expressionStatement : Takes [] (expressionStatement parse) := by
  unfold expressionStatement
  refine takes_labelled.mpr ?_
  exact .skip fun start => (takes_expression parts).within.bindOption (by simp)
    fun node => by simp

theorem takes_namespaceDeclaration : Takes [] (namespaceDeclaration parse) := by
  unfold namespaceDeclaration
  refine takes_labelled.mpr ?_
  refine .skip fun _ => Takes.bind (takes_iterate (fun _ => by simp) ()) fun _ => ?_
  exact takes_block parts

theorem takes_plainStatement : Takes [] (plainStatement parse) := by
  unfold plainStatement
  refine takes_atNamespace.bind fun _ => .ite (takes_namespaceDeclaration parts) ?_
  refine .skip fun _ => .ite ?_ (takes_expressionStatement parts)
  exact (takes_labeledStatement parts).bind fun node => by simp

theorem takes_statementIf {condition : Parse Bool} {statement : Parse Child}
    (h : Takes [] condition) (h' : Takes [] statement) :
    Takes [] (statementIf parse condition statement) :=
  h.bind fun _ => .ite (by simpa using h') (by simpa using takes_plainStatement parts)

theorem takes_statementBody : Takes [] (statementBody parse) := by
  unfold statementBody
  refine .skip fun start => .skip fun k => ?_
  split
  · exact takes_block parts
  · simp
  · exact (takes_decorators parts).bind fun _ => parts _
  · exact (takes_variableStatement parts).bind fun node => by simp
  · refine .skip fun _ => .ite (.skip fun _ => ?_) ?_
    · exact (takes_enumeration parts start true).bind fun node => by simp
    · exact (takes_variableStatement parts).bind fun node => by simp
  · refine takes_statementIf parts (by simp) ?_
    exact (takes_variableStatement parts).bind fun node => by simp
  · refine takes_statementIf parts (by simp) ?_
    exact (takes_variableStatement parts).bind fun node => by simp
  · refine takes_statementIf parts takes_atAwaitUsingDeclaration ?_
    exact (takes_variableStatement parts).bind fun node => by simp
  · exact takes_functionDeclaration parts start false false
  · refine takes_statementIf parts (by simp) (.skip fun _ => ?_)
    exact takes_functionDeclaration parts start true false
  · exact takes_classLike parts start true false
  · refine takes_statementIf parts (by simp) (.skip fun _ => ?_)
    exact takes_classLike parts start true false
  · exact (takes_ifStatement parts).bind fun node => by simp
  · exact (takes_forStatement parts).bind fun node => by simp
  · exact (takes_whileStatement parts).bind fun node => by simp
  · exact (takes_doStatement parts).bind fun node => by simp
  · exact (takes_returnStatement parts).bind fun node => by simp
  · exact (takes_throwStatement parts).bind fun node => by simp
  · exact takes_jumpLabel.bind fun label => by simp
  · exact takes_jumpLabel.bind fun label => by simp
  · exact (takes_switchStatement parts).bind fun node => by simp
  · exact (takes_tryStatement parts).bind fun node => by simp
  · simp
  · exact (takes_withStatement parts).bind fun node => by simp
  · refine takes_statementIf parts (by simp) ?_
    exact (takes_importDeclaration parts).bind fun node => by simp
  · exact (takes_exportDeclaration parts).bind fun node => by simp
  · refine takes_statementIf parts (by simp) ?_
    exact (takes_typeAlias parts).bind fun node => by simp
  · refine takes_statementIf parts (by simp) ?_
    exact (takes_interface parts).bind fun node => by simp
  · refine takes_statementIf parts (by simp) ?_
    exact (takes_enumeration parts start false).bind fun node => by simp
  · refine takes_statementIf parts (takes_nextOnSameLine takes_atDeclarationStart) ?_
    exact .skip fun _ => parts _
  · exact takes_plainStatement parts

theorem takes_goalStep (goal : Goal) : Takes [] (goalStep parse goal) := by
  cases goal with
  | statement => exact takes_guarded (takes_statementBody parts)
  | statementBody => exact takes_statementBody parts
  | assignment => exact takes_guarded (takes_assignmentBody parts)
  | binary above => exact takes_binaryBody parts above
  | unary => exact takes_guarded (takes_unaryBody parts)
  | leftHandSide => exact takes_leftHandSideBody parts
  | creation => exact takes_creationBody parts
  | bindingTarget => exact takes_bindingTarget parts
  | type => exact takes_guarded (takes_typeBody parts)
  | typeOperator => exact takes_typeOperator parts

theorem takes_topLevelStatements : Takes [] (topLevelStatements parse) := by
  refine takes_labelled.mpr ?_
  refine (takes_iterate (fun statements => ?_) #[]).bind fun statements => by simp
  refine .skip fun _ => .ite (by simp) (.skip fun _ => .ite (by simp) ?_)
  exact (takes_listedStatement parts statements).bindWith [] (by simp)
    fun statements => by simp

omit parts

theorem takes_parseUpTo (n : Nat) (goal : Goal) : Takes [] (parseUpTo n goal) := by
  induction n generalizing goal with
  | zero => exact takes_labelled.mpr (by simp)
  | succ n ih => exact takes_labelled.mpr (takes_goalStep ih goal)

theorem takes_sourceFile : Takes [] sourceFile := by
  refine .skip fun _ => .skip fun s => ?_
  exact (takes_topLevelStatements (takes_parseUpTo _)).bind fun statements => by simp

theorem spends_sourceFile : sourceFile.Spends [] fun root left => Syntax.Within [root] left :=
  takes_sourceFile [] [] _ (by simp) fun root left fits => by simpa using fits

/-- In a parsed table children precede parents, no node is stored twice, and the root is nobody's
child. -/
theorem owned_parseText (text : List Char) :
    (parseText text).tree.nodes.Owned [(parseText text).tree.root] := by
  obtain ⟨rest, fits, owned, -⟩ :=
    spends_sourceFile.sound (s := .ofText text) Syntax.NodeTable.owned_empty
  exact owned.drop fits

theorem root_lt_parseText (text : List Char) :
    (parseText text).tree.root < (parseText text).tree.nodes.size :=
  (owned_parseText text).lt_size List.mem_cons_self

/-- Whoever is a parent in a parsed tree has a larger place than the child, and is a node. -/
theorem lt_parent_parseText (text : List Char) {x y : NodeId}
    (parent : (parseText text).tree.parent x = some y) :
    x < y ∧ y < (parseText text).tree.nodes.size :=
  ⟨Syntax.Tree.lt_of_parent (owned_parseText text) parent, Syntax.Tree.parent_lt_size parent⟩

/-- Whatever the text, what is reached from its root is a tree with one place for each node, and the
links lead from the nodes of that tree to their parents. -/
theorem isRooted_parseText (text : List Char) : (parseText text).tree.IsRooted :=
  Syntax.Tree.isRooted_ofTable (owned_parseText text)

end LoopCapture.Grammar
