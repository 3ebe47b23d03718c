import LoopCapture.Proofs.Grammar.Building.Statements
import LoopCapture.Proofs.Grammar.Progress.Modules

/-!
# Statements move on
-/

namespace LoopCapture.Grammar
open Text (Offset)
open Syntax (Child NodeId DeclarationWord)
open Token (Kind Scanner)
open Parse

variable {parse : Parser} {bound : Nat}

instance : Walks atLetDeclaration := by
  unfold atLetDeclaration
  infer_instance

instance : Walks atUsingDeclaration := by
  unfold atUsingDeclaration
  infer_instance

instance : Walks atAwaitUsingDeclaration := by
  unfold atAwaitUsingDeclaration
  infer_instance

instance : Walks atForDeclaration := by
  refine .bind fun k => ?_
  split <;> infer_instance

instance : Walks atNamespaceWord := by
  unfold atNamespaceWord
  infer_instance

/-- Parts of a name with dots are skipped in pairs of tokens. -/
instance : Walks skipDottedName := by
  refine .of_paces (.iterate fun _ => .skip fun _ => ?_)
  exact .test (.take .free) .pure

instance : Walks atNamespace := by
  unfold atNamespace
  infer_instance

/-- A namespace begins with a name. -/
instance : Tells atNamespace fun yes s => yes = true → s.kind.isName = true where
  tells s yes := by
    have word : (atNamespaceWord.run s).1 = true := by
      rw [atNamespace, run_and, Bool.and_eq_true] at yes
      exact yes.1
    have named := Tells.tells (p := atNameText "namespace" <||> atNameText "module" <||>
      atNameText "global") s
    change ((atNameText "namespace" <||> atNameText "module" <||> atNameText "global").run s).1 =
      true at word
    grind

instance : Walks atDeclarationStart := by
  refine .bind fun k => ?_
  split <;> infer_instance

instance : Walks jumpLabel := by
  unfold jumpLabel
  dsimp only
  infer_instance

theorem paces_propertyName_atWord :
    Paces parse bound (fun s => s.kind.isWord = true) propertyName always := by
  refine .test (.look fun start => .look fun name => ?_) (.absurd ?_)
  · exact .take .free
  · grind

instance : Advances parse (parenthesized parse) (Routine.expression.ctorIdx + 2) anywhere where
  paces := .skip fun _ => .part (by decide) fun node => .skip fun _ => .pure

instance : Advances parse (declarator parse) (Routine.assignment.ctorIdx + 2) anywhere where
  paces := by
    refine .look fun start => .option (by decide) .pure fun target => ?_
    refine .skip fun _ => .part (by decide) fun type => ?_
    dsimp only
    exact .ifOptional .free (.pureBind (.last (by decide)))

instance : Advances parse (variableDeclaration parse) (Routine.variableDeclaration.ctorIdx + 2)
    anywhere := by
  refine .routine (.look fun k => ?_)
  extract_lets after
  have rest {now : Scanner → Prop} (word : DeclarationWord) :
      Paces parse (Routine.variableDeclaration.ctorIdx + 1) now (after word) never :=
    .skip fun _ => .part (by decide) fun declarators => .pure
  split
  · exact .pureBind (rest _)
  · exact .pureBind (rest _)
  · exact .pureBind (rest _)
  · exact .skip fun _ => .pureBind (rest _)
  · exact .pureBind (rest _)

instance : Advances parse (variableStatement parse) (Routine.variableStatement.ctorIdx + 2)
    anywhere :=
  .routine (.look fun start => .part (by decide) fun (word, declarators) =>
    .skip fun _ => .last (by decide))

instance : Advances parse (ifStatement parse) (Routine.ifStatement.ctorIdx + 2) atToken := by
  refine .routine ?_
  refine .look fun start => .take ?_
  refine .part (by decide) fun test => .part (by decide) fun consequent => ?_
  dsimp only
  exact .free

instance : Advances parse (forInit parse) (Routine.variableDeclaration.ctorIdx + 2) anywhere where
  paces := by
    refine .test .pure (.skip fun declares => .ite (fun _ => ?_) fun _ => .last (by decide))
    exact .skip fun start => .part (by decide) fun (word, declarators) => .last (by decide)

instance {start : Offset} {left : Child} {isAwait : Bool} :
    Roams parse (forEachRest parse start left isAwait) where
  paces := by
    refine .skip fun overKeys => .skip fun _ => .skip fun shape => ?_
    extract_lets make after
    have rest : Paces parse allRoutines anywhere (after ()) never := by
      simp only [after, make]
      exact .free
    split
    · exact rest
    · exact .skip fun _ => rest

instance {close : Kind} : Roams parse (forPart parse close) := by
  unfold forPart
  infer_instance

instance : Advances parse (forStatement parse) (Routine.forStatement.ctorIdx + 2) atToken := by
  refine .routine ?_
  refine .look fun start => .take (.skip fun isAwait => .skip fun _ => .roam fun init => ?_)
  refine .skip fun forEach => .ite (fun _ => .free) fun _ => ?_
  exact .skip fun _ => .roam fun test => .skip fun _ => .roam fun update => .free

instance : Advances parse (whileStatement parse) (Routine.whileStatement.ctorIdx + 2)
    atToken := by
  refine .routine ?_
  exact .look fun start => .take .free

instance : Advances parse (doStatement parse) (Routine.doStatement.ctorIdx + 2) atToken := by
  refine .routine ?_
  exact .look fun start => .take .free

theorem paces_caseTest : Paces parse 0 anywhere (caseTest parse) fun test =>
    test.isSome = true := by
  refine .ifOptional .free (.ifOptional .pure (.pure ?_))
  simp

theorem paces_switchCase (cases : Array NodeId) :
    Paces parse allRoutines atToken (switchCase parse cases) always := by
  refine .look fun start => ?_
  refine (paces_caseTest.weaken (Nat.zero_le _) (fun _ _ => trivial) fun _ => id).bind ?_ ?_
  · intro test fails
    obtain rfl : test = none := by simpa using fails
    refine .partSince (by decide) (fun _ _ => trivial) (fun statement => ?_) fun statement => .free
    exact .take .pure fun s is => is.atToken fun s since => since.atToken
  · intro test
    refine ⟨allRoutines, ?_⟩
    cases test with
    | none => exact .free
    | some test =>
      refine .skip fun _ => .bindAnywhere (.iterate fun statements => .test .pure ?_) fun
        statements => .free
      exact (paces_listedStatement statements).bindLater (by decide) (by grind) fun _ => .pure

instance : Advances parse (switchStatement parse) (Routine.switchStatement.ctorIdx + 2)
    atToken := by
  refine .routine ?_
  refine .look fun start => .take (.part (by decide) fun discriminant => .skip fun _ => ?_)
  refine .bindAnywhere (.iterate fun cases => .test .pure ?_) fun cases => .free
  exact (paces_switchCase cases).bindLater (by decide) (by grind) fun _ => .pure

instance : Roams parse (catchClause parse) where
  paces := by
    refine .test (.look fun start => .take ?_) .pure
    dsimp only
    exact .ifOptional (.roam fun param => .roam fun type => .skip fun _ => .pureBind .free)
      (.pureBind (.roam fun body => .free))

instance : Advances parse (tryStatement parse) (Routine.tryStatement.ctorIdx + 2) atToken := by
  refine .routine ?_
  refine .look fun start => .take ?_
  dsimp only
  exact .free

instance : Advances parse (withStatement parse) (Routine.withStatement.ctorIdx + 2) atToken := by
  refine .routine ?_
  exact .look fun start => .take .free

instance : Advances parse (returnStatement parse) (Routine.returnStatement.ctorIdx + 2)
    atToken := by
  refine .routine ?_
  refine .look fun start => .take ?_
  dsimp only
  exact .free

instance : Advances parse (throwStatement parse) (Routine.throwStatement.ctorIdx + 2)
    atToken := by
  refine .routine ?_
  exact .look fun start => .take .free

instance : Advances parse (labeledStatement parse) (Routine.labeledStatement.ctorIdx + 2)
    fun s => s.kind.isWord = true := by
  refine .routine ?_
  refine .look fun start => ?_
  exact paces_propertyName_atWord.bindLater (Nat.le_refl _) (fun s known => known.1) fun label =>
    .free

instance : Advances parse (expressionStatement parse) (Routine.expressionStatement.ctorIdx + 2)
    anywhere := by
  refine .routine (.look fun start => .option (by decide) (.skip fun _ => .pure) fun node => ?_)
  exact .skip fun _ => .last (by decide)

instance : Advances parse (namespaceDeclaration parse) (Routine.namespaceDeclaration.ctorIdx + 2)
    atToken := by
  refine .routine ?_
  refine .take (.bindAnywhere (.iterate fun _ => .test .pure ?_) fun _ => .free)
  exact .take .free

instance : Advances parse (plainStatement parse) (Routine.namespaceDeclaration.ctorIdx + 2)
    anywhere where
  paces := by
    refine .test ?_ (.test ?_ (.last (by decide)))
    · exact .lastAt (by decide) fun s known => by grind
    · exact .partAt (by decide) (fun s known => isWord_of_isName (by grind)) fun node => .pure

theorem paces_statementIf {now : Scanner → Prop} {condition : Parse Bool} {statement : Parse Child}
    [Still condition] [Walks condition]
    (h : Paces parse (Routine.statementBody.ctorIdx + 1) now statement never) :
    Paces parse (Routine.statementBody.ctorIdx + 1) now (statementIf parse condition statement)
      never := by
  refine .look fun holds => .ite (fun _ => ?_) fun _ => .last (by decide)
  exact h.weaken (Nat.le_refl _) (fun s known => known.1) fun _ => id

instance : Advances parse (statementBody parse) (Routine.statementBody.ctorIdx + 1) anywhere where
  paces := by
    refine .look fun start => .look fun k => ?_
    split
    case h_1 => exact paces_block_atBrace.weaken (by decide) (by grind) fun _ => id
    case h_3 => exact paces_decorators_atSign.bindLater (by decide) (by grind) fun _ => .free
    all_goals first
      | exact .last (by decide)
      | exact .lastAt (by decide) (by grind)
      | exact .test (.skip fun _ => .last (by decide)) (.last (by decide))
      | exact paces_statementIf (.lastAt (by decide) (by grind))
      | exact paces_statementIf (.take .free)

instance : Advances parse (topLevelStatements parse) (Routine.topLevelStatements.ctorIdx + 2)
    anywhere := by
  refine .routine (.bindAnywhere (.iterate fun statements => .test .pure (.test ?_ ?_)) fun
    statements => .pure)
  · refine .partSince (by decide) (fun _ _ => trivial) (fun statement => ?_) fun statement => .free
    exact .take .pure fun s is => is.atToken
  · exact (paces_listedStatement statements).bindLater (by decide) (by grind) fun _ => .pure

theorem paces_goalStep (goal : Goal) : Paces parse (goal.routine.ctorIdx + 1) (Suits goal)
    (goalStep parse goal) never := by
  cases goal <;> simp only [goalStep]
  case statement | assignment | unary | type => exact .guarded (.last (by decide))
  case binary above => exact .last (Nat.le_refl _)
  case creation => exact .lastAt (by decide) fun _ => id
  all_goals exact .last (by decide)

end LoopCapture.Grammar
