import LoopCapture.Proofs.Grammar.Building.Modules
import LoopCapture.Proofs.Grammar.Progress.Expressions

/-!
# Imports and exports move on
-/

namespace LoopCapture.Grammar
open Text (Offset)
open Syntax (Child NodeId)
open Token (Scanner)
open Parse

variable {parse : Parser} {bound : Nat}

instance {follows : Parse Bool} [Walks follows] : Walks (atTypeOnly follows) := by
  unfold atTypeOnly
  infer_instance

theorem Parse.Walks.option {α β : Type} {p : Parse (Option α)} {next : Option α → Parse β}
    [Walks p] (missing : Walks (next none)) (found : ∀ a, Walks (next (some a))) :
    Walks (p >>= next) :=
  .bind fun a? => by
    cases a? with
    | none => exact missing
    | some a => exact found a

instance : Walks moduleExportName := by
  unfold moduleExportName
  infer_instance

instance {typeOnly : Bool} : Walks (importSpecifier typeOnly) := by
  refine .bind fun start => .bind fun own => .bind fun nameStart => .bind fun nameEnd => ?_
  refine .bind fun text => .option inferInstance fun imported => ?_
  dsimp only
  infer_instance

instance {typeOnly : Bool} : Advances parse (importSpecifiers typeOnly) 0 anywhere where
  paces := by
    refine .test ?_ (.ifOptional .free .pure)
    exact .skip fun start => .skip fun _ => .skip fun _ => .skip fun target => .last (by decide)

instance : Walks exportSpecifier := by
  refine .bind fun start => .bind fun _ => .option inferInstance fun target => ?_
  dsimp only
  infer_instance

instance {α : Type} {step : α → Parse Unit} [∀ a, Walks (step a)] {items : List α} :
    Walks (items.forM step) := by
  induction items with
  | nil => exact inferInstanceAs (Walks (pure ()))
  | cons a rest ih => exact .bind fun _ => ih

instance {specifier : NodeId} : Walks (referToLocal specifier) := by
  refine .bind fun shape => ?_
  split
  · refine .bind fun shape => ?_
    split <;> infer_instance
  · infer_instance

instance : Advances parse (moduleSource parse) (Routine.moduleSource.ctorIdx + 2) anywhere := by
  refine .routine (.test ?_ (.skip fun _ => .pure))
  refine .skip fun source => .skip fun attributed => .skip fun broken => ?_
  exact .ite (fun _ => .skip fun _ => .part (by decide) fun _ => .pure) fun _ => .pure

instance {start : Offset} {typeOnly : Bool} {first : List NodeId} :
    Advances parse (importRest parse start typeOnly first) (Routine.moduleSource.ctorIdx + 2)
      anywhere where
  paces := .part (by decide) fun others => .skip fun _ => .part (by decide) fun source =>
    .last (by decide)

instance : Advances parse (importDeclaration parse) (Routine.importDeclaration.ctorIdx + 2)
    anywhere := by
  refine .routine (.look fun start => .skip fun _ => .skip fun typeOnly => .test ?_ (.test ?_ ?_))
  · exact .part (by decide) fun source => .last (by decide)
  · refine .skip fun targetStart => .skip fun target => .ifOptional .free ?_
    exact .skip fun specifier => .skip fun _ => .last (by decide)
  · exact .last (by decide)

instance {start : Offset} {typeOnly : Bool} : Advances parse (exportNames parse start typeOnly)
    (Routine.moduleSource.ctorIdx + 2) anywhere where
  paces := by
    refine .part (by decide) fun specifiers => .skip fun _ => ?_
    extract_lets after
    have rest {now : Scanner → Prop} (source : Child) :
        Paces parse (Routine.moduleSource.ctorIdx + 2) now (after source) never :=
      .skip fun _ => .last (by decide)
    refine .ifOptional .free (.ite (fun _ => .pureBind (rest none)) fun _ => ?_)
    exact .skip fun _ => .pureBind (rest none)

instance {start : Offset} : Advances parse (exportAll parse start)
    (Routine.moduleSource.ctorIdx + 2) anywhere where
  paces := by
    have rest {now : Scanner → Prop} (exported : Child) :
        Paces parse (Routine.moduleSource.ctorIdx + 2) now (do
          discard <| expectWord .from_
          let source ← moduleSource parse
          semicolon
          finish start (.exportAll exported source)) never :=
      .skip fun _ => .part (by decide) fun source => .last (by decide)
    exact .ifOptional .free (.pureBind (rest none))

instance : Advances parse (typeAlias parse) (Routine.typeAlias.ctorIdx + 2) anywhere := by
  refine .routine (.look fun start => .skip fun _ => .skip fun name => ?_)
  exact .part (by decide) fun typeParameters => .skip fun _ => .part (by decide) fun type =>
    .last (by decide)

instance : Advances parse (interface parse) (Routine.interface.ctorIdx + 2) anywhere := by
  refine .routine (.look fun start => .skip fun _ => .skip fun name => ?_)
  refine .part (by decide) fun typeParameters => ?_
  dsimp only
  exact .ifOptional .free (.pureBind (.part (by decide) fun members => .last (by decide)))

instance : Advances parse (enumMember parse) (Routine.propertyKey.ctorIdx + 2) anywhere where
  paces := by
    refine .look fun start => .part (by decide) fun (name, computed) => ?_
    cases name with
    | none => exact .pure
    | some name =>
      dsimp only
      exact .ifOptional .free (.pureBind (.last (by decide)))

instance {start : Offset} {isConst : Bool} : Advances parse (enumeration parse start isConst)
    (Routine.enumeration.ctorIdx + 2) anywhere := by
  refine .routine (.skip fun _ => .skip fun name => .skip fun _ => ?_)
  exact .part (by decide) fun members => .last (by decide)

instance : Advances parse (defaultDeclaration parse) (Routine.interface.ctorIdx + 2)
    anywhere where
  paces := by
    refine .look fun start => ?_
    extract_lets asExpression
    have other : Advances parse asExpression (Routine.assignment.ctorIdx + 2) anywhere :=
      ⟨.part (by decide) fun node => .skip fun _ => .pure, by decide⟩
    refine .look fun k => ?_
    split
    · exact .last (by decide)
    · exact .test (.skip fun _ => .last (by decide)) (.last (by decide))
    · exact .last (by decide)
    · exact .test (.skip fun _ => .last (by decide)) (.last (by decide))
    · exact .test (.last (by decide)) (.last (by decide))
    · exact .last (by decide)

instance : Advances parse (exportDeclaration parse) (Routine.exportDeclaration.ctorIdx + 2)
    atToken := by
  refine .routine (.look fun start => .take ?_)
  refine .ifOptional (.roam fun node => .roam fun _ => .free) ?_
  refine .ifOptional (.roam fun declaration => .free) (.roam fun typeOnly => ?_)
  refine .ifOptional .free (.ifOptional .free ?_)
  exact .roam fun declaration => .free

end LoopCapture.Grammar
