import LoopCapture.Grammar.Modules
import LoopCapture.Proofs.Grammar.Handover.Expressions

/-!
# Imports and exports hand nodes over
-/

namespace LoopCapture.Grammar
open Syntax (Child NodeId Shape Within)
open Parse

theorem takes_moduleExportName : Takes [] moduleExportName := by
  unfold moduleExportName
  exact .skip fun _ => .ite ((takes_literal _).bind fun name => by simp) takes_propertyName

theorem takes_atTypeOnly {follows : Parse Bool} (h : Takes [] follows) :
    Takes [] (atTypeOnly follows) := by
  refine (Takes.and takes_test (.lookAhead (.skip fun _ => h))).bind fun _ => ?_
  exact .ite (by simp) (by simp)

theorem takes_importSpecifier (typeOnly : Bool) : Takes [] (importSpecifier typeOnly) := by
  unfold importSpecifier
  refine .skip fun start => (takes_atTypeOnly (by simp)).bind fun ownTypeOnly => ?_
  refine .skip fun nameStart => .skip fun nameEnd => .skip fun nameText => ?_
  refine takes_moduleExportName.bindOption (by simp) fun imported => ?_
  refine .bindIf takes_identifier ?_ fun target => by simp
  exact Takes.map_some (by simp)

theorem takes_importSpecifiers (typeOnly : Bool) : Takes [] (importSpecifiers typeOnly) := by
  unfold importSpecifiers
  refine .skip fun _ => .ite ?_ (.skip fun _ => .ite ?_ (by simp))
  · refine .skip fun start => .skip fun _ => .skip fun _ => takes_identifier.bind fun target => ?_
    exact takes_finish_bind [] (by simp) fun node => by simp
  · exact (takes_commaList (takes_importSpecifier typeOnly)).bind fun list => by simp

theorem takes_exportSpecifier : Takes [] exportSpecifier := by
  unfold exportSpecifier
  refine .skip fun start => (takes_discard (takes_atTypeOnly (by simp))).bind fun _ => ?_
  refine takes_moduleExportName.bindOption (by simp) fun target => ?_
  exact .bindIf takes_moduleExportName (by simp) fun exported => by simp

theorem takes_referToLocal (specifier : NodeId) : Takes [] (referToLocal specifier) := by
  unfold referToLocal
  refine .skip fun shape => ?_
  split
  · refine .skip fun name => ?_
    split
    · exact takes_reshape _ rfl
    · simp
  · simp

variable {parse : Parser} (parts : ∀ goal, Takes [] (parse goal))

include parts

theorem takes_moduleSource : Takes [] (moduleSource parse) := by
  unfold moduleSource
  refine takes_labelled.mpr ?_
  refine .skip fun _ => .ite ((takes_literal _).bind fun source => ?_) (by simp)
  refine .skip fun _ => .skip fun _ => .ite (.skip fun _ => ?_) (by simp)
  exact (takes_discard (takes_primary parts)).bind fun _ => by simp

theorem takes_importRest (start : Text.Offset) (typeOnly : Bool) (first : List NodeId) :
    Takes (carried first) (importRest parse start typeOnly first) := by
  unfold importRest
  refine (takes_importSpecifiers typeOnly).bind fun others => .skip fun _ => ?_
  refine (takes_moduleSource parts).bind fun source => ?_
  simp

theorem takes_importDeclaration : Takes [] (importDeclaration parse) := by
  unfold importDeclaration
  refine takes_labelled.mpr ?_
  refine .skip fun start => .skip fun _ => (takes_atTypeOnly (by simp)).bind fun typeOnly => ?_
  refine .skip fun _ => .ite ?_ (.skip fun _ => .ite ?_ (takes_importRest parts start typeOnly []))
  · exact (takes_moduleSource parts).bind fun source => by simp
  · refine .skip fun targetStart => takes_identifier.bind fun target => ?_
    refine .skip fun _ => .ite ?_ ?_
    · refine (takes_expression parts).bind fun source => .skip fun _ => ?_
      refine takes_finish_bind (carried source) (by simp) fun specifier => ?_
      simp
      grind [Within]
    · refine takes_finish_bind [] (by simp) fun specifier => .skip fun _ => ?_
      simpa using takes_importRest parts start typeOnly [specifier]

theorem takes_exportNames (start : Text.Offset) (typeOnly : Bool) :
    Takes [] (exportNames parse start typeOnly) := by
  unfold exportNames
  refine (takes_commaList takes_exportSpecifier).bind fun specifiers => ?_
  refine .skip fun _ => .skip fun _ => ?_
  extract_lets after
  have rest (source : Child) : Takes (carried specifiers ++ carried source) (after source) := by
    simp [after]
  have local_names : Takes (carried specifiers) (after none) := by simpa using rest none
  refine .ite ((takes_moduleSource parts).bind rest) (.ite local_names ?_)
  exact (takes_forM takes_referToLocal specifiers).bind fun _ => local_names.weaken (by simp)

theorem takes_exportAll (start : Text.Offset) : Takes [] (exportAll parse start) := by
  unfold exportAll
  refine .bindIf takes_moduleExportName (by simp) fun exported => .skip fun _ => ?_
  exact (takes_moduleSource parts).bind fun source => by simp

theorem takes_typeAlias : Takes [] (typeAlias parse) := by
  simp [typeAlias]
  refine fun start => takes_identifier.bind fun name => ?_
  refine (takes_typeParameters parts).bind fun typeParameters => .skip fun _ => ?_
  exact (parts _).bind fun type => by simp

theorem takes_interface : Takes [] (interface parse) := by
  simp [interface]
  refine fun start => takes_identifier.bind fun name => ?_
  refine (takes_typeParameters parts).bind fun typeParameters => ?_
  refine .bindIf (takes_supertypes parts) (by simp) fun bases => ?_
  exact (takes_typeMembers parts).bind fun members => by simp

theorem takes_enumMember : Takes [] (enumMember parse) := by
  unfold enumMember
  refine .skip fun start => takes_propertyKey_bind parts (by simp) fun name _ => ?_
  exact .bindIf (parts _).within (by simp) fun initializer => by simp

theorem takes_enumeration (start : Text.Offset) (isConst : Bool) :
    Takes [] (enumeration parse start isConst) := by
  unfold enumeration
  refine takes_labelled.mpr ?_
  refine .skip fun _ => takes_identifier.bind fun name => .skip fun _ => ?_
  exact (takes_commaList (takes_enumMember parts)).bind fun members => by simp

theorem takes_defaultDeclaration : Takes [] (defaultDeclaration parse) := by
  unfold defaultDeclaration
  refine .skip fun start => ?_
  extract_lets asExpression
  have expression : Takes [] asExpression := (parts _).within.bind fun node => by simp
  refine .skip fun k => ?_
  split
  · exact takes_functionDeclaration parts start false true
  · exact .skip fun _ => .ite (.skip fun _ =>
      takes_functionDeclaration parts start true true) expression
  · exact takes_classLike parts start true true
  · exact .skip fun _ => .ite (.skip fun _ => takes_classLike parts start true true) expression
  · exact .skip fun _ => .ite ((takes_interface parts).bind fun node => by simp) expression
  · exact expression

theorem takes_exportDeclaration : Takes [] (exportDeclaration parse) := by
  unfold exportDeclaration
  refine takes_labelled.mpr ?_
  refine .skip fun start => .skip fun _ => .skip fun _ => .ite ?_ (.skip fun _ => .ite ?_ ?_)
  · exact (parts _).within.bind fun node => by simp
  · exact (takes_defaultDeclaration parts).bind fun declaration => by simp
  · refine (takes_atTypeOnly (by simp)).bind fun typeOnly => ?_
    refine .skip fun _ => .ite (takes_exportAll parts start) (.skip fun _ => .ite ?_ ?_)
    · exact takes_exportNames parts start typeOnly
    · exact (parts _).bind fun declaration => by simp

end LoopCapture.Grammar
