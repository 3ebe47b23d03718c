import LoopCapture.Grammar.Modules
import LoopCapture.Proofs.Grammar.Building.Expressions

/-!
# Imports and exports are built where they belong
-/

namespace LoopCapture.Grammar
open Text (Offset)
open Syntax (Child NodeId Shape)
open Parse

instance {follows : Parse Bool} [Peeks follows] : Skips (atTypeOnly follows) := by
  unfold atTypeOnly
  infer_instance

instance : Yields moduleExportName anywhere where
  builds b := by
    exact .test (.past fun name => .pure) .last

theorem builds_literalToken (form : Syntax.LiteralForm) (start stop : Offset) :
    Builds (fun s => atToken s ∧ s.start.offset = start ∧ s.stop.offset = stop) start []
      (literal form) fun node => [.token start stop, .placed start [node], .passed start] := by
  refine .here fun nodeStart le => .look fun text => .consumeToken start stop ?_
  have node : Builds anywhere nodeStart [.token start stop, .passed nodeStart]
      (finish nodeStart (.literal form text)) fun node =>
        [.placed nodeStart [node], .passed nodeStart, .token start stop, .passed nodeStart] :=
    .keeps (builds_finish (Nat.le_refl nodeStart) (by
      simp +contextual [Gives, Shape.row, Shape.walked]))
  refine .lastGiven node (by simp +contextual [Gives]) (fun _ _ => trivial) fun name => ?_
  simp only [Gives, List.forall_mem_cons, Fact.Holds]
  grind [Layout.PlacesAll.lower, Layout.HasPassed.lower]

/-- The name, if there is one, is the token that was there. -/
theorem builds_moduleExportName (start stop : Offset) :
    Builds (fun s => s.start.offset = start ∧ s.stop.offset = stop) start [] moduleExportName
      fun name => name.elim [] fun name =>
        [.token start stop, .placed start [name], .passed start] := by
  refine .test (.partGiven (builds_literalToken _ start stop) fun name => .pure) ?_
  refine .test (.here fun nameStart le => .look fun text => ?_) (.skip fun _ => .pure)
  refine .consumeToken start stop (.finish fun node => ?_)
  exact .back le [.token start stop, .placed start [node], .passed start] .pure

instance (typeOnly : Bool) : Yields (importSpecifier typeOnly) anywhere := by
  refine .start fun start => .skip fun ownTypeOnly => .here fun nameStart le => ?_
  refine .look fun nameEnd => .look fun nameText => ?_
  refine .partGiven (builds_moduleExportName nameStart nameEnd) fun imported => ?_
  cases imported with
  | none => exact .pure
  | some imported =>
    have specifier (target : Child) : Builds anywhere nameStart
        [.placed nameStart (carried target), .placed nameStart [imported], .passed nameStart]
        (finish start (.importSpecifier .byName imported target (typeOnly || ownTypeOnly)) >>=
          fun node => pure (some node)) fun node => [.placed start (carried node)] := by
      refine .back le [.placed start (carried target), .placed start [imported], .passed start] ?_
      exact .finish fun node => .pure
    have localName : Builds anywhere nameStart [.token nameStart nameEnd]
        (some <$> addNode nameStart nameEnd (.identifier nameText)) fun target =>
          [.placed nameStart (carried target), .passed nameStart] :=
      .map (builds_addToken rfl (.refl nameStart _))
    refine .ifOptional ?_ (.partGiven localName fun target => .lastGiven (specifier target))
    exact .part fun target => .lastGiven (specifier target)

instance (typeOnly : Bool) : Yields (importSpecifiers typeOnly) anywhere where
  builds b := by
    refine .test (.start fun start => ?_) (.ifOptional ?_ .pure)
    · refine .skip fun _ => .pass fun _ => .part fun target => ?_
      exact .finish fun node => .pure
    · refine .part fun list => ?_
      exact .skip fun _ => .pure

instance : Yields exportSpecifier anywhere := by
  refine .start fun start => .skip fun _ => .option .pure fun target => ?_
  refine .bindIfOptional fun exported => ?_
  exact .finish fun node => .pure

theorem builds_referToLocal {b : Offset} {specifier : NodeId} :
    Builds anywhere b [.placed b [specifier]] (referToLocal specifier) fun _ => [] := by
  intro text base s sound is reached holds
  have placed : s.layout.PlacesAll base b [specifier] := (holds _ List.mem_cons_self).1
  have above : base ≤ specifier := (placed specifier (List.mem_singleton_self specifier)).1
  refine (Still.outcome sound : Outcome text base s (shapeOf specifier) fun _ => []).bind ?_
  change Outcome text base s _ _
  split
  · rename_i target exported found
    refine (Still.outcome sound : Outcome text base s (shapeOf target) fun _ => []).bind ?_
    change Outcome text base s _ _
    have shape : s.nodes.shape? specifier = some (.exportSpecifier (some target) exported) := found
    -- what lies below a node that may change may change as well
    have child : target ∈ s.nodes.childrenOf specifier := by
      simp [Syntax.NodeTable.childrenOf, shape, Shape.children]
    split
    · rename_i name named
      refine outcome_reshaped sound trivial rfl (Syntax.NodeTable.reshapes_reshape
        (sound.closed specifier above target child) (by simp) fun old was => ?_)
      obtain rfl := Option.some.inj (was.symm.trans named)
      exact ⟨rfl, rfl, rfl⟩
    · exact Still.outcome sound
  · exact Still.outcome sound

variable {parse : Parser} [∀ goal, Yields (parse goal) (Suits goal)]

instance : Yields (moduleSource parse) anywhere where
  builds b := by
    refine .labelled ?_
    refine .test (.past fun source => ?_) (.skip fun _ => .pure)
    refine .look fun attributed => .look fun broken => .ite (fun _ => ?_) fun _ => .pure
    exact .skip fun _ => .skip fun _ => .pure

theorem yieldsFrom_importRest (start : Offset) (typeOnly : Bool) (first : List NodeId) :
    YieldsFrom start [.placed start (carried first), .passed start]
      (importRest parse start typeOnly first) := by
  refine .part fun others => .skip fun _ => ?_
  refine .part fun source => .skip fun _ => ?_
  exact .promise .finishAs

instance : Yields (importDeclaration parse) atToken := by
  refine .labelled ?_
  refine .start fun start => .consume (.skip fun typeOnly => .test ?_ (.test ?_ ?_))
  · refine .part fun source => .skip fun _ => ?_
    exact .promise .finishAs
  · refine .here fun targetStart le => .past fun target => .ifOptional ?_ ?_
    · refine .part fun source => ?_
      refine .skip fun _ => .finish fun specifier => ?_
      refine .back le [.placed start (carried source), .placed start [specifier], .passed start] ?_
      exact .promise .finishAs
    · refine .finish fun specifier => .back le [.placed start [specifier], .passed start] ?_
      exact .skip fun _ => .lastGiven (yieldsFrom_importRest start typeOnly [specifier])
  · exact .lastGiven (yieldsFrom_importRest start typeOnly [])

theorem yieldsFrom_exportNames (start : Offset) (typeOnly : Bool) :
    YieldsFrom start [.passed start] (exportNames parse start typeOnly) := by
  refine .part fun specifiers => .skip fun _ => ?_
  extract_lets after
  have rest (source : Child) : YieldsFrom start
      [.placed start (carried specifiers ++ carried source), .passed start] (after source) :=
    .skip fun _ => .promise .finishAs
  refine .ifOptional (.part fun source => .lastGiven (rest source)) ?_
  refine .ite (fun _ => .pureBind (.lastGiven (rest none))) fun _ => ?_
  have refer : Builds anywhere start [.placed start (carried specifiers)]
      (specifiers.forM referToLocal) fun _ => [] :=
    builds_forM fun specifier mem => .lastGiven builds_referToLocal <| by
      have one : specifier ∈ carried specifiers :=
        List.mem_flatMap_of_mem mem (List.mem_singleton_self specifier)
      simp +contextual [Gives, Layout.PlacesAll, one]
  exact .partGiven refer fun _ => .pureBind (.lastGiven (rest none))

theorem yieldsFrom_exportAll (start : Offset) :
    YieldsFrom start [] (exportAll parse start) := by
  refine .bindIfOptional fun exported => .pass fun _ => ?_
  refine .part fun source => .skip fun _ => ?_
  exact .promise .finishAs

instance : Yields (typeAlias parse) anywhere := by
  refine .labelled ?_
  refine .start fun start => .skip fun _ => .past fun name => ?_
  refine .part fun typeParameters => .skip fun _ => ?_
  refine .part fun type => .skip fun _ => ?_
  exact .promise .finishAs

instance : Yields (interface parse) anywhere := by
  refine .labelled ?_
  refine .start fun start => .skip fun _ => .past fun name => ?_
  refine .part fun typeParameters => ?_
  refine .bindIfOptional fun bases => ?_
  refine .part fun members => ?_
  exact .promise .finishAs

instance : Yields (enumMember parse) anywhere := by
  refine .start fun start => .key (fun _ => .pure) fun name _ => ?_
  refine .bindIfOptional fun initializer => ?_
  exact .finish fun node => .pure

theorem yieldsFrom_enumeration (start : Offset) (isConst : Bool) :
    YieldsFrom start [] (enumeration parse start isConst) := by
  refine .labelled ?_
  refine .skip fun _ => .past fun name => .skip fun _ => ?_
  refine .part fun members => .skip fun _ => ?_
  exact .promise .finishAs

instance : Yields (defaultDeclaration parse) anywhere := by
  refine .start fun start => ?_
  extract_lets asExpression
  have expression : Yields asExpression anywhere :=
    ⟨fun b => .part fun node => .skip fun _ => .pure⟩
  refine .look fun k => ?_
  split
  · exact .lastGiven (yieldsFrom_functionDeclaration start false true)
  · refine .test (.skip fun _ => ?_) .last
    exact .lastGiven (yieldsFrom_functionDeclaration start true true)
  · exact .lastGiven (yieldsFrom_classLike start true true)
  · refine .test (.skip fun _ => ?_) .last
    exact .lastGiven (yieldsFrom_classLike start true true)
  · exact .test (.part fun node => .pure) .last
  · exact .last

instance : Yields (exportDeclaration parse) atToken := by
  refine .labelled ?_
  refine .start fun start => .consume (.ifOptional ?_ (.ifOptional ?_ ?_))
  · exact .part fun node => .skip fun _ => .promise .finishAs
  · exact .part fun declaration => .promise .finishAs
  · refine .skip fun typeOnly => .ifOptional ?_ (.ifOptional ?_ ?_)
    · exact .lastGiven (yieldsFrom_exportAll start)
    · exact .lastGiven (yieldsFrom_exportNames start typeOnly)
    · exact .part fun declaration => .promise .finishAs

end LoopCapture.Grammar
