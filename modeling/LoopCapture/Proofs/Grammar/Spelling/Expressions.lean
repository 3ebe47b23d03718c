import LoopCapture.Proofs.Grammar.Building.Expressions
import LoopCapture.Proofs.Grammar.Spelling.Types

/-!
# Expressions spell their names
-/

namespace LoopCapture.Grammar
open Text (Offset)
open Syntax (Child NodeId Shape PropertyForm)
open Token (Keyword Kind Scanner)
open Parse

variable {parse : Parser} [∀ goal, Spells (parse goal) (Begins goal)]

instance : Spells (expression parse) wherever := by
  refine .labelled (.bind fun start => .option .free fun first => ?_)
  infer_instance

instance : Spells (spreadable parse) wherever := by
  unfold spreadable
  infer_instance

instance : Spells (arguments parse) wherever := by
  unfold arguments
  infer_instance

instance : Spells (yielding parse) wherever := by
  refine .labelled (.bind fun start => .bind fun _ => .bind fun broken => ?_)
  refine .bind fun delegate => .bind fun k => ?_
  dsimp only
  split <;> infer_instance

instance : Spells bareParameter wherever := by
  unfold bareParameter
  infer_instance

instance : Spells (arrowHead parse) wherever := by
  refine .labelled (.bind fun start => .bind fun isAsync => .skipIf (.bind fun named => ?_))
  extract_lets after
  have rest (head? : Option ArrowHead) : Spells (after head?) wherever := by
    cases head? with
    | none => exact .free
    | some head => exact .free
  infer_instance

instance {head : ArrowHead} : Spells (arrowBody parse head) wherever := by
  unfold arrowBody
  infer_instance

instance : Spells (arrowFunction parse) wherever := by
  refine .labelled (.bind fun mayBe => .ite (.option .free fun head => .free) .free)

instance : Spells (conditional parse) wherever := by
  refine .labelled (.bind fun start => .option .free fun test => ?_)
  infer_instance

instance {node : Child} : Spells (becomePattern node) wherever := by
  unfold becomePattern
  split <;> infer_instance

instance : Spells (assignmentBody parse) wherever := by
  refine .bind fun yields => .bind fun s => .ite .free (.option ?_ fun node => .free)
  refine .bind fun start => .option .free fun left => ?_
  dsimp only
  infer_instance

instance {operator : Kind} : Spells (castTarget parse operator) wherever := by
  unfold castTarget
  infer_instance

instance {start : Offset} {above : Nat} {left : Child} :
    Spells (binaryRound parse start above left) wherever := by
  refine .bind fun _ => .bind fun operator => .bind fun s => ?_
  have joined (right : Child) : IsFalse (if isLogical operator then
      Shape.logical operator left right else Shape.binary operator left right).isBareName := by
    split <;> infer_instance
  dsimp only
  infer_instance

instance {above : Nat} : Spells (binaryBody parse above) wherever := by
  refine .bind fun start => .option .free fun first => ?_
  infer_instance

instance : Spells (postfixBody parse) wherever := by
  unfold postfixBody
  infer_instance

instance : Spells (angleCast parse) wherever := by
  unfold angleCast
  infer_instance

instance : Spells (unaryBody parse) wherever := by
  refine .bind fun start => .bind fun operator => ?_
  split <;> infer_instance

instance : Spells memberName wherever := by
  unfold memberName
  infer_instance

instance : Spells (template parse) wherever := by
  unfold template
  infer_instance

instance : Spells (computedKey parse) wherever := by
  unfold computedKey
  infer_instance

instance {start : Offset} {object : Child} {allowCalls : Bool} :
    Spells (optionalLink parse start object allowCalls) wherever := by
  refine .bind fun calls => .ite (.bind fun list => .free) (.bind fun computed => .ite .free ?_)
  exact .bind fun generic => .ite (.bind fun types => .free) .free

instance : Spells (callTypeArguments parse) wherever := by
  unfold callTypeArguments
  infer_instance

instance {start : Offset} {allowCalls : Bool} {object : Child} :
    Spells (chainRound parse start allowCalls object) wherever := by
  refine .bind fun k => ?_
  split
  case h_8 => exact .ite (.option .free fun types => .free) .free
  all_goals infer_instance

instance {start : Offset} {allowCalls : Bool} {object : NodeId} :
    Spells (chain parse start allowCalls object) wherever := by
  unfold chain
  infer_instance

/-- A word of the language, with a dot and a property after it or something else. -/
theorem Parse.Spells.metaOr {now : Scanner → Prop} {start stop : Offset} (word : Keyword)
    {rest : Parse Child} (h : Spells rest wherever)
    (suits : ∀ s, now s → s.kind = .keyword word ∧ s.start.offset = start ∧
      s.stop.offset = stop) :
    Spells (advance >>= fun _ => optionalMark .dot >>= fun dotted =>
      if dotted = true then metaProperty start stop word.spelling >>= fun node => pure (some node)
      else rest) now := by
  refine .ofKeyword ⟨fun text s spelled is => ?_⟩
  obtain ⟨keyword, rfl, rfl⟩ := suits s.scanner is.1
  have written := slice_of_isWord spelled.scanner (by rw [keyword]; rfl)
  rw [is.2 word keyword] at written
  have moved : (advance : Parse Unit).Writes text s := Spells.writes spelled trivial
  have dot : (optionalMark .dot).Writes text s.advance := Spells.writes moved.spelled trivial
  refine moved.bind (dot.bind ?_)
  split
  · have head := writes_addName dot.spelled written (.propertyName word.spelling) (by simp)
    have property (head : NodeId) : Spells (propertyName >>= fun property =>
        finish s.scanner.start.offset (.metaProperty head property)) wherever := .free
    have node :
        (metaProperty s.scanner.start.offset s.scanner.stop.offset word.spelling).Writes text _ :=
      head.bind ((property _).writes head.spelled trivial)
    exact node.bind (Spells.writes node.spelled trivial)
  · exact h.writes dot.spelled trivial

instance : Spells (importExpression parse) fun s => s.kind = .keyword .import_ := by
  refine .labelled (.look fun start => .look fun stop => .metaOr .import_ .free fun s is => ?_)
  exact ⟨is.1.1, is.1.2, is.2⟩

instance : Spells (arrayLiteral parse) wherever := by
  unfold arrayLiteral
  infer_instance

/-- The target of a shorthand property is written where its key is. -/
instance {start : Offset} {key : NodeId} {computed : Bool} :
    Spells (shorthandProperty parse start key computed) wherever where
  writes text s spelled _ := by
    refine .look (.look ?_)
    split
    · rename_i name node is found
      have shape : s.nodes.shape? key = some (.propertyName name) := is
      replace found : s.nodes[key]? = some node := found
      rw [Syntax.NodeTable.shape?, found, Option.map_some] at shape
      have written := spelled.nodes.names key node name found (Option.some.inj shape)
      have target := writes_addName spelled written (.identifier name) (by simp)
      have rest (target : NodeId) :
          Spells (shorthandDefault node.start target (parse .assignment) >>= fun target =>
            finish start (.property ⟨key, target, .init, false, true, false⟩) >>= fun node =>
              pure (some node)) wherever := .free
      exact target.bind ((rest _).writes target.spelled trivial)
    · exact Spells.writes spelled trivial

instance {start : Offset} {form : PropertyForm} {isGenerator isAsync : Bool} {key : NodeId}
    {computed : Bool} :
    Spells (propertyMethod parse start form isGenerator isAsync key computed) wherever := by
  unfold propertyMethod
  dsimp only
  infer_instance

instance {start : Offset} : Spells (objectProperty parse start) wherever := by
  refine .bind fun isAsync => .skipIf (.bind fun isGenerator => ?_)
  extract_lets after
  have rest (form : PropertyForm) : Spells (after form) wherever := by
    refine .skipIf (.bind fun (key, computed) => ?_)
    cases key with
    | none => exact .free
    | some key => exact .free
  infer_instance

instance : Spells (objectMember parse) wherever := by
  unfold objectMember
  infer_instance

instance : Spells (objectLiteral parse) wherever := by
  unfold objectLiteral
  infer_instance

instance : Spells regExp wherever := by
  unfold regExp
  infer_instance

instance : Spells (primary parse) wherever := by
  refine .labelled (.bind fun start => .look fun k => ?_)
  split
  all_goals first
    | exact .free
    | exact .suits fun s is => is.2

instance : Spells (creationBody parse) fun s => s.kind = .keyword .new_ := by
  refine .look fun start => .look fun stop => .metaOr .new_ ?_ fun s is => ?_
  · refine .bind fun calleeStart => ?_
    extract_lets after
    have rest (callee? : Child) : Spells (after callee?) wherever := by
      cases callee? with
      | none => exact .free
      | some callee =>
        refine .bind fun callee => ?_
        extract_lets typed
        have last (types : List NodeId) : Spells (typed types) wherever :=
          .bind fun called => .ite (.bind fun list => .free) (.bind fun list => .free)
        exact .bind fun generic => .ite (.bind fun types => .bind last) (.bind last)
    exact .test (.andThen (.suits fun s is => eq_of_beq is.2) rest) (.andThen .free rest)
  · exact ⟨is.1.1, is.1.2, is.2⟩

instance : Spells (leftHandSideBody parse) wherever := by
  refine .bind fun start => ?_
  extract_lets after
  have rest (object? : Child) : Spells (after object?) wherever := by
    cases object? with
    | none => exact .free
    | some object => exact .free
  exact .test (.andThen (.suits fun s is => eq_of_beq is.2) rest) (.andThen .free rest)

end LoopCapture.Grammar
