import LoopCapture.Proofs.Grammar.Building.Statements
import LoopCapture.Proofs.Grammar.Spelling.Expressions

/-!
# Imports, exports and statements spell their names
-/

namespace LoopCapture.Grammar
open Text (Offset)
open Syntax (Child Node NodeId NodeTable Shape DeclarationWord)
open Token (Kind Scanner)
open Parse

variable {parse : Parser} [∀ goal, Spells (parse goal) (Begins goal)] {text : List Char}

/-- The node is the name that is imported, which stands between the offsets: a name written as the
text, or a string. -/
def State.Imports (text : List Char) (start stop : Offset) (name : String) (imported : NodeId)
    (s : State) : Prop :=
  Text.slice? start stop text = some name.toList ∨
    ∃ (n : Node) (value : String), s.nodes[imported]? = some n ∧ n.span = ⟨start, stop⟩ ∧
      n.shape = .literal .string value

theorem State.Imports.goesOn {start stop : Offset} {name : String} {imported : NodeId}
    {s s' : State} (h : s.Imports text start stop name imported) (on : s.nodes.GoesOn s'.nodes) :
    s'.Imports text start stop name imported := by
  obtain written | ⟨n, value, found, span, literal⟩ := h
  · exact .inl written
  · obtain ⟨n', found', same, becomes⟩ := on.find imported n found
    refine .inr ⟨n', value, found', same.trans span, ?_⟩
    rw [becomes.eq_of_isNaming (by rw [literal]) (by simp [literal]), literal]

theorem imports_moduleExportName {s : State} (spelled : s.IsSpelled text) {imported : NodeId}
    (is : (moduleExportName.run s).1 = some imported) :
    (moduleExportName.run s).2.Imports text s.scanner.start.offset s.scanner.stop.offset
      s.scanner.value imported := by
  change ((if (s.scanner.kind == .string) = true then _ else propertyName : Parse Child).run s).1 =
    some imported at is
  change State.Imports text _ _ _ imported
    ((if (s.scanner.kind == .string) = true then _ else propertyName : Parse Child).run s).2
  split at is
  · rename_i isString
    rw [if_pos isString]
    obtain rfl : s.nodes.size = imported := Option.some.inj is
    have ends : max s.scanner.stop.offset s.scanner.start.offset = s.scanner.stop.offset :=
      Nat.max_eq_left spelled.scanner.faithful.ordered
    refine .inr ⟨⟨s.scanner.start.offset, s.scanner.stop.offset, .literal .string s.scanner.value⟩,
      _, ?_, rfl, rfl⟩
    change (s.nodes.push ⟨_, max s.scanner.stop.offset s.scanner.start.offset, _⟩)[s.nodes.size]? =
      _
    rw [Array.getElem?_push_size, ends]
  · rename_i other
    rw [if_neg other]
    refine .inl (slice_of_isWord spelled.scanner ?_)
    by_contra none
    change ((if s.scanner.kind.isWord = true then _ else _ : Parse Child).run s).1 = _ at is
    rw [if_neg none] at is
    cases is

theorem writes_importLocal (start : Offset) {nameStart stop : Offset} {name : String}
    {imported : NodeId} {s : State} (spelled : s.IsSpelled text)
    (h : s.Imports text nameStart stop name imported) (typeOnly : Bool) :
    (addNode nameStart stop (.identifier name) >>= fun target =>
      finish start
        (.importSpecifier .byName (some imported) (some target) typeOnly)).Writes text s := by
  obtain written | ⟨n, value, found, span, literal⟩ := h
  · have target := writes_addName spelled written (.identifier name) (by simp)
    exact target.bind (Spells.writes target.spelled trivial)
  · refine ⟨⟨spelled.scanner, ?_⟩, (NodeTable.goesOn_push _ _).trans (NodeTable.goesOn_push _ _)⟩
    exact spelled.nodes.pushLocal found literal span.symm rfl rfl

instance {follows : Parse Bool} [Spells follows wherever] :
    Spells (atTypeOnly follows) wherever := by
  unfold atTypeOnly
  infer_instance

instance : Spells moduleExportName wherever := by
  unfold moduleExportName
  infer_instance

instance {typeOnly : Bool} : Spells (importSpecifier typeOnly) wherever := by
  refine .bind fun start => .bind fun ownTypeOnly => ⟨fun text s spelled _ => ?_⟩
  refine .look (.look (.look ?_))
  have first : moduleExportName.Writes text s := Spells.writes spelled trivial
  refine first.bind ?_
  cases is : (moduleExportName.run s).1 with
  | none => exact Spells.writes first.spelled trivial
  | some imported =>
    have imports := imports_moduleExportName spelled is
    have renamed : (optionalWord .as_).Writes text (moduleExportName.run s).2 :=
      Spells.writes first.spelled trivial
    refine renamed.bind ?_
    split
    · exact Spells.writes renamed.spelled trivial
    · have node := writes_importLocal start renamed.spelled (imports.goesOn renamed.goesOn)
        (typeOnly || ownTypeOnly)
      exact ⟨node.spelled, node.goesOn⟩

instance : Spells (moduleSource parse) wherever := by
  refine .labelled (.bind fun named => .ite (.bind fun source => ?_) .free)
  exact .bind fun _ => .bind fun _ => .ite (.bind fun _ => .free) .free

instance {typeOnly : Bool} : Spells (importSpecifiers typeOnly) wherever := by
  refine .bind fun whole => .ite (.bind fun start => .bind fun _ => .bind fun _ => .free) ?_
  exact .bind fun opened => .ite (.bind fun list => .free) .free

instance {start : Offset} {typeOnly : Bool} {first : List NodeId} :
    Spells (importRest parse start typeOnly first) wherever := by
  unfold importRest
  infer_instance

instance : Spells (importDeclaration parse) wherever := by
  refine .labelled (.bind fun start => .bind fun _ => .bind fun typeOnly => .bind fun bare => ?_)
  refine .ite (.bind fun source => .free) (.bind fun named => .ite ?_ .free)
  refine .bind fun targetStart => .bind fun target => .bind fun assigned => .ite ?_ ?_
  · exact .bind fun source => .bind fun _ => .free
  · exact .bind fun specifier => .free

instance : Spells exportSpecifier wherever := by
  refine .bind fun start => .bind fun _ => .option .free fun target => ?_
  dsimp only
  infer_instance

/-- The name of a property becomes that of a variable where it stands. -/
instance {specifier : NodeId} : Spells (referToLocal specifier) wherever := by
  refine .bind fun shape => ?_
  split
  · rename_i target exported
    refine ⟨fun text s spelled _ => .look ?_⟩
    split
    · rename_i name is
      have shape : s.nodes.shape? target = some (.propertyName name) := is
      have becomes (old : Shape) (was : s.nodes.shape? target = some old) :
          old.Becomes (.identifier name) :=
        Option.some.inj (shape.symm.trans was) ▸ Shape.Becomes.named name
      have on := NodeTable.goesOn_reshape s.nodes target becomes
      exact ⟨⟨spelled.scanner, spelled.nodes.goesOn on (Array.size_modify ..)⟩, on⟩
    · exact Spells.writes spelled trivial
  · infer_instance

instance {α : Type} {step : α → Parse Unit} [∀ a, Spells (step a) wherever] {items : List α} :
    Spells (items.forM step) wherever := by
  induction items with
  | nil => exact inferInstanceAs (Spells (pure ()) wherever)
  | cons a rest ih => exact .bind fun _ => ih

instance {start : Offset} {typeOnly : Bool} :
    Spells (exportNames parse start typeOnly) wherever := by
  refine .bind fun specifiers => .bind fun _ => ?_
  extract_lets after
  have rest (source : Child) : Spells (after source) wherever := .free
  exact .bind fun elsewhere => .ite (.bind rest) (.ite (.bind rest) (.bind fun _ => .bind rest))

instance {start : Offset} : Spells (exportAll parse start) wherever := by
  unfold exportAll
  extract_lets after
  have rest (exported : Child) : Spells (after exported) wherever := .bind fun _ => .free
  exact .bind fun named => .ite (.bind rest) (.bind rest)

instance : Spells (typeAlias parse) wherever := by
  unfold typeAlias
  infer_instance

instance : Spells (interface parse) wherever := by
  refine .labelled (.bind fun start => .bind fun _ => .bind fun name => .bind fun parameters => ?_)
  extract_lets after
  have rest (bases : List NodeId) : Spells (after bases) wherever := .bind fun members => .free
  exact .bind fun derived => .ite (.bind rest) (.bind rest)

instance : Spells (enumMember parse) wherever := by
  refine .bind fun start => .bind fun (name, computed) => ?_
  cases name with
  | none => exact .free
  | some name =>
    dsimp only
    infer_instance

instance {start : Offset} {isConst : Bool} : Spells (enumeration parse start isConst) wherever := by
  unfold enumeration
  infer_instance

instance : Spells (defaultDeclaration parse) wherever := by
  refine .bind fun start => ?_
  dsimp only
  refine .bind fun k => ?_
  split <;> infer_instance

instance : Spells (exportDeclaration parse) wherever := by
  refine .labelled (.bind fun start => .bind fun _ => .bind fun assigns => ?_)
  refine .ite (.bind fun node => .free) (.bind fun default => .ite .free ?_)
  exact .bind fun typeOnly => .bind fun all => .ite .free (.bind fun listed => .ite .free .free)

instance : Spells (parenthesized parse) wherever := by
  unfold parenthesized
  infer_instance

instance : Spells (declarator parse) wherever := by
  refine .bind fun start => .option .free fun target => ?_
  dsimp only
  infer_instance

instance : Spells (variableDeclaration parse) wherever := by
  refine .labelled (.bind fun k => ?_)
  dsimp only
  split <;> infer_instance

instance : Spells (variableStatement parse) wherever := by
  unfold variableStatement
  infer_instance

instance : Spells (ifStatement parse) wherever := by
  unfold ifStatement
  dsimp only
  infer_instance

instance : Spells (forInit parse) wherever := by
  unfold forInit
  infer_instance

instance {start : Offset} {left : Child} {isAwait : Bool} :
    Spells (forEachRest parse start left isAwait) wherever := by
  refine .bind fun overKeys => .bind fun _ => .bind fun shape => ?_
  have loop (right body : Child) : IsFalse (if overKeys then Shape.forIn left right body isAwait
      else Shape.forOf left right body isAwait).isBareName := by
    split <;> infer_instance
  dsimp only
  split <;> infer_instance

instance {close : Kind} : Spells (forPart parse close) wherever := by
  unfold forPart
  infer_instance

instance : Spells (forStatement parse) wherever := by
  refine .labelled (.bind fun start => .bind fun _ => .bind fun isAwait => .bind fun _ => ?_)
  refine .bind fun init => .bind fun forEach => .ite .free (.bind fun _ => .bind fun test => ?_)
  exact .bind fun _ => .bind fun update => .free

instance : Spells (whileStatement parse) wherever := by
  unfold whileStatement
  infer_instance

instance : Spells (doStatement parse) wherever := by
  unfold doStatement
  infer_instance

instance : Spells (caseTest parse) wherever := by
  unfold caseTest
  infer_instance

instance {cases : Array NodeId} : Spells (switchCase parse cases) wherever := by
  refine .bind fun start => .option .free fun test => ?_
  infer_instance

instance : Spells (switchStatement parse) wherever := by
  refine .labelled (.bind fun start => .bind fun _ => .bind fun discriminant => .bind fun _ => ?_)
  exact .andThen (.iterate (fun cases => .bind fun closed => .ite .free .free) _) fun cases => .free

instance : Spells (catchClause parse) wherever := by
  refine .bind fun catches => .ite (.bind fun start => .bind fun _ => ?_) .free
  extract_lets after
  have rest (caught : Child × Child) : Spells (after caught) wherever := .bind fun body => .free
  refine .bind fun bound => .ite (.bind fun param => .bind fun type => ?_) (.bind rest)
  exact .bind fun _ => .bind rest

instance : Spells (tryStatement parse) wherever := by
  refine .labelled (.bind fun start => .bind fun _ => .bind fun body => .bind fun handler => ?_)
  extract_lets after
  have rest (finalizer : Child) : Spells (after finalizer) wherever := .skipIf .free
  exact .bind fun ends => .ite (.bind rest) (.bind rest)

instance : Spells (withStatement parse) wherever := by
  unfold withStatement
  infer_instance

instance : Spells (returnStatement parse) wherever := by
  refine .labelled (.bind fun start => .bind fun _ => ?_)
  extract_lets after
  have rest (argument : Child) : Spells (after argument) wherever := .bind fun _ => .free
  exact .bind fun bare => .ite (.bind rest) (.bind rest)

instance : Spells (throwStatement parse) wherever := by
  unfold throwStatement
  infer_instance

instance : Spells jumpLabel wherever := by
  unfold jumpLabel
  dsimp only
  infer_instance

instance : Spells (labeledStatement parse) wherever := by
  unfold labeledStatement
  infer_instance

instance : Spells (expressionStatement parse) wherever := by
  refine .labelled (.bind fun start => .option .free fun node => ?_)
  infer_instance

instance : Spells (namespaceDeclaration parse) wherever := by
  unfold namespaceDeclaration
  infer_instance

instance : Spells (plainStatement parse) wherever := by
  unfold plainStatement
  infer_instance

instance {condition : Parse Bool} {statement : Parse Child} [Spells condition wherever]
    [Spells statement wherever] : Spells (statementIf parse condition statement) wherever := by
  unfold statementIf
  infer_instance

instance : Spells (statementBody parse) wherever := by
  refine .bind fun start => .bind fun k => ?_
  split
  all_goals infer_instance

instance : Spells (topLevelStatements parse) wherever := by
  unfold topLevelStatements
  infer_instance

instance {goal : Goal} : Spells (goalStep parse goal) (Begins goal) := by
  cases goal <;> simp only [goalStep] <;> infer_instance

theorem spells_parseUpTo (n : Nat) (goal : Goal) : Spells (parseUpTo n goal) (Begins goal) := by
  induction n generalizing goal with
  | zero => exact .labelled .free
  | succ n ih => exact .labelled inferInstance

theorem isSpelled_advance_ofText (text : List Char) :
    (State.ofText text).advance.IsSpelled text where
  scanner := (Scanner.holds_ofText text).scan
  nodes := ⟨fun _ _ _ found => (by cases found), fun _ _ _ found => (by cases found)⟩

/-- Whatever the text, its names span their spelling, but for the local names of imports that are
written as strings. -/
theorem isSpelled_parseText (text : List Char) : (parseText text).tree.nodes.IsSpelled text := by
  have goals (goal : Goal) : Spells (parseWithin (Text.byteSize text) goal) (Begins goal) :=
    spells_parseUpTo _ goal
  have statements : (topLevelStatements (parseWithin (Text.byteSize text))).Writes text
      (State.ofText text).advance := Spells.writes (isSpelled_advance_ofText text) trivial
  exact statements.spelled.nodes.push fun name named => by simp at named

end LoopCapture.Grammar
