import LoopCapture.Proofs.Grammar.Composing.Expressions
import LoopCapture.Proofs.Grammar.Placed

/-!
# Statements make patterns of patterns

Before and after each step of a parse the table of nodes is in order, and all patterns in it are
settled. So any literal can be turned into a pattern at any time, and what was parsed as the target
of a declaration is one in the end.
-/

namespace LoopCapture.Grammar
open Text (Offset)
open Syntax (Child NodeId NodeTable Shape)
open Token (Kind)
open Parse

variable {parse : Parser} [Composer parse]

instance {follows : Parse Bool} [Composing follows] : Composing (atTypeOnly follows) := by
  unfold atTypeOnly
  infer_instance

instance : Composing moduleExportName := by
  unfold moduleExportName
  infer_instance

instance {typeOnly : Bool} : Composing (importSpecifier typeOnly) := by
  refine .bind fun start => .bind fun ownTypeOnly => .bind fun nameStart => ?_
  refine .bind fun nameEnd => .bind fun nameText => .option inferInstance fun imported => ?_
  dsimp only
  infer_instance

instance : Composing (moduleSource parse) := by
  unfold moduleSource
  dsimp only
  infer_instance

instance {typeOnly : Bool} : Composing (importSpecifiers typeOnly) := by
  refine .bind fun whole => .ite (.bind fun start => .bind fun _ => .bind fun _ => ?_) ?_
  · infer_instance
  · exact .bind fun opened => .ite (.bind fun list => inferInstance) inferInstance

instance {start : Offset} {typeOnly : Bool} {first : List NodeId} :
    Composing (importRest parse start typeOnly first) := by
  unfold importRest
  infer_instance

instance : Composing (importDeclaration parse) := by
  refine .labelled (.bind fun start => .bind fun _ => .bind fun typeOnly => .bind fun bare => ?_)
  refine .ite (.bind fun source => inferInstance) (.bind fun named => .ite ?_ inferInstance)
  refine .bind fun targetStart => .bind fun target => .bind fun assigned => .ite ?_ ?_
  · exact .bind fun source => .bind fun _ => inferInstance
  · exact .bind fun specifier => inferInstance

instance : Composing exportSpecifier := by
  refine .bind fun start => .bind fun _ => .option inferInstance fun target => ?_
  dsimp only
  infer_instance

/-- The name of a property becomes that of a variable where it stands. -/
instance {specifier : NodeId} : Composing (referToLocal specifier) := by
  refine .bind fun shape => ?_
  split
  · rename_i target exported
    refine ⟨fun s => ⟨trivial, ?_⟩⟩
    dsimp only
    split
    · rename_i name is
      exact ⟨name, is, rfl⟩
    · trivial
  · infer_instance

instance {α : Type} {step : α → Parse Unit} [∀ a, Composing (step a)] {items : List α} :
    Composing (items.forM step) := by
  induction items with
  | nil => exact inferInstanceAs (Composing (pure ()))
  | cons a rest ih => exact .bind fun _ => ih

instance {start : Offset} {typeOnly : Bool} : Composing (exportNames parse start typeOnly) := by
  refine .bind fun specifiers => .bind fun _ => ?_
  extract_lets after
  have rest (source : Child) : Composing (after source) := inferInstance
  exact .bind fun elsewhere => .ite (.bind rest) (.ite (.bind rest) (.bind fun _ => .bind rest))

instance {start : Offset} : Composing (exportAll parse start) := by
  unfold exportAll
  dsimp only
  infer_instance

instance : Composing (typeAlias parse) := by
  unfold typeAlias
  infer_instance

instance : Composing (interface parse) := by
  refine .labelled (.bind fun start => .bind fun _ => .bind fun name => .bind fun parameters => ?_)
  extract_lets after
  have rest (bases : List NodeId) : Composing (after bases) := .bind fun members => inferInstance
  exact .bind fun derived => .ite (.bind rest) (.bind rest)

instance : Composing (enumMember parse) := by
  refine .bind fun start => .bind fun (name, computed) => ?_
  cases name with
  | none => exact inferInstance
  | some name =>
    dsimp only
    infer_instance

instance {start : Offset} {isConst : Bool} : Composing (enumeration parse start isConst) := by
  unfold enumeration
  infer_instance

instance : Composing (defaultDeclaration parse) := by
  refine .bind fun start => ?_
  dsimp only
  refine .bind fun k => ?_
  split <;> infer_instance

instance : Composing (exportDeclaration parse) := by
  refine .labelled (.bind fun start => .bind fun _ => .bind fun assigns => ?_)
  refine .ite (.bind fun node => inferInstance) (.bind fun default => .ite inferInstance ?_)
  refine .bind fun typeOnly => .bind fun all => .ite inferInstance (.bind fun listed => ?_)
  exact .ite inferInstance inferInstance

instance : Composing atLetDeclaration := by
  unfold atLetDeclaration
  infer_instance

instance : Composing atUsingDeclaration := by
  unfold atUsingDeclaration
  infer_instance

instance : Composing atAwaitUsingDeclaration := by
  unfold atAwaitUsingDeclaration
  infer_instance

instance : Composing atForDeclaration := by
  refine .bind fun k => ?_
  split <;> infer_instance

instance : Composing atNamespaceWord := by
  unfold atNamespaceWord
  infer_instance

instance : Composing skipDottedName := by
  unfold skipDottedName
  infer_instance

instance : Composing atNamespace := by
  unfold atNamespace
  infer_instance

instance : Composing atDeclarationStart := by
  refine .bind fun k => ?_
  split <;> infer_instance

instance : Composing (parenthesized parse) := by
  unfold parenthesized
  infer_instance

instance : Composing (declarator parse) := by
  refine .bind fun start => .option inferInstance fun target => ?_
  dsimp only
  infer_instance

instance : Composing (variableDeclaration parse) := by
  refine .labelled (.bind fun k => ?_)
  dsimp only
  split <;> infer_instance

instance : Composing (variableStatement parse) := by
  unfold variableStatement
  infer_instance

instance : Composing (ifStatement parse) := by
  unfold ifStatement
  dsimp only
  infer_instance

instance : Composing (forInit parse) := by
  unfold forInit
  infer_instance

instance {start : Offset} {left : Child} {isAwait : Bool} :
    Composing (forEachRest parse start left isAwait) := by
  refine .bind fun overKeys => .bind fun _ => .bind fun shape => ?_
  have loop (right body : Child) : IsFalse (if overKeys then Shape.forIn left right body isAwait
      else Shape.forOf left right body isAwait).isPattern := by
    split <;> infer_instance
  dsimp only
  split <;> infer_instance

instance {close : Kind} : Composing (forPart parse close) := by
  unfold forPart
  infer_instance

instance : Composing (forStatement parse) := by
  refine .labelled (.bind fun start => .bind fun _ => .bind fun isAwait => .bind fun _ => ?_)
  refine .bind fun init => .bind fun forEach => .ite inferInstance (.bind fun _ => ?_)
  exact .bind fun test => .bind fun _ => .bind fun update => inferInstance

instance : Composing (whileStatement parse) := by
  unfold whileStatement
  infer_instance

instance : Composing (doStatement parse) := by
  unfold doStatement
  infer_instance

instance : Composing (caseTest parse) := by
  unfold caseTest
  infer_instance

instance {cases : Array NodeId} : Composing (switchCase parse cases) := by
  refine .bind fun start => .option inferInstance fun test => ?_
  infer_instance

instance : Composing (switchStatement parse) := by
  refine .labelled (.bind fun start => .bind fun _ => .bind fun discriminant => .bind fun _ => ?_)
  refine .andThen (.iterate (fun cases => ?_) _) fun cases => inferInstance
  exact .bind fun closed => .ite inferInstance inferInstance

instance : Composing (catchClause parse) := by
  refine .bind fun catches => .ite (.bind fun start => .bind fun _ => ?_) inferInstance
  extract_lets after
  have rest (caught : Child × Child) : Composing (after caught) := .bind fun body => inferInstance
  refine .bind fun bound => .ite (.bind fun param => .bind fun type => ?_) (.bind rest)
  exact .bind fun _ => .bind rest

instance : Composing (tryStatement parse) := by
  refine .labelled (.bind fun start => .bind fun _ => .bind fun body => .bind fun handler => ?_)
  extract_lets after
  have rest (finalizer : Child) : Composing (after finalizer) := .skipIf inferInstance
  exact .bind fun ends => .ite (.bind rest) (.bind rest)

instance : Composing (withStatement parse) := by
  unfold withStatement
  infer_instance

instance : Composing (returnStatement parse) := by
  refine .labelled (.bind fun start => .bind fun _ => ?_)
  extract_lets after
  have rest (argument : Child) : Composing (after argument) := .bind fun _ => inferInstance
  exact .bind fun bare => .ite (.bind rest) (.bind rest)

instance : Composing (throwStatement parse) := by
  unfold throwStatement
  infer_instance

instance : Composing jumpLabel := by
  unfold jumpLabel
  dsimp only
  infer_instance

instance : Composing (labeledStatement parse) := by
  unfold labeledStatement
  infer_instance

instance : Composing (expressionStatement parse) := by
  refine .labelled (.bind fun start => .option inferInstance fun node => ?_)
  infer_instance

instance : Composing (namespaceDeclaration parse) := by
  unfold namespaceDeclaration
  infer_instance

instance : Composing (plainStatement parse) := by
  unfold plainStatement
  infer_instance

instance {condition : Parse Bool} {statement : Parse Child} [Composing condition]
    [Composing statement] : Composing (statementIf parse condition statement) := by
  unfold statementIf
  infer_instance

instance : Composing (statementBody parse) := by
  refine .bind fun start => .bind fun k => ?_
  split
  all_goals infer_instance

instance : Composing (topLevelStatements parse) := by
  unfold topLevelStatements
  infer_instance

instance {goal : Goal} : Composing (goalStep parse goal) := by
  cases goal <;> simp only [goalStep] <;> infer_instance

theorem composer_parseUpTo (n : Nat) : Composer (parseUpTo n) := by
  induction n with
  | zero =>
    have nothing : Composing (labelled .bound (pure none) : Parse Child) := inferInstance
    exact ⟨fun _ => nothing, ⟨.labelled (.pure (by simp))⟩⟩
  | succ n ih =>
    refine ⟨fun goal => ?_, ⟨.labelled ?_⟩⟩
    · exact .labelled inferInstance
    · have target : Declaring (bindingTarget (parseUpTo n)) .target := inferInstance
      exact target.grants

/-- Whatever the text, the patterns that are made of it have targets of declarations only. -/
instance : Composing sourceFile := by
  have goals (size : Nat) : Composer (parseWithin size) := composer_parseUpTo _
  unfold sourceFile
  infer_instance

variable {text : List Char}

/-- The parse of a text is run on tables in order and keeps to the rules. -/
theorem tidy_sourceFile (text : List Char) : sourceFile.Tidy (.ofText text) where
  composes := Composing.composes _
  transacts := transacts_sourceFile text
  spends := ⟨[], _, spends_sourceFile, Syntax.NodeTable.owned_empty⟩
  settled := Syntax.NodeTable.patternsSettled_empty

/-- The table is there before or after some step while the text is parsed, be it one that is looked
ahead with or tried out. -/
def IsTableOf (text : List Char) (t : NodeTable) : Prop :=
  ∃ (α : Type) (p : Parse α) (s : State), sourceFile.Runs (.ofText text) p s ∧
    (t = s.nodes ∨ t = (p.run s).2.nodes)

theorem isTableOf_parseText (text : List Char) : IsTableOf text (parseText text).tree.nodes :=
  ⟨_, sourceFile, .ofText text, .self _ _, .inr rfl⟩

/-- In every table of a parse any node can be turned into a pattern. This comes to an end, changes
nothing but literals that are targets, leaves none of these, and doing it again does nothing. -/
theorem repatterns_of_isTableOf {t : NodeTable} (h : IsTableOf text t) (e : NodeId) :
    t.Repatterns e := by
  obtain ⟨α, p, s, runs, rfl | rfl⟩ := h
  all_goals have tidy : p.Tidy s := Tidy.runs runs (tidy_sourceFile text)
  · exact tidy.settled.repatterns tidy.precede e
  · exact tidy.settled_run.repatterns tidy.precede_run e

/-- A literal with a default and a rest in it that a text ends up with. -/
theorem repatterns_literal :
    IsTableOf "[a = 0, ...b];".toList (parseText "[a = 0, ...b];".toList).tree.nodes ∧
      ((parseText "[a = 0, ...b];".toList).tree.nodes.shape? 5).any (·.becomesPattern) = true ∧
      (parseText "[a = 0, ...b];".toList).tree.nodes.Repatterns 5 :=
  ⟨isTableOf_parseText _, by decide +kernel, repatterns_of_isTableOf (isTableOf_parseText _) 5⟩

namespace Parse

/-- While the first step is run from a state, the second one is run from another, and what it adds
to the table stays there: no attempt that it is part of fails. -/
inductive Retains : {α β : Type} → Parse α → State → Parse β → State → Prop
  | self {α : Type} (p : Parse α) (s : State) : Retains p s p s
  | first {α β γ : Type} {p : Parse α} {next : α → Parse β} {s s' : State} {q : Parse γ} :
    Retains p s q s' → Retains (.andThen p next) s q s'
  | second {α β γ : Type} {p : Parse α} {next : α → Parse β} {s s' : State} {q : Parse γ} :
    Retains (next (p.run s).1) (p.run s).2 q s' → Retains (.andThen p next) s q s'
  | within {α γ : Type} {change : Context → Context} {p : Parse α} {s s' : State} {q : Parse γ} :
    Retains p { s with context := change s.context } q s' → Retains (within change p) s q s'
  | guarded {γ : Type} {p : Parse Child} {s s' : State} {q : Parse γ} :
    s.depth < depthLimit → Retains p { s with depth := s.depth + 1 } q s' →
    Retains (guarded p) s q s'
  | lookAhead {α γ : Type} {p : Parse α} {s s' : State} {q : Parse γ} :
    Retains p s q s' → Retains (lookAhead p) s q s'
  | attempt {α γ : Type} {p : Parse (Option α)} {s s' : State} {q : Parse γ} :
    ((attempt p).run s).1 ≠ none → Retains p s q s' → Retains (attempt p) s q s'
  | labelled {α γ : Type} {label : Label α} {p : Parse α} {s s' : State} {q : Parse γ} :
    Retains p s q s' → Retains (labelled label p) s q s'

variable {α β : Type} {p : Parse α} {q : Parse β} {s s' : State}

/-- Declarations stay what they are from the end of the second step to the end of the first one. -/
theorem Retains.upholds (h : p.Retains s q s') :
    p.Composes s → (q.run s').2.nodes.Upholds (p.run s).2.nodes := by
  induction h with
  | self => exact fun _ => .refl _
  | first _ ih => exact fun composes => (ih composes.1).trans composes.2.upholds
  | second _ ih => exact fun composes => ih composes.2
  | within _ ih => exact ih
  | guarded free _ ih => exact fun composes => by simpa [run, free] using ih (composes free)
  | lookAhead _ ih => exact ih
  | @attempt _ _ p s _ _ succeeds _ ih =>
    intro composes
    by_cases kept : (p.run s).1.isSome ∧ (p.run s).2.errorCount = s.errorCount
    · simpa [run, State.mark, kept] using ih composes
    · simp [run, State.mark, kept] at succeeds
  | labelled _ ih => exact ih

theorem Retains.trans {γ : Type} {r : Parse γ} {s'' : State} (h : p.Retains s q s') :
    q.Retains s' r s'' → p.Retains s r s'' := by
  induction h with
  | self => exact id
  | first _ ih => exact fun h => .first (ih h)
  | second _ ih => exact fun h => .second (ih h)
  | within _ ih => exact fun h => .within (ih h)
  | guarded free _ ih => exact fun h => .guarded free (ih h)
  | lookAhead _ ih => exact fun h => .lookAhead (ih h)
  | attempt succeeds _ ih => exact fun h => .attempt succeeds (ih h)
  | labelled _ ih => exact fun h => .labelled (ih h)

theorem Retains.after {γ : Type} {next : α → Parse γ} (a : α) (is : (p.run s).1 = a)
    (h : (next a).Retains (p.run s).2 q s') : (p >>= next).Retains s q s' := by
  subst is
  exact .second h

end Parse

/-- The routines for what a declaration binds: targets and parameters. -/
inductive MakesTarget : Parse Child → Prop
  | bindingTarget (n : Nat) : MakesTarget (bindingTarget (parseUpTo n))
  | parameter (n : Nat) : MakesTarget (parameter (parseUpTo n))

theorem MakesTarget.declaring {p : Parse Child} (h : MakesTarget p) : Declaring p .target := by
  cases h with
  | bindingTarget n | parameter n =>
    have parts := composer_parseUpTo n
    infer_instance

/-- What was parsed as a target or a parameter is one in the table that the text is parsed to. -/
theorem declares_parseText {p : Parse Child} {s : State} {x : NodeId} (makes : MakesTarget p)
    (retains : sourceFile.Retains (.ofText text) p s) (result : (p.run s).1 = some x) :
    (parseText text).tree.nodes.Declares .target x := by
  have declares := (makes.declaring.grants s trivial).2 x result
  exact declares.uphold (retains.upholds (Composing.composes _))

theorem retains_variableDeclaration (parse : Parser) {s : State}
    (word : s.scanner.kind = .keyword .var_) :
    (variableDeclaration parse).Retains s (parse .bindingTarget) s.advance := by
  have target (s : State) : (declarator parse).Retains s (parse .bindingTarget) s :=
    .second (.first (.self _ _))
  have list (s : State) :
      (separated (.punctuator .comma) (declarator parse)).Retains s (parse .bindingTarget) s :=
    .first (.second (.first (.labelled (.first (target s)))))
  exact .labelled (.after _ word (.second (.second (.first (list _)))))

/-- Where the target of a declaration that a text starts with is parsed. -/
def firstTarget (text : List Char) : State :=
  { (State.ofText text).advance.advance with depth := 1 }

/-- A text that starts with the word is parsed as a declaration, as long as goals may nest. -/
theorem retains_sourceFile {n : Nat}
    (word : (State.ofText text).advance.scanner.kind = .keyword .var_)
    (levels : parseWithin (Text.byteSize text) = parseUpTo (n + 1)) :
    sourceFile.Retains (.ofText text) (parseUpTo n .bindingTarget) (firstTarget text) := by
  have other (k : Token.Kind) (ne : (Token.Kind.keyword .var_ == k) = false) :
      ((isAt k).run (State.ofText text).advance).1 = false := by
    change ((State.ofText text).advance.scanner.kind == k) = false
    rwa [word]
  have statement : (statementBody (parseUpTo n)).Retains
      { (State.ofText text).advance with depth := 1 } (parseUpTo n .bindingTarget)
      (firstTarget text) := by
    refine .second (.after _ word (.first (.labelled (.second (.first (.within ?_))))))
    exact retains_variableDeclaration _ word
  have free : 0 < depthLimit := by decide
  have statements : (topLevelStatements (parseUpTo (n + 1))).Retains (State.ofText text).advance
      (parseUpTo n .bindingTarget) (firstTarget text) := by
    refine .labelled (.first (.second (.first (.labelled ?_))))
    refine .after false (other _ (by decide)) (.after false (other _ (by decide)) ?_)
    exact .first (.labelled (.second (.first (.labelled (.guarded free statement)))))
  rw [← levels] at statements
  exact .second (.second (.first statements))

end LoopCapture.Grammar
