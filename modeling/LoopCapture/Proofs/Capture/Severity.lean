import LoopCapture.Capture.Lint
import LoopCapture.Proofs.Capture.Finding
import LoopCapture.Proofs.Grammar.Reports

/-!
# Severities

The severity of the rule only says what its findings are called, or that they are not looked for.
What is told of a text is its syntax errors and its findings, both of them in their own order, put
together by where they start.
-/

namespace LoopCapture
open Diagnostic (Category SyntaxError)

section Stable

variable {α : Type} {le : α → α → Bool}

/-- Those items of a list that stand in order already keep their order. -/
theorem filter_mergeSort_of_pairwise (trans : ∀ a b c : α, le a b → le b c → le a c)
    (total : ∀ a b : α, le a b || le b a) {test : α → Bool} {items : List α}
    (sorted : (items.filter test).Pairwise (le · ·)) :
    (items.mergeSort le).filter test = items.filter test := by
  have kept : (items.filter test).Sublist (items.mergeSort le) :=
    List.sublist_mergeSort trans total sorted List.filter_sublist
  have again : (items.filter test).Sublist ((items.mergeSort le).filter test) := by
    simpa using kept.filter test
  have same : ((items.mergeSort le).filter test).Perm (items.filter test) :=
    (List.mergeSort_perm items le).filter test
  exact (again.eq_of_length same.length_eq.symm).symm

end Stable

namespace Capture
open Scope (Environment)

/-- The same diagnostic, in another category if it is a finding. -/
def relabel (category : Category) (d : Diagnostic) : Diagnostic :=
  if d.rule.isSome then { d with category } else d

/-- A list in the order of starts that is made of the errors and the findings, each in their own
order, the errors first where starts are the same. -/
structure Interleaves (errors found merged : List Diagnostic) : Prop where
  errors_eq : merged.filter (·.rule.isNone) = errors
  found_eq : merged.filter (·.rule.isSome) = found
  in_order : merged.Pairwise fun a b =>
    a.start < b.start ∨ a.start = b.start ∧ (a.rule.isSome → b.rule.isSome)

/-- What linting a text tells at each severity. Off, it tells the syntax errors; otherwise it tells
the same findings among them, which differ in their category alone. -/
structure RelabelsOnly (lintAt : Severity → LintResult) (errors : List Diagnostic)
    (told : Category → Finding → Diagnostic) : Prop where
  findings_off : (lintAt .off).findings = []
  findings_eq : (lintAt .warn).findings = (lintAt .error).findings
  off_eq : (lintAt .off).diagnostics = errors
  error_eq : (lintAt .error).diagnostics = (lintAt .warn).diagnostics.map (relabel .error)
  warn_eq : (lintAt .warn).diagnostics = (lintAt .error).diagnostics.map (relabel .warning)
  interleaves : ∀ severity category, severity.category? = some category →
    Interleaves errors ((lintAt severity).findings.map (told category))
      (lintAt severity).diagnostics

variable {errors found : List Diagnostic}

/-- Errors and findings in the order of their starts. -/
def merge (errors found : List Diagnostic) : List Diagnostic :=
  (errors ++ found).mergeSort fun a b => a.start ≤ b.start

theorem filter_merge {test : Diagnostic → Bool}
    (sorted : ((errors ++ found).filter test).Pairwise (·.start ≤ ·.start)) :
    (merge errors found).filter test = (errors ++ found).filter test :=
  filter_mergeSort_of_pairwise (trans_of_key Diagnostic.start) (total_of_key Diagnostic.start)
    (sorted.imp decide_eq_true)

/-- What starts at one place keeps its order: the errors there come before the findings there. -/
theorem filter_start_merge (start : Text.Offset) : (merge errors found).filter (·.start == start) =
    errors.filter (·.start == start) ++ found.filter (·.start == start) := by
  rw [← List.filter_append]
  refine filter_merge (List.pairwise_of_forall_mem_list fun a here b here' => Nat.le_of_eq ?_)
  rw [beq_iff_eq.mp (List.mem_filter.mp here).2, beq_iff_eq.mp (List.mem_filter.mp here').2]

/-- After a finding, only findings start at the same place. -/
theorem isSome_of_same_start (isError : ∀ d ∈ errors, d.rule = none)
    (isFound : ∀ d ∈ found, d.rule.isSome) {a b : Diagnostic}
    (before : [a, b].Sublist (merge errors found)) (same : a.start = b.start)
    (first : a.rule.isSome) : b.rule.isSome := by
  have here : [a, b].Sublist ((merge errors found).filter (·.start == b.start)) := by
    simpa [same] using before.filter (·.start == b.start)
  rw [filter_start_merge, List.sublist_append_iff] at here
  obtain ⟨early, late, parts, ofErrors, ofFound⟩ := here
  cases early with
  | nil =>
    have mem : b ∈ [] ++ late := parts ▸ List.mem_cons_of_mem a List.mem_cons_self
    exact isFound b (List.mem_filter.mp (ofFound.subset mem)).1
  | cons e rest =>
    obtain ⟨rfl, -⟩ := List.cons_eq_cons.mp parts
    have mem := (List.mem_filter.mp (ofErrors.subset List.mem_cons_self)).1
    simp [isError a mem] at first

theorem interleaves_merge (isError : ∀ d ∈ errors, d.rule = none)
    (isFound : ∀ d ∈ found, d.rule.isSome) (sorted : errors.Pairwise (·.start ≤ ·.start))
    (sorted' : found.Pairwise (·.start ≤ ·.start)) :
    Interleaves errors found (merge errors found) := by
  have allErrors : errors.filter (·.rule.isNone) = errors :=
    List.filter_eq_self.mpr fun d mem => by simp [isError d mem]
  have noErrors : found.filter (·.rule.isNone) = [] :=
    List.filter_eq_nil_iff.mpr fun d mem => by
      simpa using Option.isSome_iff_ne_none.mp (isFound d mem)
  have noFound : errors.filter (·.rule.isSome) = [] :=
    List.filter_eq_nil_iff.mpr fun d mem => by simp [isError d mem]
  have allFound : found.filter (·.rule.isSome) = found := List.filter_eq_self.mpr isFound
  refine ⟨?_, ?_, ?_⟩
  · have parts : (errors ++ found).filter (·.rule.isNone) = errors := by
      rw [List.filter_append, allErrors, noErrors, List.append_nil]
    rw [filter_merge (by rwa [parts]), parts]
  · have parts : (errors ++ found).filter (·.rule.isSome) = found := by
      rw [List.filter_append, noFound, allFound, List.nil_append]
    rw [filter_merge (by rwa [parts]), parts]
  · have inOrder := pairwise_mergeSort_key Diagnostic.start (errors ++ found)
    rw [List.pairwise_iff_forall_sublist] at inOrder ⊢
    intro a b before
    rcases Nat.lt_or_eq_of_le (inOrder before) with lt | same
    · exact .inl lt
    · exact .inr ⟨same, isSome_of_same_start isError isFound before same⟩

theorem start_relabel (category : Category) (d : Diagnostic) :
    (relabel category d).start = d.start := by
  rw [relabel]
  split <;> rfl

/-- The category has no part in the order. -/
theorem map_relabel_merge (category : Category) (errors found : List Diagnostic) :
    (merge errors found).map (relabel category) =
      merge (errors.map (relabel category)) (found.map (relabel category)) := by
  rw [merge, merge, ← List.map_append]
  refine List.map_mergeSort fun a _ b _ => ?_
  simp only [start_relabel]

def errorsOf (file : String) (text : List Char) : List Diagnostic :=
  (Grammar.parseText text).errors.map (Diagnostic.ofSyntaxError file)

def foundIn (file : String) (text : List Char) (environment : Environment) (category : Category) :
    List Diagnostic :=
  (Program.ofText text environment).findings.map (·.toDiagnostic file category)

theorem pairwise_errorsOf (file : String) (text : List Char) :
    (errorsOf file text).Pairwise (·.start ≤ ·.start) :=
  List.pairwise_map.mpr ((Grammar.State.pairwise_syntaxErrors _).1.imp Nat.le_of_lt)

theorem pairwise_foundIn (file : String) (text : List Char) (environment : Environment)
    (category : Category) :
    (foundIn file text environment category).Pairwise (·.start ≤ ·.start) := by
  refine List.pairwise_map.mpr ((pairwise_precedes _).imp fun {a b} h => ?_)
  rcases (precedes_iff a b).mp h with lt | ⟨same, -⟩
  · exact Nat.le_of_lt lt
  · exact Nat.le_of_eq same

theorem lint_of_category {severity : Severity} {category : Category}
    (named : severity.category? = some category) (file : String) (text : List Char)
    (environment : Environment) : lint file text ⟨severity, environment⟩ =
      ⟨merge (errorsOf file text) (foundIn file text environment category),
        (Program.ofText text environment).findings⟩ := by
  simp only [lint, named]
  rfl

theorem map_relabel_lint {severity severity' : Severity} {category category' : Category}
    (named : severity.category? = some category) (named' : severity'.category? = some category')
    (file : String) (text : List Char) (environment : Environment) :
    (lint file text ⟨severity', environment⟩).diagnostics =
      (lint file text ⟨severity, environment⟩).diagnostics.map (relabel category') := by
  rw [lint_of_category named, lint_of_category named', map_relabel_merge, errorsOf,
    foundIn, foundIn,
    List.map_map, List.map_map]
  rfl

/-- Whatever the file, its text and its surroundings, severities only relabel. -/
theorem relabelsOnly_lint (file : String) (text : List Char) (environment : Environment) :
    RelabelsOnly (fun severity => lint file text ⟨severity, environment⟩)
      ((Grammar.parseText text).errors.map (Diagnostic.ofSyntaxError file))
      (fun category f => f.toDiagnostic file category) := by
  have warn : Severity.warn.category? = some .warning := rfl
  have error : Severity.error.category? = some .error := rfl
  refine ⟨rfl, rfl, rfl, map_relabel_lint warn error file text environment,
    map_relabel_lint error warn file text environment, fun severity category named => ?_⟩
  simp only [lint_of_category named]
  refine interleaves_merge (fun d mem => ?_) (fun d mem => ?_) (pairwise_errorsOf file text)
    (pairwise_foundIn file text environment category)
  · obtain ⟨e, -, rfl⟩ := List.mem_map.mp mem
    rfl
  · obtain ⟨f, -, rfl⟩ := List.mem_map.mp mem
    rfl

end Capture
end LoopCapture
