import LoopCapture.Capture.Finding
import LoopCapture.Diagnostic.Record

/-! # Linting a text

The diagnostics of a text are its syntax errors together with the findings of the rule, ordered by
where they start.
-/

namespace LoopCapture.Capture
open Diagnostic (Category formatMessage)
open Scope (Environment)

def ruleName : String := "no-loop-func"

def messageName : String := "unsafeRefs"

def messageTemplate : String :=
  "Function declared in a loop contains unsafe references to variable(s) \x7b0\x7d."

namespace Finding

/-- The names in quotes, separated by commas. -/
def quotedNames (f : Finding) : String :=
  ", ".intercalate (f.names.map fun name => "'" ++ name ++ "'")

def message (f : Finding) : String := formatMessage messageTemplate [f.quotedNames]

def toDiagnostic (f : Finding) (file : String) (category : Category) : Diagnostic :=
  { file, start := f.span.start, length := f.span.size, text := f.message, category, code := 0,
    rule := some ruleName }

end Finding

inductive Severity where
  | off
  | warn
  | error
deriving DecidableEq, Repr, Inhabited

namespace Severity

def word : Severity → String
  | .off => "off"
  | .warn => "warn"
  | .error => "error"

def ofWord? : String → Option Severity
  | "off" => some .off
  | "warn" => some .warn
  | "error" => some .error
  | _ => none

def ofLevel? : Nat → Option Severity
  | 0 => some .off
  | 1 => some .warn
  | 2 => some .error
  | _ => none

/-- The category of findings, none when the rule does not run. -/
def category? : Severity → Option Category
  | .off => none
  | .warn => some .warning
  | .error => some .error

end Severity

structure LintOptions where
  severity : Severity := .error
  environment : Environment := {}
deriving Inhabited

structure LintResult where
  diagnostics : List Diagnostic
  findings : List Finding

namespace LintResult

def errorCount (r : LintResult) : Nat := r.diagnostics.countP (·.isError)

/-- The number of diagnostics that are not errors. -/
def warningCount (r : LintResult) : Nat := r.diagnostics.length - r.errorCount

end LintResult

/-- Lints the text of a file. Syntax errors do not keep the rule from running: it examines the tree
that the text has anyway. -/
def lint (file : String) (text : List Char) (options : LintOptions) : LintResult :=
  let parsed := Grammar.parseText text
  let errors := parsed.errors.map (Diagnostic.ofSyntaxError file)
  match options.severity.category? with
  | none => ⟨errors, []⟩
  | some category =>
    let findings := (Program.ofTree parsed.tree options.environment).findings
    let found := findings.map (·.toDiagnostic file category)
    ⟨(errors ++ found).mergeSort fun a b => a.start ≤ b.start, findings⟩

end LoopCapture.Capture
