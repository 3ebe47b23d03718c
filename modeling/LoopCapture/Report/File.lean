import LoopCapture.Capture.Lint

/-! # What is reported about a file -/

namespace LoopCapture.Report
open Capture (LintResult)

structure FileReport where
  name : String
  source : List Char
  result : LintResult

def errorCount (files : List FileReport) : Nat :=
  files.foldr (fun file n => file.result.errorCount + n) 0

def warningCount (files : List FileReport) : Nat :=
  files.foldr (fun file n => file.result.warningCount + n) 0

def FileReport.errorsOnly (file : FileReport) : FileReport :=
  { file with
    result := { file.result with diagnostics := file.result.diagnostics.filter (·.isError) } }

end LoopCapture.Report
