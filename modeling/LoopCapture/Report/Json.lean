import LoopCapture.Json.Value
import LoopCapture.Report.File
import LoopCapture.Scope.Outline
import LoopCapture.Text.LineMap

/-! # Reports as JSON

One object for each file, with one object for each of its diagnostics. Lines and columns are counted
in the file that the diagnostic is about.
-/

namespace LoopCapture.Report
open Json (Value)
open Text (LineMap)

def messageValue (map : LineMap) (source : List Char) (d : Diagnostic) : Value :=
  let start := map.place source d.start
  let stop := map.place source (d.start + d.length)
  .object
    ([ ("ruleId", d.rule.elim .null .string),
       ("severity", .natural (if d.isError then 2 else 1)),
       ("message", .string d.text),
       ("line", .natural start.line),
       ("column", .natural start.column),
       ("endLine", .natural stop.line),
       ("endColumn", .natural stop.column) ] ++
      if d.code = 0 then [] else [("code", .natural d.code)])

def fileValue (file : FileReport) : Value :=
  let map := LineMap.ofText file.source
  .object
    [ ("filePath", .string file.name),
      ("messages", .array (file.result.diagnostics.map (messageValue map file.source))),
      ("errorCount", .natural file.result.errorCount),
      ("warningCount", .natural file.result.warningCount) ]

def jsonReport (files : List FileReport) : String := (Value.array (files.map fileValue)).text

def variableValue (v : Scope.VariableOutline) : Value :=
  .object
    [ ("name", .string v.name),
      ("kind", .string v.kind.tag),
      ("references", .natural v.references),
      ("writes", .natural v.writes) ]

mutual

def outlineValue : Scope.Outline → Value
  | .scope kind block range owned through children =>
    .object
      [ ("kind", .string kind.word),
        ("block", .string block),
        ("range", .array [.natural range.start, .natural range.stop]),
        ("variables", .array (owned.map variableValue)),
        ("through", .array (through.map .string)),
        ("children", .array (outlineValues children)) ]

def outlineValues : List Scope.Outline → List Value
  | [] => []
  | o :: rest => outlineValue o :: outlineValues rest

end

def fileOutlineValue (name : String) (outline : Option Scope.Outline) : Value :=
  .object [("file", .string name), ("scopes", outline.elim .null outlineValue)]

end LoopCapture.Report
