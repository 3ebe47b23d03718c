import LoopCapture.Report.File
import LoopCapture.Report.Style
import LoopCapture.Text.LineMap

/-! # Reports as text

A diagnostic is shown as its place, its category, its rule or number and its message, with the line
that it begins on and a line of tildes below what it spans there. The line map of a file is made
when its name first occurs and serves that name from then on.
-/

namespace LoopCapture.Report
open Text (LineMap Offset Place)

/-- The line maps made so far, by the names of their files. -/
abbrev LineMaps := List (String × LineMap)

def lineMapFor (maps : LineMaps) (name : String) (source : List Char) : LineMap × LineMaps :=
  match maps.lookup name with
  | some map => (map, maps)
  | none =>
    let map := LineMap.ofText source
    (map, (name, map) :: maps)

/-- The lines of a text that end in a line feed, each without it and a carriage return before it,
and what follows the last line feed unless it is empty. -/
def displayLines (line : List Char) : List Char → List (List Char)
  | [] => if line.isEmpty then [] else [line.reverse]
  | c :: cs =>
    if c = '\n' then
      (match line with | '\r' :: rest => rest | _ => line).reverse :: displayLines [] cs
    else displayLines (c :: line) cs

/-- The marks below a line from the given column on: tildes from the first place to the second one
or the end of the line, with tabs before them where the line has tabs. -/
def marks (start stop : Place) : Nat → List Char → List Char
  | _, [] => []
  | column, c :: cs =>
    if column < start.column then
      (if c = '\t' then '\t' else ' ') :: marks start stop (column + 1) cs
    else if start.line < stop.line || column < stop.column then
      '~' :: marks start stop (column + 1) cs
    else []

/-- The line of tildes below a line; there is always one. -/
def underline (start stop : Place) (line : List Char) : List Char :=
  let marked := marks start stop 1 line
  if marked.contains '~' then marked else marked ++ ['~']

/-- A number with blanks in front up to a width of three. -/
def padded (n : Nat) : String :=
  let digits := toString n
  String.ofList (List.replicate (3 - digits.length) ' ') ++ digits

/-- The line on which a diagnostic begins, with tildes below it. -/
def snippet (color : Bool) (start stop : Place) (source : List Char) : String :=
  match (displayLines [] source)[start.line - 1]? with
  | none => ""
  | some line =>
    "\n  " ++ padded start.line ++ "   " ++ String.ofList line ++ "\n        " ++
      styled color underlineStyle (String.ofList (underline start stop line))

def codeLabel? (d : Diagnostic) : Option String :=
  match d.rule with
  | some rule => some rule
  | none => if d.code = 0 then none else some ("TS" ++ toString d.code)

def heading (color : Bool) (d : Diagnostic) (start : Place) : String :=
  d.file ++ ":" ++ toString start.line ++ ":" ++ toString start.column ++ " - " ++
    styled color (categoryStyle d.category) d.category.word ++
    ((codeLabel? d).elim "" fun label => " " ++ styled color codeStyle label)

def diagnosticText (color : Bool) (map : LineMap) (d : Diagnostic) (source : List Char) : String :=
  let start := map.place source d.start
  let stop := map.place source (d.start + d.length)
  heading color d start ++ ": " ++ d.text ++ snippet color start stop source

def showDiagnostic (color : Bool) (maps : LineMaps) (d : Diagnostic) (source : List Char) :
    String × LineMaps :=
  let (map, maps) := lineMapFor maps d.file source
  (diagnosticText color map d source, maps)

def showAll (color : Bool) (source : List Char) :
    LineMaps → List Diagnostic → List String × LineMaps
  | maps, [] => ([], maps)
  | maps, d :: rest =>
    let (text, maps) := showDiagnostic color maps d source
    let (texts, maps) := showAll color source maps rest
    (text :: texts, maps)

def showFiles (color : Bool) : LineMaps → List FileReport → List String
  | _, [] => []
  | maps, file :: rest =>
    let (texts, maps) := showAll color file.source maps file.result.diagnostics
    texts ++ showFiles color maps rest

/-- A word in the form that agrees with a number. -/
def plural (count : Nat) (word : String) : String := if count = 1 then word else word ++ "s"

def summary (color : Bool) (errors warnings : Nat) : String :=
  let part (count : Nat) (word : String) := toString count ++ " " ++ plural count word
  styled color (summaryStyle errors)
    ("Found " ++ part (errors + warnings) "problem" ++ " (" ++ part errors "error" ++ ", " ++
      part warnings "warning" ++ ").")

structure Tally where
  errors : Nat := 0
  warnings : Nat := 0

def Tally.count (t : Tally) (d : Diagnostic) : Tally :=
  if d.isError then { t with errors := t.errors + 1 } else { t with warnings := t.warnings + 1 }

def tally (files : List FileReport) : Tally :=
  (files.flatMap (·.result.diagnostics)).foldl Tally.count {}

/-- The text of a report: the diagnostics with an empty line between them, and a summary if there
is anything to sum up. -/
def textReport (color : Bool) (files : List FileReport) : String :=
  let shown := "\n".intercalate ((showFiles color [] files).map (· ++ "\n"))
  let tally := tally files
  if 0 < tally.errors + tally.warnings then
    shown ++ "\n" ++ summary color tally.errors tally.warnings ++ "\n"
  else shown

end LoopCapture.Report
