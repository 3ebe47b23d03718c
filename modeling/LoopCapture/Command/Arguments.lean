/-! # Command line arguments

Options may stand between the paths, in a long form or as letters that share one dash; after two
dashes everything is a path. The value of an option is checked when the next option, the next path
or the end of the line comes, unless it is attached to the option.
-/

namespace LoopCapture.Command

inductive Format where
  | text
  | json
deriving DecidableEq, Repr, Inhabited

structure Arguments where
  paths : List String := []
  config : Option String := none
  format : Format := .text
  noColor : Bool := false
  maxWarnings : Option Nat := none
  quiet : Bool := false
  globals : List String := []
  printScopes : Bool := false
deriving Repr, Inhabited

/-- Why a command line asks for nothing that can be done. -/
inductive UsageFault where
  | invalidValue
  | invalidNumber
  | unknownArgument
  | repeatedArgument
  | unneededValue
  | helpWanted
  | versionWanted
deriving DecidableEq, Repr

inductive ValueOption where
  | config
  | format
  | maxWarnings
  | global
deriving DecidableEq, Repr

inductive Switch where
  | noColor
  | quiet
  | printScopes
  | help
  | version
deriving DecidableEq, Repr

inductive OptionName where
  | valued (o : ValueOption)
  | switch (s : Switch)
deriving DecidableEq, Repr

def OptionName.ofWord? : String → Option OptionName
  | "config" => some (.valued .config)
  | "format" => some (.valued .format)
  | "max-warnings" => some (.valued .maxWarnings)
  | "global" => some (.valued .global)
  | "no-color" => some (.switch .noColor)
  | "quiet" => some (.switch .quiet)
  | "print-scopes" => some (.switch .printScopes)
  | "help" => some (.switch .help)
  | "version" => some (.switch .version)
  | _ => none

def OptionName.ofLetter? : Char → Option OptionName
  | 'c' => some (.valued .config)
  | 'f' => some (.valued .format)
  | 'q' => some (.switch .quiet)
  | 'h' => some (.switch .help)
  | 'V' => some (.switch .version)
  | _ => none

/-- What has been read and is not checked yet. -/
inductive Pending where
  | nothing
  | paths (values : List String)
  | awaiting (o : ValueOption)
  | holding (o : ValueOption) (value : String)

/-- What has been read of a command line. A format is absent until it is given. -/
structure Draft where
  arguments : Arguments := {}
  format : Option Format := none
  pending : Pending := .nothing
  pathsOnly : Bool := false

/-- A natural of 64 bits in decimal digits, with a plus sign or without. -/
def countOf? (text : String) : Option Nat :=
  let digits := match text.toList with | '+' :: rest => rest | cs => cs
  if digits.isEmpty || !digits.all Char.isDigit then none
  else
    let n := digits.foldl (fun n c => n * 10 + (c.toNat - '0'.toNat)) 0
    if n < Nat.pow 2 64 then some n else none

def Format.ofWord? : String → Option Format
  | "text" => some .text
  | "json" => some .json
  | _ => none

namespace Draft

/-- Gives an option a value. Only globals may be given more than once. -/
def give (d : Draft) (o : ValueOption) (value : String) : Except UsageFault Draft :=
  let a := d.arguments
  match o with
  | .config =>
    if a.config.isSome then .error .repeatedArgument
    else if value.isEmpty then .error .invalidValue
    else .ok { d with arguments := { a with config := some value } }
  | .format =>
    if d.format.isSome then .error .repeatedArgument
    else
      match Format.ofWord? value with
      | some format => .ok { d with format := some format }
      | none => .error .invalidValue
  | .maxWarnings =>
    if a.maxWarnings.isSome then .error .repeatedArgument
    else
      match countOf? value with
      | some n => .ok { d with arguments := { a with maxWarnings := some n } }
      | none => .error .invalidNumber
  | .global => .ok { d with arguments := { a with globals := a.globals ++ [value] } }

/-- Checks what is pending. -/
def settle (d : Draft) : Except UsageFault Draft :=
  let settled := { d with pending := .nothing }
  match d.pending with
  | .nothing => .ok settled
  | .awaiting _ => .error .invalidValue
  | .holding o value => settled.give o value
  | .paths values =>
    if values.any (·.isEmpty) then .error .invalidValue
    else
      let paths := d.arguments.paths ++ values.reverse
      .ok { settled with arguments := { d.arguments with paths } }

/-- Turns a switch on, which can be done once. -/
def turnOn (d : Draft) (s : Switch) : Except UsageFault Draft := do
  let d ← d.settle
  let a := d.arguments
  match s with
  | .help => throw .helpWanted
  | .version => throw .versionWanted
  | .noColor =>
    if a.noColor then throw .repeatedArgument
    return { d with arguments := { a with noColor := true } }
  | .quiet =>
    if a.quiet then throw .repeatedArgument
    return { d with arguments := { a with quiet := true } }
  | .printScopes =>
    if a.printScopes then throw .repeatedArgument
    return { d with arguments := { a with printScopes := true } }

/-- Begins an option that takes a value, which may be attached to it. -/
def start (d : Draft) (o : ValueOption) (attached : Option String) : Except UsageFault Draft := do
  let d ← d.settle
  match attached with
  | some value => d.give o value
  | none => return { d with pending := .awaiting o }

def readLong (d : Draft) (name : List Char) : Except UsageFault Draft :=
  let value := match name.dropWhile (· ≠ '=') with
    | [] => none
    | _ :: rest => some (String.ofList rest)
  match OptionName.ofWord? (String.ofList (name.takeWhile (· ≠ '='))), value with
  | none, _ => .error .unknownArgument
  | some (.switch _), some _ => .error .unneededValue
  | some (.switch s), none => d.turnOn s
  | some (.valued o), value => d.start o value

/-- Reads options in their short form. What follows the letter of an option with a value is the
value, an equals sign in front of it left aside. -/
def readShort (d : Draft) : List Char → Except UsageFault Draft
  | [] => .ok d
  | letter :: rest =>
    match OptionName.ofLetter? letter with
    | none => .error .unknownArgument
    | some (.switch s) =>
      match d.turnOn s with
      | .ok d => d.readShort rest
      | .error fault => .error fault
    | some (.valued o) =>
      match rest with
      | [] => d.start o none
      | '=' :: value => d.start o (some (String.ofList value))
      | value => d.start o (some (String.ofList value))

def readPath (d : Draft) (path : String) : Except UsageFault Draft := do
  match d.pending with
  | .paths values => return { d with pending := .paths (path :: values) }
  | _ =>
    let d ← d.settle
    return { d with pending := .paths [path] }

def read (d : Draft) (argument : String) : Except UsageFault Draft :=
  if d.pathsOnly then d.readPath argument
  else
    match argument.toList, d.pending with
    | ['-', '-'], _ => .ok { d with pathsOnly := true }
    | '-' :: '-' :: name, _ => d.readLong name
    | '-' :: letter :: letters, _ => d.readShort (letter :: letters)
    | _, .awaiting o => .ok { d with pending := .holding o argument }
    | _, _ => d.readPath argument

end Draft

def UsageFault.text : UsageFault → String
  | .invalidValue => "an option or path has an invalid value"
  | .invalidNumber => "--max-warnings needs a number"
  | .unknownArgument => "unknown option"
  | .repeatedArgument => "an option is given more than once"
  | .unneededValue => "an option does not take a value"
  | .helpWanted =>
    "Find closures created in loops that capture loop-varying variables\n\n" ++
      "Usage: loopguard [OPTIONS] [PATHS]...\n\nOptions:\n" ++
      "  -c, --config <CONFIG>         Path to a loopguard.json file\n" ++
      "  -f, --format <FORMAT>         Output format: text or json\n" ++
      "      --no-color                Disable colored output\n" ++
      "      --max-warnings <N>        Exit with status 1 when there are more warnings\n" ++
      "  -q, --quiet                   Report errors only\n" ++
      "      --global <NAME[:ACCESS]>  Declare a global variable\n" ++
      "      --print-scopes            Print the scope graph of each file as JSON\n" ++
      "  -h, --help                    Print help\n" ++
      "  -V, --version                 Print version"
  | .versionWanted => "loopguard 0.1.0"

/-- The user asked for what is printed, which is then no fault. -/
def UsageFault.isWanted : UsageFault → Bool
  | .helpWanted | .versionWanted => true
  | _ => false

def Arguments.ofWords (words : List String) : Except UsageFault Arguments := do
  let d ← (← words.foldlM Draft.read {}).settle
  return { d.arguments with format := d.format.getD .text }

end LoopCapture.Command
