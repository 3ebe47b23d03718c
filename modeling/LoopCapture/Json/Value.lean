/-! # JSON values

Values with their printed form: two blanks for each level, one element or member on a line, and
empty arrays and objects closed at once. Members keep their order.
-/

namespace LoopCapture.Json

/-- A JSON value. A number that is not an integer of 64 bits is kept as its text. -/
inductive Value where
  | null
  | boolean (b : Bool)
  | integer (n : Int)
  | fraction (text : String)
  | string (s : String)
  | array (elements : List Value)
  | object (members : List (String × Value))
deriving Inhabited

/-- The escape of a control character without a letter of its own. -/
def controlEscape (c : Char) : List Char :=
  let digits := Nat.toDigits 16 c.toNat
  ['\\', 'u'] ++ List.replicate (4 - digits.length) '0' ++ digits

def escapedChar (c : Char) : List Char :=
  match c with
  | '"' => ['\\', '"']
  | '\\' => ['\\', '\\']
  | '\x08' => ['\\', 'b']
  | '\x0c' => ['\\', 'f']
  | '\n' => ['\\', 'n']
  | '\r' => ['\\', 'r']
  | '\t' => ['\\', 't']
  | c => if c.val < 32 then controlEscape c else [c]

def escaped (s : String) : String :=
  String.ofList ('"' :: s.toList.flatMap escapedChar ++ ['"'])

/-- The start of a line at a level. -/
def lineStart (level : Nat) : String := "\n" ++ String.ofList (List.replicate (2 * level) ' ')

mutual

/-- The text of a value that begins on a line of the given level. -/
def Value.textAt (level : Nat) : Value → String
  | .null => "null"
  | .boolean b => if b then "true" else "false"
  | .integer n => toString n
  | .fraction text => text
  | .string s => escaped s
  | .array [] => "[]"
  | .array (e :: es) =>
    "[" ++ lineStart (level + 1) ++ e.textAt (level + 1) ++ elementsText (level + 1) es ++
      lineStart level ++ "]"
  | .object [] => "\x7b\x7d"
  | .object ((key, v) :: ms) =>
    "\x7b" ++ lineStart (level + 1) ++ escaped key ++ ": " ++ v.textAt (level + 1) ++
      membersText (level + 1) ms ++ lineStart level ++ "\x7d"

def elementsText (level : Nat) : List Value → String
  | [] => ""
  | e :: es => "," ++ lineStart level ++ e.textAt level ++ elementsText level es

def membersText (level : Nat) : List (String × Value) → String
  | [] => ""
  | (key, v) :: ms =>
    "," ++ lineStart level ++ escaped key ++ ": " ++ v.textAt level ++ membersText level ms

end

def Value.text (v : Value) : String := v.textAt 0

def Value.natural (n : Nat) : Value := .integer n

end LoopCapture.Json
