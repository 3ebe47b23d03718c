import LoopCapture.Json.Number
import LoopCapture.Json.Value
import LoopCapture.Text.Measure
import LoopCapture.Text.Quoted

/-! # Reading JSON

A reader takes what it needs from the front of a text and fails at the first fault. Readers of
arrays and objects are given a reader for what stands inside, so that a fault in the wording and a
value of the wrong type are met in the order of the text. Nesting is counted: a reader is told how
many levels it may still open.
-/

namespace LoopCapture.Json
open Text (byteSize quoted)

/-- Takes a value from the front of a text. -/
abbrev Reader := StateT (List Char) (Except Fault)

/-- How many levels of arrays and objects a text may open. -/
def levelLimit : Nat := 127

def hexDigit? (c : Char) : Option Nat :=
  if c.isDigit then some (c.toNat - '0'.toNat)
  else if 'a' ≤ c && c ≤ 'f' then some (c.toNat - 'a'.toNat + 10)
  else if 'A' ≤ c && c ≤ 'F' then some (c.toNat - 'A'.toNat + 10)
  else none

def hexUnit (cs : List Char) : Except Fault Nat :=
  match cs.take 4 |>.mapM hexDigit? with
  | some [a, b, c, d] => .ok (((a * 16 + b) * 16 + c) * 16 + d)
  | _ => .error (if byteSize cs < 4 then .truncated else .malformed)

/-- The character whose number follows the letter of an escape, in one unit or a pair of units,
and how many characters write it. -/
def numberedChar (cs : List Char) : Except Fault (Char × Nat) := do
  let high ← hexUnit cs
  if 0xDC00 ≤ high && high ≤ 0xDFFF then throw .malformed
  if high < 0xD800 || 0xDBFF < high then return (Char.ofNat high, 4)
  match cs.drop 4 with
  | [] | ['\\'] => throw .truncated
  | '\\' :: 'u' :: rest =>
    let low ← hexUnit rest
    if low < 0xDC00 || 0xDFFF < low then throw .malformed
    return (Char.ofNat ((high - 0xD800) * 0x400 + (low - 0xDC00) + 0x10000), 10)
  | _ => throw .malformed

def escapeAt : List Char → Except Fault (Char × Nat)
  | [] => .error .truncated
  | '"' :: _ => .ok ('"', 1)
  | '\\' :: _ => .ok ('\\', 1)
  | '/' :: _ => .ok ('/', 1)
  | 'b' :: _ => .ok ('\x08', 1)
  | 'f' :: _ => .ok ('\x0c', 1)
  | 'n' :: _ => .ok ('\n', 1)
  | 'r' :: _ => .ok ('\r', 1)
  | 't' :: _ => .ok ('\t', 1)
  | 'u' :: rest => (numberedChar rest).map fun (c, count) => (c, count + 1)
  | _ :: _ => .error .malformed

def stringTail : List Char → Except Fault (List Char × List Char)
  | [] => .error .truncated
  | c :: cs =>
    if c = '"' then .ok ([], cs)
    else if c = '\\' then
      match escapeAt cs with
      | .error fault => .error fault
      | .ok (d, count) => (stringTail (cs.drop count)).map fun (text, rest) => (d :: text, rest)
    else if c.val < 32 then .error .malformed
    else (stringTail cs).map fun (text, rest) => (c :: text, rest)
termination_by cs => cs.length
decreasing_by all_goals simp only [List.length_drop, List.length_cons]; omega

namespace Reader

/-- The characters that may stand between tokens. -/
def isSpace (c : Char) : Bool := c == ' ' || c == '\n' || c == '\t' || c == '\r'

/-- Skips blanks and looks at the next character. -/
def peek? : Reader (Option Char) := do
  modify (·.dropWhile isSpace)
  return (← get).head?

/-- Skips blanks and looks at the next character, which must be there. -/
def peek : Reader Char := do
  match ← peek? with
  | some c => return c
  | none => throw .truncated

def skip : Reader Unit := modify List.tail

def word : List Char → Reader Unit
  | [] => return ()
  | expected :: rest => do
    match ← get with
    | [] => throw .truncated
    | c :: cs =>
      if c ≠ expected then throw .malformed
      set cs
      word rest

/-- Takes a part of the text with a function that tells what is left. -/
def take {α : Type} (f : List Char → Except Fault (α × List Char)) : Reader α := f

def stringHere : Reader String := do
  skip
  return String.ofList (← take stringTail)

def number : Reader Number := do
  if (← get).head? = some '-' then
    skip
    take (readNumber true)
  else take (readNumber false)

/-- Nothing but blanks may be left. -/
def finish : Reader Unit := do
  if (← peek?).isSome then throw .malformed

/-- Whether another element follows. -/
def hasElement (isFirst : Bool) : Reader Bool := do
  if (← peek) = ']' then return false
  if isFirst then return true
  if (← peek) ≠ ',' then throw .malformed
  skip
  if (← peek) = ']' then throw .malformed
  return true

/-- Whether another member follows; its key is then next. -/
def hasMember (isFirst : Bool) : Reader Bool := do
  if (← peek) = '\x7d' then return false
  if !isFirst then
    if (← peek) ≠ ',' then throw .malformed
    skip
  if (← peek) ≠ '"' then throw .malformed
  return true

def colon : Reader Unit := do
  if (← peek) ≠ ':' then throw .malformed
  skip

def close (mark : Char) : Reader Unit := do
  if (← peek) ≠ mark then throw .malformed
  skip

/-- Takes what stands between two marks, one level down. -/
def nested {α : Type} (levels : Nat) (mark : Char) (inside : Nat → Reader α) : Reader α :=
  match levels with
  | 0 => throw .malformed
  | n + 1 => do
    skip
    let a ← inside n
    close mark
    return a

/-- Takes elements as long as there are any, as many as the count allows. -/
def elementsUpTo {α : Type} (element : Reader α) : Nat → Bool → Reader (List α)
  | 0, _ => return []
  | n + 1, isFirst => do
    if ← hasElement isFirst then
      let a ← element
      return a :: (← elementsUpTo element n false)
    else return []

/-- Takes all elements. Each takes a character at least. -/
def elements {α : Type} (element : Reader α) : Reader (List α) := do
  elementsUpTo element (← get).length true

/-- Takes the next element of an array if there is one. -/
def element? {α : Type} (isFirst : Bool) (element : Reader α) : Reader (Option α) := do
  if ← hasElement isFirst then return some (← element) else return none

/-- Takes members as long as there are any, as many as the count allows. Each key is handed on
together with what the members before have made. -/
def membersUpTo {α : Type} (member : α → String → Reader α) : Nat → Bool → α → Reader α
  | 0, _, a => return a
  | n + 1, isFirst, a => do
    if ← hasMember isFirst then
      let key ← stringHere
      membersUpTo member n false (← member a key)
    else return a

def members {α : Type} (member : α → String → Reader α) (start : α) : Reader α := do
  membersUpTo member (← get).length true start

def valueOf : Number → Value
  | .integer n => .integer n
  | x => .fraction x.text

def scalar : Reader Value := do
  match ← peek with
  | 'n' => skip; word ['u', 'l', 'l']; return .null
  | 't' => skip; word ['r', 'u', 'e']; return .boolean true
  | 'f' => skip; word ['a', 'l', 's', 'e']; return .boolean false
  | '"' => return .string (← stringHere)
  | c => if c = '-' || c.isDigit then return valueOf (← number) else throw .malformed

/-- Takes a value of any type that opens as many levels as are given. -/
def value : Nat → Reader Value
  | 0 => scalar
  | n + 1 => do
    match ← peek with
    | '[' => return .array (← nested (n + 1) ']' fun _ => elements (value n))
    | '\x7b' =>
      let member (before : List (String × Value)) (key : String) :
          Reader (List (String × Value)) := do
        colon
        return (key, ← value n) :: before
      return .object (← nested (n + 1) '\x7d' fun _ => members member []).reverse
    | _ => scalar

/-- Fails on a value of another type than the expected one. The value is taken first unless it is an
array or object. -/
def mismatch {α : Type} (expected : String) : Reader α := do
  let found ← match ← peek with
    | '[' => pure "sequence"
    | '\x7b' => pure "map"
    | _ =>
      match ← scalar with
      | .null => pure "null"
      | .boolean b => pure s!"boolean \x60{b}\x60"
      | .integer n => pure s!"integer \x60{n}\x60"
      | .fraction text => pure s!"floating point \x60{text}\x60"
      | .string s => pure s!"string {quoted s}"
      | _ => pure ""
  throw (.unfit s!"invalid type: {found}, expected {expected}")

def string (expected : String) : Reader String := do
  if (← peek) = '"' then stringHere else mismatch expected

/-- Takes an array whose elements all have one type. -/
def list {α : Type} (levels : Nat) (element : Nat → Reader α) : Reader (List α) := do
  if (← peek) = '[' then nested levels ']' fun n => elements (element n) else mismatch "a sequence"

/-- Takes an object whose keys are not fixed. -/
def map {α : Type} (levels : Nat) (member : Nat → α → String → Reader α) (start : α) :
    Reader α := do
  if (← peek) = '\x7b' then nested levels '\x7d' fun n => members (member n) start
  else mismatch "a map"

/-- Takes an object with fixed keys, which may also be written as the array of its values. -/
def record {α : Type} (levels : Nat) (name : String) (inOrder : Nat → Reader α)
    (member : Nat → α → String → Reader α) (start : α) : Reader α := do
  match ← peek with
  | '[' => nested levels ']' inOrder
  | '\x7b' => nested levels '\x7d' fun n => members (member n) start
  | _ => mismatch s!"struct {name}"

/-- The names that are allowed, in prose. -/
def choices : List String → String
  | [] => "there are none"
  | [a] => s!"\x60{a}\x60"
  | [a, b] => s!"\x60{a}\x60 or \x60{b}\x60"
  | names => "one of " ++ ", ".intercalate (names.map fun name => s!"\x60{name}\x60")

/-- Fails on a key that is not among the fixed ones. -/
def unknownField {α : Type} (key : String) (known : List String) : Reader α :=
  throw (.unfit s!"unknown field \x60{key}\x60, expected {choices known}")

/-- Takes the value of a fixed key, which may have one only. -/
def field {α : Type} (key : String) (held : Option α) (value : Reader α) : Reader (Option α) := do
  if held.isSome then throw (.unfit s!"duplicate field \x60{key}\x60")
  colon
  return some (← value)

/-- Takes one of some names, or an object with the name for its one key and nothing for its
value. -/
def choice {α : Type} (levels : Nat) (names : List String) (ofName? : String → Option α) :
    Reader α := do
  let name : Reader α := do
    let s ← string "variant identifier"
    match ofName? s with
    | some a => return a
    | none => throw (.unfit s!"unknown variant \x60{s}\x60, expected {choices names}")
  match ← peek with
  | '"' => name
  | '\x7b' =>
    nested levels '\x7d' fun _ => do
      let a ← name
      colon
      if (← peek) = 'n' then
        discard scalar
        return a
      mismatch "unit"
  | _ => throw .malformed

def run {α : Type} (r : Reader α) (text : String) : Except Fault α :=
  (do let a ← r; finish; return a : Reader α).run' text.toList

end Reader
end LoopCapture.Json
