import LoopCapture.Decimal.Shortest
import LoopCapture.Json.Fault

/-! # JSON numbers

A number is an integer if it is written without a point and an exponent and fits 64 bits. All others
are binary fractions, found from the leading digits that fit 64 bits by one multiplication or
division with a power of ten, so that the last bit may be off.
-/

namespace LoopCapture.Json
open Decimal (Scaled shortest)

/-- The largest natural of 64 bits. -/
def maxNatural : Nat := Nat.pow 2 64 - 1

def maxExponent : Nat := Nat.pow 2 31 - 1

/-- The most negative integer of 64 bits, its sign left aside. -/
def maxNegative : Nat := Nat.pow 2 63

def digit? (c : Char) : Option Nat := if c.isDigit then some (c.toNat - '0'.toNat) else none

/-- A number that was read. -/
inductive Number where
  | integer (n : Int)
  | fraction (isNegative : Bool) (magnitude : Float)

namespace Number

def exponentText (n : Int) : String := (if n < 0 then "e-" else "e+") ++ toString n.natAbs

/-- The digits of a decimal with its point or exponent. Numbers below ten to the sixteenth and from
ten to the minus fifth up are written without an exponent. -/
def layout (s : Scaled) : String :=
  let digits := toString s.digits
  let count := digits.length
  let point := (count : Int) + s.scale
  if 0 ≤ s.scale && point ≤ 16 then
    digits ++ String.ofList (List.replicate s.scale.toNat '0') ++ ".0"
  else if 0 < point && point ≤ 16 then
    String.ofList (digits.toList.take point.toNat) ++ "." ++
      String.ofList (digits.toList.drop point.toNat)
  else if -5 < point && point ≤ 0 then
    "0." ++ String.ofList (List.replicate (-point).toNat '0') ++ digits
  else
    let lead := digits.toList.take 1
    let rest := digits.toList.drop 1
    String.ofList (if rest.isEmpty then lead else lead ++ '.' :: rest) ++ exponentText (point - 1)

/-- The shortest text of a number. -/
def text : Number → String
  | .integer n => toString n
  | .fraction isNegative magnitude =>
    (if isNegative then "-" else "") ++ layout (shortest magnitude)

end Number

/-- A significand times a power of ten. What is too large is refused, what is too small is zero. -/
def scaled (f : Float) (exponent : Int) : Except Fault Float :=
  if exponent.natAbs ≤ 308 then
    let power := Float.ofScientific 1 false exponent.natAbs
    if exponent < 0 then .ok (f / power)
    else if (f * power).isInf then .error .malformed else .ok (f * power)
  else if f == 0 then .ok f
  else if 0 ≤ exponent then .error .malformed
  else scaled (f / 1e308) (exponent + 308)
termination_by exponent.natAbs
decreasing_by omega

/-- The fraction with a significand and an exponent. -/
def fractionOf (isNegative : Bool) (significand : Nat) (exponent : Int) : Except Fault Number := do
  return .fraction isNegative (← scaled (Float.ofNat significand) exponent)

/-- Takes digits into a natural as long as the limit allows; what was taken is counted. -/
def takeDigits (limit : Nat) (n count : Nat) : List Char → Nat × Nat × List Char
  | [] => (n, count, [])
  | c :: cs =>
    match digit? c with
    | none => (n, count, c :: cs)
    | some d =>
      if limit < n * 10 + d then (n, count, c :: cs)
      else takeDigits limit (n * 10 + d) (count + 1) cs

def readExponent (isNegative : Bool) (significand : Nat) (base : Int) (cs : List Char) :
    Except Fault (Number × List Char) := do
  let (down, cs) := match cs with
    | '+' :: rest => (false, rest)
    | '-' :: rest => (true, rest)
    | _ => (false, cs)
  match cs with
  | [] => throw .truncated
  | c :: _ =>
    if (digit? c).isNone then throw .malformed
    let (n, _, rest) := takeDigits maxExponent 0 0 cs
    if (rest.head?.bind digit?).isSome then
      if significand ≠ 0 && !down then throw .malformed
      return (.fraction isNegative 0, rest.dropWhile Char.isDigit)
    let exponent := if down then base - n else base + n
    return (← fractionOf isNegative significand exponent, rest)

def readScale (isNegative : Bool) (significand : Nat) (base : Int) (cs : List Char) :
    Except Fault (Number × List Char) := do
  match cs with
  | 'e' :: rest | 'E' :: rest => readExponent isNegative significand base rest
  | _ => return (← fractionOf isNegative significand base, cs)

/-- Reads what follows the point. Digits that do not fit are skipped. -/
def readDecimals (isNegative : Bool) (significand : Nat) (base : Int) (cs : List Char) :
    Except Fault (Number × List Char) := do
  let (n, count, rest) := takeDigits maxNatural significand 0 cs
  match rest with
  | [] => if count = 0 then throw .truncated
  | c :: _ => if count = 0 && (digit? c).isNone then throw .malformed
  readScale isNegative n (base - count) (rest.dropWhile Char.isDigit)

/-- An integer, or the fraction it is when it has no place among the integers. -/
def wholeNumber (isNegative : Bool) (n : Nat) : Number :=
  if !isNegative then .integer n
  else if n = 0 || maxNegative < n then .fraction true (Float.ofNat n)
  else .integer (-n)

def readNumber (isNegative : Bool) (cs : List Char) : Except Fault (Number × List Char) := do
  match cs with
  | [] => throw .truncated
  | c :: tail =>
    if (digit? c).isNone then throw .malformed
    if c = '0' && (tail.head?.bind digit?).isSome then throw .malformed
    let (n, _, rest) := takeDigits maxNatural 0 0 cs
    let surplus := (rest.takeWhile Char.isDigit).length
    match rest.dropWhile Char.isDigit with
    | '.' :: after => readDecimals isNegative n surplus after
    | 'e' :: after | 'E' :: after => readExponent isNegative n surplus after
    | after =>
      if surplus = 0 then return (wholeNumber isNegative n, after)
      return (← fractionOf isNegative n surplus, after)

end LoopCapture.Json
