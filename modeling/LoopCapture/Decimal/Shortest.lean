/-! # Shortest decimals

A binary fraction is read back from any decimal that lies in the interval of numbers around it that
round to it. The shortest of these is the one on the coarsest decimal grid; of two on one grid the
nearer is taken, and of two equally near ones the even one.
-/

namespace LoopCapture.Decimal

/-- The number `digits · 10 ^ scale`. -/
structure Scaled where
  digits : Nat
  scale : Int
deriving DecidableEq, Repr, Inhabited

/-- The numbers from `low / unit` to `high / unit` around `value / unit`. -/
structure Interval where
  low : Nat
  value : Nat
  high : Nat
  unit : Nat
  isClosed : Bool
deriving Repr

namespace Interval

/-- A fraction over the unit of an interval lies in it. -/
def holds (i : Interval) (numerator : Nat) : Bool :=
  if i.isClosed then i.low ≤ numerator && numerator ≤ i.high
  else i.low < numerator && numerator < i.high

/-- The interval whose numbers are multiplied by a power of ten. -/
def times (i : Interval) (power : Nat) : Interval :=
  let factor := Nat.pow 10 power
  { i with low := i.low * factor, value := i.value * factor, high := i.high * factor }

def distance (a b : Nat) : Nat := (a - b) + (b - a)

/-- The multiple of a step in an interval that is nearest to its value, if one of the two around the
value lies in it. -/
def nearest? (i : Interval) (step : Nat) : Option Nat :=
  let below := i.value / (step * i.unit)
  let place (n : Nat) : Nat := n * step * i.unit
  match i.holds (place below), i.holds (place (below + 1)) with
  | false, false => none
  | true, false => some below
  | false, true => some (below + 1)
  | true, true =>
    let (d, e) := (distance i.value (place below), distance i.value (place (below + 1)))
    if d < e || (d == e && below % 2 == 0) then some below else some (below + 1)

/-- The nearest number on the grid of a power of ten. -/
def onGrid? (i : Interval) (scale : Int) : Option Scaled :=
  let hit :=
    if 0 ≤ scale then i.nearest? (Nat.pow 10 scale.toNat)
    else (i.times (-scale).toNat).nearest? 1
  hit.map fun digits => { digits, scale }

/-- The number on the coarsest grid, from the given power of ten down. -/
def coarsest (i : Interval) : Nat → Int → Scaled
  | 0, scale => { digits := 0, scale }
  | n + 1, scale =>
    match i.onGrid? scale with
    | some s => s
    | none => coarsest i n (scale - 1)

end Interval

/-- The numbers that round to the binary fraction with the given significand and power of two. The
gap below a power of two is half as wide as the gap above it. -/
def roundingInterval (significand : Nat) (power : Int) (hasNarrowGap : Bool) : Interval :=
  let up : Nat := Nat.pow 2 (power - 2).toNat
  let narrow : Nat := if hasNarrowGap then 1 else 2
  { low := (4 * significand - narrow) * up
    value := 4 * significand * up
    high := (4 * significand + 2) * up
    unit := Nat.pow 2 (2 - power).toNat
    isClosed := significand % 2 == 0 }

/-- The shortest decimal that reads back as a finite binary fraction, its sign left aside. -/
def shortest (x : Float) : Scaled :=
  let bits := x.toBits.toNat
  let exponent := bits / Nat.pow 2 52 % Nat.pow 2 11
  let fraction := bits % Nat.pow 2 52
  if exponent = 0 && fraction = 0 then { digits := 0, scale := 0 }
  else
    let significand := if exponent = 0 then fraction else fraction + Nat.pow 2 52
    let power : Int := (max exponent 1 : Nat) - 1075
    (roundingInterval significand power (fraction = 0 && 1 < exponent)).coarsest 700 310

end LoopCapture.Decimal
