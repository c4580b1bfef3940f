import MapFilter.Decimal.Binary

/-!
# Shortest decimals

Of all decimal numbers that are nearer to a given number than to its neighbours, the ones with the
fewest digits are sought, and of these the nearest one.
-/

namespace MapFilter

/-- The number `digits · 10 ^ exponent`. -/
structure Decimal where
  digits : Nat
  exponent : Int
deriving DecidableEq, Repr

namespace Shortest

/-- The reals that are read as a given number, in quarters of a unit. The ends belong to them if
the number's last binary digit is even. -/
structure Interval where
  low : Nat
  value : Nat
  high : Nat
  closed : Bool
deriving DecidableEq, Repr

/-- The interval of a number of units. Below a power of two the neighbour is half as far away. -/
def interval (units : Nat) : Interval :=
  let gap := Binary.spacing units
  let narrow := units == gap * Nat.pow 2 52 && gap != 1
  { low := 4 * units - (if narrow then gap else 2 * gap)
    value := 4 * units
    high := 4 * units + 2 * gap
    closed := units / gap % 2 == 0 }

/-- A decimal number and a number of quarter units, both as multiples of a common small part. -/
def align (quarters : Nat) (d : Decimal) : Nat × Nat :=
  if 0 ≤ d.exponent then (quarters, d.digits * Nat.pow 10 d.exponent.toNat * (4 * Binary.one))
  else (quarters * Nat.pow 10 (-d.exponent).toNat, d.digits * (4 * Binary.one))

/-- Whether a decimal number lies in an interval. -/
def Interval.contains (i : Interval) (d : Decimal) : Bool :=
  let (low, atLow) := align i.low d
  let (high, atHigh) := align i.high d
  if i.closed then low ≤ atLow && atHigh ≤ high else low < atLow && atHigh < high

/-- The least `p` such that a number of units is below `10 ^ p`. -/
def magnitude (units : Nat) : Int :=
  (Nat.toDigits 10 (units * Nat.pow 10 330 / Binary.one)).length - 330

/-- The digits of a number of quarter units down to the place `10 ^ exponent`. -/
def floorAt (quarters : Nat) (exponent : Int) : Nat :=
  if 0 ≤ exponent then quarters / (Nat.pow 10 exponent.toNat * (4 * Binary.one))
  else quarters * Nat.pow 10 (-exponent).toNat / (4 * Binary.one)

/-- The decimal number of at most `count` digits in an interval that is nearest to its value; of
two equally near ones, the one with an even last digit. -/
def withDigits (i : Interval) (magnitude : Int) (count : Nat) : Option Decimal :=
  let exponent := magnitude - count
  let below : Decimal := ⟨floorAt i.value exponent, exponent⟩
  let above : Decimal := ⟨below.digits + 1, exponent⟩
  match i.contains below, i.contains above with
  | true, true =>
    let (twice, sum) := align (2 * i.value) ⟨below.digits + above.digits, exponent⟩
    if twice < sum then some below
    else if sum < twice then some above
    else if below.digits % 2 == 0 then some below else some above
  | true, false => some below
  | false, true => some above
  | false, false => none

/-- The shortest decimal of a number of units. Seventeen digits are always enough. -/
def decimal (units : Nat) : Decimal :=
  let i := interval units
  let m := magnitude units
  ((List.range 17).findSome? fun n => withDigits i m (n + 1)).getD ⟨units * Nat.pow 5 1074, -1074⟩

end Shortest

end MapFilter
