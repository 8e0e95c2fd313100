import DomainSql.Decimal.Binary64

/-!
# The shortest decimal of a floating-point number

The decimals that read back as a given number fill an interval around it. The
shortest decimal is searched on coarser to finer grids `10 ^ place`: on the first
grid that has a point in the interval, the point nearest to the number is taken.
When two points are equally near, the caller's rule decides.
-/

namespace DomainSql

/-- Which of two equally near decimals is taken. -/
inductive Tie
  | toEven
  | away
  deriving DecidableEq

/-- The decimal `digits * 10 ^ place`. -/
structure Decimal where
  digits : Nat
  place : Int
  deriving DecidableEq

namespace Decimal

/-- The decimal digits, most significant first. -/
def digitChars (decimal : Decimal) : List Char :=
  Nat.toDigits 10 decimal.digits

/-- The power of ten of the first digit. -/
def leadingPlace (decimal : Decimal) : Int :=
  decimal.place + decimal.digitChars.length - 1

/-- A positive number and the interval of reals that round to it, all over one
denominator. The ends belong to the interval when `closed` holds. -/
structure Interval where
  low : Nat
  value : Nat
  high : Nat
  denominator : Nat
  closed : Bool

namespace Interval

/-- The interval of a finite number other than zero. Above a power of two the
next smaller number is only half as far away as the next larger one. -/
def ofBinary64 (number : Binary64) : Interval :=
  let significand := number.significand
  let below :=
    if number.fraction = 0 && 1 < number.exponentField then 1 else 2
  let scale := number.exponent - 2
  let factor := Nat.pow 2 scale.toNat
  {
    low := (4 * significand - below) * factor
    value := 4 * significand * factor
    high := (4 * significand + 2) * factor
    denominator := Nat.pow 2 (-scale).toNat
    closed := significand % 2 == 0
  }

/-- The same interval measured in units of `10 ^ place`. -/
def inUnits
    (interval : Interval)
    (place : Int) : Interval :=
  let factor := Nat.pow 10 (-place).toNat
  {
    low := interval.low * factor
    value := interval.value * factor
    high := interval.high * factor
    denominator := interval.denominator * Nat.pow 10 place.toNat
    closed := interval.closed
  }

/-- Whether a whole number of units lies in the interval. -/
def holds
    (interval : Interval)
    (units : Nat) : Bool :=
  let point := units * interval.denominator
  if interval.closed then interval.low ≤ point && point ≤ interval.high
  else interval.low < point && point < interval.high

/-- The whole number of units nearest to the value. -/
def nearest
    (interval : Interval)
    (tie : Tie) : Nat :=
  let down := interval.value / interval.denominator
  let twice := 2 * (interval.value % interval.denominator)
  if twice < interval.denominator then down
  else if interval.denominator < twice then down + 1
  else
    match tie with
    | .toEven => down + down % 2
    | .away => down + 1

/-- The point of the interval nearest to the value, if it has one: the nearer
neighbour of the value when it lies in the interval, else the other one. -/
def pick
    (interval : Interval)
    (tie : Tie) : Option Nat :=
  let down := interval.value / interval.denominator
  let near := interval.nearest tie
  let far := if near = down then down + 1 else down
  if interval.holds near then some near
  else if interval.holds far then some far
  else none

/-- A place above the first digit of the value. -/
def placeAbove (interval : Interval) : Int :=
  if interval.denominator ≤ interval.value then
    (Nat.toDigits 10 (interval.value / interval.denominator)).length
  else
    1 - (Nat.toDigits 10 (interval.denominator / interval.value)).length

/-- Search the grids from `place` downwards, at most `count` of them before the
last one, on which the nearest point is taken as it is. -/
def search
    (interval : Interval)
    (tie : Tie) :
    Nat → Int → Decimal
  | 0, place => ⟨(interval.inUnits place).nearest tie, place⟩
  | count + 1, place =>
      match (interval.inUnits place).pick tie with
      | some digits => ⟨digits, place⟩
      | none => interval.search tie count (place - 1)

end Interval

/-- The decimal with the fewest digits that reads back as the magnitude of a
finite number, and the nearest of those. Seventeen digits always suffice. -/
def shortest
    (tie : Tie)
    (number : Binary64) : Decimal :=
  if number.significand = 0 then ⟨0, 0⟩
  else
    let interval := Interval.ofBinary64 number
    interval.search tie 17 interval.placeAbove

end Decimal

end DomainSql
