/-!
# Binary floating-point numbers of 64 bits

A number is held as its bits: one bit for the sign, eleven for the exponent,
fifty-two for the fraction. A finite number has the magnitude
`significand * 2 ^ exponent`. The value nearest to a decimal is found in exact
integer arithmetic, and a value halfway between two numbers goes to the one
whose last bit is zero.
-/

namespace DomainSql

/-- A floating-point number of 64 bits, held as its bits. -/
structure Binary64 where
  bits : UInt64
  deriving DecidableEq

namespace Binary64

/-- Whether the sign bit is set. -/
def isNegative (number : Binary64) : Bool :=
  Nat.pow 2 63 ≤ number.bits.toNat

/-- The eleven bits of the exponent, as they are stored. -/
def exponentField (number : Binary64) : Nat :=
  number.bits.toNat / Nat.pow 2 52 % Nat.pow 2 11

/-- The fifty-two bits of the fraction. -/
def fraction (number : Binary64) : Nat :=
  number.bits.toNat % Nat.pow 2 52

/-- Neither an infinity nor an undefined number. -/
def isFinite (number : Binary64) : Bool :=
  number.exponentField != 2047

/-- The whole number that is scaled by the power of two. -/
def significand (number : Binary64) : Nat :=
  if number.exponentField = 0 then number.fraction
  else number.fraction + Nat.pow 2 52

/-- The power of two by which the significand is scaled. -/
def exponent (number : Binary64) : Int :=
  if number.exponentField = 0 then -1074
  else number.exponentField - 1075

/-- The natural number nearest to a quotient, a half going to the even one. -/
def roundHalfEven
    (numerator denominator : Nat) : Nat :=
  let quotient := numerator / denominator
  let twice := 2 * (numerator % denominator)
  if twice < denominator then quotient
  else if denominator < twice then quotient + 1
  else quotient + quotient % 2

/-- The largest `n` with `2 ^ n * denominator ≤ numerator`. -/
def floorLog2
    (numerator denominator : Nat) : Int :=
  let guess : Int := numerator.log2 - denominator.log2
  let reaches :=
    if 0 ≤ guess then denominator * Nat.pow 2 guess.toNat ≤ numerator
    else denominator ≤ numerator * Nat.pow 2 (-guess).toNat
  if reaches then guess else guess - 1

/-- The bits below the sign of the number nearest to a quotient. The bits of an
infinity and above stand for a quotient that is too large. -/
def magnitudeBits
    (numerator denominator : Nat) : Nat :=
  if numerator = 0 then 0
  else
    let scale := max (floorLog2 numerator denominator - 52) (-1074)
    let rounded :=
      if 0 ≤ scale then
        roundHalfEven numerator (denominator * Nat.pow 2 scale.toNat)
      else
        roundHalfEven (numerator * Nat.pow 2 (-scale).toNat) denominator
    (scale + 1074).toNat * Nat.pow 2 52 + rounded

/-- The bits of the positive infinity. -/
def infinityBits : Nat := 2047 * Nat.pow 2 52

/-- The number nearest to `digits * 10 ^ scale` with the given sign, or nothing
when that decimal is too large. A decimal far outside the range of the format is
decided by its leading position alone. -/
def ofDecimal
    (negative : Bool)
    (digits : Nat)
    (scale : Int) : Option Binary64 :=
  let leading := scale + (Nat.toDigits 10 digits).length
  let magnitude :=
    if digits = 0 || leading < -400 then 0
    else if 400 < leading then infinityBits
    else if 0 ≤ scale then magnitudeBits (digits * Nat.pow 10 scale.toNat) 1
    else magnitudeBits digits (Nat.pow 10 (-scale).toNat)
  if magnitude < infinityBits then
    some ⟨UInt64.ofNat (magnitude + if negative then Nat.pow 2 63 else 0)⟩
  else none

end Binary64

end DomainSql
