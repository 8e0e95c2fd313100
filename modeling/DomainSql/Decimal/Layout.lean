import DomainSql.Decimal.Shortest

/-!
# How a decimal is written

A layout fixes everything about the text of a floating-point number that its
digits do not: which of two equally near decimals is taken, from which to which
leading place the point is written in position, and whether a whole number shows
its point.
-/

namespace DomainSql
namespace Decimal

/-- The choices that turn the shortest decimal of a number into text. -/
structure Layout where
  /-- The rule for two equally near decimals. -/
  tie : Tie
  /-- The least and the greatest leading place written without an exponent, or
  nothing when no exponent is ever written. -/
  plainPlaces : Option (Int × Int)
  /-- Whether a whole number ends in `.0`. -/
  showsPoint : Bool

namespace Layout

/-- Whether a number with this leading place is written without an exponent. -/
def isPlain
    (layout : Layout)
    (leadingPlace : Int) : Bool :=
  match layout.plainPlaces with
  | none => true
  | some (least, greatest) => least ≤ leadingPlace && leadingPlace ≤ greatest

/-- Digits with the point in position. -/
def plainChars
    (layout : Layout)
    (decimal : Decimal) : List Char :=
  let digits := decimal.digitChars
  if 0 ≤ decimal.place then
    digits ++ List.replicate decimal.place.toNat '0'
      ++ (if layout.showsPoint then ['.', '0'] else [])
  else
    let behind := (-decimal.place).toNat
    if behind < digits.length then
      digits.take (digits.length - behind) ++ '.'
        :: digits.drop (digits.length - behind)
    else
      '0' :: '.' :: List.replicate (behind - digits.length) '0' ++ digits

/-- Digits with the point behind the first one and the leading place as a signed
exponent. -/
def exponentChars (decimal : Decimal) : List Char :=
  let leading := decimal.leadingPlace
  let behind := decimal.digitChars.drop 1
  decimal.digitChars.take 1
    ++ (if behind.isEmpty then [] else '.' :: behind)
    ++ 'e' :: (if leading < 0 then '-' else '+')
    :: Nat.toDigits 10 leading.natAbs

/-- The text of a finite number. -/
def write
    (layout : Layout)
    (number : Binary64) : String :=
  let decimal := shortest layout.tie number
  let magnitude :=
    if layout.isPlain decimal.leadingPlace then layout.plainChars decimal
    else exponentChars decimal
  String.ofList (if number.isNegative then '-' :: magnitude else magnitude)

end Layout

end Decimal
end DomainSql
