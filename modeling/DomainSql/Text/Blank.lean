import DomainSql.Text.Split

/-!
# Blank characters

A character is blank when Unicode gives it the `White_Space` property. The
functions here trim blanks from the ends of a text, cut a text at its first
blank, and list its words.
-/

namespace DomainSql
namespace Text

/-- The characters with the Unicode property `White_Space`. -/
def isBlank (char : Char) : Bool :=
  let code := char.toNat
  (0x09 ≤ code && code ≤ 0x0D)
    || code == 0x20
    || code == 0x85
    || code == 0xA0
    || code == 0x1680
    || (0x2000 ≤ code && code ≤ 0x200A)
    || code == 0x2028
    || code == 0x2029
    || code == 0x202F
    || code == 0x205F
    || code == 0x3000

/-- Remove the blanks at both ends of a list of characters. -/
def trimChars (chars : List Char) : List Char :=
  ((chars.dropWhile isBlank).reverse.dropWhile isBlank).reverse

/-- Remove the blanks at both ends of a text. -/
def trim (text : String) : String :=
  String.ofList (trimChars text.toList)

/-- Cut a text at its first blank, which belongs to neither part. A text without
a blank is its own first part. -/
def cutAtBlank (text : String) : String × String :=
  let chars := text.toList
  (String.ofList (chars.takeWhile fun char => !isBlank char),
    String.ofList ((chars.dropWhile fun char => !isBlank char).drop 1))

/-- The maximal runs of a text's characters that are not blank, in order. -/
def words (text : String) : List String :=
  ((splitWhere isBlank text.toList).filter fun part => !part.isEmpty).map
    String.ofList

end Text
end DomainSql
