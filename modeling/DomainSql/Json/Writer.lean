import DomainSql.Decimal.Layout
import DomainSql.Json.Basic

/-!
# Writing JSON text

The compact form has no white space. The indented form puts every item and field
on a line of its own, two spaces deeper than the bracket around it. Strings
escape the quote, the backslash and control characters only.
-/

namespace DomainSql
namespace Json

/-- Floating-point numbers take the nearest shortest decimal, a half goes to the
even digit, numbers from `0.00001` up to sixteen whole digits have their point in
position, and a whole number shows its point. -/
def floatLayout : Decimal.Layout := ⟨.toEven, some (-5, 15), true⟩

/-- The sixteen digits of hexadecimal numerals. -/
def hexChar (digit : Nat) : Char :=
  Char.ofNat (if digit < 10 then '0'.toNat + digit else 'a'.toNat + (digit - 10))

/-- The text of one character inside a string. -/
def escapeChar (char : Char) : List Char :=
  if char = '"' then ['\\', '"']
  else if char = '\\' then ['\\', '\\']
  else if char = '\x08' then ['\\', 'b']
  else if char = '\x0c' then ['\\', 'f']
  else if char = '\n' then ['\\', 'n']
  else if char = '\r' then ['\\', 'r']
  else if char = '\t' then ['\\', 't']
  else if char.toNat < 0x20 then
    ['\\', 'u', '0', '0', hexChar (char.toNat / 16), hexChar (char.toNat % 16)]
  else [char]

/-- The text of a string with its quotes. -/
def stringChars (text : String) : List Char :=
  '"' :: text.toList.flatMap escapeChar ++ ['"']

/-- The text of an integer. -/
def intChars (value : Int) : List Char :=
  if value < 0 then '-' :: Nat.toDigits 10 value.natAbs
  else Nat.toDigits 10 value.natAbs

/-- The text of a floating-point number. -/
def floatChars (value : Binary64) : List Char :=
  (floatLayout.write value).toList

mutual

/-- The compact text of a value. -/
def compactChars : Json → List Char
  | .null => ['n', 'u', 'l', 'l']
  | .bool true => ['t', 'r', 'u', 'e']
  | .bool false => ['f', 'a', 'l', 's', 'e']
  | .int value => intChars value
  | .float value => floatChars value
  | .str text => stringChars text
  | .arr [] => ['[', ']']
  | .arr (item :: rest) =>
      '[' :: compactChars item ++ compactItems rest ++ [']']
  | .obj [] => ['\x7b', '\x7d']
  | .obj ((key, value) :: rest) =>
      '\x7b' :: stringChars key ++ ':' :: compactChars value
        ++ compactFields rest ++ ['\x7d']

/-- The compact text of the items after the first one. -/
def compactItems : List Json → List Char
  | [] => []
  | item :: rest => ',' :: compactChars item ++ compactItems rest

/-- The compact text of the fields after the first one. -/
def compactFields : List (String × Json) → List Char
  | [] => []
  | (key, value) :: rest =>
      ',' :: stringChars key ++ ':' :: compactChars value ++ compactFields rest

end

/-- A line feed and the white space in front of a line. -/
def newLine (depth : Nat) : List Char :=
  '\n' :: List.replicate (2 * depth) ' '

mutual

/-- The indented text of a value at some depth. -/
def indentedChars
    (depth : Nat) : Json → List Char
  | .null => ['n', 'u', 'l', 'l']
  | .bool true => ['t', 'r', 'u', 'e']
  | .bool false => ['f', 'a', 'l', 's', 'e']
  | .int value => intChars value
  | .float value => floatChars value
  | .str text => stringChars text
  | .arr [] => ['[', ']']
  | .arr (item :: rest) =>
      '[' :: newLine (depth + 1) ++ indentedChars (depth + 1) item
        ++ indentedItems (depth + 1) rest ++ newLine depth ++ [']']
  | .obj [] => ['\x7b', '\x7d']
  | .obj ((key, value) :: rest) =>
      '\x7b' :: newLine (depth + 1) ++ stringChars key ++ ':' :: ' '
        :: indentedChars (depth + 1) value
        ++ indentedFields (depth + 1) rest ++ newLine depth ++ ['\x7d']

/-- The indented text of the items after the first one. -/
def indentedItems
    (depth : Nat) : List Json → List Char
  | [] => []
  | item :: rest =>
      ',' :: newLine depth ++ indentedChars depth item ++ indentedItems depth rest

/-- The indented text of the fields after the first one. -/
def indentedFields
    (depth : Nat) : List (String × Json) → List Char
  | [] => []
  | (key, value) :: rest =>
      ',' :: newLine depth ++ stringChars key ++ ':' :: ' '
        :: indentedChars depth value ++ indentedFields depth rest

end

/-- The compact text of a value. -/
def compact (json : Json) : String :=
  String.ofList json.compactChars

/-- The indented text of a value. -/
def indented (json : Json) : String :=
  String.ofList (json.indentedChars 0)

end Json
end DomainSql
