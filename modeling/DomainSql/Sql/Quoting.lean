import DomainSql.Sql.Dialect

/-!
# Quoted names and texts

A name stands between quote characters, and a quote character inside it is
written twice. SQLite quotes a text in the same way. The other dialects escape the
special characters of a text by a backslash; Postgres marks a text with escapes by
a letter in front of it.
-/

namespace DomainSql
namespace Sql

/-- The character around names. -/
def nameQuote : Dialect → Char
  | .postgres => '"'
  | .mysql => '\x60'
  | .sqlite => '"'

/-- Write every occurrence of a character twice. -/
def doubled
    (quote : Char)
    (chars : List Char) : List Char :=
  chars.flatMap fun char => if char = quote then [quote, quote] else [char]

/-- A name between quotes. -/
def quotedName
    (dialect : Dialect)
    (name : String) : List Char :=
  nameQuote dialect :: doubled (nameQuote dialect) name.toList
    ++ [nameQuote dialect]

/-- The letter that stands for a special character behind a backslash. -/
def escapeLetter? (char : Char) : Option Char :=
  if char = '\\' then some '\\'
  else if char = '"' then some '"'
  else if char = '\'' then some '\''
  else if char = '\x00' then some '0'
  else if char = '\x08' then some 'b'
  else if char = '\t' then some 't'
  else if char = '\x1a' then some 'z'
  else if char = '\n' then some 'n'
  else if char = '\r' then some 'r'
  else none

/-- Escape the special characters by a backslash. -/
def escaped (chars : List Char) : List Char :=
  chars.flatMap fun char =>
    match escapeLetter? char with
    | some letter => ['\\', letter]
    | none => [char]

/-- Whether a text has a special character. -/
def needsEscape (chars : List Char) : Bool :=
  chars.any fun char => (escapeLetter? char).isSome

/-- A text between quotes. -/
def quotedText
    (dialect : Dialect)
    (text : String) : List Char :=
  let chars := text.toList
  match dialect with
  | .sqlite => '\'' :: doubled '\'' chars ++ ['\'']
  | .mysql => '\'' :: escaped chars ++ ['\'']
  | .postgres =>
      if needsEscape chars then 'E' :: '\'' :: escaped chars ++ ['\'']
      else '\'' :: chars ++ ['\'']

end Sql
end DomainSql
