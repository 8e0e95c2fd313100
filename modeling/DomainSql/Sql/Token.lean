import DomainSql.Sql.Quoting

/-!
# Tokens of SQL text

Statements are written as tokens. Only names and texts depend on the dialect, and
only they can hold characters from outside the library.
-/

namespace DomainSql
namespace Sql

/-- A piece of SQL text, with something of the given type for a text in it. The texts of
a statement that is to be written are given by their contents. -/
inductive Token (Text : Type := String)
  /-- A key word or the name of a function. -/
  | word (spelling : String)
  /-- An operator or a punctuation mark. -/
  | symbol (spelling : String)
  /-- A number. -/
  | number (spelling : String)
  /-- A name between quotes. -/
  | name (content : String)
  /-- A text between quotes. -/
  | text (content : Text)
  /-- A space. -/
  | space
  deriving DecidableEq

namespace Token

/-- The characters of a token. -/
def chars (dialect : Dialect) : Token → List Char
  | .word spelling => spelling.toList
  | .symbol spelling => spelling.toList
  | .number spelling => spelling.toList
  | .name content => quotedName dialect content
  | .text content => quotedText dialect content
  | .space => [' ']

/-- The characters of tokens, one after the other. -/
def charsOf
    (dialect : Dialect)
    (tokens : List Token) : List Char :=
  tokens.flatMap (chars dialect)

/-- The text of tokens. -/
def textOf
    (dialect : Dialect)
    (tokens : List Token) : String :=
  String.ofList (charsOf dialect tokens)

/-- Words with spaces between them. -/
def phrase : List String → List Token
  | [] => []
  | [spelling] => [.word spelling]
  | spelling :: rest => .word spelling :: .space :: phrase rest

/-- Lists of tokens with a comma and a space between them. -/
def listed : List (List Token) → List Token
  | [] => []
  | [tokens] => tokens
  | tokens :: rest => tokens ++ .symbol "," :: .space :: listed rest

/-- Tokens between parentheses. -/
def parenthesized (tokens : List Token) : List Token :=
  .symbol "(" :: tokens ++ [.symbol ")"]

end Token

end Sql
end DomainSql
