import DomainSql.Error
import DomainSql.Text.Blank

/-!
# Hops and keys

A path is a sequence of hops separated by points. A hop is the name of a relation
and the kind of its join, which is an inner join unless a code in parentheses says
otherwise. The key of a path writes its hops back, without the code of inner
joins, so that all spellings of one path have one key.
-/

namespace DomainSql

/-- One step along a relation. -/
structure Hop where
  name : String
  kind : JoinKind
  deriving DecidableEq

namespace Hop

/-- The code between an opening parenthesis, which has been read, and the closing
one at the end. -/
def codeOf? (chars : List Char) : Option String :=
  if chars.getLast? = some ')' then some (String.ofList chars.dropLast)
  else none

/-- The hop that a text describes. -/
def read (text : String) : Except ExpressionError Hop :=
  let name := String.ofList (text.toList.takeWhile (· != '('))
  match text.toList.dropWhile (· != '(') with
  | [] => .ok ⟨name, .inner⟩
  | _ :: annotation =>
      match codeOf? annotation with
      | none => .error (.malformedHop text)
      | some code =>
          match JoinKind.ofCode? (Text.trim code) with
          | none => .error (.unknownJoinCode code text)
          | some kind =>
              if name = "" then .error (.namelessHop text)
              else .ok ⟨name, kind⟩

/-- The text of a hop, without the code of an inner join. -/
def text (hop : Hop) : String :=
  if hop.kind = .inner then hop.name
  else hop.name ++ "(" ++ hop.kind.code ++ ")"

/-- The key of a path that goes on with a hop. -/
def extend
    (key : String)
    (hop : Hop) : String :=
  if key = "" then hop.text else key ++ "." ++ hop.text

end Hop

/-- The key of a path that starts with the hops of a key and goes on with hops as
they are written. -/
def keyFrom
    (key : String) : List String → Except ExpressionError String
  | [] => .ok key
  | text :: rest => do
      let hop ← Hop.read text
      keyFrom (Hop.extend key hop) rest

/-- The key of a path. -/
def canonicalKey (path : String) : Except ExpressionError String :=
  keyFrom "" (Text.split '.' path)

end DomainSql
