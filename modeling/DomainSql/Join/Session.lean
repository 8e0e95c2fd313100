import DomainSql.Join.Basic
import DomainSql.Join.Hop

/-!
# Join sessions

A session holds the joins of one query. Walking a path looks each of its prefixes
up by its key. A prefix that is new takes its relation from the seeds, or else
from the foreign keys; the join along this relation is shared if the session has
one already, and is added at the end of the joins otherwise.

Operations that fail keep what they have added so far.
-/

namespace DomainSql

/-- The joins of one query and how they came about. -/
structure Session where
  root : Table
  foreignKeys : ForeignKeys
  /-- The relations that were given for keys, the latest first. -/
  seeds : List (String × Relation)
  /-- The joins that keys have led to, in the order of the keys. -/
  cache : List (String × Join)
  /-- The joins, in the order in which they are written. -/
  joins : List Join

/-- An operation on a session. An operation that fails leaves a session too. -/
abbrev Resolving := ExceptT Error (StateM Session)

/-- A column that a field stands for, and the keys of the joins on the way to its
table. -/
structure ResolvedField where
  column : Column
  joins : List String
  deriving DecidableEq

namespace Session

/-- The session of a query that has no joins yet. -/
def start
    (table : String)
    (foreignKeys : ForeignKeys) : Session where
  root := ⟨table, tableAlias 0⟩
  foreignKeys := foreignKeys
  seeds := []
  cache := []
  joins := []

/-- The relation along a hop from a table on, for a path with this key. -/
def relationOf
    (session : Session)
    (key : String)
    (left : Table)
    (hop : Hop) : Except Error Relation :=
  match session.seeds.lookup key with
  | some relation => .ok relation
  | none =>
      match session.foreignKeys left.name hop.name with
      | some foreignKey => .ok (Relation.ofForeignKey hop.kind foreignKey)
      | none => .error (.unresolvedRelation left.name hop.name)

/-- The join from a table along a relation, if the session has it. -/
def shared?
    (session : Session)
    (left : Table)
    (relation : Relation) : Option Join :=
  session.joins.find? fun join => join.left = left ∧ join.relation = relation

/-- The join that would be the next one. -/
def nextJoin
    (session : Session)
    (key : String)
    (left : Table)
    (relation : Relation) : Join where
  key := key
  left := left
  right := ⟨relation.table, tableAlias (session.joins.length + 1)⟩
  kind := relation.kind
  leftColumn := relation.leftColumn
  rightColumn := relation.rightColumn

/-- Let a key lead to the join along a relation, which is shared or added. -/
def enter
    (session : Session)
    (key : String)
    (left : Table)
    (relation : Relation) : Join × Session :=
  match session.shared? left relation with
  | some join => (join, { session with cache := session.cache ++ [(key, join)] })
  | none =>
      let join := session.nextJoin key left relation
      (join,
        { session with
          cache := session.cache ++ [(key, join)]
          joins := session.joins ++ [join] })

/-- The join that a key leads to along a hop from a table on. -/
def follow
    (key : String)
    (left : Table)
    (hop : Hop) : Resolving Join := do
  let session ← get
  match session.cache.lookup key with
  | some join => pure join
  | none =>
      match session.relationOf key left hop with
      | .error error => throw error
      | .ok relation => do
          let (join, session) := session.enter key left relation
          set session
          pure join

/-- Read a hop inside an operation on a session. -/
def readHop (text : String) : Resolving Hop :=
  match Hop.read text with
  | .ok hop => pure hop
  | .error error => throw (.expression error)

/-- Walk hops on from a table that a path with this key has reached. The answer is
the table at the end and the joins on the way. -/
def walkFrom
    (table : Table)
    (key : String) : List String → Resolving (Table × List Join)
  | [] => pure (table, [])
  | text :: rest => do
      let hop ← readHop text
      let key := Hop.extend key hop
      let join ← follow key table hop
      let (last, joins) ← walkFrom join.right key rest
      pure (last, join :: joins)

/-- Walk hops from the root table on. -/
def walk (hops : List String) : Resolving (Table × List Join) := do
  let session ← get
  walkFrom session.root "" hops

/-- The last join along hops from the root table on. -/
def resolvePath (hops : List String) : Resolving Join := do
  let (_, joins) ← walk hops
  match joins.getLast? with
  | some join => pure join
  | none => throw (.expression .emptyPath)

/-- Split a field into its hops and the name of its column. -/
def splitField (field : String) : Except ExpressionError (List String × String) :=
  let parts := Text.split '.' field
  let column := parts.getLast?.getD ""
  if column = "" ∨ '(' ∈ column.toList then .error (.noColumn field)
  else .ok (parts.dropLast, column)

/-- The column that a field stands for. -/
def resolveField (field : String) : Resolving ResolvedField := do
  match splitField field with
  | .error error => throw (.expression error)
  | .ok (hops, column) => do
      let (table, joins) ← walk hops
      pure ⟨⟨table, column⟩, joins.map Join.key⟩

/-- The join that a path has led to. -/
def join?
    (session : Session)
    (path : String) : Option Join :=
  match canonicalKey path with
  | .ok key => session.cache.lookup key
  | .error _ => none

/-- Give the relation for a path that has led to no join yet. -/
def seed
    (path : String)
    (relation : Relation) : Resolving Unit := do
  match canonicalKey path with
  | .error error => throw (.expression error)
  | .ok key => do
      let session ← get
      if (session.cache.lookup key).isSome then
        throw (.expression (.alreadyJoined key))
      else
        set { session with seeds := (key, relation) :: session.seeds }

/-- The keys that have led to joins, in order. -/
def keys (session : Session) : List String :=
  session.cache.map Prod.fst

end Session
end DomainSql
