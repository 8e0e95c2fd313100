import DomainSql.Join.Basic

/-!
# Tables of foreign keys

The foreign keys that settings name, table by table and field by field.
-/

namespace DomainSql

/-- Foreign keys by table and field. -/
structure ForeignKeyTable where
  tables : List (String × List (String × ForeignKey))
  deriving DecidableEq

/-- Give a key its value, in place of the value that it had. -/
def assign
    {Value : Type}
    (key : String)
    (value : Value) : List (String × Value) → List (String × Value)
  | [] => [(key, value)]
  | entry :: rest =>
      if entry.1 = key then (key, value) :: rest
      else entry :: assign key value rest

@[simp] theorem lookup_assign
    {Value : Type}
    (key : String)
    (value : Value)
    (entries : List (String × Value)) :
    (assign key value entries).lookup key = some value := by
  induction entries with
  | nil => simp [assign]
  | cons entry rest inductionHypothesis =>
      obtain ⟨name, other⟩ := entry
      simp only [assign]
      split
      · simp
      · rename_i different
        have unequal : (key == name) = false := by
          simpa using fun same : key = name => different same.symm
        simp [List.lookup_cons, unequal, inductionHypothesis]

namespace ForeignKeyTable

/-- The table without foreign keys. -/
def empty : ForeignKeyTable := ⟨[]⟩

/-- Add the foreign key of a table's field, in place of the one that it had. -/
def insert
    (known : ForeignKeyTable)
    (table field : String)
    (foreignKey : ForeignKey) : ForeignKeyTable :=
  let fields := (known.tables.lookup table).getD []
  ⟨assign table (assign field foreignKey fields) known.tables⟩

/-- The foreign key of a table's field. -/
def find? (known : ForeignKeyTable) : ForeignKeys :=
  fun table field => (known.tables.lookup table).bind (·.lookup field)

/-- How many foreign keys there are. -/
def size (known : ForeignKeyTable) : Nat :=
  (known.tables.flatMap Prod.snd).length

/-- A foreign key that was added is found. -/
@[simp] theorem find?_insert
    (known : ForeignKeyTable)
    (table field : String)
    (foreignKey : ForeignKey) :
    (known.insert table field foreignKey).find? table field =
      some foreignKey := by
  simp [insert, find?]

end ForeignKeyTable
end DomainSql
