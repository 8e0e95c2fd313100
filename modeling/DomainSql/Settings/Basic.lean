import DomainSql.Settings.ForeignKeyTable
import DomainSql.Error

/-!
# Settings files

Settings come from two files of JSON: one for the query compiler, one for the
foreign keys. A description of one thing is an object, or an array of its fields
in order. In an object, fields that nothing asks for are ignored, and a field that
something asks for stands once.
-/

namespace DomainSql

/-- The settings of the query compiler. -/
structure Settings where
  dialect : Dialect
  rootTable : String
  deriving DecidableEq

/-- The contents of a file, or nothing if there is no such file. -/
abbrev FileContents := Option ByteArray

namespace FileContents

/-- The text of a file that has to be there. -/
def text
    (path : String)
    (contents : FileContents) : Except SettingsError String :=
  match contents with
  | none => .error (.notFound path)
  | some bytes =>
      match String.fromUTF8? bytes with
      | none => .error (.notText path)
      | some text => .ok text

end FileContents

/-- The value of a field that stands at most once. -/
def fieldOnce
    (key : String)
    (fields : List (String × Json)) : Except Json.Fault (Option Json) :=
  match fields.filter fun field => field.1 == key with
  | [] => .ok none
  | [field] => .ok (some field.2)
  | _ => .error (.unfit ("one field " ++ key))

/-- The text that a value holds. -/
def textOfValue : Json → Except Json.Fault String
  | .str text => .ok text
  | _ => .error (.unfit "a string")

namespace ForeignKey

/-- The text of a field that stands exactly once. -/
def requiredText
    (key : String)
    (fields : List (String × Json)) : Except Json.Fault String := do
  match ← fieldOnce key fields with
  | some value => textOfValue value
  | none => throw (.unfit ("a field " ++ key))

/-- The foreign key that a JSON value describes. -/
def ofJson : Json → Except Json.Fault ForeignKey
  | .obj fields => do
      let targetTable ← requiredText "foreign_table_name" fields
      let column ← requiredText "column_name" fields
      let targetColumn ← requiredText "foreign_column_name" fields
      pure ⟨targetTable, column, targetColumn⟩
  | .arr [.str targetTable, .str column, .str targetColumn] =>
      .ok ⟨targetTable, column, targetColumn⟩
  | _ => .error (.unfit "a foreign key")

end ForeignKey

namespace ForeignKeyTable

/-- The foreign keys of one table. Of the fields with one name the last counts. -/
def fieldsOfJson :
    Json → Except Json.Fault (List (String × ForeignKey))
  | .obj fields =>
      fields.foldlM
        (fun known field => do
          let foreignKey ← ForeignKey.ofJson field.2
          pure (assign field.1 foreignKey known))
        []
  | _ => .error (.unfit "an object of fields")

/-- The foreign keys that a JSON value describes. Of the tables with one name the
last counts, with all its fields. -/
def ofJson : Json → Except Json.Fault ForeignKeyTable
  | .obj tables => do
      let tables ← tables.foldlM
        (fun known table => do
          let fields ← fieldsOfJson table.2
          pure (assign table.1 fields known))
        []
      pure ⟨tables⟩
  | _ => .error (.unfit "an object of tables")

/-- Read foreign keys from a file. -/
def load
    (path : String)
    (contents : FileContents) : Except SettingsError ForeignKeyTable := do
  let text ← contents.text path
  let known : Except Json.Fault ForeignKeyTable := do
    let json ← Json.readWritten text
    ofJson json
  known.mapError (.notSettings path)

end ForeignKeyTable

namespace Settings

/-- The settings where nothing else is said. -/
def standard : Settings := ⟨.postgres, "table"⟩

/-- The keys of settings. -/
def isKey (key : String) : Bool := key == "dialect" || key == "root_table"

/-- The dialect with this name. -/
def dialectNamed (name : String) : Except Json.Fault Dialect :=
  match Dialect.ofText? name with
  | some dialect => .ok dialect
  | none => .error (.unfit "a dialect")

/-- The dialect that a JSON value names: a text, or an object with a null under
the name. -/
def dialectOfJson : Json → Except Json.Fault Dialect
  | .str name => dialectNamed name
  | .obj [(name, .null)] => dialectNamed name
  | _ => .error (.unfit "a dialect")

/-- The settings that optional values describe. -/
def ofValues
    (dialect rootTable : Option Json) : Except Json.Fault Settings := do
  let dialect ←
    match dialect with
    | some value => dialectOfJson value
    | none => pure standard.dialect
  let rootTable ←
    match rootTable with
    | some value => textOfValue value
    | none => pure standard.rootTable
  pure ⟨dialect, rootTable⟩

/-- The settings that a JSON value describes. -/
def ofJson : Json → Except Json.Fault Settings
  | .obj fields => do
      let dialect ← fieldOnce "dialect" fields
      let rootTable ← fieldOnce "root_table" fields
      ofValues dialect rootTable
  | .arr [] => ofValues none none
  | .arr [dialect] => ofValues (some dialect) none
  | .arr [dialect, rootTable] => ofValues (some dialect) (some rootTable)
  | _ => .error (.unfit "settings")

/-- The JSON value of settings. -/
def toJson (settings : Settings) : Json :=
  .obj [("dialect", .str settings.dialect.text),
    ("root_table", .str settings.rootTable)]

/-- Read settings from a file. The fields that are no settings are only checked
for their form. -/
def load
    (path : String)
    (contents : FileContents) : Except SettingsError Settings := do
  let text ← contents.text path
  let settings : Except Json.Fault Settings := do
    let json ← Json.readWith .strict isKey text
    ofJson json
  settings.mapError (.notSettings path)

end Settings
end DomainSql
