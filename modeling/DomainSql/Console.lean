import DomainSql.RuleTree.Conversion
import DomainSql.RuleTree.Json
import DomainSql.Settings.Basic
import DomainSql.Sql.Statement
import DomainSql.Text.LowerCase

/-!
# Console

The console reads lines. A line that starts with a colon is a command, any other
line is a domain to compile. Commands change the settings and the foreign keys for
the lines that follow.
-/

namespace DomainSql

/-- What the console keeps between two lines. -/
structure Console where
  foreignKeys : ForeignKeyTable
  settings : Settings
  deriving DecidableEq

/-- Why a line fails. -/
inductive ConsoleError
  | library (error : Error)
  | unknownCommand (command : String)
  | unknownDialect (name : String)
  | foreignKeyUsage

/-- The answer to a line. -/
inductive Reply
  | ignored
  | done (text : String)
  | failed (error : ConsoleError)
  | quit

namespace ConsoleError

/-- The message of an error. -/
def message : ConsoleError → String
  | .library error => error.message
  | .unknownCommand command =>
      "未知命令 " ++ command ++ "，输入 :help 查看帮助"
  | .unknownDialect name =>
      "未知方言 `" ++ name ++ "`，可选 postgres / mysql / sqlite: unknown variant `"
        ++ Text.lowerCase name
        ++ "`, expected one of `postgres`, `mysql`, `sqlite`"
  | .foreignKeyUsage => "用法: :fk <表> <字段> <目标表> [目标列]"

end ConsoleError

namespace Console

/-- The file that foreign keys are read from. -/
def foreignKeysPath : String := "foreign_keys.json"

/-- The file that settings are read from. -/
def settingsPath : String := "ooquery.json"

/-- The text of the command `:help`. -/
def helpText : String :=
  "\n".intercalate
    ["输入 JSON 格式的 domain 编译为 SQL，例如:",
      "  [\"|\", [\"state\", \"=\", \"open\"], [\"partner_id.name\", \"ilike\", \"jo%\"]]",
      "",
      "命令:",
      "  :tree <domain>        domain 转换为规则树",
      "  :from-tree <tree>     规则树转换为 domain",
      "  :table [名称]         查看或设置根表",
      "  :dialect <名称>       postgres / mysql / sqlite",
      "  :fk <表> <字段> <目标表> [目标列]",
      "  :help                 显示帮助",
      "  :quit                 退出"]

/-- A join as the console lists it. -/
def joinLine (join : Join) : String :=
  "  " ++ join.key ++ " -> " ++ join.right.name ++ " AS " ++ join.right.aliasName
    ++ " (" ++ join.kind.name ++ ")\n"

/-- The joins and the statement of a domain. -/
def compile
    (console : Console)
    (line : String) : Except Error String := do
  let domain ← (Domain.read line).mapError .expression
  let filter ← Filter.ofDomain console.settings.rootTable
    console.foreignKeys.find? domain
  let sql ← filter.toSql console.settings.dialect
  let joins :=
    if filter.joins.isEmpty then ""
    else "[关联]:\n" ++ String.join (filter.joins.map joinLine)
  pure (joins ++ "[生成的 SQL]:\n" ++ sql)

/-- The rule tree of a domain. -/
def treeOf (text : String) : Except Error String := do
  let domain ← (Domain.read text).mapError .expression
  let tree ← (RuleTree.ofDomain domain).mapError .expression
  pure (tree.toJson .declared).indented

/-- The domain of a rule tree. -/
def domainOf (text : String) : Except Error String := do
  let tree ← (RuleTree.read text).mapError .rule
  pure (Domain.write .sorted tree.toDomain)

/-- The reply with a result of the library. -/
def replyOf : Except Error String → Reply
  | .ok text => .done text
  | .error error => .failed (.library error)

/-- Show or change the root table. -/
def setTable
    (console : Console)
    (name : String) : Reply × Console :=
  if name = "" then
    (.done ("当前根表: " ++ console.settings.rootTable), console)
  else
    (.done ("根表已设置为 " ++ name),
      { console with settings := { console.settings with rootTable := name } })

/-- Change the dialect, whose name is read without regard to case. -/
def setDialect
    (console : Console)
    (name : String) : Reply × Console :=
  match Dialect.ofText? (Text.lowerCase name) with
  | none => (.failed (.unknownDialect name), console)
  | some dialect =>
      (.done ("方言已设置为 " ++ dialect.label),
        { console with settings := { console.settings with dialect := dialect } })

/-- Add a foreign key: a table, its field, the table that the field refers to, and
the column there, which is `id` unless it is given. -/
def addForeignKey
    (console : Console)
    (words : List String) : Reply × Console :=
  let add (table field target column : String) : Reply × Console :=
    (.done (table ++ "." ++ field ++ " -> " ++ target ++ "." ++ column),
      { console with
        foreignKeys :=
          console.foreignKeys.insert table field ⟨target, field, column⟩ })
  match words with
  | [table, field, target] => add table field target "id"
  | [table, field, target, column] => add table field target column
  | _ => (.failed .foreignKeyUsage, console)

/-- Answer a line that has no blanks at its ends and is not empty. -/
def handle
    (console : Console)
    (line : String) : Reply × Console :=
  let (command, rest) := Text.cutAtBlank line
  let argument := Text.trim rest
  if command = ":quit" ∨ command = ":q" then (.quit, console)
  else if command = ":help" then (.done helpText, console)
  else if command = ":table" then console.setTable argument
  else if command = ":dialect" then console.setDialect argument
  else if command = ":fk" then console.addForeignKey (Text.words argument)
  else if command = ":tree" then (replyOf (treeOf argument), console)
  else if command = ":from-tree" then (replyOf (domainOf argument), console)
  else if command.toList.head? = some ':' then
    (.failed (.unknownCommand command), console)
  else (replyOf (console.compile line), console)

/-- Answer a line as it was typed. A blank line has no answer. -/
def respond
    (console : Console)
    (line : String) : Reply × Console :=
  let line := Text.trim line
  if line = "" then (.ignored, console) else console.handle line

/-- What the console shows for a reply. -/
def shown : Reply → String
  | .ignored => ""
  | .done text => text ++ "\n"
  | .failed error => "✗ " ++ error.message ++ "\n"
  | .quit => ""

/-- Answer lines until one of them quits. The answer is all that is shown. -/
def run
    (console : Console) : List String → String
  | [] => ""
  | line :: rest =>
      match console.respond line with
      | (.quit, _) => ""
      | (reply, next) => shown reply ++ next.run rest

/-- The foreign keys of a file, or none, and what the console shows about it. -/
def startForeignKeys :
    Except SettingsError ForeignKeyTable → ForeignKeyTable × String
  | .ok known =>
      (known,
        "✅ 成功从 " ++ foreignKeysPath ++ " 加载了 " ++ Nat.repr known.size
          ++ " 个外键\n")
  | .error error =>
      (.empty, "⚠️ 无法加载外键配置 (" ++ error.message ++ "), 不使用任何关联\n")

/-- The settings of a file, or the standard ones, and what the console shows about
it. -/
def startSettings :
    Except SettingsError Settings → Settings × String
  | .ok settings => (settings, "✅ 使用编译器配置: " ++ settingsPath ++ "\n")
  | .error error =>
      (.standard, "⚠️ 无法加载编译器配置 (" ++ error.message ++ "), 使用默认配置\n")

/-- The console that starts with the contents of its files, and what it shows
first. -/
def start
    (foreignKeysFile settingsFile : FileContents) : Console × String :=
  let (foreignKeys, aboutKeys) :=
    startForeignKeys (ForeignKeyTable.load foreignKeysPath foreignKeysFile)
  let (settings, aboutSettings) :=
    startSettings (Settings.load settingsPath settingsFile)
  (⟨foreignKeys, settings⟩,
    "--- ooquery: Domain 到 SQL 编译器 ---\n\n[配置信息]:\n" ++ aboutKeys
      ++ aboutSettings ++ "根表: " ++ settings.rootTable ++ "，方言: "
      ++ settings.dialect.label ++ "\n输入 :help 查看帮助\n\n")

/-- All that is shown for the contents of the files and lines of input. -/
def transcript
    (foreignKeysFile settingsFile : FileContents)
    (lines : List String) : String :=
  let (console, header) := start foreignKeysFile settingsFile
  header ++ console.run lines

end Console
end DomainSql
