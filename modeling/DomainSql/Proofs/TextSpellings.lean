import DomainSql.Json.Reader
import DomainSql.Sql.Token

/-!
# How a dialect reads texts

Between its quotes a text is spelled with characters that stand for themselves and with
escapes. SQLite has no escapes. In MySQL an escape is a backslash and one character. In
Postgres it can also be the number of a byte, with octal or hexadecimal digits, or the
number of a character.

The library escapes texts in one way for MySQL and Postgres. Most of these escapes stand
in both for the characters that they have been chosen for. But U+001A becomes `\z`, which
is a letter in both, since MySQL escapes this character by `\Z`; and U+0000 becomes `\0`,
which begins an octal number in Postgres, where no text has a character of this code.
-/

namespace DomainSql
namespace Sql

/-- How a text is spelled between its quotes: whether a backslash escapes in it, and its
characters, with one quote for a quote that is written twice. -/
structure Spelling where
  escapes : Bool
  chars : List Char
  deriving DecidableEq

/-! ## Escapes -/

/-- What a backslash and this character stand for in MySQL. In front of the wildcards of
patterns the backslash stays. -/
def mysqlEscape (letter : Char) : List Char :=
  if letter = '0' then ['\x00']
  else if letter = 'b' then ['\x08']
  else if letter = 'n' then ['\n']
  else if letter = 'r' then ['\r']
  else if letter = 't' then ['\t']
  else if letter = 'Z' then ['\x1a']
  else if letter = '%' ∨ letter = '_' then ['\\', letter]
  else [letter]

/-- The value of a digit to a base that is no larger than sixteen. -/
def digit?
    (base : Nat)
    (char : Char) : Option Nat :=
  (Json.hexDigit? char).filter (· < base)

/-- The values of the digits in front, a given number of them at most. -/
def leadingDigits
    (base : Nat) : Nat → List Char → List Nat
  | 0, _ => []
  | _ + 1, [] => []
  | most + 1, char :: rest =>
      match digit? base char with
      | none => []
      | some value => value :: leadingDigits base most rest

/-- The number with these digits. -/
def numberOf
    (base : Nat)
    (digits : List Nat) : Nat :=
  digits.foldl (fun number digit => number * base + digit) 0

/-- The character of a byte. Beyond ASCII a byte is a part of a character in the encoding
of the server, and it is not read here. -/
def charOfByte? (byte : Nat) : Option Char :=
  if byte < 128 then some (Char.ofNat byte) else none

/-- The number of a character behind the letter `u` or `U`, and how many characters it
takes with the letter. -/
def unicode? : List Char → Option (Nat × Nat)
  | [] => none
  | letter :: rest =>
      let count := if letter = 'u' then 4 else 8
      let digits := leadingDigits 16 count rest
      if (letter = 'u' ∨ letter = 'U') ∧ digits.length = count then
        some (numberOf 16 digits, count + 1)
      else none

/-- The character that is escaped by its number. A pair of surrogates takes two escapes. -/
def unicodeEscape? (chars : List Char) : Option (List Char × Nat) := do
  let (code, taken) ← unicode? chars
  if Json.isHighSurrogate code then
    let (next, others) ← (chars.drop taken).head?.bind fun next =>
      if next = '\\' then unicode? (chars.drop (taken + 1)) else none
    if Json.isLowSurrogate next then
      some ([Char.ofNat (0x10000 + (code - 0xD800) * 0x400 + (next - 0xDC00))],
        taken + 1 + others)
    else none
  else if code.isValidChar then some ([Char.ofNat code], taken)
  else none

/-- What an escape stands for in Postgres, and how many characters behind the backslash
belong to it. -/
def postgresEscape? : List Char → Option (List Char × Nat)
  | [] => none
  | letter :: rest =>
      let octal := leadingDigits 8 3 (letter :: rest)
      let hexadecimal := leadingDigits 16 2 rest
      if ¬octal.isEmpty then
        (charOfByte? (numberOf 8 octal % 256)).map fun char => ([char], octal.length)
      else if letter = 'x' ∧ ¬hexadecimal.isEmpty then
        (charOfByte? (numberOf 16 hexadecimal)).map fun char =>
          ([char], hexadecimal.length + 1)
      else if letter = 'u' ∨ letter = 'U' then unicodeEscape? (letter :: rest)
      else if letter = 'b' then some (['\x08'], 1)
      else if letter = 'f' then some (['\x0c'], 1)
      else if letter = 'n' then some (['\n'], 1)
      else if letter = 'r' then some (['\r'], 1)
      else if letter = 't' then some (['\t'], 1)
      else some ([letter], 1)

/-- What the escape stands for whose backslash these characters follow, and how many of
them belong to it. -/
def escape?
    (dialect : Dialect)
    (chars : List Char) : Option (List Char × Nat) :=
  match dialect with
  | .sqlite => some (['\\'], 0)
  | .mysql => chars.head?.map fun letter => (mysqlEscape letter, 1)
  | .postgres => postgresEscape? chars

/-- What characters with escapes stand for, behind as many of them as belong to an escape
already. -/
def readEscapes
    (dialect : Dialect) : Nat → List Char → Option (List Char)
  | _, [] => some []
  | taken + 1, _ :: rest => readEscapes dialect taken rest
  | 0, char :: rest =>
      if char = '\\' then
        match escape? dialect rest with
        | none => none
        | some (stands, taken) => (readEscapes dialect taken rest).map (stands ++ ·)
      else (readEscapes dialect 0 rest).map (char :: ·)

/-- The text that a dialect reads in a spelling. In Postgres no text has a character of
code zero. -/
def Spelling.contents?
    (dialect : Dialect)
    (spelling : Spelling) : Option String :=
  let read := if spelling.escapes then readEscapes dialect 0 spelling.chars
    else some spelling.chars
  (read.filter fun chars => dialect ≠ .postgres ∨ '\x00' ∉ chars).map String.ofList

/-! ## The spelling of a text -/

/-- Whether a backslash escapes in a text that no letter marks. In Postgres this is a
setting of the server. -/
def escapesUnmarked
    (setting : Bool) : Dialect → Bool
  | .sqlite => false
  | .mysql => true
  | .postgres => setting

/-- How the library spells a text. -/
def Spelling.ofText
    (setting : Bool)
    (dialect : Dialect)
    (text : String) : Spelling :=
  let chars := text.toList
  match dialect with
  | .sqlite => ⟨false, chars⟩
  | .mysql => ⟨true, escaped chars⟩
  | .postgres => ⟨setting || needsEscape chars, escaped chars⟩

/-- A token with something else in the place of a text. -/
def Token.mapText
    {Text Other : Type}
    (change : Text → Other) : Token Text → Token Other
  | .word spelling => .word spelling
  | .symbol spelling => .symbol spelling
  | .number spelling => .number spelling
  | .name content => .name content
  | .text content => .text (change content)
  | .space => .space

/-- A token as the library writes it, a text by its spelling. -/
def Token.spelled
    (setting : Bool)
    (dialect : Dialect) : Token → Token Spelling :=
  mapText (Spelling.ofText setting dialect)

section Spelled

variable (setting : Bool) (dialect : Dialect) (content : String)

@[simp] theorem Token.spelled_word :
    (word content).spelled setting dialect = .word content := rfl

@[simp] theorem Token.spelled_symbol :
    (symbol content).spelled setting dialect = .symbol content := rfl

@[simp] theorem Token.spelled_number :
    (number content).spelled setting dialect = .number content := rfl

@[simp] theorem Token.spelled_name :
    (name content).spelled setting dialect = .name content := rfl

@[simp] theorem Token.spelled_text :
    (text content).spelled setting dialect =
      .text (Spelling.ofText setting dialect content) := rfl

@[simp] theorem Token.spelled_space :
    space.spelled setting dialect = .space := rfl

end Spelled

/-- No character of the text is lost in the escapes of the library: there is no U+001A in
it, unless the dialect has no escapes, and in Postgres no U+0000. -/
def IsKept
    (dialect : Dialect)
    (text : String) : Prop :=
  (dialect ≠ .sqlite → '\x1a' ∉ text.toList) ∧
    (dialect = .postgres → '\x00' ∉ text.toList)

instance
    (dialect : Dialect)
    (text : String) :
    Decidable (IsKept dialect text) :=
  inferInstanceAs (Decidable (_ ∧ _))

theorem escaped_cons_of_special
    {char letter : Char}
    (special : escapeLetter? char = some letter)
    (rest : List Char) :
    escaped (char :: rest) = '\\' :: letter :: escaped rest := by
  rw [escaped, List.flatMap_cons, special]
  rfl

theorem escaped_cons_of_plain
    {char : Char}
    (plain : escapeLetter? char = none)
    (rest : List Char) :
    escaped (char :: rest) = char :: escaped rest := by
  rw [escaped, List.flatMap_cons, plain]
  rfl

theorem escaped_eq_self
    {chars : List Char}
    (plain : needsEscape chars = false) :
    escaped chars = chars := by
  induction chars with
  | nil => rfl
  | cons char rest inductionHypothesis =>
      rw [needsEscape, List.any_cons, Bool.or_eq_false_iff, Option.isSome_eq_false_iff,
        Option.isNone_iff_eq_none] at plain
      rw [escaped_cons_of_plain plain.1, inductionHypothesis plain.2]

theorem ne_backslash_of_plain
    {char : Char}
    (plain : escapeLetter? char = none) :
    char ≠ '\\' := by
  rintro rfl
  cases plain

/-! ## What the dialects read -/

/-- The character that is read where this one has been written. -/
def reread (char : Char) : Char :=
  if char = '\x1a' then 'z' else char

theorem escape?_of_escapeLetter?
    {dialect : Dialect}
    (escapes : dialect ≠ .sqlite)
    {char letter : Char}
    (noZero : dialect = .postgres → char ≠ '\x00')
    (found : escapeLetter? char = some letter)
    (rest : List Char) :
    escape? dialect (letter :: rest) = some ([reread char], 1) := by
  rw [escapeLetter?] at found
  repeat' split at found
  all_goals
    cases found <;> subst_vars <;> cases dialect <;>
    first
    | rfl
    | exact absurd rfl escapes
    | exact absurd rfl (noZero rfl)

/-- Escaped characters are read as they are, but for U+001A, where Postgres is given no
character of code zero. -/
theorem readEscapes_escaped
    {dialect : Dialect}
    (escapes : dialect ≠ .sqlite)
    {chars : List Char}
    (noZero : dialect = .postgres → '\x00' ∉ chars) :
    readEscapes dialect 0 (escaped chars) = some (chars.map reread) := by
  induction chars with
  | nil => rfl
  | cons char rest inductionHypothesis =>
      have restRead : readEscapes dialect 0 (escaped rest) = some (rest.map reread) :=
        inductionHypothesis fun isPostgres inRest =>
          noZero isPostgres (List.mem_cons_of_mem char inRest)
      cases found : escapeLetter? char with
      | some letter =>
          have stands := escape?_of_escapeLetter? escapes
            (fun isPostgres isZero => noZero isPostgres (isZero ▸ List.mem_cons_self))
            found (escaped rest)
          rw [escaped_cons_of_special found]
          simp [readEscapes, stands, restRead]
      | none =>
          have notSubstitute : char ≠ '\x1a' := by
            rintro rfl
            cases found
          rw [escaped_cons_of_plain found]
          simp [readEscapes, ne_backslash_of_plain found, notSubstitute, restRead, reread]

theorem reread_eq_self_iff (char : Char) : reread char = char ↔ '\x1a' ≠ char := by
  rw [reread]
  split
  · rename_i isSubstitute
    subst isSubstitute
    decide
  · rename_i notSubstitute
    simp [Ne.symm notSubstitute]

theorem map_reread_eq_self_iff (chars : List Char) :
    chars.map reread = chars ↔ '\x1a' ∉ chars := by
  induction chars with
  | nil => simp
  | cons char rest inductionHypothesis =>
      rw [List.map_cons, List.cons.injEq, reread_eq_self_iff, inductionHypothesis,
        List.mem_cons, not_or]

/-- A dialect reads in the spelling of a text the text itself exactly when all its
characters are kept. -/
theorem contents?_ofText_eq_iff
    (setting : Bool)
    (dialect : Dialect)
    (text : String) :
    (Spelling.ofText setting dialect text).contents? dialect = some text ↔
      IsKept dialect text := by
  have ofList_eq : ∀ chars : List Char, String.ofList chars = text ↔ chars = text.toList := by
    intro chars
    rw [← String.toList_inj, String.toList_ofList]
  cases dialect with
  | sqlite => simp [Spelling.ofText, Spelling.contents?, IsKept]
  | mysql =>
      have read : readEscapes .mysql 0 (escaped text.toList) =
          some (text.toList.map reread) :=
        readEscapes_escaped (by decide) nofun
      simp [Spelling.ofText, Spelling.contents?, IsKept, read, ofList_eq,
        map_reread_eq_self_iff]
  | postgres =>
      by_cases noZero : '\x00' ∈ text.toList
      · -- Whatever is read instead, a text with this character is not.
        have refused : (Spelling.ofText setting .postgres text).contents? .postgres ≠
            some text := by
          intro read
          obtain ⟨chars, found, rfl⟩ := Option.map_eq_some_iff.mp read
          simp [Option.filter_eq_some_iff] at found noZero
          exact found.2 noZero
        simp [refused, IsKept, noZero]
      · have read : readEscapes .postgres 0 (escaped text.toList) =
            some (text.toList.map reread) :=
          readEscapes_escaped (by decide) fun _ => noZero
        cases escapes : setting || needsEscape text.toList with
        | true =>
            simp [Spelling.ofText, Spelling.contents?, IsKept, escapes, read, noZero,
              ofList_eq, map_reread_eq_self_iff]
        | false =>
            have plain := (Bool.or_eq_false_iff.mp escapes).2
            have kept : '\x1a' ∉ text.toList := by
              intro inText
              have special := List.any_eq_false.mp plain _ inText
              exact special rfl
            simp [Spelling.ofText, Spelling.contents?, IsKept, escapes,
              escaped_eq_self plain, noZero, ofList_eq, kept]

example :
    (Spelling.ofText true .mysql "it's\x1a").contents? .mysql = some "it'sz" ∧
    (Spelling.ofText true .postgres "\x001").contents? .postgres = some "\x01" := by
  decide +kernel

/-! ## Spellings tell texts apart -/

theorem escapeLetter?_inj
    {char other letter : Char}
    (found : escapeLetter? char = some letter)
    (otherFound : escapeLetter? other = some letter) :
    char = other := by
  have read : ∀ {char}, escapeLetter? char = some letter →
      escape? .mysql [letter] = some ([reread char], 1) :=
    fun found => escape?_of_escapeLetter? (by decide) (by simp) found []
  have same : reread char = reread other := by
    simpa [read found] using read otherFound
  have noLetter : ∀ {char}, escapeLetter? char = some letter → char ≠ 'z' := by
    rintro _ found rfl
    cases found
  have notZ := noLetter found
  have otherNotZ := noLetter otherFound
  grind [reread]

theorem escaped_ne_nil
    (char : Char)
    (rest : List Char) :
    escaped (char :: rest) ≠ [] := by
  cases found : escapeLetter? char with
  | some letter => simp [escaped_cons_of_special found]
  | none => simp [escaped_cons_of_plain found]

/-- The backslash, which is special itself, tells escapes from other characters. -/
theorem escaped_injective : Function.Injective escaped := by
  intro chars others same
  induction chars generalizing others with
  | nil =>
      cases others with
      | nil => rfl
      | cons other others => exact absurd same.symm (escaped_ne_nil other others)
  | cons char rest inductionHypothesis =>
      cases others with
      | nil => exact absurd same (escaped_ne_nil char rest)
      | cons other others =>
          cases found : escapeLetter? char with
          | none =>
              rw [escaped_cons_of_plain found] at same
              cases otherFound : escapeLetter? other with
              | none =>
                  rw [escaped_cons_of_plain otherFound, List.cons.injEq] at same
                  rw [same.1, inductionHypothesis same.2]
              | some letter =>
                  rw [escaped_cons_of_special otherFound] at same
                  exact absurd (List.cons.inj same).1 (ne_backslash_of_plain found)
          | some letter =>
              rw [escaped_cons_of_special found] at same
              cases otherFound : escapeLetter? other with
              | none =>
                  rw [escaped_cons_of_plain otherFound] at same
                  exact absurd (List.cons.inj same).1.symm (ne_backslash_of_plain otherFound)
              | some otherLetter =>
                  rw [escaped_cons_of_special otherFound, List.cons.injEq,
                    List.cons.injEq] at same
                  obtain ⟨_, rfl, restSame⟩ := same
                  rw [escapeLetter?_inj found otherFound, inductionHypothesis restSame]

/-- No two texts are spelled in the same way. -/
theorem Spelling.ofText_injective
    (setting : Bool)
    (dialect : Dialect) :
    Function.Injective (ofText setting dialect) := by
  intro text other same
  have chars := congrArg Spelling.chars same
  cases dialect with
  | sqlite => exact String.toList_inj.mp chars
  | mysql => exact String.toList_inj.mp (escaped_injective chars)
  | postgres => exact String.toList_inj.mp (escaped_injective chars)

end Sql
end DomainSql
