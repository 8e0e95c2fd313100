import DomainSql.Proofs.StatementText
import DomainSql.Proofs.TextSpellings

/-!
# Scanning SQL text

A scanner of SQL goes through the text character by character and knows nothing of how
it has been written. It is in one token at a time. A name or a text ends at its quote,
unless the quote is written twice or is escaped; every other token ends where a character
stands that does not belong to it. Where a text ends does not depend on what the escapes
in it stand for, so the scanner gives its spelling and leaves the reading to the dialect.

What the tokens of a statement are written as, the scanner splits into these tokens, as
long as each of them ends at a space, a parenthesis or a comma.
-/

namespace DomainSql
namespace Sql

/-! ## The scanner -/

/-- The token that a scanner is in, with what has been read of it, the last character
first. -/
inductive Scanning
  | between
  | blank
  | mark (char : Char)
  | operator (read : List Char)
  | word (read : List Char)
  | number (read : List Char)
  | name (read : List Char)
  /-- A name behind a quote, which ends it or is the first one of two. -/
  | nameEnd (read : List Char)
  | text (escapes : Bool) (read : List Char)
  /-- A text behind a backslash. -/
  | escape (read : List Char)
  /-- A text behind a quote, which ends it or is the first one of two. -/
  | textEnd (escapes : Bool) (read : List Char)

/-- The marks that are tokens on their own. -/
def isMark (char : Char) : Bool :=
  char == '(' || char == ')' || char == ',' || char == '.' || char == '*'

/-- The characters of operators. -/
def isOperatorChar (char : Char) : Bool :=
  char == '<' || char == '>' || char == '='

/-- The characters of words behind the first one. -/
def isWordChar (char : Char) : Bool :=
  char.isAlphanum || char == '_'

namespace Scanning

/-- The token with one more character, if the character belongs to it. In Postgres the
word `E` before a quote turns out to be the beginning of a text with escapes, and so does
`e`. The character behind a backslash belongs to the text whichever it is. -/
def extend
    (dialect : Dialect) : Scanning → Char → Option Scanning
  | .between, _ => none
  | .blank, _ => none
  | .mark _, _ => none
  | .operator read, char =>
      if isOperatorChar char then some (.operator (char :: read)) else none
  | .word read, char =>
      if isWordChar char then some (.word (char :: read))
      else if dialect = .postgres ∧ (read = ['E'] ∨ read = ['e']) ∧ char = '\'' then
        some (.text true [])
      else none
  | .number read, char =>
      if char.isDigit || char == '.' then some (.number (char :: read)) else none
  | .name read, char =>
      if char = nameQuote dialect then some (.nameEnd read)
      else some (.name (char :: read))
  | .nameEnd read, char =>
      if char = nameQuote dialect then some (.name (char :: read)) else none
  | .text escapes read, char =>
      if escapes ∧ char = '\\' then some (.escape (char :: read))
      else if char = '\'' then some (.textEnd escapes read)
      else some (.text escapes (char :: read))
  | .escape read, char => some (.text true (char :: read))
  | .textEnd escapes read, char =>
      if char = '\'' then some (.text escapes (char :: read)) else none

/-- The tokens that have ended where a token ends, if it may end there. -/
def finish : Scanning → Option (List (Token Spelling))
  | .between => some []
  | .blank => some [.space]
  | .mark char => some [.symbol (String.ofList [char])]
  | .operator read => some [.symbol (String.ofList read.reverse)]
  | .word read => some [.word (String.ofList read.reverse)]
  | .number read =>
      if (read.head?.map Char.isDigit).getD false then
        some [.number (String.ofList read.reverse)]
      else none
  | .nameEnd read => some [.name (String.ofList read.reverse)]
  | .textEnd escapes read => some [.text ⟨escapes, read.reverse⟩]
  | .name _ => none
  | .text _ _ => none
  | .escape _ => none

end Scanning

/-- The token that begins with a character. -/
def opening
    (setting : Bool)
    (dialect : Dialect)
    (char : Char) : Option Scanning :=
  if char = ' ' then some .blank
  else if isMark char then some (.mark char)
  else if isOperatorChar char then some (.operator [char])
  else if char.isAlpha then some (.word [char])
  else if char.isDigit || char == '-' then some (.number [char])
  else if char = nameQuote dialect then some (.name [])
  else if char = '\'' then some (.text (escapesUnmarked setting dialect) [])
  else none

/-- The tokens of the characters from within a token on. -/
def scanFrom
    (setting : Bool)
    (dialect : Dialect) : Scanning → List Char → Option (List (Token Spelling))
  | state, [] => state.finish
  | state, char :: rest =>
      match state.extend dialect char with
      | some next => scanFrom setting dialect next rest
      | none => do
          let ended ← state.finish
          let next ← opening setting dialect char
          let tokens ← scanFrom setting dialect next rest
          pure (ended ++ tokens)

/-- The tokens that a text consists of, if it consists of tokens. -/
def scan
    (setting : Bool)
    (dialect : Dialect)
    (text : String) : Option (List (Token Spelling)) :=
  scanFrom setting dialect .between text.toList

/-! ## Where a token ends -/

variable {setting : Bool} {dialect : Dialect} {state next : Scanning}
  {char : Char} {rest : List Char}

theorem scanFrom_of_extend
    (extended : state.extend dialect char = some next) :
    scanFrom setting dialect state (char :: rest) =
      scanFrom setting dialect next rest := by
  rw [scanFrom, extended]

/-- Where a token ends, the scanner goes on as it begins. -/
theorem scanFrom_of_finish
    {ended : List (Token Spelling)}
    (finished : state.finish = some ended)
    (stops : ∀ char ∈ rest.head?, state.extend dialect char = none) :
    scanFrom setting dialect state rest =
      (scanFrom setting dialect .between rest).map (ended ++ ·) := by
  cases rest with
  | nil =>
      rw [scanFrom, scanFrom, finished]
      simp [Scanning.finish]
  | cons char rest =>
      rw [scanFrom, stops char rfl, scanFrom, Scanning.extend, finished]
      cases opening setting dialect char with
      | none => rfl
      | some next =>
          cases scanned : scanFrom setting dialect next rest <;>
            simp [scanned, Scanning.finish]

theorem scanFrom_between
    (opened : opening setting dialect char = some next) :
    scanFrom setting dialect .between (char :: rest) =
      scanFrom setting dialect next rest := by
  rw [scanFrom]
  simp only [Scanning.extend, Scanning.finish, opened]
  cases scanned : scanFrom setting dialect next rest <;> simp [scanned]

/-- The characters that no token goes on with, a name or a text at its quote
included. -/
def isDelimiter (char : Char) : Bool :=
  char == ' ' || char == '(' || char == ')' || char == ','

/-- Nothing follows, or a character that ends every token. -/
def Delimited (rest : List Char) : Prop :=
  ∀ char ∈ rest.head?, isDelimiter char = true

/-- The scanner splits the characters of these tokens into them, wherever they are
followed by a delimiter. -/
def Scans
    (setting : Bool)
    (dialect : Dialect)
    (tokens : List Token) : Prop :=
  ∀ rest, Delimited rest →
    scanFrom setting dialect .between (Token.charsOf dialect tokens ++ rest) =
      (scanFrom setting dialect .between rest).map
        (tokens.map (Token.spelled setting dialect) ++ ·)

theorem extend_eq_none_of_isDelimiter
    (delimits : isDelimiter char = true)
    (finishes : state.finish.isSome) :
    state.extend dialect char = none := by
  simp only [isDelimiter, Bool.or_eq_true, beq_iff_eq] at delimits
  cases state with
  | name read => cases finishes
  | text escapes read => cases finishes
  | escape read => cases finishes
  | nameEnd read =>
      rcases delimits with ((rfl | rfl) | rfl) | rfl <;> cases dialect <;> rfl
  | between => rfl
  | blank => rfl
  | mark _ => rfl
  | operator read => rcases delimits with ((rfl | rfl) | rfl) | rfl <;> rfl
  | number read => rcases delimits with ((rfl | rfl) | rfl) | rfl <;> rfl
  | word read =>
      rcases delimits with ((rfl | rfl) | rfl) | rfl <;>
        simp [Scanning.extend, isWordChar]
  | textEnd escapes read => rcases delimits with ((rfl | rfl) | rfl) | rfl <;> rfl

/-! ## Words, numbers and operators -/

/-- Whether a text is the spelling of a word. -/
def isWord (spelling : String) : Bool :=
  match spelling.toList with
  | [] => false
  | first :: rest => first.isAlpha && rest.all isWordChar

/-- Whether a text is the spelling of a number. -/
def isNumber (spelling : String) : Bool :=
  match spelling.toList with
  | [] => false
  | first :: rest =>
      (first.isDigit || first == '-')
        && rest.all (fun char => char.isDigit || char == '.')
        && ((first :: rest).reverse.head?.map Char.isDigit).getD false

/-- Whether a text is the spelling of an operator. -/
def isOperator (spelling : String) : Bool :=
  match spelling.toList with
  | [] => false
  | first :: rest => isOperatorChar first && rest.all isOperatorChar

/-- The characters of a run belong to the token that the first one begins. -/
theorem scanFrom_run
    {build : List Char → Scanning}
    {belongs : Char → Bool}
    (extends_ : ∀ read char, belongs char = true →
      (build read).extend dialect char = some (build (char :: read)))
    {chars : List Char}
    (all : chars.all belongs = true)
    (read rest : List Char) :
    scanFrom setting dialect (build read) (chars ++ rest) =
      scanFrom setting dialect (build (chars.reverse ++ read)) rest := by
  induction chars generalizing read with
  | nil => rfl
  | cons char chars inductionHypothesis =>
      rw [List.all_cons, Bool.and_eq_true] at all
      rw [List.cons_append, scanFrom_of_extend (extends_ read char all.1),
        inductionHypothesis all.2]
      simp

/-- A token whose characters lead the scanner to where it may end is scanned. -/
theorem Scans.of_finish
    {token : Token}
    (leads : ∀ rest, scanFrom setting dialect .between (token.chars dialect ++ rest) =
      scanFrom setting dialect state rest)
    (finished : state.finish = some [token.spelled setting dialect]) :
    Scans setting dialect [token] := by
  intro rest delimited
  rw [Token.charsOf_cons, Token.charsOf_nil, List.append_nil, leads,
    scanFrom_of_finish finished, List.map_singleton]
  exact fun char inRest =>
    extend_eq_none_of_isDelimiter (delimited char inRest) (by rw [finished]; rfl)

/-- A character that a test accepts is none that the test rejects. -/
theorem ne_of_test
    {test : Char → Bool}
    {other : Char}
    (accepted : test char = true)
    (rejected : test other = false) :
    char ≠ other := by
  rintro rfl
  exact Bool.noConfusion (accepted.symm.trans rejected)

theorem opening_of_isAlpha (alpha : char.isAlpha = true) :
    opening setting dialect char = some (.word [char]) := by
  have different : ∀ other : Char, other.isAlpha = false → char ≠ other :=
    fun _ => ne_of_test alpha
  have notMark : isMark char = false := by simp [isMark, different]
  have notOperator : isOperatorChar char = false := by simp [isOperatorChar, different]
  simp [opening, different, notMark, notOperator, alpha]

theorem isAlpha_of_isDigit (digit : char.isDigit = true) : char.isAlpha = false := by
  have inDigits : 48 ≤ char.val.toNat ∧ char.val.toNat ≤ 57 := by
    have both : (decide (char.val ≥ 48) && decide (char.val ≤ 57)) = true := digit
    simpa [UInt32.le_iff_toNat_le] using both
  have notLetter : (decide (char.val ≥ 65 ∧ char.val ≤ 90) ||
      (decide (char.val ≥ 97) && decide (char.val ≤ 122))) = false := by
    simp only [ge_iff_le, UInt32.le_iff_toNat_le, Bool.or_eq_false_iff,
      Bool.and_eq_false_iff, decide_eq_false_iff_not, UInt32.reduceToNat]
    omega
  exact notLetter

theorem opening_of_digit_or_sign (numeric : (char.isDigit || char == '-') = true) :
    opening setting dialect char = some (.number [char]) := by
  have different := fun other =>
    @ne_of_test char (fun char => char.isDigit || char == '-') other numeric
  have notMark : isMark char = false := by simp [isMark, different]
  have notOperator : isOperatorChar char = false := by simp [isOperatorChar, different]
  have notAlpha : char.isAlpha = false := by
    rcases Bool.or_eq_true _ _ ▸ numeric with digit | sign
    · exact isAlpha_of_isDigit digit
    · rw [beq_iff_eq.mp sign]
      rfl
  simp [opening, different, notMark, notOperator, notAlpha, numeric]

theorem opening_of_isOperatorChar (operator : isOperatorChar char = true) :
    opening setting dialect char = some (.operator [char]) := by
  simp only [isOperatorChar, Bool.or_eq_true, beq_iff_eq] at operator
  rcases operator with (rfl | rfl) | rfl <;> rfl

namespace Scans

/-- A token is scanned that is a run of characters behind the one that begins it. -/
theorem of_run
    {build : List Char → Scanning}
    {belongs : Char → Bool}
    (extends_ : ∀ read char, belongs char = true →
      (build read).extend dialect char = some (build (char :: read)))
    {token : Token}
    {first : Char}
    {others : List Char}
    (chars : token.chars dialect = first :: others)
    (opened : opening setting dialect first = some (build [first]))
    (all : others.all belongs = true)
    (finished : (build (first :: others).reverse).finish =
      some [token.spelled setting dialect]) :
    Scans setting dialect [token] := by
  refine of_finish (fun rest => ?_) finished
  rw [chars, List.cons_append, scanFrom_between opened, scanFrom_run extends_ all,
    List.reverse_cons]

theorem word
    {spelling : String}
    (spelled : isWord spelling = true) :
    Scans setting dialect [.word spelling] := by
  rw [isWord] at spelled
  split at spelled
  · cases spelled
  · rename_i first others chars
    rw [Bool.and_eq_true] at spelled
    exact of_run (fun read char belongs => by simp [Scanning.extend, belongs])
      chars (opening_of_isAlpha spelled.1) spelled.2
      (by rw [Scanning.finish, List.reverse_reverse, ← chars, String.ofList_toList,
        Token.spelled_word])

theorem number
    {spelling : String}
    (spelled : isNumber spelling = true) :
    Scans setting dialect [.number spelling] := by
  rw [isNumber] at spelled
  split at spelled
  · cases spelled
  · rename_i first others chars
    simp only [Bool.and_eq_true] at spelled
    obtain ⟨⟨numeric, all⟩, last⟩ := spelled
    exact of_run (fun read char belongs => by simp [Scanning.extend, belongs])
      chars (opening_of_digit_or_sign numeric) all
      (by rw [Scanning.finish, if_pos last, List.reverse_reverse, ← chars,
        String.ofList_toList, Token.spelled_number])

theorem operator
    {spelling : String}
    (spelled : isOperator spelling = true) :
    Scans setting dialect [.symbol spelling] := by
  rw [isOperator] at spelled
  split at spelled
  · cases spelled
  · rename_i first others chars
    rw [Bool.and_eq_true] at spelled
    exact of_run (fun read char belongs => by simp [Scanning.extend, belongs])
      chars (opening_of_isOperatorChar spelled.1) spelled.2
      (by rw [Scanning.finish, List.reverse_reverse, ← chars, String.ofList_toList,
        Token.spelled_symbol])

end Scans

/-! ## Names and texts -/

theorem opening_nameQuote (dialect : Dialect) :
    opening setting dialect (nameQuote dialect) = some (.name []) := by
  cases dialect <;> rfl

/-- A name is read up to its end, every quote in it once. -/
theorem scanFrom_doubled_name
    (chars read rest : List Char) :
    scanFrom setting dialect (.name read)
        (doubled (nameQuote dialect) chars ++ nameQuote dialect :: rest) =
      scanFrom setting dialect (.nameEnd (chars.reverse ++ read)) rest := by
  induction chars generalizing read with
  | nil => exact scanFrom_of_extend (by simp [Scanning.extend])
  | cons char chars inductionHypothesis =>
      rw [List.reverse_cons, List.append_assoc, List.singleton_append,
        ← inductionHypothesis]
      by_cases isQuote : char = nameQuote dialect
      · rw [isQuote, doubled_cons_self, List.cons_append, List.cons_append,
          scanFrom_of_extend (by simp [Scanning.extend]; rfl),
          scanFrom_of_extend (by simp [Scanning.extend]; rfl)]
      · rw [doubled_cons_of_ne isQuote, List.cons_append,
          scanFrom_of_extend (by simp [Scanning.extend, isQuote]; rfl)]

theorem scanFrom_quotedName
    (name : String)
    (rest : List Char) :
    scanFrom setting dialect .between (quotedName dialect name ++ rest) =
      scanFrom setting dialect (.nameEnd name.toList.reverse) rest := by
  rw [quotedName, List.cons_append, List.cons_append, List.append_assoc,
    List.singleton_append, scanFrom_between (opening_nameQuote dialect),
    scanFrom_doubled_name, List.append_nil]

/-- A text with doubled quotes is read up to its end. -/
theorem scanFrom_doubled_text
    (chars read rest : List Char) :
    scanFrom setting dialect (.text false read) (doubled '\'' chars ++ '\'' :: rest) =
      scanFrom setting dialect (.textEnd false (chars.reverse ++ read)) rest := by
  induction chars generalizing read with
  | nil => exact scanFrom_of_extend (by simp [Scanning.extend])
  | cons char chars inductionHypothesis =>
      rw [List.reverse_cons, List.append_assoc, List.singleton_append,
        ← inductionHypothesis]
      by_cases isQuote : char = '\''
      · rw [isQuote, doubled_cons_self, List.cons_append, List.cons_append,
          scanFrom_of_extend (by simp [Scanning.extend]; rfl),
          scanFrom_of_extend (by simp [Scanning.extend]; rfl)]
      · rw [doubled_cons_of_ne isQuote, List.cons_append,
          scanFrom_of_extend (by simp [Scanning.extend, isQuote]; rfl)]

/-- A text with escapes is read up to its end. -/
theorem scanFrom_escaped
    (chars read rest : List Char) :
    scanFrom setting dialect (.text true read) (escaped chars ++ '\'' :: rest) =
      scanFrom setting dialect (.textEnd true ((escaped chars).reverse ++ read)) rest := by
  induction chars generalizing read with
  | nil =>
      have extended : (Scanning.text true read).extend dialect '\'' =
          some (.textEnd true read) := rfl
      exact scanFrom_of_extend extended
  | cons char chars inductionHypothesis =>
      cases found : escapeLetter? char with
      | some letter =>
          rw [escaped_cons_of_special found, List.cons_append, List.cons_append,
            scanFrom_of_extend (by simp [Scanning.extend]; rfl), scanFrom_of_extend rfl,
            inductionHypothesis]
          simp
      | none =>
          have notQuote : char ≠ '\'' := by
            rintro rfl
            cases found
          have extended : (Scanning.text true read).extend dialect char =
              some (.text true (char :: read)) := by
            simp [Scanning.extend, ne_backslash_of_plain found, notQuote]
          rw [escaped_cons_of_plain found, List.cons_append, scanFrom_of_extend extended,
            inductionHypothesis]
          simp

/-- A text that needs no escapes is read up to its end, whether or not there could be
escapes in it. -/
theorem scanFrom_plain_text
    {chars : List Char}
    (plain : needsEscape chars = false)
    (escapes : Bool)
    (read rest : List Char) :
    scanFrom setting dialect (.text escapes read) (chars ++ '\'' :: rest) =
      scanFrom setting dialect (.textEnd escapes (chars.reverse ++ read)) rest := by
  induction chars generalizing read with
  | nil => exact scanFrom_of_extend (by simp [Scanning.extend])
  | cons char chars inductionHypothesis =>
      rw [needsEscape, List.any_cons, Bool.or_eq_false_iff] at plain
      have different : char ≠ '\\' ∧ char ≠ '\'' := by
        constructor <;> rintro rfl <;> cases plain.1
      rw [List.reverse_cons, List.append_assoc, List.singleton_append,
        ← inductionHypothesis plain.2, List.cons_append,
        scanFrom_of_extend (by simp [Scanning.extend, different]; rfl)]

/-- A quoted text is read up to its end, with its spelling. -/
theorem scanFrom_quotedText
    (text : String)
    (rest : List Char) :
    scanFrom setting dialect .between (quotedText dialect text ++ rest) =
      scanFrom setting dialect
        (.textEnd (Spelling.ofText setting dialect text).escapes
          (Spelling.ofText setting dialect text).chars.reverse) rest := by
  have opened : ∀ dialect, opening setting dialect '\'' =
      some (.text (escapesUnmarked setting dialect) []) := by
    intro dialect
    cases dialect <;> rfl
  cases dialect with
  | sqlite =>
      have read := @scanFrom_doubled_text setting .sqlite text.toList [] rest
      simpa [quotedText, scanFrom_between (opened _), escapesUnmarked,
        Spelling.ofText] using read
  | mysql =>
      have read := @scanFrom_escaped setting .mysql text.toList [] rest
      simpa [quotedText, scanFrom_between (opened _), escapesUnmarked,
        Spelling.ofText] using read
  | postgres =>
      cases special : needsEscape text.toList with
      | true =>
          have marked : opening setting .postgres 'E' = some (.word ['E']) := rfl
          have turned : Scanning.extend .postgres (.word ['E']) '\'' =
              some (.text true []) := rfl
          simpa [quotedText, special, scanFrom_between marked, Spelling.ofText,
            scanFrom_of_extend turned] using scanFrom_escaped text.toList [] rest
      | false =>
          have read := @scanFrom_plain_text setting .postgres _ special setting [] rest
          simpa [quotedText, special, scanFrom_between (opened _), Spelling.ofText,
            escapesUnmarked, escaped_eq_self special] using read

namespace Scans

/-- A name is scanned as one token whose content is the name. -/
theorem name (content : String) : Scans setting dialect [.name content] :=
  of_finish (scanFrom_quotedName content) (by simp [Scanning.finish])

/-- A text is scanned as one token with the spelling of the text. -/
theorem text (content : String) : Scans setting dialect [.text content] :=
  of_finish (scanFrom_quotedText content) (by simp [Scanning.finish])

theorem nil : Scans setting dialect [] := by
  intro rest _
  rw [Token.charsOf_nil, List.nil_append]
  simp

end Scans

/-! ## Tokens one after the other -/

/-- A mark is scanned as one token, whatever follows. -/
theorem scanFrom_mark
    (isMark : isMark char = true)
    (rest : List Char) :
    scanFrom setting dialect .between (char :: rest) =
      (scanFrom setting dialect .between rest).map
        (.symbol (String.ofList [char]) :: ·) := by
  have opened : opening setting dialect char = some (.mark char) := by
    simp only [Sql.isMark, Bool.or_eq_true, beq_iff_eq] at isMark
    rcases isMark with (((rfl | rfl) | rfl) | rfl) | rfl <;> rfl
  rw [scanFrom_between opened, scanFrom_of_finish rfl (fun _ _ => rfl)]
  rfl

/-- The token is a delimiter. -/
def Token.Delimits (token : Token) : Prop :=
  token = .space ∨ token = .symbol "(" ∨ token = .symbol ")" ∨ token = .symbol ","

/-- A delimiter is scanned as one token, whatever follows. -/
theorem scanFrom_delimiter
    {token : Token}
    (delimits : token.Delimits)
    (rest : List Char) :
    scanFrom setting dialect .between (token.chars dialect ++ rest) =
      (scanFrom setting dialect .between rest).map
        (token.spelled setting dialect :: ·) := by
  rcases delimits with rfl | rfl | rfl | rfl
  · have opened : opening setting dialect ' ' = some .blank := rfl
    rw [Token.chars, List.singleton_append, scanFrom_between opened,
      scanFrom_of_finish rfl fun _ _ => rfl]
    rfl
  all_goals exact scanFrom_mark rfl rest

theorem delimited_of_delimits
    {token : Token}
    (delimits : token.Delimits)
    (rest : List Char) :
    Delimited (token.chars dialect ++ rest) := by
  intro char isFirst
  rcases delimits with rfl | rfl | rfl | rfl <;>
  · obtain rfl := Option.some.inj isFirst
    rfl

namespace Scans

variable {front back tokens : List Token} {token : Token}

/-- Tokens are scanned behind a delimiter. -/
theorem behind
    (delimits : token.Delimits)
    (scans : Scans setting dialect tokens) :
    Scans setting dialect (token :: tokens) := by
  intro rest delimited
  rw [Token.charsOf_cons, List.append_assoc, scanFrom_delimiter delimits,
    scans rest delimited, Option.map_map]
  rfl

theorem mark (isMark : isMark char = true) :
    Scans setting dialect [.symbol (String.ofList [char])] := by
  intro rest _
  have chars : Token.charsOf dialect [.symbol (String.ofList [char])] = [char] := by
    simp [Token.chars]
  rw [chars, List.singleton_append, scanFrom_mark isMark]
  rfl

/-- Tokens are scanned in front of others that are none or begin with a delimiter. -/
theorem append_led
    (scans : Scans setting dialect front)
    (led : ∀ token ∈ back.head?, token.Delimits)
    (others : Scans setting dialect back) :
    Scans setting dialect (front ++ back) := by
  cases back with
  | nil =>
      rw [List.append_nil]
      exact scans
  | cons token back =>
      intro rest delimited
      rw [Token.charsOf_append, List.append_assoc, scans, others rest delimited,
        Option.map_map]
      · simp [Function.comp_def]
      · rw [Token.charsOf_cons, List.append_assoc]
        exact delimited_of_delimits (led token rfl) _

/-- Tokens are scanned in front of a delimiter with others behind it. -/
theorem append
    (delimits : token.Delimits)
    (scans : Scans setting dialect front)
    (others : Scans setting dialect back) :
    Scans setting dialect (front ++ token :: back) :=
  scans.append_led (fun _ isFirst => Option.some.inj isFirst ▸ delimits)
    (others.behind delimits)

/-- What is scanned is scanned behind a name and a point, too. -/
theorem qualified
    (table : String)
    (scans : Scans setting dialect tokens) :
    Scans setting dialect (.name table :: .symbol "." :: tokens) := by
  intro rest delimited
  have point : isMark '.' = true := rfl
  have chars : Token.charsOf dialect (.name table :: .symbol "." :: tokens) =
      quotedName dialect table ++ '.' :: Token.charsOf dialect tokens := by
    simp [Token.chars]
  have ends : ∀ char ∈ ('.' :: (Token.charsOf dialect tokens ++ rest)).head?,
      (Scanning.nameEnd table.toList.reverse).extend dialect char = none := by
    intro char isFirst
    obtain rfl := Option.some.inj isFirst
    cases dialect <;> rfl
  rw [chars, List.append_assoc, List.cons_append, scanFrom_quotedName,
    scanFrom_of_finish rfl ends, scanFrom_mark point, scans rest delimited,
    Option.map_map, Option.map_map]
  simp [Function.comp_def]

theorem listed :
    ∀ {lists : List (List Token)},
      (∀ tokens ∈ lists, Scans setting dialect tokens) →
      Scans setting dialect (Token.listed lists)
  | [], _ => nil
  | [tokens], each => each tokens (List.mem_singleton_self tokens)
  | first :: second :: rest, each => by
      obtain ⟨firstScans, others⟩ := List.forall_mem_cons.mp each
      exact append (.inr (.inr (.inr rfl))) firstScans
        (behind (.inl rfl) (listed others))

theorem parenthesized
    (scans : Scans setting dialect tokens) :
    Scans setting dialect (Token.parenthesized tokens) :=
  behind (.inr (.inl rfl)) (append (.inr (.inr (.inl rfl))) scans nil)

theorem phrase :
    ∀ {words : List String}, words.all isWord = true →
      Scans setting dialect (Token.phrase words)
  | [], _ => nil
  | [spelling], spelled => word (by simpa using spelled)
  | first :: second :: rest, spelled => by
      rw [List.all_cons, Bool.and_eq_true] at spelled
      exact append (.inl rfl) (word spelled.1) (phrase spelled.2)

end Scans

/-- Tokens that are scanned are those that their text consists of. -/
theorem scan_textOf
    {tokens : List Token}
    (scans : Scans setting dialect tokens) :
    scan setting dialect (Token.textOf dialect tokens) =
      some (tokens.map (Token.spelled setting dialect)) := by
  have scanned := scans [] nofun
  simpa [scan, Token.textOf, scanFrom, Scanning.finish] using scanned

example : scan false .postgres "\"a\"\"b\".\"c\" = E'it\\'s'" =
    some [.name "a\"b", .symbol ".", .name "c", .space, .symbol "=", .space,
      .text ⟨true, "it\\'s".toList⟩] := by
  decide +kernel

end Sql
end DomainSql
