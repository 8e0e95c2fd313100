import DomainSql.Json.Basic

/-!
# Reading JSON text

The grammar is strict: white space is space, tab, line feed and carriage return;
numbers have no leading zero, no bare point and no plus sign; control characters
in strings are escaped; every escaped surrogate is one of a pair; nothing but
white space follows the value.

How closely a value is read is a parameter. A value that nobody wants is only
checked for its form: its numbers may exceed every range, its surrogates may
stand alone, and it may be nested to any depth.
-/

namespace DomainSql
namespace Json

/-- Why a text is refused. -/
inductive Fault
  | endOfText
  | unexpected (found : Char)
  | tooDeep
  | numberTooLarge
  | loneSurrogate
  | unfit (expected : String)
  deriving DecidableEq

namespace Fault

/-- A fault in words. -/
def message : Fault → String
  | .endOfText => "the text ends too early"
  | .unexpected found => "unexpected character " ++ String.singleton found
  | .tooDeep => "too many open arrays and objects"
  | .numberTooLarge => "number out of range"
  | .loneSurrogate => "lone surrogate in a string"
  | .unfit expected => "expected " ++ expected

end Fault

/-- How closely a value is read. -/
structure Care where
  /-- How many arrays and objects may still be opened, without limit if absent. -/
  room : Option Nat
  /-- Whether numbers have to be in range and surrogates in pairs. -/
  exact : Bool

namespace Care

/-- Every rule applies, and at most 127 arrays and objects may be open. -/
def strict : Care := ⟨some 127, true⟩

/-- Every rule but the limit on depth applies. -/
def unlimited : Care := ⟨none, true⟩

/-- Only the form counts. -/
def formOnly : Care := ⟨none, false⟩

/-- The care for the contents of an array or object that is being opened. -/
def enter (care : Care) : Except Fault Care :=
  match care.room with
  | none => .ok care
  | some 0 => .error .tooDeep
  | some (room + 1) => .ok { care with room := some room }

end Care

/-- The white space of JSON. -/
def isSpace (char : Char) : Bool :=
  char == ' ' || char == '\t' || char == '\n' || char == '\r'

/-- Drop leading white space. -/
def skipSpace (chars : List Char) : List Char :=
  chars.dropWhile isSpace

/-- The fault of a text that goes on with something else than expected. -/
def refuse {Result : Type} : List Char → Except Fault Result
  | [] => .error .endOfText
  | char :: _ => .error (.unexpected char)

/-- Read exactly the given characters. -/
def expect : List Char → List Char → Except Fault (List Char)
  | [], chars => .ok chars
  | _ :: _, [] => .error .endOfText
  | wanted :: others, char :: rest =>
      if char = wanted then expect others rest else .error (.unexpected char)

/-! ## Strings -/

/-- A piece of a string's text: a character, or a unit of sixteen bits that was
written as an escape. -/
inductive Piece
  | char (char : Char)
  | unit (code : Nat)

/-- The character that a backslash and a letter stand for. -/
def unescape? : Char → Option Char
  | '"' => some '"'
  | '\\' => some '\\'
  | '/' => some '/'
  | 'b' => some '\x08'
  | 'f' => some '\x0c'
  | 'n' => some '\n'
  | 'r' => some '\r'
  | 't' => some '\t'
  | _ => none

/-- The value of a hexadecimal digit. -/
def hexDigit? (char : Char) : Option Nat :=
  if '0' ≤ char ∧ char ≤ '9' then some (char.toNat - '0'.toNat)
  else if 'a' ≤ char ∧ char ≤ 'f' then some (char.toNat - 'a'.toNat + 10)
  else if 'A' ≤ char ∧ char ≤ 'F' then some (char.toNat - 'A'.toNat + 10)
  else none

/-- The value of four hexadecimal digits. -/
def hexUnit?
    (first second third fourth : Char) : Option Nat := do
  let first ← hexDigit? first
  let second ← hexDigit? second
  let third ← hexDigit? third
  let fourth ← hexDigit? fourth
  pure (((first * 16 + second) * 16 + third) * 16 + fourth)

/-- The pieces of a string up to its closing quote, and what follows the quote. -/
def pieces : List Char → Except Fault (List Piece × List Char)
  | [] => .error .endOfText
  | '"' :: rest => .ok ([], rest)
  | '\\' :: 'u' :: first :: second :: third :: fourth :: rest =>
      match hexUnit? first second third fourth with
      | none => .error (.unexpected 'u')
      | some code => do
          let (others, rest) ← pieces rest
          pure (.unit code :: others, rest)
  | '\\' :: letter :: rest =>
      match unescape? letter with
      | none => .error (.unexpected letter)
      | some char => do
          let (others, rest) ← pieces rest
          pure (.char char :: others, rest)
  | ['\\'] => .error .endOfText
  | char :: rest =>
      if char.toNat < 0x20 then .error (.unexpected char)
      else do
        let (others, rest) ← pieces rest
        pure (.char char :: others, rest)

/-- Whether a unit is the first half of a pair. -/
def isHighSurrogate (code : Nat) : Bool := 0xD800 ≤ code && code < 0xDC00

/-- Whether a unit is the second half of a pair. -/
def isLowSurrogate (code : Nat) : Bool := 0xDC00 ≤ code && code < 0xE000

/-- The characters that pieces spell. Without `exact` a surrogate that stands
alone is passed over. -/
def spell
    (exact : Bool) : List Piece → Except Fault (List Char)
  | [] => .ok []
  | .char char :: rest => (spell exact rest).map (char :: ·)
  | [.unit code] =>
      if isHighSurrogate code || isLowSurrogate code then
        if exact then .error .loneSurrogate else .ok []
      else .ok [Char.ofNat code]
  | .unit code :: .unit next :: rest =>
      if isHighSurrogate code && isLowSurrogate next then
        (spell exact rest).map
          (Char.ofNat (0x10000 + (code - 0xD800) * 0x400 + (next - 0xDC00)) :: ·)
      else if isHighSurrogate code || isLowSurrogate code then
        if exact then .error .loneSurrogate else spell exact (.unit next :: rest)
      else (spell exact (.unit next :: rest)).map (Char.ofNat code :: ·)
  | .unit code :: .char char :: rest =>
      if isHighSurrogate code || isLowSurrogate code then
        if exact then .error .loneSurrogate else spell exact (.char char :: rest)
      else (spell exact (.char char :: rest)).map (Char.ofNat code :: ·)

/-- Read a string whose opening quote has been read. -/
def readString
    (care : Care)
    (chars : List Char) : Except Fault (String × List Char) := do
  let (pieces, rest) ← pieces chars
  let text ← spell care.exact pieces
  pure (String.ofList text, rest)

/-! ## Numbers -/

/-- The number that decimal digits spell. -/
def natOfDigits (digits : List Char) : Nat :=
  digits.foldl (fun value digit => 10 * value + (digit.toNat - '0'.toNat)) 0

/-- A run of at least one digit, and what follows it. -/
def readDigits (chars : List Char) : Except Fault (List Char × List Char) :=
  let digits := chars.takeWhile Char.isDigit
  let rest := chars.dropWhile Char.isDigit
  if digits.isEmpty then refuse rest else .ok (digits, rest)

/-- The digits in front of the point: a single zero, or digits of which the first
is not zero. -/
def readWhole (chars : List Char) : Except Fault (List Char × List Char) := do
  let (digits, rest) ← readDigits chars
  if 1 < digits.length && digits.head? == some '0' then .error (.unexpected '0')
  else pure (digits, rest)

/-- The digits behind the point, if there is a point. -/
def readFraction : List Char → Except Fault (Option (List Char) × List Char)
  | '.' :: chars => do
      let (digits, rest) ← readDigits chars
      pure (some digits, rest)
  | chars => .ok (none, chars)

/-- The exponent, if there is one. -/
def readExponent : List Char → Except Fault (Option Int × List Char)
  | mark :: chars =>
      if mark = 'e' ∨ mark = 'E' then do
        let (negative, chars) :=
          match chars with
          | '-' :: rest => (true, rest)
          | '+' :: rest => (false, rest)
          | _ => (false, chars)
        let (digits, rest) ← readDigits chars
        let size : Int := natOfDigits digits
        pure (some (if negative then -size else size), rest)
      else .ok (none, mark :: chars)
  | [] => .ok (none, [])

/-- The floating-point number of a decimal. -/
def floatOf
    (care : Care)
    (negative : Bool)
    (digits : Nat)
    (scale : Int) : Except Fault Json :=
  match Binary64.ofDecimal negative digits scale with
  | some number => .ok (.float number)
  | none => if care.exact then .error .numberTooLarge else .ok .null

/-- The number of a numeral without fraction and exponent: an integer if it fits
into sixty-four bits with or without sign, else a floating-point number. The
negated zero is a floating-point number. -/
def integerOf
    (care : Care)
    (negative : Bool)
    (size : Nat) : Except Fault Json :=
  if negative then
    if size = 0 ∨ Nat.pow 2 63 < size then floatOf care true size 0
    else .ok (.int (-size))
  else if size < Nat.pow 2 64 then .ok (.int size)
  else floatOf care false size 0

/-- Read a number whose minus sign, if any, has been read. -/
def readNumber
    (care : Care)
    (negative : Bool)
    (chars : List Char) : Except Fault (Json × List Char) := do
  let (whole, rest) ← readWhole chars
  let (fraction, rest) ← readFraction rest
  let (exponent, rest) ← readExponent rest
  let number ←
    match fraction, exponent with
    | none, none => integerOf care negative (natOfDigits whole)
    | _, _ =>
        let behind := fraction.getD []
        floatOf care negative (natOfDigits (whole ++ behind))
          (exponent.getD 0 - behind.length)
  pure (number, rest)

/-! ## Values -/

mutual

/-- Read a value. The fields of an object that are not `wanted` are checked for
their form and left out. -/
def readValue
    (care : Care)
    (wanted : String → Bool) :
    Nat → List Char → Except Fault (Json × List Char)
  | 0, _ => .error .endOfText
  | fuel + 1, chars =>
      match skipSpace chars with
      | 'n' :: rest => do
          let rest ← expect ['u', 'l', 'l'] rest
          pure (.null, rest)
      | 't' :: rest => do
          let rest ← expect ['r', 'u', 'e'] rest
          pure (.bool true, rest)
      | 'f' :: rest => do
          let rest ← expect ['a', 'l', 's', 'e'] rest
          pure (.bool false, rest)
      | '"' :: rest => do
          let (text, rest) ← readString care rest
          pure (.str text, rest)
      | '[' :: rest => do
          let inner ← care.enter
          match skipSpace rest with
          | ']' :: rest => pure (.arr [], rest)
          | rest => do
              let (items, rest) ← readItems inner fuel rest
              pure (.arr items, rest)
      | '\x7b' :: rest => do
          let inner ← care.enter
          match skipSpace rest with
          | '\x7d' :: rest => pure (.obj [], rest)
          | rest => do
              let (fields, rest) ← readFields inner wanted fuel rest
              pure (.obj fields, rest)
      | '-' :: rest => readNumber care true rest
      | char :: rest =>
          if char.isDigit then readNumber care false (char :: rest)
          else .error (.unexpected char)
      | [] => .error .endOfText

/-- Read the items of an array, of which there is at least one, and its closing
bracket. -/
def readItems
    (care : Care) :
    Nat → List Char → Except Fault (List Json × List Char)
  | 0, _ => .error .endOfText
  | fuel + 1, chars => do
      let (item, rest) ← readValue care (fun _ => true) fuel chars
      match skipSpace rest with
      | ',' :: rest => do
          let (items, rest) ← readItems care fuel rest
          pure (item :: items, rest)
      | ']' :: rest => pure ([item], rest)
      | rest => refuse rest

/-- Read the fields of an object, of which there is at least one, and its closing
brace. -/
def readFields
    (care : Care)
    (wanted : String → Bool) :
    Nat → List Char → Except Fault (List (String × Json) × List Char)
  | 0, _ => .error .endOfText
  | fuel + 1, chars =>
      match skipSpace chars with
      | '"' :: rest => do
          let (key, rest) ← readString care rest
          let rest ← expect [':'] (skipSpace rest)
          let care' := if wanted key then care else .formOnly
          let (value, rest) ← readValue care' (fun _ => true) fuel rest
          let kept := if wanted key then [(key, value)] else []
          match skipSpace rest with
          | ',' :: rest => do
              let (fields, rest) ← readFields care wanted fuel rest
              pure (kept ++ fields, rest)
          | '\x7d' :: rest => pure (kept, rest)
          | rest => refuse rest
      | rest => refuse rest

end

/-- Read a text that holds one value and no more. Each character allows two calls
of the functions that read values, so the fuel never runs out. -/
def readWith
    (care : Care)
    (wanted : String → Bool)
    (text : String) : Except Fault Json := do
  let chars := text.toList
  let (value, rest) ← readValue care wanted (2 * chars.length + 2) chars
  match skipSpace rest with
  | [] => pure value
  | rest => refuse rest

/-- Read a text as it is written, under every rule. -/
def readWritten (text : String) : Except Fault Json :=
  readWith .strict (fun _ => true) text

/-- Read a text under every rule and bring the value into canonical form. -/
def read (text : String) : Except Fault Json :=
  (readWritten text).map canonical

end Json
end DomainSql
