import DomainSql.Proofs.JsonNumerals
import DomainSql.Proofs.JsonStrings

/-!
# The grammar of JSON text

A written value keeps its numbers as numerals, and the fields of its objects as they are
written, in order and with repetitions. Its text is the sequence of its words, with
white space in front of each of them and behind the last one.

The reader and the grammar agree: a text of a written value is read as the value, and
refused where a numeral is out of range or too many arrays and objects are open; and a
text that is read at all is the text of a written value.
-/

namespace DomainSql
namespace Json

/-- A word of JSON text. -/
inductive Lexeme
  | openArray
  | closeArray
  | openObject
  | closeObject
  | comma
  | colon
  | null
  | bool (value : Bool)
  | number (numeral : Numeral)
  | text (value : String)

/-- Whether characters spell a word. Strings have several spellings. -/
def Lexeme.SpelledBy : Lexeme → List Char → Prop
  | .openArray, chars => chars = ['[']
  | .closeArray, chars => chars = [']']
  | .openObject, chars => chars = ['\x7b']
  | .closeObject, chars => chars = ['\x7d']
  | .comma, chars => chars = [',']
  | .colon, chars => chars = [':']
  | .null, chars => chars = ['n', 'u', 'l', 'l']
  | .bool true, chars => chars = ['t', 'r', 'u', 'e']
  | .bool false, chars => chars = ['f', 'a', 'l', 's', 'e']
  | .number numeral, chars => chars = numeral.chars
  | .text value, chars => SpellsString chars value

/-- Characters that hold words, with white space between them. -/
inductive Layout : List Char → List Lexeme → Prop
  | nil
      {space : List Char}
      (blank : ∀ char ∈ space, isSpace char = true) :
      Layout space []
  | cons
      {space word rest : List Char}
      {lexeme : Lexeme}
      {lexemes : List Lexeme}
      (blank : ∀ char ∈ space, isSpace char = true)
      (spelled : lexeme.SpelledBy word)
      (others : Layout rest lexemes) :
      Layout (space ++ (word ++ rest)) (lexeme :: lexemes)

/-- A JSON value as it is written. -/
inductive Written
  | null
  | bool (value : Bool)
  | number (numeral : Numeral)
  | str (value : String)
  | arr (items : List Written)
  | obj (fields : List (String × Written))

namespace Written

mutual

/-- The words of a value. -/
def lexemes : Written → List Lexeme
  | .null => [.null]
  | .bool value => [.bool value]
  | .number numeral => [.number numeral]
  | .str value => [.text value]
  | .arr [] => [.openArray, .closeArray]
  | .arr (item :: rest) => .openArray :: (lexemes item ++ lexemesOfItems rest)
  | .obj [] => [.openObject, .closeObject]
  | .obj ((key, value) :: rest) =>
      .openObject :: .text key :: .colon :: (lexemes value ++ lexemesOfFields rest)

/-- The words of the items behind the first one, and of the closing bracket. -/
def lexemesOfItems : List Written → List Lexeme
  | [] => [.closeArray]
  | item :: rest => .comma :: (lexemes item ++ lexemesOfItems rest)

/-- The words of the fields behind the first one, and of the closing brace. -/
def lexemesOfFields : List (String × Written) → List Lexeme
  | [] => [.closeObject]
  | (key, value) :: rest =>
      .comma :: .text key :: .colon :: (lexemes value ++ lexemesOfFields rest)

end

mutual

/-- The value of what is written, if all its numerals are in range and no more arrays
and objects are open at once than there is room for. -/
def json? : Nat → Written → Option Json
  | _, .null => some .null
  | _, .bool value => some (.bool value)
  | _, .number numeral => numeral.json?
  | _, .str value => some (.str value)
  | 0, .arr _ => none
  | room + 1, .arr items => (jsonOfItems? room items).map .arr
  | 0, .obj _ => none
  | room + 1, .obj fields => (jsonOfFields? room fields).map .obj

/-- The values of items. -/
def jsonOfItems? : Nat → List Written → Option (List Json)
  | _, [] => some []
  | room, item :: rest =>
      (json? room item).bind fun value => (jsonOfItems? room rest).map (value :: ·)

/-- The values of fields with their keys. -/
def jsonOfFields? : Nat → List (String × Written) → Option (List (String × Json))
  | _, [] => some []
  | room, (key, value) :: rest =>
      (json? room value).bind fun value =>
        (jsonOfFields? room rest).map ((key, value) :: ·)

end

/-- A text holds a value as it is written. -/
def LaidOut
    (written : Written)
    (text : String) : Prop :=
  Layout text.toList written.lexemes

end Written

/-! ## White space and words -/

theorem skipSpace_append
    {space : List Char}
    (blank : ∀ char ∈ space, isSpace char = true)
    (rest : List Char) :
    skipSpace (space ++ rest) = skipSpace rest :=
  List.dropWhile_append_of_pos blank

theorem exists_blank (chars : List Char) :
    ∃ space, (∀ char ∈ space, isSpace char = true) ∧ chars = space ++ skipSpace chars :=
  ⟨chars.takeWhile isSpace, List.all_eq_true.mp List.all_takeWhile,
    List.takeWhile_append_dropWhile.symm⟩

/-- A digit is no white space. -/
theorem not_isSpace_of_isDigit
    {char : Char}
    (digit : char.isDigit = true) :
    isSpace char = false := by
  have different : ∀ other : Char, other.isDigit = false → char ≠ other := by
    rintro other notDigit rfl
    exact Bool.noConfusion (digit.symm.trans notDigit)
  simp [isSpace, different]

/-- Without its sign a numeral begins with a digit. -/
theorem Numeral.exists_unsignedChars_eq (numeral : Numeral) :
    ∃ char rest, numeral.unsignedChars = char :: rest ∧ char.isDigit = true := by
  obtain ⟨char, rest, form⟩ := List.exists_cons_of_ne_nil
    (Nat.toDigits_ne_nil : Nat.toDigits 10 numeral.whole ≠ [])
  refine ⟨char, rest ++ numeral.tailChars, ?_, ?_⟩
  · rw [unsignedChars, form, List.cons_append]
  · exact decimal_toDigits numeral.whole char (form ▸ List.mem_cons_self)

/-- A numeral begins with its sign or with a digit. -/
theorem Numeral.exists_chars_eq (numeral : Numeral) :
    ∃ char rest, numeral.chars = char :: rest ∧ (char = '-' ∨ char.isDigit = true) := by
  rw [chars]
  split
  · exact ⟨'-', numeral.unsignedChars, rfl, .inl rfl⟩
  · obtain ⟨char, rest, form, digit⟩ := numeral.exists_unsignedChars_eq
    exact ⟨char, rest, form, .inr digit⟩

/-- A word begins with a character that is no white space. -/
theorem Lexeme.SpelledBy.exists_cons
    {lexeme : Lexeme}
    {word : List Char}
    (spelled : lexeme.SpelledBy word) :
    ∃ char rest, word = char :: rest ∧ isSpace char = false := by
  cases lexeme with
  | bool value => cases value <;> exact ⟨_, _, spelled, rfl⟩
  | number numeral =>
      obtain ⟨char, rest, form, sign | digit⟩ := numeral.exists_chars_eq
      · exact ⟨char, rest, Eq.trans spelled form, by rw [sign]; rfl⟩
      · exact ⟨char, rest, Eq.trans spelled form, not_isSpace_of_isDigit digit⟩
  | text value =>
      obtain ⟨inner, pieces, form, _⟩ := spelled
      exact ⟨'"', inner ++ ['"'], form, rfl⟩
  | _ => exact ⟨_, _, spelled, rfl⟩

/-- Behind white space the first word of a layout is next. -/
theorem Layout.exists_word
    {chars : List Char}
    {lexeme : Lexeme}
    {lexemes : List Lexeme}
    (layout : Layout chars (lexeme :: lexemes)) :
    ∃ word rest, lexeme.SpelledBy word ∧ Layout rest lexemes ∧
      skipSpace chars = word ++ rest ∧ (word ++ rest).length ≤ chars.length ∧
      rest.length < chars.length := by
  cases layout with
  | @cons space word rest _ _ blank spelled others =>
      obtain ⟨char, letters, rfl, solid⟩ := spelled.exists_cons
      refine ⟨char :: letters, rest, spelled, others, ?_, ?_, ?_⟩
      · rw [skipSpace_append blank, List.cons_append]
        exact List.dropWhile_cons_of_neg (by simp [solid])
      all_goals
        simp only [List.length_append, List.length_cons]
        omega

/-- The first word of a layout may do without the white space in front of it. -/
theorem Layout.skipSpace
    {chars : List Char}
    {lexemes : List Lexeme}
    (layout : Layout chars lexemes) :
    Layout (skipSpace chars) lexemes := by
  cases layout with
  | nil blank =>
      have nothing : Json.skipSpace chars = [] := by
        have := skipSpace_append blank []
        rwa [List.append_nil] at this
      rw [nothing]
      exact .nil (by simp)
  | @cons space word rest _ _ blank spelled others =>
      obtain ⟨char, letters, rfl, solid⟩ := spelled.exists_cons
      rw [skipSpace_append blank, List.cons_append, Json.skipSpace,
        List.dropWhile_cons_of_neg (by simp [solid])]
      exact @Layout.cons [] _ _ _ _ (by simp) spelled others

/-- A layout may have more white space in front. -/
theorem Layout.append_space
    {space rest : List Char}
    {lexemes : List Lexeme}
    (blank : ∀ char ∈ space, isSpace char = true)
    (layout : Layout rest lexemes) :
    Layout (space ++ rest) lexemes := by
  have both : ∀ {inner : List Char}, (∀ char ∈ inner, isSpace char = true) →
      ∀ char ∈ space ++ inner, isSpace char = true :=
    fun innerBlank char inBoth =>
      (List.mem_append.mp inBoth).elim (blank char) (innerBlank char)
  cases layout with
  | nil innerBlank => exact .nil (both innerBlank)
  | cons innerBlank spelled others =>
      rw [← List.append_assoc]
      exact .cons (both innerBlank) spelled others

/-- What is laid out behind white space is laid out with it. -/
theorem Layout.of_skipSpace
    {chars : List Char}
    {lexemes : List Lexeme}
    (layout : Layout (Json.skipSpace chars) lexemes) :
    Layout chars lexemes := by
  obtain ⟨space, blank, form⟩ := exists_blank chars
  rw [form]
  exact layout.append_space blank

/-- A word in front of a layout. -/
theorem Layout.word
    {word rest : List Char}
    {lexeme : Lexeme}
    {lexemes : List Lexeme}
    (spelled : lexeme.SpelledBy word)
    (others : Layout rest lexemes) :
    Layout (word ++ rest) (lexeme :: lexemes) :=
  @Layout.cons [] _ _ _ _ (by simp) spelled others

/-- The words that may follow a value. -/
def Closes (lexemes : List Lexeme) : Prop :=
  ∀ lexeme ∈ lexemes.head?,
    lexeme = .comma ∨ lexeme = .closeArray ∨ lexeme = .closeObject

/-- Neither white space nor a word that may follow a value goes on with a numeral. -/
theorem Layout.ends
    {chars : List Char}
    {lexemes : List Lexeme}
    (layout : Layout chars lexemes)
    (closes : Closes lexemes) :
    Ends chars := by
  have space : ∀ char, isSpace char = true →
      char.isDigit = false ∧ char ≠ '.' ∧ char ≠ 'e' ∧ char ≠ 'E' := by
    intro char isBlank
    simp only [isSpace, Bool.or_eq_true, beq_iff_eq] at isBlank
    rcases isBlank with ((rfl | rfl) | rfl) | rfl <;> decide
  cases layout with
  | nil blank => exact fun char isHead => space char (blank char (List.mem_of_mem_head? isHead))
  | @cons inner word rest lexeme lexemes blank spelled others =>
      cases inner with
      | cons first inner =>
          intro char isHead
          cases isHead
          exact space first (blank first List.mem_cons_self)
      | nil =>
          intro char isHead
          rcases closes lexeme rfl with rfl | rfl | rfl <;> cases spelled <;> cases isHead <;>
            decide

/-! ## What is laid out is read -/

/-- What reading gives of words in front of others: their value, with the others left
to be read, or a fault. -/
def Reads
    {Result : Type}
    (chars : List Char)
    (follow : List Lexeme)
    (result : Except Fault (Result × List Char)) : Option Result → Prop
  | some value => ∃ rest, result = .ok (value, rest) ∧ Layout rest follow ∧
      rest.length < chars.length
  | none => ∃ fault, result = .error fault

/-- A digit opens a number. -/
theorem readValue_digit
    {care : Care}
    {wanted : String → Bool}
    {fuel : Nat}
    {chars rest : List Char}
    {char : Char}
    (skip : skipSpace chars = char :: rest)
    (digit : char.isDigit = true) :
    readValue care wanted (fuel + 1) chars = readNumber care false (char :: rest) := by
  rw [readValue, skip]
  split
  case h_8 =>
    rename_i starts
    cases starts
    rw [if_pos digit]
  all_goals
    rename_i starts
    cases starts <;> cases digit

/-- A numeral is read as its number. -/
theorem readValue_number
    {care : Care}
    (exact : care.exact = true)
    {wanted : String → Bool}
    {fuel : Nat}
    {chars rest : List Char}
    {numeral : Numeral}
    (skip : skipSpace chars = numeral.chars ++ rest)
    (ends : Ends rest) :
    readValue care wanted (fuel + 1) chars =
      (inRange numeral.json?).map fun number => (number, rest) := by
  rw [← readNumber_unsignedChars exact numeral ends]
  cases sign : numeral.negative with
  | true =>
      rw [Numeral.chars, if_pos sign, List.cons_append] at skip
      rw [readValue, skip]
      rfl
  | false =>
      rw [Numeral.chars, sign, if_neg Bool.false_ne_true] at skip
      obtain ⟨char, others, form, digit⟩ := numeral.exists_unsignedChars_eq
      rw [form, List.cons_append] at skip ⊢
      exact readValue_digit skip digit

/-- Every value begins with a word that closes nothing. -/
theorem Written.exists_lexemes_eq (written : Written) :
    ∃ lexeme rest, written.lexemes = lexeme :: rest ∧
      lexeme ≠ .closeArray ∧ lexeme ≠ .closeObject := by
  rcases written with _ | _ | _ | _ | (_ | ⟨_, _⟩) | (_ | ⟨⟨_, _⟩, _⟩) <;>
    exact ⟨_, _, rfl, by simp, by simp⟩

/-- Of the words that may stand first none begins like a closing bracket. -/
theorem Lexeme.SpelledBy.head_ne
    {lexeme : Lexeme}
    {word : List Char}
    (spelled : lexeme.SpelledBy word)
    (notArray : lexeme ≠ .closeArray)
    (notObject : lexeme ≠ .closeObject) :
    ∀ char ∈ word.head?, char ≠ ']' ∧ char ≠ '\x7d' := by
  intro char isHead
  cases lexeme with
  | closeArray => exact absurd rfl notArray
  | closeObject => exact absurd rfl notObject
  | bool value =>
      cases value <;> cases spelled <;> cases isHead <;> decide
  | number numeral =>
      obtain ⟨first, rest, form, isFirst⟩ := numeral.exists_chars_eq
      rw [Eq.trans spelled form] at isHead
      cases isHead
      rcases isFirst with rfl | digit
      · decide
      · constructor <;> rintro rfl <;> cases digit
  | text value =>
      obtain ⟨inner, pieces, rfl, _⟩ := spelled
      cases isHead
      decide
  | _ =>
      cases spelled
      cases isHead
      decide

/-- A layout that begins with a value has no closing bracket in front. -/
theorem Layout.skipSpace_ne
    {chars : List Char}
    {written : Written}
    {lexemes : List Lexeme}
    (layout : Layout chars (written.lexemes ++ lexemes)) :
    ∀ char ∈ (Json.skipSpace chars).head?, char ≠ ']' ∧ char ≠ '\x7d' := by
  obtain ⟨lexeme, others, form, notArray, notObject⟩ := written.exists_lexemes_eq
  rw [form, List.cons_append] at layout
  obtain ⟨word, rest, spelled, _, skip, _⟩ := layout.exists_word
  obtain ⟨first, letters, rfl, _⟩ := spelled.exists_cons
  rw [skip]
  exact spelled.head_ne notArray notObject

/-- A reading goes on where its first part ends. -/
theorem Reads.bind
    {Result Whole : Type}
    {chars : List Char}
    {follow last : List Lexeme}
    {result : Except Fault (Result × List Char)}
    {expected : Option Result}
    {next : Result × List Char → Except Fault (Whole × List Char)}
    {whole : Result → Option Whole}
    (reads : Reads chars follow result expected)
    (goesOn : ∀ value rest, Layout rest follow → rest.length < chars.length →
      Reads chars last (next (value, rest)) (whole value)) :
    Reads chars last (result >>= next) (expected.bind whole) := by
  cases expected with
  | none =>
      obtain ⟨fault, rfl⟩ := reads
      exact ⟨fault, rfl⟩
  | some value =>
      obtain ⟨rest, rfl, layout, shorter⟩ := reads
      exact goesOn value rest layout shorter

/-- What is read of a part of the text is read of the text. -/
theorem Reads.mono
    {Result : Type}
    {chars more : List Char}
    {follow : List Lexeme}
    {result : Except Fault (Result × List Char)}
    {expected : Option Result}
    (reads : Reads chars follow result expected)
    (part : chars.length ≤ more.length) :
    Reads more follow result expected := by
  cases expected with
  | none => exact reads
  | some value =>
      obtain ⟨rest, read, layout, shorter⟩ := reads
      exact ⟨rest, read, layout, by omega⟩

/-- What is made of a result is read where the result is. -/
theorem Reads.map
    {Result Whole : Type}
    {chars more : List Char}
    {follow : List Lexeme}
    {result : Except Fault (Result × List Char)}
    {expected : Option Result}
    (reads : Reads chars follow result expected)
    (whole : Result → Whole)
    (part : chars.length ≤ more.length) :
    Reads more follow (result >>= fun read => pure (whole read.1, read.2))
      (expected.map whole) := by
  rw [Option.map_eq_bind]
  exact (reads.mono part).bind fun value rest layout shorter => ⟨rest, rfl, layout, shorter⟩

/-- Behind an opening bracket that is not closed at once, items are read. -/
theorem readValue_items
    {room fuel : Nat}
    {chars rest : List Char}
    (skip : skipSpace chars = '[' :: rest)
    (notClosed : ∀ char ∈ (skipSpace rest).head?, char ≠ ']' ∧ char ≠ '\x7d') :
    readValue ⟨some (room + 1), true⟩ (fun _ => true) (fuel + 1) chars =
      readItems ⟨some room, true⟩ fuel (skipSpace rest) >>= fun read =>
        pure (.arr read.1, read.2) := by
  rw [readValue, skip]
  simp only [Care.enter, ok_bind]
  split
  · rename_i starts
    exact absurd rfl (notClosed ']' (by rw [starts]; rfl)).1
  · rfl

/-- Behind an opening brace that is not closed at once, fields are read. -/
theorem readValue_fields
    {room fuel : Nat}
    {chars rest : List Char}
    (skip : skipSpace chars = '\x7b' :: rest)
    (notClosed : ∀ char ∈ (skipSpace rest).head?, char ≠ ']' ∧ char ≠ '\x7d') :
    readValue ⟨some (room + 1), true⟩ (fun _ => true) (fuel + 1) chars =
      readFields ⟨some room, true⟩ (fun _ => true) fuel (skipSpace rest) >>= fun read =>
        pure (.obj read.1, read.2) := by
  rw [readValue, skip]
  simp only [Care.enter, ok_bind]
  split
  · rename_i starts
    exact absurd rfl (notClosed '\x7d' (by rw [starts]; rfl)).2
  · rfl

theorem length_skipSpace_le (chars : List Char) : (skipSpace chars).length ≤ chars.length :=
  (List.dropWhile_sublist isSpace).length_le

/-- Brackets that are closed at once are read as an array without items. -/
theorem reads_noItems
    {room fuel : Nat}
    {chars : List Char}
    {follow : List Lexeme}
    (layout : Layout chars ((Written.arr []).lexemes ++ follow)) :
    Reads chars follow (readValue ⟨some room, true⟩ (fun _ => true) (fuel + 1) chars)
      ((Written.arr []).json? room) := by
  obtain ⟨word, rest, rfl, others, skip, _, shorter⟩ := layout.exists_word
  obtain ⟨word, behind, rfl, others, skipRest, _, shorterRest⟩ := others.exists_word
  rw [readValue, skip]
  cases room with
  | zero => exact ⟨.tooDeep, rfl⟩
  | succ room =>
      simp only [List.cons_append, List.nil_append, Care.enter, ok_bind, skipRest]
      exact ⟨behind, rfl, others, by omega⟩

/-- Braces that are closed at once are read as an object without fields. -/
theorem reads_noFields
    {room fuel : Nat}
    {chars : List Char}
    {follow : List Lexeme}
    (layout : Layout chars ((Written.obj []).lexemes ++ follow)) :
    Reads chars follow (readValue ⟨some room, true⟩ (fun _ => true) (fuel + 1) chars)
      ((Written.obj []).json? room) := by
  obtain ⟨word, rest, rfl, others, skip, _, shorter⟩ := layout.exists_word
  obtain ⟨word, behind, rfl, others, skipRest, _, shorterRest⟩ := others.exists_word
  rw [readValue, skip]
  cases room with
  | zero => exact ⟨.tooDeep, rfl⟩
  | succ room =>
      simp only [List.cons_append, List.nil_append, Care.enter, ok_bind, skipRest]
      exact ⟨behind, rfl, others, by omega⟩

/-- An array is read when its items are read behind its bracket. -/
theorem reads_arr
    {room fuel : Nat}
    {first : Written}
    {items : List Written}
    {chars : List Char}
    {follow : List Lexeme}
    (layout : Layout chars ((Written.arr (first :: items)).lexemes ++ follow))
    (itemsRead : ∀ (less : Nat) (rest : List Char), rest.length < chars.length →
      Layout rest ((Written.lexemesOfItems (first :: items)).tail ++ follow) →
      Reads rest follow (readItems ⟨some less, true⟩ fuel rest)
        (Written.jsonOfItems? less (first :: items))) :
    Reads chars follow (readValue ⟨some room, true⟩ (fun _ => true) (fuel + 1) chars)
      ((Written.arr (first :: items)).json? room) := by
  obtain ⟨word, rest, rfl, others, skip, _, shorter⟩ := layout.exists_word
  cases room with
  | zero =>
      rw [readValue, skip]
      exact ⟨.tooDeep, rfl⟩
  | succ room =>
      have inner : Layout rest ((Written.lexemesOfItems (first :: items)).tail ++ follow) :=
        others
      have firstInner : Layout rest
          (first.lexemes ++ (Written.lexemesOfItems items ++ follow)) := by
        rwa [← List.append_assoc]
      have shorterRest := length_skipSpace_le rest
      rw [readValue_items skip firstInner.skipSpace_ne, Written.json?]
      exact (itemsRead room _ (by omega) inner.skipSpace).map Json.arr (by omega)

/-- An object is read when its fields are read behind its brace. -/
theorem reads_obj
    {room fuel : Nat}
    {key : String}
    {first : Written}
    {fields : List (String × Written)}
    {chars : List Char}
    {follow : List Lexeme}
    (layout : Layout chars ((Written.obj ((key, first) :: fields)).lexemes ++ follow))
    (fieldsRead : ∀ (less : Nat) (rest : List Char), rest.length < chars.length →
      Layout rest ((Written.lexemesOfFields ((key, first) :: fields)).tail ++ follow) →
      Reads rest follow (readFields ⟨some less, true⟩ (fun _ => true) fuel rest)
        (Written.jsonOfFields? less ((key, first) :: fields))) :
    Reads chars follow (readValue ⟨some room, true⟩ (fun _ => true) (fuel + 1) chars)
      ((Written.obj ((key, first) :: fields)).json? room) := by
  obtain ⟨word, rest, rfl, others, skip, _, shorter⟩ := layout.exists_word
  cases room with
  | zero =>
      rw [readValue, skip]
      exact ⟨.tooDeep, rfl⟩
  | succ room =>
      have inner : Layout rest
          ((Written.lexemesOfFields ((key, first) :: fields)).tail ++ follow) := others
      have keyInner : Layout rest ((Written.str key).lexemes ++
          (.colon :: (first.lexemes ++ Written.lexemesOfFields fields) ++ follow)) := others
      have shorterRest := length_skipSpace_le rest
      rw [readValue_fields skip keyInner.skipSpace_ne, Written.json?]
      exact (fieldsRead room _ (by omega) inner.skipSpace).map Json.obj (by omega)

mutual

/-- The text of a value is read as the value. -/
theorem reads_value
    (written : Written)
    (room fuel : Nat)
    {chars : List Char}
    {follow : List Lexeme}
    (layout : Layout chars (written.lexemes ++ follow))
    (closes : Closes follow)
    (enough : 2 * chars.length < fuel) :
    Reads chars follow (readValue ⟨some room, true⟩ (fun _ => true) fuel chars)
      (written.json? room) := by
  obtain ⟨fuel, rfl⟩ : ∃ less, fuel = less + 1 := ⟨fuel - 1, by omega⟩
  match written, layout with
  | .null, layout =>
      obtain ⟨word, rest, rfl, others, skip, _, shorter⟩ := layout.exists_word
      rw [readValue, skip]
      exact ⟨rest, rfl, others, shorter⟩
  | .bool value, layout =>
      obtain ⟨word, rest, spelled, others, skip, _, shorter⟩ := layout.exists_word
      cases value <;> cases spelled <;> rw [readValue, skip] <;>
        exact ⟨rest, rfl, others, shorter⟩
  | .number numeral, layout =>
      obtain ⟨word, rest, rfl, others, skip, _, shorter⟩ := layout.exists_word
      rw [readValue_number rfl skip (others.ends closes), Written.json?]
      cases numeral.json? with
      | none => exact ⟨_, rfl⟩
      | some number => exact ⟨rest, rfl, others, shorter⟩
  | .str value, layout =>
      obtain ⟨word, rest, spelled, others, skip, _, shorter⟩ := layout.exists_word
      have exact : (⟨some room, true⟩ : Care).exact = true := rfl
      obtain ⟨inner, rfl, read⟩ := spelled.exists_read exact
      rw [readValue, skip]
      simp only [List.cons_append, read]
      exact ⟨rest, rfl, others, shorter⟩
  | .arr [], layout => exact reads_noItems layout
  | .arr (first :: items), layout =>
      exact reads_arr layout fun less rest shorter inner =>
        reads_items (first :: items) (by simp) less fuel inner (by omega)
  | .obj [], layout => exact reads_noFields layout
  | .obj ((key, value) :: fields), layout =>
      exact reads_obj layout fun less rest shorter inner =>
        reads_fields ((key, value) :: fields) (by simp) less fuel inner (by omega)

/-- The text of items is read as the items. -/
theorem reads_items
    (items : List Written)
    (nonempty : items ≠ [])
    (room fuel : Nat)
    {chars : List Char}
    {follow : List Lexeme}
    (layout : Layout chars ((Written.lexemesOfItems items).tail ++ follow))
    (enough : 2 * chars.length + 1 < fuel) :
    Reads chars follow (readItems ⟨some room, true⟩ fuel chars)
      (Written.jsonOfItems? room items) := by
  obtain ⟨fuel, rfl⟩ : ∃ less, fuel = less + 1 := ⟨fuel - 1, by omega⟩
  match items, layout with
  | [], _ => exact absurd rfl nonempty
  | first :: rest, layout =>
      have firstLayout : Layout chars
          (first.lexemes ++ (Written.lexemesOfItems rest ++ follow)) := by
        rwa [← List.append_assoc]
      have closes : Closes (Written.lexemesOfItems rest ++ follow) := by
        rcases rest with _ | _ <;> simp [Closes, Written.lexemesOfItems]
      rw [readItems, Written.jsonOfItems?]
      refine (reads_value first room fuel firstLayout closes (by omega)).bind
        fun value behind others shorter => ?_
      match rest, others with
      | [], others =>
          obtain ⟨word, behind, rfl, others, skip, _, shorterRest⟩ := others.exists_word
          simp only [skip]
          exact ⟨behind, rfl, others, by omega⟩
      | second :: rest, others =>
          obtain ⟨word, behind, rfl, others, skip, _, shorterRest⟩ := others.exists_word
          simp only [skip, List.cons_append, List.nil_append]
          exact (reads_items (second :: rest) (by simp) room fuel others
            (by omega)).map (value :: ·) (by omega)

/-- The text of fields is read as the fields. -/
theorem reads_fields
    (fields : List (String × Written))
    (nonempty : fields ≠ [])
    (room fuel : Nat)
    {chars : List Char}
    {follow : List Lexeme}
    (layout : Layout chars ((Written.lexemesOfFields fields).tail ++ follow))
    (enough : 2 * chars.length + 1 < fuel) :
    Reads chars follow (readFields ⟨some room, true⟩ (fun _ => true) fuel chars)
      (Written.jsonOfFields? room fields) := by
  obtain ⟨fuel, rfl⟩ : ∃ less, fuel = less + 1 := ⟨fuel - 1, by omega⟩
  match fields, layout with
  | [], _ => exact absurd rfl nonempty
  | (key, first) :: rest, layout =>
      have exact : (⟨some room, true⟩ : Care).exact = true := rfl
      obtain ⟨word, behindKey, spelled, others, skip, _, shorterKey⟩ := layout.exists_word
      obtain ⟨inner, rfl, keyRead⟩ := spelled.exists_read exact
      obtain ⟨word, behindColon, rfl, others, skipColon, _, shorterColon⟩ :=
        others.exists_word
      have firstLayout : Layout behindColon
          (first.lexemes ++ (Written.lexemesOfFields rest ++ follow)) := by
        rwa [← List.append_assoc]
      have closes : Closes (Written.lexemesOfFields rest ++ follow) := by
        rcases rest with _ | ⟨⟨_, _⟩, _⟩ <;> simp [Closes, Written.lexemesOfFields]
      rw [readFields, Written.jsonOfFields?, skip]
      simp only [List.cons_append, List.nil_append, keyRead, ok_bind, skipColon, expect,
        if_true]
      refine ((reads_value first room fuel firstLayout closes (by omega)).mono
        (by omega)).bind fun value behind others shorter => ?_
      match rest, others with
      | [], others =>
          obtain ⟨word, behind, rfl, others, skip, _, shorterRest⟩ := others.exists_word
          simp only [skip]
          exact ⟨behind, rfl, others, by omega⟩
      | (secondKey, second) :: rest, others =>
          obtain ⟨word, behind, rfl, others, skip, _, shorterRest⟩ := others.exists_word
          simp only [skip, List.cons_append, List.nil_append]
          exact (reads_fields ((secondKey, second) :: rest) (by simp) room fuel others
            (by omega)).map ((key, value) :: ·) (by omega)

end

/-! ## What is read is laid out -/

/-- A word that is next stands in front of the layout of what is behind it. -/
theorem Layout.of_word
    {chars word rest : List Char}
    {lexeme : Lexeme}
    {lexemes : List Lexeme}
    (skip : Json.skipSpace chars = word ++ rest)
    (spelled : lexeme.SpelledBy word)
    (others : Layout rest lexemes) :
    Layout chars (lexeme :: lexemes) := by
  have layout := Layout.word spelled others
  rw [← skip] at layout
  exact layout.of_skipSpace

theorem eq_append_of_expect
    {wanted chars rest : List Char}
    (read : expect wanted chars = .ok rest) :
    chars = wanted ++ rest := by
  induction wanted generalizing chars with
  | nil => exact Except.ok.inj read
  | cons char wanted inductionHypothesis =>
      cases chars with
      | nil => cases read
      | cons first chars =>
          rw [expect] at read
          split at read
          · rename_i same
            rw [same, inductionHypothesis read, List.cons_append]
          · cases read

/-- What refuses reads nothing. -/
theorem refuse_ne_ok
    {Result : Type}
    {chars : List Char}
    {result : Result} :
    refuse chars ≠ .ok result := by
  cases chars <;> exact fun read => by cases read

/-- A value that is read, with the rest, is written in front of the rest. -/
def IsWritten
    (room : Nat)
    (chars : List Char)
    (json : Json)
    (rest : List Char) : Prop :=
  ∃ written : Written, written.json? room = some json ∧
    ∀ follow, Layout rest follow → Layout chars (written.lexemes ++ follow)

/-- Items that are read, with the rest, are written in front of the rest. -/
def AreWrittenItems
    (room : Nat)
    (chars : List Char)
    (values : List Json)
    (rest : List Char) : Prop :=
  ∃ items : List Written, items ≠ [] ∧ Written.jsonOfItems? room items = some values ∧
    ∀ follow, Layout rest follow →
      Layout chars ((Written.lexemesOfItems items).tail ++ follow)

/-- Fields that are read, with the rest, are written in front of the rest. -/
def AreWrittenFields
    (room : Nat)
    (chars : List Char)
    (values : List (String × Json))
    (rest : List Char) : Prop :=
  ∃ fields : List (String × Written), fields ≠ [] ∧
    Written.jsonOfFields? room fields = some values ∧
    ∀ follow, Layout rest follow →
      Layout chars ((Written.lexemesOfFields fields).tail ++ follow)

/-- Behind an opening bracket an array is written. -/
theorem isWritten_of_openArray
    {room fuel : Nat}
    (itemsWritten : ∀ room chars values rest,
      readItems ⟨some room, true⟩ fuel chars = .ok (values, rest) →
      AreWrittenItems room chars values rest)
    {chars behind rest : List Char}
    {json : Json}
    (skip : skipSpace chars = '[' :: behind)
    (read : readValue ⟨some room, true⟩ (fun _ => true) (fuel + 1) chars =
      .ok (json, rest)) :
    IsWritten room chars json rest := by
  rw [readValue, skip] at read
  obtain ⟨inner, entered, read⟩ := bind_eq_ok_iff.mp read
  cases room with
  | zero => cases entered
  | succ room =>
      cases entered
      split at read
      · rename_i closed skipInner
        cases read
        exact ⟨.arr [], rfl, fun follow others =>
          .of_word skip rfl (.of_word skipInner rfl others)⟩
      · obtain ⟨⟨values, _⟩, itemsRead, read⟩ := bind_eq_ok_iff.mp read
        cases read
        obtain ⟨items, nonempty, given, layout⟩ := itemsWritten _ _ _ _ itemsRead
        obtain ⟨first, items, rfl⟩ := List.exists_cons_of_ne_nil nonempty
        exact ⟨.arr (first :: items), by rw [Written.json?, given]; rfl,
          fun follow others => .of_word skip rfl (layout follow others).of_skipSpace⟩

/-- Behind an opening brace an object is written. -/
theorem isWritten_of_openObject
    {room fuel : Nat}
    (fieldsWritten : ∀ room chars values rest,
      readFields ⟨some room, true⟩ (fun _ => true) fuel chars = .ok (values, rest) →
      AreWrittenFields room chars values rest)
    {chars behind rest : List Char}
    {json : Json}
    (skip : skipSpace chars = '\x7b' :: behind)
    (read : readValue ⟨some room, true⟩ (fun _ => true) (fuel + 1) chars =
      .ok (json, rest)) :
    IsWritten room chars json rest := by
  rw [readValue, skip] at read
  obtain ⟨inner, entered, read⟩ := bind_eq_ok_iff.mp read
  cases room with
  | zero => cases entered
  | succ room =>
      cases entered
      split at read
      · rename_i closed skipInner
        cases read
        exact ⟨.obj [], rfl, fun follow others =>
          .of_word skip rfl (.of_word skipInner rfl others)⟩
      · obtain ⟨⟨values, _⟩, fieldsRead, read⟩ := bind_eq_ok_iff.mp read
        cases read
        obtain ⟨fields, nonempty, given, layout⟩ := fieldsWritten _ _ _ _ fieldsRead
        obtain ⟨⟨key, value⟩, fields, rfl⟩ := List.exists_cons_of_ne_nil nonempty
        exact ⟨.obj ((key, value) :: fields), by rw [Written.json?, given]; rfl,
          fun follow others => .of_word skip rfl (layout follow others).of_skipSpace⟩

theorem isWritten_of_readValue
    {room fuel : Nat}
    (itemsWritten : ∀ room chars values rest,
      readItems ⟨some room, true⟩ fuel chars = .ok (values, rest) →
      AreWrittenItems room chars values rest)
    (fieldsWritten : ∀ room chars values rest,
      readFields ⟨some room, true⟩ (fun _ => true) fuel chars = .ok (values, rest) →
      AreWrittenFields room chars values rest)
    {chars rest : List Char}
    {json : Json}
    (read : readValue ⟨some room, true⟩ (fun _ => true) (fuel + 1) chars =
      .ok (json, rest)) :
    IsWritten room chars json rest := by
  have whole := read
  rw [readValue] at read
  split at read
  case h_1 behind skip =>
    obtain ⟨_, expected, read⟩ := bind_eq_ok_iff.mp read
    cases read
    rw [eq_append_of_expect expected] at skip
    exact ⟨.null, rfl, fun follow others => .of_word skip rfl others⟩
  case h_2 behind skip =>
    obtain ⟨_, expected, read⟩ := bind_eq_ok_iff.mp read
    cases read
    rw [eq_append_of_expect expected] at skip
    exact ⟨.bool true, rfl, fun follow others => .of_word skip rfl others⟩
  case h_3 behind skip =>
    obtain ⟨_, expected, read⟩ := bind_eq_ok_iff.mp read
    cases read
    rw [eq_append_of_expect expected] at skip
    exact ⟨.bool false, rfl, fun follow others => .of_word skip rfl others⟩
  case h_4 behind skip =>
    obtain ⟨⟨text, _⟩, stringRead, read⟩ := bind_eq_ok_iff.mp read
    cases read
    obtain ⟨inner, rfl, spells⟩ := exists_spelling_of_readString rfl stringRead
    exact ⟨.str text, rfl, fun follow others => .of_word skip spells others⟩
  case h_5 behind skip => exact isWritten_of_openArray itemsWritten skip whole
  case h_6 behind skip => exact isWritten_of_openObject fieldsWritten skip whole
  case h_7 behind skip =>
    obtain ⟨numeral, sign, rfl, value⟩ := exists_numeral_of_readNumber rfl read
    have spelled : '-' :: (numeral.unsignedChars ++ rest) = numeral.chars ++ rest := by
      rw [Numeral.chars, if_pos sign, List.cons_append]
    rw [spelled] at skip
    exact ⟨.number numeral, value, fun follow others => .of_word skip rfl others⟩
  case h_8 char behind _ _ _ _ _ _ _ skip =>
    split at read
    · obtain ⟨numeral, sign, form, value⟩ := exists_numeral_of_readNumber rfl read
      have spelled : numeral.unsignedChars = numeral.chars := by
        rw [Numeral.chars, sign, if_neg Bool.false_ne_true]
      rw [form, spelled] at skip
      exact ⟨.number numeral, value, fun follow others => .of_word skip rfl others⟩
    · cases read
  case h_9 => cases read

theorem areWrittenItems_of_readItems
    {room fuel : Nat}
    (valueWritten : ∀ room chars json rest,
      readValue ⟨some room, true⟩ (fun _ => true) fuel chars = .ok (json, rest) →
      IsWritten room chars json rest)
    (itemsWritten : ∀ room chars values rest,
      readItems ⟨some room, true⟩ fuel chars = .ok (values, rest) →
      AreWrittenItems room chars values rest)
    {chars rest : List Char}
    {values : List Json}
    (read : readItems ⟨some room, true⟩ (fuel + 1) chars = .ok (values, rest)) :
    AreWrittenItems room chars values rest := by
  rw [readItems] at read
  obtain ⟨⟨value, behind⟩, firstRead, read⟩ := bind_eq_ok_iff.mp read
  obtain ⟨first, given, layout⟩ := valueWritten _ _ _ _ firstRead
  simp only at read
  split at read
  · rename_i others skip
    obtain ⟨⟨values, _⟩, othersRead, read⟩ := bind_eq_ok_iff.mp read
    cases read
    obtain ⟨items, nonempty, givenItems, layoutItems⟩ := itemsWritten _ _ _ _ othersRead
    refine ⟨first :: items, by simp, ?_, fun follow behindItems => ?_⟩
    · rw [Written.jsonOfItems?, given, givenItems]
      rfl
    · obtain ⟨second, items, rfl⟩ := List.exists_cons_of_ne_nil nonempty
      have tail := layout _
        (@Layout.of_word _ [','] _ .comma _ skip rfl (layoutItems follow behindItems))
      simpa [Written.lexemesOfItems] using tail
  · rename_i others skip
    cases read
    refine ⟨[first], by simp, ?_, fun follow behindItems => ?_⟩
    · rw [Written.jsonOfItems?, given]
      rfl
    · have tail := layout _
        (@Layout.of_word _ [']'] _ .closeArray _ skip rfl behindItems)
      simpa [Written.lexemesOfItems] using tail
  · exact absurd read refuse_ne_ok

theorem areWrittenFields_of_readFields
    {room fuel : Nat}
    (valueWritten : ∀ room chars json rest,
      readValue ⟨some room, true⟩ (fun _ => true) fuel chars = .ok (json, rest) →
      IsWritten room chars json rest)
    (fieldsWritten : ∀ room chars values rest,
      readFields ⟨some room, true⟩ (fun _ => true) fuel chars = .ok (values, rest) →
      AreWrittenFields room chars values rest)
    {chars rest : List Char}
    {values : List (String × Json)}
    (read : readFields ⟨some room, true⟩ (fun _ => true) (fuel + 1) chars =
      .ok (values, rest)) :
    AreWrittenFields room chars values rest := by
  rw [readFields] at read
  split at read
  · rename_i letters skipKey
    obtain ⟨⟨key, behindKey⟩, keyRead, afterKey⟩ := bind_eq_ok_iff.mp read
    obtain ⟨behindColon, expected, afterColon⟩ := bind_eq_ok_iff.mp afterKey
    obtain ⟨inner, rfl, spells⟩ := exists_spelling_of_readString rfl keyRead
    have skipColon := eq_append_of_expect expected
    simp only [if_true] at afterColon
    obtain ⟨⟨value, behind⟩, firstRead, read⟩ := bind_eq_ok_iff.mp afterColon
    obtain ⟨first, given, layout⟩ := valueWritten _ _ _ _ firstRead
    have led : ∀ lexemes, Layout behind lexemes →
        Layout chars (.text key :: .colon :: (first.lexemes ++ lexemes)) :=
      fun lexemes others =>
        .of_word skipKey spells (.of_word skipColon rfl (layout lexemes others))
    simp only at read
    split at read
    · rename_i others skip
      obtain ⟨⟨values, _⟩, othersRead, read⟩ := bind_eq_ok_iff.mp read
      cases read
      obtain ⟨fields, nonempty, givenFields, layoutFields⟩ :=
        fieldsWritten _ _ _ _ othersRead
      refine ⟨(key, first) :: fields, by simp, ?_, fun follow behindFields => ?_⟩
      · rw [Written.jsonOfFields?, given, givenFields]
        rfl
      · obtain ⟨⟨secondKey, second⟩, fields, rfl⟩ := List.exists_cons_of_ne_nil nonempty
        have tail := led _
          (@Layout.of_word _ [','] _ .comma _ skip rfl (layoutFields follow behindFields))
        simpa [Written.lexemesOfFields] using tail
    · rename_i others skip
      cases read
      refine ⟨[(key, first)], by simp, ?_, fun follow behindFields => ?_⟩
      · rw [Written.jsonOfFields?, given]
        rfl
      · have tail := led _
          (@Layout.of_word _ ['\x7d'] _ .closeObject _ skip rfl behindFields)
        simpa [Written.lexemesOfFields] using tail
    · exact absurd read refuse_ne_ok
  · exact absurd read refuse_ne_ok

/-- What is read with any fuel is written. -/
theorem written_of_read
    (fuel : Nat) :
    (∀ room chars json rest,
      readValue ⟨some room, true⟩ (fun _ => true) fuel chars = .ok (json, rest) →
      IsWritten room chars json rest) ∧
    (∀ room chars values rest,
      readItems ⟨some room, true⟩ fuel chars = .ok (values, rest) →
      AreWrittenItems room chars values rest) ∧
    ∀ room chars values rest,
      readFields ⟨some room, true⟩ (fun _ => true) fuel chars = .ok (values, rest) →
      AreWrittenFields room chars values rest := by
  induction fuel with
  | zero =>
      refine ⟨?_, ?_, ?_⟩ <;> intro room chars values rest read <;> cases read
  | succ fuel inductionHypothesis =>
      obtain ⟨values, items, fields⟩ := inductionHypothesis
      exact ⟨fun _ _ _ _ => isWritten_of_readValue items fields,
        fun _ _ _ _ => areWrittenItems_of_readItems values items,
        fun _ _ _ _ => areWrittenFields_of_readFields values fields⟩

/-! ## Texts -/

theorem skipSpace_eq_nil_iff {chars : List Char} :
    skipSpace chars = [] ↔ Layout chars [] := by
  constructor
  · intro nothing
    have layout : Layout (skipSpace chars) [] := by
      rw [nothing]
      exact .nil (by simp)
    exact layout.of_skipSpace
  · rintro (blank | _)
    have := skipSpace_append blank []
    rwa [List.append_nil] at this

/-- A text of a value is read as the value, if the value can be read. -/
theorem Written.LaidOut.readWritten_eq_ok_iff
    {written : Written}
    {text : String}
    (laidOut : written.LaidOut text)
    {json : Json} :
    readWritten text = .ok json ↔ written.json? 127 = some json := by
  have layout : Layout text.toList (written.lexemes ++ []) := by
    rwa [List.append_nil]
  have reads := reads_value written 127 (2 * text.toList.length + 2) layout (by simp [Closes])
    (by omega)
  rw [readWritten, readWith, Care.strict]
  cases given : written.json? 127 with
  | none =>
      rw [given] at reads
      obtain ⟨fault, failed⟩ := reads
      simp [failed, bind, Except.bind]
  | some value =>
      rw [given] at reads
      obtain ⟨rest, read, others, _⟩ := reads
      simp [read, ok_bind, skipSpace_eq_nil_iff.mpr others, pure, Except.pure]

/-- A text that is read is the text of a value. -/
theorem exists_laidOut_of_readWritten
    {text : String}
    {json : Json}
    (read : readWritten text = .ok json) :
    ∃ written : Written, written.LaidOut text ∧ written.json? 127 = some json := by
  rw [readWritten, readWith, Care.strict] at read
  obtain ⟨⟨value, rest⟩, valueRead, read⟩ := bind_eq_ok_iff.mp read
  obtain ⟨written, given, layout⟩ := (written_of_read _).1 _ _ _ _ valueRead
  cases nothing : skipSpace rest with
  | nil =>
      simp only [nothing] at read
      cases read
      have whole := layout [] (skipSpace_eq_nil_iff.mp nothing)
      rw [List.append_nil] at whole
      exact ⟨written, whole, given⟩
  | cons char others =>
      simp only [nothing] at read
      exact absurd read refuse_ne_ok

/-! ## The text of a value -/

/-- The shortest spelling of a word. -/
def Lexeme.chars : Lexeme → List Char
  | .openArray => ['[']
  | .closeArray => [']']
  | .openObject => ['\x7b']
  | .closeObject => ['\x7d']
  | .comma => [',']
  | .colon => [':']
  | .null => ['n', 'u', 'l', 'l']
  | .bool true => ['t', 'r', 'u', 'e']
  | .bool false => ['f', 'a', 'l', 's', 'e']
  | .number numeral => numeral.chars
  | .text value => stringChars value

theorem Lexeme.spelledBy_chars (lexeme : Lexeme) : lexeme.SpelledBy lexeme.chars := by
  cases lexeme with
  | bool value => cases value <;> rfl
  | text value => exact spellsString_stringChars value
  | _ => rfl

/-- The text of a value without white space. -/
def Written.text (written : Written) : String :=
  String.ofList (written.lexemes.flatMap Lexeme.chars)

/-- Every value has a text. -/
theorem Written.laidOut_text (written : Written) : written.LaidOut written.text := by
  have laidOut : ∀ lexemes, Layout (lexemes.flatMap Lexeme.chars) lexemes := by
    intro lexemes
    induction lexemes with
    | nil => exact .nil (by simp)
    | cons lexeme lexemes inductionHypothesis =>
        rw [List.flatMap_cons]
        exact .word lexeme.spelledBy_chars inductionHypothesis
  rw [LaidOut, text, String.toList_ofList]
  exact laidOut written.lexemes

end Json
end DomainSql
