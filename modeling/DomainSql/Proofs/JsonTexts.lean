import DomainSql.Proofs.JsonGrammar

/-!
# Texts of the writer

What the writer writes for a value, compact or indented, is a text of the value by the
grammar. So the reader gives the value back, provided that no number in it is spoiled by
being written, and that no more arrays and objects are open at once than the reader has
room for. With one more of them the text is refused.
-/

namespace DomainSql
namespace Json

mutual

/-- How many arrays and objects are open at once in a value, at most. -/
def depth : Json → Nat
  | .arr items => depthOfItems items + 1
  | .obj fields => depthOfFields fields + 1
  | _ => 0

/-- The greatest depth of items. -/
def depthOfItems : List Json → Nat
  | [] => 0
  | item :: rest => max (depth item) (depthOfItems rest)

/-- The greatest depth of the values of fields. -/
def depthOfFields : List (String × Json) → Nat
  | [] => 0
  | (_, value) :: rest => max (depth value) (depthOfFields rest)

end

/-- The text of a number is a numeral that is read as the number. -/
def IsKeptAs
    (number : Json)
    (chars : List Char) : Prop :=
  ∃ numeral : Numeral, numeral.chars = chars ∧ numeral.json? = some number

mutual

/-- The text of every number in a value is read as the number. -/
def KeepsNumbers : Json → Prop
  | .int value => (Json.int value).IsKeptAs (intChars value)
  | .float value => (Json.float value).IsKeptAs (floatChars value)
  | .arr items => ItemsKeepNumbers items
  | .obj fields => FieldsKeepNumbers fields
  | _ => True

/-- The numbers in items are kept. -/
def ItemsKeepNumbers : List Json → Prop
  | [] => True
  | item :: rest => KeepsNumbers item ∧ ItemsKeepNumbers rest

/-- The numbers in the values of fields are kept. -/
def FieldsKeepNumbers : List (String × Json) → Prop
  | [] => True
  | (_, value) :: rest => KeepsNumbers value ∧ FieldsKeepNumbers rest

end

/-- Both texts of a value, in front of any others, are texts of what is written, and this
is read as the value if there is room for it. -/
structure IsWrittenAs
    (json : Json)
    (written : Written) : Prop where
  compact {rest : List Char} {follow : List Lexeme} :
    Layout rest follow → Layout (compactChars json ++ rest) (written.lexemes ++ follow)
  indented (level : Nat) {rest : List Char} {follow : List Lexeme} :
    Layout rest follow → Layout (indentedChars level json ++ rest) (written.lexemes ++ follow)
  value (room : Nat) : written.json? room = if json.depth ≤ room then some json else none

/-- Both texts of items behind the first one, with the closing bracket, are texts of what
is written. -/
structure ItemsAreWrittenAs
    (items : List Json)
    (written : List Written) : Prop where
  compact {rest : List Char} {follow : List Lexeme} :
    Layout rest follow →
      Layout (compactItems items ++ ']' :: rest) (Written.lexemesOfItems written ++ follow)
  indented (level outer : Nat) {rest : List Char} {follow : List Lexeme} :
    Layout rest follow →
      Layout (indentedItems level items ++ (newLine outer ++ ']' :: rest))
        (Written.lexemesOfItems written ++ follow)
  values (room : Nat) :
    Written.jsonOfItems? room written =
      if depthOfItems items ≤ room then some items else none

/-- Both texts of fields behind the first one, with the closing brace, are texts of what
is written. -/
structure FieldsAreWrittenAs
    (fields : List (String × Json))
    (written : List (String × Written)) : Prop where
  compact {rest : List Char} {follow : List Lexeme} :
    Layout rest follow →
      Layout (compactFields fields ++ '\x7d' :: rest)
        (Written.lexemesOfFields written ++ follow)
  indented (level outer : Nat) {rest : List Char} {follow : List Lexeme} :
    Layout rest follow →
      Layout (indentedFields level fields ++ (newLine outer ++ '\x7d' :: rest))
        (Written.lexemesOfFields written ++ follow)
  values (room : Nat) :
    Written.jsonOfFields? room written =
      if depthOfFields fields ≤ room then some fields else none

theorem isSpace_of_mem_newLine (level : Nat) : ∀ char ∈ newLine level, isSpace char = true := by
  simp [newLine, List.mem_replicate, isSpace]

/-- A value of one word. -/
theorem IsWrittenAs.of_word
    {json : Json}
    {written : Written}
    {lexeme : Lexeme}
    (single : written.lexemes = [lexeme])
    (compactSpelled : lexeme.SpelledBy (compactChars json))
    (indentedSpelled : ∀ level, lexeme.SpelledBy (indentedChars level json))
    (value : ∀ room, written.json? room = some json)
    (flat : json.depth = 0) :
    json.IsWrittenAs written where
  compact layout := by rw [single]; exact .word compactSpelled layout
  indented level _ _ layout := by rw [single]; exact .word (indentedSpelled level) layout
  value room := by rw [value, flat, if_pos (Nat.zero_le room)]

theorem IsWrittenAs.of_number
    {number : Json}
    {numeral : Numeral}
    (compactSpelled : numeral.chars = compactChars number)
    (indentedSpelled : ∀ level, numeral.chars = indentedChars level number)
    (read : numeral.json? = some number)
    (flat : number.depth = 0) :
    number.IsWrittenAs (.number numeral) :=
  @of_word number (.number numeral) (.number numeral) rfl compactSpelled.symm
    (fun level => (indentedSpelled level).symm) (fun _ => read) flat

theorem ItemsAreWrittenAs.nil : ItemsAreWrittenAs [] [] where
  compact layout := @Layout.word [']'] _ .closeArray _ rfl layout
  indented _ outer _ _ layout := by
    rw [indentedItems, List.nil_append]
    exact (@Layout.word [']'] _ .closeArray _ rfl layout).append_space
      (isSpace_of_mem_newLine outer)
  values _ := by simp [Written.jsonOfItems?, depthOfItems]

theorem ItemsAreWrittenAs.cons
    {item : Json}
    {items : List Json}
    {first : Written}
    {others : List Written}
    (firstWritten : item.IsWrittenAs first)
    (othersWritten : ItemsAreWrittenAs items others) :
    ItemsAreWrittenAs (item :: items) (first :: others) where
  compact layout := by
    have whole := @Layout.word [','] _ .comma _ rfl
      (firstWritten.compact (othersWritten.compact layout))
    simpa [compactItems, Written.lexemesOfItems] using whole
  indented level outer _ _ layout := by
    have led := (firstWritten.indented level
      (othersWritten.indented level outer layout)).append_space (isSpace_of_mem_newLine level)
    have whole := @Layout.word [','] _ .comma _ rfl led
    simpa [indentedItems, Written.lexemesOfItems] using whole
  values room := by
    rw [Written.jsonOfItems?, firstWritten.value, othersWritten.values, depthOfItems]
    by_cases firstFits : item.depth ≤ room <;>
      by_cases othersFit : depthOfItems items ≤ room <;> simp [firstFits, othersFit]

theorem FieldsAreWrittenAs.nil : FieldsAreWrittenAs [] [] where
  compact layout := @Layout.word ['\x7d'] _ .closeObject _ rfl layout
  indented _ outer _ _ layout := by
    rw [indentedFields, List.nil_append]
    exact (@Layout.word ['\x7d'] _ .closeObject _ rfl layout).append_space
      (isSpace_of_mem_newLine outer)
  values _ := by simp [Written.jsonOfFields?, depthOfFields]

/-- The key of a field, its colon and what follows them. -/
theorem Layout.key
    {rest : List Char}
    {lexemes : List Lexeme}
    (key : String)
    (others : Layout rest lexemes) :
    Layout (stringChars key ++ ':' :: rest) (.text key :: .colon :: lexemes) :=
  @Layout.word _ _ (.text key) _ (spellsString_stringChars key)
    (@Layout.word [':'] _ .colon _ rfl others)

theorem FieldsAreWrittenAs.cons
    {key : String}
    {value : Json}
    {fields : List (String × Json)}
    {first : Written}
    {others : List (String × Written)}
    (firstWritten : value.IsWrittenAs first)
    (othersWritten : FieldsAreWrittenAs fields others) :
    FieldsAreWrittenAs ((key, value) :: fields) ((key, first) :: others) where
  compact layout := by
    have whole := @Layout.word [','] _ .comma _ rfl
      (.key key (firstWritten.compact (othersWritten.compact layout)))
    simpa [compactFields, Written.lexemesOfFields] using whole
  indented level outer _ _ layout := by
    have spaced := @Layout.append_space [' '] _ _ (by simp [isSpace])
      (firstWritten.indented level (othersWritten.indented level outer layout))
    have led := (Layout.key key spaced).append_space (isSpace_of_mem_newLine level)
    have whole := @Layout.word [','] _ .comma _ rfl led
    simpa [indentedFields, Written.lexemesOfFields] using whole
  values room := by
    rw [Written.jsonOfFields?, firstWritten.value, othersWritten.values, depthOfFields]
    by_cases firstFits : value.depth ≤ room <;>
      by_cases othersFit : depthOfFields fields ≤ room <;> simp [firstFits, othersFit]

/-- An array without items. -/
theorem IsWrittenAs.arr_nil : (Json.arr []).IsWrittenAs (.arr []) where
  compact layout := by
    have whole := @Layout.word ['['] _ .openArray _ rfl
      (@Layout.word [']'] _ .closeArray _ rfl layout)
    simpa [compactChars, Written.lexemes] using whole
  indented level _ _ layout := by
    have whole := @Layout.word ['['] _ .openArray _ rfl
      (@Layout.word [']'] _ .closeArray _ rfl layout)
    simpa [indentedChars, Written.lexemes] using whole
  value room := by
    cases room <;> simp [Written.json?, Written.jsonOfItems?, depth, depthOfItems]

theorem IsWrittenAs.arr_cons
    {item : Json}
    {items : List Json}
    {first : Written}
    {others : List Written}
    (firstWritten : item.IsWrittenAs first)
    (othersWritten : ItemsAreWrittenAs items others) :
    (Json.arr (item :: items)).IsWrittenAs (.arr (first :: others)) where
  compact layout := by
    have whole := @Layout.word ['['] _ .openArray _ rfl
      (firstWritten.compact (othersWritten.compact layout))
    simpa [compactChars, Written.lexemes] using whole
  indented level _ _ layout := by
    have led := (firstWritten.indented (level + 1)
      (othersWritten.indented (level + 1) level layout)).append_space
        (isSpace_of_mem_newLine (level + 1))
    have whole := @Layout.word ['['] _ .openArray _ rfl led
    simpa [indentedChars, Written.lexemes] using whole
  value room := by
    have all := (ItemsAreWrittenAs.cons firstWritten othersWritten).values
    cases room with
    | zero => simp [Written.json?, depth]
    | succ room =>
        rw [Written.json?, all, depth]
        by_cases fits : depthOfItems (item :: items) ≤ room <;> simp [fits]

/-- An object without fields. -/
theorem IsWrittenAs.obj_nil : (Json.obj []).IsWrittenAs (.obj []) where
  compact layout := by
    have whole := @Layout.word ['\x7b'] _ .openObject _ rfl
      (@Layout.word ['\x7d'] _ .closeObject _ rfl layout)
    simpa [compactChars, Written.lexemes] using whole
  indented level _ _ layout := by
    have whole := @Layout.word ['\x7b'] _ .openObject _ rfl
      (@Layout.word ['\x7d'] _ .closeObject _ rfl layout)
    simpa [indentedChars, Written.lexemes] using whole
  value room := by
    cases room <;> simp [Written.json?, Written.jsonOfFields?, depth, depthOfFields]

theorem IsWrittenAs.obj_cons
    {key : String}
    {value : Json}
    {fields : List (String × Json)}
    {first : Written}
    {others : List (String × Written)}
    (firstWritten : value.IsWrittenAs first)
    (othersWritten : FieldsAreWrittenAs fields others) :
    (Json.obj ((key, value) :: fields)).IsWrittenAs (.obj ((key, first) :: others)) where
  compact layout := by
    have whole := @Layout.word ['\x7b'] _ .openObject _ rfl
      (.key key (firstWritten.compact (othersWritten.compact layout)))
    simpa [compactChars, Written.lexemes] using whole
  indented level _ _ layout := by
    have spaced := @Layout.append_space [' '] _ _ (by simp [isSpace])
      (firstWritten.indented (level + 1)
        (othersWritten.indented (level + 1) level layout))
    have led := (Layout.key key spaced).append_space (isSpace_of_mem_newLine (level + 1))
    have whole := @Layout.word ['\x7b'] _ .openObject _ rfl led
    simpa [indentedChars, Written.lexemes] using whole
  value room := by
    have all := (@FieldsAreWrittenAs.cons key _ _ _ _ firstWritten othersWritten).values
    cases room with
    | zero => simp [Written.json?, depth]
    | succ room =>
        rw [Written.json?, all, depth]
        by_cases fits : depthOfFields ((key, value) :: fields) ≤ room <;> simp [fits]

mutual

/-- The texts of a value are texts by the grammar. -/
theorem KeepsNumbers.exists_isWrittenAs :
    {json : Json} → json.KeepsNumbers → ∃ written, json.IsWrittenAs written
  | .null, _ => ⟨.null, .of_word rfl rfl (fun _ => rfl) (fun _ => rfl) rfl⟩
  | .bool true, _ => ⟨.bool true, .of_word rfl rfl (fun _ => rfl) (fun _ => rfl) rfl⟩
  | .bool false, _ => ⟨.bool false, .of_word rfl rfl (fun _ => rfl) (fun _ => rfl) rfl⟩
  | .int _, ⟨numeral, spelled, read⟩ =>
      ⟨.number numeral, .of_number spelled (fun _ => spelled) read rfl⟩
  | .float _, ⟨numeral, spelled, read⟩ =>
      ⟨.number numeral, .of_number spelled (fun _ => spelled) read rfl⟩
  | .str text, _ =>
      ⟨.str text, @IsWrittenAs.of_word _ (.str text) (.text text) rfl
        (spellsString_stringChars text) (fun _ => spellsString_stringChars text)
        (fun _ => rfl) rfl⟩
  | .arr [], _ => ⟨.arr [], .arr_nil⟩
  | .arr (_ :: _), keeps =>
      have ⟨_, firstWritten⟩ := keeps.1.exists_isWrittenAs
      have ⟨_, othersWritten⟩ := ItemsKeepNumbers.exists_areWrittenAs keeps.2
      ⟨_, .arr_cons firstWritten othersWritten⟩
  | .obj [], _ => ⟨.obj [], .obj_nil⟩
  | .obj (_ :: _), keeps =>
      have ⟨_, firstWritten⟩ := keeps.1.exists_isWrittenAs
      have ⟨_, othersWritten⟩ := FieldsKeepNumbers.exists_areWrittenAs keeps.2
      ⟨_, .obj_cons firstWritten othersWritten⟩

theorem ItemsKeepNumbers.exists_areWrittenAs :
    {items : List Json} → ItemsKeepNumbers items → ∃ written, ItemsAreWrittenAs items written
  | [], _ => ⟨[], .nil⟩
  | _ :: _, keeps =>
      have ⟨_, firstWritten⟩ := keeps.1.exists_isWrittenAs
      have ⟨_, othersWritten⟩ := ItemsKeepNumbers.exists_areWrittenAs keeps.2
      ⟨_, .cons firstWritten othersWritten⟩

theorem FieldsKeepNumbers.exists_areWrittenAs :
    {fields : List (String × Json)} → FieldsKeepNumbers fields →
      ∃ written, FieldsAreWrittenAs fields written
  | [], _ => ⟨[], .nil⟩
  | _ :: _, keeps =>
      have ⟨_, firstWritten⟩ := keeps.1.exists_isWrittenAs
      have ⟨_, othersWritten⟩ := FieldsKeepNumbers.exists_areWrittenAs keeps.2
      ⟨_, .cons firstWritten othersWritten⟩

end

/-- The text of an integer in the reader's range is read as the integer. -/
theorem isKeptAs_intChars
    {value : Int}
    (lower : -(Nat.pow 2 63 : Int) ≤ value)
    (upper : value < Nat.pow 2 64) :
    (Json.int value).IsKeptAs (intChars value) := by
  let numeral : Numeral := ⟨value < 0, value.natAbs, none, none⟩
  have integer : numeral.integer = value := by
    simp only [Numeral.integer, numeral, decide_eq_true_eq]
    split <;> omega
  have notNegatedZero : ¬ numeral.IsNegatedZero := by
    rintro ⟨negative, zero⟩
    have below : value < 0 := of_decide_eq_true negative
    have : value.natAbs = 0 := zero
    omega
  have kept : numeral.IsKept :=
    ⟨⟨rfl, rfl⟩, notNegatedZero, integer.symm ▸ lower, integer.symm ▸ upper⟩
  refine ⟨numeral, ?_, ?_⟩
  · simp [Numeral.chars, Numeral.unsignedChars, Numeral.tailChars, numeral, intChars]
  · rw [Numeral.json?, if_pos kept, integer]

/-- A text of the writer is read as the value that was written, and as nothing else, as
long as there is room for its arrays and objects. -/
theorem KeepsNumbers.readWritten_eq_ok_iff
    {json : Json}
    (keeps : json.KeepsNumbers)
    {text : String}
    (output : text = json.compact ∨ text = json.indented)
    {other : Json} :
    readWritten text = .ok other ↔ json.depth ≤ 127 ∧ other = json := by
  obtain ⟨written, isWritten⟩ := keeps.exists_isWrittenAs
  have nothing : Layout [] [] := .nil (by simp)
  have laidOut : written.LaidOut text := by
    rcases output with rfl | rfl
    · simpa [Written.LaidOut, compact] using isWritten.compact nothing
    · simpa [Written.LaidOut, indented] using isWritten.indented 0 nothing
  rw [laidOut.readWritten_eq_ok_iff, isWritten.value]
  by_cases fits : json.depth ≤ 127 <;> simp [fits, eq_comm]

/-- What is decoded from a text of the writer is what the written value stands for. -/
theorem KeepsNumbers.decoded_eq_ok_iff
    {Value Failure : Type}
    {decode : Json → Except Failure Value}
    {json : Json}
    {value : Value}
    (keeps : json.KeepsNumbers)
    (decoded : decode json.canonical = .ok value)
    {text : String}
    (output : text = json.compact ∨ text = json.indented)
    {other : Value} :
    (∃ read, readWritten text = .ok read ∧ decode read.canonical = .ok other) ↔
      json.depth ≤ 127 ∧ other = value := by
  constructor
  · rintro ⟨read, isRead, same⟩
    obtain ⟨fits, rfl⟩ := (keeps.readWritten_eq_ok_iff output).mp isRead
    exact ⟨fits, Except.ok.inj (same.symm.trans decoded)⟩
  · rintro ⟨fits, rfl⟩
    exact ⟨json, (keeps.readWritten_eq_ok_iff output).mpr ⟨fits, rfl⟩, decoded⟩

end Json
end DomainSql
