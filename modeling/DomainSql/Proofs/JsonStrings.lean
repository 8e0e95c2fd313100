import DomainSql.Json.Reader
import DomainSql.Json.Writer
import DomainSql.Proofs.Outcome

/-!
# String literals

Between its quotes a string is spelled piece by piece: by a character that stands for
itself, by a backslash and a letter, or by the four hexadecimal digits of a unit. The
reader reads every spelling up to its closing quote and no further, and it reads
nothing but spellings. What the writer writes is a spelling, so every string has one.
-/

namespace DomainSql
namespace Json

/-- Characters that spell pieces. -/
inductive SpellsPieces : List Char → List Piece → Prop
  | nil : SpellsPieces [] []
  | plain
      {char : Char}
      {chars : List Char}
      {pieces : List Piece}
      (notQuote : char ≠ '"')
      (notBackslash : char ≠ '\\')
      (notControl : ¬ char.toNat < 0x20)
      (rest : SpellsPieces chars pieces) :
      SpellsPieces (char :: chars) (.char char :: pieces)
  | escape
      {letter char : Char}
      {chars : List Char}
      {pieces : List Piece}
      (known : unescape? letter = some char)
      (rest : SpellsPieces chars pieces) :
      SpellsPieces ('\\' :: letter :: chars) (.char char :: pieces)
  | unit
      {first second third fourth : Char}
      {code : Nat}
      {chars : List Char}
      {pieces : List Piece}
      (known : hexUnit? first second third fourth = some code)
      (rest : SpellsPieces chars pieces) :
      SpellsPieces ('\\' :: 'u' :: first :: second :: third :: fourth :: chars)
        (.unit code :: pieces)

/-- Characters that spell a string, with the quotes around it. -/
def SpellsString
    (chars : List Char)
    (text : String) : Prop :=
  ∃ inner spelled, chars = '"' :: (inner ++ ['"']) ∧ SpellsPieces inner spelled ∧
    spell true spelled = .ok text.toList

/-- A spelling is read up to its closing quote. -/
theorem SpellsPieces.pieces_append
    {chars : List Char}
    {spelled : List Piece}
    (spells : SpellsPieces chars spelled)
    (rest : List Char) :
    pieces (chars ++ '"' :: rest) = .ok (spelled, rest) := by
  induction spells with
  | nil => rfl
  | @plain char chars spelled notQuote notBackslash notControl _ inductionHypothesis =>
      rw [List.cons_append, pieces]
      · rw [if_neg notControl, inductionHypothesis]
        rfl
      all_goals simp [notQuote, notBackslash]
  | @escape letter char chars spelled known _ inductionHypothesis =>
      have notUnit : letter ≠ 'u' := by
        rintro rfl
        cases known
      rw [List.cons_append, List.cons_append, pieces]
      · rw [known]
        simp only [inductionHypothesis]
        rfl
      · rintro first second third fourth others rfl
        exact absurd rfl notUnit
  | unit known _ inductionHypothesis =>
      simp only [List.cons_append, pieces, known, inductionHypothesis]
      rfl

/-- What is read as pieces is a spelling in front of the closing quote. -/
theorem exists_spelling_of_pieces
    {chars rest : List Char}
    {spelled : List Piece}
    (read : pieces chars = .ok (spelled, rest)) :
    ∃ inner, chars = inner ++ '"' :: rest ∧ SpellsPieces inner spelled := by
  fun_induction pieces chars generalizing spelled with
  | case1 => cases read
  | case2 chars =>
      cases read
      exact ⟨[], rfl, .nil⟩
  | case3 => cases read
  | case4 first second third fourth chars code known inductionHypothesis =>
      obtain ⟨⟨others, remaining⟩, othersRead, read⟩ := bind_eq_ok_iff.mp read
      cases read
      obtain ⟨inner, rfl, spells⟩ := inductionHypothesis othersRead
      exact ⟨_, rfl, .unit known spells⟩
  | case5 => cases read
  | case6 letter chars _ char known inductionHypothesis =>
      obtain ⟨⟨others, remaining⟩, othersRead, read⟩ := bind_eq_ok_iff.mp read
      cases read
      obtain ⟨inner, rfl, spells⟩ := inductionHypothesis othersRead
      exact ⟨_, rfl, .escape known spells⟩
  | case7 => cases read
  | case8 => cases read
  | case9 char chars notQuote _ noLetter notLast notControl inductionHypothesis =>
      obtain ⟨⟨others, remaining⟩, othersRead, read⟩ := bind_eq_ok_iff.mp read
      cases read
      obtain ⟨inner, rfl, spells⟩ := inductionHypothesis othersRead
      have notBackslash : char ≠ '\\' := fun isBackslash => by
        obtain ⟨letter, others, form⟩ : ∃ letter others,
            inner ++ '"' :: rest = letter :: others :=
          List.exists_cons_of_ne_nil (by simp)
        exact noLetter letter others isBackslash form
      exact ⟨_, rfl, .plain notQuote notBackslash notControl spells⟩

/-- A string is read up to its closing quote. -/
theorem SpellsString.exists_read
    {care : Care}
    (exact : care.exact = true)
    {chars : List Char}
    {text : String}
    (spells : SpellsString chars text) :
    ∃ inner, chars = '"' :: inner ∧
      ∀ rest, readString care (inner ++ rest) = .ok (text, rest) := by
  obtain ⟨inner, spelled, rfl, spellsInner, spellsText⟩ := spells
  refine ⟨inner ++ ['"'], rfl, fun rest => ?_⟩
  rw [List.append_assoc, List.singleton_append, readString, spellsInner.pieces_append,
    ok_bind]
  simp only [exact, spellsText, ok_bind]
  rw [String.ofList_toList]
  rfl

/-- What is read as a string is the spelling of it in front of the rest. -/
theorem exists_spelling_of_readString
    {care : Care}
    (exact : care.exact = true)
    {chars rest : List Char}
    {text : String}
    (read : readString care chars = .ok (text, rest)) :
    ∃ inner, chars = inner ++ rest ∧ SpellsString ('"' :: inner) text := by
  rw [readString] at read
  obtain ⟨⟨spelled, remaining⟩, piecesRead, spellRead⟩ := bind_eq_ok_iff.mp read
  obtain ⟨letters, lettersRead, read⟩ := bind_eq_ok_iff.mp spellRead
  cases read
  obtain ⟨inner, rfl, spells⟩ := exists_spelling_of_pieces piecesRead
  rw [exact] at lettersRead
  exact ⟨inner ++ ['"'], by simp, inner, spelled, rfl, spells, by simpa using lettersRead⟩

/-! ## The spelling of the writer -/

/-- A unit that is no half of a pair spells its own character. -/
theorem spell_unit
    {code : Nat}
    (small : code < 0x20)
    (rest : List Piece) :
    spell true (.unit code :: rest) = (spell true rest).map (Char.ofNat code :: ·) := by
  have notHigh : isHighSurrogate code = false := by simp [isHighSurrogate]; omega
  have notLow : isLowSurrogate code = false := by simp [isLowSurrogate]; omega
  rcases rest with _ | ⟨_ | next, rest⟩ <;> simp [spell, notHigh, notLow, Except.map]

/-- Two hexadecimal digits behind two zeros spell a control character. -/
theorem hexUnit?_control : ∀ code < 0x20,
    hexUnit? '0' '0' (hexChar (code / 16)) (hexChar (code % 16)) = some code := by
  decide

/-- What the writer writes for one character is a piece that spells it. -/
theorem exists_spelling_of_escapeChar (char : Char) :
    ∃ piece, (∀ chars pieces, SpellsPieces chars pieces →
        SpellsPieces (escapeChar char ++ chars) (piece :: pieces)) ∧
      ∀ pieces, spell true (piece :: pieces) = (spell true pieces).map (char :: ·) := by
  have escaped : ∀ letter, escapeChar char = ['\\', letter] →
      unescape? letter = some char → ∃ piece, (∀ chars pieces, SpellsPieces chars pieces →
        SpellsPieces (escapeChar char ++ chars) (piece :: pieces)) ∧
      ∀ pieces, spell true (piece :: pieces) = (spell true pieces).map (char :: ·) :=
    fun letter form known => ⟨.char char,
      fun chars pieces rest => form ▸ .escape known rest, fun pieces => rfl⟩
  by_cases isQuote : char = '"'
  · exact escaped '"' (by rw [isQuote]; rfl) (by rw [isQuote]; rfl)
  by_cases isBackslash : char = '\\'
  · exact escaped '\\' (by rw [isBackslash]; rfl) (by rw [isBackslash]; rfl)
  by_cases isBackspace : char = '\x08'
  · exact escaped 'b' (by rw [isBackspace]; rfl) (by rw [isBackspace]; rfl)
  by_cases isFormFeed : char = '\x0c'
  · exact escaped 'f' (by rw [isFormFeed]; rfl) (by rw [isFormFeed]; rfl)
  by_cases isLineFeed : char = '\n'
  · exact escaped 'n' (by rw [isLineFeed]; rfl) (by rw [isLineFeed]; rfl)
  by_cases isReturn : char = '\r'
  · exact escaped 'r' (by rw [isReturn]; rfl) (by rw [isReturn]; rfl)
  by_cases isTab : char = '\t'
  · exact escaped 't' (by rw [isTab]; rfl) (by rw [isTab]; rfl)
  have form : escapeChar char = if char.toNat < 0x20 then
      ['\\', 'u', '0', '0', hexChar (char.toNat / 16), hexChar (char.toNat % 16)]
    else [char] := by
    simp only [escapeChar, isQuote, isBackslash, isBackspace, isFormFeed, isLineFeed,
      isReturn, isTab, if_false]
  rw [form]
  by_cases isControl : char.toNat < 0x20
  · rw [if_pos isControl]
    refine ⟨.unit char.toNat, fun chars pieces rest =>
      .unit (hexUnit?_control _ isControl) rest, fun pieces => ?_⟩
    rw [spell_unit isControl, Char.ofNat_toNat]
  · rw [if_neg isControl]
    exact ⟨.char char, fun chars pieces rest =>
      .plain isQuote isBackslash isControl rest, fun pieces => rfl⟩

/-- What the writer writes for a string spells it. -/
theorem spellsString_stringChars (text : String) : SpellsString (stringChars text) text := by
  have spelled : ∀ chars : List Char, ∃ pieces,
      SpellsPieces (chars.flatMap escapeChar) pieces ∧ spell true pieces = .ok chars := by
    intro chars
    induction chars with
    | nil => exact ⟨[], .nil, rfl⟩
    | cons char chars inductionHypothesis =>
        obtain ⟨pieces, spells, spelling⟩ := inductionHypothesis
        obtain ⟨piece, led, leads⟩ := exists_spelling_of_escapeChar char
        exact ⟨piece :: pieces, led _ _ spells, by rw [leads, spelling]; rfl⟩
  obtain ⟨pieces, spells, spelling⟩ := spelled text.toList
  exact ⟨_, pieces, rfl, spells, spelling⟩

end Json
end DomainSql
