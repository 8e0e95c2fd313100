import DomainSql.Proofs.LiteralNumbers

/-!
# Integer literals

A numeral of an integer that stands as a literal becomes exactly that integer, becomes
the nearest floating-point number, or lets the domain be refused. Which of these it is
depends on the numeral alone: exact are the integers that fit into sixty-four bits with
sign, refused are those that fit without sign only, and rounded are those that fit
neither way, and the negated zero.
-/

namespace DomainSql
namespace Json

/-! ## Numerals as literals -/

/-- What a numeral that stands as a literal becomes. -/
inductive Numeral.Becomes : Numeral → Literal → Prop
  | exact
      {numeral : Numeral}
      {value : Int64}
      (isInteger : numeral.IsInteger)
      (noNegatedZero : ¬ numeral.IsNegatedZero)
      (same : value.toInt = numeral.integer) :
      Becomes numeral (.int value)
  | rounded
      {numeral : Numeral}
      {value : Binary64}
      (isInteger : numeral.IsInteger)
      (outside : numeral.IsNegatedZero ∨ numeral.integer < -(Nat.pow 2 63 : Int) ∨
        (Nat.pow 2 64 : Int) ≤ numeral.integer)
      (nearest : numeral.nearest? = some value) :
      Becomes numeral (.float value)
  | decimal
      {numeral : Numeral}
      {value : Binary64}
      (notInteger : ¬ numeral.IsInteger)
      (nearest : numeral.nearest? = some value) :
      Becomes numeral (.float value)

/-- A numeral of an integer that fits into sixty-four bits without sign only. -/
def Numeral.IsUnfit (numeral : Numeral) : Prop :=
  numeral.IsInteger ∧ (Nat.pow 2 63 : Int) ≤ numeral.integer ∧
    numeral.integer < (Nat.pow 2 64 : Int)

theorem fits_iff {value : Int} :
    Literal.fits value ↔ -(Nat.pow 2 63 : Int) ≤ value ∧ value < (Nat.pow 2 63 : Int) := by
  have least : Int64.minValue.toInt = -(Nat.pow 2 63 : Int) := by decide
  have greatest : Int64.maxValue.toInt = (Nat.pow 2 63 : Int) - 1 := by decide
  rw [Literal.fits, least, greatest]
  omega

/-- The number of a numeral becomes what the numeral becomes. -/
theorem Numeral.becomes_of_ofJson
    {numeral : Numeral}
    {number : Json}
    {literal : Literal}
    (given : numeral.json? = some number)
    (decoded : Literal.ofJson number = .ok literal) :
    numeral.Becomes literal := by
  unfold json? at given
  split at given
  · rename_i kept
    cases given
    rw [Literal.ofJson] at decoded
    split at decoded
    · rename_i fits
      cases decoded
      obtain ⟨least, greatest⟩ := fits_iff.mp fits
      exact .exact kept.1 kept.2.1 (Int64.toInt_ofInt_of_le least greatest)
    · cases decoded
  · rename_i notKept
    obtain ⟨value, nearest, rfl⟩ := Option.map_eq_some_iff.mp given
    cases decoded
    by_cases isInteger : numeral.IsInteger
    · refine .rounded isInteger ?_ nearest
      by_contra inside
      exact notKept ⟨isInteger, by tauto, by omega, by omega⟩
    · exact .decimal isInteger nearest

/-- A number is refused as a literal exactly when its numeral is unfit. -/
theorem Numeral.exists_ofJson_iff
    {numeral : Numeral}
    {number : Json}
    (given : numeral.json? = some number) :
    (∃ literal, Literal.ofJson number = .ok literal) ↔ ¬ numeral.IsUnfit := by
  unfold json? at given
  split at given
  · rename_i kept
    cases given
    have fits : Literal.fits numeral.integer ↔ ¬ numeral.IsUnfit := by
      obtain ⟨isInteger, _, least, below⟩ := kept
      rw [fits_iff, IsUnfit]
      simp only [isInteger, true_and]
      omega
    rw [← fits, Literal.ofJson]
    split <;> simp_all
  · rename_i notKept
    obtain ⟨value, nearest, rfl⟩ := Option.map_eq_some_iff.mp given
    refine iff_of_true ⟨.float value, rfl⟩ fun unfit => ?_
    obtain ⟨isInteger, large, below⟩ := unfit
    have noNegatedZero : ¬ numeral.IsNegatedZero := by
      rintro ⟨negative, zero⟩
      have positive : 0 < (Nat.pow 2 63 : Int) := by decide
      rw [integer, if_pos negative, zero] at large
      omega
    exact notKept ⟨isInteger, noNegatedZero, by omega, below⟩

end Json

/-! ## Which numbers are refused -/

/-- A number that is accepted as a literal. -/
def Json.IsFit (number : Json) : Prop :=
  Succeeds (Literal.ofJson number)

mutual

theorem Literal.succeeds_ofJson_iff : ∀ json : Json,
    Succeeds (Literal.ofJson json) ↔
      Succeeds (Literal.ofJson json.zeroed) ∧ ∀ number ∈ json.literalNumbers, number.IsFit
  | .null => by simp [Json.zeroed, Json.literalNumbers, Literal.ofJson]
  | .bool _ => by simp [Json.zeroed, Json.literalNumbers, Literal.ofJson]
  | .int value => by
      have zero : Succeeds (Literal.ofJson (.int 0)) := ⟨.int 0, rfl⟩
      simp [Json.zeroed, Json.literalNumbers, Json.IsFit, zero]
  | .float value => by
      have zero : Succeeds (Literal.ofJson (.int 0)) := ⟨.int 0, rfl⟩
      simp [Json.zeroed, Json.literalNumbers, Json.IsFit, zero]
  | .str _ => by simp [Json.zeroed, Json.literalNumbers, Literal.ofJson]
  | .arr items => by
      rw [Json.zeroed, Literal.ofJson, Literal.ofJson, succeeds_bind_pure_iff,
        succeeds_bind_pure_iff]
      exact Literal.succeeds_ofJsonItems_iff items
  | .obj _ => by simp [Json.zeroed, Literal.ofJson]

theorem Literal.succeeds_ofJsonItems_iff : ∀ items : List Json,
    Succeeds (Literal.ofJsonItems items) ↔
      Succeeds (Literal.ofJsonItems (Json.zeroedItems items)) ∧
        ∀ number ∈ Json.literalNumbersOf items, number.IsFit
  | [] => by simp [Json.zeroedItems, Json.literalNumbersOf, Literal.ofJsonItems]
  | item :: rest => by
      have both : ∀ (item : Json) (rest : List Json),
          Succeeds (Literal.ofJsonItems (item :: rest)) ↔
            Succeeds (Literal.ofJson item) ∧ Succeeds (Literal.ofJsonItems rest) := by
        intro item rest
        rw [Literal.ofJsonItems]
        cases Literal.ofJson item with
        | error failure => simp [bind, Except.bind]
        | ok literal => rw [ok_bind, succeeds_bind_pure_iff]; simp
      rw [Json.zeroedItems, both, both, Literal.succeeds_ofJson_iff item,
        Literal.succeeds_ofJsonItems_iff rest, Json.literalNumbersOf, List.forall_mem_append,
        and_and_and_comm]

end

theorem Argument.succeeds_ofJson_iff (json : Json) :
    Succeeds (Argument.ofJson json) ↔
      Succeeds (Argument.ofJson json.zeroed) ∧ ∀ number ∈ json.argumentNumbers, number.IsFit := by
  cases json with
  | obj fields =>
      rw [Json.zeroed, Argument.succeeds_ofJson_obj_iff, Argument.succeeds_ofJson_obj_iff]
      constructor
      · rintro ⟨value, rfl, succeeds⟩
        obtain ⟨zeros, fit⟩ := (Literal.succeeds_ofJson_iff value).mp succeeds
        exact ⟨⟨value.zeroed, rfl, zeros⟩, fit⟩
      · rintro ⟨⟨zero, zeros, succeeds⟩, fit⟩
        obtain ⟨value, rfl, rfl⟩ := Json.zeroedFields_eq_singleton_iff.mp zeros
        exact ⟨value, rfl, (Literal.succeeds_ofJson_iff value).mpr ⟨succeeds, fit⟩⟩
  | _ => simp [Argument.ofJson, Json.zeroed, Json.argumentNumbers]

/-- Values of which each succeeds when it does with zeros, and its numbers are fit. -/
theorem succeeds_mapM_zeroed_iff
    {Failure Result : Type}
    {decode : Json → Except Failure Result}
    {numbers : Json → List Json}
    (each : ∀ json, Succeeds (decode json) ↔
      Succeeds (decode json.zeroed) ∧ ∀ number ∈ numbers json, number.IsFit)
    (items : List Json) :
    Succeeds (items.mapM decode) ↔
      Succeeds ((items.map Json.zeroed).mapM decode) ∧
        ∀ number ∈ items.flatMap numbers, number.IsFit := by
  rw [succeeds_mapM_iff, succeeds_mapM_iff]
  simp only [List.mem_map, List.mem_flatMap]
  constructor
  · intro all
    refine ⟨?_, ?_⟩
    · rintro _ ⟨item, inItems, rfl⟩
      exact ((each item).mp (all item inItems)).1
    · rintro number ⟨item, inItems, inNumbers⟩
      exact ((each item).mp (all item inItems)).2 number inNumbers
  · rintro ⟨zeros, fit⟩ item inItems
    exact (each item).mpr ⟨zeros _ ⟨item, inItems, rfl⟩, fun number inNumbers =>
      fit number ⟨item, inItems, inNumbers⟩⟩

theorem FunctionCall.succeeds_ofFields_iff {fields : List (String × Json)} :
    Succeeds (FunctionCall.ofFields fields) ↔
      Succeeds (FunctionCall.ofFields (Json.zeroedFields fields)) ∧
        ∀ number ∈ (Json.obj fields).operandNumbers, number.IsFit := by
  have form : ∀ fields, Succeeds (FunctionCall.ofFields fields) ↔
      (∃ name, Json.fieldOf? "function" fields = some (.str name) ∧
        ∃ function, FunctionName.ofText? name = some function) ∧
      (Json.fieldOf? "args" fields = none ∨
        ∃ arguments, Json.fieldOf? "args" fields = some (.arr arguments) ∧
          Succeeds (arguments.mapM Argument.ofJson)) := by
    intro fields
    constructor
    · rintro ⟨call, decoded⟩
      obtain ⟨name, named, known, ⟨noArguments, _⟩ | ⟨arguments, found, decoded⟩⟩ :=
        FunctionCall.ofFields_eq_ok_iff.mp decoded
      · exact ⟨⟨name, named, _, known⟩, .inl noArguments⟩
      · exact ⟨⟨name, named, _, known⟩, .inr ⟨arguments, found, _, decoded⟩⟩
    · rintro ⟨⟨name, named, function, known⟩, noArguments | ⟨arguments, found, results, decoded⟩⟩
      · exact ⟨⟨function, []⟩, FunctionCall.ofFields_eq_ok_iff.mpr
          ⟨name, named, known, .inl ⟨noArguments, rfl⟩⟩⟩
      · exact ⟨⟨function, results⟩, FunctionCall.ofFields_eq_ok_iff.mpr
          ⟨name, named, known, .inr ⟨arguments, found, decoded⟩⟩⟩
  rw [form, form, Json.fieldOf?_zeroedFields, Json.fieldOf?_zeroedFields, and_assoc,
    Json.operandNumbers]
  refine and_congr ?_ ?_
  · cases Json.fieldOf? "function" fields with
    | none => simp
    | some value => simp [Json.zeroed_eq_str_iff]
  · cases Json.fieldOf? "args" fields with
    | none => simp
    | some value =>
        cases value with
        | arr arguments =>
            simp only [Option.map_some, reduceCtorEq, false_or, Option.some.injEq,
              Json.arr.injEq, exists_eq_left', Json.zeroed, Json.zeroedItems_eq_map]
            exact succeeds_mapM_zeroed_iff Argument.succeeds_ofJson_iff arguments
        | _ => simp [Json.zeroed]

theorem Operand.succeeds_ofJson_iff (json : Json) :
    Succeeds (Operand.ofJson json) ↔
      Succeeds (Operand.ofJson json.zeroed) ∧ ∀ number ∈ json.operandNumbers, number.IsFit := by
  cases json with
  | obj fields =>
      have form : ∀ fields, Succeeds (Operand.ofJson (.obj fields)) ↔
          (∃ path, fields = [("field", .str path)]) ∨
          Json.fieldOf? "field" fields = none ∧ Succeeds (FunctionCall.ofFields fields) := by
        intro fields
        constructor
        · rintro ⟨operand, decoded⟩
          rcases Operand.ofJson_obj_eq_ok_iff.mp decoded with
            ⟨path, single, _⟩ | ⟨noField, call, callDecoded, _⟩
          · exact .inl ⟨path, single⟩
          · exact .inr ⟨noField, call, callDecoded⟩
        · rintro (⟨path, single⟩ | ⟨noField, call, callDecoded⟩)
          · exact ⟨.field path, Operand.ofJson_obj_eq_ok_iff.mpr (.inl ⟨path, single, rfl⟩)⟩
          · exact ⟨.call call,
              Operand.ofJson_obj_eq_ok_iff.mpr (.inr ⟨noField, call, callDecoded, rfl⟩)⟩
      rw [Json.zeroed, form, form, Json.fieldOf?_zeroedFields, Option.map_eq_none_iff]
      constructor
      · rintro (⟨path, rfl⟩ | ⟨noField, succeeds⟩)
        · exact ⟨.inl ⟨path, rfl⟩, by simp [Json.operandNumbers]⟩
        · obtain ⟨zeros, fit⟩ := FunctionCall.succeeds_ofFields_iff.mp succeeds
          exact ⟨.inr ⟨noField, zeros⟩, fit⟩
      · rintro ⟨⟨path, zeros⟩ | ⟨noField, zeros⟩, fit⟩
        · obtain ⟨value, rfl, isText⟩ := Json.zeroedFields_eq_singleton_iff.mp zeros
          exact .inl ⟨path, by rw [Json.zeroed_eq_str_iff.mp isText.symm]⟩
        · exact .inr ⟨noField, FunctionCall.succeeds_ofFields_iff.mpr ⟨zeros, fit⟩⟩
  | _ =>
      change Succeeds (Literal.ofJson _ >>= fun value => pure (Operand.literal value)) ↔
        Succeeds (Literal.ofJson _ >>= fun value => pure (Operand.literal value)) ∧ _
      rw [succeeds_bind_pure_iff, succeeds_bind_pure_iff]
      exact Literal.succeeds_ofJson_iff _

theorem Item.succeeds_ofJson_iff (json : Json) :
    Succeeds (Item.ofJson json) ↔
      Succeeds (Item.ofJson json.zeroed) ∧ ∀ number ∈ json.itemNumbers, number.IsFit := by
  cases json with
  | arr elements =>
      have form : ∀ elements, Succeeds (Item.ofJson (.arr elements)) ↔
          ∃ field operator operand, elements = [.str field, .str operator, operand] ∧
            Succeeds (Operand.ofJson operand) := by
        intro elements
        rw [Item.ofJson, succeeds_bind_pure_iff]
        constructor
        · rintro ⟨condition, decoded⟩
          obtain ⟨operand, three, operandDecoded⟩ :=
            Condition.ofElements_eq_ok_iff.mp decoded
          exact ⟨_, _, operand, three, _, operandDecoded⟩
        · rintro ⟨field, operator, operand, three, result, operandDecoded⟩
          exact ⟨⟨field, operator, result⟩,
            Condition.ofElements_eq_ok_iff.mpr ⟨operand, three, operandDecoded⟩⟩
      rw [Json.zeroed, form, form]
      constructor
      · rintro ⟨field, operator, operand, rfl, succeeds⟩
        obtain ⟨zeros, fit⟩ := (Operand.succeeds_ofJson_iff operand).mp succeeds
        exact ⟨⟨field, operator, operand.zeroed, rfl, zeros⟩, fit⟩
      · rintro ⟨⟨field, operator, zero, three, zeros⟩, fit⟩
        obtain ⟨first, second, operand, rfl⟩ :
            ∃ first second operand, elements = [first, second, operand] := by
          rw [Json.zeroedItems_eq_map] at three
          exact List.length_eq_three.mp (by simpa using congrArg List.length three)
        simp only [Json.zeroedItems, List.cons.injEq, Json.zeroed_eq_str_iff, and_true] at three
        obtain ⟨rfl, rfl, rfl⟩ := three
        exact ⟨field, operator, operand, rfl,
          (Operand.succeeds_ofJson_iff operand).mpr ⟨zeros, fit⟩⟩
  | _ => simp [Item.ofJson, Json.zeroed, Json.itemNumbers]

/-- A domain is accepted when it is with zeros, and the numbers of its literals are fit. -/
theorem Domain.succeeds_ofJson_iff (json : Json) :
    Succeeds (Domain.ofJson json) ↔
      Succeeds (Domain.ofJson json.zeroed) ∧ ∀ number ∈ json.domainNumbers, number.IsFit := by
  cases json with
  | arr items =>
      rw [Json.zeroed, Domain.ofJson, Domain.ofJson, Json.zeroedItems_eq_map]
      exact succeeds_mapM_zeroed_iff Item.succeeds_ofJson_iff items
  | _ => simp [Domain.ofJson, Json.zeroed]

/-! ## Texts of domains -/

namespace Domain

/-- The domain of a text is decoded from the value that the text is read as. -/
theorem read_eq_ok_iff_of_laidOut
    {written : Json.Written}
    {text : String}
    (laidOut : written.LaidOut text)
    {domain : Domain} :
    read text = .ok domain ↔
      ∃ value, written.IsReadAs 127 value ∧ ofJson value = .ok domain := by
  rw [read_eq_ok_iff]
  constructor
  · rintro ⟨json, jsonRead, decoded⟩
    exact ⟨_, ⟨json, laidOut.readWritten_eq_ok_iff.mp jsonRead, rfl⟩, decoded⟩
  · rintro ⟨_, ⟨json, given, rfl⟩, decoded⟩
    exact ⟨json, laidOut.readWritten_eq_ok_iff.mpr given, decoded⟩

/-- The numerals that stand as literals become the numbers of the domain, in order. -/
theorem numbers_of_isReadAs
    {written : Json.Written}
    {value : Json}
    {domain : Domain}
    (isRead : written.IsReadAs 127 value)
    (decoded : ofJson value = .ok domain) :
    List.Forall₂ Json.Numeral.Becomes written.domainNumerals domain.numbers := by
  have becomes : ∀ {numerals : List Json.Numeral} {numbers : List Json}
      {literals : List Literal}, List.Forall₂ Json.Numeral.IsReadAs numerals numbers →
      List.Forall₂ Json.DecodesTo numbers literals →
      List.Forall₂ Json.Numeral.Becomes numerals literals := by
    intro numerals numbers literals numeralsRead numbersDecoded
    induction numeralsRead generalizing literals with
    | nil =>
        cases numbersDecoded
        exact .nil
    | cons numeralRead _ inductionHypothesis =>
        cases numbersDecoded with
        | cons numberDecoded restDecoded =>
            exact .cons (Json.Numeral.becomes_of_ofJson numeralRead numberDecoded)
              (inductionHypothesis restDecoded)
  exact becomes (Json.Written.domainNumbers_of_isReadAs isRead) (numbers_of_ofJson decoded)

/-- The numbers that stand as literals are fit exactly when none of their numerals is
unfit. -/
theorem isFit_iff_of_isReadAs
    {written : Json.Written}
    {room : Nat}
    {value : Json}
    (isRead : written.IsReadAs room value) :
    (∀ number ∈ value.domainNumbers, number.IsFit) ↔
      ∀ numeral ∈ written.domainNumerals, ¬ numeral.IsUnfit := by
  have numbers := Json.Written.domainNumbers_of_isReadAs isRead
  constructor
  · intro fit numeral inNumerals
    obtain ⟨number, inNumbers, numeralRead⟩ := exists_related_of_mem numbers inNumerals
    exact (Json.Numeral.exists_ofJson_iff numeralRead).mp (fit number inNumbers)
  · intro noneUnfit number inNumbers
    obtain ⟨numeral, inNumerals, numeralRead⟩ := exists_related_of_mem numbers.flip inNumbers
    exact (Json.Numeral.exists_ofJson_iff numeralRead).mpr (noneUnfit numeral inNumerals)

/-- What differs in its numerals only is read, if at all, as values that differ in their
numbers only. -/
theorem zeroed_eq_of_isReadAs
    {written other : Json.Written}
    {room : Nat}
    {value otherValue : Json}
    (alike : other.zeroed = written.zeroed)
    (isRead : written.IsReadAs room value)
    (otherRead : other.IsReadAs room otherValue) :
    otherValue.zeroed = value.zeroed := by
  obtain ⟨json, given, rfl⟩ := isRead
  obtain ⟨otherJson, otherGiven, rfl⟩ := otherRead
  have zeros := Json.Written.json?_zeroed written room given
  rw [← alike, Json.Written.json?_zeroed other room otherGiven] at zeros
  rw [Json.zeroed_canonical, Json.zeroed_canonical, Option.some.inj zeros]

/-- An integer that stands as a literal becomes exactly itself if it fits into sixty-four
bits with sign and is no negated zero; the domain is refused for it if it fits without
sign only; and it becomes the nearest floating-point number otherwise. Whether a domain
is accepted depends on its numbers in no other way. -/
theorem integers_are_exact_rounded_or_refused (text : String) :
    (∀ domain, read text = .ok domain → ∃ written : Json.Written, written.LaidOut text) ∧
    ∀ written : Json.Written, written.LaidOut text →
      (∀ domain, read text = .ok domain →
        List.Forall₂ Json.Numeral.Becomes written.domainNumerals domain.numbers) ∧
      ∀ (otherText : String) (other : Json.Written), other.LaidOut otherText →
        other.zeroed = written.zeroed → (∃ domain, read text = .ok domain) →
          ((∃ domain, read otherText = .ok domain) ↔
            (∀ numeral ∈ other.numerals, numeral.IsReadable) ∧
              ∀ numeral ∈ other.domainNumerals, ¬ numeral.IsUnfit) := by
  refine ⟨?existence, fun written laidOut => ⟨?numbers, ?acceptance⟩⟩
  case existence =>
    intro domain accepted
    obtain ⟨json, jsonRead, _⟩ := read_eq_ok_iff.mp accepted
    obtain ⟨written, laidOut, _⟩ := Json.exists_laidOut_of_readWritten jsonRead
    exact ⟨written, laidOut⟩
  case numbers =>
    intro domain accepted
    obtain ⟨value, isRead, decoded⟩ := (read_eq_ok_iff_of_laidOut laidOut).mp accepted
    exact numbers_of_isReadAs isRead decoded
  case acceptance =>
    intro otherText other otherLaidOut alike ⟨domain, accepted⟩
    obtain ⟨value, isRead, decoded⟩ := (read_eq_ok_iff_of_laidOut laidOut).mp accepted
    have zeros := ((succeeds_ofJson_iff value).mp ⟨domain, decoded⟩).1
    have readable := Json.Written.isSome_json?_iff other 127
    simp only [read_eq_ok_iff_of_laidOut otherLaidOut]
    constructor
    · rintro ⟨otherDomain, otherValue, otherRead, otherDecoded⟩
      have fit := ((succeeds_ofJson_iff otherValue).mp ⟨otherDomain, otherDecoded⟩).2
      have noneUnfit := (isFit_iff_of_isReadAs otherRead).mp fit
      obtain ⟨json, given, _⟩ := otherRead
      rw [given] at readable
      exact ⟨(readable.mp rfl).2, noneUnfit⟩
    · rintro ⟨allReadable, noneUnfit⟩
      obtain ⟨zeroJson, zeroGiven⟩ : ∃ json, other.zeroed.json? 127 = some json := by
        obtain ⟨json, given, _⟩ := isRead
        exact ⟨json.zeroed, alike ▸ Json.Written.json?_zeroed written 127 given⟩
      rw [zeroGiven] at readable
      obtain ⟨json, given⟩ := Option.isSome_iff_exists.mp (readable.mpr ⟨rfl, allReadable⟩)
      have otherRead : other.IsReadAs 127 json.canonical := ⟨json, given, rfl⟩
      rw [← zeroed_eq_of_isReadAs alike isRead otherRead] at zeros
      obtain ⟨otherDomain, otherDecoded⟩ := (succeeds_ofJson_iff json.canonical).mpr
        ⟨zeros, (isFit_iff_of_isReadAs otherRead).mpr noneUnfit⟩
      exact ⟨otherDomain, json.canonical, otherRead, otherDecoded⟩

/-- The domain whose only literal is a numeral without sign, fraction and exponent. -/
def comparing (whole : Nat) : Json.Written :=
  .arr [.arr [.str "a", .str "=", .number ⟨false, whole, none, none⟩]]

/-- The first integer that does not fit into sixty-four bits is rounded, while the first
one that does not fit with sign is refused. -/
theorem integer_beyond_all_bits_is_rounded :
    (∃ domain, read "[[\"a\",\"=\",18446744073709551616]]" = .ok domain ∧
      domain.numbers = [.float ⟨0x43F0000000000000⟩] ∧
      List.Forall₂ Json.Numeral.Becomes [⟨false, 18446744073709551616, none, none⟩]
        domain.numbers) ∧
    ¬ ∃ domain, read "[[\"a\",\"=\",9223372036854775808]]" = .ok domain := by
  have laidOut : (comparing 18446744073709551616).LaidOut
      "[[\"a\",\"=\",18446744073709551616]]" := by
    have text : (comparing 18446744073709551616).text =
        "[[\"a\",\"=\",18446744073709551616]]" := by decide +kernel
    exact text ▸ Json.Written.laidOut_text _
  have otherLaidOut : (comparing 9223372036854775808).LaidOut
      "[[\"a\",\"=\",9223372036854775808]]" := by
    have text : (comparing 9223372036854775808).text =
        "[[\"a\",\"=\",9223372036854775808]]" := by decide +kernel
    exact text ▸ Json.Written.laidOut_text _
  have accepted : read "[[\"a\",\"=\",18446744073709551616]]" =
      .ok [.condition ⟨"a", "=", .literal (.float ⟨0x43F0000000000000⟩)⟩] :=
    eq_ok_of_toOption_eq_some (by decide +kernel)
  obtain ⟨numbers, acceptance⟩ :=
    (integers_are_exact_rounded_or_refused _).2 _ laidOut
  refine ⟨⟨_, accepted, rfl, numbers _ accepted⟩, fun otherAccepted => ?_⟩
  have unfit := ((acceptance _ _ otherLaidOut rfl ⟨_, accepted⟩).mp otherAccepted).2
  exact unfit ⟨false, 9223372036854775808, none, none⟩ (List.mem_singleton_self _)
    ⟨⟨rfl, rfl⟩, by decide, by decide⟩

end Domain

end DomainSql
