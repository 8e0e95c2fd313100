import DomainSql.Json.Reader
import DomainSql.Proofs.Outcome
import Mathlib.Data.List.Induction
import Mathlib.Data.Nat.Digits.Defs

/-!
# Numerals

A numeral is a number as it is written. Its whole part has no leading zero, so the
number in front of the point determines its digits. The reader reads a numeral up to
its last character and no further, and it reads nothing but numerals.

What a numeral is read as depends on its form and on its size. A numeral without
fraction and exponent is read as the integer that it writes, if that integer fits into
sixty-four bits with or without sign and is no negated zero; every other numeral is
read as the floating-point number nearest to it, and refused if there is none.
-/

namespace DomainSql
namespace Json

/-- A run of at least one decimal digit. -/
structure Digits where
  chars : List Char
  nonempty : chars ≠ []
  decimal : ∀ char ∈ chars, char.isDigit = true
  deriving DecidableEq

/-- The exponent of a numeral. -/
structure Exponent where
  /-- Whether its mark is a capital. -/
  capital : Bool
  /-- Whether its sign is a minus, if it has a sign. -/
  sign : Option Bool
  size : Digits
  deriving DecidableEq

/-- A number as it is written. -/
structure Numeral where
  negative : Bool
  /-- The number in front of the point. -/
  whole : Nat
  fraction : Option Digits
  exponent : Option Exponent
  deriving DecidableEq

namespace Exponent

/-- The text of the sign of an exponent. -/
def signChars : Option Bool → List Char
  | none => []
  | some true => ['-']
  | some false => ['+']

/-- The text of an exponent. -/
def chars (exponent : Exponent) : List Char :=
  (if exponent.capital then 'E' else 'e') ::
    (signChars exponent.sign ++ exponent.size.chars)

/-- The integer that digits behind a sign spell. -/
def signed
    (sign : Option Bool)
    (digits : List Char) : Int :=
  if sign = some true then -(natOfDigits digits : Int) else natOfDigits digits

/-- The power of ten that an exponent stands for. -/
def value (exponent : Exponent) : Int :=
  signed exponent.sign exponent.size.chars

end Exponent

namespace Numeral

/-- The digits behind the point. -/
def fractionDigits (numeral : Numeral) : List Char :=
  (numeral.fraction.map Digits.chars).getD []

/-- The text behind the whole part. -/
def tailChars (numeral : Numeral) : List Char :=
  (numeral.fraction.map fun digits => '.' :: digits.chars).getD [] ++
    (numeral.exponent.map Exponent.chars).getD []

/-- The text of a numeral behind its sign. -/
def unsignedChars (numeral : Numeral) : List Char :=
  Nat.toDigits 10 numeral.whole ++ numeral.tailChars

/-- The text of a numeral. -/
def chars (numeral : Numeral) : List Char :=
  if numeral.negative then '-' :: numeral.unsignedChars else numeral.unsignedChars

/-- A numeral without fraction and exponent. -/
def IsInteger (numeral : Numeral) : Prop :=
  numeral.fraction = none ∧ numeral.exponent = none

instance (numeral : Numeral) : Decidable numeral.IsInteger :=
  inferInstanceAs (Decidable (_ ∧ _))

/-- The integer that a numeral without fraction and exponent writes. -/
def integer (numeral : Numeral) : Int :=
  if numeral.negative then -(numeral.whole : Int) else numeral.whole

/-- The zero behind a minus sign. -/
def IsNegatedZero (numeral : Numeral) : Prop :=
  numeral.negative = true ∧ numeral.whole = 0

instance (numeral : Numeral) : Decidable numeral.IsNegatedZero :=
  inferInstanceAs (Decidable (_ ∧ _))

/-- A numeral of an integer that the reader keeps as an integer: one that fits into
sixty-four bits with or without sign, and is not the negated zero. -/
def IsKept (numeral : Numeral) : Prop :=
  numeral.IsInteger ∧ ¬ numeral.IsNegatedZero ∧
    -(Nat.pow 2 63 : Int) ≤ numeral.integer ∧ numeral.integer < Nat.pow 2 64

instance (numeral : Numeral) : Decidable numeral.IsKept :=
  inferInstanceAs (Decidable (_ ∧ _))

/-- The floating-point number nearest to the decimal that a numeral writes. -/
def nearest? (numeral : Numeral) : Option Binary64 :=
  Binary64.ofDecimal numeral.negative
    (natOfDigits (Nat.toDigits 10 numeral.whole ++ numeral.fractionDigits))
    ((numeral.exponent.map Exponent.value).getD 0 - numeral.fractionDigits.length)

/-- The number that a numeral is read as. -/
def json? (numeral : Numeral) : Option Json :=
  if numeral.IsKept then some (.int numeral.integer)
  else numeral.nearest?.map .float

end Numeral

/-! ## Digits -/

/-- The number that digits spell is the one that the standard library reads. -/
theorem natOfDigits_eq (digits : List Char) :
    natOfDigits digits = Nat.ofDigitChars 10 digits 0 :=
  Nat.ofDigitChars_eq_foldl.symm

@[simp] theorem natOfDigits_toDigits (number : Nat) :
    natOfDigits (Nat.toDigits 10 number) = number := by
  rw [natOfDigits_eq, Nat.ofDigitChars_ten_toDigits]

/-- The digits of a number, as a run of digits. -/
theorem decimal_toDigits (number : Nat) :
    ∀ char ∈ Nat.toDigits 10 number, char.isDigit = true :=
  fun _ => Nat.isDigit_of_mem_toDigits (by decide) (by decide)

/-- A positive number has no leading zero. -/
theorem head?_toDigits_ne
    {number : Nat}
    (positive : 0 < number) :
    (Nat.toDigits 10 number).head? ≠ some '0' := by
  induction number using Nat.strong_induction_on with
  | _ number inductionHypothesis =>
    rw [Nat.toDigits_eq_if (by decide)]
    split
    · rename_i small
      have nonzero : ∀ digit < 10, 0 < digit → [digit.digitChar].head? ≠ some '0' := by
        decide
      exact nonzero number small positive
    · rename_i large
      rw [List.head?_append_of_ne_nil _ Nat.toDigits_ne_nil]
      exact inductionHypothesis (number / 10) (by omega) (by omega)

/-- A digit is the character of its value. -/
theorem digitChar_of_isDigit
    {char : Char}
    (digit : char.isDigit = true) :
    char.toNat - 48 < 10 ∧ (char.toNat - 48).digitChar = char := by
  obtain ⟨lower, upper⟩ : 48 ≤ char.toNat ∧ char.toNat ≤ 57 := by
    have both : (decide (char.val ≥ 48) && decide (char.val ≤ 57)) = true := digit
    simpa [UInt32.le_iff_toNat_le] using both
  have spelled : ∀ value < 10, Nat.digitChar value = Char.ofNat (48 + value) := by decide
  refine ⟨by omega, ?_⟩
  rw [spelled _ (by omega), Nat.add_sub_cancel' lower, Char.ofNat_toNat]

/-- Digits without a leading zero are those of the number that they spell. -/
theorem toDigits_natOfDigits
    {digits : List Char}
    (nonempty : digits ≠ [])
    (decimal : ∀ char ∈ digits, char.isDigit = true)
    (leading : 1 < digits.length → digits.head? ≠ some '0') :
    Nat.toDigits 10 (natOfDigits digits) = digits := by
  induction digits using List.reverseRecOn with
  | nil => exact absurd rfl nonempty
  | append_singleton front last inductionHypothesis =>
    obtain ⟨small, spelled⟩ := digitChar_of_isDigit (decimal last (by simp))
    have value : natOfDigits (front ++ [last]) =
        10 * natOfDigits front + (last.toNat - 48) := by
      simp [natOfDigits]
    rw [value]
    by_cases single : front = []
    · subst single
      rw [show natOfDigits [] = 0 from rfl, Nat.mul_zero, Nat.zero_add,
        Nat.toDigits_of_lt_base small, spelled, List.nil_append]
    · have noZero : front.head? ≠ some '0' := by
        have long : 1 < (front ++ [last]).length := by
          have := List.length_pos_iff.mpr single
          simp only [List.length_append, List.length_singleton]
          omega
        rw [← List.head?_append_of_ne_nil front single]
        exact leading long
      have frontDigits := inductionHypothesis single
        (fun char inFront => decimal char (List.mem_append_left _ inFront))
        (fun _ => noZero)
      have positive : 0 < natOfDigits front := by
        refine Nat.pos_of_ne_zero fun zero => noZero ?_
        rw [← frontDigits, zero]
        rfl
      rw [← Nat.toDigits_append_toDigits (by decide) positive small, frontDigits,
        Nat.toDigits_of_lt_base small, spelled]

/-- A run of digits is read whole, if no digit follows it. -/
theorem readDigits_append
    {digits rest : List Char}
    (nonempty : digits ≠ [])
    (decimal : ∀ char ∈ digits, char.isDigit = true)
    (ends : ∀ char ∈ rest.head?, char.isDigit = false) :
    readDigits (digits ++ rest) = .ok (digits, rest) := by
  have none : rest.takeWhile Char.isDigit = [] ∧ rest.dropWhile Char.isDigit = rest := by
    cases rest with
    | nil => exact ⟨rfl, rfl⟩
    | cons char rest =>
        have notDigit := ends char rfl
        exact ⟨List.takeWhile_cons_of_neg (by simp [notDigit]),
          List.dropWhile_cons_of_neg (by simp [notDigit])⟩
  rw [readDigits, List.takeWhile_append_of_pos decimal, List.dropWhile_append_of_pos decimal,
    none.1, none.2, List.append_nil]
  simp [nonempty]

/-- What is read as digits is a run of digits in front of the rest. -/
theorem exists_digits_of_readDigits
    {chars found rest : List Char}
    (read : readDigits chars = .ok (found, rest)) :
    ∃ digits : Digits, digits.chars = found ∧ chars = found ++ rest := by
  unfold readDigits at read
  simp only at read
  split at read
  · cases remaining : chars.dropWhile Char.isDigit <;> rw [remaining] at read <;> cases read
  · rename_i nonempty
    cases read
    refine ⟨⟨chars.takeWhile Char.isDigit, by simpa using nonempty, ?_⟩, rfl,
      List.takeWhile_append_dropWhile.symm⟩
    exact List.all_eq_true.mp List.all_takeWhile

/-! ## The parts of a numeral -/

/-- What may follow a numeral: nothing that would go on with it. -/
def Ends (rest : List Char) : Prop :=
  ∀ char ∈ rest.head?, char.isDigit = false ∧ char ≠ '.' ∧ char ≠ 'e' ∧ char ≠ 'E'

theorem readWhole_append
    {number : Nat}
    {rest : List Char}
    (ends : ∀ char ∈ rest.head?, char.isDigit = false) :
    readWhole (Nat.toDigits 10 number ++ rest) = .ok (Nat.toDigits 10 number, rest) := by
  have noZero : (decide (1 < (Nat.toDigits 10 number).length) &&
      (Nat.toDigits 10 number).head? == some '0') = false := by
    rcases Nat.eq_zero_or_pos number with rfl | positive
    · rfl
    · simp [head?_toDigits_ne positive]
  rw [readWhole, readDigits_append Nat.toDigits_ne_nil (decimal_toDigits number) ends, ok_bind]
  simp only [noZero]
  rfl

theorem exists_whole_of_readWhole
    {chars found rest : List Char}
    (read : readWhole chars = .ok (found, rest)) :
    ∃ number, found = Nat.toDigits 10 number ∧ chars = found ++ rest := by
  rw [readWhole] at read
  obtain ⟨⟨digits, remaining⟩, readDigits, read⟩ := bind_eq_ok_iff.mp read
  simp only at read
  split at read
  · cases read
  · rename_i noZero
    cases read
    obtain ⟨digits, rfl, rfl⟩ := exists_digits_of_readDigits readDigits
    refine ⟨natOfDigits digits.chars, ?_, rfl⟩
    refine (toDigits_natOfDigits digits.nonempty digits.decimal fun long zero => ?_).symm
    exact noZero (by simp [long, zero])

theorem readFraction_absent
    {chars : List Char}
    (noPoint : ∀ char ∈ chars.head?, char ≠ '.') :
    readFraction chars = .ok (none, chars) := by
  unfold readFraction
  split
  · exact absurd rfl (noPoint '.' rfl)
  · rfl

theorem readFraction_append
    {digits : Digits}
    {rest : List Char}
    (ends : ∀ char ∈ rest.head?, char.isDigit = false) :
    readFraction ('.' :: digits.chars ++ rest) = .ok (some digits.chars, rest) := by
  rw [List.cons_append, readFraction, readDigits_append digits.nonempty digits.decimal ends]
  rfl

theorem exists_fraction_of_readFraction
    {chars rest : List Char}
    {found : Option (List Char)}
    (read : readFraction chars = .ok (found, rest)) :
    ∃ fraction : Option Digits, found = fraction.map Digits.chars ∧
      chars = (fraction.map fun digits => '.' :: digits.chars).getD [] ++ rest := by
  unfold readFraction at read
  split at read
  · obtain ⟨⟨digits, remaining⟩, readDigits, read⟩ := bind_eq_ok_iff.mp read
    cases read
    obtain ⟨digits, rfl, rfl⟩ := exists_digits_of_readDigits readDigits
    exact ⟨some digits, rfl, rfl⟩
  · cases read
    exact ⟨none, rfl, rfl⟩

theorem readExponent_absent
    {chars : List Char}
    (noMark : ∀ char ∈ chars.head?, char ≠ 'e' ∧ char ≠ 'E') :
    readExponent chars = .ok (none, chars) := by
  cases chars with
  | nil => rfl
  | cons char rest => simp [readExponent, noMark char rfl]

/-- Behind its mark and its sign an exponent is a run of digits. -/
theorem readExponent_signed
    {mark : Char}
    {sign : Option Bool}
    {chars : List Char}
    (marked : mark = 'e' ∨ mark = 'E')
    (signed : sign = none → ∀ char ∈ chars.head?, char ≠ '-' ∧ char ≠ '+') :
    readExponent (mark :: (Exponent.signChars sign ++ chars)) =
      (readDigits chars).map fun read => (some (Exponent.signed sign read.1), read.2) := by
  rcases sign with _ | _ | _
  · rw [Exponent.signChars, List.nil_append, readExponent, if_pos marked]
    · rfl
    · rintro others rfl
      exact (signed rfl '-' rfl).1 rfl
    · rintro others rfl
      exact (signed rfl '+' rfl).2 rfl
  · rw [Exponent.signChars, List.cons_append, List.nil_append, readExponent, if_pos marked]
    rfl
  · rw [Exponent.signChars, List.cons_append, List.nil_append, readExponent, if_pos marked]
    rfl

/-- Every text has a sign or none in front. -/
theorem exists_sign (chars : List Char) :
    ∃ sign rest, chars = Exponent.signChars sign ++ rest ∧
      (sign = none → ∀ char ∈ rest.head?, char ≠ '-' ∧ char ≠ '+') := by
  by_cases minus : chars.head? = some '-'
  · exact ⟨some true, chars.tail, (List.cons_head?_tail minus).symm, by simp⟩
  · by_cases plus : chars.head? = some '+'
    · exact ⟨some false, chars.tail, (List.cons_head?_tail plus).symm, by simp⟩
    · refine ⟨none, chars, rfl, fun _ char isHead => ⟨?_, ?_⟩⟩ <;> rintro rfl
      · exact minus isHead
      · exact plus isHead

theorem readExponent_append
    {exponent : Exponent}
    {rest : List Char}
    (ends : ∀ char ∈ rest.head?, char.isDigit = false) :
    readExponent (exponent.chars ++ rest) = .ok (some exponent.value, rest) := by
  have marked : (if exponent.capital then 'E' else 'e') = 'e' ∨
      (if exponent.capital then 'E' else 'e') = 'E' := by
    cases exponent.capital
    · exact .inl rfl
    · exact .inr rfl
  have signed : ∀ char ∈ (exponent.size.chars ++ rest).head?, char ≠ '-' ∧ char ≠ '+' := by
    intro char isHead
    rw [List.head?_append_of_ne_nil _ exponent.size.nonempty] at isHead
    have digit := exponent.size.decimal char (List.mem_of_mem_head? isHead)
    constructor <;> rintro rfl <;> cases digit
  rw [Exponent.chars, List.cons_append, List.append_assoc,
    readExponent_signed marked fun _ => signed,
    readDigits_append exponent.size.nonempty exponent.size.decimal ends]
  rfl

theorem exists_exponent_of_readExponent
    {chars rest : List Char}
    {found : Option Int}
    (read : readExponent chars = .ok (found, rest)) :
    ∃ exponent : Option Exponent, found = exponent.map Exponent.value ∧
      chars = (exponent.map Exponent.chars).getD [] ++ rest := by
  by_cases absent : ∀ char ∈ chars.head?, char ≠ 'e' ∧ char ≠ 'E'
  · rw [readExponent_absent absent] at read
    cases read
    exact ⟨none, rfl, rfl⟩
  · obtain ⟨capital, others, rfl⟩ :
        ∃ (capital : Bool) (others : List Char),
          chars = (if capital then 'E' else 'e') :: others := by
      cases chars with
      | nil => exact absurd (by simp) absent
      | cons mark others =>
          by_cases small : mark = 'e'
          · exact ⟨false, others, by rw [small]; rfl⟩
          · by_cases capital : mark = 'E'
            · exact ⟨true, others, by rw [capital]; rfl⟩
            · exact absurd (by simp [small, capital]) absent
    obtain ⟨sign, others, rfl, signed⟩ := exists_sign others
    rw [readExponent_signed (by cases capital <;> simp) signed] at read
    cases digitsRead : readDigits others with
    | error fault =>
        rw [digitsRead] at read
        cases read
    | ok digitsAndRest =>
        rw [digitsRead] at read
        cases read
        obtain ⟨digits, sameDigits, rfl⟩ := exists_digits_of_readDigits digitsRead
        exact ⟨some ⟨capital, sign, digits⟩, by rw [← sameDigits]; rfl,
          by simp [Exponent.chars, sameDigits]⟩

/-! ## Numerals -/

/-- A number, or the fault of a numeral that is out of range. -/
def inRange : Option Json → Except Fault Json
  | some number => .ok number
  | none => .error .numberTooLarge

theorem floatOf_eq
    {care : Care}
    (exact : care.exact = true)
    (negative : Bool)
    (digits : Nat)
    (scale : Int) :
    floatOf care negative digits scale =
      inRange ((Binary64.ofDecimal negative digits scale).map .float) := by
  unfold floatOf
  cases Binary64.ofDecimal negative digits scale with
  | none => simp [inRange, exact]
  | some number => rfl

theorem Numeral.nearest?_of_isInteger
    {numeral : Numeral}
    (isInteger : numeral.IsInteger) :
    numeral.nearest? = Binary64.ofDecimal numeral.negative numeral.whole 0 := by
  obtain ⟨negative, whole, fraction, exponent⟩ := numeral
  obtain ⟨rfl, rfl⟩ := isInteger
  simp [nearest?, fractionDigits]

/-- Whether an integer is kept, in the terms of the reader. -/
theorem Numeral.isKept_iff
    {numeral : Numeral}
    (isInteger : numeral.IsInteger) :
    numeral.IsKept ↔
      if numeral.negative then ¬ (numeral.whole = 0 ∨ Nat.pow 2 63 < numeral.whole)
      else numeral.whole < Nat.pow 2 64 := by
  unfold IsKept IsNegatedZero integer
  -- The limits are opened nowhere below.
  generalize Nat.pow 2 63 = half, Nat.pow 2 64 = full
  cases numeral.negative with
  | true =>
      simp only [isInteger, true_and, if_true]
      omega
  | false =>
      simp only [isInteger, true_and, Bool.false_eq_true, false_and, not_false_iff, if_false]
      omega

theorem integerOf_eq
    {care : Care}
    (exact : care.exact = true)
    {numeral : Numeral}
    (isInteger : numeral.IsInteger) :
    integerOf care numeral.negative numeral.whole = inRange numeral.json? := by
  have kept_iff := Numeral.isKept_iff isInteger
  rw [integerOf, Numeral.json?, Numeral.nearest?_of_isInteger isInteger, Numeral.integer]
  by_cases kept : numeral.IsKept
  · rw [if_pos kept]
    rw [kept_iff] at kept
    cases sign : numeral.negative with
    | true =>
        rw [sign, if_pos rfl] at kept
        rw [if_pos rfl, if_pos rfl, if_neg kept, inRange]
    | false =>
        rw [sign, if_neg Bool.false_ne_true] at kept
        rw [if_neg Bool.false_ne_true, if_neg Bool.false_ne_true, if_pos kept, inRange]
  · rw [if_neg kept]
    rw [kept_iff] at kept
    cases sign : numeral.negative with
    | true =>
        rw [sign, if_pos rfl, not_not] at kept
        rw [if_pos rfl, if_pos kept, floatOf_eq exact]
    | false =>
        rw [sign, if_neg Bool.false_ne_true] at kept
        rw [if_neg Bool.false_ne_true, if_neg kept, floatOf_eq exact]

/-- What may follow a part of a numeral may be followed by the next part. -/
theorem Numeral.notDigit_tailChars
    {numeral : Numeral}
    {rest : List Char}
    (ends : Ends rest) :
    ∀ char ∈ (numeral.tailChars ++ rest).head?, char.isDigit = false := by
  obtain ⟨negative, whole, fraction, exponent⟩ := numeral
  cases fraction with
  | some digits =>
      intro char isPoint
      cases isPoint
      rfl
  | none =>
      cases exponent with
      | none => exact fun char isHead => (ends char isHead).1
      | some exponent =>
          intro char isMark
          cases isMark
          cases exponent.capital <;> rfl

/-- The parts of a numeral make its number. -/
theorem numberOf_parts
    {care : Care}
    (exact : care.exact = true)
    (numeral : Numeral)
    (rest : List Char) :
    (match numeral.fraction.map Digits.chars, numeral.exponent.map Exponent.value with
      | none, none => do
          let number ←
            integerOf care numeral.negative (natOfDigits (Nat.toDigits 10 numeral.whole))
          pure (number, rest)
      | _, _ => do
          let number ← floatOf care numeral.negative
            (natOfDigits (Nat.toDigits 10 numeral.whole ++ numeral.fractionDigits))
            ((numeral.exponent.map Exponent.value).getD 0 - numeral.fractionDigits.length)
          pure (number, rest)) =
      (inRange numeral.json?).map fun number => (number, rest) := by
  by_cases isInteger : numeral.IsInteger
  · rw [isInteger.1, isInteger.2, ← integerOf_eq exact isInteger, natOfDigits_toDigits]
    rfl
  · have notKept : ¬ numeral.IsKept := fun kept => isInteger kept.1
    rw [Numeral.json?, if_neg notKept, Numeral.nearest?]
    split
    · rename_i noFraction noExponent
      exact absurd ⟨Option.map_eq_none_iff.mp noFraction,
        Option.map_eq_none_iff.mp noExponent⟩ isInteger
    · rw [floatOf_eq exact]
      rfl

/-- A numeral is read whole and no further. -/
theorem readNumber_unsignedChars
    {care : Care}
    (exact : care.exact = true)
    (numeral : Numeral)
    {rest : List Char}
    (ends : Ends rest) :
    readNumber care numeral.negative (numeral.unsignedChars ++ rest) =
      (inRange numeral.json?).map fun number => (number, rest) := by
  have notDigit : ∀ char ∈ rest.head?, char.isDigit = false :=
    fun char isHead => (ends char isHead).1
  have exponentRead : readExponent ((numeral.exponent.map Exponent.chars).getD [] ++ rest) =
      .ok (numeral.exponent.map Exponent.value, rest) := by
    cases numeral.exponent with
    | none => exact readExponent_absent fun char isHead => (ends char isHead).2.2
    | some exponent => exact readExponent_append notDigit
  have fractionRead : readFraction (numeral.tailChars ++ rest) =
      .ok (numeral.fraction.map Digits.chars,
        (numeral.exponent.map Exponent.chars).getD [] ++ rest) := by
    have marked : ∀ char ∈ ((numeral.exponent.map Exponent.chars).getD [] ++ rest).head?,
        char.isDigit = false ∧ char ≠ '.' := by
      intro char isHead
      cases form : numeral.exponent with
      | none =>
          rw [form] at isHead
          exact ⟨(ends char isHead).1, (ends char isHead).2.1⟩
      | some exponent =>
          rw [form] at isHead
          cases isHead
          cases exponent.capital <;> exact ⟨rfl, by decide⟩
    rw [Numeral.tailChars, List.append_assoc]
    cases numeral.fraction with
    | none => exact readFraction_absent fun char isHead => (marked char isHead).2
    | some digits => exact readFraction_append fun char isHead => (marked char isHead).1
  rw [readNumber, Numeral.unsignedChars, List.append_assoc,
    readWhole_append (numeral.notDigit_tailChars ends), ok_bind]
  simp only [fractionRead, exponentRead, ok_bind]
  exact numberOf_parts exact numeral rest

/-- What is read as a number is a numeral in front of the rest. -/
theorem exists_numeral_of_readNumber
    {care : Care}
    (exact : care.exact = true)
    {negative : Bool}
    {chars rest : List Char}
    {number : Json}
    (read : readNumber care negative chars = .ok (number, rest)) :
    ∃ numeral : Numeral, numeral.negative = negative ∧
      chars = numeral.unsignedChars ++ rest ∧ numeral.json? = some number := by
  rw [readNumber] at read
  obtain ⟨⟨whole, behindWhole⟩, wholeRead, afterWhole⟩ := bind_eq_ok_iff.mp read
  obtain ⟨⟨fraction, behindFraction⟩, fractionRead, afterFraction⟩ :=
    bind_eq_ok_iff.mp afterWhole
  obtain ⟨⟨exponent, behindExponent⟩, exponentRead, afterExponent⟩ :=
    bind_eq_ok_iff.mp afterFraction
  obtain ⟨size, rfl, rfl⟩ := exists_whole_of_readWhole wholeRead
  obtain ⟨fraction, rfl, rfl⟩ := exists_fraction_of_readFraction fractionRead
  obtain ⟨exponent, rfl, rfl⟩ := exists_exponent_of_readExponent exponentRead
  have found := (numberOf_parts exact ⟨negative, size, fraction, exponent⟩
    behindExponent).symm.trans afterExponent
  cases value : (⟨negative, size, fraction, exponent⟩ : Numeral).json? with
  | none =>
      rw [value] at found
      cases found
  | some number =>
      rw [value] at found
      cases found
      exact ⟨⟨negative, size, fraction, exponent⟩, rfl,
        by simp [Numeral.unsignedChars, Numeral.tailChars], value⟩

end Json
end DomainSql
