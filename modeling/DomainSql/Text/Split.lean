/-!
# Splitting a text

Splitting keeps empty parts, so a text with `n` separators has `n + 1` parts.
-/

namespace DomainSql
namespace Text

/-- The parts of a list of characters between its separators. -/
def splitWhere
    (isSeparator : Char → Bool) : List Char → List (List Char)
  | [] => [[]]
  | char :: rest =>
      if isSeparator char then
        [] :: splitWhere isSeparator rest
      else
        match splitWhere isSeparator rest with
        | [] => [[char]]
        | part :: parts => (char :: part) :: parts

/-- The parts of a text between the occurrences of `separator`. -/
def split
    (separator : Char)
    (text : String) : List String :=
  (splitWhere (· == separator) text.toList).map String.ofList

/-- Join parts with one `separator` between neighbours. -/
def join
    (separator : Char)
    (parts : List String) : String :=
  String.intercalate (String.singleton separator) parts

/-- Replace every occurrence of one character by another. -/
def replace
    (old new : Char)
    (text : String) : String :=
  String.ofList (text.toList.map fun char => if char = old then new else char)

@[simp] theorem splitWhere_nil
    (isSeparator : Char → Bool) :
    splitWhere isSeparator [] = [[]] := rfl

theorem splitWhere_ne_nil
    (isSeparator : Char → Bool)
    (chars : List Char) :
    splitWhere isSeparator chars ≠ [] := by
  cases chars with
  | nil => simp
  | cons char rest =>
      simp only [splitWhere]
      split
      · simp
      · split <;> simp

/-- No part holds a separator. -/
theorem not_isSeparator_of_mem_splitWhere
    {isSeparator : Char → Bool}
    {chars part : List Char}
    (member : part ∈ splitWhere isSeparator chars) :
    ∀ char ∈ part, isSeparator char = false := by
  induction chars generalizing part with
  | nil => simp_all
  | cons char rest inductionHypothesis =>
      simp only [splitWhere] at member
      split at member
      · rcases List.mem_cons.mp member with equal | inRest
        · simp [equal]
        · exact inductionHypothesis inRest
      · rename_i different
        split at member
        · simp_all [splitWhere_ne_nil]
        · rename_i first others parts
          rcases List.mem_cons.mp member with equal | inRest
          · subst equal
            simp only [List.mem_cons, forall_eq_or_imp]
            exact ⟨by simpa using different,
              inductionHypothesis (by simp [parts])⟩
          · exact inductionHypothesis (by simp [parts, inRest])

end Text
end DomainSql
