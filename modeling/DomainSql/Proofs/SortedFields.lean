import DomainSql.Json.Basic
import Mathlib.Tactic.ByContra

/-!
# Sorted fields

The canonical form of an object has its fields sorted by key, and no key twice. Such
fields are determined by what is found under each key, and sorting leaves them as they
are.
-/

namespace DomainSql
namespace Json

/-- Fields are sorted by key, and no key stands twice. -/
def KeysAscend (fields : List (String × Json)) : Prop :=
  fields.Pairwise fun first second => first.1 < second.1

theorem keysAscend_iff {fields : List (String × Json)} :
    KeysAscend fields ↔ (fields.map Prod.fst).Pairwise (· < ·) :=
  List.pairwise_map.symm

theorem fieldOf?_eq_none_iff
    {key : String}
    {fields : List (String × Json)} :
    fieldOf? key fields = none ↔ ∀ field ∈ fields, field.1 ≠ key := by
  induction fields with
  | nil => simp
  | cons field rest inductionHypothesis =>
      obtain ⟨name, value⟩ := field
      by_cases same : name = key
      · simp [same]
      · simp [same, inductionHypothesis]

/-- A field that is put in has one of the keys that were there, or its own. -/
theorem key_of_mem_insertField
    {key : String}
    {value : Json}
    {fields : List (String × Json)}
    {field : String × Json}
    (inFields : field ∈ insertField key value fields) :
    field.1 = key ∨ field ∈ fields := by
  induction fields with
  | nil => exact .inl (congrArg Prod.fst (List.mem_singleton.mp inFields))
  | cons first rest inductionHypothesis =>
      rw [insertField] at inFields
      split at inFields
      · rcases List.mem_cons.mp inFields with rfl | old
        · exact .inl rfl
        · exact .inr old
      · split at inFields
        · rcases List.mem_cons.mp inFields with rfl | old
          · exact .inl rfl
          · exact .inr (List.mem_cons_of_mem _ old)
        · rcases List.mem_cons.mp inFields with rfl | new
          · exact .inr List.mem_cons_self
          · exact (inductionHypothesis new).imp_right (List.mem_cons_of_mem _)

theorem KeysAscend.insertField
    {fields : List (String × Json)}
    (ascend : KeysAscend fields)
    (key : String)
    (value : Json) :
    KeysAscend (insertField key value fields) := by
  induction fields with
  | nil => exact List.pairwise_singleton _ _
  | cons first rest inductionHypothesis =>
      obtain ⟨above, restAscend⟩ := List.pairwise_cons.mp ascend
      rw [Json.insertField]
      split
      · rename_i before
        refine List.pairwise_cons.mpr ⟨fun field inFields => ?_, ascend⟩
        rcases List.mem_cons.mp inFields with rfl | inRest
        · exact before
        · exact String.lt_trans before (above field inRest)
      · rename_i notBefore
        split
        · rename_i same
          exact List.pairwise_cons.mpr ⟨fun field inRest => same ▸ above field inRest,
            restAscend⟩
        · rename_i different
          have after : first.1 < key := by
            by_contra notAfter
            exact different (String.le_antisymm notAfter notBefore)
          refine List.pairwise_cons.mpr ⟨fun field inFields => ?_,
            inductionHypothesis restAscend⟩
          rcases key_of_mem_insertField inFields with same | inRest
          · exact same ▸ after
          · exact above field inRest

theorem keysAscend_sortFields (fields : List (String × Json)) :
    KeysAscend (sortFields fields) := by
  have sorted : ∀ (fields done : List (String × Json)), KeysAscend done →
      KeysAscend (fields.foldl
        (fun sorted field => Json.insertField field.1 field.2 sorted) done) := by
    intro fields
    induction fields with
    | nil => exact fun done ascend => ascend
    | cons field rest inductionHypothesis =>
        exact fun done ascend => inductionHypothesis _ (ascend.insertField _ _)
  exact sorted fields [] .nil

/-- A key that is found is the first one of sorted fields, or stands behind it. -/
theorem KeysAscend.first_le
    {first key : String}
    {value found : Json}
    {rest : List (String × Json)}
    (ascend : KeysAscend ((first, value) :: rest))
    (isFound : fieldOf? key ((first, value) :: rest) = some found) :
    first = key ∨ first < key := by
  by_contra notBefore
  have none : fieldOf? key ((first, value) :: rest) = none := by
    rw [fieldOf?_eq_none_iff]
    intro field inFields same
    rcases List.mem_cons.mp inFields with rfl | inRest
    · exact notBefore (.inl same)
    · exact notBefore (.inr (same ▸ (List.pairwise_cons.mp ascend).1 field inRest))
  cases none.symm.trans isFound

/-- The first key of sorted fields is not found behind it. -/
theorem KeysAscend.fieldOf?_rest
    {key : String}
    {value : Json}
    {rest : List (String × Json)}
    (ascend : KeysAscend ((key, value) :: rest)) :
    fieldOf? key rest = none := by
  rw [fieldOf?_eq_none_iff]
  rintro field inRest rfl
  exact String.lt_irrefl _ ((List.pairwise_cons.mp ascend).1 field inRest)

/-- Sorted fields are determined by what is found under each key. -/
theorem KeysAscend.ext
    {fields others : List (String × Json)}
    (ascend : KeysAscend fields)
    (othersAscend : KeysAscend others)
    (same : ∀ key, fieldOf? key fields = fieldOf? key others) :
    fields = others := by
  induction fields generalizing others with
  | nil =>
      cases others with
      | nil => rfl
      | cons other rest =>
          obtain ⟨key, value⟩ := other
          simpa using same key
  | cons field rest inductionHypothesis =>
      obtain ⟨key, value⟩ := field
      cases others with
      | nil => simpa using same key
      | cons other otherRest =>
          obtain ⟨otherKey, otherValue⟩ := other
          have found : fieldOf? key ((otherKey, otherValue) :: otherRest) = some value := by
            simp [← same key]
          have otherFound : fieldOf? otherKey ((key, value) :: rest) = some otherValue := by
            simp [same otherKey]
          obtain rfl : otherKey = key := by
            rcases othersAscend.first_le found with equal | before
            · exact equal
            · rcases ascend.first_le otherFound with equal | after
              · exact equal.symm
              · exact absurd after (String.lt_asymm before)
          obtain rfl : otherValue = value := by simpa using found
          have restSame : rest = otherRest := by
            apply inductionHypothesis (List.pairwise_cons.mp ascend).2
              (List.pairwise_cons.mp othersAscend).2
            intro name
            by_cases first : otherKey = name
            · rw [← first, ascend.fieldOf?_rest, othersAscend.fieldOf?_rest]
            · simpa [first] using same name
          rw [restSame]

/-- A field whose key is behind all others goes to the end. -/
theorem insertField_of_forall_lt
    {key : String}
    {value : Json}
    {sorted : List (String × Json)}
    (behind : ∀ field ∈ sorted, field.1 < key) :
    insertField key value sorted = sorted ++ [(key, value)] := by
  induction sorted with
  | nil => rfl
  | cons field rest inductionHypothesis =>
      rw [List.forall_mem_cons] at behind
      have different : key ≠ field.1 := by
        rintro rfl
        exact String.lt_irrefl _ behind.1
      rw [insertField, if_neg (String.lt_asymm behind.1), if_neg different,
        inductionHypothesis behind.2, List.cons_append]

/-- Sorted fields stay as they are. -/
theorem KeysAscend.sortFields_eq
    {fields : List (String × Json)}
    (ascend : KeysAscend fields) :
    sortFields fields = fields := by
  have sorted : ∀ (fields done : List (String × Json)), KeysAscend (done ++ fields) →
      fields.foldl (fun sorted field => Json.insertField field.1 field.2 sorted) done =
        done ++ fields := by
    intro fields
    induction fields with
    | nil => simp
    | cons field rest inductionHypothesis =>
        intro done ascend
        have behind : ∀ other ∈ done, other.1 < field.1 := fun other inDone =>
          (List.pairwise_append.mp ascend).2.2 other inDone field List.mem_cons_self
        rw [List.foldl_cons, insertField_of_forall_lt behind,
          inductionHypothesis _ (by simpa using ascend), List.append_assoc,
          List.singleton_append]
  exact sorted fields [] ascend

theorem fieldOf?_filter
    (kept : String → Bool)
    (key : String)
    (fields : List (String × Json)) :
    fieldOf? key (fields.filter fun field => kept field.1) =
      if kept key then fieldOf? key fields else none := by
  induction fields with
  | nil => simp
  | cons field rest inductionHypothesis =>
      obtain ⟨name, value⟩ := field
      by_cases same : name = key
      · subst same
        by_cases isKept : kept name = true
        · simp [isKept]
        · simp [isKept, inductionHypothesis]
      · by_cases isKept : kept name = true
        · simp [isKept, same, inductionHypothesis]
        · simp [isKept, same, inductionHypothesis]

end Json
end DomainSql
