import DomainSql.Proofs.JsonGrammar

/-!
# The numbers of JSON values

The reader brings a value into canonical form: it sorts the fields of every object and
keeps the last one of each key. A key finds the same value before and after. Which
numerals a text holds makes no difference to anything but the numbers: with each of
them replaced by zero, the text is read as the same value with zeros for its numbers.
-/

namespace DomainSql
namespace Json

/-! ## Fields by key -/

/-- The value of the last field with this key. -/
def lastOf?
    {Value : Type}
    (key : String) : List (String × Value) → Option Value
  | [] => none
  | (name, value) :: rest =>
      (lastOf? key rest).or (if name = key then some value else none)

/-- A field that is put in with another key is not found by this one. -/
theorem fieldOf?_insertField_of_ne
    {key other : String}
    (different : other ≠ key)
    (value : Json)
    (fields : List (String × Json)) :
    fieldOf? key (insertField other value fields) = fieldOf? key fields := by
  induction fields with
  | nil => simp [insertField, different]
  | cons field rest inductionHypothesis =>
      obtain ⟨name, inner⟩ := field
      simp only [insertField]
      split
      · simp [different]
      · split
        · rename_i same
          simp [← same, different]
        · simp [inductionHypothesis]

/-- Of the fields with one key the last one is found behind sorting. -/
theorem fieldOf?_sortFields
    (key : String)
    (fields : List (String × Json)) :
    fieldOf? key (sortFields fields) = lastOf? key fields := by
  have sorted : ∀ (fields done : List (String × Json)),
      fieldOf? key (fields.foldl (fun sorted field => insertField field.1 field.2 sorted) done) =
        (lastOf? key fields).or (fieldOf? key done) := by
    intro fields
    induction fields with
    | nil => exact fun done => rfl
    | cons field rest inductionHypothesis =>
        intro done
        obtain ⟨name, value⟩ := field
        rw [List.foldl_cons, inductionHypothesis, lastOf?, Option.or_assoc]
        congr 1
        by_cases same : name = key
        · simp [same]
        · simp [same, fieldOf?_insertField_of_ne same]
  simpa [sortFields] using sorted fields []

theorem canonicalFields_eq_map (fields : List (String × Json)) :
    canonicalFields fields = fields.map fun field => (field.1, field.2.canonical) := by
  induction fields with
  | nil => rfl
  | cons field rest inductionHypothesis =>
      obtain ⟨key, value⟩ := field
      rw [canonicalFields, inductionHypothesis, List.map_cons]

/-! ## Values with zeros -/

mutual

/-- A value with zero for each of its numbers. -/
def zeroed : Json → Json
  | .null => .null
  | .bool value => .bool value
  | .int _ => .int 0
  | .float _ => .int 0
  | .str value => .str value
  | .arr items => .arr (zeroedItems items)
  | .obj fields => .obj (zeroedFields fields)

/-- The items with zeros. -/
def zeroedItems : List Json → List Json
  | [] => []
  | item :: rest => zeroed item :: zeroedItems rest

/-- The fields with zeros in their values. -/
def zeroedFields : List (String × Json) → List (String × Json)
  | [] => []
  | (key, value) :: rest => (key, zeroed value) :: zeroedFields rest

end

theorem zeroedItems_eq_map (items : List Json) : zeroedItems items = items.map zeroed := by
  induction items with
  | nil => rfl
  | cons item rest inductionHypothesis => rw [zeroedItems, inductionHypothesis, List.map_cons]

theorem zeroedFields_eq_map (fields : List (String × Json)) :
    zeroedFields fields = fields.map fun field => (field.1, field.2.zeroed) := by
  induction fields with
  | nil => rfl
  | cons field rest inductionHypothesis =>
      obtain ⟨key, value⟩ := field
      rw [zeroedFields, inductionHypothesis, List.map_cons]

theorem fieldOf?_map
    (key : String)
    (change : Json → Json)
    (fields : List (String × Json)) :
    fieldOf? key (fields.map fun field => (field.1, change field.2)) =
      (fieldOf? key fields).map change := by
  induction fields with
  | nil => rfl
  | cons field rest inductionHypothesis =>
      obtain ⟨name, value⟩ := field
      simp only [List.map_cons, fieldOf?_cons, inductionHypothesis]
      split <;> rfl

theorem sortFields_map
    (change : Json → Json)
    (fields : List (String × Json)) :
    sortFields (fields.map fun field => (field.1, change field.2)) =
      (sortFields fields).map fun field => (field.1, change field.2) := by
  have inserted : ∀ key value (fields : List (String × Json)),
      insertField key (change value) (fields.map fun field => (field.1, change field.2)) =
        (insertField key value fields).map fun field => (field.1, change field.2) := by
    intro key value fields
    induction fields with
    | nil => rfl
    | cons field rest inductionHypothesis =>
        simp only [List.map_cons, insertField, inductionHypothesis]
        split
        · rfl
        · split <;> rfl
  have sorted : ∀ (fields done : List (String × Json)),
      (fields.map fun field => (field.1, change field.2)).foldl
          (fun sorted field => insertField field.1 field.2 sorted)
          (done.map fun field => (field.1, change field.2)) =
        (fields.foldl (fun sorted field => insertField field.1 field.2 sorted) done).map
          fun field => (field.1, change field.2) := by
    intro fields
    induction fields with
    | nil => exact fun done => rfl
    | cons field rest inductionHypothesis =>
        intro done
        rw [List.map_cons, List.foldl_cons, List.foldl_cons, inserted, inductionHypothesis]
  exact sorted fields []

mutual

/-- Zeros do not depend on the order of fields. -/
theorem zeroed_canonical : ∀ json : Json, json.canonical.zeroed = json.zeroed.canonical
  | .null => rfl
  | .bool _ => rfl
  | .int _ => rfl
  | .float _ => rfl
  | .str _ => rfl
  | .arr items => by
      rw [canonical, zeroed, zeroed, canonical, zeroedItems_canonical items]
  | .obj fields => by
      rw [canonical, zeroed, zeroed, canonical, zeroedFields_eq_map, ← sortFields_map,
        ← zeroedFields_eq_map, zeroedFields_canonical fields]

theorem zeroedItems_canonical : ∀ items : List Json,
    zeroedItems (canonicalItems items) = canonicalItems (zeroedItems items)
  | [] => rfl
  | item :: rest => by
      rw [canonicalItems, zeroedItems, zeroedItems, canonicalItems, zeroed_canonical item,
        zeroedItems_canonical rest]

theorem zeroedFields_canonical : ∀ fields : List (String × Json),
    zeroedFields (canonicalFields fields) = canonicalFields (zeroedFields fields)
  | [] => rfl
  | (key, value) :: rest => by
      rw [canonicalFields, zeroedFields, zeroedFields, canonicalFields, zeroed_canonical value,
        zeroedFields_canonical rest]

end

theorem zeroed_eq_str_iff
    {json : Json}
    {text : String} :
    json.zeroed = .str text ↔ json = .str text := by
  cases json <;> simp [zeroed]

theorem zeroedFields_eq_singleton_iff
    {fields : List (String × Json)}
    {key : String}
    {zero : Json} :
    zeroedFields fields = [(key, zero)] ↔
      ∃ value, fields = [(key, value)] ∧ zero = value.zeroed := by
  match fields with
  | [] => simp [zeroedFields]
  | [(name, value)] => simp [zeroedFields, and_assoc, eq_comm]
  | _ :: (_, _) :: _ => simp [zeroedFields]

theorem fieldOf?_zeroedFields
    (key : String)
    (fields : List (String × Json)) :
    fieldOf? key (zeroedFields fields) = (fieldOf? key fields).map zeroed := by
  rw [zeroedFields_eq_map, fieldOf?_map]

/-! ## Written values with zeros -/

/-- The numeral of zero. -/
def Numeral.zero : Numeral := ⟨false, 0, none, none⟩

/-- A numeral that is read as a number. -/
def Numeral.IsReadable (numeral : Numeral) : Prop :=
  numeral.IsKept ∨ numeral.nearest?.isSome = true

theorem Numeral.isReadable_iff {numeral : Numeral} :
    numeral.IsReadable ↔ ∃ number, numeral.json? = some number := by
  unfold IsReadable json?
  by_cases kept : numeral.IsKept
  · simp [kept]
  · simp [kept, Option.isSome_iff_exists]

/-- A numeral is read as an integer or as a floating-point number. -/
theorem Numeral.int_or_float_of_json?
    {numeral : Numeral}
    {number : Json}
    (given : numeral.json? = some number) :
    (∃ value, number = .int value) ∨ ∃ value, number = .float value := by
  unfold json? at given
  split at given
  · exact .inl ⟨numeral.integer, (Option.some.inj given).symm⟩
  · obtain ⟨value, _, same⟩ := Option.map_eq_some_iff.mp given
    exact .inr ⟨value, same.symm⟩

namespace Written

mutual

/-- Every numeral of what is written, in order. -/
def numerals : Written → List Numeral
  | .null => []
  | .bool _ => []
  | .number numeral => [numeral]
  | .str _ => []
  | .arr items => numeralsOfItems items
  | .obj fields => numeralsOfFields fields

/-- Every numeral of items, in order. -/
def numeralsOfItems : List Written → List Numeral
  | [] => []
  | item :: rest => numerals item ++ numeralsOfItems rest

/-- Every numeral of fields, in order. -/
def numeralsOfFields : List (String × Written) → List Numeral
  | [] => []
  | (_, value) :: rest => numerals value ++ numeralsOfFields rest

end

mutual

/-- What is written, with zero in place of every numeral. -/
def zeroed : Written → Written
  | .null => .null
  | .bool value => .bool value
  | .number _ => .number .zero
  | .str value => .str value
  | .arr items => .arr (zeroedItems items)
  | .obj fields => .obj (zeroedFields fields)

/-- The items with zeros. -/
def zeroedItems : List Written → List Written
  | [] => []
  | item :: rest => zeroed item :: zeroedItems rest

/-- The fields with zeros in their values. -/
def zeroedFields : List (String × Written) → List (String × Written)
  | [] => []
  | (key, value) :: rest => (key, zeroed value) :: zeroedFields rest

end

mutual

/-- With zeros the value has zeros for its numbers. -/
theorem json?_zeroed : ∀ (written : Written) (room : Nat) {json : Json},
    written.json? room = some json → written.zeroed.json? room = some json.zeroed
  | .null, _, _, given => by cases given; rfl
  | .bool _, _, _, given => by cases given; rfl
  | .number numeral, _, _, given => by
      rw [json?] at given
      rcases Numeral.int_or_float_of_json? given with ⟨_, rfl⟩ | ⟨_, rfl⟩ <;> rfl
  | .str _, _, _, given => by cases given; rfl
  | .arr _, 0, _, given => by cases given
  | .arr items, room + 1, _, given => by
      obtain ⟨values, itemsGiven, rfl⟩ := Option.map_eq_some_iff.mp given
      rw [zeroed, json?, jsonOfItems?_zeroed items room itemsGiven]
      rfl
  | .obj _, 0, _, given => by cases given
  | .obj fields, room + 1, _, given => by
      obtain ⟨values, fieldsGiven, rfl⟩ := Option.map_eq_some_iff.mp given
      rw [zeroed, json?, jsonOfFields?_zeroed fields room fieldsGiven]
      rfl

theorem jsonOfItems?_zeroed : ∀ (items : List Written) (room : Nat) {values : List Json},
    jsonOfItems? room items = some values →
      jsonOfItems? room (zeroedItems items) = some (Json.zeroedItems values)
  | [], _, _, given => by cases given; rfl
  | item :: rest, room, _, given => by
      obtain ⟨value, itemGiven, given⟩ := Option.bind_eq_some_iff.mp given
      obtain ⟨values, restGiven, rfl⟩ := Option.map_eq_some_iff.mp given
      rw [zeroedItems, jsonOfItems?, json?_zeroed item room itemGiven,
        jsonOfItems?_zeroed rest room restGiven]
      rfl

theorem jsonOfFields?_zeroed : ∀ (fields : List (String × Written)) (room : Nat)
    {values : List (String × Json)},
    jsonOfFields? room fields = some values →
      jsonOfFields? room (zeroedFields fields) = some (Json.zeroedFields values)
  | [], _, _, given => by cases given; rfl
  | (key, inner) :: rest, room, _, given => by
      obtain ⟨value, innerGiven, given⟩ := Option.bind_eq_some_iff.mp given
      obtain ⟨values, restGiven, rfl⟩ := Option.map_eq_some_iff.mp given
      rw [zeroedFields, jsonOfFields?, json?_zeroed inner room innerGiven,
        jsonOfFields?_zeroed rest room restGiven]
      rfl

end

/-- Two values are both there when what is made of them is. -/
theorem isSome_bind_map_iff
    {First Rest Result : Type}
    {first : Option First}
    {others : Option Rest}
    {join : First → Rest → Result} :
    (first.bind fun value => others.map (join value)).isSome ↔
      first.isSome ∧ others.isSome := by
  cases first <;> simp

mutual

/-- What is written has a value if it has one with zeros and each numeral is readable. -/
theorem isSome_json?_iff : ∀ (written : Written) (room : Nat),
    (written.json? room).isSome ↔
      (written.zeroed.json? room).isSome ∧ ∀ numeral ∈ written.numerals, numeral.IsReadable
  | .null, _ => by simp [json?, zeroed, numerals]
  | .bool _, _ => by simp [json?, zeroed, numerals]
  | .number numeral, _ => by
      have zero : Numeral.zero.json?.isSome := rfl
      simp [json?, zeroed, numerals, zero, Numeral.isReadable_iff, Option.isSome_iff_exists]
  | .str _, _ => by simp [json?, zeroed, numerals]
  | .arr _, 0 => by simp [json?, zeroed]
  | .arr items, room + 1 => by
      simpa [json?, zeroed, numerals] using isSome_jsonOfItems?_iff items room
  | .obj _, 0 => by simp [json?, zeroed]
  | .obj fields, room + 1 => by
      simpa [json?, zeroed, numerals] using isSome_jsonOfFields?_iff fields room

theorem isSome_jsonOfItems?_iff : ∀ (items : List Written) (room : Nat),
    (jsonOfItems? room items).isSome ↔
      (jsonOfItems? room (zeroedItems items)).isSome ∧
        ∀ numeral ∈ numeralsOfItems items, numeral.IsReadable
  | [], _ => by simp [jsonOfItems?, zeroedItems, numeralsOfItems]
  | item :: rest, room => by
      rw [jsonOfItems?, zeroedItems, jsonOfItems?, isSome_bind_map_iff, isSome_bind_map_iff,
        isSome_json?_iff item room, isSome_jsonOfItems?_iff rest room, numeralsOfItems,
        List.forall_mem_append, and_and_and_comm]

theorem isSome_jsonOfFields?_iff : ∀ (fields : List (String × Written)) (room : Nat),
    (jsonOfFields? room fields).isSome ↔
      (jsonOfFields? room (zeroedFields fields)).isSome ∧
        ∀ numeral ∈ numeralsOfFields fields, numeral.IsReadable
  | [], _ => by simp [jsonOfFields?, zeroedFields, numeralsOfFields]
  | (key, inner) :: rest, room => by
      rw [jsonOfFields?, zeroedFields, jsonOfFields?, isSome_bind_map_iff,
        isSome_bind_map_iff, isSome_json?_iff inner room, isSome_jsonOfFields?_iff rest room,
        numeralsOfFields, List.forall_mem_append, and_and_and_comm]

end

end Written
end Json
end DomainSql
