import DomainSql.Proofs.DomainEncoding
import DomainSql.Proofs.SortedFields

/-!
# What decoding a domain drops

Encoding gives back every value that a domain was decoded from, with two liberties: the
name of a function is in lower case, and a call without arguments has an empty list of
them. But of the object of a call the decoder looks at two keys only, while it refuses
every reference and every wrapped literal with a second key. All other fields of a call
are dropped, and nothing else ever is.
-/

namespace DomainSql
namespace Json

/-! ## Calls -/

/-- The two keys that a call is decoded from. -/
def isCallKey (key : String) : Bool :=
  key == "args" || key == "function"

/-- The fields that a call is decoded from. -/
def callFields (fields : List (String × Json)) : List (String × Json) :=
  fields.filter fun field => isCallKey field.1

/-- The fields of a call with the name of its function in lower case. -/
def withLoweredName (fields : List (String × Json)) : List (String × Json) :=
  match fieldOf? "function" fields with
  | some (.str name) => insertField "function" (.str (FunctionName.lowered name)) fields
  | _ => fields

/-- The fields of a call with an empty list of arguments if there was none. -/
def withArguments (fields : List (String × Json)) : List (String × Json) :=
  match fieldOf? "args" fields with
  | some _ => fields
  | none => insertField "args" (.arr []) fields

/-- The fields of a call with both liberties that encoding takes. -/
def spelledOut (fields : List (String × Json)) : List (String × Json) :=
  withArguments (withLoweredName fields)

/-- Change the fields of an operand that is a call. -/
def mapCall (change : List (String × Json) → List (String × Json)) : Json → Json
  | .obj fields =>
      if (fieldOf? "function" fields).isSome then .obj (change fields) else .obj fields
  | other => other

/-- Change the fields of the call in an item of a domain. -/
def mapItemCall (change : List (String × Json) → List (String × Json)) : Json → Json
  | .arr [field, operator, operand] => .arr [field, operator, operand.mapCall change]
  | other => other

/-- Change the fields of every call in a domain. -/
def mapDomainCalls (change : List (String × Json) → List (String × Json)) : Json → Json
  | .arr items => .arr (items.map (mapItemCall change))
  | other => other

/-- The fields of an operand that is a call. -/
def operandCalls : Json → List (List (String × Json))
  | .obj fields => if (fieldOf? "function" fields).isSome then [fields] else []
  | _ => []

/-- The fields of the call in an item of a domain. -/
def itemCalls : Json → List (List (String × Json))
  | .arr [_, _, operand] => operand.operandCalls
  | _ => []

/-- The fields of every call in a domain. -/
def domainCalls : Json → List (List (String × Json))
  | .arr items => items.flatMap itemCalls
  | _ => []

theorem KeysAscend.spelledOut
    {fields : List (String × Json)}
    (ascend : KeysAscend fields) :
    KeysAscend (spelledOut fields) := by
  have named : KeysAscend (withLoweredName fields) := by
    unfold withLoweredName
    split
    · exact ascend.insertField _ _
    · exact ascend
  rw [Json.spelledOut, withArguments]
  split
  · exact named
  · exact named.insertField _ _

/-- Spelling out a call changes nothing under any other key. -/
theorem fieldOf?_spelledOut_of_not_isCallKey
    {key : String}
    (notCall : isCallKey key = false)
    (fields : List (String × Json)) :
    fieldOf? key (spelledOut fields) = fieldOf? key fields := by
  obtain ⟨notArguments, notFunction⟩ : key ≠ "args" ∧ key ≠ "function" := by
    simpa [isCallKey] using notCall
  have named : fieldOf? key (withLoweredName fields) = fieldOf? key fields := by
    unfold withLoweredName
    split
    · exact fieldOf?_insertField_of_ne notFunction.symm _ _
    · rfl
  rw [spelledOut, withArguments]
  split
  · exact named
  · rw [fieldOf?_insertField_of_ne notArguments.symm, named]

theorem fieldOf?_spelledOut
    {fields : List (String × Json)}
    {name : String}
    (named : fieldOf? "function" fields = some (.str name)) :
    fieldOf? "function" (spelledOut fields) = some (.str (FunctionName.lowered name)) ∧
      fieldOf? "args" (spelledOut fields) =
        some ((fieldOf? "args" fields).getD (.arr [])) := by
  have lowered : withLoweredName fields =
      insertField "function" (.str (FunctionName.lowered name)) fields := by
    rw [withLoweredName, named]
  have arguments : fieldOf? "args" (withLoweredName fields) = fieldOf? "args" fields := by
    rw [lowered, fieldOf?_insertField_of_ne (by decide)]
  have function : fieldOf? "function" (withLoweredName fields) =
      some (.str (FunctionName.lowered name)) := by
    rw [lowered, fieldOf?_insertField]
  rw [spelledOut, withArguments, arguments]
  cases found : fieldOf? "args" fields with
  | none =>
      exact ⟨by simp only [fieldOf?_insertField_of_ne (by decide : "args" ≠ "function"),
        function], fieldOf?_insertField _ _ _⟩
  | some value => exact ⟨function, arguments.trans found⟩

/-- Every field of a call is one that it is decoded from, exactly when that holds of the
call as it is spelled out. -/
theorem callFields_spelledOut_iff (fields : List (String × Json)) :
    callFields (spelledOut fields) = spelledOut fields ↔
      ∀ field ∈ fields, isCallKey field.1 = true := by
  have keys : ∀ fields : List (String × Json),
      (∀ field ∈ fields, isCallKey field.1 = true) ↔
        ∀ key, isCallKey key = false → fieldOf? key fields = none := by
    intro fields
    simp only [fieldOf?_eq_none_iff]
    constructor
    · rintro all key notCall field inFields rfl
      exact Bool.noConfusion (notCall.symm.trans (all field inFields))
    · intro none field inFields
      by_contra notCall
      exact none field.1 (by simpa using notCall) field inFields rfl
  rw [callFields, List.filter_eq_self, keys, keys]
  exact forall₂_congr fun key notCall => by
    rw [fieldOf?_spelledOut_of_not_isCallKey notCall]

theorem mapCall_eq_iff
    {change other : List (String × Json) → List (String × Json)}
    {json : Json} :
    json.mapCall change = json.mapCall other ↔
      ∀ call ∈ json.operandCalls, change call = other call := by
  cases json with
  | obj fields =>
      rw [mapCall, mapCall, operandCalls]
      split <;> simp
  | _ => simp [mapCall, operandCalls]

theorem mapItemCall_eq_iff
    {change other : List (String × Json) → List (String × Json)}
    {json : Json} :
    json.mapItemCall change = json.mapItemCall other ↔
      ∀ call ∈ json.itemCalls, change call = other call := by
  unfold mapItemCall itemCalls
  split
  · simp [mapCall_eq_iff]
  · simp

theorem mapDomainCalls_eq_iff
    {change other : List (String × Json) → List (String × Json)}
    {json : Json} :
    json.mapDomainCalls change = json.mapDomainCalls other ↔
      ∀ call ∈ json.domainCalls, change call = other call := by
  cases json with
  | arr items =>
      rw [mapDomainCalls, mapDomainCalls, domainCalls, List.forall_mem_flatMap]
      simp [mapItemCall_eq_iff]
  | _ => simp [mapDomainCalls, domainCalls]

end Json

/-! ## Encoding what was decoded -/

theorem Literal.toInt_ofInt
    {value : Int}
    (isFit : fits value) :
    (Int64.ofInt value).toInt = value :=
  Int64.toInt_ofInt_of_le isFit.1 (Int.lt_add_one_of_le isFit.2)

mutual

theorem Literal.toJson_of_ofJson : ∀ (json : Json) {literal : Literal},
    ofJson json = .ok literal → (∀ number ∈ literal.numbers, number.IsFinite) →
      literal.toJson = json
  | .null, _, decoded, _ => by cases decoded; rfl
  | .bool _, _, decoded, _ => by cases decoded; rfl
  | .int value, _, decoded, _ => by
      rw [ofJson] at decoded
      split at decoded
      · rename_i isFit
        cases decoded
        rw [toJson, toInt_ofInt isFit]
      · cases decoded
  | .float value, _, decoded, finite => by
      cases decoded
      have isFinite : value.isFinite = true := by simpa [numbers, IsFinite] using finite
      rw [toJson, if_pos isFinite]
  | .str _, _, decoded, _ => by cases decoded; rfl
  | .arr items, _, decoded, finite => by
      obtain ⟨literals, itemsDecoded, decoded⟩ := bind_eq_ok_iff.mp decoded
      cases decoded
      rw [toJson, toJsonItems_of_ofJsonItems items itemsDecoded finite]
  | .obj _, _, decoded, _ => by cases decoded

theorem Literal.toJsonItems_of_ofJsonItems : ∀ (items : List Json) {literals : List Literal},
    ofJsonItems items = .ok literals → (∀ number ∈ numbersOf literals, number.IsFinite) →
      toJsonItems literals = items
  | [], _, decoded, _ => by cases decoded; rfl
  | item :: rest, _, decoded, finite => by
      obtain ⟨first, firstDecoded, decoded⟩ := bind_eq_ok_iff.mp decoded
      obtain ⟨others, restDecoded, decoded⟩ := bind_eq_ok_iff.mp decoded
      cases decoded
      rw [numbersOf, List.forall_mem_append] at finite
      rw [toJsonItems, toJson_of_ofJson item firstDecoded finite.1,
        toJsonItems_of_ofJsonItems rest restDecoded finite.2]

end

theorem Argument.toJson_of_ofJson
    {json : Json}
    {argument : Argument}
    (decoded : ofJson json = .ok argument)
    (finite : ∀ number ∈ argument.numbers, number.IsFinite) :
    argument.toJson = json := by
  unfold ofJson at decoded
  split at decoded
  · cases decoded
    rfl
  · obtain ⟨value, valueDecoded, decoded⟩ := bind_eq_ok_iff.mp decoded
    cases decoded
    rw [toJson, Literal.toJson_of_ofJson _ valueDecoded finite]
  · cases decoded

/-- Where each entry is encoded as what its code is changed to, the entries together are
encoded as what the codes are. -/
theorem map_eq_map_of_mapM_eq_ok
    {Failure Entry Code : Type}
    {encode : Entry → Code}
    {change : Code → Code}
    {decode : Code → Except Failure Entry}
    {codes : List Code}
    {entries : List Entry}
    (decoded : codes.mapM decode = .ok entries)
    (encoded : ∀ code ∈ codes, ∀ entry ∈ entries,
      decode code = .ok entry → encode entry = change code) :
    entries.map encode = codes.map change := by
  have each := mapM_eq_ok_iff.mp decoded
  clear decoded
  induction each with
  | nil => rfl
  | cons first _ inductionHypothesis =>
      rw [List.map_cons, List.map_cons,
        encoded _ List.mem_cons_self _ List.mem_cons_self first,
        inductionHypothesis fun code inCodes entry inEntries =>
          encoded code (List.mem_cons_of_mem _ inCodes) entry
            (List.mem_cons_of_mem _ inEntries)]

theorem FunctionName.text_of_ofText?
    {name : String}
    {function : FunctionName}
    (found : ofText? name = some function) :
    function.text = lowered name := by
  simpa using List.find?_some found

/-- The encoding of a call has the fields that the call was decoded from, spelled out. -/
theorem FunctionCall.toJson_of_ofFields
    {fields : List (String × Json)}
    {call : FunctionCall}
    (ascend : Json.KeysAscend fields)
    (decoded : ofFields fields = .ok call)
    (finite : ∀ argument ∈ call.arguments, ∀ number ∈ argument.numbers, number.IsFinite) :
    call.toJson .sorted = .obj (Json.callFields (Json.spelledOut fields)) := by
  obtain ⟨name, named, known, arguments⟩ := ofFields_eq_ok_iff.mp decoded
  obtain ⟨function, args⟩ := Json.fieldOf?_spelledOut named
  have values : (Json.fieldOf? "args" fields).getD (.arr []) =
      .arr (call.arguments.map Argument.toJson) := by
    rcases arguments with ⟨none, empty⟩ | ⟨values, found, valuesDecoded⟩
    · rw [none, empty]
      rfl
    · have encoded : call.arguments.map Argument.toJson = values.map id :=
        map_eq_map_of_mapM_eq_ok valuesDecoded fun _ _ argument inArguments decoded =>
          Argument.toJson_of_ofJson decoded (finite argument inArguments)
      rw [found, encoded, List.map_id]
      rfl
  rw [toJson, Json.callFields]
  congr 1
  refine Json.KeysAscend.ext ?_ (ascend.spelledOut.filter _) fun key => ?_
  · exact List.pairwise_pair.mpr (by decide : "args" < "function")
  · rw [Json.fieldOf?_filter]
    by_cases isArguments : key = "args"
    · subst isArguments
      rw [args, values]
      rfl
    · by_cases isFunction : key = "function"
      · subst isFunction
        rw [function, ← FunctionName.text_of_ofText? known]
        rfl
      · have notCall : Json.isCallKey key = false := by
          simp [Json.isCallKey, isArguments, isFunction]
        simp [notCall, Ne.symm isArguments, Ne.symm isFunction]

theorem Json.keysAscend_of_canonical
    {fields : List (String × Json)}
    (canonical : (obj fields).canonical = obj fields) :
    KeysAscend fields := by
  rw [Json.canonical, Json.obj.injEq] at canonical
  exact canonical ▸ keysAscend_sortFields _

theorem Json.canonical_of_mem
    {items : List Json}
    (canonical : canonicalItems items = items) :
    ∀ item ∈ items, item.canonical = item := by
  induction items with
  | nil => simp
  | cons item rest inductionHypothesis =>
      rw [canonicalItems, List.cons.injEq] at canonical
      exact List.forall_mem_cons.mpr ⟨canonical.1, inductionHypothesis canonical.2⟩

/-- The encoding of an operand is the value that it was decoded from, but for calls. -/
theorem Operand.toJson_of_ofJson
    {json : Json}
    {operand : Operand}
    (canonical : json.canonical = json)
    (decoded : ofJson json = .ok operand)
    (finite : ∀ number ∈ operand.numbers, number.IsFinite) :
    operand.toJson .sorted =
      json.mapCall fun fields => Json.callFields (Json.spelledOut fields) := by
  cases json with
  | obj fields =>
      rcases ofJson_obj_eq_ok_iff.mp decoded with
        ⟨path, rfl, rfl⟩ | ⟨_, call, callDecoded, rfl⟩
      · rfl
      · obtain ⟨name, named, _⟩ := FunctionCall.ofFields_eq_ok_iff.mp callDecoded
        rw [numbers, List.forall_mem_flatMap] at finite
        rw [toJson, Json.mapCall, named, Option.isSome_some, if_pos rfl]
        exact FunctionCall.toJson_of_ofFields (Json.keysAscend_of_canonical canonical)
          callDecoded finite
  | _ =>
      obtain ⟨literal, literalDecoded, decoded⟩ := bind_eq_ok_iff.mp decoded
      cases decoded
      exact Literal.toJson_of_ofJson _ literalDecoded finite

theorem Item.toJson_of_ofJson
    {json : Json}
    {item : Item}
    (canonical : json.canonical = json)
    (decoded : ofJson json = .ok item)
    (finite : ∀ number ∈ item.numbers, number.IsFinite) :
    item.toJson .sorted =
      json.mapItemCall fun fields => Json.callFields (Json.spelledOut fields) := by
  unfold ofJson at decoded
  split at decoded
  · cases decoded
    rfl
  · obtain ⟨condition, conditionDecoded, decoded⟩ := bind_eq_ok_iff.mp decoded
    cases decoded
    obtain ⟨operand, rfl, operandDecoded⟩ := Condition.ofElements_eq_ok_iff.mp conditionDecoded
    have operandCanonical : operand.canonical = operand := by
      simpa [Json.canonical, Json.canonicalItems] using canonical
    rw [toJson, Condition.toJson, Json.mapItemCall,
      Operand.toJson_of_ofJson operandCanonical operandDecoded finite]
  · cases decoded

/-- Numbers that are decoded from finite ones are finite. -/
theorem Domain.isFinite_of_ofJson
    {json : Json}
    {domain : Domain}
    (decoded : ofJson json = .ok domain)
    (finite : ∀ value, .float value ∈ json.domainNumbers → value.isFinite = true) :
    ∀ number ∈ domain.numbers, number.IsFinite := by
  intro literal inNumbers
  obtain ⟨number, inJson, numberDecoded⟩ :=
    exists_related_of_mem (numbers_of_ofJson decoded).flip inNumbers
  cases literal with
  | float value =>
      refine finite value ?_
      cases number with
      | float other =>
          cases numberDecoded
          exact inJson
      | int other =>
          have intDecoded : Literal.ofJson (.int other) = .ok (.float value) := numberDecoded
          rw [Literal.ofJson] at intDecoded
          split at intDecoded <;> cases intDecoded
      | arr items =>
          obtain ⟨_, _, decoded⟩ := bind_eq_ok_iff.mp numberDecoded
          cases decoded
      | _ => cases numberDecoded
  | _ => trivial

namespace Domain

/-- The encoding of a decoded domain is the value that it was decoded from, up to the
case of function names and empty lists of arguments, less the fields of calls that have
other keys. So it is that value, up to the two liberties, exactly when no call has
another key. -/
theorem decoding_drops_only_other_fields_of_calls
    {json : Json}
    {domain : Domain}
    (canonical : json.canonical = json)
    (finite : ∀ value, .float value ∈ json.domainNumbers → value.isFinite = true)
    (decoded : ofJson json = .ok domain) :
    (domain.toJson .sorted =
      json.mapDomainCalls fun fields => Json.callFields (Json.spelledOut fields)) ∧
    (domain.toJson .sorted = json.mapDomainCalls Json.spelledOut ↔
      ∀ call ∈ json.domainCalls, ∀ field ∈ call, field.1 = "args" ∨ field.1 = "function") := by
  have encoded : domain.toJson .sorted =
      json.mapDomainCalls fun fields => Json.callFields (Json.spelledOut fields) := by
    have finiteDomain := isFinite_of_ofJson decoded finite
    cases json with
    | arr items =>
        have itemCanonical := Json.canonical_of_mem (Json.arr.inj canonical)
        rw [numbers, List.forall_mem_flatMap] at finiteDomain
        rw [toJson, Json.mapDomainCalls, map_eq_map_of_mapM_eq_ok decoded
          fun value inItems item inDomain itemDecoded =>
            Item.toJson_of_ofJson (itemCanonical value inItems) itemDecoded
              (finiteDomain item inDomain)]
    | _ => cases decoded
  refine ⟨encoded, ?_⟩
  rw [encoded, Json.mapDomainCalls_eq_iff]
  simp [Json.callFields_spelledOut_iff, Json.isCallKey]

/-- A count of rows is decoded from the count of a field whose arguments stand under a
misspelled key, and encoded without them. -/
theorem misspelled_arguments_are_dropped :
    let json : Json := .arr [.arr [.str "a", .str "=",
      .obj [("arg", .arr [.str "b"]), ("function", .str "COUNT")]]]
    let domain : Domain := [.condition ⟨"a", "=", .call ⟨.count, []⟩⟩]
    json.canonical = json ∧
    (∀ value, .float value ∈ json.domainNumbers → value.isFinite = true) ∧
    ofJson json = .ok domain ∧
    domain.toJson .sorted = .arr [.arr [.str "a", .str "=",
      .obj [("args", .arr []), ("function", .str "count")]]] ∧
    domain.toJson .sorted ≠ json.mapDomainCalls Json.spelledOut := by
  intro json domain
  have canonical : json.canonical = json := by rfl
  have finite : ∀ value, .float value ∈ json.domainNumbers → value.isFinite = true :=
    fun value inNumbers => nomatch inNumbers
  have decoded : ofJson json = .ok domain := by rfl
  obtain ⟨_, kept_iff⟩ := decoding_drops_only_other_fields_of_calls canonical finite decoded
  refine ⟨canonical, finite, decoded, rfl, fun kept => ?_⟩
  have keys := kept_iff.mp kept _ List.mem_cons_self _ List.mem_cons_self
  simp at keys

end Domain

end DomainSql
