import DomainSql.Proofs.SessionHistory

/-!
# Fields and the joins they walk

If no foreign key is known for the empty name and all given paths have named hops,
different paths have different keys. Then a field walks a chain of joins from the root
table, one for each of its hops, along the relations that its hops had when their keys
were entered, and two fields meet at a table exactly when their chains have the same
relations.
-/

namespace DomainSql
namespace Session

/-! ## Chains of joins -/

/-- The joins lead on from a table to another, each from the table that the one before
it has reached. -/
def Leads : Table → List Join → Table → Prop
  | first, [], last => first = last
  | first, join :: rest, last => join.left = first ∧ Leads join.right rest last

theorem leads_concat_iff
    {first last : Table}
    {joins : List Join}
    {join : Join} :
    Leads first (joins ++ [join]) last ↔
      Leads first joins join.left ∧ join.right = last := by
  induction joins generalizing first with
  | nil => simp [Leads, eq_comm]
  | cons head rest inductionHypothesis =>
      simp [Leads, inductionHypothesis, and_assoc]

theorem Leads.unique
    {first last other : Table}
    {joins : List Join}
    (leads : Leads first joins last)
    (otherLeads : Leads first joins other) :
    last = other := by
  induction joins generalizing first with
  | nil => exact leads.symm.trans otherLeads
  | cons head rest inductionHypothesis =>
      exact inductionHypothesis leads.2 otherLeads.2

section Chains

variable {session : Session}

/-- Two chains from one table are the same if their relations are. -/
theorem Coherent.eq_of_relations_eq
    (coherent : session.Coherent)
    {first leftLast rightLast : Table}
    {left right : List Join}
    (leftLeads : Leads first left leftLast)
    (rightLeads : Leads first right rightLast)
    (inLeft : ∀ join ∈ left, join ∈ session.joins)
    (inRight : ∀ join ∈ right, join ∈ session.joins)
    (same : left.map Join.relation = right.map Join.relation) :
    left = right := by
  induction left generalizing right first with
  | nil => simpa using same.symm
  | cons join rest inductionHypothesis =>
      match right with
      | [] => simp at same
      | other :: others =>
          simp only [List.map_cons, List.cons.injEq] at same
          have joinSame : join = other :=
            coherent.distinct join (inLeft join (by simp)) other
              (inRight other (by simp))
              (leftLeads.1.trans rightLeads.1.symm) same.1
          subst joinSame
          rw [inductionHypothesis leftLeads.2 rightLeads.2
            (fun other inRest => inLeft other (by simp [inRest]))
            (fun other inRest => inRight other (by simp [inRest])) same.2]

/-- Two chains from the root are the same if they end at one table. -/
theorem Coherent.eq_of_last_eq
    (coherent : session.Coherent)
    {last : Table}
    {left right : List Join}
    (leftLeads : Leads session.root left last)
    (rightLeads : Leads session.root right last)
    (inLeft : ∀ join ∈ left, join ∈ session.joins)
    (inRight : ∀ join ∈ right, join ∈ session.joins) :
    left = right := by
  induction left using List.reverseRecOn generalizing right last with
  | nil =>
      rcases List.eq_nil_or_concat right with rfl | ⟨front, join, rfl⟩
      · rfl
      · rw [List.concat_eq_append] at rightLeads inRight
        have same := (leads_concat_iff.mp rightLeads).2.trans leftLeads.symm
        exact absurd (congrArg Table.aliasName same)
          (coherent.alias_ne_root (inRight join (by simp)))
  | append_singleton rest join inductionHypothesis =>
      obtain ⟨leftRest, leftLast⟩ := leads_concat_iff.mp leftLeads
      rcases List.eq_nil_or_concat right with rfl | ⟨front, other, rfl⟩
      · have same := leftLast.trans rightLeads.symm
        exact absurd (congrArg Table.aliasName same)
          (coherent.alias_ne_root (inLeft join (by simp)))
      · rw [List.concat_eq_append] at rightLeads inRight ⊢
        obtain ⟨rightRest, rightLast⟩ := leads_concat_iff.mp rightLeads
        have joinSame : join = other :=
          coherent.eq_of_alias_eq (inLeft join (by simp))
            (inRight other (by simp)) (by rw [leftLast, rightLast])
        subst joinSame
        rw [inductionHypothesis leftRest rightRest
          (fun other inRest => inLeft other (by simp [inRest]))
          (fun other inFront => inRight other (by simp [inFront]))]

end Chains

/-! ## Hops with names -/

/-- No hop without a name has a relation: there is no foreign key for it, and no seed
for a key with an empty part. -/
structure NamesHops (session : Session) : Prop where
  foreignKeys : ∀ table, session.foreignKeys table "" = none
  seeds : ∀ key relation, session.seeds.lookup key = some relation →
    "" ∉ Text.split '.' key

section Named

variable {session : Session} {hops : List Hop} {joins : List Join} {table : Table}

/-- Operations give relations to hops with names only. -/
theorem NamesHops.run
    (namesHops : session.NamesHops)
    (coherent : session.Coherent)
    {operations : List Operation}
    (proper : ∀ operation ∈ operations, operation.Proper) :
    (session.run operations).NamesHops := by
  induction operations generalizing session with
  | nil => exact namesHops
  | cons operation rest inductionHypothesis =>
      simp only [List.mem_cons, forall_eq_or_imp] at proper
      obtain ⟨afterCoherent, resolves | ⟨hops, relation, named, _, seeded⟩⟩ :=
        coherent.after proper.1
      · refine inductionHypothesis ⟨?_, ?_⟩ afterCoherent proper.2
        · rw [resolves.foreignKeys]
          exact namesHops.foreignKeys
        · rw [resolves.seeds]
          exact namesHops.seeds
      · refine inductionHypothesis ⟨?_, ?_⟩ afterCoherent proper.2
        · rw [seeded]
          exact namesHops.foreignKeys
        · rw [seeded]
          intro key other known
          rw [List.lookup_cons] at known
          split at known
          · rename_i same
            rw [beq_iff_eq.mp same, split_keyOf named.1
              (fun hop inHops => (named.2 hop inHops).1)
              (fun hop inHops => (named.2 hop inHops).2)]
            intro inTexts
            obtain ⟨hop, inHops, empty⟩ := List.mem_map.mp inTexts
            exact Hop.text_ne_empty (named.2 hop inHops).2 empty
          · exact namesHops.seeds key other known

/-- A hop with a relation has a name. -/
theorem NamesHops.name_ne_empty
    (namesHops : session.NamesHops)
    {hop : Hop}
    (readable : hop.Readable)
    {key : String}
    {left : Table}
    {relation : Relation}
    (related : session.relationOf (Hop.extend key hop) left hop = .ok relation) :
    hop.name ≠ "" := by
  intro nameless
  have empty : hop.text = "" := by
    simp [Hop.text, readable.nameless_inner nameless, nameless]
  rw [relationOf] at related
  split at related
  · rename_i seed known
    have last := readable.getLast?_split_extend key
    rw [empty] at last
    exact namesHops.seeds _ seed known (List.mem_of_getLast? last)
  · rw [nameless, namesHops.foreignKeys] at related
    cases related

/-- The hops that the cache leads along have names. -/
theorem Walked.names
    (walked : session.Walked hops joins table)
    (coherent : session.Coherent)
    (namesHops : session.NamesHops) :
    ∀ hop ∈ hops, hop.name ≠ "" := by
  induction walked with
  | root => simp
  | @hop hops _ _ hop join _ readable cached inductionHypothesis =>
      intro other inHops
      rcases List.mem_append.mp inHops with inFront | isLast
      · exact inductionHypothesis other inFront
      · have related := coherent.relationOf_of_cached readable cached
        rw [List.mem_singleton.mp isLast]
        rw [keyOf_concat] at related
        exact namesHops.name_ne_empty readable related

/-- The join that the cache has for a path starts where the cache leads along the hops
before. -/
theorem Walked.left_eq
    (walked : session.Walked hops joins table)
    (coherent : session.Coherent)
    (namesHops : session.NamesHops)
    {hop : Hop}
    (readable : hop.Readable)
    {join : Join}
    (cached : session.cache.lookup (keyOf (hops ++ [hop])) = some join) :
    join.left = table := by
  obtain ⟨otherHops, _, otherHop, otherReadable, key_eq, otherWalked, related⟩ :=
    coherent.traced _ join cached
  have whole := Walked.hop walked readable cached
  have otherWhole := Walked.hop otherWalked otherReadable (key_eq ▸ cached)
  have same := keyOf_inj whole.readable otherWhole.readable
    (whole.names coherent namesHops) (otherWhole.names coherent namesHops) key_eq
  obtain ⟨rfl, _⟩ := List.append_inj' same rfl
  exact (otherWalked.unique walked).2

/-- The joins that the cache leads through are a chain from the root. -/
theorem Walked.leads
    (walked : session.Walked hops joins table)
    (coherent : session.Coherent)
    (namesHops : session.NamesHops) :
    Leads session.root joins table := by
  induction walked with
  | root => rfl
  | hop walked readable cached inductionHypothesis =>
      rw [leads_concat_iff, walked.left_eq coherent namesHops readable cached]
      exact ⟨inductionHypothesis, rfl⟩

theorem Walked.mem_joins
    (walked : session.Walked hops joins table)
    (coherent : session.Coherent) :
    ∀ join ∈ joins, join ∈ session.joins := by
  induction walked with
  | root => simp
  | hop _ _ cached inductionHypothesis =>
      intro other inJoins
      rcases List.mem_append.mp inJoins with inFront | isLast
      · exact inductionHypothesis other inFront
      · rw [List.mem_singleton.mp isLast]
        exact coherent.mem_joins _ _ cached

/-- Hops lead to one table exactly when their joins have the same relations. -/
theorem Walked.table_eq_iff
    (walked : session.Walked hops joins table)
    {otherHops : List Hop}
    {otherJoins : List Join}
    {otherTable : Table}
    (otherWalked : session.Walked otherHops otherJoins otherTable)
    (coherent : session.Coherent)
    (namesHops : session.NamesHops) :
    table = otherTable ↔
      joins.map Join.relation = otherJoins.map Join.relation := by
  have leads := walked.leads coherent namesHops
  have otherLeads := otherWalked.leads coherent namesHops
  constructor
  · rintro rfl
    rw [coherent.eq_of_last_eq leads otherLeads (walked.mem_joins coherent)
      (otherWalked.mem_joins coherent)]
  · intro same
    obtain rfl := coherent.eq_of_relations_eq leads otherLeads
      (walked.mem_joins coherent) (otherWalked.mem_joins coherent) same
    exact leads.unique otherLeads

theorem Walked.length_eq
    (walked : session.Walked hops joins table) :
    joins.length = hops.length := by
  induction walked with
  | root => rfl
  | hop _ _ _ inductionHypothesis => simp [inductionHypothesis]

end Named

/-! ## Walks of a history -/

/-- The joins are those of hops after operations: a chain from the root, whose joins
were entered by the operations under the keys of the hops. -/
structure Walk
    (session : Session)
    (operations : List Operation)
    (hops : List Hop)
    (joins : List Join)
    (last : Table) : Prop where
  length_eq : joins.length = hops.length
  mem_joins : ∀ join ∈ joins, join ∈ (session.run operations).joins
  leads : Leads session.root joins last
  enteredBy : ∀ place hop join, hops[place]? = some hop →
    joins[place]? = some join →
    session.EnteredBy operations (keyOf (hops.take (place + 1))) hop join

/-- What a resolved field says about its walk: its parts are the hops and the column,
and its table is the last one of the walk. -/
structure FieldWalk
    (session : Session)
    (operations : List Operation)
    (field : String)
    (resolved : ResolvedField)
    (hops : List Hop)
    (joins : List Join) : Prop
    extends Walk session operations hops joins resolved.column.table where
  parts : ∃ texts, Text.split '.' field = texts ++ [resolved.column.name] ∧
    Hop.ReadAs texts hops
  keys : resolved.joins = joins.map Join.key

section Histories

variable {table : String} {foreignKeys : ForeignKeys}
  {operations : List Operation} {hops : List Hop} {joins : List Join} {last : Table}

theorem Walked.enteredBy
    (walked : ((start table foreignKeys).run operations).Walked hops joins last)
    (proper : ∀ operation ∈ operations, operation.Proper)
    {place : Nat}
    {hop : Hop}
    {join : Join}
    (hopFound : hops[place]? = some hop)
    (joinFound : joins[place]? = some join) :
    (start table foreignKeys).EnteredBy operations
      (keyOf (hops.take (place + 1))) hop join := by
  induction walked with
  | root => simp at hopFound
  | @hop front frontJoins _ final finalJoin walked readable cached
      inductionHypothesis =>
      have length_eq := walked.length_eq
      by_cases inFront : place < front.length
      · rw [List.getElem?_append_left inFront] at hopFound
        rw [List.getElem?_append_left (by omega)] at joinFound
        rw [List.take_append_of_le_length (by omega)]
        exact inductionHypothesis hopFound joinFound
      · rw [List.getElem?_append_right (by omega)] at hopFound joinFound
        have place_eq : place - front.length = 0 := by
          by_contra beyond
          simp [beyond] at hopFound
        rw [place_eq] at hopFound
        rw [length_eq, place_eq] at joinFound
        obtain rfl : final = hop := by simpa using hopFound
        obtain rfl : finalJoin = join := by simpa using joinFound
        rw [List.take_of_length_le (by simp; omega)]
        exact (coherent_start table foreignKeys).enteredBy proper readable rfl
          cached

/-- What the cache leads along after operations is a walk of these operations. -/
theorem Walked.walk
    (walked : ((start table foreignKeys).run operations).Walked hops joins last)
    (noRelation : ∀ name, foreignKeys name "" = none)
    (proper : ∀ operation ∈ operations, operation.Proper) :
    Walk (start table foreignKeys) operations hops joins last := by
  obtain ⟨coherent, grows⟩ := (coherent_start table foreignKeys).run proper
  have namesHops : ((start table foreignKeys).run operations).NamesHops :=
    NamesHops.run ⟨noRelation, by simp [start]⟩ (coherent_start _ _) proper
  refine ⟨walked.length_eq, walked.mem_joins coherent, ?_,
    fun _ _ _ => walked.enteredBy proper⟩
  rw [← grows.root]
  exact walked.leads coherent namesHops

theorem grows_run_append
    {later : List Operation}
    (proper : ∀ operation ∈ operations ++ later, operation.Proper) :
    ((start table foreignKeys).run operations).Grows
      ((start table foreignKeys).run (operations ++ later)) := by
  rw [run_append]
  obtain ⟨coherent, _⟩ := (coherent_start table foreignKeys).run
    fun operation inFront => proper operation (List.mem_append_left _ inFront)
  exact (coherent.run fun operation inLater =>
    proper operation (List.mem_append_right _ inLater)).2

/-- A field that is resolved after operations walks joins. -/
theorem exists_fieldWalk
    (noRelation : ∀ name, foreignKeys name "" = none)
    (proper : ∀ operation ∈ operations, operation.Proper)
    {field : String}
    {resolved : ResolvedField}
    (answered :
      (outcome (resolveField field) ((start table foreignKeys).run operations)).1 =
        .ok resolved) :
    ∃ hops joins,
      FieldWalk (start table foreignKeys) (operations ++ [.field field]) field
        resolved hops joins ∧
      ((start table foreignKeys).run (operations ++ [.field field])).Walked
        hops joins resolved.column.table := by
  obtain ⟨coherent, _⟩ := (coherent_start table foreignKeys).run proper
  obtain ⟨_, _, leads⟩ := coherent.resolveField (Prod.eta
    (outcome (resolveField field) ((start table foreignKeys).run operations))).symm
  obtain ⟨texts, hops, joins, parts, read, walked, keys⟩ := leads resolved answered
  have runWalked : ((start table foreignKeys).run
      (operations ++ [.field field])).Walked hops joins resolved.column.table := by
    rw [run_append]
    exact walked
  have walk := runWalked.walk noRelation (by
    simpa [Operation.Proper, or_imp, forall_and] using proper)
  exact ⟨hops, joins, ⟨walk, ⟨texts, parts, read⟩, keys⟩, runWalked⟩

/-- The path of a walk has led to its last join. -/
theorem Walked.join?_eq
    {session : Session}
    (walked : session.Walked hops joins last)
    (coherent : session.Coherent)
    (namesHops : session.NamesHops)
    {path : String}
    (read : canonicalKey path = .ok (keyOf hops)) :
    session.join? path = joins.getLast? := by
  rw [join?, read]
  cases walked with
  | root =>
      cases cached : session.cache.lookup (keyOf []) with
      | none => exact cached
      | some join =>
          obtain ⟨front, _, hop, readable, key_eq, _, related⟩ :=
            coherent.traced _ join cached
          rw [keyOf_nil, keyOf_concat] at key_eq
          rw [keyOf_nil, key_eq] at related
          exact absurd key_eq.symm
            (Hop.extend_ne_empty (namesHops.name_ne_empty readable related) _)
  | hop _ _ cached =>
      rw [List.getLast?_concat]
      exact cached

/-- What a path has led to is the last join of a walk. -/
theorem exists_walk_of_join?_eq
    (noRelation : ∀ name, foreignKeys name "" = none)
    (proper : ∀ operation ∈ operations, operation.Proper)
    {path : String}
    {join : Join}
    (found : ((start table foreignKeys).run operations).join? path = some join) :
    ∃ hops joins, canonicalKey path = .ok (keyOf hops) ∧
      Walk (start table foreignKeys) operations hops (joins ++ [join])
        join.right := by
  obtain ⟨coherent, _⟩ := (coherent_start table foreignKeys).run proper
  rw [join?] at found
  split at found
  · rename_i key read
    obtain ⟨hops, joins, hop, readable, rfl, walked, _⟩ :=
      coherent.traced key join found
    exact ⟨hops ++ [hop], joins, read,
      (Walked.hop walked readable found).walk noRelation proper⟩
  · cases found

/-- A resolved field walks one join for each of its hops, from the root on, along the
relations that its hops had when their keys were entered. Two fields that are resolved
in one history have one table exactly when their walks have the same relations. A path
that has been walked has led to the last join of its walk, and a path has led to no
other joins. -/
theorem resolveField_walks_and_shares_joins
    (noRelation : ∀ name, foreignKeys name "" = none)
    {later : List Operation}
    (proper : ∀ operation ∈ operations ++ later, operation.Proper)
    {field other : String}
    {resolved otherResolved : ResolvedField}
    (answered :
      (outcome (resolveField field) ((start table foreignKeys).run operations)).1 =
        .ok resolved)
    (otherAnswered :
      (outcome (resolveField other) ((start table foreignKeys).run
        (operations ++ .field field :: later))).1 = .ok otherResolved) :
    ∃ hops joins otherHops otherJoins,
      FieldWalk (start table foreignKeys) (operations ++ [.field field]) field
        resolved hops joins ∧
      FieldWalk (start table foreignKeys)
        (operations ++ .field field :: later ++ [.field other]) other
        otherResolved otherHops otherJoins ∧
      (resolved.column.table = otherResolved.column.table ↔
        joins.map Join.relation = otherJoins.map Join.relation) ∧
      (∀ path, canonicalKey path = .ok (keyOf hops) →
        ((start table foreignKeys).run
          (operations ++ .field field :: later)).join? path = joins.getLast?) ∧
      ∀ path join,
        ((start table foreignKeys).run
          (operations ++ .field field :: later)).join? path = some join →
        ∃ pathHops pathJoins, canonicalKey path = .ok (keyOf pathHops) ∧
          Walk (start table foreignKeys) (operations ++ .field field :: later)
            pathHops (pathJoins ++ [join]) join.right := by
  simp only [List.mem_append, or_imp, forall_and] at proper
  obtain ⟨properFront, properLater⟩ := proper
  have properWhole : ∀ operation ∈ operations ++ .field field :: later,
      operation.Proper := by
    simpa [Operation.Proper, or_imp, forall_and] using ⟨properFront, properLater⟩
  have properAll : ∀ operation ∈ operations ++ .field field :: later ++
      [.field other], operation.Proper := by
    simpa [Operation.Proper, or_imp, forall_and] using ⟨properFront, properLater⟩
  obtain ⟨hops, joins, walk, walked⟩ :=
    exists_fieldWalk noRelation properFront answered
  obtain ⟨otherHops, otherJoins, otherWalk, otherWalked⟩ :=
    exists_fieldWalk noRelation properWhole otherAnswered
  have startCoherent := coherent_start table foreignKeys
  have startNames : (start table foreignKeys).NamesHops :=
    ⟨noRelation, by simp [start]⟩
  -- The walk of the first field is still there when the other field is resolved.
  have laterWalked : ((start table foreignKeys).run
      (operations ++ .field field :: later)).Walked hops joins
        resolved.column.table := by
    rw [List.append_cons] at properWhole ⊢
    exact walked.grows (grows_run_append properWhole)
  have lastWalked := laterWalked.grows (grows_run_append properAll)
  refine ⟨hops, joins, otherHops, otherJoins, walk, otherWalk, ?_, ?_, ?_⟩
  · exact lastWalked.table_eq_iff otherWalked (startCoherent.run properAll).1
      (startNames.run startCoherent properAll)
  · exact fun path read => laterWalked.join?_eq
      (startCoherent.run properWhole).1 (startNames.run startCoherent properWhole)
      read
  · exact fun path join found =>
      exists_walk_of_join?_eq noRelation properWhole found

end Histories

/-- Two spellings of one path, with a seed for another path given before and the other
path walked in between. -/
theorem resolveField_shares_spellings :
    let foreignKeys : ForeignKeys := fun table field =>
      if table = "orders" ∧ field = "partner" then
        some ⟨"partners", "partner_id", "id"⟩
      else none
    let operations : List Operation :=
      [.seed "shop" ⟨"shops", .left, "shop_id", "id"⟩]
    let later : List Operation := [.hops ["shop"]]
    ∃ resolved otherResolved,
      (outcome (resolveField "partner.name")
        ((start "orders" foreignKeys).run operations)).1 = .ok resolved ∧
      (outcome (resolveField "partner(I).email")
        ((start "orders" foreignKeys).run
          (operations ++ .field "partner.name" :: later))).1 = .ok otherResolved ∧
      ∃ hops joins otherHops otherJoins,
        FieldWalk (start "orders" foreignKeys)
          (operations ++ [.field "partner.name"]) "partner.name" resolved hops
          joins ∧
        FieldWalk (start "orders" foreignKeys)
          (operations ++ .field "partner.name" :: later
            ++ [.field "partner(I).email"]) "partner(I).email" otherResolved
          otherHops otherJoins ∧
        joins.map Join.relation = otherJoins.map Join.relation := by
  intro foreignKeys operations later
  have noRelation : ∀ name, foreignKeys name "" = none := by
    simp [foreignKeys]
  have proper : ∀ operation ∈ operations ++ later, operation.Proper := by
    have parts : Text.split '.' "shop" = ["shop"] := by decide +kernel
    have read : Hop.read "shop" = .ok ⟨"shop", .inner⟩ := by rfl
    simp only [operations, later, List.cons_append, List.nil_append, List.mem_cons,
      forall_eq_or_imp, Operation.Proper, parts]
    refine ⟨?_, by decide +kernel, by simp⟩
    intro hops hopsRead hop inHops
    rw [Hop.ReadAs, List.map_singleton, read] at hopsRead
    rcases hops with _ | ⟨single, _ | ⟨_, _⟩⟩
    · simp at hopsRead
    · obtain rfl : hop = single := List.mem_singleton.mp inHops
      rw [List.map_singleton, List.singleton_inj, Except.ok.injEq] at hopsRead
      simp [← hopsRead]
    · simp at hopsRead
  have answered : (outcome (resolveField "partner.name")
      ((start "orders" foreignKeys).run operations)).1 =
        .ok ⟨⟨⟨"partners", "t1"⟩, "name"⟩, ["partner"]⟩ :=
    eq_ok_of_toOption_eq_some (by decide +kernel)
  have otherAnswered : (outcome (resolveField "partner(I).email")
      ((start "orders" foreignKeys).run
        (operations ++ .field "partner.name" :: later))).1 =
        .ok ⟨⟨⟨"partners", "t1"⟩, "email"⟩, ["partner"]⟩ :=
    eq_ok_of_toOption_eq_some (by decide +kernel)
  obtain ⟨hops, joins, otherHops, otherJoins, walk, otherWalk, same, _⟩ :=
    resolveField_walks_and_shares_joins noRelation proper answered otherAnswered
  exact ⟨_, _, answered, otherAnswered, hops, joins, otherHops, otherJoins, walk,
    otherWalk, same.mp rfl⟩

end Session
end DomainSql
