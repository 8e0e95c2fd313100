import DomainSql.Proofs.PathResolution

/-!
# Sessions that cannot be told apart

Two sessions are interchangeable when no sequence of fields tells them apart. Then no
operation that only resolves fields does. If no foreign key is known for the empty
name, sessions without seeds on one root table are interchangeable exactly when they
have the same joins, up to the keys of the joins: what their caches have besides is
found again.
-/

namespace DomainSql

namespace Join

/-- A join without the key of the path that first needed it. -/
def unkeyed (join : Join) : Join := { join with key := "" }

end Join

namespace Session

/-- Whatever fields are resolved, the sessions have the same joins afterwards, up to
their keys, and a field stands for one column in both or fails in one way. -/
def Interchangeable (session other : Session) : Prop :=
  ∀ fields : List String,
    (session.run (fields.map .field)).joins.map Join.unkeyed =
      (other.run (fields.map .field)).joins.map Join.unkeyed ∧
    ∀ field,
      (outcome (resolveField field)
        (session.run (fields.map .field))).1.map ResolvedField.column =
      (outcome (resolveField field)
        (other.run (fields.map .field))).1.map ResolvedField.column

@[refl] theorem Interchangeable.refl (session : Session) :
    session.Interchangeable session :=
  fun _ => ⟨rfl, fun _ => rfl⟩

section Interchanging

variable {session other : Session}

theorem Interchangeable.joins
    (interchangeable : session.Interchangeable other) :
    session.joins.map Join.unkeyed = other.joins.map Join.unkeyed :=
  (interchangeable []).1

theorem Interchangeable.column
    (interchangeable : session.Interchangeable other)
    (field : String) :
    (outcome (resolveField field) session).1.map ResolvedField.column =
      (outcome (resolveField field) other).1.map ResolvedField.column :=
  (interchangeable []).2 field

/-- Resolving a field keeps sessions interchangeable. -/
theorem Interchangeable.field
    (interchangeable : session.Interchangeable other)
    (field : String) :
    (outcome (resolveField field) session).2.Interchangeable
      (outcome (resolveField field) other).2 :=
  fun fields => interchangeable (field :: fields)

/-- Operations that only resolve fields have one answer from interchangeable sessions
and keep them interchangeable. -/
theorem ResolvesFields.interchangeable
    {Result : Type}
    {act : Resolving Result}
    (resolvesFields : ResolvesFields act)
    (interchangeable : session.Interchangeable other) :
    (outcome act session).1 = (outcome act other).1 ∧
      (outcome act session).2.Interchangeable (outcome act other).2 := by
  induction resolvesFields generalizing session other with
  | pure result => exact ⟨rfl, interchangeable⟩
  | throw error => exact ⟨rfl, interchangeable⟩
  | @field path next _ inductionHypothesis =>
      have seen : ∀ answer : Except Error Result, answer.map id = answer := by
        intro answer
        cases answer <;> rfl
      rw [← seen (outcome _ session).1, ← seen (outcome _ other).1]
      refine outcome_bind_agree
        ⟨interchangeable.column path, interchangeable.field path⟩ ?_
      intro resolved otherResolved _ _ _ _ same middle
      rw [seen, seen, same]
      exact inductionHypothesis otherResolved.column middle

end Interchanging

/-! ## Following a hop without the cache -/

section Uncached

variable {session other : Session} {hops : List Hop} {joins : List Join}
  {table : Table} {hop : Hop}

/-- Following a hop that has no relation fails and changes nothing. -/
theorem Walked.outcome_follow_of_error
    (walked : session.Walked hops joins table)
    (coherent : session.Coherent)
    (namesHops : session.NamesHops)
    (readable : hop.Readable)
    {error : Error}
    (unrelated : session.relationOf (keyOf (hops ++ [hop])) table hop =
      .error error) :
    outcome (follow (keyOf (hops ++ [hop])) table hop) session =
      (.error error, session) := by
  rw [outcome_follow]
  cases cached : session.cache.lookup (keyOf (hops ++ [hop])) with
  | none => rw [unrelated]
  | some join =>
      have related := coherent.relationOf_of_cached readable cached
      rw [walked.left_eq coherent namesHops readable cached, unrelated] at related
      cases related

/-- Following a hop answers and adds what entering its key would, whether or not the
cache has the key. -/
theorem Walked.outcome_follow_of_ok
    (walked : session.Walked hops joins table)
    (coherent : session.Coherent)
    (namesHops : session.NamesHops)
    (readable : hop.Readable)
    {relation : Relation}
    (related : session.relationOf (keyOf (hops ++ [hop])) table hop =
      .ok relation) :
    (outcome (follow (keyOf (hops ++ [hop])) table hop) session).1 =
        .ok (session.enter (keyOf (hops ++ [hop])) table relation).1 ∧
      (outcome (follow (keyOf (hops ++ [hop])) table hop) session).2.joins =
        (session.enter (keyOf (hops ++ [hop])) table relation).2.joins := by
  rw [outcome_follow]
  cases cached : session.cache.lookup (keyOf (hops ++ [hop])) with
  | none =>
      rw [related]
      exact ⟨rfl, rfl⟩
  | some join =>
      have inJoins := coherent.mem_joins _ join cached
      have sameLeft := walked.left_eq coherent namesHops readable cached
      have joinRelated := coherent.relationOf_of_cached readable cached
      rw [sameLeft, related, Except.ok.injEq] at joinRelated
      rcases enter_joins session (keyOf (hops ++ [hop])) table relation with
        ⟨entered, sameJoins⟩ | ⟨unshared, _, _⟩
      · refine ⟨congrArg Except.ok ?_, sameJoins.symm⟩
        exact coherent.distinct join inJoins _ entered
          (by rw [enter_left, sameLeft]) (by rw [enter_relation, joinRelated])
      · have apart : ∀ join ∈ session.joins,
            ¬(join.left = table ∧ join.relation = relation) := by
          simpa [shared?] using unshared
        exact absurd ⟨sameLeft, joinRelated.symm⟩ (apart join inJoins)

/-- Entering a key depends on the joins only up to their keys. -/
theorem enter_unkeyed
    (same : session.joins.map Join.unkeyed = other.joins.map Join.unkeyed)
    (key : String)
    (left : Table)
    (relation : Relation) :
    (session.enter key left relation).1.unkeyed =
        (other.enter key left relation).1.unkeyed ∧
      (session.enter key left relation).2.joins.map Join.unkeyed =
        (other.enter key left relation).2.joins.map Join.unkeyed := by
  have sharedSame : (session.shared? left relation).map Join.unkeyed =
      (other.shared? left relation).map Join.unkeyed := by
    have find : ∀ joins : List Join,
        (joins.find? fun join => join.left = left ∧ join.relation = relation).map
          Join.unkeyed =
        (joins.map Join.unkeyed).find? fun join =>
          join.left = left ∧ join.relation = relation := by
      intro joins
      rw [List.find?_map]
      rfl
    rw [shared?, shared?, find, find, same]
  have length_eq : session.joins.length = other.joins.length := by
    simpa using congrArg List.length same
  have nextSame : session.nextJoin key left relation =
      other.nextJoin key left relation := by
    rw [nextJoin, nextJoin, length_eq]
  rw [enter, enter]
  cases shared : session.shared? left relation with
  | none =>
      cases otherShared : other.shared? left relation with
      | none => simp [nextSame, same]
      | some join => simp [shared, otherShared] at sharedSame
  | some join =>
      cases otherShared : other.shared? left relation with
      | none => simp [shared, otherShared] at sharedSame
      | some otherJoin =>
          rw [shared, otherShared] at sharedSame
          exact ⟨Option.some.inj sharedSame, same⟩

end Uncached

/-! ## Sessions with the same joins -/

/-- Two sessions without seeds that have come about on one root table, with the same
foreign keys. -/
structure Siblings (session other : Session) : Prop where
  coherent : session.Coherent
  otherCoherent : other.Coherent
  root : other.root = session.root
  foreignKeys : other.foreignKeys = session.foreignKeys
  seeds : session.seeds = []
  otherSeeds : other.seeds = []

namespace Siblings

variable {session other after otherAfter : Session}

/-- Resolving keeps sessions siblings. -/
theorem resolves
    (siblings : session.Siblings other)
    (coherent : after.Coherent)
    (otherCoherent : otherAfter.Coherent)
    (resolves : session.Resolves after)
    (otherResolves : other.Resolves otherAfter) :
    after.Siblings otherAfter where
  coherent := coherent
  otherCoherent := otherCoherent
  root := by rw [resolves.root, otherResolves.root, siblings.root]
  foreignKeys := by
    rw [resolves.foreignKeys, otherResolves.foreignKeys, siblings.foreignKeys]
  seeds := by rw [resolves.seeds, siblings.seeds]
  otherSeeds := by rw [otherResolves.seeds, siblings.otherSeeds]

/-- Resolving a field keeps sessions siblings. -/
theorem field
    (siblings : session.Siblings other)
    (field : String) :
    (outcome (resolveField field) session).2.Siblings
      (outcome (resolveField field) other).2 := by
  obtain ⟨coherent, resolves, _⟩ :=
    siblings.coherent.resolveField
      (Prod.eta (outcome (resolveField field) session)).symm
  obtain ⟨otherCoherent, otherResolves, _⟩ :=
    siblings.otherCoherent.resolveField
      (Prod.eta (outcome (resolveField field) other)).symm
  exact siblings.resolves coherent otherCoherent resolves otherResolves

/-- Hops have the same relations in siblings. -/
theorem relationOf
    (siblings : session.Siblings other)
    (key : String)
    (left : Table)
    (hop : Hop) :
    other.relationOf key left hop = session.relationOf key left hop := by
  rw [Session.relationOf, Session.relationOf, siblings.seeds, siblings.otherSeeds,
    siblings.foreignKeys]

end Siblings

/-- Siblings with the same joins, up to their keys, where no foreign key is known for
the empty name. -/
structure Matching (session other : Session) : Prop extends Siblings session other where
  joins : session.joins.map Join.unkeyed = other.joins.map Join.unkeyed
  noRelation : ∀ table, session.foreignKeys table "" = none

namespace Matching

variable {session other : Session}

theorem namesHops (isMatching : session.Matching other) : session.NamesHops :=
  ⟨isMatching.noRelation, by simp [isMatching.seeds]⟩

theorem otherNamesHops (isMatching : session.Matching other) : other.NamesHops :=
  ⟨by rw [isMatching.foreignKeys]; exact isMatching.noRelation,
    by simp [isMatching.otherSeeds]⟩

/-- Following one hop from one table in matching sessions leads to one join, up to its
key, or fails in one way. -/
theorem follow
    (isMatching : session.Matching other)
    {hops : List Hop}
    {joins otherJoins : List Join}
    {table : Table}
    (walked : session.Walked hops joins table)
    (otherWalked : other.Walked hops otherJoins table)
    {hop : Hop}
    (readable : hop.Readable) :
    (outcome (Session.follow (keyOf (hops ++ [hop])) table hop) session).1.map
        Join.unkeyed =
      (outcome (Session.follow (keyOf (hops ++ [hop])) table hop) other).1.map
        Join.unkeyed ∧
    (outcome (Session.follow (keyOf (hops ++ [hop])) table hop) session).2.Matching
      (outcome (Session.follow (keyOf (hops ++ [hop])) table hop) other).2 := by
  obtain ⟨coherent, resolves, _⟩ :=
    isMatching.coherent.follow walked readable rfl
  obtain ⟨otherCoherent, otherResolves, _⟩ :=
    isMatching.otherCoherent.follow otherWalked readable rfl
  have siblings := isMatching.resolves coherent otherCoherent resolves otherResolves
  have noRelation := isMatching.noRelation
  rw [← resolves.foreignKeys] at noRelation
  have otherRelation := isMatching.relationOf (keyOf (hops ++ [hop])) table hop
  cases related : session.relationOf (keyOf (hops ++ [hop])) table hop with
  | error error =>
      rw [related] at otherRelation
      have failed := walked.outcome_follow_of_error isMatching.coherent
        isMatching.namesHops readable related
      have otherFailed := otherWalked.outcome_follow_of_error
        isMatching.otherCoherent isMatching.otherNamesHops readable otherRelation
      rw [failed, otherFailed]
      exact ⟨rfl, isMatching⟩
  | ok relation =>
      rw [related] at otherRelation
      obtain ⟨answer, joinsAfter⟩ := walked.outcome_follow_of_ok isMatching.coherent
        isMatching.namesHops readable related
      obtain ⟨otherAnswer, otherJoinsAfter⟩ := otherWalked.outcome_follow_of_ok
        isMatching.otherCoherent isMatching.otherNamesHops readable otherRelation
      obtain ⟨joinSame, joinsSame⟩ :=
        enter_unkeyed isMatching.joins (keyOf (hops ++ [hop])) table relation
      refine ⟨?_, siblings, ?_, noRelation⟩
      · rw [answer, otherAnswer, Except.map, Except.map, joinSame]
      · rw [joinsAfter, otherJoinsAfter, joinsSame]

/-- Walking hops from one table in matching sessions leads to one table, or fails in
one way. -/
theorem walkFrom
    (isMatching : session.Matching other)
    {hops : List Hop}
    {joins otherJoins : List Join}
    {table : Table}
    (walked : session.Walked hops joins table)
    (otherWalked : other.Walked hops otherJoins table)
    {texts : List String}
    (noPoint : ∀ text ∈ texts, '.' ∉ text.toList) :
    (outcome (Session.walkFrom table (keyOf hops) texts) session).1.map Prod.fst =
      (outcome (Session.walkFrom table (keyOf hops) texts) other).1.map Prod.fst ∧
    (outcome (Session.walkFrom table (keyOf hops) texts) session).2.Matching
      (outcome (Session.walkFrom table (keyOf hops) texts) other).2 := by
  induction texts generalizing session other hops joins otherJoins table with
  | nil => exact ⟨rfl, isMatching⟩
  | cons text rest inductionHypothesis =>
      simp only [List.mem_cons, forall_eq_or_imp] at noPoint
      rw [Session.walkFrom, outcome_bind, outcome_bind, outcome_readHop,
        outcome_readHop]
      cases read : Hop.read text with
      | error error => exact ⟨rfl, isMatching⟩
      | ok hop =>
          have readable := Hop.Readable.of_read noPoint.1 read
          simp only [Except.mapError]
          rw [← keyOf_concat]
          refine outcome_bind_agree
            (isMatching.follow walked otherWalked readable) ?_
          intro join otherJoin middle otherMiddle followed otherFollowed same
            middleMatching
          obtain ⟨_, _, leads⟩ :=
            isMatching.coherent.follow walked readable followed
          obtain ⟨_, _, otherLeads⟩ :=
            isMatching.otherCoherent.follow otherWalked readable otherFollowed
          have sameRight : join.right = otherJoin.right := by
            simpa [Join.unkeyed] using congrArg Join.right same
          have walkedOn := leads join rfl
          have otherWalkedOn := otherLeads otherJoin rfl
          rw [← sameRight] at otherWalkedOn ⊢
          refine outcome_bind_agree
            (inductionHypothesis middleMatching walkedOn otherWalkedOn noPoint.2) ?_
          intro reached otherReached _ _ _ _ sameReached finalMatching
          exact ⟨congrArg Except.ok sameReached, finalMatching⟩

/-- A field stands for one column in matching sessions, or fails in one way. -/
theorem field
    (isMatching : session.Matching other)
    (field : String) :
    (outcome (resolveField field) session).1.map ResolvedField.column =
      (outcome (resolveField field) other).1.map ResolvedField.column ∧
    (outcome (resolveField field) session).2.Matching
      (outcome (resolveField field) other).2 := by
  rw [resolveField]
  split
  · exact ⟨rfl, isMatching⟩
  · rename_i texts column split
    have noPoint := point_not_mem_of_splitField split
    have otherRoot : other.Walked [] [] session.root := by
      rw [← isMatching.root]
      exact .root
    have walks := isMatching.walkFrom .root otherRoot noPoint
    rw [keyOf_nil, ← outcome_walk, ← isMatching.root, ← outcome_walk] at walks
    refine outcome_bind_agree walks ?_
    rintro ⟨last, joins⟩ ⟨otherLast, otherJoins⟩ _ _ _ _ ⟨⟩ finalMatching
    exact ⟨rfl, finalMatching⟩

/-- Matching sessions are interchangeable. -/
theorem interchangeable
    (isMatching : session.Matching other) :
    session.Interchangeable other := by
  intro fields
  induction fields generalizing session other with
  | nil => exact ⟨isMatching.joins, fun name => (isMatching.field name).1⟩
  | cons name rest inductionHypothesis =>
      exact inductionHypothesis (isMatching.field name).2

end Matching

end Session
end DomainSql
