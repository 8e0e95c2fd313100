import DomainSql.Proofs.InterchangeableSessions
import DomainSql.Proofs.StatementText

/-!
# What statements tell about sessions

A statement shows less of a join than the join has: of its left table only the alias,
and of its kind only the form. The rest can be found out by the path of the join. A
path that the cache leads along is walked without a change, so where the same path
adds no join either it meets a join of the same kind.
-/

namespace DomainSql

namespace Column

/-- What a statement shows of a column. -/
def shown (column : Column) : String × String :=
  (column.table.aliasName, column.name)

end Column

namespace Session

variable {session other : Session} {hops : List Hop} {joins : List Join}
  {table : Table}

/-! ## Walking along the cache -/

/-- Hops behind others that the cache leads along are walked without a change. -/
theorem Walked.outcome_walkFrom
    {front back : List Hop}
    (walked : session.Walked (front ++ back) joins table) :
    ∃ frontJoins backJoins middle, joins = frontJoins ++ backJoins ∧
      session.Walked front frontJoins middle ∧
      outcome (walkFrom middle (keyOf front) (back.map Hop.text)) session =
        (.ok (table, backJoins), session) := by
  induction back generalizing front with
  | nil =>
      rw [List.append_nil] at walked
      exact ⟨joins, [], table, by simp, walked, rfl⟩
  | cons hop rest inductionHypothesis =>
      rw [List.append_cons] at walked
      obtain ⟨longer, backJoins, _, rfl, longerWalked, restWalked⟩ :=
        inductionHypothesis walked
      obtain ⟨frontJoins, middle, join, rfl, rfl, frontWalked, readable, cached⟩ :=
        longerWalked.of_concat
      refine ⟨frontJoins, join :: backJoins, middle, by simp, frontWalked, ?_⟩
      refine outcome_walkFrom_cons_eq_ok_iff.mpr
        ⟨hop, join, session, backJoins, readable.read_text, ?_, ?_, rfl⟩
      · rw [← keyOf_concat, outcome_follow, cached]
      · rwa [← keyOf_concat]

/-- A field whose hops are these. -/
def fieldOf (hops : List Hop) : String :=
  Text.join '.' (hops.map Hop.text ++ ["id"])

theorem split_fieldOf
    (readable : ∀ hop ∈ hops, hop.Readable) :
    Text.split '.' (fieldOf hops) = hops.map Hop.text ++ ["id"] := by
  refine Text.split_join (by simp) ?_
  intro text inTexts
  rcases List.mem_append.mp inTexts with ofHop | isColumn
  · obtain ⟨hop, inHops, rfl⟩ := List.mem_map.mp ofHop
    exact (readable hop inHops).point_not_mem_text
  · rw [List.mem_singleton.mp isColumn]
    decide

/-- A field whose hops the cache leads along is resolved without a change. -/
theorem Walked.outcome_resolveField
    (walked : session.Walked hops joins table) :
    outcome (resolveField (fieldOf hops)) session =
      (.ok ⟨⟨table, "id"⟩, joins.map Join.key⟩, session) := by
  have split : splitField (fieldOf hops) = .ok (hops.map Hop.text, "id") := by
    rw [splitField, split_fieldOf walked.readable]
    simp only [List.getLast?_concat, Option.getD_some, List.dropLast_concat]
    rfl
  obtain ⟨_, backJoins, middle, rfl, rootWalked, whole⟩ :=
    @Walked.outcome_walkFrom _ _ _ [] hops walked
  obtain ⟨rfl, rfl⟩ := rootWalked.unique .root
  rw [resolveField, split]
  simp only
  rw [outcome_bind, outcome_walk]
  rw [keyOf_nil] at whole
  rw [whole]
  rfl

/-- Without seeds, the join that the cache has for a path is of the kind of the last
hop. -/
theorem Coherent.kind_of_cached
    (coherent : session.Coherent)
    (seedless : session.seeds = [])
    {hop : Hop}
    (readable : hop.Readable)
    {join : Join}
    (cached : session.cache.lookup (keyOf (hops ++ [hop])) = some join) :
    join.kind = hop.kind := by
  have related := coherent.relationOf_of_cached readable cached
  rw [relationOf_eq_ok_iff, HasRelation, seedless] at related
  obtain ⟨foreignKey, _, relation⟩ := related
  exact congrArg Relation.kind relation

/-! ## Tables by their aliases -/

/-- The table is the root or the right table of a join. -/
def Knows (session : Session) (table : Table) : Prop :=
  table = session.root ∨ ∃ join ∈ session.joins, join.right = table

theorem Walked.knows
    (walked : session.Walked hops joins table)
    (coherent : session.Coherent) :
    session.Knows table := by
  cases walked with
  | root => exact .inl rfl
  | hop _ _ cached => exact .inr ⟨_, coherent.mem_joins _ _ cached, rfl⟩

/-- Tables with one alias are the same in siblings that show the same joins. -/
theorem Siblings.table_eq
    (siblings : session.Siblings other)
    (shown : session.joins.map Join.shown = other.joins.map Join.shown)
    {otherTable : Table}
    (known : session.Knows table)
    (otherKnown : other.Knows otherTable)
    (sameAlias : table.aliasName = otherTable.aliasName) :
    table = otherTable := by
  rcases known with rfl | ⟨join, inJoins, rfl⟩
  · rcases otherKnown with rfl | ⟨otherJoin, inOthers, rfl⟩
    · exact siblings.root.symm
    · rw [← siblings.root] at sameAlias
      exact absurd sameAlias.symm (siblings.otherCoherent.alias_ne_root inOthers)
  · rcases otherKnown with rfl | ⟨otherJoin, inOthers, rfl⟩
    · rw [siblings.root] at sameAlias
      exact absurd sameAlias (siblings.coherent.alias_ne_root inJoins)
    · obtain ⟨place, found⟩ := List.getElem?_of_mem inJoins
      obtain ⟨otherPlace, otherFound⟩ := List.getElem?_of_mem inOthers
      rw [siblings.coherent.aliases place join found,
        siblings.otherCoherent.aliases otherPlace otherJoin otherFound] at sameAlias
      obtain rfl : place = otherPlace := Nat.succ.inj (tableAlias_inj sameAlias)
      have atPlace := congrArg (·[place]?) shown
      simp only [List.getElem?_map, found, otherFound, Option.map_some,
        Option.some.injEq] at atPlace
      exact congrArg ShownJoin.right atPlace

/-! ## Telling sessions apart -/

/-- Whatever fields are resolved, statements show the same of the joins afterwards, and
of the column that a field stands for, or the field fails in one way. -/
def Alike (session other : Session) : Prop :=
  ∀ fields : List String,
    (session.run (fields.map .field)).joins.map Join.shown =
      (other.run (fields.map .field)).joins.map Join.shown ∧
    ∀ field,
      (outcome (resolveField field) (session.run (fields.map .field))).1.map
        (fun resolved => resolved.column.shown) =
      (outcome (resolveField field) (other.run (fields.map .field))).1.map
        (fun resolved => resolved.column.shown)

/-- The join at a place is of one kind in siblings that statements do not tell
apart. -/
theorem Siblings.kind_eq
    (siblings : session.Siblings other)
    (alike : session.Alike other)
    {place : Nat}
    {join otherJoin : Join}
    (found : session.joins[place]? = some join)
    (otherFound : other.joins[place]? = some otherJoin) :
    join.kind = otherJoin.kind := by
  have cached := siblings.coherent.ownKey join (List.mem_of_getElem? found)
  obtain ⟨front, frontJoins, hop, readable, key_eq, frontWalked, _⟩ :=
    siblings.coherent.traced _ join cached
  rw [key_eq] at cached
  have walked := Walked.hop frontWalked readable cached
  have field := walked.outcome_resolveField
  -- The other session resolves the path of the join without adding one, too.
  obtain ⟨shownBefore, seen⟩ := alike []
  have answer := seen (fieldOf (front ++ [hop]))
  have shownAfter := (alike [fieldOf (front ++ [hop])]).1
  simp only [List.map_cons, List.map_nil, run_cons, run_nil, Operation.after,
    field] at answer shownBefore shownAfter
  rcases otherField : outcome (resolveField (fieldOf (front ++ [hop]))) other with
    ⟨error | resolved, after⟩
  · rw [otherField] at answer
    cases answer
  · rw [otherField] at answer shownAfter
    obtain ⟨afterCoherent, resolves, leads⟩ :=
      siblings.otherCoherent.resolveField otherField
    obtain ⟨texts, hops, joins, parts, read, otherWalked, _⟩ := leads resolved rfl
    have sameJoins : other.joins = after.joins := by
      refine resolves.joins.eq_of_length ?_
      have lengthBefore := congrArg List.length shownBefore
      have lengthAfter := congrArg List.length shownAfter
      simp only [List.length_map] at lengthBefore lengthAfter
      omega
    have sameHops : hops = front ++ [hop] := by
      rw [split_fieldOf walked.readable] at parts
      rw [← (List.append_inj' parts rfl).1] at read
      exact read.unique (Hop.readAs_map_text walked.readable)
    subst sameHops
    obtain ⟨_, _, met, _, table_eq, _, _, metCached⟩ := otherWalked.of_concat
    -- What it meets has the alias of the join, and so it is the join at the place.
    have sameAlias : met.right.aliasName = otherJoin.right.aliasName := by
      have shownAlias := congrArg Prod.fst (Except.ok.inj answer)
      rw [siblings.otherCoherent.aliases place otherJoin otherFound, ← table_eq,
        ← siblings.coherent.aliases place join found]
      exact shownAlias.symm
    have isMet : met = otherJoin := by
      refine siblings.otherCoherent.eq_of_alias_eq ?_
        (List.mem_of_getElem? otherFound) sameAlias
      rw [sameJoins]
      exact afterCoherent.mem_joins _ met metCached
    rw [siblings.coherent.kind_of_cached siblings.seeds readable cached, ← isMet,
      afterCoherent.kind_of_cached (by rw [resolves.seeds, siblings.otherSeeds])
        readable metCached]

/-- Siblings that statements do not tell apart have the same joins, up to their
keys. -/
theorem Siblings.joins_eq
    (siblings : session.Siblings other)
    (alike : session.Alike other) :
    session.joins.map Join.unkeyed = other.joins.map Join.unkeyed := by
  have shown := (alike []).1
  refine List.ext_getElem? fun place => ?_
  have atPlace := congrArg (·[place]?) shown
  simp only [List.map_nil, run_nil, List.getElem?_map] at atPlace ⊢
  cases found : session.joins[place]? with
  | none =>
      cases otherFound : other.joins[place]? with
      | none => rfl
      | some otherJoin => simp [found, otherFound] at atPlace
  | some join =>
      cases otherFound : other.joins[place]? with
      | none => simp [found, otherFound] at atPlace
      | some otherJoin =>
          simp only [found, otherFound, Option.map_some,
            Option.some.injEq] at atPlace
          have knows : ∀ {session : Session} {join : Join}, session.Coherent →
              join ∈ session.joins → session.Knows join.left := by
            intro session join coherent inJoins
            obtain ⟨_, _, _, _, _, walked, _⟩ := coherent.traced _ join
              (coherent.ownKey join inJoins)
            exact walked.knows coherent
          have sameLeft := siblings.table_eq shown
            (knows siblings.coherent (List.mem_of_getElem? found))
            (knows siblings.otherCoherent (List.mem_of_getElem? otherFound))
            (congrArg ShownJoin.leftAlias atPlace)
          have sameKind := siblings.kind_eq alike found otherFound
          have sameRight := congrArg ShownJoin.right atPlace
          have sameLeftColumn := congrArg ShownJoin.leftColumn atPlace
          have sameRightColumn := congrArg ShownJoin.rightColumn atPlace
          simp only [Join.shown] at sameRight sameLeftColumn sameRightColumn
          simp [Join.unkeyed, sameLeft, sameKind, sameRight, sameLeftColumn,
            sameRightColumn]

/-- A field stands for one column in siblings that statements do not tell apart, or
fails in one way. -/
theorem Siblings.column_eq
    (siblings : session.Siblings other)
    (alike : session.Alike other)
    (field : String) :
    (outcome (resolveField field) session).1.map ResolvedField.column =
      (outcome (resolveField field) other).1.map ResolvedField.column := by
  have answer := (alike []).2 field
  have shownAfter := (alike [field]).1
  have siblingsAfter := siblings.field field
  simp only [List.map_cons, List.map_nil, run_cons, run_nil,
    Operation.after] at answer shownAfter
  rcases resolves : outcome (resolveField field) session with
    ⟨error | resolved, after⟩ <;>
  rcases otherResolves : outcome (resolveField field) other with
    ⟨otherError | otherResolved, otherAfter⟩ <;>
  rw [resolves, otherResolves] at answer shownAfter siblingsAfter
  · exact congrArg Except.error (Except.error.inj answer)
  · cases answer
  · cases answer
  · obtain ⟨_, _, leads⟩ := siblings.coherent.resolveField resolves
    obtain ⟨_, _, otherLeads⟩ := siblings.otherCoherent.resolveField otherResolves
    obtain ⟨_, _, _, _, _, walked, _⟩ := leads resolved rfl
    obtain ⟨_, _, _, _, _, otherWalked, _⟩ := otherLeads otherResolved rfl
    have shown : resolved.column.shown = otherResolved.column.shown :=
      Except.ok.inj answer
    have sameTable := siblingsAfter.table_eq shownAfter
      (walked.knows siblingsAfter.coherent)
      (otherWalked.knows siblingsAfter.otherCoherent) (congrArg Prod.fst shown)
    have sameName : resolved.column.name = otherResolved.column.name :=
      congrArg Prod.snd shown
    rcases columnEq : resolved.column with ⟨columnTable, columnName⟩
    rcases otherEq : otherResolved.column with ⟨otherTable, otherName⟩
    simp_all [Except.map]

/-- Siblings that statements do not tell apart are interchangeable. -/
theorem Siblings.interchangeable
    (siblings : session.Siblings other)
    (alike : session.Alike other) :
    session.Interchangeable other := by
  intro fields
  induction fields generalizing session other with
  | nil =>
      exact ⟨siblings.joins_eq alike, siblings.column_eq alike⟩
  | cons field rest inductionHypothesis =>
      exact inductionHypothesis (siblings.field field)
        fun fields => alike (field :: fields)

end Session
end DomainSql
