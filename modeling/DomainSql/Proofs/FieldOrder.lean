import DomainSql.Proofs.JoinWays

/-!
# The order in which fields are resolved

If no foreign key is known for the empty name and all given paths have named hops, what
a field stands for is settled by its hops, the seeds and the foreign keys alone: a field
that is resolved in one session is resolved in every session that has come about from
the same seeds, along the same relations. So the joins of a session are those of a set
of fields, and only their aliases, their keys and their places depend on the order in
which the fields have been resolved. A filter that is bound behind other fields differs
by its aliases and by joins of these other fields.
-/

namespace DomainSql
namespace Session

/-! ## What a field stands for -/

/-- The cache leads along the hops of the field to the table of the column, and the
name of the column is that of the field. -/
def StandsFor
    (session : Session)
    (path : String)
    (column : Column) : Prop :=
  ∃ texts hops joins, splitField path = .ok (texts, column.name) ∧
    Hop.ReadAs texts hops ∧ session.Walked hops joins column.table

theorem StandsFor.grows
    {before after : Session}
    (grows : before.Grows after)
    {path : String}
    {column : Column}
    (standsFor : before.StandsFor path column) :
    after.StandsFor path column := by
  obtain ⟨texts, hops, joins, split, read, walked⟩ := standsFor
  exact ⟨texts, hops, joins, split, read, walked.grows grows⟩

/-- A field stands for the column that it has been resolved to. -/
theorem Coherent.standsFor
    {session after : Session}
    (coherent : session.Coherent)
    {path : String}
    {column : Column}
    (ran : outcome (Session.resolveColumn path) session = (.ok column, after)) :
    after.StandsFor path column := by
  obtain ⟨resolved, answered, rfl⟩ := outcome_resolveColumn_eq_ok_iff.mp ran
  rw [Session.resolveField] at answered
  split at answered
  · cases answered
  · rename_i texts name split
    obtain ⟨⟨last, joins⟩, middle, walked, answered⟩ :=
      outcome_bind_eq_ok_iff.mp answered
    cases answered
    obtain ⟨_, _, leads⟩ :=
      coherent.walk (point_not_mem_of_splitField split) walked
    obtain ⟨hops, read, cached⟩ := leads last joins rfl
    exact ⟨texts, hops, joins, split, read, cached⟩

/-! ## Sessions with the same seeds -/

theorem relationOf_congr
    (session : Session)
    (key : String)
    {left other : Table}
    (name_eq : left.name = other.name)
    (hop : Hop) :
    session.relationOf key left hop = session.relationOf key other hop := by
  rw [relationOf, relationOf, name_eq]

theorem Walked.of_append
    {session : Session}
    {front back : List Hop}
    {joins : List Join}
    {last : Table}
    (walked : session.Walked (front ++ back) joins last) :
    ∃ frontJoins middle, session.Walked front frontJoins middle := by
  induction back using List.reverseRecOn generalizing joins last with
  | nil => exact ⟨joins, last, by simpa using walked⟩
  | append_singleton back hop inductionHypothesis =>
      rw [← List.append_assoc] at walked
      obtain ⟨_, _, _, _, _, before, _⟩ := walked.of_concat
      exact inductionHypothesis before

/-- The session has come about from another one by resolving fields. -/
structure Descends (origin session : Session) : Prop where
  coherent : session.Coherent
  resolves : origin.Resolves session

section Descending

variable {origin session other after : Session} {hops : List Hop}
  {joins otherJoins : List Join} {table otherTable : Table}

theorem Descends.namesHops
    (descends : origin.Descends session)
    (namesHops : origin.NamesHops) :
    session.NamesHops :=
  ⟨by rw [descends.resolves.foreignKeys]; exact namesHops.foreignKeys,
    by rw [descends.resolves.seeds]; exact namesHops.seeds⟩

theorem Descends.root_eq
    (descends : origin.Descends session)
    (otherDescends : origin.Descends other) :
    other.root = session.root :=
  otherDescends.resolves.root.trans descends.resolves.root.symm

/-- The join that a cache has for hops leads along the relation that the last hop has
from the table before. -/
theorem Descends.relationOf_eq
    (descends : origin.Descends session)
    (namesHops : origin.NamesHops)
    (walked : session.Walked hops joins table)
    {hop : Hop}
    (readable : hop.Readable)
    {join : Join}
    (cached : session.cache.lookup (keyOf (hops ++ [hop])) = some join) :
    origin.relationOf (keyOf (hops ++ [hop])) table hop = .ok join.relation := by
  have related := descends.coherent.relationOf_of_cached readable cached
  rwa [walked.left_eq descends.coherent (descends.namesHops namesHops) readable cached,
    descends.resolves.relationOf] at related

/-- Hops that have been walked in two sessions have the same relations in both. -/
theorem Walked.relations_eq
    (walked : session.Walked hops joins table)
    (otherWalked : other.Walked hops otherJoins otherTable)
    (descends : origin.Descends session)
    (otherDescends : origin.Descends other)
    (namesHops : origin.NamesHops) :
    otherJoins.map Join.relation = joins.map Join.relation ∧
      otherTable.name = table.name := by
  induction walked generalizing otherJoins otherTable with
  | root =>
      obtain ⟨rfl, rfl⟩ := otherWalked.unique .root
      rw [descends.root_eq otherDescends]
      exact ⟨rfl, rfl⟩
  | @hop front frontJoins middle hop join walked readable cached
      inductionHypothesis =>
      obtain ⟨otherFront, otherMiddle, otherJoin, rfl, rfl, frontWalked, _,
        otherCached⟩ := otherWalked.of_concat
      obtain ⟨same, name_eq⟩ := inductionHypothesis frontWalked
      have related := descends.relationOf_eq namesHops walked readable cached
      have otherRelated :=
        otherDescends.relationOf_eq namesHops frontWalked readable otherCached
      rw [relationOf_congr _ _ name_eq, related, Except.ok.injEq] at otherRelated
      exact ⟨by simp [same, otherRelated],
        congrArg Relation.table otherRelated.symm⟩

/-- A hop that has been followed in one session can be followed in every other one. -/
theorem Walked.exists_follow
    {hop : Hop}
    (walked : session.Walked (hops ++ [hop]) joins table)
    (otherWalked : other.Walked hops otherJoins otherTable)
    (descends : origin.Descends session)
    (otherDescends : origin.Descends other)
    (namesHops : origin.NamesHops) :
    ∃ join after, outcome (follow (keyOf (hops ++ [hop])) otherTable hop) other =
      (.ok join, after) := by
  obtain ⟨front, middle, join, _, _, frontWalked, readable, cached⟩ :=
    walked.of_concat
  have related := descends.relationOf_eq namesHops frontWalked readable cached
  obtain ⟨_, name_eq⟩ :=
    frontWalked.relations_eq otherWalked descends otherDescends namesHops
  rw [← relationOf_congr _ _ name_eq, ← otherDescends.resolves.relationOf] at related
  rw [outcome_follow, related]
  cases other.cache.lookup (keyOf (hops ++ [hop])) with
  | some known => exact ⟨known, other, rfl⟩
  | none => exact ⟨_, _, rfl⟩

/-- Hops that have been walked in one session can be walked in every other one. -/
theorem Walked.exists_walkFrom
    {texts : List String}
    {more : List Hop}
    (noPoint : ∀ text ∈ texts, '.' ∉ text.toList)
    (read : Hop.ReadAs texts more)
    (walked : session.Walked (hops ++ more) joins table)
    (otherWalked : other.Walked hops otherJoins otherTable)
    (descends : origin.Descends session)
    (otherDescends : origin.Descends other)
    (namesHops : origin.NamesHops) :
    ∃ answer after, outcome (walkFrom otherTable (keyOf hops) texts) other =
      (.ok answer, after) := by
  induction texts generalizing other hops more otherJoins otherTable with
  | nil => exact ⟨_, other, rfl⟩
  | cons text rest inductionHypothesis =>
      cases more with
      | nil => simp [Hop.ReadAs] at read
      | cons hop more =>
          rw [Hop.ReadAs, List.map_cons, List.map_cons, List.cons.injEq] at read
          simp only [List.mem_cons, forall_eq_or_imp] at noPoint
          have readable := Hop.Readable.of_read noPoint.1 read.1
          rw [List.append_cons] at walked
          obtain ⟨_, _, firstWalked⟩ := walked.of_append
          obtain ⟨join, middle, followed⟩ := firstWalked.exists_follow otherWalked
            descends otherDescends namesHops
          obtain ⟨coherent, resolves, leads⟩ :=
            otherDescends.coherent.follow otherWalked readable followed
          obtain ⟨⟨last, joins⟩, after, restWalked⟩ := inductionHypothesis noPoint.2
            read.2 walked (leads join rfl)
            ⟨coherent, otherDescends.resolves.trans resolves⟩
          rw [keyOf_concat] at followed restWalked
          exact ⟨_, _, outcome_walkFrom_cons_eq_ok_iff.mpr
            ⟨hop, join, middle, joins, read.1, followed, restWalked, rfl⟩⟩

variable {path : String} {paths : List String} {column otherColumn : Column}
  {columns : List Column}

/-- A field that stands for a column in one session is resolved in every other one. -/
theorem StandsFor.exists_resolveColumn
    (standsFor : session.StandsFor path column)
    (descends : origin.Descends session)
    (otherDescends : origin.Descends other)
    (namesHops : origin.NamesHops) :
    ∃ otherColumn after,
      outcome (Session.resolveColumn path) other = (.ok otherColumn, after) := by
  obtain ⟨texts, hops, joins, split, read, walked⟩ := standsFor
  have fromRoot : session.Walked ([] ++ hops) joins column.table := walked
  obtain ⟨⟨last, way⟩, after, walkedOn⟩ := fromRoot.exists_walkFrom
    (point_not_mem_of_splitField split) read .root descends otherDescends namesHops
  rw [keyOf_nil, ← outcome_walk] at walkedOn
  refine ⟨⟨last, column.name⟩, after, outcome_resolveColumn_eq_ok_iff.mpr
    ⟨⟨⟨last, column.name⟩, way.map Join.key⟩, ?_, rfl⟩⟩
  rw [resolveField, split]
  exact outcome_bind_eq_ok_iff.mpr ⟨_, after, walkedOn, rfl⟩

/-- Resolving a field to its column leaves a session of the same origin. -/
theorem Descends.resolveColumn
    (descends : origin.Descends session)
    (ran : outcome (Session.resolveColumn path) session = (.ok column, after)) :
    origin.Descends after ∧ session.Resolves after := by
  obtain ⟨coherent, resolves, _⟩ := descends.coherent.resolveColumn ran
  exact ⟨⟨coherent, descends.resolves.trans resolves⟩, resolves⟩

/-- Fields that stand for columns in one session are resolved in every other one. -/
theorem Descends.exists_resolveColumns
    (descends : origin.Descends session)
    (otherDescends : origin.Descends other)
    (namesHops : origin.NamesHops)
    (each : ∀ path ∈ paths, ∃ column, session.StandsFor path column) :
    ∃ columns after, outcome (Session.resolveColumns paths) other = (.ok columns, after) := by
  induction paths generalizing other with
  | nil => exact ⟨[], other, rfl⟩
  | cons path rest inductionHypothesis =>
      simp only [List.mem_cons, forall_eq_or_imp] at each
      obtain ⟨column, standsFor⟩ := each.1
      obtain ⟨otherColumn, middle, ran⟩ :=
        standsFor.exists_resolveColumn descends otherDescends namesHops
      obtain ⟨others, after, restRan⟩ :=
        inductionHypothesis (otherDescends.resolveColumn ran).1 each.2
      exact ⟨_, after, outcome_resolveColumns_cons_eq_ok_iff.mpr
        ⟨otherColumn, middle, others, ran, restRan, rfl⟩⟩

/-- Fields stand for the columns that they have been resolved to. -/
theorem Descends.resolveColumns
    (descends : origin.Descends session)
    (ran : outcome (Session.resolveColumns paths) session = (.ok columns, after)) :
    origin.Descends after ∧ session.Resolves after ∧
      List.Forall₂ after.StandsFor paths columns := by
  induction paths generalizing session columns with
  | nil =>
      cases ran
      exact ⟨descends, .refl _, .nil⟩
  | cons path rest inductionHypothesis =>
      obtain ⟨column, middle, others, first, restRan, rfl⟩ :=
        outcome_resolveColumns_cons_eq_ok_iff.mp ran
      obtain ⟨middleDescends, early⟩ := descends.resolveColumn first
      obtain ⟨afterDescends, late, standFor⟩ :=
        inductionHypothesis middleDescends restRan
      exact ⟨afterDescends, early.trans late,
        .cons ((descends.coherent.standsFor first).grows late.toGrows) standFor⟩

/-- The columns that a field stands for in two sessions are reached in the same way. -/
theorem StandsFor.exists_way
    (standsFor : session.StandsFor path column)
    (otherStandsFor : other.StandsFor path otherColumn)
    (descends : origin.Descends session)
    (otherDescends : origin.Descends other)
    (namesHops : origin.NamesHops) :
    otherColumn.name = column.name ∧
      ∃ relations, session.Reaches relations column.table ∧
        other.Reaches relations otherColumn.table := by
  obtain ⟨texts, hops, joins, split, read, walked⟩ := standsFor
  obtain ⟨otherTexts, otherHops, otherJoins, otherSplit, otherRead, otherWalked⟩ :=
    otherStandsFor
  rw [split, Except.ok.injEq, Prod.mk.injEq] at otherSplit
  obtain ⟨rfl, name_eq⟩ := otherSplit
  obtain rfl := read.unique otherRead
  obtain ⟨same, _⟩ :=
    walked.relations_eq otherWalked descends otherDescends namesHops
  have otherReaches := otherWalked.reaches otherDescends.coherent
    (otherDescends.namesHops namesHops)
  rw [same] at otherReaches
  exact ⟨name_eq.symm, _, walked.reaches descends.coherent
    (descends.namesHops namesHops), otherReaches⟩

end Descending

/-! ## Ways to the columns of fields -/

theorem Leads.upTo
    {first last : Table}
    {front back : List Join}
    {join : Join}
    (leads : Leads first (front ++ join :: back) last) :
    Leads first (front ++ [join]) join.right := by
  induction front generalizing first with
  | nil => exact ⟨leads.1, rfl⟩
  | cons head rest inductionHypothesis =>
      exact ⟨leads.1, inductionHypothesis leads.2⟩

section Ways

variable {origin session other : Session} {columns : List Column}
  {relations : List Relation} {table : Table}

/-- A way of a session that serves columns goes on to one of them. -/
theorem Serves.exists_way_on
    (serves : session.Serves columns)
    (namesHops : session.NamesHops)
    (reaches : session.Reaches relations table)
    (nonempty : relations ≠ []) :
    ∃ column ∈ columns, ∃ more,
      session.Reaches (relations ++ more) column.table := by
  obtain ⟨front, relation, rfl⟩ :=
    (List.eq_nil_or_concat relations).resolve_left nonempty
  rw [List.concat_eq_append] at reaches ⊢
  obtain ⟨join, inJoins, rfl, rfl, _⟩ := reaches_concat_iff.mp reaches
  obtain ⟨column, inColumns, chain, leads, inChain, onChain⟩ :=
    serves.onWay namesHops join inJoins
  obtain ⟨early, late, rfl⟩ := List.append_of_mem onChain
  have upToJoin : session.Reaches ((early ++ [join]).map Join.relation) join.right :=
    ⟨early ++ [join], leads.upTo, fun link inEarly => inChain link (by
      rw [List.append_cons]
      exact List.mem_append_left _ inEarly), rfl⟩
  rw [serves.coherent.way_unique reaches upToJoin]
  exact ⟨column, inColumns, late.map Join.relation, early ++ join :: late, leads,
    inChain, by simp⟩

/-- If a session serves the columns of fields that stand for columns of another session
too, the other session has all of its ways. -/
theorem Serves.exists_way
    (serves : session.Serves columns)
    (descends : origin.Descends session)
    (otherDescends : origin.Descends other)
    (namesHops : origin.NamesHops)
    {paths otherPaths : List String}
    {otherColumns : List Column}
    (standFor : List.Forall₂ session.StandsFor paths columns)
    (otherStandFor : List.Forall₂ other.StandsFor otherPaths otherColumns)
    (subset : paths ⊆ otherPaths) :
    ∀ relations table, session.Reaches relations table →
      ∃ otherTable, other.Reaches relations otherTable := by
  intro relations table reaches
  by_cases empty : relations = []
  · subst empty
    exact ⟨other.root, reaches_nil_iff.mpr rfl⟩
  · obtain ⟨column, inColumns, more, toColumn⟩ :=
      serves.exists_way_on (descends.namesHops namesHops) reaches empty
    obtain ⟨path, inPaths, (standsFor : session.StandsFor path column)⟩ :=
      exists_related_of_mem standFor.flip inColumns
    obtain ⟨otherColumn, _, otherStandsFor⟩ :=
      exists_related_of_mem otherStandFor (subset inPaths)
    obtain ⟨_, way, toSame, toOther⟩ :=
      standsFor.exists_way otherStandsFor descends otherDescends namesHops
    rw [descends.coherent.way_unique toSame toColumn] at toOther
    exact toOther.of_append

end Ways

/-! ## Orders of fields -/

/-- A new session with relations given for paths. -/
def seeded
    (table : String)
    (foreignKeys : ForeignKeys)
    (seeds : List (String × Relation)) : Session :=
  (start table foreignKeys).run (seeds.map fun seed => .seed seed.1 seed.2)

/-- Giving relations makes no join. -/
theorem joins_run_seeds
    {session : Session}
    (empty : session.joins = [])
    (seeds : List (String × Relation)) :
    (session.run (seeds.map fun seed => .seed seed.1 seed.2)).joins = [] := by
  induction seeds generalizing session with
  | nil => exact empty
  | cons seed rest inductionHypothesis =>
      refine inductionHypothesis ?_
      rcases outcome_seed seed.1 seed.2 session with same | ⟨_, _, _, given⟩
      · rwa [Operation.after, same]
      · rwa [Operation.after, given]

/-- Paths are given relations whose hops all have names. -/
def ProperSeeds (seeds : List (String × Relation)) : Prop :=
  ∀ seed ∈ seeds, (Operation.seed seed.1 seed.2).Proper

section Orders

variable {table : String} {foreignKeys : ForeignKeys}
  {seeds : List (String × Relation)}

theorem descends_seeded
    (proper : ProperSeeds seeds) :
    (seeded table foreignKeys seeds).Descends (seeded table foreignKeys seeds) := by
  obtain ⟨coherent, _⟩ :=
    (coherent_start table foreignKeys).run (List.forall_mem_map.mpr proper)
  exact ⟨coherent, .refl _⟩

theorem namesHops_seeded
    (noRelation : ∀ name, foreignKeys name "" = none)
    (proper : ProperSeeds seeds) :
    (seeded table foreignKeys seeds).NamesHops :=
  NamesHops.run ⟨noRelation, by simp [start]⟩ (coherent_start table foreignKeys)
    (List.forall_mem_map.mpr proper)

theorem serves_seeded
    (proper : ProperSeeds seeds) :
    (seeded table foreignKeys seeds).Serves [] where
  coherent := (descends_seeded proper).coherent
  table_mem := nofun
  onWay := by
    intro _ join inJoins
    rw [seeded, joins_run_seeds rfl seeds] at inJoins
    cases inJoins

/-- The columns that fields have been resolved to in two sessions, of which the first
has been embedded into the second. -/
theorem Embeds.column_eq
    {origin session other : Session}
    {rename : String → String}
    (embeds : Embeds rename session other)
    (descends : origin.Descends session)
    (otherDescends : origin.Descends other)
    (namesHops : origin.NamesHops)
    {path : String}
    {column otherColumn : Column}
    (standsFor : session.StandsFor path column)
    (otherStandsFor : other.StandsFor path otherColumn) :
    otherColumn = column.renamed rename := by
  obtain ⟨name_eq, relations, reaches, otherReaches⟩ :=
    standsFor.exists_way otherStandsFor descends otherDescends namesHops
  have table_eq := embeds.table_eq otherDescends.coherent reaches otherReaches
  rw [Column.renamed, ← table_eq, ← name_eq]

theorem Embeds.columns_eq
    {origin session other : Session}
    {rename : String → String}
    (embeds : Embeds rename session other)
    (descends : origin.Descends session)
    (otherDescends : origin.Descends other)
    (namesHops : origin.NamesHops)
    {paths : List String}
    {columns otherColumns : List Column}
    (standFor : List.Forall₂ session.StandsFor paths columns)
    (otherStandFor : List.Forall₂ other.StandsFor paths otherColumns) :
    otherColumns = columns.map (Column.renamed rename) := by
  induction standFor generalizing otherColumns with
  | nil =>
      cases otherStandFor
      rfl
  | cons first _ inductionHypothesis =>
      cases otherStandFor with
      | cons otherFirst others =>
          rw [embeds.column_eq descends otherDescends namesHops first otherFirst,
            inductionHypothesis others, List.map_cons]

/-- A renaming of aliases that embeds a session keeps the alias of the root table. -/
theorem Embeds.rename_root
    {session other : Session}
    {rename : String → String}
    (embeds : Embeds rename session other)
    (coherent : session.Coherent)
    (otherCoherent : other.Coherent) :
    rename "t0" = "t0" := by
  have same := congrArg Table.aliasName embeds.root
  rw [otherCoherent.rootAlias, Table.renamed, coherent.rootAlias] at same
  exact same

/-- Let relations be given for paths first. Where fields are resolved in one order, they
are resolved in every other one, and a renaming of aliases that keeps `t0` takes the
joins and the columns of the one session to those of the other. A filter that is bound
behind the fields differs from the same filter without them by such a renaming, and
its joins are found among those that there are then. -/
theorem joins_do_not_depend_on_field_order
    (noRelation : ∀ name, foreignKeys name "" = none)
    (proper : ProperSeeds seeds)
    {fields : List String}
    {columns : List Column}
    {after : Session}
    (resolved : outcome (resolveColumns fields) (seeded table foreignKeys seeds) =
      (.ok columns, after)) :
    (∀ others : List String, fields.Perm others →
      ∃ otherColumns otherAfter rename,
        outcome (resolveColumns others) (seeded table foreignKeys seeds) =
          (.ok otherColumns, otherAfter) ∧
        otherAfter.joins.length = after.joins.length ∧
        rename "t0" = "t0" ∧
        Set.BijOn rename {aliasName | aliasName ∈ after.aliases}
          {aliasName | aliasName ∈ otherAfter.aliases} ∧
        (after.joins.map fun join => (join.renamed rename).unkeyed).Perm
          (otherAfter.joins.map Join.unkeyed) ∧
        ∀ field column otherColumn, (field, column) ∈ fields.zip columns →
          (field, otherColumn) ∈ others.zip otherColumns →
          otherColumn = column.renamed rename) ∧
    ∀ (domain : Domain) formula alone,
      outcome domain.bind (seeded table foreignKeys seeds) = (.ok formula, alone) →
      ∃ behind rename,
        outcome domain.bind after =
          (.ok (formula.map (.mapColumns (Column.renamed rename))), behind) ∧
        rename "t0" = "t0" ∧
        Set.InjOn rename {aliasName | aliasName ∈ alone.aliases} ∧
        ∀ join ∈ alone.joins, ∃ otherJoin ∈ behind.joins,
          otherJoin.unkeyed = (join.renamed rename).unkeyed := by
  have namesHops : (seeded table foreignKeys seeds).NamesHops :=
    namesHops_seeded noRelation proper
  have origin : (seeded table foreignKeys seeds).Descends
      (seeded table foreignKeys seeds) := descends_seeded proper
  have serves : (seeded table foreignKeys seeds).Serves [] := serves_seeded proper
  obtain ⟨descends, _, standFor⟩ := origin.resolveColumns resolved
  constructor
  · intro others perm
    obtain ⟨otherColumns, otherAfter, otherResolved⟩ :=
      descends.exists_resolveColumns origin namesHops fun path inOthers =>
        (exists_related_of_mem standFor (perm.mem_iff.mpr inOthers)).imp fun _ => And.right
    obtain ⟨otherDescends, _, otherStandFor⟩ := origin.resolveColumns otherResolved
    -- Both sessions have the ways to the columns of the same fields, and no others.
    have ways := (serves.resolveColumns resolved).exists_way descends otherDescends
      namesHops standFor otherStandFor perm.subset
    have back := (serves.resolveColumns otherResolved).exists_way otherDescends descends
      namesHops otherStandFor standFor perm.symm.subset
    obtain ⟨rename, embeds⟩ := descends.coherent.exists_embeds otherDescends.coherent
      (congrArg Table.name (descends.root_eq otherDescends)) ways
    have bijOn := embeds.bijOn descends.coherent (descends.namesHops namesHops)
      otherDescends.coherent (otherDescends.namesHops namesHops) back
    have joinsPerm := embeds.joins_perm descends.coherent
      (descends.namesHops namesHops) otherDescends.coherent
      (otherDescends.namesHops namesHops) back
    refine ⟨otherColumns, otherAfter, rename, otherResolved, ?_,
      embeds.rename_root descends.coherent otherDescends.coherent, bijOn, joinsPerm, ?_⟩
    · simpa using joinsPerm.length_eq.symm
    · intro field column otherColumn inZip inOtherZip
      exact embeds.column_eq descends otherDescends namesHops
        (List.forall₂_iff_zip.mp standFor |>.2 inZip)
        (List.forall₂_iff_zip.mp otherStandFor |>.2 inOtherZip)
  · intro domain formula alone ran
    have aloneResolved := Domain.resolveColumns_of_bind ran
    obtain ⟨aloneDescends, _, aloneStandFor⟩ := origin.resolveColumns aloneResolved
    obtain ⟨behindColumns, behind, behindResolved⟩ :=
      aloneDescends.exists_resolveColumns descends namesHops fun path inPaths =>
        (exists_related_of_mem aloneStandFor inPaths).imp fun _ => And.right
    obtain ⟨behindDescends, _, behindStandFor⟩ := descends.resolveColumns behindResolved
    have ways := (serves.resolveColumns aloneResolved).exists_way aloneDescends
      behindDescends namesHops aloneStandFor behindStandFor fun _ => id
    obtain ⟨rename, embeds⟩ := aloneDescends.coherent.exists_embeds
      behindDescends.coherent
      (congrArg Table.name (aloneDescends.root_eq behindDescends)) ways
    rw [embeds.columns_eq aloneDescends behindDescends namesHops aloneStandFor
      behindStandFor] at behindResolved
    exact ⟨behind, rename, Domain.bind_of_resolveColumns ran behindResolved,
      embeds.rename_root aloneDescends.coherent behindDescends.coherent,
      embeds.injOn aloneDescends.coherent (aloneDescends.namesHops namesHops)
        behindDescends.coherent,
      fun join => embeds.exists_join aloneDescends.coherent
        (aloneDescends.namesHops namesHops) behindDescends.coherent⟩

end Orders

/-- Three fields and their reverse order, in which the same joins get other aliases: a
seeded hop, a hop along a foreign key, and a path that goes on from it. The filter
resolves one of their hops and another one along another kind of join. -/
theorem joins_of_reversed_fields :
    let foreignKeys : ForeignKeys := fun table field =>
      if table = "orders" ∧ field = "partner" then
        some ⟨"partners", "partner_id", "id"⟩
      else if table = "partners" ∧ field = "country" then
        some ⟨"countries", "country_id", "id"⟩
      else none
    let seeds : List (String × Relation) := [("shop", ⟨"shops", .left, "shop_id", "id"⟩)]
    let origin := seeded "orders" foreignKeys seeds
    let domain : Domain :=
      [.condition ⟨"shop.name", "=", .literal (.text "x")⟩,
        .condition ⟨"partner.name", "=", .field "partner(L).name"⟩]
    (∀ name, foreignKeys name "" = none) ∧ ProperSeeds seeds ∧
    ∃ columns after otherColumns otherAfter rename formula alone behind otherRename,
      outcome (resolveColumns ["partner.name", "shop.name", "partner.country.code"])
        origin = (.ok columns, after) ∧
      outcome (resolveColumns ["partner.country.code", "shop.name", "partner.name"])
        origin = (.ok otherColumns, otherAfter) ∧
      Set.BijOn rename {aliasName | aliasName ∈ after.aliases}
        {aliasName | aliasName ∈ otherAfter.aliases} ∧
      (after.joins.map fun join => (join.renamed rename).unkeyed).Perm
        (otherAfter.joins.map Join.unkeyed) ∧
      outcome domain.bind origin = (.ok formula, alone) ∧
      outcome domain.bind after =
        (.ok (formula.map (.mapColumns (Column.renamed otherRename))), behind) := by
  intro foreignKeys seeds origin domain
  have noRelation : ∀ name, foreignKeys name "" = none := by simp [foreignKeys]
  have proper : ProperSeeds seeds := by
    have parts : Text.split '.' "shop" = ["shop"] := by decide +kernel
    have read : Hop.read "shop" = .ok ⟨"shop", .inner⟩ := by rfl
    intro seed inSeeds hops hopsRead hop inHops
    obtain rfl := List.mem_singleton.mp inSeeds
    have spelled : Hop.ReadAs (Text.split '.' "shop") [⟨"shop", .inner⟩] := by
      simp [Hop.ReadAs, parts, read]
    obtain rfl := hopsRead.unique spelled
    rw [List.mem_singleton.mp inHops]
    decide
  have resolved : ∃ columns after, outcome (resolveColumns
      ["partner.name", "shop.name", "partner.country.code"]) origin =
        (.ok columns, after) :=
    exists_ok_of_isSome (by decide +kernel)
  have bound : ∃ formula alone, outcome domain.bind origin = (.ok formula, alone) :=
    exists_ok_of_isSome (by decide +kernel)
  obtain ⟨columns, after, ran⟩ := resolved
  obtain ⟨formula, alone, formulaRan⟩ := bound
  obtain ⟨orders, filters⟩ :=
    joins_do_not_depend_on_field_order noRelation proper ran
  have reversed : ["partner.name", "shop.name", "partner.country.code"].Perm
      ["partner.country.code", "shop.name", "partner.name"] :=
    (List.reverse_perm _).symm
  obtain ⟨otherColumns, otherAfter, rename, otherRan, _, _, bijOn, perm, _⟩ :=
    orders _ reversed
  obtain ⟨behind, otherRename, behindRan, _⟩ := filters domain formula alone formulaRan
  exact ⟨noRelation, proper, columns, after, otherColumns, otherAfter, rename, formula,
    alone, behind, otherRename, ran, otherRan, bijOn, perm, formulaRan, behindRan⟩

end Session
end DomainSql
