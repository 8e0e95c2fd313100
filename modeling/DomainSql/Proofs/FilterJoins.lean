import DomainSql.Proofs.ColumnRun
import DomainSql.Proofs.JoinScopes
import DomainSql.Proofs.PathResolution

/-!
# The joins of a filter

Every column of a filter is on a table that the joins of the filter introduce. If no
foreign key is known for the empty name, the filter has no other joins than those on
the way to its columns: a walk adds a join only on its own way, and ends at a column.
-/

namespace DomainSql
namespace Session

variable {session after : Session}

/-! ## What a walk adds -/

/-- Following a hop adds no join but the one that it leads to. -/
theorem mem_joins_of_follow
    {key : String}
    {left : Table}
    {hop : Hop}
    {join other : Join}
    (followed : outcome (follow key left hop) session = (.ok join, after))
    (inJoins : other ∈ after.joins) :
    other ∈ session.joins ∨ other = join := by
  rw [outcome_follow] at followed
  split at followed
  · cases followed
    exact .inl inJoins
  · split at followed
    · cases followed
    · rename_i relation _
      cases followed
      rcases enter_joins session key left relation with ⟨_, same⟩ | ⟨_, next, added⟩
      · exact .inl (same ▸ inJoins)
      · rw [added, List.mem_append, List.mem_singleton] at inJoins
        rwa [next]

/-- Walking hops adds no joins but those on the way. -/
theorem mem_joins_of_walkFrom
    {table last : Table}
    {key : String}
    {texts : List String}
    {way : List Join}
    {join : Join}
    (walked : outcome (walkFrom table key texts) session = (.ok (last, way), after))
    (inJoins : join ∈ after.joins) :
    join ∈ session.joins ∨ join ∈ way := by
  induction texts generalizing session table key way with
  | nil =>
      cases walked
      exact .inl inJoins
  | cons text rest inductionHypothesis =>
      obtain ⟨hop, next, middle, more, _, followed, restWalked, rfl⟩ :=
        outcome_walkFrom_cons_eq_ok_iff.mp walked
      rcases inductionHypothesis restWalked with inMiddle | onWay
      · rcases mem_joins_of_follow followed inMiddle with old | rfl
        · exact .inl old
        · exact .inr List.mem_cons_self
      · exact .inr (List.mem_cons_of_mem _ onWay)

/-- Resolving a field to its column walks a way to the table of the column, and adds
no joins but those on the way. -/
theorem Coherent.resolveColumn
    (coherent : session.Coherent)
    {path : String}
    {column : Column}
    (ran : outcome (resolveColumn path) session = (.ok column, after)) :
    after.Coherent ∧ session.Resolves after ∧
      ∃ hops way, after.Walked hops way column.table ∧
        ∀ join ∈ after.joins, join ∈ session.joins ∨ join ∈ way := by
  obtain ⟨resolved, answered, rfl⟩ := outcome_resolveColumn_eq_ok_iff.mp ran
  rw [Session.resolveField] at answered
  split at answered
  · cases answered
  · rename_i texts name split
    obtain ⟨⟨last, way⟩, middle, walked, answered⟩ :=
      outcome_bind_eq_ok_iff.mp answered
    cases answered
    have noPoint := point_not_mem_of_splitField split
    obtain ⟨afterCoherent, resolves, leads⟩ := coherent.walk noPoint walked
    obtain ⟨hops, _, cached⟩ := leads last way rfl
    rw [outcome_walk] at walked
    exact ⟨afterCoherent, resolves, hops, way, cached,
      fun join => mem_joins_of_walkFrom walked⟩

/-! ## What a run of fields needs -/

/-- The join is one of a chain of joins from a root table to a table. -/
def OnWay
    (root : Table)
    (joins : List Join)
    (join : Join)
    (table : Table) : Prop :=
  ∃ chain, Leads root chain table ∧ (∀ link ∈ chain, link ∈ joins) ∧ join ∈ chain

theorem OnWay.mono
    {root table : Table}
    {joins more : List Join}
    {join : Join}
    (onWay : OnWay root joins join table)
    (subset : joins ⊆ more) :
    OnWay root more join table := by
  obtain ⟨chain, leads, inJoins, inChain⟩ := onWay
  exact ⟨chain, leads, fun link inLinks => subset (inJoins link inLinks), inChain⟩

/-- What the cache leads along ends at a table of the session. -/
theorem Walked.table_mem
    {hops : List Hop}
    {way : List Join}
    {table : Table}
    (walked : session.Walked hops way table)
    (coherent : session.Coherent) :
    table ∈ introduced session.root session.joins := by
  cases walked with
  | root => exact List.mem_cons_self
  | hop _ _ cached =>
      exact List.mem_cons_of_mem _
        (List.mem_map_of_mem (coherent.mem_joins _ _ cached))

/-- Resolving fields adds tables to a session and takes none away. -/
theorem Resolves.introduced_subset (resolves : session.Resolves after) :
    introduced session.root session.joins ⊆ introduced after.root after.joins := by
  rw [resolves.root]
  exact List.cons_subset_cons _ (List.map_subset _ resolves.joins.subset)

/-- Where fields have been resolved to columns, the session has the tables of these. -/
theorem Coherent.table_mem_of_resolveColumns
    (coherent : session.Coherent)
    {paths : List String}
    {columns : List Column}
    (ran : outcome (resolveColumns paths) session = (.ok columns, after)) :
    session.Resolves after ∧ ∀ column ∈ columns,
      column.table ∈ introduced after.root after.joins := by
  induction paths generalizing session columns with
  | nil =>
      cases ran
      exact ⟨.refl _, nofun⟩
  | cons path rest inductionHypothesis =>
      obtain ⟨column, middle, others, first, restRan, rfl⟩ :=
        outcome_resolveColumns_cons_eq_ok_iff.mp ran
      obtain ⟨middleCoherent, early, _, _, walked, _⟩ := coherent.resolveColumn first
      obtain ⟨late, restTables⟩ := inductionHypothesis middleCoherent restRan
      refine ⟨early.trans late, List.forall_mem_cons.mpr ⟨?_, restTables⟩⟩
      exact late.introduced_subset (walked.table_mem middleCoherent)

/-- The session has the tables of the columns, and every join of it is on the way to
one of them. -/
structure Serves (session : Session) (columns : List Column) : Prop where
  coherent : session.Coherent
  table_mem : ∀ column ∈ columns,
    column.table ∈ introduced session.root session.joins
  onWay : session.NamesHops → ∀ join ∈ session.joins, ∃ column ∈ columns,
    OnWay session.root session.joins join column.table

namespace Serves

theorem start
    (table : String)
    (foreignKeys : ForeignKeys) :
    (start table foreignKeys).Serves [] where
  coherent := coherent_start table foreignKeys
  table_mem := nofun
  onWay := nofun

/-- A session that serves some columns serves one more when its field has been
resolved. -/
theorem resolveColumn
    {columns : List Column}
    (serves : session.Serves columns)
    {path : String}
    {column : Column}
    (ran : outcome (resolveColumn path) session = (.ok column, after)) :
    after.Serves (columns ++ [column]) := by
  obtain ⟨coherent, resolves, hops, way, walked, added⟩ :=
    serves.coherent.resolveColumn ran
  have joinsSubset : session.joins ⊆ after.joins := resolves.joins.subset
  refine ⟨coherent, ?_, ?_⟩
  · intro other inColumns
    rcases List.mem_append.mp inColumns with old | new
    · exact resolves.introduced_subset (serves.table_mem other old)
    · rw [List.mem_singleton.mp new]
      exact walked.table_mem coherent
  · intro namesHops join inJoins
    rcases added join inJoins with old | onWay
    · have namedBefore : session.NamesHops :=
        ⟨resolves.foreignKeys ▸ namesHops.foreignKeys,
          resolves.seeds ▸ namesHops.seeds⟩
      obtain ⟨other, inColumns, otherWay⟩ := serves.onWay namedBefore join old
      rw [resolves.root]
      exact ⟨other, List.mem_append_left _ inColumns, otherWay.mono joinsSubset⟩
    · exact ⟨column, by simp, way, walked.leads coherent namesHops,
        walked.mem_joins coherent, onWay⟩

theorem resolveColumns
    {columns others : List Column}
    (serves : session.Serves columns)
    {paths : List String}
    (ran : outcome (resolveColumns paths) session = (.ok others, after)) :
    after.Serves (columns ++ others) := by
  induction paths generalizing session columns others with
  | nil =>
      cases ran
      simpa using serves
  | cons path rest inductionHypothesis =>
      obtain ⟨column, middle, restColumns, first, restRan, rfl⟩ :=
        outcome_resolveColumns_cons_eq_ok_iff.mp ran
      have restServes := inductionHypothesis (serves.resolveColumn first) restRan
      simpa using restServes

end Serves
end Session

namespace Filter

open Session

/-- A filter comes from a run over the fields of its domain, whose columns are its
own. -/
theorem serves_of_ofDomain
    {table : String}
    {foreignKeys : ForeignKeys}
    {domain : Domain}
    {filter : Filter}
    (accepted : ofDomain table foreignKeys domain = .ok filter) :
    ∃ session : Session, session.root = filter.root ∧ session.joins = filter.joins ∧
      (start table foreignKeys).Resolves session ∧
      session.Serves
        (filter.formula.leaves.reverse.flatMap BoundCondition.columns) := by
  obtain ⟨session, ran, root_eq, joins_eq⟩ := exists_bind_of_ofDomain accepted
  have resolved := Domain.resolveColumns_of_bind ran
  have serves := (Serves.start table foreignKeys).resolveColumns resolved
  refine ⟨session, root_eq.symm, joins_eq.symm, ?_, by simpa using serves⟩
  exact (domain.resolvesFields_bind.keeps_coherent
    (coherent_start table foreignKeys) ran).2

/-- Every column in a filter is on the root table or on the right table of one of its
joins. If no foreign key is known for the empty name, every join of the filter is on
the way from the root table to the table of one of its columns. -/
theorem joins_of_ofDomain_are_those_needed
    {table : String}
    {foreignKeys : ForeignKeys}
    {domain : Domain}
    {filter : Filter}
    (accepted : ofDomain table foreignKeys domain = .ok filter) :
    (∀ condition ∈ filter.formula.leaves, ∀ column ∈ condition.columns,
      column.table = filter.root ∨
        ∃ join ∈ filter.joins, column.table = join.right) ∧
    ((∀ name, foreignKeys name "" = none) →
      ∀ join ∈ filter.joins,
        ∃ condition ∈ filter.formula.leaves, ∃ column ∈ condition.columns,
          OnWay filter.root filter.joins join column.table) := by
  obtain ⟨session, root_eq, joins_eq, resolves, serves⟩ := serves_of_ofDomain accepted
  rw [← root_eq, ← joins_eq]
  constructor
  · intro condition inLeaves column inColumns
    have inTables := serves.table_mem column
      (List.mem_flatMap.mpr ⟨condition, List.mem_reverse.mpr inLeaves, inColumns⟩)
    simpa [introduced, eq_comm] using inTables
  · intro noRelation join inJoins
    have namesHops : session.NamesHops := by
      refine ⟨?_, ?_⟩
      · rw [resolves.foreignKeys]
        exact noRelation
      · rw [resolves.seeds]
        simp [start]
    obtain ⟨column, inColumns, onWay⟩ := serves.onWay namesHops join inJoins
    obtain ⟨condition, inLeaves, inCondition⟩ := List.mem_flatMap.mp inColumns
    exact ⟨condition, List.mem_reverse.mp inLeaves, column, inCondition, onWay⟩

/-- The join in the middle of a path is needed by the column at its end, in a domain whose
other condition resolves a field inside a call along another kind of join. -/
theorem joins_needed_by_chained_fields :
    let foreignKeys : ForeignKeys := fun table field =>
      if table = "orders" ∧ field = "partner" then
        some ⟨"partners", "partner_id", "id"⟩
      else if table = "partners" ∧ field = "country" then
        some ⟨"countries", "country_id", "id"⟩
      else none
    let domain : Domain :=
      [.condition ⟨"state", "=",
          .call ⟨.coalesce, [.field "partner(L).state", .literal .null]⟩⟩,
        .condition ⟨"partner.country.code", "=", .field "partner.name"⟩]
    let country : Join :=
      ⟨"partner.country", ⟨"partners", "t1"⟩, ⟨"countries", "t2"⟩, .inner,
        "country_id", "id"⟩
    ∃ filter, ofDomain "orders" foreignKeys domain = .ok filter ∧
      (∀ name, foreignKeys name "" = none) ∧
      country ∈ filter.joins ∧
      ∃ condition ∈ filter.formula.leaves, ∃ column ∈ condition.columns,
        OnWay filter.root filter.joins country column.table := by
  intro foreignKeys domain country
  have computed : (ofDomain "orders" foreignKeys domain).toOption.map
      (fun filter => decide (country ∈ filter.joins)) = some true := by
    decide +kernel
  obtain ⟨filter, found, decided⟩ := Option.map_eq_some_iff.mp computed
  have accepted := eq_ok_of_toOption_eq_some found
  have noRelation : ∀ name, foreignKeys name "" = none := by simp [foreignKeys]
  have inJoins : country ∈ filter.joins := of_decide_eq_true decided
  exact ⟨filter, accepted, noRelation, inJoins,
    (joins_of_ofDomain_are_those_needed accepted).2 noRelation country inJoins⟩

end Filter
end DomainSql
