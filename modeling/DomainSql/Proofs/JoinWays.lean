import DomainSql.Proofs.FilterJoins
import DomainSql.Proofs.InterchangeableSessions
import Mathlib.Data.List.Nodup
import Mathlib.Data.Set.Function
import Mathlib.Tactic.Choose

/-!
# Ways through the joins of a session

A table of a session is reached from the root table along relations, in exactly one
way, and there is at most one table at the end of a way. So a session is known up to
the aliases of its tables by its ways: if every way of one session is a way of another,
renaming aliases embeds the first into the second, and if they have the same ways it
maps the joins of the one onto those of the other.
-/

namespace DomainSql

namespace Table

/-- A table under another alias. -/
def renamed
    (rename : String → String)
    (table : Table) : Table :=
  { table with aliasName := rename table.aliasName }

end Table

namespace Column

/-- A column of a table under another alias. -/
def renamed
    (rename : String → String)
    (column : Column) : Column :=
  { column with table := column.table.renamed rename }

end Column

namespace Join

/-- A join between tables under other aliases. -/
def renamed
    (rename : String → String)
    (join : Join) : Join :=
  { join with
    left := join.left.renamed rename
    right := join.right.renamed rename }

end Join

namespace Session

variable {session other : Session}

/-! ## Ways -/

/-- The joins of the session lead from its root table along relations to a table. -/
def Reaches
    (session : Session)
    (relations : List Relation)
    (table : Table) : Prop :=
  ∃ joins, Leads session.root joins table ∧
    (∀ join ∈ joins, join ∈ session.joins) ∧ joins.map Join.relation = relations

theorem reaches_nil_iff
    {table : Table} :
    session.Reaches [] table ↔ session.root = table := by
  simp [Reaches, Leads]

/-- A way goes on by a join of the session. -/
theorem reaches_concat_iff
    {relations : List Relation}
    {relation : Relation}
    {table : Table} :
    session.Reaches (relations ++ [relation]) table ↔
      ∃ join ∈ session.joins, join.relation = relation ∧ join.right = table ∧
        session.Reaches relations join.left := by
  constructor
  · rintro ⟨joins, leads, inJoins, same⟩
    obtain ⟨front, last, rfl, rfl, lastSame⟩ := List.map_eq_append_iff.mp same
    obtain ⟨join, rfl, rfl⟩ := List.map_eq_singleton_iff.mp lastSame
    obtain ⟨frontLeads, rfl⟩ := leads_concat_iff.mp leads
    exact ⟨join, inJoins join (by simp), rfl, rfl, front, frontLeads,
      fun other inFront => inJoins other (by simp [inFront]), rfl⟩
  · rintro ⟨join, inJoins, rfl, rfl, front, leads, frontInJoins, rfl⟩
    refine ⟨front ++ [join], leads_concat_iff.mpr ⟨leads, rfl⟩, ?_, by simp⟩
    intro other inFront
    rcases List.mem_append.mp inFront with old | new
    · exact frontInJoins other old
    · rwa [List.mem_singleton.mp new]

/-- What is on a way is reached too. -/
theorem Reaches.of_append
    {front back : List Relation}
    {table : Table}
    (reaches : session.Reaches (front ++ back) table) :
    ∃ middle, session.Reaches front middle := by
  induction back using List.reverseRecOn generalizing table with
  | nil => exact ⟨table, by simpa using reaches⟩
  | append_singleton back relation inductionHypothesis =>
      rw [← List.append_assoc] at reaches
      obtain ⟨join, _, _, _, before⟩ := reaches_concat_iff.mp reaches
      exact inductionHypothesis before

/-- A way has at most one end. -/
theorem Coherent.table_unique
    (coherent : session.Coherent)
    {relations : List Relation}
    {table otherTable : Table}
    (reaches : session.Reaches relations table)
    (otherReaches : session.Reaches relations otherTable) :
    table = otherTable := by
  obtain ⟨joins, leads, inJoins, rfl⟩ := reaches
  obtain ⟨others, otherLeads, inOthers, same⟩ := otherReaches
  obtain rfl := coherent.eq_of_relations_eq otherLeads leads inOthers inJoins same
  exact leads.unique otherLeads

/-- At most one way ends at a table. -/
theorem Coherent.way_unique
    (coherent : session.Coherent)
    {relations others : List Relation}
    {table : Table}
    (reaches : session.Reaches relations table)
    (otherReaches : session.Reaches others table) :
    relations = others := by
  obtain ⟨joins, leads, inJoins, rfl⟩ := reaches
  obtain ⟨otherJoins, otherLeads, inOthers, rfl⟩ := otherReaches
  rw [coherent.eq_of_last_eq leads otherLeads inJoins inOthers]

theorem Reaches.table_mem
    {relations : List Relation}
    {table : Table}
    (reaches : session.Reaches relations table) :
    table ∈ introduced session.root session.joins := by
  rcases List.eq_nil_or_concat relations with rfl | ⟨front, relation, rfl⟩
  · rw [← reaches_nil_iff.mp reaches]
    exact List.mem_cons_self
  · rw [List.concat_eq_append] at reaches
    obtain ⟨join, inJoins, _, rfl, _⟩ := reaches_concat_iff.mp reaches
    exact List.mem_cons_of_mem _ (List.mem_map_of_mem inJoins)

/-- The last relation of a way says the name of the table at its end. -/
theorem Reaches.name_eq
    (root : other.root.name = session.root.name)
    {relations : List Relation}
    {table otherTable : Table}
    (reaches : session.Reaches relations table)
    (otherReaches : other.Reaches relations otherTable) :
    otherTable.name = table.name := by
  rcases List.eq_nil_or_concat relations with rfl | ⟨front, relation, rfl⟩
  · rw [← reaches_nil_iff.mp reaches, ← reaches_nil_iff.mp otherReaches, root]
  · rw [List.concat_eq_append] at reaches otherReaches
    obtain ⟨join, _, same, rfl, _⟩ := reaches_concat_iff.mp reaches
    obtain ⟨otherJoin, _, otherSame, rfl, _⟩ := reaches_concat_iff.mp otherReaches
    exact congrArg Relation.table (otherSame.trans same.symm)

theorem Walked.reaches
    {hops : List Hop}
    {joins : List Join}
    {table : Table}
    (walked : session.Walked hops joins table)
    (coherent : session.Coherent)
    (namesHops : session.NamesHops) :
    session.Reaches (joins.map Join.relation) table :=
  ⟨joins, walked.leads coherent namesHops, walked.mem_joins coherent, rfl⟩

/-- Every join of a session goes on from a table that is reached. -/
theorem Coherent.exists_reaches_left
    (coherent : session.Coherent)
    (namesHops : session.NamesHops)
    {join : Join}
    (inJoins : join ∈ session.joins) :
    ∃ relations, session.Reaches relations join.left := by
  obtain ⟨hops, joins, _, _, _, walked, _⟩ :=
    coherent.traced join.key join (coherent.ownKey join inJoins)
  exact ⟨_, walked.reaches coherent namesHops⟩

/-- Every table of a session is reached. -/
theorem Coherent.exists_reaches
    (coherent : session.Coherent)
    (namesHops : session.NamesHops)
    {table : Table}
    (inTables : table ∈ introduced session.root session.joins) :
    ∃ relations, session.Reaches relations table := by
  rcases List.mem_cons.mp inTables with rfl | isRight
  · exact ⟨[], reaches_nil_iff.mpr rfl⟩
  · obtain ⟨join, inJoins, rfl⟩ := List.mem_map.mp isRight
    obtain ⟨relations, reaches⟩ := coherent.exists_reaches_left namesHops inJoins
    exact ⟨relations ++ [join.relation],
      reaches_concat_iff.mpr ⟨join, inJoins, rfl, rfl, reaches⟩⟩

/-- A table of a session is determined by its alias. -/
theorem Coherent.table_eq_of_alias_eq
    (coherent : session.Coherent)
    {left right : Table}
    (inLeft : left ∈ introduced session.root session.joins)
    (inRight : right ∈ introduced session.root session.joins)
    (same : left.aliasName = right.aliasName) :
    left = right := by
  rcases List.mem_cons.mp inLeft with rfl | leftIsRight <;>
    rcases List.mem_cons.mp inRight with rfl | rightIsRight
  · rfl
  · obtain ⟨join, inJoins, rfl⟩ := List.mem_map.mp rightIsRight
    exact absurd same.symm (coherent.alias_ne_root inJoins)
  · obtain ⟨join, inJoins, rfl⟩ := List.mem_map.mp leftIsRight
    exact absurd same (coherent.alias_ne_root inJoins)
  · obtain ⟨join, inJoins, rfl⟩ := List.mem_map.mp leftIsRight
    obtain ⟨otherJoin, inOthers, rfl⟩ := List.mem_map.mp rightIsRight
    rw [coherent.eq_of_alias_eq inJoins inOthers same]

/-- The aliases of the tables of a session, the root table first. -/
def aliases (session : Session) : List String :=
  (introduced session.root session.joins).map Table.aliasName

/-- The joins of a session have different aliases. -/
theorem Coherent.nodup_joinAliases
    (coherent : session.Coherent) :
    (session.joins.map fun join => join.right.aliasName).Nodup := by
  have places : (session.joins.map fun join => join.right.aliasName) =
      (List.range session.joins.length).map fun place => tableAlias (place + 1) := by
    refine List.ext_getElem (by simp) fun place inJoins _ => ?_
    rw [List.length_map] at inJoins
    simpa using coherent.aliases place _ (List.getElem?_eq_getElem inJoins)
  rw [places]
  refine List.Nodup.map ?_ List.nodup_range
  intro left right same
  exact Nat.succ.inj (tableAlias_inj same)

/-! ## Renaming aliases -/

/-- Under the renaming, every way of the session leads in the other one to the same
table. -/
def Embeds
    (rename : String → String)
    (session other : Session) : Prop :=
  ∀ relations table, session.Reaches relations table →
    other.Reaches relations (table.renamed rename)

/-- A session whose ways are all ways of another can be embedded into it. -/
theorem Coherent.exists_embeds
    (coherent : session.Coherent)
    (otherCoherent : other.Coherent)
    (root : other.root.name = session.root.name)
    (ways : ∀ relations table, session.Reaches relations table →
      ∃ otherTable, other.Reaches relations otherTable) :
    ∃ rename, Embeds rename session other := by
  -- An alias determines its table, the table its way, and the way the other table.
  have image : ∀ aliasName, ∃ otherAlias, ∀ relations table otherTable,
      session.Reaches relations table → table.aliasName = aliasName →
      other.Reaches relations otherTable → otherTable.aliasName = otherAlias := by
    intro aliasName
    by_cases known : ∃ relations table otherTable,
        session.Reaches relations table ∧ table.aliasName = aliasName ∧
        other.Reaches relations otherTable
    · obtain ⟨relations, table, otherTable, reaches, rfl, otherReaches⟩ := known
      refine ⟨otherTable.aliasName, ?_⟩
      intro otherRelations third fourth thirdReaches same fourthReaches
      obtain rfl := coherent.table_eq_of_alias_eq thirdReaches.table_mem
        reaches.table_mem same
      obtain rfl := coherent.way_unique thirdReaches reaches
      rw [otherCoherent.table_unique fourthReaches otherReaches]
    · refine ⟨aliasName, fun relations table otherTable reaches same otherReaches => ?_⟩
      exact absurd ⟨relations, table, otherTable, reaches, same, otherReaches⟩ known
  choose rename renames using image
  refine ⟨rename, fun relations table reaches => ?_⟩
  obtain ⟨otherTable, otherReaches⟩ := ways relations table reaches
  have sameAlias := renames _ relations table otherTable reaches rfl otherReaches
  have sameName := reaches.name_eq root otherReaches
  have same : otherTable = table.renamed rename := by
    rw [Table.renamed, ← sameAlias, ← sameName]
  rwa [← same]

namespace Embeds

variable {rename : String → String}

theorem root
    (embeds : Embeds rename session other) :
    session.root.renamed rename = other.root :=
  (reaches_nil_iff.mp (embeds [] session.root (reaches_nil_iff.mpr rfl))).symm

/-- The renamed table stands in the other session where the table does in the first
one. -/
theorem table_eq
    (embeds : Embeds rename session other)
    (otherCoherent : other.Coherent)
    {relations : List Relation}
    {table otherTable : Table}
    (reaches : session.Reaches relations table)
    (otherReaches : other.Reaches relations otherTable) :
    otherTable = table.renamed rename :=
  otherCoherent.table_unique otherReaches (embeds relations table reaches)

/-- The renaming keeps different aliases different. -/
theorem injOn
    (embeds : Embeds rename session other)
    (coherent : session.Coherent)
    (namesHops : session.NamesHops)
    (otherCoherent : other.Coherent) :
    Set.InjOn rename {aliasName | aliasName ∈ session.aliases} := by
  intro leftAlias leftIn rightAlias rightIn same
  obtain ⟨left, inLeft, rfl⟩ := List.mem_map.mp leftIn
  obtain ⟨right, inRight, rfl⟩ := List.mem_map.mp rightIn
  obtain ⟨relations, reaches⟩ := coherent.exists_reaches namesHops inLeft
  obtain ⟨others, otherReaches⟩ := coherent.exists_reaches namesHops inRight
  have leftReaches := embeds relations left reaches
  have rightReaches := embeds others right otherReaches
  have sameTable := otherCoherent.table_eq_of_alias_eq leftReaches.table_mem
    rightReaches.table_mem same
  rw [sameTable] at leftReaches
  obtain rfl := otherCoherent.way_unique leftReaches rightReaches
  rw [coherent.table_unique reaches otherReaches]

/-- The renamed joins are joins of the other session, up to their keys. -/
theorem exists_join
    (embeds : Embeds rename session other)
    (coherent : session.Coherent)
    (namesHops : session.NamesHops)
    (otherCoherent : other.Coherent)
    {join : Join}
    (inJoins : join ∈ session.joins) :
    ∃ otherJoin ∈ other.joins, otherJoin.unkeyed = (join.renamed rename).unkeyed := by
  obtain ⟨relations, reaches⟩ := coherent.exists_reaches_left namesHops inJoins
  have whole := embeds (relations ++ [join.relation]) join.right
    (reaches_concat_iff.mpr ⟨join, inJoins, rfl, rfl, reaches⟩)
  obtain ⟨otherJoin, inOthers, sameRelation, sameRight, otherReaches⟩ :=
    reaches_concat_iff.mp whole
  have sameLeft := embeds.table_eq otherCoherent reaches otherReaches
  refine ⟨otherJoin, inOthers, ?_⟩
  simp only [Join.relation, Relation.mk.injEq] at sameRelation
  simp [Join.unkeyed, Join.renamed, sameLeft, sameRight, sameRelation]

/-- The renaming is onto the aliases of a session that has no other ways. -/
theorem bijOn
    (embeds : Embeds rename session other)
    (coherent : session.Coherent)
    (namesHops : session.NamesHops)
    (otherCoherent : other.Coherent)
    (otherNamesHops : other.NamesHops)
    (back : ∀ relations otherTable, other.Reaches relations otherTable →
      ∃ table, session.Reaches relations table) :
    Set.BijOn rename {aliasName | aliasName ∈ session.aliases}
      {aliasName | aliasName ∈ other.aliases} := by
  refine ⟨?_, embeds.injOn coherent namesHops otherCoherent, ?_⟩
  · intro aliasName aliasIn
    obtain ⟨table, inTables, rfl⟩ := List.mem_map.mp aliasIn
    obtain ⟨relations, reaches⟩ := coherent.exists_reaches namesHops inTables
    change (table.renamed rename).aliasName ∈ other.aliases
    exact List.mem_map_of_mem (embeds relations table reaches).table_mem
  · intro otherAlias aliasIn
    obtain ⟨otherTable, inTables, rfl⟩ := List.mem_map.mp aliasIn
    obtain ⟨relations, otherReaches⟩ :=
      otherCoherent.exists_reaches otherNamesHops inTables
    obtain ⟨table, reaches⟩ := back relations otherTable otherReaches
    refine ⟨table.aliasName, List.mem_map_of_mem reaches.table_mem, ?_⟩
    rw [embeds.table_eq otherCoherent reaches otherReaches]
    rfl

/-- The renamed joins are those of a session that has no other ways, up to their order
and their keys. -/
theorem joins_perm
    (embeds : Embeds rename session other)
    (coherent : session.Coherent)
    (namesHops : session.NamesHops)
    (otherCoherent : other.Coherent)
    (otherNamesHops : other.NamesHops)
    (back : ∀ relations otherTable, other.Reaches relations otherTable →
      ∃ table, session.Reaches relations table) :
    (session.joins.map fun join => (join.renamed rename).unkeyed).Perm
      (other.joins.map Join.unkeyed) := by
  have nodup : (session.joins.map fun join => (join.renamed rename).unkeyed).Nodup := by
    refine List.Nodup.of_map (fun join => join.right.aliasName) ?_
    have renamed : (session.joins.map fun join => (join.renamed rename).unkeyed).map
          (fun join => join.right.aliasName) =
        (session.joins.map fun join => join.right.aliasName).map rename := by
      simp [Join.unkeyed, Join.renamed, Table.renamed]
    rw [renamed]
    refine List.Nodup.map_on ?_ coherent.nodup_joinAliases
    have inAliases : ∀ aliasName ∈ session.joins.map fun join => join.right.aliasName,
        aliasName ∈ session.aliases := by
      intro aliasName aliasIn
      obtain ⟨join, inJoins, rfl⟩ := List.mem_map.mp aliasIn
      exact List.mem_map_of_mem (List.mem_cons_of_mem _ (List.mem_map_of_mem inJoins))
    exact fun left leftIn right rightIn same =>
      embeds.injOn coherent namesHops otherCoherent (inAliases left leftIn)
        (inAliases right rightIn) same
  have otherNodup : (other.joins.map Join.unkeyed).Nodup := by
    refine List.Nodup.of_map (fun join => join.right.aliasName) ?_
    rw [List.map_map]
    exact otherCoherent.nodup_joinAliases
  refine (List.perm_ext_iff_of_nodup nodup otherNodup).mpr fun shown => ?_
  constructor
  · intro isShown
    obtain ⟨join, inJoins, rfl⟩ := List.mem_map.mp isShown
    obtain ⟨otherJoin, inOthers, same⟩ :=
      embeds.exists_join coherent namesHops otherCoherent inJoins
    exact List.mem_map.mpr ⟨otherJoin, inOthers, same⟩
  · intro isShown
    obtain ⟨otherJoin, inOthers, rfl⟩ := List.mem_map.mp isShown
    obtain ⟨relations, leftReaches⟩ :=
      otherCoherent.exists_reaches_left otherNamesHops inOthers
    have otherReaches := reaches_concat_iff.mpr
      ⟨otherJoin, inOthers, rfl, rfl, leftReaches⟩
    obtain ⟨table, reaches⟩ := back _ _ otherReaches
    obtain ⟨join, inJoins, sameRelation, rfl, _⟩ := reaches_concat_iff.mp reaches
    -- The join that has been found embeds into the one it was found by.
    have sameRight := embeds.table_eq otherCoherent reaches otherReaches
    obtain ⟨image, inImages, same⟩ :=
      embeds.exists_join coherent namesHops otherCoherent inJoins
    have sameAlias : image.right.aliasName = otherJoin.right.aliasName := by
      rw [sameRight]
      exact congrArg (fun shown : Join => shown.right.aliasName) same
    obtain rfl := otherCoherent.eq_of_alias_eq inImages inOthers sameAlias
    exact List.mem_map.mpr ⟨join, inJoins, same.symm⟩

end Embeds
end Session
end DomainSql
