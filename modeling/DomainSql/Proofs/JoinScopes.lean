import DomainSql.Proofs.SessionHistory

/-!
# Scopes of joins

The joins of a session can be written in their order: the left table of a join stands
in front of it, as the root table or as the right table of an earlier join, and its
right table has the next alias. This holds of every session that has come about by
operations, whatever relations are given for paths and however hops are spelled, since
a walk never leaves the tables that the session has introduced.
-/

namespace DomainSql
namespace Session

/-! ## Joins in their order -/

/-- The tables that can be mentioned behind a root table and joins. -/
def introduced
    (root : Table)
    (joins : List Join) : List Table :=
  root :: joins.map Join.right

/-- Joins one after the other, each from a table that has been introduced to one with
the next alias. -/
inductive InOrder (root : Table) : List Join → Prop
  | nil : InOrder root []
  | concat
      {joins : List Join}
      {join : Join}
      (inOrder : InOrder root joins)
      (left_mem : join.left ∈ introduced root joins)
      (alias_eq : join.right.aliasName = tableAlias (joins.length + 1)) :
      InOrder root (joins ++ [join])

@[simp] theorem introduced_append
    (root : Table)
    (front back : List Join) :
    introduced root (front ++ back) =
      introduced root front ++ back.map Join.right := by
  simp [introduced]

namespace InOrder

variable {root : Table} {joins : List Join}

/-- The aliases count the tables. -/
theorem aliases
    (inOrder : InOrder root joins)
    (rootAlias : root.aliasName = tableAlias 0) :
    (introduced root joins).map Table.aliasName =
      (List.range (joins.length + 1)).map tableAlias := by
  induction inOrder with
  | nil => simp [introduced, rootAlias]
  | @concat joins join _ _ alias_eq inductionHypothesis =>
      have places : List.range ((joins ++ [join]).length + 1) =
          List.range (joins.length + 1) ++ [joins.length + 1] := by
        rw [List.length_append, List.length_singleton, List.range_succ]
      rw [introduced_append, List.map_append, inductionHypothesis, places]
      simp [alias_eq]

/-- No two tables have the same alias. -/
theorem nodup_aliases
    (inOrder : InOrder root joins)
    (rootAlias : root.aliasName = tableAlias 0) :
    ((introduced root joins).map Table.aliasName).Nodup := by
  rw [inOrder.aliases rootAlias]
  apply List.Pairwise.map tableAlias _ List.nodup_range
  intro left right different same
  exact different (tableAlias_inj same)

theorem alias_getElem?
    (inOrder : InOrder root joins)
    (rootAlias : root.aliasName = tableAlias 0)
    {place : Nat}
    {join : Join}
    (found : joins[place]? = some join) :
    join.right.aliasName = tableAlias (place + 1) := by
  obtain ⟨inRange, rfl⟩ := List.getElem?_eq_some_iff.mp found
  have atPlace := congrArg (·[place + 1]?) (inOrder.aliases rootAlias)
  simpa [introduced, inRange] using atPlace

/-- The left table of a join has been introduced in front of it. -/
theorem left_mem_introduced
    (inOrder : InOrder root joins)
    {front back : List Join}
    {join : Join}
    (split : joins = front ++ join :: back) :
    join.left ∈ introduced root front := by
  induction inOrder generalizing back with
  | nil => simp at split
  | @concat others last _ left_mem _ inductionHypothesis =>
      rcases back.eq_nil_or_concat with rfl | ⟨init, final, rfl⟩
      · obtain ⟨rfl, same⟩ := List.append_inj' split rfl
        rw [List.singleton_inj] at same
        rwa [← same]
      · have whole : others ++ [last] = (front ++ join :: init) ++ [final] := by
          simpa using split
        exact inductionHypothesis (List.append_inj' whole rfl).1

end InOrder

/-! ## What operations keep -/

/-- The joins of the session stand in an order in which they can be written, and its
cache leads to no others. -/
structure WellScoped (session : Session) : Prop where
  rootAlias : session.root.aliasName = tableAlias 0
  inOrder : InOrder session.root session.joins
  mem_joins : ∀ key join, session.cache.lookup key = some join →
    join ∈ session.joins

namespace WellScoped

variable {session : Session}

theorem start
    (table : String)
    (foreignKeys : ForeignKeys) :
    (start table foreignKeys).WellScoped where
  rootAlias := rfl
  inOrder := .nil
  mem_joins := by simp [Session.start]

/-- Entering a key from a table of the session keeps its joins in order. -/
theorem enter
    (wellScoped : session.WellScoped)
    (key : String)
    {left : Table}
    (left_mem : left ∈ introduced session.root session.joins)
    (relation : Relation) :
    (session.enter key left relation).2.WellScoped := by
  have resolves := enter_resolves session key left relation
  refine ⟨?_, ?_, ?_⟩
  · rw [resolves.root]
    exact wellScoped.rootAlias
  · rw [resolves.root]
    rcases enter_joins session key left relation with ⟨_, same⟩ | ⟨_, _, added⟩
    · rw [same]
      exact wellScoped.inOrder
    · rw [added]
      exact .concat wellScoped.inOrder left_mem rfl
  · intro other join cached
    rcases of_lookup_enter cached with known | ⟨_, rfl⟩
    · exact resolves.joins.subset (wellScoped.mem_joins other join known)
    · exact enter_mem_joins session key left relation

/-- Following a hop from a table of the session leads to a join of the session. -/
theorem follow
    (wellScoped : session.WellScoped)
    {key : String}
    {left : Table}
    (left_mem : left ∈ introduced session.root session.joins)
    {hop : Hop}
    {answer : Except Error Join}
    {after : Session}
    (followed : outcome (follow key left hop) session = (answer, after)) :
    after.WellScoped ∧ ∀ join, answer = .ok join → join ∈ after.joins := by
  rw [outcome_follow] at followed
  split at followed
  · rename_i join cached
    cases followed
    refine ⟨wellScoped, ?_⟩
    rintro _ ⟨⟩
    exact wellScoped.mem_joins key join cached
  · split at followed
    · cases followed
      exact ⟨wellScoped, nofun⟩
    · rename_i relation _
      cases followed
      refine ⟨wellScoped.enter key left_mem relation, ?_⟩
      rintro _ ⟨⟩
      exact enter_mem_joins session key left relation

/-- A walk that starts on a table of the session stays on such tables. -/
theorem walkFrom
    (wellScoped : session.WellScoped)
    {table : Table}
    (table_mem : table ∈ introduced session.root session.joins)
    (key : String)
    (texts : List String) :
    (outcome (walkFrom table key texts) session).2.WellScoped := by
  induction texts generalizing session table key with
  | nil => exact wellScoped
  | cons text rest inductionHypothesis =>
      rw [outcome_walkFrom_cons]
      split
      · exact wellScoped
      · rename_i hop _
        rcases followed :
            outcome (Session.follow (Hop.extend key hop) table hop) session with
          ⟨error | join, middle⟩
        · exact (wellScoped.follow table_mem followed).1
        · obtain ⟨middleScoped, answers⟩ := wellScoped.follow table_mem followed
          have right_mem : join.right ∈ introduced middle.root middle.joins :=
            List.mem_cons_of_mem _ (List.mem_map_of_mem (answers join rfl))
          have walked :=
            inductionHypothesis middleScoped right_mem (Hop.extend key hop)
          rcases outcome_eq :
              outcome (Session.walkFrom join.right (Hop.extend key hop) rest) middle with
            ⟨error | ⟨last, joins⟩, after⟩ <;>
          · rw [outcome_eq] at walked
            simpa only [outcome_eq] using walked

theorem walk
    (wellScoped : session.WellScoped)
    (texts : List String) :
    (outcome (walk texts) session).2.WellScoped := by
  rw [outcome_walk]
  exact wellScoped.walkFrom List.mem_cons_self "" texts

theorem resolvePath
    (wellScoped : session.WellScoped)
    (texts : List String) :
    (outcome (resolvePath texts) session).2.WellScoped := by
  rw [Session.resolvePath]
  refine outcome_bind_keeps (wellScoped.walk texts) ?_
  rintro ⟨last, joins⟩ after _ walked
  simp only
  split <;> exact walked

theorem resolveField
    (wellScoped : session.WellScoped)
    (field : String) :
    (outcome (resolveField field) session).2.WellScoped := by
  rw [Session.resolveField]
  split
  · exact wellScoped
  · rename_i texts column _
    exact outcome_bind_keeps (wellScoped.walk texts) fun _ _ _ walked => walked

/-- Operations that only resolve fields keep the joins of a session in order. -/
theorem resolvesFields
    {Result : Type}
    {act : Resolving Result}
    (wellScoped : session.WellScoped)
    (resolvesFields : ResolvesFields act) :
    (outcome act session).2.WellScoped :=
  resolvesFields.keeps (fun path _ kept => kept.resolveField path) wellScoped

/-- Giving a relation changes no join. -/
theorem seed
    (wellScoped : session.WellScoped)
    (path : String)
    (relation : Relation) :
    (outcome (seed path relation) session).2.WellScoped := by
  rcases outcome_seed path relation session with same | ⟨_, _, _, seeded⟩
  · rwa [same]
  · rw [seeded]
    exact ⟨wellScoped.rootAlias, wellScoped.inOrder, wellScoped.mem_joins⟩

/-- Every operation keeps the joins of a session in order, whether or not it fails. -/
theorem after
    (wellScoped : session.WellScoped)
    (operation : Operation) :
    (operation.after session).WellScoped := by
  cases operation with
  | seed path relation => exact wellScoped.seed path relation
  | field path => exact wellScoped.resolveField path
  | hops texts => exact wellScoped.resolvePath texts
  | condition condition =>
      exact wellScoped.resolvesFields condition.resolvesFields_bind
  | call call => exact wellScoped.resolvesFields call.resolvesFields_bind
  | compile domain => exact wellScoped.resolvesFields domain.resolvesFields_bind

theorem run
    (wellScoped : session.WellScoped)
    (operations : List Operation) :
    (session.run operations).WellScoped := by
  induction operations generalizing session with
  | nil => exact wellScoped
  | cons operation rest inductionHypothesis =>
      rw [run_cons]
      exact inductionHypothesis (wellScoped.after operation)

end WellScoped

/-- However a session has come about, its root table has the alias `t0` and the table
of its `n`-th join the alias `t` with the number `n`, all of them different, and every
join leads from the root table or from the right table of an earlier join. -/
theorem joins_never_precede_left_tables
    (table : String)
    (foreignKeys : ForeignKeys)
    (operations : List Operation) :
    let session := (start table foreignKeys).run operations
    session.root.aliasName = "t0" ∧
    (∀ place join, session.joins[place]? = some join →
      join.right.aliasName = "t" ++ Nat.repr (place + 1)) ∧
    ((introduced session.root session.joins).map Table.aliasName).Nodup ∧
    ∀ front join back, session.joins = front ++ join :: back →
      join.left = session.root ∨
        ∃ earlier ∈ front, join.left = earlier.right := by
  intro session
  have wellScoped : session.WellScoped :=
    (WellScoped.start table foreignKeys).run operations
  have nodup := wellScoped.inOrder.nodup_aliases wellScoped.rootAlias
  refine ⟨wellScoped.rootAlias, ?_, nodup, ?_⟩
  · intro place join found
    exact wellScoped.inOrder.alias_getElem? wellScoped.rootAlias found
  · intro front join back split
    have left_mem := wellScoped.inOrder.left_mem_introduced split
    simpa [introduced, eq_comm] using left_mem

end Session
end DomainSql
