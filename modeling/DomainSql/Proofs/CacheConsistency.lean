import DomainSql.Proofs.SessionHistory
import Mathlib.Data.List.Nodup

/-!
# Joins and the keys that lead to them

The cache and the joins of a session tell the same story. Every key of the cache leads to
a join of the session, every join has a key of its own, and the joins are those of the
cache in the order in which their first keys came in. No two of them lead from one table
along one relation. All of this is kept when a new key is entered, and a session only
ever enters keys that are new, so it holds after every history, whatever relations were
given and however hops were spelled.
-/

namespace DomainSql
namespace Session

/-! ## What is kept by entering new keys -/

section Invariants

variable {kept : Session → Prop}

/-- Entering a key that is new keeps a property of sessions. -/
def KeptByEntering (kept : Session → Prop) : Prop :=
  ∀ (session : Session) (key : String) (left : Table) (relation : Relation),
    session.cache.lookup key = none → kept session →
      kept (session.enter key left relation).2

theorem KeptByEntering.follow
    (enters : KeptByEntering kept)
    {session : Session}
    (before : kept session)
    (key : String)
    (left : Table)
    (hop : Hop) :
    kept (outcome (follow key left hop) session).2 := by
  rw [outcome_follow]
  split
  · exact before
  · rename_i new
    split
    · exact before
    · exact enters session key left _ new before

theorem KeptByEntering.walkFrom
    (enters : KeptByEntering kept)
    {session : Session}
    (before : kept session)
    (table : Table)
    (key : String)
    (texts : List String) :
    kept (outcome (walkFrom table key texts) session).2 := by
  induction texts generalizing session table key with
  | nil => exact before
  | cons text rest inductionHypothesis =>
      rw [Session.walkFrom]
      apply outcome_bind_keeps
      · rw [outcome_readHop]
        exact before
      · intro hop read _ atHop
        apply outcome_bind_keeps (enters.follow atHop (Hop.extend key hop) table hop)
        intro join middle _ followed
        apply outcome_bind_keeps
          (inductionHypothesis followed join.right (Hop.extend key hop))
        exact fun _ _ _ walked => walked

theorem KeptByEntering.walk
    (enters : KeptByEntering kept)
    {session : Session}
    (before : kept session)
    (texts : List String) :
    kept (outcome (walk texts) session).2 := by
  rw [outcome_walk]
  exact enters.walkFrom before session.root "" texts

theorem KeptByEntering.resolvePath
    (enters : KeptByEntering kept)
    {session : Session}
    (before : kept session)
    (texts : List String) :
    kept (outcome (resolvePath texts) session).2 := by
  rw [Session.resolvePath]
  apply outcome_bind_keeps (enters.walk before texts)
  rintro ⟨last, joins⟩ after _ walked
  dsimp only
  split <;> exact walked

theorem KeptByEntering.resolveField
    (enters : KeptByEntering kept)
    {session : Session}
    (before : kept session)
    (field : String) :
    kept (outcome (resolveField field) session).2 := by
  rw [Session.resolveField]
  split
  · exact before
  · apply outcome_bind_keeps (enters.walk before _)
    exact fun _ _ _ walked => walked

/-- What is kept by entering new keys and by giving relations, operations keep. -/
theorem KeptByEntering.after
    (enters : KeptByEntering kept)
    (gives : ∀ session path relation, kept session →
      kept (outcome (seed path relation) session).2)
    {session : Session}
    (before : kept session)
    (operation : Operation) :
    kept (operation.after session) := by
  have resolves : ∀ {Result : Type} {act : Resolving Result}, ResolvesFields act →
      kept (outcome act session).2 := by
    intro Result act resolvesFields
    refine ResolvesFields.keeps (fun path middle (still : kept middle) => ?_)
      resolvesFields before
    exact enters.resolveField still path
  cases operation with
  | seed path relation => exact gives session path relation before
  | field path => exact enters.resolveField before path
  | hops texts => exact enters.resolvePath before texts
  | condition condition => exact resolves condition.resolvesFields_bind
  | call call => exact resolves call.resolvesFields_bind
  | compile domain => exact resolves domain.resolvesFields_bind

/-- What is kept by entering new keys and by giving relations, histories keep. -/
theorem KeptByEntering.run
    (enters : KeptByEntering kept)
    (gives : ∀ session path relation, kept session →
      kept (outcome (seed path relation) session).2)
    {session : Session}
    (before : kept session)
    (operations : List Operation) :
    kept (session.run operations) := by
  induction operations generalizing session with
  | nil => exact before
  | cons operation rest inductionHypothesis =>
      rw [run_cons]
      exact inductionHypothesis (enters.after gives before operation)

end Invariants

/-! ## Consistent sessions -/

/-- The cache and the joins of a session agree. The joins are those that the cache leads
to, in the order in which it comes to them. -/
structure Consistent (session : Session) : Prop where
  keys : session.keys.Nodup
  firstMet : (session.cache.map Prod.snd).eraseDups = session.joins
  ownKey : ∀ join ∈ session.joins, session.cache.lookup join.key = some join
  distinct : session.joins.Pairwise fun join other =>
    ¬(join.left = other.left ∧ join.relation = other.relation)

namespace Consistent

variable {session : Session}

theorem start
    (table : String)
    (foreignKeys : ForeignKeys) :
    (start table foreignKeys).Consistent where
  keys := .nil
  firstMet := rfl
  ownKey := by simp [Session.start]
  distinct := .nil

theorem mem_joins_iff
    (consistent : session.Consistent)
    {join : Join} :
    join ∈ session.joins ↔ join ∈ session.cache.map Prod.snd := by
  rw [← consistent.firstMet, List.mem_eraseDups]

theorem nodup_joins (consistent : session.Consistent) : session.joins.Nodup :=
  consistent.distinct.imp fun {join other} apart same => apart (by rw [same]; simp)

/-- No two joins have the same key. -/
theorem nodup_joinKeys (consistent : session.Consistent) :
    (session.joins.map Join.key).Nodup := by
  apply consistent.nodup_joins.map_on
  intro join inJoins other inOthers same
  have cached := consistent.ownKey join inJoins
  rw [same, consistent.ownKey other inOthers, Option.some.injEq] at cached
  exact cached.symm

/-- Entering a new key appends its join to the joins unless the cache leads to it
already. -/
theorem enter
    (consistent : session.Consistent)
    {key : String}
    (left : Table)
    (relation : Relation)
    (new : session.cache.lookup key = none) :
    (session.enter key left relation).2.Consistent := by
  have fresh : key ∉ session.keys := by
    intro inKeys
    obtain ⟨⟨_, join⟩, inCache, rfl⟩ := List.mem_map.mp inKeys
    simpa using List.lookup_eq_none_iff.mp new _ inCache
  refine ⟨?_, ?_, fun join => enter_ownKey consistent.ownKey new, ?_⟩
  · rw [Session.keys, enter_cache, List.map_append, List.map_singleton]
    apply consistent.keys.append (List.nodup_singleton key)
    exact List.disjoint_singleton.mpr fresh
  · rw [enter_cache, List.map_append, List.map_singleton, List.eraseDups_append,
      consistent.firstMet]
    rcases enter_joins session key left relation with
      ⟨inJoins, same⟩ | ⟨unshared, isNext, added⟩
    · have met := consistent.mem_joins_iff.mp inJoins
      rw [same]
      simp [List.cons_removeAll, met]
    · have notMet : session.nextJoin key left relation ∉ session.cache.map Prod.snd := by
        rw [← consistent.mem_joins_iff]
        exact fun inJoins => of_shared?_eq_none unshared inJoins ⟨rfl, rfl⟩
      rw [isNext, added]
      simp [List.cons_removeAll, notMet, List.eraseDups_cons]
  · rcases enter_joins session key left relation with ⟨_, same⟩ | ⟨unshared, _, added⟩
    · rw [same]
      exact consistent.distinct
    · rw [added]
      refine List.pairwise_append.mpr
        ⟨consistent.distinct, List.pairwise_singleton _ _, ?_⟩
      intro join inJoins other isNext
      rw [List.mem_singleton.mp isNext]
      exact of_shared?_eq_none unshared inJoins

theorem seed
    (consistent : session.Consistent)
    (path : String)
    (relation : Relation) :
    (outcome (seed path relation) session).2.Consistent := by
  rcases outcome_seed path relation session with same | ⟨_, _, _, seeded⟩
  · rwa [same]
  · rw [seeded]
    exact ⟨consistent.keys, consistent.firstMet, consistent.ownKey, consistent.distinct⟩

theorem run
    (consistent : session.Consistent)
    (operations : List Operation) :
    (session.run operations).Consistent := by
  have enters : KeptByEntering Consistent :=
    fun _ _ left relation new before => before.enter left relation new
  exact enters.run (fun _ path relation before => before.seed path relation)
    consistent operations

end Consistent

/-- However a session has come about, every key of its cache leads to a join at exactly
one place, no key is in the cache twice, every join is the one that its own key leads to,
and no two joins have the same key. The joins are those that the cache leads to, in the
order in which its keys come to them first, and no two of them lead from one table to the
same other one by the same kind of join on the same columns. -/
theorem cache_and_joins_agree
    (table : String)
    (foreignKeys : ForeignKeys)
    (operations : List Operation) :
    let session := (start table foreignKeys).run operations
    (∀ key join, session.cache.lookup key = some join →
      ∃! place : Nat, session.joins[place]? = some join) ∧
    session.keys.Nodup ∧
    (∀ join ∈ session.joins, session.cache.lookup join.key = some join) ∧
    (session.joins.map Join.key).Nodup ∧
    (session.cache.map Prod.snd).eraseDups = session.joins ∧
    session.joins.Pairwise fun join other =>
      ¬(join.left = other.left ∧ join.right.name = other.right.name ∧
        join.kind = other.kind ∧ join.leftColumn = other.leftColumn ∧
        join.rightColumn = other.rightColumn) := by
  intro session
  have consistent : session.Consistent :=
    (Consistent.start table foreignKeys).run operations
  refine ⟨?_, consistent.keys, consistent.ownKey, consistent.nodup_joinKeys,
    consistent.firstMet, ?_⟩
  · intro key join cached
    have inJoins : join ∈ session.joins := by
      rw [consistent.mem_joins_iff]
      obtain ⟨front, back, split, _⟩ := List.lookup_eq_some_iff.mp cached
      exact List.mem_map.mpr ⟨(key, join), by simp [split], rfl⟩
    obtain ⟨place, inRange, found⟩ := List.getElem_of_mem inJoins
    refine ⟨place, List.getElem?_eq_some_iff.mpr ⟨inRange, found⟩, ?_⟩
    intro other otherFound
    obtain ⟨otherInRange, same⟩ := List.getElem?_eq_some_iff.mp otherFound
    exact consistent.nodup_joins.getElem_inj_iff.mp (same.trans found.symm)
  · apply consistent.distinct.imp
    rintro join other apart ⟨left, name, kind, leftColumn, rightColumn⟩
    exact apart ⟨left, by simp [Join.relation, name, kind, leftColumn, rightColumn]⟩

/-- A given relation that is also that of a foreign key leads to one join by two keys,
and a path that fails behind the second one does not change this. -/
theorem given_relation_is_shared_with_foreign_key :
    let foreignKeys : ForeignKeys := fun table field =>
      if table = "orders" ∧ field = "partner" then
        some ⟨"partners", "partner_id", "id"⟩
      else none
    let operations : List Operation :=
      [.seed "owner" ⟨"partners", .inner, "partner_id", "id"⟩,
        .field "owner.name",
        .hops ["partner", "missing"]]
    let session := (start "orders" foreignKeys).run operations
    let join : Join :=
      ⟨"owner", ⟨"orders", "t0"⟩, ⟨"partners", "t1"⟩, .inner, "partner_id", "id"⟩
    session.keys = ["owner", "partner"] ∧
      session.cache.lookup "partner" = some join ∧
      (∃! place : Nat, session.joins[place]? = some join) ∧
      session.cache.lookup join.key = some join := by
  intro foreignKeys operations session join
  have keys : session.keys = ["owner", "partner"] := by decide +kernel
  have cached : session.cache.lookup "partner" = some join := by decide +kernel
  obtain ⟨led, _, own, _⟩ := cache_and_joins_agree "orders" foreignKeys operations
  have atPlace := led "partner" join cached
  obtain ⟨place, found⟩ := atPlace.exists
  exact ⟨keys, cached, atPlace, own join (List.mem_of_getElem? found)⟩

end Session
end DomainSql
