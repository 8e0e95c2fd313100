import DomainSql.Proofs.SessionHistory

/-!
# Growth of a session

Whatever a session holds, an operation on it only adds to its joins and to its cache,
whether or not it fails. An operation that has resolved its fields has left their keys
in the cache, where later operations do not touch them: run again, it has the same
answer and changes nothing.
-/

namespace DomainSql
namespace Session

/-! ## Operations that can be repeated -/

/-- The operation only adds to a session. Where it has succeeded, it has the same answer
in every session that has grown from there, and changes nothing. -/
structure Repeatable {Result : Type} (act : Resolving Result) : Prop where
  grows : ∀ session : Session, session.Grows (outcome act session).2
  again : ∀ {session after later : Session} {result : Result},
    outcome act session = (.ok result, after) → after.Grows later →
      outcome act later = (.ok result, later)

namespace Repeatable

variable {Result Next : Type}

theorem pure (result : Result) :
    Repeatable (Pure.pure result : Resolving Result) where
  grows := .refl
  again := by
    rintro session after later other ran _
    cases ran
    rfl

theorem throw (error : Error) :
    Repeatable (MonadExcept.throw error : Resolving Result) where
  grows := .refl
  again := nofun

/-- What the first steps of an operation have added is still there when the rest has
been run. -/
theorem bind
    {act : Resolving Result}
    {next : Result → Resolving Next}
    (first : Repeatable act)
    (rest : ∀ result, Repeatable (next result)) :
    Repeatable (act >>= next) where
  grows session := by
    apply outcome_bind_keeps (first.grows session)
    intro result middle _ grows
    exact grows.trans ((rest result).grows middle)
  again := by
    intro session after later last ran grows
    obtain ⟨result, middle, firstRan, restRan⟩ := outcome_bind_eq_ok_iff.mp ran
    have restGrows := (rest result).grows middle
    rw [restRan] at restGrows
    rw [outcome_bind, first.again firstRan (restGrows.trans grows)]
    exact (rest result).again restRan grows

/-! ## Walking hops -/

theorem readHop (text : String) : Repeatable (readHop text) := by
  rw [Session.readHop]
  split
  · exact .pure _
  · exact .throw _

/-- A hop that has been followed has its key in the cache. -/
theorem follow
    (key : String)
    (left : Table)
    (hop : Hop) :
    Repeatable (follow key left hop) where
  grows session := by
    rw [outcome_follow]
    split
    · exact .refl session
    · split
      · exact .refl session
      · exact (enter_resolves session key left _).toGrows
  again := by
    intro session after later join ran grows
    have cached : after.cache.lookup key = some join := by
      rw [outcome_follow] at ran
      split at ran
      · rename_i known
        cases ran
        exact known
      · rename_i new
        split at ran
        · cases ran
        · cases ran
          exact lookup_enter new
    rw [outcome_follow, grows.lookup cached]

theorem walkFrom
    (table : Table)
    (key : String)
    (texts : List String) :
    Repeatable (walkFrom table key texts) := by
  induction texts generalizing table key with
  | nil => exact .pure _
  | cons text rest inductionHypothesis =>
      rw [Session.walkFrom]
      refine (readHop text).bind fun hop => ?_
      refine (follow (Hop.extend key hop) table hop).bind fun join => ?_
      exact (inductionHypothesis join.right (Hop.extend key hop)).bind fun _ =>
        .pure _

/-- The root table of a session stays the same. -/
theorem walk (texts : List String) : Repeatable (walk texts) where
  grows session := by
    rw [outcome_walk]
    exact (walkFrom session.root "" texts).grows session
  again := by
    intro session after later answer ran grows
    rw [outcome_walk] at ran
    have early := (walkFrom session.root "" texts).grows session
    rw [ran] at early
    rw [outcome_walk, grows.root, early.root]
    exact (walkFrom session.root "" texts).again ran grows

theorem resolvePath (texts : List String) : Repeatable (resolvePath texts) := by
  rw [Session.resolvePath]
  refine (walk texts).bind ?_
  rintro ⟨last, joins⟩
  dsimp only
  split
  · exact .pure _
  · exact .throw _

theorem resolveField (field : String) : Repeatable (resolveField field) := by
  rw [Session.resolveField]
  split
  · exact .throw _
  · exact (walk _).bind fun _ => .pure _

end Repeatable

/-- Operations that only resolve fields can be repeated. -/
theorem ResolvesFields.repeatable
    {Result : Type}
    {act : Resolving Result}
    (resolvesFields : ResolvesFields act) :
    Repeatable act := by
  induction resolvesFields with
  | pure result => exact .pure result
  | throw error => exact .throw error
  | field path _ inductionHypothesis =>
      exact (Repeatable.resolveField path).bind fun resolved =>
        inductionHypothesis resolved.column

/-! ## Histories -/

/-- Giving a relation changes neither the joins nor the cache. -/
theorem grows_seed
    (path : String)
    (relation : Relation)
    (session : Session) :
    session.Grows (outcome (seed path relation) session).2 := by
  rcases outcome_seed path relation session with same | ⟨_, _, _, seeded⟩
  · rw [same]
  · rw [seeded]
    exact ⟨rfl, rfl, List.prefix_rfl, List.prefix_rfl⟩

/-- Every operation only adds to a session, whether or not it fails. -/
theorem grows_after
    (session : Session)
    (operation : Operation) :
    session.Grows (operation.after session) := by
  cases operation with
  | seed path relation => exact grows_seed path relation session
  | field path => exact (Repeatable.resolveField path).grows session
  | hops texts => exact (Repeatable.resolvePath texts).grows session
  | condition condition =>
      exact condition.resolvesFields_bind.repeatable.grows session
  | call call => exact call.resolvesFields_bind.repeatable.grows session
  | compile domain => exact domain.resolvesFields_bind.repeatable.grows session

theorem grows_run
    (session : Session)
    (operations : List Operation) :
    session.Grows (session.run operations) := by
  induction operations generalizing session with
  | nil => exact .refl session
  | cons operation rest inductionHypothesis =>
      rw [run_cons]
      exact (grows_after session operation).trans
        (inductionHypothesis (operation.after session))

/-- An operation on a session, whether or not it fails, keeps the joins and the cache
as the first part of what there is afterwards, and every key keeps its join. A field
or a domain that has been resolved is resolved to the same again after any operations,
and this changes nothing in the session. -/
theorem operations_only_add_and_answers_stay (session : Session) :
    (∀ operation : Operation,
      session.joins <+: (operation.after session).joins ∧
      session.cache <+: (operation.after session).cache ∧
      ∀ key join, session.cache.lookup key = some join →
        (operation.after session).cache.lookup key = some join) ∧
    ∀ later : List Operation,
      (∀ field resolved after,
        outcome (resolveField field) session = (.ok resolved, after) →
        outcome (resolveField field) (after.run later) =
          (.ok resolved, after.run later)) ∧
      ∀ (domain : Domain) formula after,
        outcome domain.bind session = (.ok formula, after) →
        outcome domain.bind (after.run later) =
          (.ok formula, after.run later) := by
  refine ⟨?_, fun later => ⟨?_, ?_⟩⟩
  · intro operation
    have grows := grows_after session operation
    exact ⟨grows.joins, grows.cache, fun _ _ => grows.lookup⟩
  · intro field resolved after answered
    exact (Repeatable.resolveField field).again answered (grows_run after later)
  · intro domain formula after answered
    exact domain.resolvesFields_bind.repeatable.again answered
      (grows_run after later)

/-- A resolved field stays what it is behind a seed that comes too late for it, a seed
for another path that is then walked, and a field that cannot be resolved. -/
theorem answer_stays_behind_seeds_and_failures :
    let foreignKeys : ForeignKeys := fun table field =>
      if table = "orders" ∧ field = "partner" then
        some ⟨"partners", "partner_id", "id"⟩
      else none
    let later : List Operation :=
      [.seed "partner(I)" ⟨"others", .left, "other_id", "id"⟩,
        .seed "shop" ⟨"shops", .left, "shop_id", "id"⟩,
        .field "shop.name", .field "missing.name"]
    let resolved : ResolvedField := ⟨⟨⟨"partners", "t1"⟩, "name"⟩, ["partner"]⟩
    ∃ after,
      outcome (resolveField "partner.name") (start "orders" foreignKeys) =
        (.ok resolved, after) ∧
      outcome (resolveField "partner.name") (after.run later) =
        (.ok resolved, after.run later) := by
  intro foreignKeys later resolved
  have answered : (outcome (resolveField "partner.name")
      (start "orders" foreignKeys)).1 = .ok resolved :=
    eq_ok_of_toOption_eq_some (by decide +kernel)
  have ran : outcome (resolveField "partner.name") (start "orders" foreignKeys) =
      (.ok resolved,
        (outcome (resolveField "partner.name") (start "orders" foreignKeys)).2) := by
    rw [← answered]
  obtain ⟨fields, _⟩ :=
    (operations_only_add_and_answers_stay (start "orders" foreignKeys)).2 later
  exact ⟨_, ran, fields _ _ _ ran⟩

end Session
end DomainSql
