import DomainSql.Proofs.SessionHistory

/-!
# What failed operations leave behind

A walk that fails has come to a hop that does not lead on: the hop cannot be read, or
nothing is known about it on the table that the hops before it have led to. The session
is then the one that walking the hops before it leaves, and their joins are all that is
left of the operation. Operations that fail for another reason change nothing.
-/

namespace DomainSql
namespace Session

theorem keyFrom_append
    (key : String)
    (front back : List String) :
    keyFrom key (front ++ back) = (do
      let reached ← keyFrom key front
      keyFrom reached back) := by
  induction front generalizing key with
  | nil => rfl
  | cons text rest inductionHypothesis =>
      rw [List.cons_append, keyFrom, keyFrom, bind_assoc]
      exact bind_congr fun hop => inductionHypothesis (Hop.extend key hop)

/-! ## Hops that do not lead on -/

/-- A hop does not lead on from a table behind a path with a key. It cannot be read, or
its path has led to no join, and neither a seed nor a foreign key of the table gives it a
relation. -/
inductive Stuck
    (session : Session)
    (table : Table)
    (key text : String) : Error → Prop
  | unreadable
      {error : ExpressionError}
      (unread : Hop.read text = .error error) :
      Stuck session table key text (.expression error)
  | unresolved
      {hop : Hop}
      (read : Hop.read text = .ok hop)
      (new : session.cache.lookup (Hop.extend key hop) = none)
      (unseeded : session.seeds.lookup (Hop.extend key hop) = none)
      (unknown : session.foreignKeys table.name hop.name = none) :
      Stuck session table key text (.unresolvedRelation table.name hop.name)

theorem relationOf_eq_error_iff
    {session : Session}
    {key : String}
    {left : Table}
    {hop : Hop}
    {error : Error} :
    session.relationOf key left hop = .error error ↔
      session.seeds.lookup key = none ∧
        session.foreignKeys left.name hop.name = none ∧
        error = .unresolvedRelation left.name hop.name := by
  rw [relationOf]
  cases session.seeds.lookup key with
  | some relation => simp
  | none =>
      cases session.foreignKeys left.name hop.name with
      | some foreignKey => simp
      | none => simp [eq_comm]

/-- Following a hop fails where its path has led to no join and it has no relation, and
changes nothing then. -/
theorem outcome_follow_eq_error_iff
    {session after : Session}
    {key : String}
    {left : Table}
    {hop : Hop}
    {error : Error} :
    outcome (follow key left hop) session = (.error error, after) ↔
      session.cache.lookup key = none ∧
        session.relationOf key left hop = .error error ∧ after = session := by
  rw [outcome_follow]
  cases session.cache.lookup key with
  | some join => simp
  | none =>
      cases session.relationOf key left hop with
      | error other => simp [eq_comm]
      | ok relation => simp

/-- A walk fails at its first hop or behind it. -/
theorem outcome_walkFrom_cons_eq_error_iff
    {session after : Session}
    {table : Table}
    {key text : String}
    {rest : List String}
    {error : Error} :
    outcome (walkFrom table key (text :: rest)) session = (.error error, after) ↔
      (session.Stuck table key text error ∧ after = session) ∨
      ∃ hop join middle, Hop.read text = .ok hop ∧
        outcome (follow (Hop.extend key hop) table hop) session = (.ok join, middle) ∧
        outcome (walkFrom join.right (Hop.extend key hop) rest) middle =
          (.error error, after) := by
  rw [Session.walkFrom, readHop]
  constructor
  · intro failed
    cases read : Hop.read text with
    | error unread =>
        rw [read] at failed
        cases failed
        exact .inl ⟨.unreadable read, rfl⟩
    | ok hop =>
        simp only [read, pure_bind] at failed
        rcases outcome_bind_eq_error_iff.mp failed with
          stopped | ⟨join, middle, followed, failed⟩
        · obtain ⟨new, unrelated, rfl⟩ := outcome_follow_eq_error_iff.mp stopped
          obtain ⟨unseeded, unknown, rfl⟩ := relationOf_eq_error_iff.mp unrelated
          exact .inl ⟨.unresolved read new unseeded unknown, rfl⟩
        · rcases outcome_bind_eq_error_iff.mp failed with walked | ⟨_, _, _, done⟩
          · exact .inr ⟨hop, join, middle, rfl, followed, walked⟩
          · cases done
  · rintro (⟨stuck, rfl⟩ | ⟨hop, join, middle, read, followed, walked⟩)
    · cases stuck with
      | unreadable unread =>
          rw [unread]
          rfl
      | unresolved read new unseeded unknown =>
          have unrelated := relationOf_eq_error_iff.mpr ⟨unseeded, unknown, rfl⟩
          have stopped := outcome_follow_eq_error_iff.mpr ⟨new, unrelated, rfl⟩
          simp only [read, pure_bind]
          exact outcome_bind_eq_error_iff.mpr (.inl stopped)
    · simp only [read, pure_bind]
      refine outcome_bind_eq_error_iff.mpr (.inr ⟨join, middle, followed, ?_⟩)
      exact outcome_bind_eq_error_iff.mpr (.inl walked)

/-! ## Walks that stop -/

/-- A walk that fails has come to a hop that is stuck where the hops before it have
led, in the session that these have left. -/
theorem exists_stuck_of_walkFrom
    {session after : Session}
    {table : Table}
    {key : String}
    {texts : List String}
    {error : Error}
    (failed : outcome (walkFrom table key texts) session = (.error error, after)) :
    ∃ front text rest last joins reached,
      texts = front ++ text :: rest ∧
      outcome (walkFrom table key front) session = (.ok (last, joins), after) ∧
      keyFrom key front = .ok reached ∧
      after.Stuck last reached text error := by
  induction texts generalizing session table key with
  | nil => cases failed
  | cons text rest inductionHypothesis =>
      rcases outcome_walkFrom_cons_eq_error_iff.mp failed with
        ⟨stuck, rfl⟩ | ⟨hop, join, middle, read, followed, restFailed⟩
      · exact ⟨[], text, rest, table, [], key, rfl, rfl, rfl, stuck⟩
      · obtain ⟨front, stop, back, last, joins, reached, rfl, walked, frontKey, stuck⟩ :=
          inductionHypothesis restFailed
        refine ⟨text :: front, stop, back, last, join :: joins, reached, rfl,
          outcome_walkFrom_cons_eq_ok_iff.mpr
            ⟨hop, join, middle, joins, read, followed, walked, rfl⟩, ?_, stuck⟩
        rw [keyFrom, read]
        exact frontKey

/-- A walk stops at a hop that is stuck where the hops before it lead. -/
theorem walkFrom_of_stuck
    {session after : Session}
    {table last : Table}
    {key reached text : String}
    {front : List String}
    {joins : List Join}
    {error : Error}
    (walked : outcome (walkFrom table key front) session = (.ok (last, joins), after))
    (frontKey : keyFrom key front = .ok reached)
    (stuck : after.Stuck last reached text error)
    (rest : List String) :
    outcome (walkFrom table key (front ++ text :: rest)) session =
      (.error error, after) := by
  induction front generalizing session table key joins with
  | nil =>
      cases walked
      cases frontKey
      exact outcome_walkFrom_cons_eq_error_iff.mpr (.inl ⟨stuck, rfl⟩)
  | cons first others inductionHypothesis =>
      obtain ⟨hop, join, middle, more, read, followed, othersWalked, _⟩ :=
        outcome_walkFrom_cons_eq_ok_iff.mp walked
      rw [keyFrom, read] at frontKey
      exact outcome_walkFrom_cons_eq_error_iff.mpr (.inr
        ⟨hop, join, middle, read, followed, inductionHypothesis othersWalked frontKey⟩)

/-- Nothing is in the cache for a path up to a hop that is stuck. -/
theorem Stuck.lookup_eq_none
    {session : Session}
    {table : Table}
    {key text whole : String}
    {front : List String}
    {error : Error}
    (stuck : session.Stuck table key text error)
    (frontKey : keyFrom "" front = .ok key)
    (wholeKey : keyFrom "" (front ++ [text]) = .ok whole) :
    session.cache.lookup whole = none := by
  have extended : keyFrom "" (front ++ [text]) = keyFrom key [text] := by
    rw [keyFrom_append, frontKey]
    rfl
  rw [extended, keyFrom] at wholeKey
  cases stuck with
  | unreadable unread =>
      rw [unread] at wholeKey
      cases wholeKey
  | unresolved read new _ _ =>
      rw [read] at wholeKey
      cases wholeKey
      exact new

/-- A walk along texts stops at one of them with an error. Walking those before it leads
to a table and leaves `after`, as resolving them does. The one that it stops at is stuck
on this table, and its path has no join in `after`. -/
def StopsAt
    (session : Session)
    (texts : List String)
    (error : Error)
    (after : Session) : Prop :=
  ∃ front text rest table joins key,
    texts = front ++ text :: rest ∧
    outcome (walk front) session = (.ok (table, joins), after) ∧
    (outcome (resolvePath front) session).2 = after ∧
    keyFrom "" front = .ok key ∧
    after.Stuck table key text error ∧
    ∀ whole, keyFrom "" (front ++ [text]) = .ok whole →
      after.cache.lookup whole = none

/-- A walk that fails stops at one of its hops. -/
theorem outcome_walk_eq_error_iff
    {session after : Session}
    {texts : List String}
    {error : Error} :
    outcome (walk texts) session = (.error error, after) ↔
      session.StopsAt texts error after := by
  constructor
  · intro failed
    rw [outcome_walk] at failed
    obtain ⟨front, text, rest, table, joins, key, parts, walked, frontKey, stuck⟩ :=
      exists_stuck_of_walkFrom failed
    rw [← outcome_walk] at walked
    refine ⟨front, text, rest, table, joins, key, parts, walked, ?_, frontKey, stuck,
      fun whole => stuck.lookup_eq_none frontKey⟩
    rw [resolvePath, outcome_bind, walked]
    simp only
    split <;> rfl
  · rintro ⟨front, text, rest, table, joins, key, rfl, walked, _, frontKey, stuck, _⟩
    rw [outcome_walk] at walked ⊢
    exact walkFrom_of_stuck walked frontKey stuck rest

theorem length_of_walkFrom
    {session after : Session}
    {table last : Table}
    {key : String}
    {texts : List String}
    {joins : List Join}
    (walked : outcome (walkFrom table key texts) session = (.ok (last, joins), after)) :
    joins.length = texts.length := by
  induction texts generalizing session table key joins with
  | nil =>
      cases walked
      rfl
  | cons text rest inductionHypothesis =>
      obtain ⟨_, _, _, others, _, _, restWalked, rfl⟩ :=
        outcome_walkFrom_cons_eq_ok_iff.mp walked
      rw [List.length_cons, List.length_cons, inductionHypothesis restWalked]

/-- Resolving hops, if there are any, fails as walking them does. -/
theorem outcome_resolvePath_eq_error_iff
    {session after : Session}
    {texts : List String}
    (nonempty : texts ≠ [])
    {error : Error} :
    outcome (resolvePath texts) session = (.error error, after) ↔
      session.StopsAt texts error after := by
  rw [← outcome_walk_eq_error_iff, resolvePath, outcome_bind_eq_error_iff]
  constructor
  · rintro (failed | ⟨⟨last, joins⟩, middle, walked, ended⟩)
    · exact failed
    · rw [outcome_walk] at walked
      have joinsNonempty : joins ≠ [] := by
        rw [← List.length_pos_iff, length_of_walkFrom walked]
        exact List.length_pos_iff.mpr nonempty
      simp only [List.getLast?_eq_some_getLast joinsNonempty] at ended
      cases ended
  · exact .inl

/-! ## Fields -/

theorem splitField_of_split
    {field column : String}
    {texts : List String}
    (parts : Text.split '.' field = texts ++ [column]) :
    splitField field =
      if column = "" ∨ '(' ∈ column.toList then .error (.noColumn field)
      else .ok (texts, column) := by
  simp [splitField, parts]

/-- Resolving a field with a column fails as walking its hops does. -/
theorem outcome_resolveField_eq_error_iff
    {session after : Session}
    {field column : String}
    {texts : List String}
    (parts : Text.split '.' field = texts ++ [column])
    (isColumn : column ≠ "" ∧ '(' ∉ column.toList)
    {error : Error} :
    outcome (resolveField field) session = (.error error, after) ↔
      session.StopsAt texts error after := by
  rw [← outcome_walk_eq_error_iff, resolveField, splitField_of_split parts,
    if_neg (not_or.mpr isColumn)]
  simp only [outcome_bind_eq_error_iff]
  constructor
  · rintro (failed | ⟨_, _, _, ended⟩)
    · exact failed
    · cases ended
  · exact .inl

/-- Giving a relation fails without a change. -/
theorem eq_of_seed_failed
    {session after : Session}
    {path : String}
    {relation : Relation}
    {error : Error}
    (failed : outcome (seed path relation) session = (.error error, after)) :
    after = session := by
  cases read : canonicalKey path with
  | error unread =>
      rw [seed, read] at failed
      cases failed
      rfl
  | ok key =>
      obtain ⟨hops, hopsRead, rfl⟩ := canonicalKey_eq_ok_iff.mp read
      rw [outcome_seed_of_readAs hopsRead] at failed
      split at failed
      · cases failed
        rfl
      · cases failed

/-- Operations that fail leave exactly what can be resolved. A relation that cannot be
given, a field without a column and a condition without an operator change nothing. A
field or a path that fails stops at one of its hops: what is left is what resolving the
hops before it leaves, nothing is in the cache for the path up to this hop, and an error
about an unknown relation names the table that the hops before it have reached and the
name of this hop. A call with a wrong number of arguments resolves none of them. -/
theorem failures_leave_what_is_resolved (session : Session) :
    (∀ path relation error after,
      outcome (seed path relation) session = (.error error, after) →
        after = session) ∧
    (∀ field texts column, Text.split '.' field = texts ++ [column] →
      if column = "" ∨ '(' ∈ column.toList then
        outcome (resolveField field) session =
          (.error (.expression (.noColumn field)), session)
      else ∀ error after,
        outcome (resolveField field) session = (.error error, after) ↔
          session.StopsAt texts error after) ∧
    (∀ texts, texts ≠ [] → ∀ error after,
      outcome (resolvePath texts) session = (.error error, after) ↔
        session.StopsAt texts error after) ∧
    (∀ condition : Condition, Comparison.ofToken? condition.operator = none →
      outcome condition.bind session =
        (.error (.unsupportedOperator condition.operator), session)) ∧
    ∀ call : FunctionCall, call.function.takes call.arguments.length = false →
      outcome call.bind session =
        (.error (.expression (.argumentCount call.function call.arguments.length)),
          session) ∧
      ∀ field operator,
        (outcome (Condition.bind ⟨field, operator, .call call⟩) session).2 =
          if (Comparison.ofToken? operator).isSome then
            (outcome (resolveField field) session).2
          else session := by
  refine ⟨fun _ _ _ _ => eq_of_seed_failed, ?_,
    fun _ nonempty _ _ => outcome_resolvePath_eq_error_iff nonempty, ?_, ?_⟩
  · intro field texts column parts
    split
    · rename_i noColumn
      rw [resolveField, splitField_of_split parts, if_pos noColumn]
      rfl
    · rename_i isColumn
      exact fun _ _ => outcome_resolveField_eq_error_iff parts (not_or.mp isColumn)
  · intro condition unknown
    rw [Condition.bind, unknown]
    rfl
  · intro call refused
    have failed : ∀ reached : Session, outcome call.bind reached =
        (.error (.expression (.argumentCount call.function call.arguments.length)),
          reached) := by
      intro reached
      rw [FunctionCall.bind, refused]
      rfl
    refine ⟨failed session, fun field operator => ?_⟩
    cases known : Comparison.ofToken? operator with
    | none =>
        rw [Condition.bind, known]
        rfl
    | some comparison =>
        rw [Condition.bind, known]
        simp only [outcome_bind]
        rcases outcome (resolveField field) session with ⟨error | resolved, middle⟩
        · rfl
        · simp only [Operand.bind, outcome_bind, failed]
          rfl

/-- A field whose second hop is unknown leaves the join of its first one. A hop of an
unknown kind, a text behind which no column stands, an unknown operator and a count of
two fields leave nothing. -/
theorem failures_leave_join_of_first_hop :
    let foreignKeys : ForeignKeys := fun table field =>
      if table = "orders" ∧ field = "partner" then
        some ⟨"partners", "partner_id", "id"⟩
      else none
    let session := start "orders" foreignKeys
    (∃ error after,
      outcome (resolveField "partner.missing.name") session = (.error error, after) ∧
      error.message = "no relation `missing` on table `partners`" ∧
      session.StopsAt ["partner", "missing"] error after) ∧
    (outcome (seed "shop(X)" ⟨"shops", .left, "shop_id", "id"⟩) session).2 = session ∧
    (outcome (resolveField "partner.") session).2 = session ∧
    session.StopsAt ["partner(", "country"]
      (.expression (.malformedHop "partner(")) session ∧
    (outcome (Condition.bind ⟨"partner.name", "~", .field "partner.code"⟩)
      session).2 = session ∧
    (outcome (FunctionCall.bind ⟨.count, [.field "partner.name", .field "name"]⟩)
      session).2 = session := by
  intro foreignKeys session
  obtain ⟨seeds, fields, paths, conditions, calls⟩ :=
    failures_leave_what_is_resolved session
  have message :
      (match (outcome (resolveField "partner.missing.name") session).1 with
        | .error error => error.message
        | .ok _ => "") = "no relation `missing` on table `partners`" := by
    decide +kernel
  have parts : Text.split '.' "partner.missing.name" =
      ["partner", "missing"] ++ ["name"] := by decide +kernel
  have noColumn : Text.split '.' "partner." = ["partner"] ++ [""] := by
    decide +kernel
  have unknownKind :
      (outcome (seed "shop(X)" ⟨"shops", .left, "shop_id", "id"⟩) session).1 =
        .error (.expression (.unknownJoinCode "X" "shop(X)")) := by rfl
  have malformed : outcome (resolvePath ["partner(", "country"]) session =
      (.error (.expression (.malformedHop "partner(")), session) := by rfl
  refine ⟨?_, ?_, ?_, ?_, ?_, ?_⟩
  · have stops := fields _ _ _ parts
    rw [if_neg (by decide)] at stops
    rcases failed : outcome (resolveField "partner.missing.name") session with
      ⟨error | resolved, after⟩ <;> rw [failed] at message
    · exact ⟨error, after, rfl, message, (stops error after).mp failed⟩
    · simp at message
  · exact seeds _ _ _ _ (Prod.ext unknownKind rfl)
  · have stays := fields _ _ _ noColumn
    rw [if_pos (.inl rfl)] at stays
    rw [stays]
  · exact (paths _ (by simp) _ _).mp malformed
  · rw [conditions _ (by decide)]
  · rw [(calls _ (by decide)).1]

end Session
end DomainSql
