import DomainSql.Join.Session
import DomainSql.Proofs.Outcome
import DomainSql.Proofs.PathKeys

/-!
# What a session knows about its joins

A session is coherent when its aliases count its joins, no two of its joins lead from
one table along one relation, and every key of its cache is the key of hops whose
joins the cache has too, the last of them along the relation of the last hop. Following
a hop keeps this, and so does giving the relation of a path that has led to no join
yet.
-/

namespace DomainSql

theorem lookup_of_isPrefix
    {Value : Type}
    {key : String}
    {value : Value}
    {before after : List (String × Value)}
    (isPrefix : before <+: after)
    (found : before.lookup key = some value) :
    after.lookup key = some value := by
  obtain ⟨added, rfl⟩ := isPrefix
  simp [List.lookup_append, found]

namespace Session

/-! ## Growth -/

/-- What no operation on a session takes back. -/
structure Grows (before after : Session) : Prop where
  root : after.root = before.root
  foreignKeys : after.foreignKeys = before.foreignKeys
  joins : before.joins <+: after.joins
  cache : before.cache <+: after.cache

/-- What resolving does to a session: it grows, and its seeds stay. -/
structure Resolves (before after : Session) : Prop extends Grows before after where
  seeds : after.seeds = before.seeds

@[refl] theorem Grows.refl (session : Session) : session.Grows session :=
  ⟨rfl, rfl, List.prefix_rfl, List.prefix_rfl⟩

theorem Grows.trans
    {first second third : Session}
    (early : first.Grows second)
    (late : second.Grows third) :
    first.Grows third :=
  ⟨late.root.trans early.root, late.foreignKeys.trans early.foreignKeys,
    early.joins.trans late.joins, early.cache.trans late.cache⟩

@[refl] theorem Resolves.refl (session : Session) : session.Resolves session :=
  ⟨.refl session, rfl⟩

theorem Resolves.trans
    {first second third : Session}
    (early : first.Resolves second)
    (late : second.Resolves third) :
    first.Resolves third :=
  ⟨early.toGrows.trans late.toGrows, late.seeds.trans early.seeds⟩

/-- Growing keeps what the cache has. -/
theorem Grows.lookup
    {before after : Session}
    (grows : before.Grows after)
    {key : String}
    {join : Join}
    (cached : before.cache.lookup key = some join) :
    after.cache.lookup key = some join :=
  lookup_of_isPrefix grows.cache cached

/-- Resolving does not change the relations of hops. -/
theorem Resolves.relationOf
    {before after : Session}
    (resolves : before.Resolves after)
    (key : String)
    (left : Table)
    (hop : Hop) :
    after.relationOf key left hop = before.relationOf key left hop := by
  rw [Session.relationOf, Session.relationOf, resolves.seeds,
    resolves.foreignKeys]

/-! ## Walks along the cache -/

/-- The cache leads along hops through joins to a table. -/
inductive Walked (session : Session) : List Hop → List Join → Table → Prop
  | root : Walked session [] [] session.root
  | hop
      {hops : List Hop}
      {joins : List Join}
      {table : Table}
      {hop : Hop}
      {join : Join}
      (walked : Walked session hops joins table)
      (readable : hop.Readable)
      (cached : session.cache.lookup (keyOf (hops ++ [hop])) = some join) :
      Walked session (hops ++ [hop]) (joins ++ [join]) join.right

theorem Walked.grows
    {before after : Session}
    (grows : before.Grows after)
    {hops : List Hop}
    {joins : List Join}
    {table : Table}
    (walked : before.Walked hops joins table) :
    after.Walked hops joins table := by
  induction walked with
  | root =>
      rw [← grows.root]
      exact .root
  | hop _ readable cached inductionHypothesis =>
      exact .hop inductionHypothesis readable (grows.lookup cached)

theorem Walked.readable
    {session : Session}
    {hops : List Hop}
    {joins : List Join}
    {table : Table}
    (walked : session.Walked hops joins table) :
    ∀ hop ∈ hops, hop.Readable := by
  induction walked with
  | root => simp
  | hop _ readable _ inductionHypothesis =>
      intro hop inHops
      rcases List.mem_append.mp inHops with inFront | isLast
      · exact inductionHypothesis hop inFront
      · rwa [List.mem_singleton.mp isLast]

/-- What the cache leads along ends with the join that it has for the whole path. -/
theorem Walked.of_concat
    {session : Session}
    {hops : List Hop}
    {hop : Hop}
    {joins : List Join}
    {last : Table}
    (walked : session.Walked (hops ++ [hop]) joins last) :
    ∃ front table join, joins = front ++ [join] ∧ last = join.right ∧
      session.Walked hops front table ∧ hop.Readable ∧
      session.cache.lookup (keyOf (hops ++ [hop])) = some join := by
  generalize whole : hops ++ [hop] = all at walked
  cases walked with
  | root => simp at whole
  | @hop otherHops front table _ join frontWalked readable cached =>
      obtain ⟨rfl, same⟩ := List.append_inj' whole rfl
      rw [List.singleton_inj] at same
      subst same
      exact ⟨front, table, join, rfl, rfl, frontWalked, readable, cached⟩

/-- Hops lead through the same joins to the same table. -/
theorem Walked.unique
    {session : Session}
    {hops : List Hop}
    {leftJoins rightJoins : List Join}
    {leftTable rightTable : Table}
    (left : session.Walked hops leftJoins leftTable)
    (right : session.Walked hops rightJoins rightTable) :
    leftJoins = rightJoins ∧ leftTable = rightTable := by
  induction left generalizing rightJoins rightTable with
  | root =>
      generalize empty : ([] : List Hop) = hops at right
      cases right with
      | root => exact ⟨rfl, rfl⟩
      | hop _ _ _ => simp at empty
  | hop _ _ cached inductionHypothesis =>
      obtain ⟨front, table, join, rfl, rfl, frontWalked, _, otherCached⟩ :=
        right.of_concat
      obtain ⟨rfl, _⟩ := inductionHypothesis frontWalked
      rw [cached, Option.some.injEq] at otherCached
      exact ⟨by rw [otherCached], by rw [otherCached]⟩

/-! ## Coherence -/

/-- What holds of the joins and the cache of every session that has come about by
operations. -/
structure Coherent (session : Session) : Prop where
  rootAlias : session.root.aliasName = tableAlias 0
  aliases : ∀ place join, session.joins[place]? = some join →
    join.right.aliasName = tableAlias (place + 1)
  distinct : ∀ join ∈ session.joins, ∀ other ∈ session.joins,
    join.left = other.left → join.relation = other.relation → join = other
  mem_joins : ∀ key join, session.cache.lookup key = some join →
    join ∈ session.joins
  ownKey : ∀ join ∈ session.joins,
    session.cache.lookup join.key = some join
  traced : ∀ key join, session.cache.lookup key = some join →
    ∃ hops joins hop, hop.Readable ∧ key = keyOf (hops ++ [hop]) ∧
      session.Walked hops joins join.left ∧
      session.relationOf key join.left hop = .ok join.relation

theorem coherent_start
    (table : String)
    (foreignKeys : ForeignKeys) :
    (start table foreignKeys).Coherent where
  rootAlias := rfl
  aliases := by simp [start]
  distinct := by simp [start]
  mem_joins := by simp [start]
  ownKey := by simp [start]
  traced := by simp [start]

/-- Tables with one alias have one place. -/
theorem tableAlias_inj
    {left right : Nat}
    (same : tableAlias left = tableAlias right) :
    left = right := by
  have digits := congrArg String.toList same
  simp only [tableAlias, String.toList_append, Nat.toList_repr,
    List.append_cancel_left_eq] at digits
  have values := congrArg (Nat.ofDigitChars 10 · 0) digits
  simpa [Nat.ofDigitChars_toDigits] using values

/-- A join is determined by the alias of its right table. -/
theorem Coherent.eq_of_alias_eq
    {session : Session}
    (coherent : session.Coherent)
    {left right : Join}
    (inLeft : left ∈ session.joins)
    (inRight : right ∈ session.joins)
    (same : left.right.aliasName = right.right.aliasName) :
    left = right := by
  obtain ⟨leftPlace, leftFound⟩ := List.getElem?_of_mem inLeft
  obtain ⟨rightPlace, rightFound⟩ := List.getElem?_of_mem inRight
  rw [coherent.aliases leftPlace left leftFound,
    coherent.aliases rightPlace right rightFound] at same
  have samePlace := Nat.succ.inj (tableAlias_inj same)
  rw [samePlace, rightFound, Option.some.injEq] at leftFound
  exact leftFound.symm

/-- The alias of the root table is that of no join. -/
theorem Coherent.alias_ne_root
    {session : Session}
    (coherent : session.Coherent)
    {join : Join}
    (inJoins : join ∈ session.joins) :
    join.right.aliasName ≠ session.root.aliasName := by
  obtain ⟨place, found⟩ := List.getElem?_of_mem inJoins
  rw [coherent.aliases place join found, coherent.rootAlias]
  intro same
  have impossible := tableAlias_inj same
  omega

/-- A join that the cache has for a path leads along the last hop. -/
theorem Coherent.relationOf_of_cached
    {session : Session}
    (coherent : session.Coherent)
    {hops : List Hop}
    {hop : Hop}
    (readable : hop.Readable)
    {join : Join}
    (cached : session.cache.lookup (keyOf (hops ++ [hop])) = some join) :
    session.relationOf (keyOf (hops ++ [hop])) join.left hop =
      .ok join.relation := by
  obtain ⟨_, _, otherHop, otherReadable, key_eq, _, related⟩ :=
    coherent.traced _ join cached
  rw [keyOf_concat, keyOf_concat] at key_eq
  obtain rfl := readable.extend_inj_right otherReadable key_eq
  exact related

/-! ## Following a hop -/

section Following

variable {session : Session} {key : String} {left : Table} {relation : Relation}

/-- What is shared is a join from the table along the relation. -/
theorem of_shared?_eq_some
    {join : Join}
    (shared : session.shared? left relation = some join) :
    join ∈ session.joins ∧ join.left = left ∧ join.relation = relation := by
  have fits := List.find?_some shared
  exact ⟨List.mem_of_find?_eq_some shared, by simpa using fits⟩

/-- The joins after entering a key: the same, or one more from the table along the
relation. -/
theorem enter_joins
    (session : Session)
    (key : String)
    (left : Table)
    (relation : Relation) :
    ((session.enter key left relation).1 ∈ session.joins ∧
      (session.enter key left relation).2.joins = session.joins) ∨
    (session.shared? left relation = none ∧
      (session.enter key left relation).1 = session.nextJoin key left relation ∧
      (session.enter key left relation).2.joins =
        session.joins ++ [session.nextJoin key left relation]) := by
  rw [enter]
  split
  · rename_i join shared
    exact .inl ⟨(of_shared?_eq_some shared).1, rfl⟩
  · rename_i unshared
    exact .inr ⟨unshared, rfl, rfl⟩

theorem enter_mem_joins
    (session : Session)
    (key : String)
    (left : Table)
    (relation : Relation) :
    (session.enter key left relation).1 ∈
      (session.enter key left relation).2.joins := by
  rcases enter_joins session key left relation with
    ⟨inJoins, same⟩ | ⟨_, isNext, added⟩
  · rwa [same]
  · rw [isNext, added]
    simp

@[simp] theorem enter_left
    (session : Session)
    (key : String)
    (left : Table)
    (relation : Relation) :
    (session.enter key left relation).1.left = left := by
  rw [enter]
  split
  · rename_i join shared
    exact (of_shared?_eq_some shared).2.1
  · rfl

@[simp] theorem enter_relation
    (session : Session)
    (key : String)
    (left : Table)
    (relation : Relation) :
    (session.enter key left relation).1.relation = relation := by
  rw [enter]
  split
  · rename_i join shared
    exact (of_shared?_eq_some shared).2.2
  · rfl

theorem enter_cache
    (session : Session)
    (key : String)
    (left : Table)
    (relation : Relation) :
    (session.enter key left relation).2.cache =
      session.cache ++ [(key, (session.enter key left relation).1)] := by
  rw [enter]
  split <;> rfl

theorem enter_resolves
    (session : Session)
    (key : String)
    (left : Table)
    (relation : Relation) :
    session.Resolves (session.enter key left relation).2 := by
  rw [enter]
  split
  · exact ⟨⟨rfl, rfl, List.prefix_rfl, List.prefix_append _ _⟩, rfl⟩
  · exact ⟨⟨rfl, rfl, List.prefix_append _ _, List.prefix_append _ _⟩, rfl⟩

/-- A key that is entered leads to its join. -/
theorem lookup_enter
    (new : session.cache.lookup key = none) :
    (session.enter key left relation).2.cache.lookup key =
      some (session.enter key left relation).1 := by
  simp [enter_cache, List.lookup_append, new]

/-- What the cache has after a key is entered, it had before, or it is the join of
this key. -/
theorem of_lookup_enter
    {other : String}
    {join : Join}
    (cached : (session.enter key left relation).2.cache.lookup other = some join) :
    session.cache.lookup other = some join ∨
      other = key ∧ join = (session.enter key left relation).1 := by
  rw [enter_cache, List.lookup_append] at cached
  cases known : session.cache.lookup other with
  | some found =>
      rw [known] at cached
      exact .inl cached
  | none =>
      by_cases same : other = key
      · subst same
        exact .inr ⟨rfl, by simpa [known] using cached.symm⟩
      · have unequal : (other == key) = false := by simpa using same
        simp [known, List.lookup_cons, unequal] at cached

/-- A join that is added has the alias of its place. -/
theorem Coherent.enter_aliases
    (coherent : session.Coherent)
    {place : Nat}
    {join : Join}
    (found : (session.enter key left relation).2.joins[place]? = some join) :
    join.right.aliasName = tableAlias (place + 1) := by
  rcases enter_joins session key left relation with ⟨_, same⟩ | ⟨_, _, added⟩
  · rw [same] at found
    exact coherent.aliases place join found
  · rw [added, List.getElem?_append] at found
    split at found
    · exact coherent.aliases place join found
    · rw [List.getElem?_singleton] at found
      split at found
      · rename_i beyond last
        cases found
        have place_eq : place = session.joins.length := by omega
        rw [place_eq]
        rfl
      · cases found

/-- What is not shared is not there yet. -/
theorem of_shared?_eq_none
    (unshared : session.shared? left relation = none)
    {join : Join}
    (inJoins : join ∈ session.joins) :
    ¬(join.left = left ∧ join.relation = relation) := by
  simpa using List.find?_eq_none.mp unshared join inJoins

/-- A join is only added where none leads from its left table along its relation. -/
theorem Coherent.enter_distinct
    (coherent : session.Coherent) :
    ∀ join ∈ (session.enter key left relation).2.joins,
      ∀ other ∈ (session.enter key left relation).2.joins,
        join.left = other.left → join.relation = other.relation →
          join = other := by
  rcases enter_joins session key left relation with
    ⟨_, same⟩ | ⟨unshared, _, added⟩
  · rw [same]
    exact coherent.distinct
  · have apart : ∀ join ∈ session.joins,
        ¬(join.left = left ∧ join.relation = relation) :=
      fun _ => of_shared?_eq_none unshared
    rw [added]
    intro join inJoins other inOthers sameLeft sameRelation
    rcases List.mem_append.mp inJoins with old | isNew <;>
      rcases List.mem_append.mp inOthers with otherOld | otherNew
    · exact coherent.distinct join old other otherOld sameLeft sameRelation
    · rw [List.mem_singleton.mp otherNew] at sameLeft sameRelation
      exact absurd ⟨sameLeft, sameRelation⟩ (apart join old)
    · rw [List.mem_singleton.mp isNew] at sameLeft sameRelation
      exact absurd ⟨sameLeft.symm, sameRelation.symm⟩ (apart other otherOld)
    · rw [List.mem_singleton.mp isNew, List.mem_singleton.mp otherNew]

/-- A join that is added has the key that is entered, and the cache has it there. -/
theorem enter_ownKey
    (ownKey : ∀ join ∈ session.joins, session.cache.lookup join.key = some join)
    (new : session.cache.lookup key = none)
    {join : Join}
    (inJoins : join ∈ (session.enter key left relation).2.joins) :
    (session.enter key left relation).2.cache.lookup join.key = some join := by
  have resolves := enter_resolves session key left relation
  have entered : (session.enter key left relation).2.cache.lookup key =
      some (session.enter key left relation).1 := lookup_enter new
  rcases enter_joins session key left relation with ⟨_, same⟩ | ⟨_, isNext, added⟩
  · rw [same] at inJoins
    exact resolves.lookup (ownKey join inJoins)
  · rw [added] at inJoins
    rcases List.mem_append.mp inJoins with old | isNew
    · exact resolves.lookup (ownKey join old)
    · rw [List.mem_singleton.mp isNew]
      rwa [isNext] at entered

/-- Entering the key of hops whose front the cache has keeps a session coherent. -/
theorem Coherent.enter
    (coherent : session.Coherent)
    {hops : List Hop}
    {joins : List Join}
    {hop : Hop}
    (walked : session.Walked hops joins left)
    (readable : hop.Readable)
    (key_eq : key = keyOf (hops ++ [hop]))
    (new : session.cache.lookup key = none)
    (related : session.relationOf key left hop = .ok relation) :
    (session.enter key left relation).2.Coherent := by
  have resolves := enter_resolves session key left relation
  refine ⟨?_, fun _ _ => coherent.enter_aliases, coherent.enter_distinct, ?_,
    fun _ => enter_ownKey coherent.ownKey new, ?_⟩
  · rw [resolves.root, coherent.rootAlias]
  · intro other join cached
    rcases of_lookup_enter cached with known | ⟨_, rfl⟩
    · exact resolves.joins.subset (coherent.mem_joins other join known)
    · exact enter_mem_joins session key left relation
  · intro other join cached
    simp only [resolves.relationOf]
    rcases of_lookup_enter cached with known | ⟨rfl, rfl⟩
    · obtain ⟨front, frontJoins, last, lastReadable, key_eq, frontWalked,
        lastRelated⟩ := coherent.traced other join known
      exact ⟨front, frontJoins, last, lastReadable, key_eq,
        frontWalked.grows resolves.toGrows, lastRelated⟩
    · refine ⟨hops, joins, hop, readable, key_eq, ?_, ?_⟩
      · simpa using walked.grows resolves.toGrows
      · simpa using related

theorem outcome_follow
    (session : Session)
    (key : String)
    (left : Table)
    (hop : Hop) :
    outcome (follow key left hop) session =
      match session.cache.lookup key with
      | some join => (.ok join, session)
      | none =>
          match session.relationOf key left hop with
          | .error error => (.error error, session)
          | .ok relation =>
              (.ok (session.enter key left relation).1,
                (session.enter key left relation).2) := by
  rw [follow, outcome_bind, outcome_get]
  simp only
  cases session.cache.lookup key with
  | some join => rfl
  | none =>
      cases session.relationOf key left hop with
      | error error => rfl
      | ok relation =>
          rw [outcome_bind, outcome_set]
          rfl

end Following

/-! ## Walking hops -/

/-- Following a hop keeps a session coherent, and the cache leads along the hop
afterwards. -/
theorem Coherent.follow
    {session after : Session}
    (coherent : session.Coherent)
    {hops : List Hop}
    {joins : List Join}
    {table : Table}
    (walked : session.Walked hops joins table)
    {hop : Hop}
    (readable : hop.Readable)
    {answer : Except Error Join}
    (followed : outcome (follow (keyOf (hops ++ [hop])) table hop) session =
      (answer, after)) :
    after.Coherent ∧ session.Resolves after ∧
      ∀ join, answer = .ok join →
        after.Walked (hops ++ [hop]) (joins ++ [join]) join.right := by
  rw [outcome_follow] at followed
  split at followed
  · rename_i join cached
    cases followed
    refine ⟨coherent, .refl session, ?_⟩
    rintro _ ⟨⟩
    exact .hop walked readable cached
  · rename_i new
    split at followed
    · cases followed
      exact ⟨coherent, .refl session, nofun⟩
    · rename_i relation related
      cases followed
      have resolves := enter_resolves session (keyOf (hops ++ [hop])) table relation
      refine ⟨coherent.enter walked readable rfl new related, resolves, ?_⟩
      rintro _ ⟨⟩
      exact .hop (walked.grows resolves.toGrows) readable (lookup_enter new)

theorem outcome_readHop
    (text : String)
    (session : Session) :
    outcome (readHop text) session =
      ((Hop.read text).mapError .expression, session) := by
  rw [readHop]
  cases Hop.read text <;> rfl

/-- A walk reads its first hop, follows it and walks on from where it has led. -/
theorem outcome_walkFrom_cons
    (table : Table)
    (key text : String)
    (rest : List String)
    (session : Session) :
    outcome (walkFrom table key (text :: rest)) session =
      match Hop.read text with
      | .error error => (.error (.expression error), session)
      | .ok hop =>
          match outcome (follow (Hop.extend key hop) table hop) session with
          | (.error error, middle) => (.error error, middle)
          | (.ok join, middle) =>
              match outcome (walkFrom join.right (Hop.extend key hop) rest)
                middle with
              | (.error error, after) => (.error error, after)
              | (.ok (last, joins), after) => (.ok (last, join :: joins), after) := by
  rw [walkFrom, outcome_bind, outcome_readHop]
  cases Hop.read text with
  | error error => rfl
  | ok hop =>
      simp only [Except.mapError]
      rw [outcome_bind]
      rcases outcome (follow (Hop.extend key hop) table hop) session with
        ⟨error | join, middle⟩
      · rfl
      · simp only
        rw [outcome_bind]
        rcases outcome (walkFrom join.right (Hop.extend key hop) rest) middle with
          ⟨error | ⟨last, joins⟩, after⟩ <;> rfl

/-- A walk succeeds when its first hop is followed to a join and it goes on behind it. -/
theorem outcome_walkFrom_cons_eq_ok_iff
    {session after : Session}
    {table last : Table}
    {key text : String}
    {rest : List String}
    {joins : List Join} :
    outcome (walkFrom table key (text :: rest)) session = (.ok (last, joins), after) ↔
      ∃ hop join middle others, Hop.read text = .ok hop ∧
        outcome (follow (Hop.extend key hop) table hop) session = (.ok join, middle) ∧
        outcome (walkFrom join.right (Hop.extend key hop) rest) middle =
          (.ok (last, others), after) ∧
        joins = join :: others := by
  rw [Session.walkFrom, readHop]
  cases Hop.read text with
  | error error => simp
  | ok hop =>
      simp only [pure_bind, outcome_bind_eq_ok_iff, outcome_pure, Prod.mk.injEq,
        Except.ok.injEq]
      constructor
      · rintro ⟨join, middle, followed, ⟨_, others⟩, _, walked, ⟨rfl, rfl⟩, rfl⟩
        exact ⟨hop, join, middle, others, rfl, followed, walked, rfl⟩
      · rintro ⟨_, join, middle, others, rfl, followed, walked, rfl⟩
        exact ⟨join, middle, followed, (last, others), after, walked, ⟨rfl, rfl⟩, rfl⟩

/-- Walking hops keeps a session coherent, and the cache leads along them
afterwards. -/
theorem Coherent.walkFrom
    {session after : Session}
    (coherent : session.Coherent)
    {hops : List Hop}
    {joins : List Join}
    {table : Table}
    (walked : session.Walked hops joins table)
    {texts : List String}
    (noPoint : ∀ text ∈ texts, '.' ∉ text.toList)
    {answer : Except Error (Table × List Join)}
    (outcome_eq : outcome (walkFrom table (keyOf hops) texts) session =
      (answer, after)) :
    after.Coherent ∧ session.Resolves after ∧
      ∀ last more, answer = .ok (last, more) →
        ∃ read, Hop.ReadAs texts read ∧
          after.Walked (hops ++ read) (joins ++ more) last := by
  induction texts generalizing session hops joins table answer with
  | nil =>
      cases outcome_eq
      refine ⟨coherent, .refl _, ?_⟩
      rintro _ _ ⟨⟩
      exact ⟨[], rfl, by simpa using walked⟩
  | cons text rest inductionHypothesis =>
      simp only [List.mem_cons, forall_eq_or_imp] at noPoint
      rw [outcome_walkFrom_cons] at outcome_eq
      split at outcome_eq
      · cases outcome_eq
        exact ⟨coherent, .refl _, nofun⟩
      · rename_i hop read
        have readable := Hop.Readable.of_read noPoint.1 read
        rw [← keyOf_concat] at outcome_eq
        split at outcome_eq
        · rename_i error middle followed
          cases outcome_eq
          obtain ⟨middleCoherent, resolves, _⟩ :=
            coherent.follow walked readable followed
          exact ⟨middleCoherent, resolves, nofun⟩
        · rename_i join middle followed
          obtain ⟨middleCoherent, resolves, leads⟩ :=
            coherent.follow walked readable followed
          split at outcome_eq
          · rename_i error final restWalked
            cases outcome_eq
            obtain ⟨finalCoherent, restResolves, _⟩ :=
              inductionHypothesis middleCoherent (leads join rfl) noPoint.2
                restWalked
            exact ⟨finalCoherent, resolves.trans restResolves, nofun⟩
          · rename_i last more final restWalked
            cases outcome_eq
            obtain ⟨finalCoherent, restResolves, restLeads⟩ :=
              inductionHypothesis middleCoherent (leads join rfl) noPoint.2
                restWalked
            refine ⟨finalCoherent, resolves.trans restResolves, ?_⟩
            rintro _ _ ⟨⟩
            obtain ⟨others, othersRead, finalWalked⟩ := restLeads last more rfl
            refine ⟨hop :: others, ?_, by simpa using finalWalked⟩
            rw [Hop.ReadAs, List.map_cons, List.map_cons, read, othersRead]

theorem outcome_walk
    (texts : List String)
    (session : Session) :
    outcome (walk texts) session =
      outcome (walkFrom session.root "" texts) session := by
  rw [walk, outcome_bind, outcome_get]

/-- Walking hops from the root keeps a session coherent, and the cache leads along
them afterwards. -/
theorem Coherent.walk
    {session after : Session}
    (coherent : session.Coherent)
    {texts : List String}
    (noPoint : ∀ text ∈ texts, '.' ∉ text.toList)
    {answer : Except Error (Table × List Join)}
    (outcome_eq : outcome (walk texts) session = (answer, after)) :
    after.Coherent ∧ session.Resolves after ∧
      ∀ last joins, answer = .ok (last, joins) →
        ∃ hops, Hop.ReadAs texts hops ∧ after.Walked hops joins last := by
  rw [outcome_walk] at outcome_eq
  simpa using coherent.walkFrom .root noPoint outcome_eq

/-- Resolving hops keeps a session coherent. -/
theorem Coherent.resolvePath
    {session after : Session}
    (coherent : session.Coherent)
    {texts : List String}
    (noPoint : ∀ text ∈ texts, '.' ∉ text.toList)
    {answer : Except Error Join}
    (outcome_eq : outcome (resolvePath texts) session = (answer, after)) :
    after.Coherent ∧ session.Resolves after := by
  rw [Session.resolvePath, outcome_bind] at outcome_eq
  rcases walked : outcome (Session.walk texts) session with
    ⟨error | ⟨last, joins⟩, final⟩
  · rw [walked] at outcome_eq
    cases outcome_eq
    obtain ⟨finalCoherent, resolves, _⟩ := coherent.walk noPoint walked
    exact ⟨finalCoherent, resolves⟩
  · obtain ⟨finalCoherent, resolves, _⟩ := coherent.walk noPoint walked
    simp only [walked] at outcome_eq
    split at outcome_eq <;> cases outcome_eq <;>
      exact ⟨finalCoherent, resolves⟩

/-- The hops and the column of a field are its parts between points. -/
theorem split_of_splitField
    {field column : String}
    {texts : List String}
    (split : splitField field = .ok (texts, column)) :
    Text.split '.' field = texts ++ [column] := by
  rw [splitField] at split
  split at split
  · cases split
  · cases split
    have nonempty := Text.split_ne_nil '.' field
    rw [List.getLast?_eq_some_getLast nonempty, Option.getD_some,
      List.dropLast_concat_getLast]

/-- The hops of a field are parts of it and have no points inside. -/
theorem point_not_mem_of_splitField
    {field column : String}
    {texts : List String}
    (split : splitField field = .ok (texts, column)) :
    ∀ text ∈ texts, '.' ∉ text.toList := fun text inTexts =>
  Text.not_mem_of_mem_split (by rw [split_of_splitField split]; simp [inTexts])

/-- Resolving a field keeps a session coherent, and the cache leads along the hops
of the field afterwards. -/
theorem Coherent.resolveField
    {session after : Session}
    (coherent : session.Coherent)
    {field : String}
    {answer : Except Error ResolvedField}
    (outcome_eq : outcome (resolveField field) session = (answer, after)) :
    after.Coherent ∧ session.Resolves after ∧
      ∀ resolved, answer = .ok resolved →
        ∃ texts hops joins,
          Text.split '.' field = texts ++ [resolved.column.name] ∧
          Hop.ReadAs texts hops ∧
          after.Walked hops joins resolved.column.table ∧
          resolved.joins = joins.map Join.key := by
  rw [Session.resolveField] at outcome_eq
  split at outcome_eq
  · cases outcome_eq
    exact ⟨coherent, .refl _, nofun⟩
  · rename_i texts column split
    have parts := split_of_splitField split
    have noPoint := point_not_mem_of_splitField split
    rw [outcome_bind] at outcome_eq
    rcases walked : outcome (Session.walk texts) session with
      ⟨error | ⟨last, joins⟩, final⟩
    · rw [walked] at outcome_eq
      cases outcome_eq
      obtain ⟨finalCoherent, resolves, _⟩ := coherent.walk noPoint walked
      exact ⟨finalCoherent, resolves, nofun⟩
    · rw [walked] at outcome_eq
      cases outcome_eq
      obtain ⟨finalCoherent, resolves, leads⟩ := coherent.walk noPoint walked
      refine ⟨finalCoherent, resolves, ?_⟩
      rintro _ ⟨⟩
      obtain ⟨hops, read, finalWalked⟩ := leads last joins rfl
      exact ⟨texts, hops, joins, parts, read, finalWalked, rfl⟩

end Session
end DomainSql
