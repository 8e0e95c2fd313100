import DomainSql.Proofs.FieldOperations

/-!
# Histories of a session

A session comes about by operations, each of which may fail. Every session that has
come about so is coherent. A key that the cache leads from has been entered by one of
the operations, along the relation that its hop had at that time: neither the join of
the key nor its relation can change afterwards.
-/

namespace DomainSql
namespace Session

/-! ## Giving relations -/

theorem keyFrom_keyOf
    {front : List Hop}
    {texts : List String}
    {key : String}
    (read : keyFrom (keyOf front) texts = .ok key) :
    ∃ hops, Hop.ReadAs texts hops ∧ key = keyOf (front ++ hops) := by
  induction texts generalizing front with
  | nil =>
      rw [keyFrom, Except.ok.injEq] at read
      exact ⟨[], rfl, by simp [read]⟩
  | cons text rest inductionHypothesis =>
      rw [keyFrom] at read
      obtain ⟨hop, hopRead, read⟩ := bind_eq_ok_iff.mp read
      rw [← keyOf_concat] at read
      obtain ⟨hops, restRead, key_eq⟩ := inductionHypothesis read
      refine ⟨hop :: hops, ?_, by simpa using key_eq⟩
      rw [Hop.ReadAs, List.map_cons, List.map_cons, hopRead, restRead]

theorem keyFrom_of_readAs
    {front hops : List Hop}
    {texts : List String}
    (read : Hop.ReadAs texts hops) :
    keyFrom (keyOf front) texts = .ok (keyOf (front ++ hops)) := by
  induction texts generalizing front hops with
  | nil =>
      obtain rfl : hops = [] := by simpa [Hop.ReadAs] using read.symm
      simp [keyFrom]
  | cons text rest inductionHypothesis =>
      cases hops with
      | nil => simp [Hop.ReadAs] at read
      | cons hop hops =>
          rw [Hop.ReadAs, List.map_cons, List.map_cons, List.cons.injEq] at read
          rw [keyFrom, read.1]
          have others : keyFrom (keyOf (front ++ [hop])) rest =
              .ok (keyOf (front ++ [hop] ++ hops)) := inductionHypothesis read.2
          simpa [bind, Except.bind] using others

/-- The key of a path is the key of its hops, however they are spelled. -/
theorem canonicalKey_eq_ok_iff
    {path key : String} :
    canonicalKey path = .ok key ↔
      ∃ hops, Hop.ReadAs (Text.split '.' path) hops ∧ key = keyOf hops := by
  rw [canonicalKey, ← keyOf_nil]
  constructor
  · intro read
    simpa using keyFrom_keyOf read
  · rintro ⟨hops, read, rfl⟩
    rw [keyFrom_of_readAs read, List.nil_append]

/-- The hops of a path without points inside are readable. -/
theorem readable_of_readAs
    {texts : List String}
    {hops : List Hop}
    (noPoint : ∀ text ∈ texts, '.' ∉ text.toList)
    (read : Hop.ReadAs texts hops) :
    ∀ hop ∈ hops, hop.Readable := by
  intro hop inHops
  have inRead : Except.ok hop ∈ texts.map Hop.read := by
    rw [read]
    exact List.mem_map_of_mem inHops
  obtain ⟨text, inTexts, hopRead⟩ := List.mem_map.mp inRead
  exact .of_read (noPoint text inTexts) hopRead

/-- The session with a relation given for a key. -/
def withSeed
    (session : Session)
    (key : String)
    (relation : Relation) : Session :=
  { session with seeds := (key, relation) :: session.seeds }

@[simp] theorem withSeed_cache
    (session : Session)
    (key : String)
    (relation : Relation) :
    (session.withSeed key relation).cache = session.cache := rfl

/-- Giving a relation fails without a change if the cache has the key of the path. -/
theorem outcome_seed_of_readAs
    {path : String}
    {hops : List Hop}
    (read : Hop.ReadAs (Text.split '.' path) hops)
    (relation : Relation)
    (session : Session) :
    outcome (seed path relation) session =
      if (session.cache.lookup (keyOf hops)).isSome then
        (.error (.expression (.alreadyJoined (keyOf hops))), session)
      else (.ok ⟨⟩, session.withSeed (keyOf hops) relation) := by
  have key : canonicalKey path = .ok (keyOf hops) :=
    canonicalKey_eq_ok_iff.mpr ⟨hops, read, rfl⟩
  simp only [seed, key, outcome_bind, outcome_get]
  split <;> rfl

/-- What giving a relation does to a session: nothing, or the relation becomes the
latest seed of a key that the cache does not have. -/
theorem outcome_seed
    (path : String)
    (relation : Relation)
    (session : Session) :
    (outcome (seed path relation) session).2 = session ∨
    ∃ hops, Hop.ReadAs (Text.split '.' path) hops ∧
      session.cache.lookup (keyOf hops) = none ∧
      (outcome (seed path relation) session).2 =
        { session with seeds := (keyOf hops, relation) :: session.seeds } := by
  cases read : canonicalKey path with
  | error error =>
      rw [seed, read]
      exact .inl rfl
  | ok key =>
      obtain ⟨hops, hopsRead, rfl⟩ := canonicalKey_eq_ok_iff.mp read
      rw [outcome_seed_of_readAs hopsRead]
      split
      · exact .inl rfl
      · rename_i new
        exact .inr ⟨hops, hopsRead, Option.not_isSome_iff_eq_none.mp new, rfl⟩

/-- Giving a relation keeps a session coherent. -/
theorem Coherent.seed
    {session : Session}
    (coherent : session.Coherent)
    {key : String}
    (relation : Relation)
    (new : session.cache.lookup key = none) :
    { session with seeds := (key, relation) :: session.seeds }.Coherent := by
  have grows : session.Grows
      { session with seeds := (key, relation) :: session.seeds } :=
    ⟨rfl, rfl, List.prefix_rfl, List.prefix_rfl⟩
  refine ⟨coherent.rootAlias, coherent.aliases, coherent.distinct,
    coherent.mem_joins, coherent.ownKey, ?_⟩
  intro other join cached
  obtain ⟨hops, joins, hop, readable, key_eq, walked, related⟩ :=
    coherent.traced other join cached
  refine ⟨hops, joins, hop, readable, key_eq, walked.grows grows, ?_⟩
  have different : (other == key) = false := by
    rw [beq_eq_false_iff_ne]
    rintro rfl
    rw [new] at cached
    cases cached
  rw [relationOf, List.lookup_cons, different]
  exact related

/-! ## Operations -/

/-- An operation of a session. -/
inductive Operation
  | seed (path : String) (relation : Relation)
  | field (path : String)
  | hops (texts : List String)
  | condition (condition : Condition)
  | call (call : FunctionCall)
  | compile (domain : Domain)

namespace Operation

/-- What an operation does to a session, whatever it answers. -/
def after (session : Session) : Operation → Session
  | .seed given relation => (outcome (Session.seed given relation) session).2
  | .field name => (outcome (resolveField name) session).2
  | .hops texts => (outcome (resolvePath texts) session).2
  | .condition test => (outcome test.bind session).2
  | .call function => (outcome function.bind session).2
  | .compile domain => (outcome domain.bind session).2

/-- What is asked of operations: relations are given for paths whose hops have names,
and hops that are given one by one have no points inside. -/
def Proper : Operation → Prop
  | .seed given _ => ∀ read, Hop.ReadAs (Text.split '.' given) read →
      ∀ hop ∈ read, hop.name ≠ ""
  | .hops texts => ∀ text ∈ texts, '.' ∉ text.toList
  | _ => True

end Operation

/-- The session after operations. -/
def run
    (session : Session)
    (operations : List Operation) : Session :=
  operations.foldl Operation.after session

@[simp] theorem run_nil (session : Session) : session.run [] = session := rfl

@[simp] theorem run_append
    (session : Session)
    (front back : List Operation) :
    session.run (front ++ back) = (session.run front).run back := by
  simp [run]

@[simp] theorem run_cons
    (session : Session)
    (operation : Operation)
    (rest : List Operation) :
    session.run (operation :: rest) =
      (operation.after session).run rest := rfl

/-- An operation only resolves, or it gives the relation of a path that has led to no
join yet. -/
theorem Coherent.after
    {session : Session}
    (coherent : session.Coherent)
    {operation : Operation}
    (proper : operation.Proper) :
    (operation.after session).Coherent ∧
      (session.Resolves (operation.after session) ∨
        ∃ hops relation,
          (hops ≠ [] ∧ ∀ hop ∈ hops, hop.Readable ∧ hop.name ≠ "") ∧
          session.cache.lookup (keyOf hops) = none ∧
          operation.after session =
            { session with seeds := (keyOf hops, relation) :: session.seeds }) := by
  cases operation with
  | seed path relation =>
      rw [Operation.after]
      rcases outcome_seed path relation session with
        same | ⟨hops, read, new, seeded⟩
      · rw [same]
        exact ⟨coherent, .inl (.refl session)⟩
      · rw [seeded]
        refine ⟨coherent.seed relation new, .inr
          ⟨hops, relation, ⟨?_, fun hop inHops => ⟨?_, ?_⟩⟩, new, rfl⟩⟩
        · rintro rfl
          exact Text.split_ne_nil '.' path (by simpa [Hop.ReadAs] using read)
        · exact readable_of_readAs (fun text => Text.not_mem_of_mem_split) read
            hop inHops
        · exact proper hops read hop inHops
  | field path =>
      obtain ⟨afterCoherent, resolves, _⟩ :=
        coherent.resolveField
          (Prod.eta (outcome (Session.resolveField path) session)).symm
      exact ⟨afterCoherent, .inl resolves⟩
  | hops texts =>
      obtain ⟨afterCoherent, resolves⟩ := coherent.resolvePath proper rfl
      exact ⟨afterCoherent, .inl resolves⟩
  | condition condition =>
      obtain ⟨afterCoherent, resolves⟩ :=
        condition.resolvesFields_bind.keeps_coherent coherent rfl
      exact ⟨afterCoherent, .inl resolves⟩
  | call call =>
      obtain ⟨afterCoherent, resolves⟩ :=
        call.resolvesFields_bind.keeps_coherent coherent rfl
      exact ⟨afterCoherent, .inl resolves⟩
  | compile domain =>
      obtain ⟨afterCoherent, resolves⟩ :=
        domain.resolvesFields_bind.keeps_coherent coherent rfl
      exact ⟨afterCoherent, .inl resolves⟩

theorem Coherent.grows_after
    {session : Session}
    (coherent : session.Coherent)
    {operation : Operation}
    (proper : operation.Proper) :
    session.Grows (operation.after session) := by
  rcases (coherent.after proper).2 with resolves | ⟨_, _, _, _, seeded⟩
  · exact resolves.toGrows
  · rw [seeded]
    exact ⟨rfl, rfl, List.prefix_rfl, List.prefix_rfl⟩

/-- Operations keep a session coherent and let it grow. -/
theorem Coherent.run
    {session : Session}
    (coherent : session.Coherent)
    {operations : List Operation}
    (proper : ∀ operation ∈ operations, operation.Proper) :
    (session.run operations).Coherent ∧
      session.Grows (session.run operations) := by
  induction operations generalizing session with
  | nil => exact ⟨coherent, .refl session⟩
  | cons operation rest inductionHypothesis =>
      simp only [List.mem_cons, forall_eq_or_imp] at proper
      obtain ⟨runCoherent, grows⟩ :=
        inductionHypothesis (coherent.after proper.1).1 proper.2
      exact ⟨runCoherent, (coherent.grows_after proper.1).trans grows⟩

/-! ## Where keys come from -/

/-- A hop has the relation of the seed of its key, or else of its foreign key. -/
def HasRelation
    (session : Session)
    (key : String)
    (left : Table)
    (hop : Hop)
    (relation : Relation) : Prop :=
  match session.seeds.lookup key with
  | some seed => relation = seed
  | none => ∃ foreignKey,
      session.foreignKeys left.name hop.name = some foreignKey ∧
        relation = Relation.ofForeignKey hop.kind foreignKey

theorem relationOf_eq_ok_iff
    {session : Session}
    {key : String}
    {left : Table}
    {hop : Hop}
    {relation : Relation} :
    session.relationOf key left hop = .ok relation ↔
      session.HasRelation key left hop relation := by
  rw [relationOf, HasRelation]
  cases session.seeds.lookup key with
  | some seed => simp [eq_comm]
  | none =>
      cases session.foreignKeys left.name hop.name with
      | some foreignKey => simp [eq_comm]
      | none => simp

/-- One of the operations has found the key new and has led from it to the join,
along the relation that the hop had by then. -/
def EnteredBy
    (session : Session)
    (operations : List Operation)
    (key : String)
    (hop : Hop)
    (join : Join) : Prop :=
  ∃ front operation back, operations = front ++ operation :: back ∧
    (session.run front).cache.lookup key = none ∧
    (session.run (front ++ [operation])).cache.lookup key = some join ∧
    (session.run front).HasRelation key join.left hop join.relation

/-- An operation that enters a key leads from it along the relation that the hop had
before. -/
theorem Coherent.hasRelation_of_entered
    {session : Session}
    (coherent : session.Coherent)
    {operation : Operation}
    (proper : operation.Proper)
    {hops : List Hop}
    {hop : Hop}
    (readable : hop.Readable)
    {join : Join}
    (new : session.cache.lookup (keyOf (hops ++ [hop])) = none)
    (cached : (operation.after session).cache.lookup (keyOf (hops ++ [hop])) =
      some join) :
    session.HasRelation (keyOf (hops ++ [hop])) join.left hop join.relation := by
  obtain ⟨afterCoherent, resolves | ⟨_, _, _, _, seeded⟩⟩ := coherent.after proper
  · have related := afterCoherent.relationOf_of_cached readable cached
    rw [resolves.relationOf] at related
    exact relationOf_eq_ok_iff.mp related
  · rw [seeded] at cached
    simp only [new] at cached
    cases cached

/-- A key that operations have brought into the cache was entered by one of them. -/
theorem Coherent.enteredBy
    {session : Session}
    (coherent : session.Coherent)
    {operations : List Operation}
    (proper : ∀ operation ∈ operations, operation.Proper)
    {hops : List Hop}
    {hop : Hop}
    (readable : hop.Readable)
    {join : Join}
    (new : session.cache.lookup (keyOf (hops ++ [hop])) = none)
    (cached : (session.run operations).cache.lookup (keyOf (hops ++ [hop])) =
      some join) :
    session.EnteredBy operations (keyOf (hops ++ [hop])) hop join := by
  induction operations generalizing session with
  | nil =>
      rw [run_nil, new] at cached
      cases cached
  | cons operation rest inductionHypothesis =>
      simp only [List.mem_cons, forall_eq_or_imp] at proper
      have afterCoherent := (coherent.after proper.1).1
      cases entered : (operation.after session).cache.lookup
          (keyOf (hops ++ [hop])) with
      | none =>
          obtain ⟨front, last, back, split, frontNew, lastCached, related⟩ :=
            inductionHypothesis afterCoherent proper.2 entered cached
          exact ⟨operation :: front, last, back, by rw [split]; rfl, frontNew,
            lastCached, related⟩
      | some found =>
          have same := (afterCoherent.run proper.2).2.lookup entered
          rw [run_cons, same, Option.some.injEq] at cached
          subst cached
          exact ⟨[], operation, rest, rfl, new, entered,
            coherent.hasRelation_of_entered proper.1 readable new entered⟩

end Session
end DomainSql
