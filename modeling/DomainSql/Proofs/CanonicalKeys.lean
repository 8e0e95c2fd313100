import DomainSql.Proofs.FailedOperations
import DomainSql.Proofs.NotedCalls

/-!
# Canonical keys

The key of a path is computed in two places: from the whole path, when a relation is
given for it or its join is asked for, and hop by hop, when it is walked. A walk that
notes the keys that it looks up notes the keys of the path up to each of its hops. Both
ways fail at the same texts, but a walk may stop earlier, where a relation is missing.
The key of a path is a path with this key.
-/

namespace DomainSql
namespace Session

/-! ## Walks that note their keys -/

/-- Walk hops on from a table that a path with this key has reached, and note the key of
every hop that is followed, also of one that does not lead on. -/
def notedWalkFrom
    (table : Table)
    (key : String) :
    List String → ExceptT Error (StateM (Session × List String)) (Table × List Join)
  | [] => pure (table, [])
  | text :: rest =>
      match Hop.read text with
      | .error error => throw (.expression error)
      | .ok hop => do
          let key := Hop.extend key hop
          let join ← noting key (follow key table hop)
          let (last, joins) ← notedWalkFrom join.right key rest
          pure (last, join :: joins)

/-- Walk hops from the root table on, and note the key of every hop. -/
def notedWalk
    (texts : List String) :
    ExceptT Error (StateM (Session × List String)) (Table × List Join) := do
  let noted ← get
  notedWalkFrom noted.1.root "" texts

/-- Noting keys changes nothing else about a walk. -/
theorem notes_walkFrom
    (table : Table)
    (key : String)
    (texts : List String) :
    Notes (notedWalkFrom table key texts) (walkFrom table key texts) := by
  induction texts generalizing table key with
  | nil => exact .pure _
  | cons text rest inductionHypothesis =>
      rw [notedWalkFrom, walkFrom, readHop]
      cases Hop.read text with
      | error error => exact .throw _
      | ok hop =>
          rw [pure_bind]
          apply (Notes.noting (Hop.extend key hop) (follow _ table hop)).bind
          intro join
          exact (inductionHypothesis join.right _).bind fun _ => .pure _

theorem notes_walk (texts : List String) :
    Notes (notedWalk texts) (walk texts) := by
  intro session keys
  exact notes_walkFrom session.root "" texts session keys

/-! ## The keys on the way -/

/-- The answer is that a relation is missing. -/
def MissesRelation {Result : Type} (answer : Except Error Result) : Prop :=
  ∃ table field, answer = .error (.unresolvedRelation table field)

instance {Result : Type} (answer : Except Error Result) :
    Decidable (MissesRelation answer) :=
  match answer with
  | .error (.unresolvedRelation table field) => .isTrue ⟨table, field, rfl⟩
  | .error (.expression _) => .isFalse nofun
  | .error (.unsupportedOperator _) => .isFalse nofun
  | .error (.unsupportedJoin _ _) => .isFalse nofun
  | .error (.rule _) => .isFalse nofun
  | .error (.settings _) => .isFalse nofun
  | .ok _ => .isFalse nofun

/-- The keys that are looked up along hops behind a path with a key, and the answer of
the walk. -/
inductive LooksUp :
    String → List String → List String → Except Error (Table × List Join) → Prop
  | arrived (key : String) (table : Table) : LooksUp key [] [] (.ok (table, []))
  | unreadable
      {text : String}
      {error : ExpressionError}
      (unread : Hop.read text = .error error)
      (key : String)
      (rest : List String) :
      LooksUp key (text :: rest) [] (.error (.expression error))
  | missing
      {text : String}
      {hop : Hop}
      (read : Hop.read text = .ok hop)
      (key : String)
      (rest : List String)
      (table : String) :
      LooksUp key (text :: rest) [Hop.extend key hop]
        (.error (.unresolvedRelation table hop.name))
  | follow
      {key text : String}
      {hop : Hop}
      {rest keys : List String}
      {answer : Except Error (Table × List Join)}
      (read : Hop.read text = .ok hop)
      (behind : LooksUp (Hop.extend key hop) rest keys answer)
      (join : Join) :
      LooksUp key (text :: rest) (Hop.extend key hop :: keys)
        (answer.map fun found => (found.1, join :: found.2))

theorem outcome_noting
    {Result : Type}
    (key : String)
    (act : Resolving Result)
    (session : Session)
    (noted : List String) :
    outcome (noting key act) (session, noted) =
      ((outcome act session).1, (outcome act session).2, noted ++ [key]) := rfl

/-- A walk that notes its keys goes on behind a hop that leads on. -/
theorem outcome_notedWalkFrom_of_followed
    {table : Table}
    {key text : String}
    {hop : Hop}
    {session middle : Session}
    {join : Join}
    (read : Hop.read text = .ok hop)
    (followed : outcome (follow (Hop.extend key hop) table hop) session =
      (.ok join, middle))
    (rest noted : List String) :
    outcome (notedWalkFrom table key (text :: rest)) (session, noted) =
      let behind := outcome (notedWalkFrom join.right (Hop.extend key hop) rest)
        (middle, noted ++ [Hop.extend key hop])
      (behind.1.map fun found => (found.1, join :: found.2), behind.2) := by
  rw [notedWalkFrom, read]
  dsimp only
  rw [outcome_bind, outcome_noting, followed]
  dsimp only
  rw [outcome_bind]
  rcases outcome (notedWalkFrom join.right (Hop.extend key hop) rest)
    (middle, noted ++ [Hop.extend key hop]) with ⟨error | ⟨last, joins⟩, after⟩ <;> rfl

/-- A walk that notes its keys ends at a hop that does not lead on. -/
theorem outcome_notedWalkFrom_of_failed
    {table : Table}
    {key text : String}
    {hop : Hop}
    {session after : Session}
    {error : Error}
    (read : Hop.read text = .ok hop)
    (failed : outcome (follow (Hop.extend key hop) table hop) session =
      (.error error, after))
    (rest noted : List String) :
    outcome (notedWalkFrom table key (text :: rest)) (session, noted) =
      (.error error, after, noted ++ [Hop.extend key hop]) := by
  rw [notedWalkFrom, read]
  dsimp only
  rw [outcome_bind, outcome_noting, failed]

/-- A walk looks up the keys along its hops. -/
theorem exists_looksUp_of_notedWalkFrom
    (table : Table)
    (key : String)
    (texts : List String)
    (session : Session)
    (noted : List String) :
    ∃ keys,
      (outcome (notedWalkFrom table key texts) (session, noted)).2.2 = noted ++ keys ∧
      LooksUp key texts keys
        (outcome (notedWalkFrom table key texts) (session, noted)).1 := by
  induction texts generalizing table key session noted with
  | nil => exact ⟨[], (List.append_nil noted).symm, .arrived key table⟩
  | cons text rest inductionHypothesis =>
      cases read : Hop.read text with
      | error error =>
          rw [notedWalkFrom, read]
          exact ⟨[], (List.append_nil noted).symm, .unreadable read key rest⟩
      | ok hop =>
          rcases followed : outcome (follow (Hop.extend key hop) table hop) session with
            ⟨error | join, middle⟩
          · rw [outcome_notedWalkFrom_of_failed read followed]
            obtain ⟨_, unrelated, _⟩ := outcome_follow_eq_error_iff.mp followed
            obtain ⟨_, _, rfl⟩ := relationOf_eq_error_iff.mp unrelated
            exact ⟨_, rfl, .missing read key rest table.name⟩
          · rw [outcome_notedWalkFrom_of_followed read followed]
            obtain ⟨keys, keys_eq, looksUp⟩ := inductionHypothesis join.right
              (Hop.extend key hop) middle (noted ++ [Hop.extend key hop])
            exact ⟨Hop.extend key hop :: keys, by simpa using keys_eq,
              .follow read looksUp join⟩

namespace LooksUp

variable {key : String} {texts keys : List String}
  {answer : Except Error (Table × List Join)}

/-- What is looked up is the key of the hops up to the place where it is. -/
theorem keyFrom_take
    (looksUp : LooksUp key texts keys answer)
    {place : Nat}
    {found : String}
    (isThere : keys[place]? = some found) :
    keyFrom key (texts.take (place + 1)) = .ok found := by
  induction looksUp generalizing place with
  | arrived => cases isThere
  | unreadable => cases isThere
  | missing read key rest table =>
      obtain ⟨rfl, rfl⟩ := by simpa using List.getElem?_eq_some_iff.mp isThere
      rw [List.take_succ_cons, List.take_zero, keyFrom, read]
      rfl
  | @follow key text hop rest keys answer read behind join inductionHypothesis =>
      rw [List.take_succ_cons, keyFrom, read]
      cases place with
      | zero =>
          cases isThere
          rfl
      | succ place => exact inductionHypothesis isThere

/-- A walk arrives behind all its hops, comes to a hop that the key of the path does not
get over either, or misses a relation. -/
theorem answer_cases
    (looksUp : LooksUp key texts keys answer) :
    ((∃ result, answer = .ok result) ∧ keys.length = texts.length) ∨
      (∃ error, answer = .error (.expression error) ∧ keyFrom key texts = .error error) ∨
      MissesRelation answer := by
  induction looksUp with
  | arrived key table => exact .inl ⟨⟨_, rfl⟩, rfl⟩
  | unreadable unread key rest =>
      refine .inr (.inl ⟨_, rfl, ?_⟩)
      rw [keyFrom, unread]
      rfl
  | missing read key rest table => exact .inr (.inr ⟨_, _, rfl⟩)
  | follow read behind join inductionHypothesis =>
      rcases inductionHypothesis with
        ⟨⟨result, rfl⟩, lengths⟩ | ⟨error, rfl, unread⟩ | ⟨table, field, rfl⟩
      · exact .inl ⟨⟨_, rfl⟩, congrArg (· + 1) lengths⟩
      · refine .inr (.inl ⟨error, rfl, ?_⟩)
        rw [keyFrom, read]
        exact unread
      · exact .inr (.inr ⟨table, field, rfl⟩)

end LooksUp

/-! ## The keys of paths -/

/-- The key up to a hop is the key of the path up to this hop. -/
theorem canonicalKey_join_take
    (path : String)
    (count : Nat) :
    canonicalKey (Text.join '.' ((Text.split '.' path).take (count + 1))) =
      keyFrom "" ((Text.split '.' path).take (count + 1)) := by
  have nonempty : (Text.split '.' path).take (count + 1) ≠ [] := by
    simp [Text.split_ne_nil]
  rw [canonicalKey, Text.split_join nonempty fun part inFront =>
    Text.not_mem_of_mem_split (List.mem_of_mem_take inFront)]

/-- The key of a path is a path with this key. -/
theorem canonicalKey_canonicalKey
    {path key : String}
    (accepted : canonicalKey path = .ok key) :
    canonicalKey key = .ok key := by
  obtain ⟨hops, read, rfl⟩ := canonicalKey_eq_ok_iff.mp accepted
  have readable := readable_of_readAs (fun _ => Text.not_mem_of_mem_split) read
  -- Hops without a name in front are gone from the key, and are not read again.
  have trailReadable : ∀ hop ∈ Hop.trail hops, hop.Readable := fun hop inTrail =>
    readable hop (Hop.mem_of_mem_trail inTrail)
  rw [← keyOf_trail readable]
  rcases Hop.trail_eq_nil_or_cons hops with empty | ⟨first, rest, trail_eq, named⟩
  · rw [empty]
    rfl
  · rw [trail_eq] at trailReadable ⊢
    refine canonicalKey_eq_ok_iff.mpr ⟨first :: rest, ?_, rfl⟩
    rw [split_keyOf_cons trailReadable named]
    exact Hop.readAs_map_text trailReadable

/-- A key that is followed leads to the join that the walk has come to. -/
theorem lookup_of_follow
    {session after : Session}
    {key : String}
    {table : Table}
    {hop : Hop}
    {join : Join}
    (followed : outcome (follow key table hop) session = (.ok join, after)) :
    after.cache.lookup key = some join := by
  rw [outcome_follow] at followed
  split at followed
  · rename_i cached
    cases followed
    exact cached
  · rename_i new
    split at followed
    · cases followed
    · cases followed
      exact lookup_enter new

/-- A path that has been walked leads to the last join of the walk. -/
theorem lookup_of_walkFrom
    {session after : Session}
    {table last : Table}
    {key whole : String}
    {texts : List String}
    {joins : List Join}
    {join : Join}
    (walked : outcome (walkFrom table key texts) session = (.ok (last, joins), after))
    (wholeKey : keyFrom key texts = .ok whole)
    (ends : joins.getLast? = some join) :
    after.cache.lookup whole = some join := by
  induction texts generalizing session table key joins with
  | nil =>
      cases walked
      cases ends
  | cons text rest inductionHypothesis =>
      obtain ⟨hop, first, middle, others, read, followed, restWalked, rfl⟩ :=
        outcome_walkFrom_cons_eq_ok_iff.mp walked
      rw [keyFrom, read] at wholeKey
      cases rest with
      | nil =>
          cases restWalked
          cases wholeKey
          cases ends
          exact lookup_of_follow followed
      | cons next behind =>
          have nonempty : others ≠ [] := by
            rintro rfl
            have lengths := length_of_walkFrom restWalked
            simp at lengths
          rw [List.getLast?_cons_of_ne_nil nonempty] at ends
          exact inductionHypothesis restWalked wholeKey ends

/-! ## The two ways to a key -/

/-- The keys that walking hops from the root table on looks up, in order. -/
def lookedUp
    (session : Session)
    (texts : List String) : List String :=
  (outcome (notedWalk texts) (session, [])).2.2

theorem looksUp_lookedUp
    (session : Session)
    (texts : List String) :
    LooksUp "" texts (session.lookedUp texts) (outcome (walk texts) session).1 := by
  obtain ⟨keys, keys_eq, looksUp⟩ :=
    exists_looksUp_of_notedWalkFrom session.root "" texts session []
  have lookedUp_eq : session.lookedUp texts = keys := keys_eq
  have answer_eq : (outcome (walk texts) session).1 =
      (outcome (notedWalk texts) (session, [])).1 :=
    congrArg Prod.fst (notes_walk texts session [])
  rw [lookedUp_eq, answer_eq]
  exact looksUp

/-- What is looked up at the last hop of a path is its key. -/
theorem exists_key_of_arrives
    {session : Session}
    {path : String}
    (arrives : (session.lookedUp (Text.split '.' path)).length =
      (Text.split '.' path).length) :
    ∃ key, (session.lookedUp (Text.split '.' path)).getLast? = some key ∧
      canonicalKey path = .ok key := by
  have looksUp := looksUp_lookedUp session (Text.split '.' path)
  have nonempty := List.length_pos_iff.mpr (Text.split_ne_nil '.' path)
  generalize session.lookedUp (Text.split '.' path) = keys at arrives looksUp ⊢
  have nonemptyKeys : keys ≠ [] := List.length_pos_iff.mp (arrives ▸ nonempty)
  have ends := List.getLast?_eq_some_getLast nonemptyKeys
  refine ⟨keys.getLast nonemptyKeys, ends, ?_⟩
  rw [List.getLast?_eq_getElem?] at ends
  have keyAtEnd := looksUp.keyFrom_take ends
  rwa [arrives, Nat.sub_add_cancel nonempty, List.take_length] at keyAtEnd

/-- Behind a walk the key of the path leads to the join that the walk has come to. -/
theorem join?_of_resolvePath
    {session after : Session}
    {path : String}
    {join : Join}
    (resolved : outcome (resolvePath (Text.split '.' path)) session =
      (.ok join, after)) :
    after.join? path = some join := by
  rw [resolvePath, outcome_bind_eq_ok_iff] at resolved
  obtain ⟨⟨last, joins⟩, middle, walked, ended⟩ := resolved
  dsimp only at ended
  split at ended
  · rename_i ends
    cases ended
    have looksUp := looksUp_lookedUp session (Text.split '.' path)
    rw [walked] at looksUp
    obtain ⟨_, arrives⟩ | ⟨_, failed, _⟩ | ⟨_, _, failed⟩ := looksUp.answer_cases
    · obtain ⟨key, _, keyOfPath⟩ := exists_key_of_arrives arrives
      rw [outcome_walk] at walked
      rw [join?, keyOfPath]
      exact lookup_of_walkFrom walked keyOfPath ends
    · cases failed
    · cases failed
  · cases ended

/-- A walk succeeds if it looks up the key of the whole path and misses no relation. -/
theorem walk_succeeds_iff
    (session : Session)
    (path : String) :
    (∃ result, (outcome (walk (Text.split '.' path)) session).1 = .ok result) ↔
      (session.lookedUp (Text.split '.' path)).length = (Text.split '.' path).length ∧
      ¬ MissesRelation (outcome (walk (Text.split '.' path)) session).1 := by
  have ways := (looksUp_lookedUp session (Text.split '.' path)).answer_cases
  constructor
  · rintro ⟨result, succeeded⟩
    rw [succeeded] at ways ⊢
    obtain ⟨_, arrives⟩ | ⟨_, failed, _⟩ | ⟨_, _, failed⟩ := ways
    · exact ⟨arrives, nofun⟩
    · cases failed
    · cases failed
  · rintro ⟨arrives, missesNone⟩
    obtain ⟨succeeded, _⟩ | ⟨error, _, unread⟩ | misses := ways
    · exact succeeded
    · obtain ⟨key, _, keyOfPath⟩ := exists_key_of_arrives arrives
      rw [canonicalKey, unread] at keyOfPath
      cases keyOfPath
    · exact absurd misses missesNone

/-- A walk comes to an unreadable hop if the key of the path does and it misses no
relation. -/
theorem walk_unreadable_iff
    {session : Session}
    {path : String}
    {error : ExpressionError} :
    (outcome (walk (Text.split '.' path)) session).1 = .error (.expression error) ↔
      canonicalKey path = .error error ∧
      ¬ MissesRelation (outcome (walk (Text.split '.' path)) session).1 := by
  have ways := (looksUp_lookedUp session (Text.split '.' path)).answer_cases
  constructor
  · intro failed
    rw [failed] at ways ⊢
    obtain ⟨⟨_, succeeded⟩, _⟩ | ⟨_, same, unread⟩ | ⟨_, _, misses⟩ := ways
    · cases succeeded
    · cases same
      exact ⟨unread, nofun⟩
    · cases misses
  · rintro ⟨unread, missesNone⟩
    obtain ⟨_, arrives⟩ | ⟨other, failed, otherUnread⟩ | misses := ways
    · obtain ⟨key, _, keyOfPath⟩ := exists_key_of_arrives arrives
      rw [unread] at keyOfPath
      cases keyOfPath
    · rw [canonicalKey, otherUnread] at unread
      cases unread
      exact failed
    · exact absurd misses missesNone

/-- The key of a path is the one that walking the path looks up at its last hop, and the
keys that are looked up before are those of the path up to there. Both come to the same
unreadable hop, unless the walk misses a relation. Behind a walk the key of the path leads
to its join, and the key of a path is a path with this key. -/
theorem canonicalKey_is_key_of_walk
    (session : Session)
    (path : String) :
    let texts := Text.split '.' path
    let noted := outcome (notedWalk texts) (session, [])
    let answer := (outcome (walk texts) session).1
    outcome (walk texts) session = (noted.1, noted.2.1) ∧
    (∀ place key, (session.lookedUp texts)[place]? = some key →
      canonicalKey (Text.join '.' (texts.take (place + 1))) = .ok key) ∧
    ((session.lookedUp texts).length = texts.length →
      ∃ key, (session.lookedUp texts).getLast? = some key ∧
        canonicalKey path = .ok key) ∧
    ((∃ result, answer = .ok result) ↔
      (session.lookedUp texts).length = texts.length ∧ ¬ MissesRelation answer) ∧
    (∀ error, answer = .error (.expression error) ↔
      canonicalKey path = .error error ∧ ¬ MissesRelation answer) ∧
    (∀ join after, outcome (resolvePath texts) session = (.ok join, after) →
      after.join? path = some join) ∧
    ∀ key, canonicalKey path = .ok key → canonicalKey key = .ok key := by
  intro texts noted answer
  refine ⟨notes_walk texts session [], ?_, exists_key_of_arrives,
    walk_succeeds_iff session path, fun _ => walk_unreadable_iff,
    fun _ _ => join?_of_resolvePath, fun _ => canonicalKey_canonicalKey⟩
  intro place key isThere
  rw [canonicalKey_join_take]
  exact (looksUp_lookedUp session texts).keyFrom_take isThere

/-- A spaced code is looked up without its spaces, and the code of an inner join not at
all; the key is its own key, and leads to the join of the second hop. An unknown code ends
the walk and the key alike, but for a relation that is missing in front of it. -/
theorem key_of_spaced_code_is_looked_up :
    let foreignKeys : ForeignKeys := fun table field =>
      if table = "orders" ∧ field = "partner" then
        some ⟨"partners", "partner_id", "id"⟩
      else if table = "partners" ∧ field = "country" then
        some ⟨"countries", "country_id", "id"⟩
      else none
    let session := start "orders" foreignKeys
    let path := "partner( LO ).country(I)"
    let country : Join :=
      ⟨"partner(LO).country", ⟨"partners", "t1"⟩, ⟨"countries", "t2"⟩, .inner,
        "country_id", "id"⟩
    session.lookedUp (Text.split '.' path) = ["partner(LO)", "partner(LO).country"] ∧
    canonicalKey path = .ok "partner(LO).country" ∧
    canonicalKey "partner(LO).country" = .ok "partner(LO).country" ∧
    (outcome (resolvePath (Text.split '.' path)) session).2.join? path = some country ∧
    (outcome (walk (Text.split '.' "partner.country(X)")) session).1 =
      .error (.expression (.unknownJoinCode "X" "country(X)")) ∧
    canonicalKey "shop.country(X)" = .error (.unknownJoinCode "X" "country(X)") ∧
    MissesRelation (outcome (walk (Text.split '.' "shop.country(X)")) session).1 := by
  intro foreignKeys session path country
  obtain ⟨_, _, lastKey, _, _, leadsTo, keyOfKey⟩ :=
    canonicalKey_is_key_of_walk session path
  obtain ⟨_, _, _, _, unreadable, _⟩ :=
    canonicalKey_is_key_of_walk session "partner.country(X)"
  have looked : session.lookedUp (Text.split '.' path) =
      ["partner(LO)", "partner(LO).country"] := by decide +kernel
  have arrives : (session.lookedUp (Text.split '.' path)).length =
      (Text.split '.' path).length := by decide +kernel
  have missesNone : ¬ MissesRelation
      (outcome (walk (Text.split '.' "partner.country(X)")) session).1 := by
    decide +kernel
  have resolved : (outcome (resolvePath (Text.split '.' path)) session).1.toOption =
      some country := by decide +kernel
  obtain ⟨key, isLast, keyOfPath⟩ := lastKey arrives
  rw [looked] at isLast
  cases isLast
  refine ⟨looked, keyOfPath, keyOfKey _ keyOfPath, ?_,
    (unreadable _).mpr ⟨rfl, missesNone⟩, rfl, by decide +kernel⟩
  rcases ran : outcome (resolvePath (Text.split '.' path)) session with
    ⟨error | join, after⟩ <;> rw [ran] at resolved <;> cases resolved
  exact leadsTo country after ran

end Session
end DomainSql
