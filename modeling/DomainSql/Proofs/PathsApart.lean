import DomainSql.Proofs.SessionHistory

/-!
# Paths that stay apart

Walking hops looks up the keys of the first hops, one after the other, and nothing
else. So a relation that is given for a path, and a join that a path has led to, matter
only to paths that come through its key. Two paths have one key when their hops are the
same, but for hops without names in front of them.
-/

namespace DomainSql

namespace Hop

/-- The hops are the same but for hops without names in front of them. -/
def SameBehindNameless (left right : List Hop) : Prop :=
  ∃ leftFront rightFront rest,
    left = leftFront ++ rest ∧ right = rightFront ++ rest ∧
      ∀ hop ∈ leftFront ++ rightFront, hop.name = ""

theorem sameBehindNameless_iff
    {left right : List Hop} :
    SameBehindNameless left right ↔ trail left = trail right := by
  constructor
  · rintro ⟨leftFront, rightFront, rest, rfl, rfl, nameless⟩
    have passed : ∀ front : List Hop, (∀ hop ∈ front, hop.name = "") →
        trail (front ++ rest) = trail rest := by
      intro front allNameless
      apply List.dropWhile_append_of_pos
      intro hop inFront
      simpa using allNameless hop inFront
    rw [passed leftFront fun hop inFront => nameless hop (by simp [inFront]),
      passed rightFront fun hop inFront => nameless hop (by simp [inFront])]
  · intro same
    let isNameless : Hop → Bool := fun hop => hop.name = ""
    refine ⟨left.takeWhile isNameless, right.takeWhile isNameless, trail left,
      List.takeWhile_append_dropWhile.symm, ?_, ?_⟩
    · rw [same]
      exact List.takeWhile_append_dropWhile.symm
    · intro hop inFronts
      rcases List.mem_append.mp inFronts with inFront | inFront <;>
        simpa [isNameless] using List.mem_takeWhile_imp inFront

/-- Hops without points that are the same but for hops without names in front of them
are the same if there are equally many. -/
theorem SameBehindNameless.eq_of_length_eq
    {left right : List Hop}
    (same : SameBehindNameless left right)
    (leftReadable : ∀ hop ∈ left, hop.Readable)
    (rightReadable : ∀ hop ∈ right, hop.Readable)
    (length_eq : left.length = right.length) :
    left = right := by
  obtain ⟨leftFront, rightFront, rest, rfl, rfl, nameless⟩ := same
  have blank : ∀ hop : Hop, hop.Readable → hop.name = "" → hop = ⟨"", .inner⟩ := by
    rintro ⟨name, kind⟩ readable rfl
    exact congrArg (Hop.mk "") (readable.nameless_inner rfl)
  have leftBlank : leftFront = List.replicate leftFront.length ⟨"", .inner⟩ :=
    List.eq_replicate_iff.mpr ⟨rfl, fun hop inFront =>
      blank hop (leftReadable hop (by simp [inFront])) (nameless hop (by simp [inFront]))⟩
  have rightBlank : rightFront = List.replicate rightFront.length ⟨"", .inner⟩ :=
    List.eq_replicate_iff.mpr ⟨rfl, fun hop inFront =>
      blank hop (rightReadable hop (by simp [inFront])) (nameless hop (by simp [inFront]))⟩
  have frontLength : leftFront.length = rightFront.length := by
    simpa using length_eq
  rw [leftBlank, rightBlank, frontLength]

/-- Some first ones of the hops are the others, but for hops without names in front of
them. -/
def PassesBy (hops others : List Hop) : Prop :=
  ∃ front back, hops = front ++ back ∧ front ≠ [] ∧ SameBehindNameless front others

theorem ReadAs.of_append
    {front back : List String}
    {hops : List Hop}
    (read : ReadAs (front ++ back) hops) :
    ∃ first others, hops = first ++ others ∧ ReadAs front first ∧ ReadAs back others := by
  rw [ReadAs, List.map_append] at read
  obtain ⟨first, others, rfl, firstRead, othersRead⟩ := List.append_eq_map_iff.mp read
  exact ⟨first, others, rfl, firstRead.symm, othersRead.symm⟩

end Hop

namespace Session

/-! ## The keys that a walk comes through -/

/-- A path with a key comes through another key when it goes on with hops. -/
def ComesThrough (key other : String) : List String → Prop
  | [] => False
  | text :: rest => ∃ hop, Hop.read text = .ok hop ∧
      (Hop.extend key hop = other ∨ ComesThrough (Hop.extend key hop) other rest)

/-- A path comes through the keys of its first hops. -/
theorem ComesThrough.exists_readAs
    {front : List Hop}
    {texts : List String}
    {other : String}
    (through : ComesThrough (keyOf front) other texts) :
    ∃ first back hops, texts = first ++ back ∧ first ≠ [] ∧
      Hop.ReadAs first hops ∧ keyOf (front ++ hops) = other := by
  induction texts generalizing front with
  | nil => exact through.elim
  | cons text rest inductionHypothesis =>
      obtain ⟨hop, read, here | later⟩ := through
      · rw [← keyOf_concat] at here
        exact ⟨[text], rest, [hop], rfl, by simp, by simp [Hop.ReadAs, read], here⟩
      · rw [← keyOf_concat] at later
        obtain ⟨first, back, hops, rfl, _, firstRead, key_eq⟩ :=
          inductionHypothesis later
        refine ⟨text :: first, back, hop :: hops, rfl, by simp, ?_, by simpa using key_eq⟩
        rw [Hop.ReadAs, List.map_cons, List.map_cons, read, firstRead]

/-- A path that does not pass by hops does not come through their key. -/
theorem not_comesThrough
    {texts : List String}
    {hops others : List Hop}
    (read : Hop.ReadAs texts others)
    (readable : ∀ hop ∈ hops, hop.Readable)
    (othersReadable : ∀ hop ∈ others, hop.Readable)
    (apart : ¬ Hop.PassesBy others hops) :
    ¬ ComesThrough "" (keyOf hops) texts := by
  intro through
  rw [← keyOf_nil] at through
  obtain ⟨front, back, first, rfl, nonempty, firstRead, key_eq⟩ := through.exists_readAs
  obtain ⟨_, behind, rfl, frontRead, _⟩ := read.of_append
  obtain rfl := firstRead.unique frontRead
  rw [List.nil_append, keyOf_eq_iff
    (fun hop inFirst => othersReadable hop (by simp [inFirst])) readable] at key_eq
  refine apart ⟨first, behind, rfl, ?_, Hop.sameBehindNameless_iff.mpr key_eq⟩
  rintro rfl
  exact nonempty (by simpa [Hop.ReadAs] using firstRead)

/-! ## Operations apart from a key -/

/-- A relation that is given for a key is that of no other key. -/
theorem relationOf_withSeed
    {session : Session}
    {key other : String}
    (different : key ≠ other)
    (given : Relation)
    (left : Table)
    (hop : Hop) :
    (session.withSeed other given).relationOf key left hop =
      session.relationOf key left hop := by
  have unequal : (key == other) = false := by simpa using different
  simp [relationOf, withSeed, List.lookup_cons, unequal]

/-- Entering a key does not look at the relations that are given. -/
theorem enter_withSeed
    (session : Session)
    (key other : String)
    (given relation : Relation)
    (left : Table) :
    (session.withSeed other given).enter key left relation =
      ((session.enter key left relation).1,
        (session.enter key left relation).2.withSeed other given) := by
  have shared : (session.withSeed other given).shared? left relation =
      session.shared? left relation := rfl
  rw [enter, enter, shared]
  cases session.shared? left relation <;> rfl

/-- An operation changes nothing about a key, and it does not notice a relation that is
given for it. -/
structure ApartFrom
    {Result : Type}
    (act : Resolving Result)
    (key : String) : Prop where
  lookup : ∀ session : Session,
    (outcome act session).2.cache.lookup key = session.cache.lookup key
  withSeed : ∀ (session : Session) (given : Relation),
    outcome act (session.withSeed key given) =
      ((outcome act session).1, (outcome act session).2.withSeed key given)

namespace ApartFrom

variable {Result Next : Type} {key other : String}

theorem pure (result : Result) :
    ApartFrom (Pure.pure result : Resolving Result) key :=
  ⟨fun _ => rfl, fun _ _ => rfl⟩

theorem throw (error : Error) :
    ApartFrom (MonadExcept.throw error : Resolving Result) key :=
  ⟨fun _ => rfl, fun _ _ => rfl⟩

theorem bind
    {act : Resolving Result}
    {next : Result → Resolving Next}
    (first : ApartFrom act key)
    (rest : ∀ result, ApartFrom (next result) key) :
    ApartFrom (act >>= next) key where
  lookup session := by
    have same := first.lookup session
    rw [outcome_bind]
    rcases ran : outcome act session with ⟨error | result, middle⟩ <;> rw [ran] at same
    · exact same
    · exact ((rest result).lookup middle).trans same
  withSeed session given := by
    rw [outcome_bind, outcome_bind, first.withSeed]
    rcases outcome act session with ⟨error | result, middle⟩
    · rfl
    · exact (rest result).withSeed middle given

/-- Following a hop is apart from all keys but its own. -/
theorem follow
    (different : key ≠ other)
    (left : Table)
    (hop : Hop) :
    ApartFrom (follow key left hop) other where
  lookup session := by
    rw [outcome_follow]
    split
    · rfl
    · split
      · rfl
      · have unequal : (other == key) = false := by simpa using different.symm
        simp [enter_cache, List.lookup_append, List.lookup_cons, unequal]
  withSeed session given := by
    simp only [outcome_follow, withSeed_cache, relationOf_withSeed different,
      enter_withSeed]
    cases session.cache.lookup key with
    | some join => rfl
    | none => cases session.relationOf key left hop <;> rfl

/-- A walk is apart from the keys that it does not come through. -/
theorem walkFrom
    {texts : List String}
    (apart : ¬ ComesThrough key other texts)
    (table : Table) :
    ApartFrom (walkFrom table key texts) other := by
  induction texts generalizing table key with
  | nil => exact .pure _
  | cons text rest inductionHypothesis =>
      rw [Session.walkFrom, readHop]
      cases read : Hop.read text with
      | error error => exact .throw _
      | ok hop =>
          have different : Hop.extend key hop ≠ other := fun same =>
            apart ⟨hop, read, .inl same⟩
          have restApart : ¬ ComesThrough (Hop.extend key hop) other rest :=
            fun through => apart ⟨hop, read, .inr through⟩
          rw [pure_bind]
          refine (ApartFrom.follow different table hop).bind fun join => ?_
          exact (inductionHypothesis restApart join.right).bind fun _ => .pure _

theorem walk
    {texts : List String}
    (apart : ¬ ComesThrough "" key texts) :
    ApartFrom (walk texts) key where
  lookup session := by
    rw [outcome_walk]
    exact (walkFrom apart session.root).lookup session
  withSeed session given := by
    rw [outcome_walk, outcome_walk]
    exact (walkFrom apart session.root).withSeed session given

theorem resolvePath
    {texts : List String}
    (apart : ¬ ComesThrough "" key texts) :
    ApartFrom (resolvePath texts) key := by
  unfold Session.resolvePath
  apply (walk apart).bind
  rintro ⟨last, joins⟩
  dsimp only
  split
  · exact .pure _
  · exact .throw _

theorem resolveField
    {field column : String}
    {texts : List String}
    (parts : Text.split '.' field = texts ++ [column])
    (apart : ¬ ComesThrough "" key texts) :
    ApartFrom (resolveField field) key := by
  unfold Session.resolveField
  split
  · exact .throw _
  · rename_i hops last split
    have same := (split_of_splitField split).symm.trans parts
    obtain ⟨rfl, _⟩ := List.append_inj' same rfl
    exact (walk apart).bind fun _ => .pure _

end ApartFrom

/-! ## Paths and their keys -/

theorem join?_of_readAs
    {path : String}
    {hops : List Hop}
    (read : Hop.ReadAs (Text.split '.' path) hops)
    (session : Session) :
    session.join? path = session.cache.lookup (keyOf hops) := by
  rw [join?, canonicalKey_eq_ok_iff.mpr ⟨hops, read, rfl⟩]

/-- An operation and a path have nothing to do with each other. A relation that is given
for the path does not show in what the operation answers and makes of joins and cache,
and the operation neither leads the path to a join nor keeps a relation from being given
for it. -/
structure LeavesAlone
    {Result : Type}
    (act : Resolving Result)
    (path : String) : Prop where
  notCaptured : ∀ (session : Session) (relation : Relation),
    let given := (outcome (seed path relation) session).2
    (outcome act given).1 = (outcome act session).1 ∧
      (outcome act given).2.joins = (outcome act session).2.joins ∧
      (outcome act given).2.cache = (outcome act session).2.cache
  notAnswered : ∀ session : Session,
    (outcome act session).2.join? path = session.join? path
  notBlocked : ∀ (session : Session) (relation : Relation),
    (outcome (seed path relation) (outcome act session).2).1 =
      (outcome (seed path relation) session).1

theorem ApartFrom.leavesAlone
    {Result : Type}
    {act : Resolving Result}
    {path : String}
    {hops : List Hop}
    (apart : ApartFrom act (keyOf hops))
    (read : Hop.ReadAs (Text.split '.' path) hops) :
    LeavesAlone act path where
  notCaptured session relation := by
    rw [outcome_seed_of_readAs read]
    split
    · exact ⟨rfl, rfl, rfl⟩
    · dsimp only
      rw [apart.withSeed]
      exact ⟨rfl, rfl, rfl⟩
  notAnswered session := by
    rw [join?_of_readAs read, join?_of_readAs read, apart.lookup]
  notBlocked session relation := by
    rw [outcome_seed_of_readAs read, outcome_seed_of_readAs read, apart.lookup]
    split <;> rfl

/-- Two paths have one key exactly when their hops are the same but for hops without
names in front of them, so equally many hops always have different keys if they are
different. Resolving a path, or a field behind it, has nothing to do with another path
unless some of its first hops have the key of the other path. -/
theorem paths_meet_only_behind_nameless_hops
    {path other key otherKey : String}
    (accepted : canonicalKey path = .ok key)
    (otherAccepted : canonicalKey other = .ok otherKey) :
    ∃ hops others,
      Hop.ReadAs (Text.split '.' path) hops ∧
      Hop.ReadAs (Text.split '.' other) others ∧
      (key = otherKey ↔ Hop.SameBehindNameless hops others) ∧
      (hops = others ↔ key = otherKey ∧ hops.length = others.length) ∧
      (¬ Hop.PassesBy others hops →
        LeavesAlone (resolvePath (Text.split '.' other)) path ∧
        ∀ field column, Text.split '.' field = Text.split '.' other ++ [column] →
          LeavesAlone (resolveField field) path) := by
  obtain ⟨hops, read, rfl⟩ := canonicalKey_eq_ok_iff.mp accepted
  obtain ⟨others, otherRead, rfl⟩ := canonicalKey_eq_ok_iff.mp otherAccepted
  have readable := readable_of_readAs (fun _ => Text.not_mem_of_mem_split) read
  have otherReadable := readable_of_readAs (fun _ => Text.not_mem_of_mem_split) otherRead
  have keys : keyOf hops = keyOf others ↔ Hop.SameBehindNameless hops others :=
    (keyOf_eq_iff readable otherReadable).trans Hop.sameBehindNameless_iff.symm
  refine ⟨hops, others, read, otherRead, keys, ⟨?_, ?_⟩, fun apart => ?_⟩
  · rintro rfl
    exact ⟨rfl, rfl⟩
  · rintro ⟨same, length_eq⟩
    exact (keys.mp same).eq_of_length_eq readable otherReadable length_eq
  · have through := not_comesThrough otherRead readable otherReadable apart
    exact ⟨(ApartFrom.resolvePath through).leavesAlone read,
      fun field column parts => (ApartFrom.resolveField parts through).leavesAlone read⟩

/-- A relation given for a path with a nameless hop in front is that of the path without
it: a field that had no relation is resolved along the one of the other path. -/
theorem nameless_hop_captures :
    let nothing : ForeignKeys := fun _ _ => none
    let session := start "orders" nothing
    let given := (outcome (seed ".owner" ⟨"users", .left, "owner_id", "id"⟩) session).2
    (∃ hops others,
      Hop.ReadAs (Text.split '.' ".owner") hops ∧
      Hop.ReadAs (Text.split '.' "owner") others ∧
      hops ≠ others ∧ Hop.SameBehindNameless hops others) ∧
    (outcome (resolveField "owner.login") session).1 =
      .error (.unresolvedRelation "orders" "owner") ∧
    (outcome (resolveField "owner.login") given).1 =
      .ok ⟨⟨⟨"users", "t1"⟩, "login"⟩, ["owner"]⟩ := by
  intro nothing session given
  have accepted : canonicalKey ".owner" = .ok "owner" := by rfl
  have otherAccepted : canonicalKey "owner" = .ok "owner" := by rfl
  obtain ⟨hops, others, read, otherRead, keys, _, _⟩ :=
    paths_meet_only_behind_nameless_hops accepted otherAccepted
  refine ⟨⟨hops, others, read, otherRead, ?_, keys.mp rfl⟩, by rfl,
    eq_ok_of_toOption_eq_some (by decide +kernel)⟩
  rintro rfl
  have length_eq : (Text.split '.' ".owner").length = (Text.split '.' "owner").length := by
    simpa [Hop.ReadAs] using congrArg List.length (read.trans otherRead.symm)
  revert length_eq
  decide +kernel

end Session
end DomainSql
