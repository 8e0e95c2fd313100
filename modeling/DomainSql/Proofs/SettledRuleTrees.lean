import DomainSql.Proofs.RuleTreeOperands
import DomainSql.Proofs.RuleTreeOptimizer
import Mathlib.Logic.Function.Iterate

/-!
# Trees that the optimizer leaves alone

The optimizer leaves a tree alone exactly when it is settled: when it is flat and no
query in it has a query for its only member. One pass need not settle a tree. Whether a
query has a single member is looked at before its members are spliced, and an empty query
that is spliced disappears, so that a query may be left with another one for its only
member. This is the only way in which it happens, and it takes an empty query. Each pass
that changes a tree makes its queries fewer, and so some number of passes settles it.
-/

namespace DomainSql
namespace RuleTree

/-- The trees that a tree consists of: the tree itself, and those that its members
consist of. -/
inductive Within (part : RuleTree) : RuleTree → Prop
  | self : Within part part
  | member
      {combinator : Combinator}
      {members : List RuleTree}
      {member : RuleTree}
      (inMembers : member ∈ members)
      (within : Within part member) :
      Within part (.query combinator members)

theorem Within.trans
    {inner part tree : RuleTree}
    (innerWithin : inner.Within part)
    (within : part.Within tree) :
    inner.Within tree := by
  induction within with
  | self => exact innerWithin
  | member inMembers _ inductionHypothesis => exact .member inMembers inductionHypothesis

/-- No query in a tree has a query for its only member. -/
def NoOnlyQueries (tree : RuleTree) : Prop :=
  ∀ combinator member, (query combinator [member]).Within tree → member.isQuery = false

theorem NoOnlyQueries.of_mem
    {combinator : Combinator}
    {members : List RuleTree}
    (noOnlyQueries : (query combinator members).NoOnlyQueries)
    {member : RuleTree}
    (inMembers : member ∈ members) :
    member.NoOnlyQueries :=
  fun other only within => noOnlyQueries other only (.member inMembers within)

/-- A tree is settled when it is flat and has no query for the only member of another. -/
theorem settled_iff {tree : RuleTree} :
    tree.Settled ↔ tree.isFlat = true ∧ tree.NoOnlyQueries := by
  constructor
  · intro settled
    induction settled with
    | rule inner =>
        refine ⟨rfl, fun combinator member within => ?_⟩
        cases within
    | query different several _ inductionHypothesis =>
        refine ⟨isFlat_query_iff.mpr fun member inMembers =>
          ⟨different member inMembers, (inductionHypothesis member inMembers).1⟩, ?_⟩
        intro other only within
        cases within with
        | self => exact several only rfl
        | member inMembers within => exact (inductionHypothesis _ inMembers).2 other only within
  · induction tree using memberInduction with
    | rule inner => exact fun _ => .rule inner
    | query combinator members inductionHypothesis =>
        rintro ⟨flat, noOnlyQueries⟩
        rw [isFlat_query_iff] at flat
        refine .query (fun member inMembers => (flat member inMembers).1) ?_ ?_
        · rintro only rfl
          exact noOnlyQueries combinator only .self
        · exact fun member inMembers => inductionHypothesis member inMembers
            ⟨(flat member inMembers).2, noOnlyQueries.of_mem inMembers⟩

/-- The parts of a settled tree under a combinator are settled. -/
theorem Settled.of_mem_partsBy
    {combinator : Combinator}
    {tree part : RuleTree}
    (settled : tree.Settled)
    (inParts : part ∈ tree.partsBy combinator) :
    part.Settled := by
  rcases partsBy_cases combinator tree with ⟨members, rfl, parts_eq⟩ | ⟨_, parts_eq⟩
  · rw [parts_eq] at inParts
    cases settled with
    | query _ _ settled => exact settled part inParts
  · rw [parts_eq, List.mem_singleton] at inParts
    exact inParts ▸ settled

/-! ## Passes make queries fewer -/

mutual

/-- The number of queries in a tree. -/
def queryCount : RuleTree → Nat
  | .rule _ => 0
  | .query _ members => queryCountOf members + 1

/-- The number of queries in trees. -/
def queryCountOf : List RuleTree → Nat
  | [] => 0
  | member :: rest => member.queryCount + queryCountOf rest

end

@[simp] theorem queryCountOf_append (front back : List RuleTree) :
    queryCountOf (front ++ back) = queryCountOf front + queryCountOf back := by
  induction front with
  | nil => simp [queryCountOf]
  | cons tree rest inductionHypothesis =>
      simp [queryCountOf, inductionHypothesis, Nat.add_assoc]

/-- A tree has as many queries as its parts, or one more if it is a query with the
combinator itself. -/
theorem queryCountOf_partsBy
    (combinator : Combinator)
    (tree : RuleTree) :
    queryCountOf (tree.partsBy combinator) +
      (if tree.combinesBy combinator then 1 else 0) = tree.queryCount := by
  rcases partsBy_cases combinator tree with ⟨members, rfl, parts_eq⟩ | ⟨other, parts_eq⟩
  · simp [parts_eq, combinesBy, queryCount]
  · simp [parts_eq, other, queryCountOf]

theorem queryCountOf_flatMap_partsBy_le
    (combinator : Combinator)
    (trees : List RuleTree) :
    queryCountOf (trees.flatMap (partsBy combinator)) ≤ queryCountOf trees := by
  induction trees with
  | nil => exact Nat.le_refl 0
  | cons tree rest inductionHypothesis =>
      have first := queryCountOf_partsBy combinator tree
      rw [List.flatMap_cons, queryCountOf_append, queryCountOf]
      omega

/-- Splicing a query drops it. -/
theorem queryCountOf_flatMap_partsBy_lt
    {combinator : Combinator}
    {trees : List RuleTree}
    {tree : RuleTree}
    (inTrees : tree ∈ trees)
    (combines : tree.combinesBy combinator = true) :
    queryCountOf (trees.flatMap (partsBy combinator)) < queryCountOf trees := by
  obtain ⟨front, back, rfl⟩ := List.append_of_mem inTrees
  have frontLe := queryCountOf_flatMap_partsBy_le combinator front
  have dropped := queryCountOf_partsBy combinator tree
  have backLe := queryCountOf_flatMap_partsBy_le combinator back
  rw [if_pos combines] at dropped
  simp only [List.flatMap_append, List.flatMap_cons, queryCountOf_append, queryCountOf]
  omega

theorem queryCount_optimize_query_le
    (combinator : Combinator)
    (members : List RuleTree) :
    (query combinator members).optimize.queryCount ≤
      queryCountOf (optimizeAll members) + 1 := by
  rw [optimize]
  split
  · rename_i inner nested single
    simp [single, queryCountOf]
  · exact Nat.succ_le_succ (queryCountOf_flatMap_partsBy_le combinator _)

theorem optimizeAll_of_settled
    {trees : List RuleTree}
    (settled : ∀ tree ∈ trees, tree.Settled) :
    optimizeAll trees = trees := by
  rw [optimizeAll_eq_map, List.map_congr_left fun tree inTrees =>
    optimize_of_settled (settled tree inTrees), List.map_id']

/-- Trees of which each is settled or gets fewer queries are all settled, or get fewer
queries together. -/
theorem settled_or_queryCountOf_lt
    {trees : List RuleTree}
    (each : ∀ tree ∈ trees, tree.Settled ∨ tree.optimize.queryCount < tree.queryCount) :
    (∀ tree ∈ trees, tree.Settled) ∨
      queryCountOf (optimizeAll trees) < queryCountOf trees := by
  induction trees with
  | nil => exact .inl nofun
  | cons tree rest inductionHypothesis =>
      rw [List.forall_mem_cons] at each
      rw [List.forall_mem_cons, optimizeAll, queryCountOf, queryCountOf]
      have firstLe : tree.optimize.queryCount ≤ tree.queryCount := by
        rcases each.1 with settled | fewer
        · exact Nat.le_of_eq (congrArg queryCount (optimize_of_settled settled))
        · exact Nat.le_of_lt fewer
      rcases inductionHypothesis each.2 with restSettled | restFewer
      · rcases each.1 with settled | fewer
        · exact .inl ⟨settled, restSettled⟩
        · right
          rw [optimizeAll_of_settled restSettled]
          omega
      · right
        omega

/-- A pass over a tree that is not settled makes its queries fewer. -/
theorem settled_or_queryCount_lt (tree : RuleTree) :
    tree.Settled ∨ tree.optimize.queryCount < tree.queryCount := by
  induction tree using memberInduction with
  | rule inner => exact .inl (.rule inner)
  | query combinator members inductionHypothesis =>
      rcases settled_or_queryCountOf_lt inductionHypothesis with settled | fewer
      · rw [optimize, optimizeAll_of_settled settled]
        split
        · right
          simp [queryCount, queryCountOf]
        · rename_i notSingle
          by_cases different : ∀ member ∈ members, member.combinesBy combinator = false
          · refine .inl (.query different ?_ settled)
            rintro (inner | ⟨inner, nested⟩) rfl
            · rfl
            · exact absurd rfl (notSingle inner nested)
          · simp only [not_forall, Bool.not_eq_false] at different
            obtain ⟨member, inMembers, combines⟩ := different
            right
            exact Nat.succ_lt_succ (queryCountOf_flatMap_partsBy_lt inMembers combines)
      · right
        have bounded := queryCount_optimize_query_le combinator members
        rw [queryCount]
        omega

/-- The optimizer leaves a tree alone exactly when it is settled. -/
theorem optimize_eq_self_iff {tree : RuleTree} :
    tree.optimize = tree ↔ tree.Settled := by
  constructor
  · intro same
    refine (settled_or_queryCount_lt tree).resolve_right ?_
    rw [same]
    exact Nat.lt_irrefl _
  · exact optimize_of_settled

/-- As many passes as a tree has queries are enough to settle it. -/
theorem exists_passes_settled (tree : RuleTree) :
    ∃ passes ≤ tree.queryCount, (optimize^[passes] tree).Settled := by
  induction bound : tree.queryCount using Nat.strongRecOn generalizing tree with
  | ind count inductionHypothesis =>
      rcases settled_or_queryCount_lt tree with settled | fewer
      · exact ⟨0, Nat.zero_le _, settled⟩
      · obtain ⟨passes, few, settled⟩ :=
          inductionHypothesis _ (bound ▸ fewer) tree.optimize rfl
        exact ⟨passes + 1, by omega, settled⟩

/-! ## What one pass leaves -/

/-- Of the optimized members of a query one is a query with the other combinator, and
the others, of which there are some, are empty queries with its own combinator. -/
def LeavesOneQuery
    (combinator : Combinator)
    (members : List RuleTree) : Prop :=
  ∃ front inner nested back,
    optimizeAll members = front ++ query inner nested :: back ∧
    inner ≠ combinator ∧
    front ++ back ≠ [] ∧
    ∀ other ∈ front ++ back, other = query combinator []

/-- Only an empty query with the combinator has no parts. -/
theorem partsBy_eq_nil_iff
    {combinator : Combinator}
    {tree : RuleTree} :
    tree.partsBy combinator = [] ↔ tree = .query combinator [] := by
  rcases partsBy_cases combinator tree with ⟨members, rfl, parts_eq⟩ | ⟨other, parts_eq⟩
  · simp [parts_eq]
  · rw [parts_eq]
    constructor
    · nofun
    · rintro rfl
      simp [combinesBy] at other

/-- Settled trees that have one query for their only part are this query, which has
another combinator, and otherwise empty queries. -/
theorem exists_append_of_parts_eq_singleton
    {combinator inner : Combinator}
    {nested trees : List RuleTree}
    (settled : ∀ tree ∈ trees, tree.Settled)
    (parts_eq : trees.flatMap (partsBy combinator) = [.query inner nested]) :
    ∃ front back, trees = front ++ .query inner nested :: back ∧
      inner ≠ combinator ∧
      ∀ other ∈ front ++ back, other = .query combinator [] := by
  rw [List.flatMap_def, List.flatten_eq_singleton_iff] at parts_eq
  obtain ⟨frontParts, restParts, parts_eq, frontNil, backNil⟩ := parts_eq
  obtain ⟨front, rest, rfl, rfl, rest_eq⟩ := List.map_eq_append_iff.mp parts_eq
  obtain ⟨tree, back, rfl, tree_eq, rfl⟩ := List.map_eq_cons_iff.mp rest_eq
  have treeSettled := settled tree (by simp)
  rcases partsBy_cases combinator tree with ⟨members, rfl, members_eq⟩ | ⟨other, tree_self⟩
  · -- A query with the combinator would have the query for its only member.
    rw [members_eq] at tree_eq
    cases treeSettled with
    | query _ several _ => cases several _ tree_eq
  · obtain rfl := List.singleton_inj.mp (tree_self.symm.trans tree_eq)
    refine ⟨front, back, rfl, by simpa [combinesBy] using other, ?_⟩
    intro tree inOthers
    rw [← partsBy_eq_nil_iff]
    rcases List.mem_append.mp inOthers with inFront | inBack
    · exact frontNil _ (List.mem_map_of_mem inFront)
    · exact backNil _ (List.mem_map_of_mem inBack)

/-- A pass settles a query whose members it settles, unless these leave one query. -/
theorem settled_optimize_query_iff
    {combinator : Combinator}
    {members : List RuleTree}
    (settled : ∀ tree ∈ optimizeAll members, tree.Settled) :
    (query combinator members).optimize.Settled ↔ ¬LeavesOneQuery combinator members := by
  rw [optimize]
  split
  · rename_i inner nested single
    refine iff_of_true (settled _ (by simp [single])) ?_
    rintro ⟨front, _, _, back, members_eq, _, others, _⟩
    rw [single, eq_comm, List.append_eq_singleton_iff] at members_eq
    rcases members_eq with ⟨rfl, tail_eq⟩ | ⟨_, tail_eq⟩
    · exact others (List.cons.inj tail_eq).2
    · exact List.cons_ne_nil _ _ tail_eq
  · rename_i notSingle
    constructor
    · rintro splicedSettled ⟨front, inner, nested, back, members_eq, different, _, empty⟩
      have nothing : ∀ trees ⊆ front ++ back, trees.flatMap (partsBy combinator) = [] :=
        fun trees inOthers => List.flatMap_eq_nil_iff.mpr fun tree inTrees =>
          partsBy_eq_nil_iff.mpr (empty tree (inOthers inTrees))
      have only : (optimizeAll members).flatMap (partsBy combinator) =
          [.query inner nested] := by
        rw [members_eq, List.flatMap_append, List.flatMap_cons, nothing front (by simp),
          nothing back (by simp)]
        simp [partsBy, different]
      cases splicedSettled with
      | query _ several _ => cases several _ only
    · intro leavesSeveral
      refine .query ?_ ?_ ?_
      · intro part inParts
        obtain ⟨tree, inTrees, inParts⟩ := List.mem_flatMap.mp inParts
        exact (of_mem_partsBy (settled_iff.mp (settled tree inTrees)).1 inParts).1
      · rintro (inner | ⟨inner, nested⟩) only
        · rfl
        · obtain ⟨front, back, members_eq, different, empty⟩ :=
            exists_append_of_parts_eq_singleton settled only
          refine absurd ⟨front, inner, nested, back, members_eq, different, ?_, empty⟩
            leavesSeveral
          intro noOthers
          obtain ⟨rfl, rfl⟩ := List.append_eq_nil_iff.mp noOthers
          exact notSingle inner nested members_eq
      · intro part inParts
        obtain ⟨tree, inTrees, inParts⟩ := List.mem_flatMap.mp inParts
        exact (settled tree inTrees).of_mem_partsBy inParts

theorem forall_mem_optimizeAll_iff
    {property : RuleTree → Prop}
    {trees : List RuleTree} :
    (∀ tree ∈ optimizeAll trees, property tree) ↔
      ∀ tree ∈ trees, property tree.optimize := by
  rw [optimizeAll_eq_map, List.forall_mem_map]

/-- A pass settles everything within a tree exactly when the members of no query in it
leave one query. -/
theorem forall_within_settled_optimize_iff (tree : RuleTree) :
    (∀ part : RuleTree, part.Within tree → part.optimize.Settled) ↔
      ∀ combinator members, (query combinator members).Within tree →
        ¬LeavesOneQuery combinator members := by
  constructor
  · intro settled combinator members within
    refine (settled_optimize_query_iff ?_).mp (settled _ within)
    exact forall_mem_optimizeAll_iff.mpr fun member inMembers =>
      settled member ((Within.member inMembers .self).trans within)
  · intro leavesSeveral part within
    induction part using memberInduction with
    | rule inner => exact .rule inner
    | query combinator members inductionHypothesis =>
        refine (settled_optimize_query_iff ?_).mpr (leavesSeveral combinator members within)
        exact forall_mem_optimizeAll_iff.mpr fun member inMembers =>
          inductionHypothesis member inMembers
            ((Within.member inMembers .self).trans within)

theorem Filled.rules_ne_nil
    {tree : RuleTree}
    (filled : tree.Filled) :
    tree.rules ≠ [] := by
  induction filled with
  | rule inner => exact List.cons_ne_nil _ _
  | query nonempty _ inductionHypothesis =>
      obtain ⟨first, rest, rfl⟩ := List.exists_cons_of_ne_nil nonempty
      rw [rules, rulesOf, Ne, List.append_eq_nil_iff, not_and_or]
      exact .inl (inductionHypothesis first List.mem_cons_self)

theorem Filled.of_within
    {part tree : RuleTree}
    (filled : tree.Filled)
    (within : part.Within tree) :
    part.Filled := by
  induction within with
  | self => exact filled
  | member inMembers _ inductionHypothesis =>
      cases filled with
      | query _ filled => exact inductionHypothesis (filled _ inMembers)

/-- Members that are filled do not leave one query, since none of them disappears. -/
theorem Filled.not_leavesOneQuery
    {combinator : Combinator}
    {members : List RuleTree}
    (filled : (RuleTree.query combinator members).Filled) :
    ¬LeavesOneQuery combinator members := by
  rintro ⟨front, inner, nested, back, members_eq, _, others, empty⟩
  obtain ⟨other, inOthers⟩ := List.exists_mem_of_ne_nil _ others
  have inOptimized : other ∈ optimizeAll members := by
    rw [members_eq]
    rcases List.mem_append.mp inOthers with inFront | inBack
    · exact List.mem_append_left _ inFront
    · exact List.mem_append_right _ (List.mem_cons_of_mem _ inBack)
  rw [optimizeAll_eq_map] at inOptimized
  obtain ⟨member, inMembers, rfl⟩ := List.mem_map.mp inOptimized
  have rulesKept := (flattens_optimize member).rules_eq
  rw [empty _ inOthers] at rulesKept
  exact (filled.of_within (.member inMembers .self)).rules_ne_nil rulesKept.symm

/-- A second pass changes nothing exactly when the first one has left no query with a
query for its only member. That a second pass changes nothing holds of everything within
a tree exactly when the members of no query in it leave one query, and in particular when
every query in it has a member. For any tree there is a number of passes, at most its
number of queries, behind which it is flat, has no query with a query for its only member,
and does not change any more. -/
theorem optimize_settles_iff_members_leave_several (tree : RuleTree) :
    (tree.optimize.optimize = tree.optimize ↔ tree.optimize.NoOnlyQueries) ∧
    ((∀ part : RuleTree, part.Within tree →
        part.optimize.optimize = part.optimize ∧ part.optimize.NoOnlyQueries) ↔
      ∀ combinator members, (query combinator members).Within tree →
        ¬LeavesOneQuery combinator members) ∧
    (tree.Filled →
      tree.optimize.optimize = tree.optimize ∧ tree.optimize.NoOnlyQueries) ∧
    ∃ passes ≤ tree.queryCount,
      (optimize^[passes] tree).isFlat = true ∧
      (optimize^[passes] tree).NoOnlyQueries ∧
      (optimize^[passes] tree).optimize = optimize^[passes] tree := by
  have settles : ∀ part : RuleTree, part.optimize.Settled ↔
      part.optimize.optimize = part.optimize ∧ part.optimize.NoOnlyQueries := by
    intro part
    rw [optimize_eq_self_iff]
    exact ⟨fun settled => ⟨settled, (settled_iff.mp settled).2⟩, And.left⟩
  simp only [← settles]
  refine ⟨?_, forall_within_settled_optimize_iff tree, ?_, ?_⟩
  · rw [optimize_eq_self_iff, settled_iff]
    exact and_iff_right (flattens_optimize tree).flat
  · intro filled
    refine (forall_within_settled_optimize_iff tree).mpr ?_ tree .self
    exact fun combinator members within => (filled.of_within within).not_leavesOneQuery
  · obtain ⟨passes, few, settled⟩ := exists_passes_settled tree
    obtain ⟨flat, noOnlyQueries⟩ := settled_iff.mp settled
    exact ⟨passes, few, flat, noOnlyQueries, optimize_eq_self_iff.mpr settled⟩

/-- An empty query beside a disjunction leaves the disjunction for the only member, and
it takes a second pass to drop the query around it. -/
theorem optimize_leaves_only_query :
    let disjunction : RuleTree := query .or
      [.rule ⟨"a", "=", .literal .null⟩, .rule ⟨"b", "=", .literal .null⟩]
    let tree : RuleTree := query .and [query .and [], disjunction]
    tree.optimize = query .and [disjunction] ∧
    tree.optimize.optimize = disjunction ∧
    ¬tree.optimize.NoOnlyQueries ∧
    tree.optimize.optimize ≠ tree.optimize ∧
    LeavesOneQuery .and [query .and [], disjunction] := by
  intro disjunction tree
  have onePass : tree.optimize = query .and [disjunction] := rfl
  have twoPasses : tree.optimize.optimize = disjunction := rfl
  have changes : tree.optimize.optimize ≠ tree.optimize := by
    rw [twoPasses, onePass]
    decide
  refine ⟨onePass, twoPasses, ?_, changes, ?_⟩
  · exact fun noOnlyQueries => changes
      ((optimize_settles_iff_members_leave_several tree).1.mpr noOnlyQueries)
  · exact ⟨[query .and []], .or, _, [], rfl, by decide, by simp, by simp⟩

end RuleTree
end DomainSql
