import DomainSql.Proofs.RuleTreeOperands
import DomainSql.RuleTree.Json

/-!
# The markers in the domain of a rule tree

In front of the members of a query with "or" stands one marker less than there are
members, whatever the members are written as. The markers take their operands from all
that stands behind them, and an empty query gives none. So the domain of a tree can be
read exactly when the members of each such query, with what is behind the query, give
enough operands for its markers. They do if every query has a member.
-/

namespace DomainSql

/-- The number of operands that markers leave of others, if each marker finds two. -/
def leftByMarkers (markers operands : Nat) : Option Nat :=
  if markers = 0 ∨ markers < operands then some (operands - markers) else none

@[simp] theorem leftByMarkers_zero (operands : Nat) :
    leftByMarkers 0 operands = some operands := by
  simp [leftByMarkers]

theorem bind_leftByMarkers_one (markers operands : Nat) :
    (leftByMarkers markers operands).bind (leftByMarkers 1) =
      leftByMarkers (markers + 1) operands := by
  by_cases enough : markers = 0 ∨ markers < operands
  · rw [leftByMarkers, if_pos enough, Option.bind_some, leftByMarkers, leftByMarkers,
      Nat.sub_sub]
    congr 1
    simp only [eq_iff_iff]
    omega
  · rw [leftByMarkers, if_neg enough, leftByMarkers, if_neg (by omega)]
    rfl

namespace RuleTree

/-! ## Operands of a tree -/

mutual

/-- The number of operands from the start of the domain of a tree on, if so many stand
behind its end and each of its markers finds two. -/
def operandCount : RuleTree → Nat → Option Nat
  | .rule _, behind => some (behind + 1)
  | .query .and members, behind => operandCountOf members behind
  | .query .or members, behind =>
      (operandCountOf members behind).bind (leftByMarkers (members.length - 1))

/-- The number of operands from the start of the domains of trees on, if so many stand
behind their end and each of their markers finds two. -/
def operandCountOf : List RuleTree → Nat → Option Nat
  | [], behind => some behind
  | member :: rest, behind => (operandCountOf rest behind).bind member.operandCount

end

/-! ## Operands that are read -/

/-- The number of trees that the items from a position on leave, if they can be read. -/
def treeCount (position : Nat) (domain : Domain) : Option Nat :=
  (treesOf position domain).toOption.map List.length

theorem treeCount_condition
    (position : Nat)
    (condition : Condition)
    (rest : Domain) :
    treeCount position (.condition condition :: rest) =
      (treeCount (position + 1) rest).map (· + 1) := by
  rw [treeCount, treesOf, treeCount]
  cases treesOf (position + 1) rest <;> rfl

theorem treeCount_marker
    (position : Nat)
    (rest : Domain) :
    treeCount position (.marker Marker.or.text :: rest) =
      (treeCount (position + 1) rest).bind (leftByMarkers 1) := by
  rw [treeCount, treesOf, treeCount]
  cases treesOf (position + 1) rest with
  | error error => rfl
  | ok trees =>
      have combinator_eq : combinatorOfMarker Marker.or.text position = pure .or :=
        combinatorOfMarker_text .or position
      simp only [ok_bind, combinator_eq]
      rcases trees with _ | ⟨left, _ | ⟨right, others⟩⟩
      · rfl
      · rfl
      · have oneLess : leftByMarkers 1 (others.length + 2) = some (others.length + 1) := by
          simp [leftByMarkers]
        exact oneLess.symm

/-- Markers in front of a domain take their operands from it. -/
theorem treeCount_replicate_append
    (markers position : Nat)
    (rest : Domain) :
    treeCount position (List.replicate markers (.marker Marker.or.text) ++ rest) =
      (treeCount (position + markers) rest).bind (leftByMarkers markers) := by
  induction markers generalizing position with
  | zero =>
      have keeps : leftByMarkers 0 = some := funext leftByMarkers_zero
      rw [keeps, Option.bind_fun_some]
      rfl
  | succ markers inductionHypothesis =>
      rw [List.replicate_succ, List.cons_append, treeCount_marker, inductionHypothesis,
        Option.bind_assoc, Nat.add_assoc, Nat.add_comm 1]
      simp only [bind_leftByMarkers_one]

/-- The domain of a tree in front of another one leaves as many trees as the tree has
operands with those of the other behind it. -/
theorem treeCount_toDomain_append
    (tree : RuleTree)
    (position : Nat)
    (rest : Domain) :
    treeCount position (tree.toDomain ++ rest) =
      (treeCount (position + tree.toDomain.length) rest).bind tree.operandCount := by
  induction tree using memberInduction generalizing position rest with
  | rule inner =>
      rw [toDomain, List.singleton_append, treeCount_condition, Option.map_eq_bind]
      rfl
  | query combinator members inductionHypothesis =>
      have ofMembers : ∀ position,
          treeCount position (toDomainOf members ++ rest) =
            (treeCount (position + (toDomainOf members).length) rest).bind
              (operandCountOf members) := by
        induction members with
        | nil => exact fun position => (Option.bind_fun_some _).symm
        | cons member others membersHypothesis =>
            intro position
            rw [List.forall_mem_cons] at inductionHypothesis
            rw [toDomainOf, List.append_assoc, inductionHypothesis.1,
              membersHypothesis inductionHypothesis.2, Option.bind_assoc,
              List.length_append, Nat.add_assoc]
            rfl
      cases combinator with
      | and =>
          rw [toDomain, ofMembers]
          rfl
      | or =>
          rw [toDomain, List.append_assoc, treeCount_replicate_append, ofMembers,
            Option.bind_assoc, List.length_append, List.length_replicate, Nat.add_assoc]
          rfl

/-! ## The error -/

theorem toDomainOf_eq_flatMap (trees : List RuleTree) :
    toDomainOf trees = trees.flatMap toDomain := by
  induction trees with
  | nil => rfl
  | cons tree rest inductionHypothesis =>
      rw [toDomainOf, inductionHypothesis, List.flatMap_cons]

/-- The domain of a tree has no other markers than those of "or". -/
theorem eq_or_of_marker_mem_toDomain
    {tree : RuleTree}
    {text : String}
    (inDomain : .marker text ∈ tree.toDomain) :
    text = Marker.or.text := by
  induction tree using memberInduction with
  | rule inner => simp [toDomain] at inDomain
  | query combinator members inductionHypothesis =>
      have inMembers : .marker text ∈ toDomainOf members → text = Marker.or.text := by
        rw [toDomainOf_eq_flatMap, List.mem_flatMap]
        rintro ⟨member, inMembers, inMember⟩
        exact inductionHypothesis member inMembers inMember
      cases combinator with
      | and => exact inMembers inDomain
      | or =>
          rw [toDomain, List.mem_append] at inDomain
          rcases inDomain with inMarkers | inRest
          · exact Item.marker.inj (List.eq_of_mem_replicate inMarkers)
          · exact inMembers inRest

/-- A domain with no other markers than those of "or" is refused for one that lacks an
operand. -/
theorem exists_missingRules_of_treesOf
    {domain : Domain}
    (marked : ∀ text, .marker text ∈ domain → text = Marker.or.text)
    {position : Nat}
    {error : ExpressionError}
    (failed : treesOf position domain = .error error) :
    ∃ place, error = .missingRules .or place := by
  induction domain generalizing position error with
  | nil => cases failed
  | cons item rest inductionHypothesis =>
      rw [treesOf] at failed
      cases restRead : treesOf (position + 1) rest with
      | error restError =>
          rw [restRead] at failed
          obtain rfl := Except.error.inj failed
          exact inductionHypothesis
            (fun text inRest => marked text (List.mem_cons_of_mem _ inRest)) restRead
      | ok trees =>
          rw [restRead, ok_bind] at failed
          cases item with
          | condition condition => cases failed
          | marker text =>
              obtain rfl := marked text List.mem_cons_self
              have combinator_eq : combinatorOfMarker Marker.or.text position = pure .or :=
                combinatorOfMarker_text .or position
              simp only [combinator_eq] at failed
              rcases trees with _ | ⟨left, _ | ⟨right, others⟩⟩
              · exact ⟨position, (Except.error.inj failed).symm⟩
              · exact ⟨position, (Except.error.inj failed).symm⟩
              · cases failed

/-- The domain of a tree has a rule tree again exactly when each of its markers finds two
operands, and otherwise it is refused for a marker that does not. It has one if every
query of the tree has a member. -/
theorem toDomain_has_tree_iff_markers_find_operands (tree : RuleTree) :
    ((∃ again, ofDomain tree.toDomain = .ok again) ↔
      (tree.operandCount 0).isSome = true) ∧
    (tree.operandCount 0 = none ↔
      ∃ position, ofDomain tree.toDomain = .error (.missingRules .or position)) ∧
    (tree.Filled → ∃ again, ofDomain tree.toDomain = .ok again) := by
  have count : tree.operandCount 0 =
      (treesOf 0 tree.toDomain).toOption.map List.length := by
    have counted := treeCount_toDomain_append tree 0 []
    rw [List.append_nil] at counted
    exact counted.symm
  refine ⟨?_, ?_, ?_⟩
  · rw [count, ofDomain]
    cases treesOf 0 tree.toDomain with
    | error error => exact iff_of_false (not_succeeds_error error) Bool.false_ne_true
    | ok trees => exact iff_of_true ⟨_, rfl⟩ rfl
  · rw [count, ofDomain]
    cases failed : treesOf 0 tree.toDomain with
    | error error =>
        obtain ⟨position, rfl⟩ := exists_missingRules_of_treesOf
          (fun text => eq_or_of_marker_mem_toDomain) failed
        exact iff_of_true rfl ⟨position, rfl⟩
    | ok trees =>
        refine iff_of_false (Option.some_ne_none _) ?_
        rintro ⟨position, refused⟩
        cases refused
  · intro filled
    rw [filled.toDomain_eq_write]
    exact ⟨_, ofDomain_write (negationFree_of_mem_operands tree)⟩

/-- An empty disjunction beside a rule is a member without operands, and the marker that
is written for it finds only the operand of the rule. -/
theorem marker_of_empty_member_lacks_operand :
    let text : String :=
      "\x7b\"combinator\":\"or\",\"rules\":[\x7b\"combinator\":\"or\",\"rules\":[]\x7d,"
        ++ "\x7b\"field\":\"a\",\"operator\":\"=\",\"value\":null\x7d]\x7d"
    ∃ tree, read text = .ok tree ∧
      tree.toDomain =
        [.marker "|", .condition ⟨"a", "=", .literal .null⟩] ∧
      ofDomain tree.toDomain = .error (.missingRules .or 0) ∧
      ¬∃ again, ofDomain tree.toDomain = .ok again := by
  intro text
  let tree : RuleTree :=
    .query .or [.query .or [], .rule ⟨"a", "=", .literal .null⟩]
  have computed : (read text).toOption = some tree := by decide +kernel
  have lacking : tree.operandCount 0 = none := rfl
  refine ⟨tree, eq_ok_of_toOption_eq_some computed, by decide +kernel, rfl, ?_⟩
  rw [(toDomain_has_tree_iff_markers_find_operands tree).1, lacking]
  exact nofun

end RuleTree
end DomainSql
