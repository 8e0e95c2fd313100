import DomainSql.Proofs.RuleTreeOperands

/-!
# Structure and binding

Reading a domain builds a formula and binds its conditions in one pass. The same is
had by two: one that reads the structure and binds nothing, and a run of the action
over the conditions alone, from the last to the first. The one pass fails at the
rightmost item from which on either of the two fails, and leaves the state that the
run has reached there.
-/

namespace DomainSql

variable {Leaf State : Type}

/-! ## Markers and their operands -/

namespace Marker

/-- A marker finds too few operands and says so, or it puts one operand with their
leaves in the place of as many as it needs. -/
theorem apply_cases
    (marker : Marker)
    (position : Nat)
    (operands : List (Formula Leaf)) :
    (operands.length < marker.arity ∧
      marker.apply position operands =
        .error (.missingOperands marker position operands.length)) ∨
    ∃ combined arguments rest,
      operands = arguments ++ rest ∧
      arguments.length = marker.arity ∧
      marker.apply position operands = .ok (combined :: rest) ∧
      combined.leaves = Formula.leavesOf arguments := by
  match marker, operands with
  | .and, left :: right :: rest =>
      exact .inr ⟨_, [left, right], rest, rfl, rfl, rfl, by simp⟩
  | .or, left :: right :: rest =>
      exact .inr ⟨_, [left, right], rest, rfl, rfl, rfl, by simp⟩
  | .not, inner :: rest =>
      exact .inr ⟨_, [inner], rest, rfl, rfl, rfl,
        by simp [Formula.leaves, Formula.leavesOf]⟩
  | .and, [] => exact .inl ⟨by simp [arity], rfl⟩
  | .and, [_] => exact .inl ⟨by simp [arity], rfl⟩
  | .or, [] => exact .inl ⟨by simp [arity], rfl⟩
  | .or, [_] => exact .inl ⟨by simp [arity], rfl⟩
  | .not, [] => exact .inl ⟨by simp [arity], rfl⟩

/-- A marker keeps the leaves of its operands, in their order. -/
theorem leavesOf_of_apply
    {marker : Marker}
    {position : Nat}
    {operands result : List (Formula Leaf)}
    (applied : marker.apply position operands = .ok result) :
    Formula.leavesOf result = Formula.leavesOf operands := by
  rcases marker.apply_cases position operands with
    ⟨_, failed⟩ | ⟨combined, arguments, rest, rfl, _, succeeded, leaves_eq⟩
  · cases failed.symm.trans applied
  · obtain rfl := Except.ok.inj (applied.symm.trans succeeded)
    rw [Formula.leavesOf, Formula.leavesOf_append, leaves_eq]

/-- A marker looks at the structure of its operands only. -/
theorem apply_map
    {Image : Type}
    (image : Leaf → Image)
    (marker : Marker)
    (position : Nat)
    (operands : List (Formula Leaf)) :
    marker.apply position (operands.map (Formula.map image)) =
      (marker.apply position operands).map (List.map (Formula.map image)) := by
  match marker, operands with
  | .and, left :: right :: rest =>
      simp [apply, Except.map, Formula.map_conjunction]
  | .or, left :: right :: rest =>
      simp [apply, Except.map, Formula.map_disjunction]
  | .not, inner :: rest => simp [apply, Except.map, Formula.map]
  | .and, [] => rfl
  | .and, [_] => rfl
  | .or, [] => rfl
  | .or, [_] => rfl
  | .not, [] => rfl

end Marker

namespace Domain

/-! ## The two passes -/

/-- The operands over the conditions that the items from a position on leave. -/
def structures
    (position : Nat)
    (domain : Domain) : Except Error (List (Formula Condition)) :=
  domain.operandsWith pure position

/-- Run an action on the conditions of a domain, from the last to the first. -/
def bindRun
    (act : Condition → ExceptT Error (StateM State) Leaf)
    (domain : Domain) : ExceptT Error (StateM State) (List Leaf) :=
  domain.conditions.reverse.mapM act

/-- Both passes over the items from a position on succeed. The structure has `found`
operands there, and the run has come to the state `after`. -/
structure Processed
    (act : Condition → ExceptT Error (StateM State) Leaf)
    (state : State)
    (position : Nat)
    (domain : Domain)
    (found : Nat)
    (after : State) : Prop where
  structured :
    ∃ operands, domain.structures position = .ok operands ∧
      operands.length = found
  bound : ∃ results, outcome (domain.bindRun act) state = (.ok results, after)

/-- How the item at a position fails, with so many operands behind it and the run of
the action in the state `middle`. -/
inductive FailsAt
    (act : Condition → ExceptT Error (StateM State) Leaf)
    (position found : Nat)
    (middle : State) : Item → Error → State → Prop
  | unknownMarker
      {text : String}
      (unknown : Marker.ofText? text = none) :
      FailsAt act position found middle (.marker text)
        (.expression (.unknownMarker text position)) middle
  | missingOperands
      {marker : Marker}
      (few : found < marker.arity) :
      FailsAt act position found middle (.marker marker.text)
        (.expression (.missingOperands marker position found)) middle
  | condition
      {condition : Condition}
      {error : Error}
      {after : State}
      (failed : outcome (act condition) middle = (.error error, after)) :
      FailsAt act position found middle (.condition condition) error after

variable {act : Condition → ExceptT Error (StateM State) Leaf}

/-- A condition puts itself in front of the operands behind it. -/
theorem structures_condition
    (position : Nat)
    (condition : Condition)
    (rest : Domain) :
    structures position (.condition condition :: rest) = (do
      let operands ← rest.structures (position + 1)
      pure (.leaf condition :: operands)) := by
  simp [structures, operandsWith_cons, stepWith]

/-- A marker is applied to the operands behind it. -/
theorem structures_marker
    (position : Nat)
    (marker : Marker)
    (rest : Domain) :
    structures position (.marker marker.text :: rest) = (do
      let operands ← rest.structures (position + 1)
      (marker.apply position operands).mapError .expression) := by
  rw [structures, operandsWith_cons, ← structures]
  refine bind_congr fun operands => ?_
  simp only [stepWith, Marker.ofText?_text]
  cases marker.apply position operands <;> rfl

@[simp] theorem bindRun_marker
    (text : String)
    (rest : Domain) :
    bindRun act (.marker text :: rest) = rest.bindRun act := rfl

/-- The run comes to a condition when it has bound the conditions behind it. -/
theorem bindRun_condition
    (condition : Condition)
    (rest : Domain) :
    bindRun act (.condition condition :: rest) = (do
      let results ← rest.bindRun act
      let result ← act condition
      pure (results ++ [result])) := by
  simp [bindRun, List.mapM_append]

/-- The items from a position on leave `bound` in both passes: the structure has its
conditions for leaves, and the run gives its results, the last one first. -/
structure Paired
    (act : Condition → ExceptT Error (StateM State) Leaf)
    (state : State)
    (position : Nat)
    (domain : Domain)
    (bound : List (Formula (Condition × Leaf)))
    (after : State) : Prop where
  structured :
    domain.structures position = .ok (bound.map (Formula.map Prod.fst))
  conditions : (Formula.leavesOf bound).map Prod.fst = domain.conditions
  ran : outcome (domain.bindRun act) state =
    (.ok ((Formula.leavesOf bound).map Prod.snd).reverse, after)

/-! ## Success -/

theorem Paired.nil (state : State) (position : Nat) :
    Paired act state position [] [] state :=
  ⟨rfl, rfl, rfl⟩

/-- A condition is a leaf of the structure and the next step of the run. -/
theorem Paired.condition
    {state middle after : State}
    {position : Nat}
    {rest : Domain}
    {bound : List (Formula (Condition × Leaf))}
    (paired : Paired act state (position + 1) rest bound middle)
    {condition : Condition}
    {value : Leaf}
    (conditionBound : outcome (act condition) middle = (.ok value, after)) :
    Paired act state position (.condition condition :: rest)
      (.leaf (condition, value) :: bound) after where
  structured := by
    rw [structures_condition, paired.structured]
    rfl
  conditions := by
    simp [Formula.leavesOf, Formula.leaves, paired.conditions]
  ran := by
    rw [bindRun_condition, outcome_bind, paired.ran]
    simp [outcome_map, conditionBound, Formula.leavesOf, Formula.leaves]

/-- A marker changes the structure, and the run does not see it. -/
theorem Paired.marker
    {state after : State}
    {position : Nat}
    {rest : Domain}
    {bound result : List (Formula (Condition × Leaf))}
    (paired : Paired act state (position + 1) rest bound after)
    {marker : Marker}
    (applied : marker.apply position bound = .ok result) :
    Paired act state position (.marker marker.text :: rest) result after where
  structured := by
    rw [structures_marker, paired.structured, ok_bind, Marker.apply_map, applied]
    rfl
  conditions := by
    rw [Marker.leavesOf_of_apply applied, paired.conditions,
      conditions_cons_marker]
  ran := by
    rw [bindRun_marker, Marker.leavesOf_of_apply applied, paired.ran]

/-- When reading succeeds, its operands are those of the structure with the results of
the run for their leaves. -/
theorem exists_paired_of_operandsWith
    {position : Nat}
    {domain : Domain}
    {operands : List (Formula Leaf)}
    {state after : State}
    (read : outcome (operandsWith act position domain) state =
      (.ok operands, after)) :
    ∃ bound, operands = bound.map (Formula.map Prod.snd) ∧
      Paired act state position domain bound after := by
  induction domain generalizing position operands after with
  | nil =>
      simp only [operandsWith, outcome_pure, Prod.mk.injEq, Except.ok.injEq] at read
      obtain ⟨rfl, rfl⟩ := read
      exact ⟨[], rfl, .nil state position⟩
  | cons item rest inductionHypothesis =>
      cases item with
      | condition condition =>
          obtain ⟨restOperands, middle, value, restRead, conditionBound, rfl⟩ :=
            operandsWith_condition_eq_ok_iff.mp read
          obtain ⟨bound, rfl, paired⟩ := inductionHypothesis restRead
          exact ⟨_, rfl, paired.condition conditionBound⟩
      | marker text =>
          obtain ⟨marker, restOperands, rfl, restRead, applied⟩ :=
            operandsWith_marker_eq_ok_iff.mp read
          obtain ⟨bound, rfl, paired⟩ := inductionHypothesis restRead
          rw [Marker.apply_map] at applied
          cases pairedApplied : marker.apply position bound with
          | error error => simp [pairedApplied, Except.map] at applied
          | ok result =>
              simp only [pairedApplied, Except.map, Except.ok.injEq] at applied
              exact ⟨result, applied.symm, paired.marker pairedApplied⟩

/-- When a domain is read, its formula is its structure with the results of the run for
its leaves. -/
theorem exists_bound_of_formulaWith
    {domain : Domain}
    {formula : Formula Leaf}
    {state after : State}
    (read : outcome (domain.formulaWith act) state = (.ok formula, after)) :
    ∃ bound : Formula (Condition × Leaf),
      domain.parsed = .ok (bound.map Prod.fst) ∧
      formula = bound.map Prod.snd ∧
      bound.leaves.map Prod.fst = domain.conditions ∧
      outcome (domain.bindRun act) state =
        (.ok formula.leaves.reverse, after) := by
  obtain ⟨operands, rfl, operandsRead⟩ := formulaWith_eq_ok_iff.mp read
  obtain ⟨bound, rfl, paired⟩ := exists_paired_of_operandsWith operandsRead
  refine ⟨.conjunction bound, ?_, ?_, ?_, ?_⟩
  · rw [parsed, formulaWith, ← structures, paired.structured,
      Formula.map_conjunction]
    rfl
  · rw [Formula.map_conjunction]
  · rw [Formula.leaves_conjunction, paired.conditions]
  · rw [Formula.leaves_conjunction, Formula.leavesOf_map, paired.ran]

/-! ## Failure -/

theorem Paired.processed
    {state after : State}
    {position : Nat}
    {domain : Domain}
    {bound : List (Formula (Condition × Leaf))}
    (paired : Paired act state position domain bound after) :
    Processed act state position domain bound.length after :=
  ⟨⟨_, paired.structured, List.length_map _⟩, ⟨_, paired.ran⟩⟩

/-- What is processed ends in one way only. -/
theorem Processed.unique
    {state after otherAfter : State}
    {position : Nat}
    {domain : Domain}
    {found otherFound : Nat}
    (processed : Processed act state position domain found after)
    (other : Processed act state position domain otherFound otherAfter) :
    found = otherFound ∧ after = otherAfter := by
  obtain ⟨⟨operands, structured, rfl⟩, results, ran⟩ := processed
  obtain ⟨⟨otherOperands, otherStructured, rfl⟩, otherResults, otherRan⟩ := other
  constructor
  · rw [Except.ok.inj (structured.symm.trans otherStructured)]
  · exact congrArg Prod.snd (ran.symm.trans otherRan)

/-- What stands behind the first of processed items is processed. -/
theorem Processed.tail
    {state after : State}
    {position : Nat}
    {item : Item}
    {rest : Domain}
    {found : Nat}
    (processed : Processed act state position (item :: rest) found after) :
    ∃ restFound middle,
      Processed act state (position + 1) rest restFound middle := by
  obtain ⟨⟨operands, structured, _⟩, results, ran⟩ := processed
  obtain ⟨restOperands, restStructured, _⟩ := bind_eq_ok_iff.mp structured
  cases item with
  | condition condition =>
      rw [bindRun_condition] at ran
      obtain ⟨restResults, middle, restRan, _⟩ := outcome_bind_eq_ok_iff.mp ran
      exact ⟨_, middle, ⟨_, restStructured, rfl⟩, _, restRan⟩
  | marker text => exact ⟨_, after, ⟨_, restStructured, rfl⟩, _, ran⟩

/-- What stands behind some of processed items is processed. -/
theorem Processed.of_append
    {state after : State}
    {position : Nat}
    {front back : Domain}
    {found : Nat}
    (processed : Processed act state position (front ++ back) found after) :
    ∃ backFound middle,
      Processed act state (position + front.length) back backFound middle := by
  induction front generalizing position found after with
  | nil => exact ⟨found, after, processed⟩
  | cons item rest inductionHypothesis =>
      obtain ⟨restFound, middle, restProcessed⟩ := Processed.tail processed
      obtain ⟨backFound, last, backProcessed⟩ := inductionHypothesis restProcessed
      refine ⟨backFound, last, ?_⟩
      rwa [List.length_cons, Nat.add_comm rest.length, ← Nat.add_assoc]

/-- An item that fails keeps what begins with it from being processed. -/
theorem FailsAt.not_processed
    {state middle after last : State}
    {position found wholeFound : Nat}
    {item : Item}
    {rest : Domain}
    {error : Error}
    (processed : Processed act state (position + 1) rest found middle)
    (fails : FailsAt act position found middle item error after) :
    ¬ Processed act state position (item :: rest) wholeFound last := by
  intro whole
  obtain ⟨⟨operands, structured, rfl⟩, results, ran⟩ := processed
  obtain ⟨⟨wholeOperands, wholeStructured, _⟩, wholeResults, wholeRan⟩ := whole
  cases fails with
  | @unknownMarker text unknown =>
      rw [structures, operandsWith_cons, ← structures, structured, ok_bind]
        at wholeStructured
      simp only [stepWith, unknown] at wholeStructured
      cases wholeStructured
  | @missingOperands marker few =>
      rw [structures_marker, structured, ok_bind] at wholeStructured
      rcases marker.apply_cases position operands with
        ⟨_, failed⟩ | ⟨_, arguments, others, rfl, length_eq, _⟩
      · rw [failed] at wholeStructured
        cases wholeStructured
      · rw [List.length_append] at few
        omega
  | @condition condition _ _ failed =>
      rw [bindRun_condition, outcome_bind, ran] at wholeRan
      simp [outcome_map, failed] at wholeRan

/-- The step of an item fails as the item does. -/
theorem stepWith_eq_error_iff
    {middle after : State}
    {position : Nat}
    {item : Item}
    {operands : List (Formula Leaf)}
    {error : Error} :
    outcome (stepWith act position item operands) middle = (.error error, after) ↔
      FailsAt act position operands.length middle item error after := by
  constructor
  · intro failed
    cases item with
    | condition condition =>
        rcases outcome_bind_eq_error_iff.mp failed with
          failed | ⟨value, last, _, succeeded⟩
        · exact .condition failed
        · simp at succeeded
    | marker text =>
        cases known : Marker.ofText? text with
        | none =>
            simp only [stepWith, known, outcome_throw, Prod.mk.injEq,
              Except.error.injEq] at failed
            obtain ⟨rfl, rfl⟩ := failed
            exact .unknownMarker known
        | some marker =>
            obtain rfl := Marker.text_of_ofText? known
            rcases marker.apply_cases position operands with
              ⟨few, apply_eq⟩ | ⟨_, _, _, _, _, apply_eq, _⟩
            · simp only [stepWith, known, apply_eq, outcome_throw, Prod.mk.injEq,
                Except.error.injEq] at failed
              obtain ⟨rfl, rfl⟩ := failed
              exact .missingOperands few
            · simp [stepWith, apply_eq] at failed
  · intro fails
    cases fails with
    | unknownMarker unknown => simp [stepWith, unknown]
    | @missingOperands marker few =>
        rcases marker.apply_cases position operands with
          ⟨_, apply_eq⟩ | ⟨_, _, _, operands_eq, length_eq, _⟩
        · simp [stepWith, apply_eq]
        · rw [operands_eq, List.length_append] at few
          omega
    | condition failed =>
        rw [stepWith, outcome_bind, failed]

/-- Reading fails at an item when the items behind it have been read and it fails, or
it has failed behind it. -/
theorem operandsWith_cons_eq_error_iff
    {state after : State}
    {position : Nat}
    {item : Item}
    {rest : Domain}
    {error : Error} :
    outcome (operandsWith act position (item :: rest)) state =
        (.error error, after) ↔
      outcome (operandsWith act (position + 1) rest) state =
        (.error error, after) ∨
      ∃ operands middle,
        outcome (operandsWith act (position + 1) rest) state =
          (.ok operands, middle) ∧
        FailsAt act position operands.length middle item error after := by
  simp only [operandsWith_cons, outcome_bind_eq_error_iff, stepWith_eq_error_iff]

/-- Reading succeeds exactly on what is processed, and leaves as many operands and the
same state. -/
theorem processed_iff
    {state after : State}
    {position : Nat}
    {domain : Domain}
    {found : Nat} :
    Processed act state position domain found after ↔
      ∃ operands, outcome (operandsWith act position domain) state =
          (.ok operands, after) ∧
        operands.length = found := by
  constructor
  · intro processed
    induction domain generalizing position found after with
    | nil =>
        obtain ⟨⟨operands, structured, rfl⟩, results, ran⟩ := processed
        obtain rfl := Except.ok.inj structured
        obtain rfl := congrArg Prod.snd ran
        exact ⟨[], rfl, rfl⟩
    | cons item rest inductionHypothesis =>
        obtain ⟨restFound, middle, restProcessed⟩ := processed.tail
        obtain ⟨restOperands, restRead, rfl⟩ := inductionHypothesis restProcessed
        rcases read : outcome (operandsWith act position (item :: rest)) state with
          ⟨error | operands, last⟩
        · rcases operandsWith_cons_eq_error_iff.mp read with
            restFailed | ⟨others, otherMiddle, otherRead, fails⟩
          · cases restFailed.symm.trans restRead
          · cases restRead.symm.trans otherRead
            exact absurd processed (fails.not_processed restProcessed)
        · obtain ⟨bound, rfl, paired⟩ := exists_paired_of_operandsWith read
          obtain ⟨rfl, rfl⟩ := processed.unique paired.processed
          exact ⟨_, rfl, List.length_map _⟩
  · rintro ⟨operands, read, rfl⟩
    obtain ⟨bound, rfl, paired⟩ := exists_paired_of_operandsWith read
    rw [List.length_map]
    exact paired.processed

/-- When both passes over a domain succeed, reading it does, and its formula is the
structure with the results of the run for its leaves. -/
theorem formulaWith_of_bindRun
    {state after : State}
    {domain : Domain}
    {whole : Formula Condition}
    {results : List Leaf}
    (parsed : domain.parsed = .ok whole)
    (ran : outcome (domain.bindRun act) state = (.ok results, after)) :
    ∃ bound : Formula (Condition × Leaf),
      bound.map Prod.fst = whole ∧
      bound.leaves.map Prod.snd = results.reverse ∧
      outcome (domain.formulaWith act) state = (.ok (bound.map Prod.snd), after) := by
  obtain ⟨operands, structured, _⟩ := bind_eq_ok_iff.mp parsed
  obtain ⟨_, operandsRead, _⟩ :=
    processed_iff.mp ⟨⟨operands, structured, rfl⟩, results, ran⟩
  have read := formulaWith_eq_ok_iff.mpr ⟨_, rfl, operandsRead⟩
  obtain ⟨bound, boundParsed, formula_eq, _, boundRan⟩ :=
    exists_bound_of_formulaWith read
  rw [formula_eq] at read boundRan
  refine ⟨bound, Except.ok.inj (boundParsed.symm.trans parsed), ?_, read⟩
  have same := Except.ok.inj (congrArg Prod.fst (ran.symm.trans boundRan))
  rw [same, List.reverse_reverse, Formula.leaves_map]

/-- Reading fails exactly when some item fails behind which everything is
processed. -/
theorem operandsWith_eq_error_iff
    {state after : State}
    {position : Nat}
    {domain : Domain}
    {error : Error} :
    outcome (operandsWith act position domain) state = (.error error, after) ↔
      ∃ front item rest found middle,
        domain = front ++ item :: rest ∧
        Processed act state (position + front.length + 1) rest found middle ∧
        FailsAt act (position + front.length) found middle item error after := by
  induction domain generalizing position with
  | nil => simp [operandsWith]
  | cons first others inductionHypothesis =>
      rw [operandsWith_cons_eq_error_iff, inductionHypothesis]
      constructor
      · rintro (⟨front, item, rest, found, middle, rfl, processed, fails⟩ |
          ⟨operands, middle, read, fails⟩)
        · refine ⟨first :: front, item, rest, found, middle, rfl, ?_, ?_⟩
          · rwa [List.length_cons, Nat.add_comm front.length, ← Nat.add_assoc]
          · rwa [List.length_cons, Nat.add_comm front.length, ← Nat.add_assoc]
        · exact ⟨[], first, others, operands.length, middle, rfl,
            processed_iff.mpr ⟨operands, read, rfl⟩, fails⟩
      · rintro ⟨front, item, rest, found, middle, split, processed, fails⟩
        cases front with
        | nil =>
            obtain ⟨rfl, rfl⟩ := List.cons.inj split
            obtain ⟨operands, read, rfl⟩ := processed_iff.mp processed
            exact .inr ⟨operands, middle, read, fails⟩
        | cons head front =>
            obtain ⟨rfl, rfl⟩ := List.cons.inj split
            refine .inl ⟨front, item, rest, found, middle, rfl, ?_, ?_⟩
            · rwa [List.length_cons, Nat.add_comm front.length, ← Nat.add_assoc]
                at processed
            · rwa [List.length_cons, Nat.add_comm front.length, ← Nat.add_assoc]
                at fails

/-- The ends of a domain that are processed are those behind the item that fails. -/
theorem FailsAt.processed_iff_length_le
    {state middle after : State}
    {found : Nat}
    {front : Domain}
    {item : Item}
    {rest : Domain}
    {error : Error}
    (processed : Processed act state (front.length + 1) rest found middle)
    (fails : FailsAt act front.length found middle item error after)
    {earlier later : Domain}
    (split : front ++ item :: rest = earlier ++ later) :
    (∃ laterFound last,
      Processed act state earlier.length later laterFound last) ↔
      later.length ≤ rest.length := by
  have short_or_long : (∃ between, earlier = front ++ item :: between ∧
      rest = between ++ later) ∨
      ∃ between, front = earlier ++ between ∧
        later = between ++ item :: rest := by
    rcases List.append_eq_append_iff.mp split with
      ⟨between, earlier_eq, rest_eq⟩ | ⟨between, front_eq, later_eq⟩
    · cases between with
      | nil => exact .inr ⟨[], by simp [earlier_eq], rest_eq.symm⟩
      | cons head between =>
          obtain ⟨rfl, tail_eq⟩ := List.cons.inj rest_eq
          exact .inl ⟨between, earlier_eq, tail_eq⟩
    · exact .inr ⟨between, front_eq, later_eq⟩
  rcases short_or_long with ⟨between, rfl, rfl⟩ | ⟨between, rfl, rfl⟩
  · have laterProcessed := processed.of_append
    rw [Nat.add_right_comm, Nat.add_assoc] at laterProcessed
    simpa using laterProcessed
  · simp only [List.length_append, List.length_cons]
    constructor
    · rintro ⟨laterFound, last, laterProcessed⟩
      obtain ⟨wholeFound, wholeLast, whole⟩ := laterProcessed.of_append
      rw [← List.length_append] at whole
      exact absurd whole (fails.not_processed processed)
    · intro le
      omega

/-- Reading a domain is the same as reading its structure and running the action over
its conditions from the last to the first. It succeeds when both do, and the formula
is then the structure with the result for each condition in its place. It fails at the
rightmost item from which on the two do not succeed, by that item's own fault, and
leaves the state that the run has reached there. -/
theorem formulaWith_fuses_structure_and_bindRun
    (act : Condition → ExceptT Error (StateM State) Leaf)
    (domain : Domain)
    (state : State) :
    (∀ after,
      (∃ formula, outcome (domain.formulaWith act) state = (.ok formula, after)) ↔
        ∃ found, Processed act state 0 domain found after) ∧
    (∀ formula after,
      outcome (domain.formulaWith act) state = (.ok formula, after) →
      ∃ bound : Formula (Condition × Leaf),
        domain.parsed = .ok (bound.map Prod.fst) ∧
        formula = bound.map Prod.snd ∧
        bound.leaves.map Prod.fst = domain.conditions ∧
        outcome (domain.bindRun act) state =
          (.ok formula.leaves.reverse, after)) ∧
    ∀ error after,
      outcome (domain.formulaWith act) state = (.error error, after) ↔
      ∃ front item rest found middle,
        domain = front ++ item :: rest ∧
        (∀ earlier later, domain = earlier ++ later →
          ((∃ laterFound last,
              Processed act state earlier.length later laterFound last) ↔
            later.length ≤ rest.length)) ∧
        Processed act state (front.length + 1) rest found middle ∧
        FailsAt act front.length found middle item error after := by
  refine ⟨?_, ?_, ?_⟩
  · intro after
    constructor
    · rintro ⟨formula, read⟩
      obtain ⟨operands, _, operandsRead⟩ := formulaWith_eq_ok_iff.mp read
      exact ⟨operands.length, processed_iff.mpr ⟨operands, operandsRead, rfl⟩⟩
    · rintro ⟨found, processed⟩
      obtain ⟨operands, operandsRead, _⟩ := processed_iff.mp processed
      exact ⟨_, formulaWith_eq_ok_iff.mpr ⟨operands, rfl, operandsRead⟩⟩
  · intro formula after read
    exact exists_bound_of_formulaWith read
  · intro error after
    rw [formulaWith_eq_error_iff, operandsWith_eq_error_iff]
    simp only [Nat.zero_add]
    constructor
    · rintro ⟨front, item, rest, found, middle, rfl, processed, fails⟩
      exact ⟨front, item, rest, found, middle, rfl,
        fun _ _ split => fails.processed_iff_length_le processed split,
        processed, fails⟩
    · rintro ⟨front, item, rest, found, middle, domain_eq, _, processed, fails⟩
      exact ⟨front, item, rest, found, middle, domain_eq, processed, fails⟩

end Domain

end DomainSql
