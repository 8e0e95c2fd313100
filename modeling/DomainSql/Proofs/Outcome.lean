import DomainSql.Error
import Mathlib.Data.List.Forall2

/-!
# Outcomes of operations

An operation that may fail and that keeps a state has an outcome from every
state: a result or an error, and the state it leaves in either case. The equations
here compute outcomes step by step, and every other module reads operations
through them.
-/

namespace DomainSql

variable {State Result Next : Type}

/-- What an operation answers from a state, and the state it leaves. -/
def outcome
    (act : ExceptT Error (StateM State) Result)
    (state : State) : Except Error Result × State :=
  act.run.run state

@[simp] theorem outcome_pure
    (result : Result)
    (state : State) :
    outcome (pure result) state = (.ok result, state) := rfl

@[simp] theorem outcome_throw
    (error : Error)
    (state : State) :
    outcome (throw error : ExceptT Error (StateM State) Result) state =
      (.error error, state) := rfl

@[simp] theorem outcome_get (state : State) :
    outcome (get : ExceptT Error (StateM State) State) state =
      (.ok state, state) := rfl

@[simp] theorem outcome_set (next state : State) :
    outcome (set next : ExceptT Error (StateM State) PUnit) state =
      (.ok ⟨⟩, next) := rfl

@[simp] theorem outcome_modify (change : State → State) (state : State) :
    outcome (modify change : ExceptT Error (StateM State) PUnit) state =
      (.ok ⟨⟩, change state) := rfl

/-- An operation goes on from the state that the one before it has left, and
stops at the first error. -/
theorem outcome_bind
    (act : ExceptT Error (StateM State) Result)
    (next : Result → ExceptT Error (StateM State) Next)
    (state : State) :
    outcome (act >>= next) state =
      match outcome act state with
      | (.ok result, after) => outcome (next result) after
      | (.error error, after) => (.error error, after) := by
  have unfolded :
      outcome (act >>= next) state =
        (fun step : Except Error Result × State =>
          ExceptT.bindCont next step.1 |>.run step.2) (outcome act state) := rfl
  rw [unfolded]
  rcases outcome act state with ⟨result | result, after⟩ <;> rfl

/-- Changing the result of an operation changes nothing else about it. -/
theorem outcome_map
    (change : Result → Next)
    (act : ExceptT Error (StateM State) Result)
    (state : State) :
    outcome (change <$> act) state =
      match outcome act state with
      | (.ok result, after) => (.ok (change result), after)
      | (.error error, after) => (.error error, after) := by
  rw [← bind_pure_comp, outcome_bind]
  rfl

/-- An operation succeeds when its first steps do and the rest does behind them. -/
theorem outcome_bind_eq_ok_iff
    {act : ExceptT Error (StateM State) Result}
    {next : Result → ExceptT Error (StateM State) Next}
    {state after : State}
    {last : Next} :
    outcome (act >>= next) state = (.ok last, after) ↔
      ∃ result middle, outcome act state = (.ok result, middle) ∧
        outcome (next result) middle = (.ok last, after) := by
  rw [outcome_bind]
  rcases outcome act state with ⟨error | result, middle⟩ <;> simp [and_assoc]

/-- An operation fails when its first steps do, or when the rest does behind them. -/
theorem outcome_bind_eq_error_iff
    {act : ExceptT Error (StateM State) Result}
    {next : Result → ExceptT Error (StateM State) Next}
    {state after : State}
    {error : Error} :
    outcome (act >>= next) state = (.error error, after) ↔
      outcome act state = (.error error, after) ∨
      ∃ result middle, outcome act state = (.ok result, middle) ∧
        outcome (next result) middle = (.error error, after) := by
  rw [outcome_bind]
  rcases outcome act state with ⟨other | result, middle⟩ <;> simp [and_assoc]

/-- What the first steps of an operation keep, and the rest behind them, the operation
keeps. -/
theorem outcome_bind_keeps
    {kept : State → Prop}
    {act : ExceptT Error (StateM State) Result}
    {next : Result → ExceptT Error (StateM State) Next}
    {state : State}
    (first : kept (outcome act state).2)
    (rest : ∀ result after, outcome act state = (.ok result, after) →
      kept after → kept (outcome (next result) after).2) :
    kept (outcome (act >>= next) state).2 := by
  rw [outcome_bind]
  rcases ran : outcome act state with ⟨error | result, after⟩ <;>
  rw [ran] at first
  · exact first
  · exact rest result after ran first

/-- Two runs of an operation agree up to what is seen of the result, and leave related
states, if its first steps do and the rest does behind them. -/
theorem outcome_bind_agree
    {Seen NextSeen : Type}
    {Related : State → State → Prop}
    {seen : Result → Seen}
    {nextSeen : Next → NextSeen}
    {act : ExceptT Error (StateM State) Result}
    {next otherNext : Result → ExceptT Error (StateM State) Next}
    {state other : State}
    (first : (outcome act state).1.map seen = (outcome act other).1.map seen ∧
      Related (outcome act state).2 (outcome act other).2)
    (rest : ∀ result otherResult after otherAfter,
      outcome act state = (.ok result, after) →
      outcome act other = (.ok otherResult, otherAfter) →
      seen result = seen otherResult → Related after otherAfter →
      (outcome (next result) after).1.map nextSeen =
          (outcome (otherNext otherResult) otherAfter).1.map nextSeen ∧
        Related (outcome (next result) after).2
          (outcome (otherNext otherResult) otherAfter).2) :
    (outcome (act >>= next) state).1.map nextSeen =
        (outcome (act >>= otherNext) other).1.map nextSeen ∧
      Related (outcome (act >>= next) state).2
        (outcome (act >>= otherNext) other).2 := by
  rw [outcome_bind, outcome_bind]
  rcases ran : outcome act state with ⟨error | result, after⟩ <;>
  rcases otherRan : outcome act other with ⟨otherError | otherResult, otherAfter⟩ <;>
  rw [ran, otherRan] at first
  · exact ⟨congrArg Except.error (Except.error.inj first.1), first.2⟩
  · cases first.1
  · cases first.1
  · exact rest result otherResult after otherAfter ran otherRan
      (Except.ok.inj first.1) first.2

/-- A computation that may fail succeeds when each of its steps does. -/
theorem bind_eq_ok_iff
    {Failure : Type}
    {act : Except Failure Result}
    {next : Result → Except Failure Next}
    {last : Next} :
    (act >>= next) = .ok last ↔
      ∃ result, act = .ok result ∧ next result = .ok last := by
  cases act with
  | error error => simp [bind, Except.bind]
  | ok result => simp [bind, Except.bind]

theorem ok_bind
    {Failure : Type}
    (result : Result)
    (next : Result → Except Failure Next) :
    (.ok result >>= next) = next result := rfl

theorem eq_ok_of_toOption_eq_some
    {Failure : Type}
    {act : Except Failure Result}
    {result : Result}
    (found : act.toOption = some result) :
    act = .ok result := by
  cases act with
  | error error => cases found
  | ok other => exact congrArg Except.ok (Option.some.inj found)

theorem exists_state_of_toOption_eq_some
    {act : ExceptT Error (StateM State) Result}
    {state : State}
    {result : Result}
    (found : (outcome act state).1.toOption = some result) :
    ∃ after, outcome act state = (.ok result, after) := by
  rcases ran : outcome act state with ⟨answer, after⟩
  rw [ran] at found
  exact ⟨after, congrArg (·, after) (eq_ok_of_toOption_eq_some found)⟩

/-- An operation that is seen to succeed has a result, and leaves a state. -/
theorem exists_ok_of_isSome
    {act : ExceptT Error (StateM State) Result}
    {state : State}
    (succeeds : (outcome act state).1.toOption.isSome = true) :
    ∃ result after, outcome act state = (.ok result, after) := by
  obtain ⟨result, found⟩ := Option.isSome_iff_exists.mp succeeds
  exact ⟨result, exists_state_of_toOption_eq_some found⟩

/-! ## One operation after the other -/

/-- Operations one after the other succeed when the first does and the others do behind
it. -/
theorem outcome_mapM_cons_eq_ok_iff
    {Entry : Type}
    {act : Entry → ExceptT Error (StateM State) Result}
    {entry : Entry}
    {rest : List Entry}
    {results : List Result}
    {state after : State} :
    outcome ((entry :: rest).mapM act) state = (.ok results, after) ↔
      ∃ first middle others,
        outcome (act entry) state = (.ok first, middle) ∧
        outcome (rest.mapM act) middle = (.ok others, after) ∧
        results = first :: others := by
  simp only [List.mapM_cons, outcome_bind_eq_ok_iff, outcome_pure, Prod.mk.injEq,
    Except.ok.injEq]
  constructor
  · rintro ⟨first, middle, firstRan, others, _, restRan, rfl, rfl⟩
    exact ⟨first, middle, others, firstRan, restRan, rfl⟩
  · rintro ⟨first, middle, others, firstRan, restRan, rfl⟩
    exact ⟨first, middle, firstRan, others, after, restRan, rfl, rfl⟩

/-- Operations one after the other can be put together. -/
theorem outcome_mapM_append
    {Entry : Type}
    {act : Entry → ExceptT Error (StateM State) Result}
    {front back : List Entry}
    {results others : List Result}
    {state middle after : State}
    (frontRan : outcome (front.mapM act) state = (.ok results, middle))
    (backRan : outcome (back.mapM act) middle = (.ok others, after)) :
    outcome ((front ++ back).mapM act) state = (.ok (results ++ others), after) := by
  rw [List.mapM_append, outcome_bind, frontRan]
  dsimp only
  rw [outcome_bind, backRan]
  rfl

/-- Each result of operations that succeed one after the other has come from its own
operation. -/
theorem forall₂_ran_of_mapM
    {Entry : Type}
    {act : Entry → ExceptT Error (StateM State) Result}
    {entries : List Entry}
    {results : List Result}
    {state last : State}
    (ran : outcome (entries.mapM act) state = (.ok results, last)) :
    List.Forall₂ (fun entry result => ∃ before after,
      outcome (act entry) before = (.ok result, after)) entries results := by
  induction entries generalizing state results with
  | nil =>
      cases ran
      exact .nil
  | cons entry rest inductionHypothesis =>
      obtain ⟨first, middle, others, firstRan, restRan, rfl⟩ :=
        outcome_mapM_cons_eq_ok_iff.mp ran
      exact .cons ⟨state, middle, firstRan⟩ (inductionHypothesis restRan)

/-- A list of computations gives the results that the computations give one by one. -/
theorem mapM_eq_ok_iff
    {Failure Entry : Type}
    {act : Entry → Except Failure Result}
    {entries : List Entry}
    {results : List Result} :
    entries.mapM act = .ok results ↔
      List.Forall₂ (fun entry result => act entry = .ok result) entries results := by
  induction entries generalizing results with
  | nil =>
      constructor
      · intro done
        cases done
        exact .nil
      · intro none
        cases none
        rfl
  | cons entry rest inductionHypothesis =>
      rw [List.mapM_cons]
      constructor
      · intro done
        obtain ⟨first, firstDone, done⟩ := bind_eq_ok_iff.mp done
        obtain ⟨others, restDone, done⟩ := bind_eq_ok_iff.mp done
        cases done
        exact .cons firstDone (inductionHypothesis.mp restDone)
      · rintro (_ | ⟨firstDone, restDone⟩)
        rw [firstDone, inductionHypothesis.mpr restDone]
        rfl

/-- Every entry of the one list is related to an entry of the other. -/
theorem exists_related_of_mem
    {Left Right : Type}
    {related : Left → Right → Prop}
    {lefts : List Left}
    {rights : List Right}
    (all : List.Forall₂ related lefts rights)
    {left : Left}
    (inLefts : left ∈ lefts) :
    ∃ right ∈ rights, related left right := by
  induction all with
  | nil => cases inLefts
  | cons first _ inductionHypothesis =>
      rcases List.mem_cons.mp inLefts with rfl | inRest
      · exact ⟨_, List.mem_cons_self, first⟩
      · obtain ⟨right, inRights, holds⟩ := inductionHypothesis inRest
        exact ⟨right, List.mem_cons_of_mem _ inRights, holds⟩

/-! ## Success -/

/-- A computation that gives a result. -/
def Succeeds
    {Failure Result : Type}
    (act : Except Failure Result) : Prop :=
  ∃ result, act = .ok result

section Success

variable {Failure Entry : Type}

@[simp] theorem succeeds_ok (result : Result) :
    Succeeds (.ok result : Except Failure Result) :=
  ⟨result, rfl⟩

@[simp] theorem not_succeeds_error (failure : Failure) :
    ¬ Succeeds (.error failure : Except Failure Result) := by
  rintro ⟨_, same⟩
  cases same

theorem succeeds_bind_pure_iff
    {act : Except Failure Result}
    {next : Result → Next} :
    Succeeds (act >>= fun result => pure (next result)) ↔ Succeeds act := by
  cases act with
  | error failure =>
      exact iff_of_false (not_succeeds_error failure) (not_succeeds_error failure)
  | ok result => exact iff_of_true (succeeds_ok _) (succeeds_ok _)

/-- Computations succeed one after the other when each of them does. -/
theorem succeeds_mapM_iff
    {act : Entry → Except Failure Result}
    {entries : List Entry} :
    Succeeds (entries.mapM act) ↔ ∀ entry ∈ entries, Succeeds (act entry) := by
  constructor
  · rintro ⟨results, done⟩ entry inEntries
    obtain ⟨result, _, entryDone⟩ := exists_related_of_mem (mapM_eq_ok_iff.mp done) inEntries
    exact ⟨result, entryDone⟩
  · intro each
    induction entries with
    | nil => exact ⟨[], rfl⟩
    | cons entry rest inductionHypothesis =>
        obtain ⟨first, firstDone⟩ := each entry List.mem_cons_self
        obtain ⟨others, restDone⟩ := inductionHypothesis
          fun other inRest => each other (List.mem_cons_of_mem _ inRest)
        refine ⟨first :: others, ?_⟩
        rw [List.mapM_cons, firstDone, restDone]
        rfl

end Success

end DomainSql
