import DomainSql.Proofs.Outcome

/-!
# Noted calls

An operation can note that it has been called, behind what has been noted before and
whatever it answers. Noting changes neither answers nor states, so that the notes of a
composed operation say which operations it has called, in which order, and up to which
one that has failed.
-/

namespace DomainSql

variable {State Failure Entry Result Next Image : Type}

/-- An operation that notes an entry, also if it fails. -/
def noting
    (entry : Entry)
    (act : ExceptT Failure (StateM State) Result) :
    ExceptT Failure (StateM (State × List Entry)) Result :=
  fun noted =>
    ((act.run.run noted.1).1, ((act.run.run noted.1).2, noted.2 ++ [entry]))

/-- An action that notes what it is called on. -/
def notingCalls
    (act : Entry → ExceptT Failure (StateM State) Image)
    (entry : Entry) : ExceptT Failure (StateM (State × List Entry)) Image :=
  noting entry (act entry)

/-! ## Steps -/

section Steps

variable {act : ExceptT Failure (StateM State) Result} {state after : State}

/-- Behind steps that succeed an operation goes on from what they leave. -/
theorem run_bind_of_ok
    {result : Result}
    (ran : act.run.run state = (.ok result, after))
    (next : Result → ExceptT Failure (StateM State) Next) :
    (act >>= next).run.run state = (next result).run.run after := by
  rw [ExceptT.run_bind, StateT.run_bind, ran]
  rfl

/-- Steps that fail end an operation. -/
theorem run_bind_of_error
    {failure : Failure}
    (ran : act.run.run state = (.error failure, after))
    (next : Result → ExceptT Failure (StateM State) Next) :
    (act >>= next).run.run state = (.error failure, after) := by
  rw [ExceptT.run_bind, StateT.run_bind, ran]
  rfl

/-- Changing the result of an operation changes nothing else about it. -/
theorem run_map
    (change : Result → Next)
    (act : ExceptT Failure (StateM State) Result)
    (state : State) :
    (change <$> act).run.run state =
      ((act.run.run state).1.map change, (act.run.run state).2) := by
  rw [ExceptT.run_map, StateT.run_map]
  rfl

end Steps

/-! ## Notes change nothing else -/

/-- An operation answers and leaves what another one does, and notes something
besides. -/
def Notes
    (noted : ExceptT Failure (StateM (State × List Entry)) Result)
    (act : ExceptT Failure (StateM State) Result) : Prop :=
  ∀ state entries,
    act.run.run state =
      ((noted.run.run (state, entries)).1, (noted.run.run (state, entries)).2.1)

namespace Notes

theorem noting
    (entry : Entry)
    (act : ExceptT Failure (StateM State) Result) :
    Notes (noting entry act) act :=
  fun _ _ => rfl

theorem pure (result : Result) :
    Notes (Pure.pure result : ExceptT Failure (StateM (State × List Entry)) Result)
      (Pure.pure result) :=
  fun _ _ => rfl

theorem throw (failure : Failure) :
    Notes
      (MonadExcept.throw failure :
        ExceptT Failure (StateM (State × List Entry)) Result)
      (MonadExcept.throw failure) :=
  fun _ _ => rfl

theorem bind
    {noted : ExceptT Failure (StateM (State × List Entry)) Result}
    {act : ExceptT Failure (StateM State) Result}
    {notedNext : Result → ExceptT Failure (StateM (State × List Entry)) Next}
    {next : Result → ExceptT Failure (StateM State) Next}
    (first : Notes noted act)
    (rest : ∀ result, Notes (notedNext result) (next result)) :
    Notes (noted >>= notedNext) (act >>= next) := by
  intro state entries
  have plainRan := first state entries
  rcases ran : noted.run.run (state, entries) with ⟨failure | result, after, more⟩ <;>
    rw [ran] at plainRan
  · rw [run_bind_of_error ran, run_bind_of_error plainRan]
  · rw [run_bind_of_ok ran, run_bind_of_ok plainRan]
    exact rest result after more

end Notes

/-! ## Calls one after the other -/

/-- Behind a call that has succeeded the others go on. -/
theorem run_mapM_cons_of_ok
    {act : Entry → ExceptT Failure (StateM State) Image}
    {entry : Entry}
    {image : Image}
    {state middle : State}
    (called : (act entry).run.run state = (.ok image, middle))
    (rest : List Entry) :
    ((entry :: rest).mapM act).run.run state =
      (((rest.mapM act).run.run middle).1.map (image :: ·),
        ((rest.mapM act).run.run middle).2) := by
  rw [List.mapM_cons, run_bind_of_ok called]
  rcases ran : (rest.mapM act).run.run middle with ⟨failure | images, after⟩
  · exact run_bind_of_error ran _
  · exact run_bind_of_ok ran _

/-- Calls on entries one after the other either all succeed and are all noted, or the
first one that fails is the last one noted. -/
theorem run_mapM_notingCalls
    (act : Entry → ExceptT Failure (StateM State) Image)
    (entries : List Entry)
    (state : State)
    (noted : List Entry) :
    (∃ images after,
      (entries.mapM act).run.run state = (.ok images, after) ∧
      (entries.mapM (notingCalls act)).run.run (state, noted) =
        (.ok images, after, noted ++ entries)) ∨
    ∃ front entry rest images before failure after,
      entries = front ++ entry :: rest ∧
      (front.mapM act).run.run state = (.ok images, before) ∧
      (act entry).run.run before = (.error failure, after) ∧
      (entries.mapM (notingCalls act)).run.run (state, noted) =
        (.error failure, after, noted ++ front ++ [entry]) := by
  induction entries generalizing state noted with
  | nil => exact .inl ⟨[], state, rfl, by rw [List.append_nil]; rfl⟩
  | cons entry rest inductionHypothesis =>
      have notedCall : (notingCalls act entry).run.run (state, noted) =
          (((act entry).run.run state).1, ((act entry).run.run state).2,
            noted ++ [entry]) := rfl
      rcases called : (act entry).run.run state with ⟨failure | image, middle⟩ <;>
        rw [called] at notedCall
      · refine .inr ⟨[], entry, rest, [], state, failure, middle, rfl, rfl, called, ?_⟩
        rw [List.mapM_cons, run_bind_of_error notedCall, List.append_nil]
      · rw [run_mapM_cons_of_ok called, run_mapM_cons_of_ok notedCall]
        rcases inductionHypothesis middle (noted ++ [entry]) with
          ⟨images, after, ran, notedRan⟩ |
          ⟨front, last, behind, images, before, failure, after, rfl, ran, failed,
            notedRan⟩
        · refine .inl ⟨image :: images, after, ?_, ?_⟩
          · rw [ran]
            rfl
          · rw [notedRan, List.append_assoc, List.singleton_append]
            rfl
        · refine .inr ⟨entry :: front, last, behind, image :: images, before, failure,
            after, rfl, ?_, failed, ?_⟩
          · rw [run_mapM_cons_of_ok called, ran]
            rfl
          · rw [notedRan, List.append_assoc noted, List.singleton_append]
            rfl

end DomainSql
