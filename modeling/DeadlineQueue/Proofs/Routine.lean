import DeadlineQueue.Proofs.Tick.Dispatch

namespace DeadlineQueue

variable {μ ρ : Type}

-- What goes on while a queue is only ticked and drained: nothing is admitted, nothing fails, the
-- deadlines stay and the queue is kept.
def Move.routine : Move μ ρ → Bool
  | .advance | .read (.time _) | .finish => true
  | .call .tick | .call .drain | .call (.complete _ _ _) | .call (.dropToken _) => true
  | _ => false

-- A call that needs the queue itself.
def Move.takesQueue : Move μ ρ → Bool
  | .call request => request.token?.isNone
  | _ => false

theorem Move.routine_of_token {call : Call μ ρ} {token : Token} (h : call.token? = some token) :
    (Move.call call).routine = true := by
  cases call with
  | complete | dropToken => rfl
  | _ => exact absurd h.symm (Option.some_ne_none token)

theorem Move.calm_of_routine {move : Move μ ρ} (h : move.routine = true) : move.calm = true := by
  cases move with
  | read reading => cases reading <;> first | rfl | exact h
  | panic => exact h
  | _ => rfl

namespace Queue

theorem Transition.settings_routine {queue next : Queue μ ρ} {move : Move μ ρ} {events : List (Event μ ρ)}
    (h : Transition queue move next events) (hroutine : move.routine = true) :
    next.limits = queue.limits ∧ next.dropped = queue.dropped ∧ next.observed = queue.observed := by
  cases h with
  | setLimits | drop => exact absurd hroutine Bool.false_ne_true
  | _ => simp [append, unwind]

-- No enqueue is running.
def Closed (queue : Queue μ ρ) : Prop :=
  ∀ frame ∈ queue.stack, frame.message? = none

theorem Closed.raise {queue : Queue μ ρ} (h : queue.Closed) (source : Source) (notice : Notice μ ρ) :
    (queue.raise source notice).1.Closed := by
  unfold Closed
  rw [stack_raise]
  split
  · exact h
  · exact List.forall_mem_cons.mpr ⟨rfl, h⟩

theorem Transition.closed {queue next : Queue μ ρ} {move : Move μ ρ} {events : List (Event μ ρ)}
    (h : Transition queue move next events) (hroutine : move.routine = true) (hs : queue.Closed) : next.Closed := by
  cases h with
  | retire hstack | cancel hstack =>
      apply Closed.raise
      simp_all [Closed]
  | complete =>
      apply Closed.raise
      simpa [Closed] using hs
  | startUnread | clockPanic | panic | enqueue => exact absurd hroutine Bool.false_ne_true
  | _ => simp_all [Closed]

theorem Closed.accepted {queue : Queue μ ρ} (h : queue.Closed) (events : List (Event μ ρ)) :
    queue.accepted events = [] := by
  have hhead : queue.stack.head?.bind Frame.message? = none := by
    cases hstack : queue.stack with
    | nil => rfl
    | cons frame rest => exact h frame (by simp [hstack])
  simp [Queue.accepted, hhead]

section routine

variable {queue : Queue μ ρ} {moves : List (Move μ ρ)} (hroutine : ∀ move ∈ moves, move.routine = true)
include hroutine

theorem run_settings_routine :
    (queue.run moves).1.limits = queue.limits ∧ (queue.run moves).1.dropped = queue.dropped ∧
      (queue.run moves).1.observed = queue.observed := by
  induction moves generalizing queue with
  | nil => exact ⟨rfl, rfl, rfl⟩
  | cons move moves ih =>
      obtain ⟨hlimits, hdropped, hobserved⟩ :=
        (transition_step queue move).settings_routine (hroutine move List.mem_cons_self)
      obtain ⟨hlimits', hdropped', hobserved'⟩ := @ih (queue.step move).1
        (fun other hother => hroutine other (List.mem_cons_of_mem _ hother))
      exact ⟨hlimits'.trans hlimits, hdropped'.trans hdropped, hobserved'.trans hobserved⟩

theorem Closed.run (hclosed : queue.Closed) : (queue.run moves).1.Closed ∧ queue.admissions moves = [] := by
  induction moves generalizing queue with
  | nil => exact ⟨hclosed, rfl⟩
  | cons move moves ih =>
      obtain ⟨hlast, hadmissions⟩ := ih (fun other hother => hroutine other (List.mem_cons_of_mem _ hother))
        ((transition_step queue move).closed (hroutine move List.mem_cons_self) hclosed)
      exact ⟨hlast, by rw [admissions, hclosed.accepted, hadmissions]; rfl⟩

-- What is dispatched comes from what waited.
theorem Closed.run_fifo (hclosed : queue.Closed) (hs : queue.Stacked) :
    ((dispatches (queue.run moves).2).map labelOf ++ (queue.run moves).1.unstarted.map Entry.labelled).Sublist
      (queue.unstarted.map Entry.labelled) := by
  induction moves generalizing queue with
  | nil => exact List.Sublist.refl _
  | cons move moves ih =>
      have htransition := transition_step queue move
      have hstep := htransition.fifo hs
      rw [hclosed.accepted, List.append_nil] at hstep
      have hrest := ih (fun other hother => hroutine other (List.mem_cons_of_mem _ hother))
        (htransition.closed (hroutine move List.mem_cons_self) hclosed) (htransition.stacked hs)
      rw [run_cons, dispatches_append, List.map_append, List.append_assoc]
      exact (hrest.append_left _).trans hstep

-- Where nothing waits nothing is dispatched, and nothing comes to wait.
theorem Closed.run_unstarted (hclosed : queue.Closed) (hs : queue.Stacked) (hnone : queue.unstarted = []) :
    dispatches (queue.run moves).2 = [] ∧ (queue.run moves).1.unstarted = [] := by
  have hfifo := hclosed.run_fifo hroutine hs
  rw [hnone, List.map_nil, List.sublist_nil, List.append_eq_nil_iff] at hfifo
  exact ⟨List.map_eq_nil_iff.mp hfifo.1, List.map_eq_nil_iff.mp hfifo.2⟩

-- Nothing is lost, and nothing comes in.
theorem Closed.run_ledger (hclosed : queue.Closed) (hs : queue.Ordered) :
    (queue.run moves).1.ledger + delivered (queue.run moves).2 = queue.ledger := by
  have hledger := Queue.run_ledger queue hs moves
  have hlosses : queue.losses moves = [] := by
    clear hledger hclosed hs
    induction moves generalizing queue with
    | nil => rfl
    | cons move moves ih =>
        have hcalm := Move.calm_of_routine (hroutine move List.mem_cons_self)
        rw [losses, (transition_step queue move).lost_eq_nil hcalm,
          ih fun other hother => hroutine other (List.mem_cons_of_mem _ hother)]
        rfl
  rwa [hlosses, (hclosed.run hroutine).2, List.map_nil, census_nil, add_zero, add_zero] at hledger

end routine

end Queue

end DeadlineQueue
