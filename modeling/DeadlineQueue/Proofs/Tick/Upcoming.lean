import DeadlineQueue.Proofs.Routine

namespace DeadlineQueue

variable {μ ρ : Type}

namespace Frame

-- The looks that a tick is still to take, if the clock tells `now` when it is asked.
@[simp] def looming (now : Instant) : Frame μ ρ → List (Instant × LaneName × Scan)
  | sweeping scans => scans.map fun look => (now, look)
  | scanning time scans => scans.map fun look => (time, look)
  | _ => []

end Frame

-- Whether an entry that waits stays where it is when these looks are taken.
def Entry.spared (entry : Entry μ) (looks : List (Instant × LaneName × Scan)) : Bool :=
  looks.all fun look => look.2.1 ≠ .pending || !look.2.2.overdue look.1 entry

-- A move in the course of a tick at a fixed time.
def Move.routineAt (now : Instant) (move : Move μ ρ) : Prop :=
  move.routine = true ∧ ∀ time, move = .read (.time time) → time = now

theorem looming_of_not_holdsQueue (now : Instant) (stack : List (Frame μ ρ)) (h : stack.any Frame.holdsQueue = false) :
    stack.flatMap (Frame.looming now) = [] :=
  flatMap_of_not_holdsQueue stack (Frame.looming now)
    (fun frame hframe => by cases frame <;> simp_all [Frame.holdsQueue]) h

namespace Queue

def looming (queue : Queue μ ρ) (now : Instant) : List (Instant × LaneName × Scan) :=
  queue.stack.flatMap (Frame.looming now)

-- What the tick will dispatch, in that order.
def upcoming (queue : Queue μ ρ) (now : Instant) : List (Entry μ) :=
  queue.unstarted.filter fun entry => entry.spared (queue.looming now)

theorem looming_raise (queue : Queue μ ρ) (source : Source) (notice : Notice μ ρ) (now : Instant) :
    (queue.raise source notice).1.looming now = queue.looming now :=
  flatMap_stack_raise queue source notice (Frame.looming now) rfl

theorem upcoming_congr {queue next : Queue μ ρ} {now : Instant} (hunstarted : next.unstarted = queue.unstarted)
    (hlooming : next.looming now = queue.looming now) : next.upcoming now = queue.upcoming now := by
  rw [upcoming, upcoming, hunstarted, hlooming]

-- What is dispatched is the next of what was to come.
theorem Transition.upcoming {queue next : Queue μ ρ} {move : Move μ ρ} {events : List (Event μ ρ)}
    (h : Transition queue move next events) (hordered : queue.Ordered) (hstacked : queue.Stacked)
    (hbusy : queue.busy = true) (hframes : queue.stack.any Frame.besidesTick = false) {now : Instant}
    (hmove : move.routineAt now) :
    (dispatches events).map labelOf ++ (next.upcoming now).map Entry.labelled =
      (queue.upcoming now).map Entry.labelled := by
  -- A step that dispatches nothing and leaves what is to come as it is.
  have hsame (hdispatched : dispatches events = []) (hunstarted : next.unstarted = queue.unstarted)
      (hlooming : next.looming now = queue.looming now) :
      (dispatches events).map labelOf ++ (next.upcoming now).map Entry.labelled =
        (queue.upcoming now).map Entry.labelled := by
    rw [hdispatched, upcoming_congr hunstarted hlooming]
    rfl
  cases h with
  | @scan time name scan scans rest hstack =>
      have hrest := (hstacked.fits hstack).1
      have hdispatched : dispatches (((queue.lane name).takeOverdue scan time).1.map
          (fun entry => (.log (.timedOut entry.id name) : Event μ ρ))) = [] := by
        simp [dispatches]
      rw [hdispatched, List.map_nil, List.nil_append]
      congr 1
      cases name with
      | pending =>
          have hentries := hordered.pending.entries_takeOverdue scan time (hstacked.fair_scan hstack).origin_of_hasty
          simp [Queue.upcoming, looming, hstack, looming_of_not_holdsQueue now rest hrest, unstarted,
            unstarted_of_not_holdsQueue rest hrest, hentries, Entry.spared, Bool.and_comm]
      | inProgress =>
          simp [Queue.upcoming, looming, hstack, unstarted, Entry.spared]
  | retire hstack =>
      refine hsame rfl ?_ ?_
      · rw [unstarted_raise]
        simp [unstarted, hstack]
      · rw [looming_raise]
        simp [looming, hstack]
  | @pop bound entry rest hstack hpop =>
      refine hsame rfl ?_ (by simp [looming, hstack])
      have hentries := queue.pending.entries_eq_cons_of_popFront bound entry hpop
      simp [unstarted, hstack, unstarted_of_not_holdsQueue rest (hstacked.fits hstack).1, hentries]
  | complete =>
      refine hsame rfl ?_ ?_
      · rw [unstarted_raise]
        simp [unstarted]
      · rw [looming_raise]
        simp [looming]
  | sweep time hstack =>
      obtain rfl := hmove.2 time rfl
      exact hsame rfl (by simp [unstarted, hstack]) (by simp [looming, hstack])
  | @start bound entry rest time hstack =>
      have hrest := (hstacked.fits hstack).1
      simp [Queue.upcoming, looming, hstack, looming_of_not_holdsQueue now rest hrest, unstarted, append,
        unstarted_of_not_holdsQueue rest hrest, Entry.spared, dispatches, List.filterMap_cons, labelOf, Entry.labelled]
  | dropToken => exact hsame (by simp [dispatches]) rfl rfl
  | @finish frame rest hstack huser =>
      refine hsame rfl ?_ ?_
      · cases frame <;> simp_all [unstarted, Frame.isUser]
      · cases frame <;> simp_all [looming, Frame.isUser]
  | cancel hstack => simp [hstack, Frame.besidesTick] at hframes
  | _ =>
      first
        | exact absurd hmove.1 Bool.false_ne_true
        | exact hsame rfl rfl rfl
        | exact hsame rfl (by simp_all [unstarted]) (by simp_all [looming])
        | simp_all [Frame.besidesTick]

-- What a tick will dispatch when it is called.
theorem spared_scans (limits : Limits) (now : Instant) (entry : Entry μ) :
    entry.spared (limits.scans.map fun look => (now, look)) =
      !limits.waitDeadline.any fun deadline => deadline ≤ elapsed entry.enqueuedAt now := by
  unfold Entry.spared Limits.scans
  cases limits.waitDeadline <;> cases limits.processingDeadline <;> simp [Scan.overdue, Entry.since]

theorem run_upcoming {queue : Queue μ ρ} (hordered : queue.Ordered) (hstacked : queue.Stacked)
    (hframes : queue.stack.any Frame.besidesTick = false) {now : Instant} {moves : List (Move μ ρ)}
    (hoccupied : queue.occupied moves = true) (hmoves : ∀ move ∈ moves, move.routineAt now) :
    (dispatches (queue.run moves).2).map labelOf ++ ((queue.run moves).1.upcoming now).map Entry.labelled =
      (queue.upcoming now).map Entry.labelled := by
  induction moves generalizing queue with
  | nil => rfl
  | cons move moves ih =>
      obtain ⟨hbusy, hoccupied⟩ := Bool.and_eq_true_iff.mp hoccupied
      have hstep := transition_step queue move
      have hlaw := hstep.upcoming hordered hstacked hbusy hframes (hmoves move List.mem_cons_self)
      have hrest := ih (ordered_step hordered move) (hstep.stacked hstacked) (hstep.besidesTick hbusy hframes)
        hoccupied (fun other hother => hmoves other (List.mem_cons_of_mem _ hother))
      rw [run_cons, dispatches_append, List.map_append, List.append_assoc, hrest, hlaw]

-- As long as a call that holds the queue lasts, the queue is not free.
theorem occupied_of_spans {queue : Queue μ ρ} {above below : List (Frame μ ρ)} {base : Frame μ ρ}
    (hstack : queue.stack = above ++ base :: below) (hbase : base.holdsQueue = true) {moves : List (Move μ ρ)}
    (hspans : queue.spans below.length moves = true) :
    queue.occupied moves = true ∧ (queue.run moves).1.stack <:+ below := by
  induction moves generalizing queue above base with
  | nil =>
      have hlength := length_of_spans hspans
      rw [run_nil, hstack, List.length_append, List.length_cons] at hlength
      omega
  | cons move moves ih =>
      rw [spans, Bool.and_eq_true] at hspans
      have hbusy : queue.busy = true := by simp [busy, hstack, hbase]
      rcases (transition_step queue move).shift.holds hstack hbase with ⟨above, base, hnext, hbase⟩ | hleft
      · obtain ⟨hoccupied, hend⟩ := ih hnext hbase hspans.2
        exact ⟨Bool.and_eq_true_iff.mpr ⟨hbusy, hoccupied⟩, hend⟩
      · obtain rfl := eq_nil_of_spans hspans.2 hleft.length_le
        exact ⟨Bool.and_eq_true_iff.mpr ⟨hbusy, rfl⟩, hleft⟩

-- A tick whose clock does not fail dispatches all that waited but what its sweep finds overdue.
theorem Sound.tick_dispatches {queue : Queue μ ρ} {admitted : List (MessageId × μ)} {past : List (Event μ ρ)}
    (h : queue.Sound admitted past) (hturn : queue.turn = .user) (hfree : queue.busy = false)
    (halive : queue.dropped = false) {now : Instant} {during : List (Move μ ρ)}
    (hspans : (queue.step (.call .tick)).1.spans queue.stack.length during = true)
    (hmoves : ∀ move ∈ during, move.routineAt now) :
    (dispatches ((queue.step (.call .tick)).1.run during).2).map labelOf =
      (queue.pending.entries.filter fun entry =>
        !queue.limits.waitDeadline.any fun deadline => deadline ≤ elapsed entry.enqueuedAt now).map Entry.labelled ∧
      ((queue.step (.call .tick)).1.run during).1.pending.entries = [] := by
  obtain ⟨frame, hframe, hbase, hframes, htick⟩ := step_tick queue hturn hfree halive
  have hstarted : (queue.step (.call .tick)).1.Sound _ _ := h.step (.call .tick)
  rw [htick] at hstarted hspans ⊢
  have hcalm : ∀ last ∈ during.getLast?, last.calm = true := fun last hlast =>
    Move.calm_of_routine (hmoves last (List.mem_of_getLast? hlast)).1
  obtain ⟨-, hpending, -⟩ := hstarted.run_tick (List.nil_append _).symm hbase hfree hframes hspans hcalm
  obtain ⟨hoccupied, hend⟩ := occupied_of_spans (List.nil_append _).symm hbase hspans
  have hlaw := run_upcoming hstarted.ordered hstarted.stacked hframes hoccupied hmoves
  -- After the tick nothing is to come, and before it all that waits and is not overdue.
  have hlast : ({ queue with stack := frame :: queue.stack }.run during).1.upcoming now = [] := by
    rw [upcoming, unstarted, unstarted_of_not_holdsQueue _ (any_eq_false_of_suffix _ hend hfree), hpending]
    rfl
  have hfirst : ({ queue with stack := frame :: queue.stack } : Queue μ ρ).upcoming now =
      queue.pending.entries.filter fun entry => entry.spared (queue.limits.scans.map fun look => (now, look)) := by
    have hunstarted := unstarted_of_not_holdsQueue queue.stack hfree
    have hlooming := looming_of_not_holdsQueue now queue.stack hfree
    rcases hframe with rfl | ⟨hscans, rfl⟩
    · simp [upcoming, unstarted, looming, hunstarted, hlooming]
    · simp [upcoming, unstarted, looming, hunstarted, hlooming, hscans]
  rw [hlast, List.map_nil, List.append_nil, hfirst] at hlaw
  refine ⟨hlaw.trans ?_, hpending⟩
  simp only [spared_scans]

end Queue

end DeadlineQueue
