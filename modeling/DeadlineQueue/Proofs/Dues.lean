import DeadlineQueue.Proofs.Progress
import DeadlineQueue.Proofs.Tick.Timeouts

namespace DeadlineQueue

variable {μ ρ : Type}

-- What a call is still to raise of the batch that it holds.
@[simp] def Frame.owes : Frame μ ρ → List (Source × Notice μ ρ)
  | retiring name batch => batch.map fun entry => (.sweep name, entry.notice .timeout none)
  | draining batch _ => batch.map fun entry => (.drain, entry.notice .cancelled none)
  | _ => []

theorem Move.calm_of_quiet {move : Move μ ρ} (h : move.quiet = true) : move.calm = true := by
  cases move with
  | read reading => cases reading <;> first | rfl | exact h
  | panic => exact h
  | _ => rfl

theorem owes_of_not_holdsQueue (stack : List (Frame μ ρ)) (h : stack.any Frame.holdsQueue = false) :
    stack.flatMap Frame.owes = [] :=
  flatMap_of_not_holdsQueue stack Frame.owes (fun frame hframe => by cases frame <;> simp_all [Frame.holdsQueue]) h

namespace Queue

def owes (queue : Queue μ ρ) : List (Source × Notice μ ρ) :=
  queue.stack.flatMap Frame.owes

theorem owes_raise (queue : Queue μ ρ) (source : Source) (notice : Notice μ ρ) :
    (queue.raise source notice).1.owes = queue.owes :=
  flatMap_stack_raise queue source notice Frame.owes rfl

-- Without a panic a batch is raised notice by notice.
theorem Transition.owes {queue next : Queue μ ρ} {move : Move μ ρ} {events : List (Event μ ρ)}
    (h : Transition queue move next events) (hcalm : move.calm = true) {owed : Source × Notice μ ρ}
    (howed : owed ∈ queue.owes) : owed ∈ events.filterMap Event.raised? ∨ owed ∈ next.owes := by
  cases h with
  | scan hstack =>
      rw [Queue.owes, hstack] at howed
      exact .inr (List.mem_append_right _ howed)
  | retire hstack | cancel hstack =>
      rw [Queue.owes, hstack] at howed
      rw [owes_raise]
      rcases List.mem_cons.mp howed with rfl | howed
      · exact .inl List.mem_cons_self
      · exact .inr howed
  | startUnread fault hstack =>
      rw [Queue.owes, hstack] at howed
      rw [owes_raise]
      exact .inr howed
  | complete =>
      rw [owes_raise]
      exact .inr howed
  | @finish frame rest hstack huser =>
      rw [Queue.owes, hstack] at howed
      cases frame with
      | processing => exact .inr howed
      | notifying => exact .inr howed
      | _ => exact absurd huser Bool.false_ne_true
  | clockPanic | panic => exact absurd hcalm Bool.false_ne_true
  | _ => exact .inr (by simp_all [Queue.owes])

theorem mem_stack_raise {queue : Queue μ ρ} {frame : Frame μ ρ} (h : frame ∈ queue.stack) (source : Source)
    (notice : Notice μ ρ) : frame ∈ (queue.raise source notice).1.stack := by
  rw [stack_raise]
  split
  · exact h
  · exact List.mem_cons_of_mem _ h

-- What a scan takes of a lane is what is overdue, however hasty it is.
theorem mem_takeOverdue {queue : Queue μ ρ} (hordered : queue.Ordered) (hstacked : queue.Stacked) {now : Instant}
    {name : LaneName} {scan : Scan} {scans : List (LaneName × Scan)} {rest : List (Frame μ ρ)}
    (hstack : queue.stack = .scanning now ((name, scan) :: scans) :: rest) {entry : Entry μ}
    (hentry : entry ∈ (queue.lane name).entries) :
    if scan.overdue now entry then entry ∈ ((queue.lane name).takeOverdue scan now).1
    else entry ∈ ((queue.lane name).takeOverdue scan now).2.entries := by
  have hhasty := (hstacked.fair_scan hstack).origin_of_hasty
  rw [(hordered.lane name).entries_takeOverdue scan now hhasty, (hordered.lane name).takeOverdue scan now hhasty]
  split
  · rename_i hoverdue
    exact List.mem_filter.mpr ⟨hentry, hoverdue⟩
  · rename_i hoverdue
    exact List.mem_filter.mpr ⟨hentry, by simpa using hoverdue⟩

-- Some scan that is still to come will find this entry overdue where it is.
def Due (queue : Queue μ ρ) (entry : Entry μ) : Prop :=
  entry ∈ queue.inProgress.entries ∧ ∃ now scans scan, .scanning now scans ∈ queue.stack ∧
    (LaneName.inProgress, scan) ∈ scans ∧ scan.overdue now entry = true

theorem Transition.due {queue next : Queue μ ρ} {move : Move μ ρ} {events : List (Event μ ρ)}
    (h : Transition queue move next events) (hordered : queue.Ordered) (hstacked : queue.Stacked)
    (hquiet : move.quiet = true) {entry : Entry μ} (hdue : queue.Due entry) :
    (.sweep .inProgress, entry.notice .timeout none) ∈ next.owes ∨ next.Due entry := by
  obtain ⟨hentry, now, scans, scan, hframe, hscan, hoverdue⟩ := hdue
  cases h with
  | @scan time name look looks rest hstack =>
      rw [hstack] at hframe
      have hahead (hlook : (LaneName.inProgress, scan) ≠ (name, look) ∨ ¬look.overdue time entry = true) :
          ∃ scans, .scanning now scans ∈ Frame.scanning time looks :: rest ∧ (LaneName.inProgress, scan) ∈ scans := by
        rcases List.mem_cons.mp hframe with heq | hframe
        · obtain ⟨rfl, rfl⟩ := Frame.scanning.inj heq
          refine ⟨looks, List.mem_cons_self, (List.mem_cons.mp hscan).resolve_left fun heq => ?_⟩
          rcases hlook with hlook | hlook
          · exact hlook heq
          · exact hlook ((Prod.mk.inj heq).2 ▸ hoverdue)
        · exact ⟨scans, List.mem_cons_of_mem _ hframe, hscan⟩
      cases name with
      | pending =>
          obtain ⟨scans, hframe, hscan⟩ := hahead (.inl (by simp))
          exact .inr ⟨hentry, now, scans, scan, List.mem_cons_of_mem _ hframe, hscan, hoverdue⟩
      | inProgress =>
          have htaken := mem_takeOverdue hordered hstacked hstack hentry
          by_cases hlook : look.overdue time entry = true
          · rw [if_pos hlook] at htaken
            exact .inl (List.mem_append_left _ (List.mem_map_of_mem htaken))
          · rw [if_neg hlook] at htaken
            obtain ⟨scans, hframe, hscan⟩ := hahead (.inr hlook)
            exact .inr ⟨htaken, now, scans, scan, List.mem_cons_of_mem _ hframe, hscan, hoverdue⟩
  | scannedAll hstack =>
      rw [hstack] at hframe
      rcases List.mem_cons.mp hframe with heq | hframe
      · obtain ⟨rfl, rfl⟩ := Frame.scanning.inj heq
        exact absurd hscan List.not_mem_nil
      · exact .inr ⟨hentry, now, scans, scan, List.mem_cons_of_mem _ hframe, hscan, hoverdue⟩
  | start time hstack =>
      refine .inr ⟨?_, now, scans, scan, ?_, hscan, hoverdue⟩
      · simpa [append, Lane.entries_push] using .inl hentry
      · rw [hstack] at hframe
        simpa using hframe
  | retire hstack | cancel hstack | startUnread fault hstack =>
      rw [hstack] at hframe
      exact .inr ⟨by simpa using hentry, now, scans, scan, mem_stack_raise (by simpa using hframe) _ _, hscan, hoverdue⟩
  | finish hstack huser =>
      rw [hstack] at hframe
      rcases List.mem_cons.mp hframe with rfl | hframe
      · exact absurd huser Bool.false_ne_true
      · exact .inr ⟨hentry, now, scans, scan, hframe, hscan, hoverdue⟩
  | _ =>
      first
        | exact absurd hquiet Bool.false_ne_true
        | exact .inr ⟨hentry, now, scans, scan, by simp_all, hscan, hoverdue⟩

theorem mem_of_raised {events : List (Event μ ρ)} {source : Source} {notice : Notice μ ρ}
    (h : (source, notice) ∈ events.filterMap Event.raised?) : .raised source notice ∈ events := by
  obtain ⟨event, hevent, hraised⟩ := List.mem_filterMap.mp h
  cases event with
  | raised =>
      obtain ⟨rfl, rfl⟩ := Prod.mk.inj (Option.some.inj hraised)
      exact hevent
  | _ => simp at hraised

-- What is owed is raised when the calls come to their end.
theorem run_owes (queue : Queue μ ρ) (moves : List (Move μ ρ)) (hcalm : ∀ move ∈ moves, move.calm = true)
    {owed : Source × Notice μ ρ} (howed : owed ∈ queue.owes) (hend : (queue.run moves).1.stack = []) :
    owed ∈ (queue.run moves).2.filterMap Event.raised? := by
  induction moves generalizing queue with
  | nil =>
      have hstack : queue.stack = [] := hend
      simp [owes, hstack] at howed
  | cons move moves ih =>
      rw [run_cons, List.filterMap_append]
      rcases (transition_step queue move).owes (hcalm move List.mem_cons_self) howed with hraised | howed
      · exact List.mem_append_left _ hraised
      · have hrest := ih _ (fun other hother => hcalm other (List.mem_cons_of_mem _ hother)) howed hend
        exact List.mem_append_right _ hrest

-- What is due is found overdue, and then owed.
theorem run_due (queue : Queue μ ρ) (hordered : queue.Ordered) (hstacked : queue.Stacked) (moves : List (Move μ ρ))
    (hquiet : ∀ move ∈ moves, move.quiet = true) {entry : Entry μ} (hdue : queue.Due entry)
    (hend : (queue.run moves).1.stack = []) :
    (.sweep .inProgress, entry.notice .timeout none) ∈ (queue.run moves).2.filterMap Event.raised? := by
  induction moves generalizing queue with
  | nil =>
      have hstack : queue.stack = [] := hend
      obtain ⟨-, now, scans, scan, hframe, -⟩ := hdue
      simp [hstack] at hframe
  | cons move moves ih =>
      have hstep := transition_step queue move
      have hrest : ∀ move ∈ moves, move.quiet = true := fun other hother => hquiet other (List.mem_cons_of_mem _ hother)
      rw [run_cons, List.filterMap_append]
      refine List.mem_append_right _ ?_
      rcases hstep.due hordered hstacked (hquiet move List.mem_cons_self) hdue with howed | hdue
      · exact run_owes _ moves (fun move hmove => Move.calm_of_quiet (hrest move hmove)) howed hend
      · exact ih _ (ordered_step hordered move) (hstep.stacked hstacked) hrest hdue hend

-- Every call comes to its end.
theorem exists_idle (queue : Queue μ ρ) (hstacked : queue.Stacked) :
    ∃ later : List (Move μ ρ), (∀ move ∈ later, move.quiet = true) ∧ (queue.run later).1.stack = [] := by
  obtain ⟨later, hlater, hspans⟩ := queue.exists_spans hstacked 0 0
  refine ⟨later, fun move hmove => by rcases hlater move hmove with rfl | rfl | rfl <;> rfl, ?_⟩
  exact List.eq_nil_of_length_eq_zero (Nat.le_zero.mp (length_of_spans hspans))

section free

variable {queue : Queue μ ρ} (hordered : queue.Ordered) (hstacked : queue.Stacked) (hturn : queue.turn = .user)
  (hfree : queue.busy = false) (halive : queue.dropped = false) {entry : Entry μ}
  (hentry : entry ∈ queue.inProgress.entries)
include hstacked hturn hfree halive hentry

-- What is in progress can be cancelled.
theorem exists_cancelled :
    ∃ later : List (Move μ ρ), (∀ move ∈ later, move.quiet = true) ∧
      .raised .drain (entry.notice .cancelled none) ∈ (queue.run (.call .drain :: later)).2 := by
  obtain ⟨later, hquiet, hend⟩ := exists_idle _ ((transition_step queue (.call .drain)).stacked hstacked)
  refine ⟨later, hquiet, ?_⟩
  have hbatch : (queue.inProgress.entries ++ queue.pending.entries).isEmpty = false := by
    rw [List.isEmpty_eq_false_iff]
    exact List.ne_nil_of_mem (List.mem_append_left _ hentry)
  have hdrain : (queue.step (.call .drain)).1.stack =
      .draining (queue.inProgress.entries ++ queue.pending.entries)
        (queue.inProgress.entries ++ queue.pending.entries).length :: queue.stack := by
    simp [step, hturn, answer, ifFree, hfree, halive, startDrain, hbatch]
  have howed : (.drain, entry.notice .cancelled none) ∈ (queue.step (.call .drain)).1.owes := by
    rw [owes, hdrain]
    exact List.mem_append_left _ (List.mem_map_of_mem (List.mem_append_left _ hentry))
  have hraised := run_owes _ later (fun move hmove => Move.calm_of_quiet (hquiet move hmove)) howed hend
  exact List.mem_append_right _ (mem_of_raised hraised)

include hordered

-- What is overdue can be timed out.
theorem exists_timedOut {scan : Scan} (hscan : (LaneName.inProgress, scan) ∈ queue.limits.scans) {time : Instant}
    (hoverdue : scan.overdue time entry = true) :
    ∃ later : List (Move μ ρ), (∀ move ∈ later, move.quiet = true) ∧
      .raised (.sweep .inProgress) (entry.notice .timeout none) ∈
        (queue.run (.call .tick :: .read (.time time) :: later)).2 := by
  obtain ⟨middle, frame, hcall, hread, hframe⟩ := exists_start_tick queue hturn hfree halive time
  obtain rfl : frame = .scanning time queue.limits.scans := by
    rcases hframe with ⟨hnone, -⟩ | ⟨-, hframe⟩
    · simp [hnone] at hscan
    · exact hframe
  let scanning : Queue μ ρ := { queue with stack := .scanning time queue.limits.scans :: queue.stack }
  have hscanning : ((queue.step (.call .tick)).1.step (.read (.time time))).1 = scanning := by rw [hcall, hread]
  have hordered' : scanning.Ordered := hscanning ▸ ordered_step (ordered_step hordered _) _
  have hstacked' : scanning.Stacked :=
    hscanning ▸ (transition_step _ _).stacked ((transition_step _ _).stacked hstacked)
  obtain ⟨later, hquiet, hend⟩ := exists_idle scanning hstacked'
  have hdue : scanning.Due entry := ⟨hentry, time, queue.limits.scans, scan, List.mem_cons_self, hscan, hoverdue⟩
  have hraised := run_due scanning hordered' hstacked' later hquiet hdue hend
  refine ⟨later, hquiet, ?_⟩
  rw [run_cons, run_cons, hscanning]
  exact List.mem_append_right _ (List.mem_append_right _ (mem_of_raised hraised))

end free

end Queue

end DeadlineQueue
