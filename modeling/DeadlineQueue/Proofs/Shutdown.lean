import DeadlineQueue.Proofs.Schedule.Theorems

namespace DeadlineQueue

open Simulation Queue

variable {μ ρ : Type}

namespace Pacer

section run

variable {pacer : Pacer} {shutdownAfter : Duration} {world : World μ ρ} {queue : Queue μ ρ}

theorem isSome_deadline_iff :
    (Instant.after? (world.now + shutdownAfter) pacer.grace).isSome = true ↔
      world.now + shutdownAfter + pacer.grace < instantLimit := by
  unfold Instant.after?
  split
  · rename_i hbefore
    exact iff_of_true rfl hbefore
  · rename_i hafter
    exact iff_of_false Bool.false_ne_true hafter

-- The deadline is worked out after the ticks before the stop, but nothing that happens in them matters to it.
theorem run_eq_error_iff (hinterval : 0 < pacer.interval) (failure : Failure) :
    pacer.run shutdownAfter world queue = .error failure ↔
      failure = .deadlineOverflow ∧ instantLimit ≤ world.now + shutdownAfter + pacer.grace := by
  by_cases hbefore : world.now + shutdownAfter + pacer.grace < instantLimit
  · obtain ⟨before, after, -, hrun⟩ := run_eq_drained hinterval (isSome_deadline_iff.mpr hbefore) queue
    rw [hrun]
    exact iff_of_false (fun h => by cases h) fun h => absurd hbefore (Int.not_lt.mpr h.2)
  · have hnone : Instant.after? (world.now + shutdownAfter) pacer.grace = none := by
      rw [← Option.not_isSome_iff_eq_none, isSome_deadline_iff]
      exact hbefore
    rw [run, pace_eq_error hinterval (pacer.started world) queue hnone, Except.error.injEq]
    exact ⟨fun h => ⟨h.symm, Int.not_lt.mp hbefore⟩, fun h => h.1.symm⟩

end run

-- A run of the pacer that may be told to shut down at any time. It fails if there is no instant as late as
-- its deadline, and then only. Otherwise it comes to its drain, however the processor behaves: up to there
-- nothing is cancelled, the drain cancels what is left, and with that every message that was tracked at the
-- start has been notified once.
theorem run_closes (pacer : Pacer) (shutdownAfter : Duration) (world : World μ ρ) (queue : Queue μ ρ)
    (hready : queue.Ready) (hinterval : 0 < pacer.interval) :
    let deadline : Instant := world.now + shutdownAfter + pacer.grace
    (∀ failure, pacer.run shutdownAfter world queue = .error failure ↔
        failure = .deadlineOverflow ∧ instantLimit ≤ deadline) ∧
      (deadline < instantLimit →
        ∃ left remaining moves last final during,
          let events := (queue.run (moves ++ .call .drain :: during)).2
          pacer.run shutdownAfter world queue = .ok (last, final) ∧
            Course world queue moves left remaining ∧ (∀ event ∈ (queue.run moves).2, event.cancels = false) ∧
            Course left remaining (.call .drain :: during) last final ∧
            (remaining.run (.call .drain :: during)).2.filterMap Event.raised? =
              remaining.cancellations.map (fun notice => (.drain, notice)) ∧
            last.completed = world.completed ++ (if queue.observed then deliveries events else []) ∧
            (∀ entry ∈ queue.tracked, ((deliveries events).map fun notice => notice.id).count entry.id = 1 ∧
              entry.labelled ∈ (deliveries events).map Notice.labelled) ∧
            final.isEmpty = true) := by
  refine ⟨run_eq_error_iff hinterval, fun hbefore => ?_⟩
  obtain ⟨before, after, -, hrun⟩ := run_eq_drained hinterval (isSome_deadline_iff.mpr hbefore) queue
  obtain ⟨moves, hpaced⟩ := waited_paced pacer shutdownAfter world hready before after
  have hcourse := hpaced.course hready
  have hleft := hcourse.ready hready
  obtain ⟨during, -, hdrained, -, hraised⟩ :=
    drained_course (pacer.waited shutdownAfter world queue before after).1 hleft
  have hempty := hleft.run_drain fun move hmove => hdrained.routine move (List.mem_cons_of_mem _ hmove)
  have hwhole := hcourse.trans hdrained
  have hidle := hwhole.idle
  rw [← hwhole.run] at hidle
  refine ⟨_, _, moves, _, _, during, hrun, hcourse, run_uncancelled hpaced.ne_drain (by simp [hready.idle]),
    hdrained, hraised, ?_, fun entry hentry => ?_, ?_⟩
  · exact hwhole.completed.trans (congrArg _ (run_receipts queue _))
  · refine hready.notified_once hwhole.routine hidle ?_ hentry
    rw [run_append, hcourse.run]
    exact hempty
  · exact (congrArg Queue.isEmpty hdrained.run).symm.trans hempty

-- Every message is reported, some time after it was handed over.
def reportingAll : World String String where
  behaviour _ := .reportAfter 38 .success none
  now := 12

def oneTracked : World String String × Queue String String :=
  reportingAll.call (make {} true) (.enqueue "a")

-- Told to shut down at 37 and given the longest grace for which there is a deadline.
theorem run_closes_lastInstant :
    let grace : Duration := 9223372036854775807999999962
    oneTracked.2.Ready ∧ oneTracked.2.tracked.length = 1 ∧
      oneTracked.1.now + (25 : Duration) + grace = instantLimit - 1 ∧
      ∃ last final, Pacer.run { interval := 10, grace } 25 oneTracked.1 oneTracked.2 = .ok (last, final) ∧
        (∀ entry ∈ oneTracked.2.tracked, (last.completed.map fun notice => notice.id).count entry.id = 1) ∧
        final.isEmpty = true := by
  intro grace
  have hready : oneTracked.2.Ready := by
    have hstart : Fits reportingAll (make {} true) := .make {} reportingAll.behaviour 12
    exact (hstart.enqueue "a").ready
  have hdeadline : oneTracked.1.now + (25 : Duration) + grace = instantLimit - 1 := by decide +kernel
  obtain ⟨-, hcloses⟩ := run_closes { interval := 10, grace } 25 oneTracked.1 oneTracked.2 hready (by decide)
  have hbefore : oneTracked.1.now + (25 : Duration) + grace < instantLimit := by
    rw [hdeadline]
    exact Int.sub_one_lt_of_le le_rfl
  obtain ⟨_, _, _, last, final, _, hrun, -, -, -, -, hcompleted, hnotified, hempty⟩ := hcloses hbefore
  have hsame : last.completed = deliveries _ := hcompleted
  refine ⟨hready, by decide +kernel, hdeadline, last, final, hrun, fun entry hentry => ?_, hempty⟩
  rw [hsame]
  exact (hnotified entry hentry).1

-- With the longest duration as its grace the run fails, and the message that it had handed over is
-- neither told nor cancelled.
theorem run_closes_longestGrace :
    let pacer : Pacer := { interval := 10, grace := durationLimit - 1 }
    let stopped := pacer.stopped 25 oneTracked.1 oneTracked.2 3
    0 < pacer.interval ∧ oneTracked.2.tracked.length = 1 ∧
      pacer.run 25 oneTracked.1 oneTracked.2 = .error .deadlineOverflow ∧
      stopped.2.inProgress.entries.length = 1 ∧ stopped.1.completed = [] := by
  intro pacer stopped
  have hlate : instantLimit ≤ oneTracked.1.now + (25 : Duration) + pacer.grace := by decide +kernel
  exact ⟨by decide, by decide +kernel, (run_eq_error_iff (by decide) _).mpr ⟨rfl, hlate⟩, by decide +kernel,
    by decide +kernel⟩

end Pacer

end DeadlineQueue
