import DeadlineQueue.Pacer
import DeadlineQueue.Proofs.Simulation.Course

namespace DeadlineQueue

open Simulation Queue

variable {μ ρ : Type}

namespace Pacer

section loops

variable {interval : Nat} (positive : 0 < interval)

theorem tickWhileTracked_eq (deadline next : Instant) (world : World μ ρ) (queue : Queue μ ρ) :
    tickWhileTracked interval positive deadline next world queue =
      let ticked := tickAt world queue next
      if ticked.2.isEmpty then ticked
      else if next < deadline then
        tickWhileTracked interval positive deadline (next + interval) ticked.1 ticked.2
      else (ticked.1.note (.log (.shutdownTimedOut ticked.2.size)), ticked.2) := by
  rw [tickWhileTracked]

theorem tickAt_course {queue : Queue μ ρ} (hready : queue.Ready) (world : World μ ρ) (time : Instant) :
    ∃ moves, Course world queue moves (tickAt world queue time).1 (tickAt world queue time).2 := by
  obtain ⟨before, -, hpassed⟩ := world.passTo_course hready time
  obtain ⟨during, -, -, -, hticked⟩ := (world.passTo queue time).1.call_course (hpassed.ready hready) .tick rfl
  exact ⟨_, hpassed.trans hticked⟩

theorem tickUntil_course {queue : Queue μ ρ} (hready : queue.Ready) (world : World μ ρ) (stop next : Instant) :
    ∃ moves, Course world queue moves (tickUntil interval positive stop next world queue).2.1
      (tickUntil interval positive stop next world queue).2.2 := by
  rw [tickUntil]
  split
  · obtain ⟨moves, hcourse⟩ := tickAt_course hready world next
    obtain ⟨later, hlater⟩ := tickUntil_course (hcourse.ready hready) (tickAt world queue next).1 stop (next + interval)
    exact ⟨_, hcourse.trans hlater⟩
  · exact ⟨[], .refl world hready⟩
termination_by (stop - next).toNat
decreasing_by
  simp only [Instant] at *
  omega

theorem tickWhileTracked_course {queue : Queue μ ρ} (hready : queue.Ready) (world : World μ ρ)
    (deadline next : Instant) :
    ∃ moves, Course world queue moves (tickWhileTracked interval positive deadline next world queue).1
      (tickWhileTracked interval positive deadline next world queue).2 := by
  obtain ⟨moves, hcourse⟩ := tickAt_course hready world next
  rw [tickWhileTracked_eq]
  dsimp only
  split
  · exact ⟨moves, hcourse⟩
  · split
    · obtain ⟨later, hlater⟩ :=
        tickWhileTracked_course (hcourse.ready hready) (tickAt world queue next).1 deadline (next + interval)
      exact ⟨_, hcourse.trans hlater⟩
    · exact ⟨moves, hcourse.logged _⟩
termination_by (deadline - next).toNat
decreasing_by
  simp only [Instant] at *
  omega

theorem shutDown_course {queue : Queue μ ρ} (hready : queue.Ready) (world : World μ ρ) (deadline next : Instant) :
    ∃ moves, Course world queue moves (shutDown interval positive deadline next world queue).1
      (shutDown interval positive deadline next world queue).2 := by
  unfold shutDown
  split
  · exact ⟨[], .refl world hready⟩
  · split
    · exact tickWhileTracked_course positive hready world deadline next
    · exact ⟨[], (Course.refl world hready).logged _⟩

end loops

-- The drain at the end leaves nothing behind.
theorem drain_course {queue : Queue μ ρ} (hready : queue.Ready) (world : World μ ρ) :
    ∃ moves, Course world queue moves (world.call queue .drain).1 (world.call queue .drain).2 ∧
      (world.call queue .drain).2.isEmpty = true := by
  obtain ⟨moves, hmoves, -, -, hcourse⟩ := world.call_course hready .drain rfl
  refine ⟨_, hcourse, ?_⟩
  rw [← hcourse.run]
  exact hready.run_drain fun move hmove => (hmoves move hmove).1.1

section run

variable {pacer : Pacer} (positive : 0 < pacer.interval)

-- What a run does when it is told to shut down.
def close (stop deadline next : Instant) (world : World μ ρ) (queue : Queue μ ρ) : World μ ρ × Queue μ ρ :=
  let stopped := world.passTo queue stop
  let noted := stopped.1.note (.log (.shutdownRequested stopped.2.size))
  let shut := shutDown pacer.interval positive deadline next noted stopped.2
  let drained := shut.1.call shut.2 .drain
  (drained.1.note (.log .pacerStopped), drained.2)

-- However it ends, nothing is left.
theorem close_course {queue : Queue μ ρ} (hready : queue.Ready) (world : World μ ρ) (stop deadline next : Instant) :
    ∃ moves, Course world queue moves (close positive stop deadline next world queue).1
        (close positive stop deadline next world queue).2 ∧
      (close positive stop deadline next world queue).2.isEmpty = true := by
  let stopped := world.passTo queue stop
  let noted := stopped.1.note (.log (.shutdownRequested stopped.2.size))
  let shut := shutDown pacer.interval positive deadline next noted stopped.2
  obtain ⟨passing, -, hstopped⟩ := world.passTo_course hready stop
  have hstop := hstopped.ready hready
  obtain ⟨closing, hshut⟩ := shutDown_course positive hstop noted deadline next
  obtain ⟨draining, hdrained, hempty⟩ := drain_course (hshut.ready hstop) shut.1
  exact ⟨_, (hstopped.trans hshut.of_logged).trans (hdrained.logged .pacerStopped), hempty⟩

variable {shutdownAfter : Duration}

-- A run for which there is a deadline ticks up to its stop and closes.
theorem pace_eq (world : World μ ρ) (queue : Queue μ ρ) {deadline : Instant}
    (hdeadline : Instant.after? (world.now + shutdownAfter) pacer.grace = some deadline) :
    pacer.pace shutdownAfter world queue =
      let stop := world.now + shutdownAfter
      let ticked := tickUntil pacer.interval positive stop world.now world queue
      .ok (close positive stop deadline ticked.1 ticked.2.1 ticked.2.2) := by
  unfold pace
  rw [dif_pos positive]
  simp only [hdeadline]
  rfl

include positive in
theorem pace_eq_error (world : World μ ρ) (queue : Queue μ ρ)
    (hnone : Instant.after? (world.now + shutdownAfter) pacer.grace = none) :
    pacer.pace shutdownAfter world queue = .error .deadlineOverflow := by
  unfold pace
  rw [dif_pos positive]
  simp only [hnone]

-- A run that is not told to shut down at once makes its first tick when it is called.
theorem run_eq {world : World μ ρ} (hshutdown : 0 < shutdownAfter) {deadline : Instant}
    (hdeadline : Instant.after? (world.now + shutdownAfter) pacer.grace = some deadline) (queue : Queue μ ρ) :
    pacer.run shutdownAfter world queue =
      let stop := world.now + shutdownAfter
      let first := tickAt (pacer.started world) queue world.now
      let ticked := tickUntil pacer.interval positive stop (world.now + pacer.interval) first.1 first.2
      .ok (close positive stop deadline ticked.1 ticked.2.1 ticked.2.2) := by
  have hstop : world.now < world.now + shutdownAfter :=
    Int.lt_add_of_pos_right world.now (Int.natCast_pos.mpr hshutdown)
  have hnow : (pacer.started world).now = world.now := rfl
  rw [run, pace_eq positive (pacer.started world) queue hdeadline]
  dsimp only
  rw [hnow, tickUntil, if_pos hstop]

end run

-- A run that is not told to shut down at once: the reports that are due, the first tick, and the
-- rest, which ends with the drain.
theorem run_course {pacer : Pacer} {shutdownAfter : Duration} {world : World μ ρ} {queue : Queue μ ρ}
    (hready : queue.Ready) (positive : 0 < pacer.interval) (hshutdown : 0 < shutdownAfter)
    (hdeadline : (Instant.after? (world.now + shutdownAfter) pacer.grace).isSome = true) :
    ∃ last final, pacer.run shutdownAfter world queue = .ok (last, final) ∧ final.isEmpty = true ∧
      ∃ reached waiting before, (∀ move ∈ before, move.takesQueue = false) ∧ reached.now = world.now ∧
        Course world queue before reached waiting ∧
        ∃ rest, Course (reached.call waiting .tick).1 (reached.call waiting .tick).2 rest last final := by
  obtain ⟨deadline, hdeadline⟩ := Option.isSome_iff_exists.mp hdeadline
  let stop : Instant := world.now + shutdownAfter
  let reached := (pacer.started world).passTo queue world.now
  let first := reached.1.call reached.2 .tick
  let ticked := tickUntil pacer.interval positive stop (world.now + pacer.interval) first.1 first.2
  let ended := close positive stop deadline ticked.1 ticked.2.1 ticked.2.2
  have hrun : pacer.run shutdownAfter world queue = .ok (ended.1, ended.2) :=
    run_eq positive hshutdown hdeadline queue
  obtain ⟨before, htakes, hreached⟩ := (pacer.started world).passTo_course hready world.now
  have hwaiting := hreached.ready hready
  obtain ⟨during, -, -, -, hfirst⟩ := reached.1.call_course hwaiting .tick rfl
  have hticked := hfirst.ready hwaiting
  obtain ⟨between, hbetween⟩ := tickUntil_course positive hticked first.1 stop (world.now + pacer.interval)
  obtain ⟨closing, hclosing, hempty⟩ :=
    close_course positive (hbetween.ready hticked) ticked.2.1 stop deadline ticked.1
  exact ⟨ended.1, ended.2, hrun, hempty, reached.1, reached.2, before, htakes, rfl, hreached.of_logged, _,
    hbetween.trans hclosing⟩

-- A run of the pacer that is not told to shut down at once. All that waits and is not overdue is
-- handed to the processor by the first tick, in order, and from then on nothing waits. At the end
-- every message that was tracked has been notified once, none is tracked, and the tokens that are
-- still out are refused for good.
theorem run_settles_tracked (pacer : Pacer) (shutdownAfter : Duration) (world : World μ ρ) (queue : Queue μ ρ)
    (hready : queue.Ready) (hinterval : 0 < pacer.interval) (hshutdown : 0 < shutdownAfter)
    (hdeadline : (Instant.after? (world.now + shutdownAfter) pacer.grace).isSome = true) :
    ∃ last final before during rest,
      pacer.run shutdownAfter world queue = .ok (last, final) ∧
      let moves := before ++ .call .tick :: during ++ rest
      let events := (queue.run moves).2
      let first := (queue.run before).1
      let ticked := first.run (.call .tick :: during)
      let due := queue.pending.entries.filter fun entry => !queue.limits.waitDeadline.any fun deadline =>
        deadline ≤ elapsed entry.enqueuedAt world.now
      Course world queue moves last final ∧
        (∀ move ∈ before, move.takesQueue = false) ∧ (first.step (.call .tick)).1.spans 0 during = true ∧
        dispatches events = dispatches ticked.2 ∧ (dispatches ticked.2).map labelOf = due.map Entry.labelled ∧
        due.Pairwise (fun first second => first.id.serial < second.id.serial) ∧
        last.processed = world.processed ++ due.map (fun entry => (world.now, entry.message)) ∧
        (∀ later, later <+: rest → (ticked.1.run later).1.pending.entries = []) ∧
        last.completed = world.completed ++ (if queue.observed then deliveries events else []) ∧
        (∀ entry ∈ queue.tracked, ((deliveries events).map fun notice => notice.id).count entry.id = 1 ∧
          entry.labelled ∈ (deliveries events).map Notice.labelled) ∧
        final.isEmpty = true ∧
        ∀ token ∈ final.held, ∀ later : List (Move μ ρ),
          let outside := (final.run later).1
          outside.turn = .user → token ∈ outside.held → ∀ outcome reason, ∃ record,
            outside.step (.call (.complete token outcome reason)) =
              ({ outside with held := outside.held.erase token }, [.log record, .returned (.delivered false)]) := by
  obtain ⟨last, final, hrun, hempty, reached, waiting, before, htakes, hnow, hbefore, rest, hrest⟩ :=
    run_course hready hinterval hshutdown hdeadline
  have hwaiting := hbefore.ready hready
  obtain ⟨during, hspans, htick, hdispatched, hprocessed, hpending⟩ := reached.tick_course hwaiting
  have hticked := htick.ready hwaiting
  have hcourse := (hbefore.trans htick).trans hrest
  obtain rfl := hbefore.run
  -- Only the first tick dispatches, and it does so from the lane as it was at the call.
  obtain ⟨hbeforePending, hbeforeNone⟩ := run_undisturbed hready.free htakes
  obtain ⟨hrestNone, -⟩ := hticked.run_nothing hpending hrest.routine
  rw [hbeforePending, (run_settings_routine hbefore.routine).1, hnow] at hdispatched
  have hall : dispatches (queue.run (before ++ .call .tick :: during ++ rest)).2 =
      dispatches ((queue.run before).1.run (.call .tick :: during)).2 := by
    rw [run_append, run_append, dispatches_append, dispatches_append, hbeforeNone, htick.run, hrestNone,
      List.nil_append, List.append_nil]
  have hhanded : (dispatches ((queue.run before).1.run (.call .tick :: during)).2).map
      (fun issue => (world.now, issue.2)) = (queue.pending.entries.filter fun entry =>
        !queue.limits.waitDeadline.any fun deadline => deadline ≤ elapsed entry.enqueuedAt world.now).map
          fun entry => (world.now, entry.message) := by
    have hlabels := congrArg (List.map fun label : MessageId × μ => (world.now, label.2)) hdispatched
    rwa [List.map_map, List.map_map] at hlabels
  refine ⟨last, final, before, during, rest, hrun, hcourse, htakes, hspans, hall, hdispatched,
    hready.pending_inOrder.sublist List.filter_sublist, ?_, ?_, ?_, ?_, hempty, ?_⟩
  · rw [hrest.processed_eq hrestNone, hprocessed, hnow, hhanded, hbefore.processed_eq hbeforeNone]
  · intro later hlater
    rw [htick.run]
    exact (hticked.run_nothing hpending fun move hmove => hrest.routine move (hlater.subset hmove)).2
  · rw [hcourse.completed, run_receipts]
  · intro entry hentry
    have hidle := hcourse.idle
    rw [← hcourse.run] at hidle hempty
    exact hready.notified_once hcourse.routine hidle hempty hentry
  · intro token htoken later outside hturn hheld outcome reason
    obtain ⟨admitted, past, hs⟩ := (hcourse.ready hready).reachable.sound
    have hslots : final.inProgress.slots = [] := by
      rw [Queue.isEmpty, Bool.and_eq_true] at hempty
      exact List.isEmpty_iff.mp hempty.2
    exact hs.refuses_run hslots htoken later hturn hheld outcome reason

-- The second message is reported while it is processed, the token of the third is kept.
def atTwelve : World String String where
  behaviour message := if message = "b" then .reportNow .success none else .keep
  now := 12

-- Of three messages one is overdue at the first tick, and the last one is cancelled in the end.
theorem run_settles_tracked_threeWaiting :
    let queue : Queue String String := ((make { limits := { wait := some 10 } } true).run threeWaiting).1
    queue.Ready ∧ ∃ last final, Pacer.run { interval := 10 } 25 atTwelve queue = .ok (last, final) ∧
      last.processed = [(12, "b"), (12, "c")] ∧
      (∀ entry ∈ queue.tracked, (last.completed.map fun notice => notice.id).count entry.id = 1) ∧
      final.isEmpty = true := by
  intro queue
  have hready : queue.Ready := ⟨⟨_, _, _, rfl⟩, rfl, rfl⟩
  obtain ⟨last, final, before, during, rest, hrun, -, -, -, -, -, -, hprocessed, -, hcompleted, hnotified, hempty, -⟩ :=
    run_settles_tracked { interval := 10 } 25 atTwelve queue hready (by decide) (by decide) (by decide)
  refine ⟨hready, last, final, hrun, hprocessed, ?_, hempty⟩
  intro entry hentry
  rw [hcompleted]
  exact (hnotified entry hentry).1

end Pacer

end DeadlineQueue
