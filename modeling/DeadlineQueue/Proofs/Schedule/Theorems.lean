import DeadlineQueue.Proofs.Cancelling
import DeadlineQueue.Proofs.Plans
import DeadlineQueue.Proofs.Schedule.Basic
import DeadlineQueue.Proofs.Simulation.Hearing

namespace DeadlineQueue

open Simulation Queue

variable {μ ρ : Type}

def Frame.isDraining : Frame μ ρ → Bool
  | draining _ _ => true
  | _ => false

-- What a drain tells of a message.
def Event.cancels : Event μ ρ → Bool
  | raised .drain _ | log (.cancelled _) => true
  | _ => false

namespace Queue

-- While no drain is called and none is running, nothing is cancelled.
theorem Transition.uncancelled {queue next : Queue μ ρ} {move : Move μ ρ} {events : List (Event μ ρ)}
    (h : Transition queue move next events) (hmove : move ≠ .call .drain)
    (hframes : queue.stack.any Frame.isDraining = false) :
    next.stack.any Frame.isDraining = false ∧ ∀ event ∈ events, event.cancels = false := by
  cases h with
  | cancel hstack | cancelledAll hstack => simp [hstack, Frame.isDraining] at hframes
  | drain | drainEmpty => exact absurd rfl hmove
  | retire hstack | startUnread fault hstack =>
      rw [any_stack_raise _ _ _ _ rfl]
      simp_all [Frame.isDraining, Event.cancels]
  | complete =>
      rw [any_stack_raise _ _ _ _ rfl]
      simpa [Frame.isDraining, Event.cancels] using hframes
  | clockPanic text =>
      exact ⟨any_eq_false_of_suffix _ (unwind_suffix queue queue.stack text) hframes, by simp [Event.cancels]⟩
  | panic text hstack =>
      exact ⟨any_eq_false_of_suffix _ (unwind_suffix_of_cons queue hstack text) hframes, by simp [Event.cancels]⟩
  | @finish frame rest hstack =>
      exact ⟨any_eq_false_of_suffix _ (hstack ▸ List.suffix_cons frame rest) hframes, by simp [Event.cancels]⟩
  | accept | start | drop | dropToken =>
      refine ⟨by simp_all [Frame.isDraining], fun event hevent => ?_⟩
      simp at hevent
      grind [Event.cancels]
  | _ => simp_all [Frame.isDraining, Event.cancels]

theorem run_uncancelled {queue : Queue μ ρ} {moves : List (Move μ ρ)} (hmoves : ∀ move ∈ moves, move ≠ .call .drain)
    (hframes : queue.stack.any Frame.isDraining = false) : ∀ event ∈ (queue.run moves).2, event.cancels = false := by
  induction moves generalizing queue with
  | nil => simp [run_nil]
  | cons move moves ih =>
      obtain ⟨hnext, hnone⟩ := (transition_step queue move).uncancelled (hmoves move List.mem_cons_self) hframes
      rw [run_cons]
      exact List.forall_mem_append.mpr
        ⟨hnone, ih (fun other hother => hmoves other (List.mem_cons_of_mem _ hother)) hnext⟩

-- A drain has nothing to cancel in a queue in which nothing is left.
theorem cancellations_eq_nil {queue : Queue μ ρ} (h : queue.isEmpty = true) : queue.cancellations = [] := by
  rw [isEmpty, Bool.and_eq_true] at h
  simp [cancellations, Lane.entries, List.isEmpty_iff.mp h.1, List.isEmpty_iff.mp h.2]

end Queue

namespace Simulation

-- The report of a message that has come by the given time was accepted, unless a tick before it found
-- the message overdue.
def Attended (limits : Limits) (start : Instant) (interval : Nat) (finish : Instant) (entry : Entry μ)
    (completion? : Option (Instant × Outcome × Option ρ)) (trace : List (Instant × Event μ ρ)) : Prop :=
  ∀ own ∈ completion?, own.1 ≤ finish →
    (∀ k, nthTick start interval k < own.1 → limits.overdue (nthTick start interval k) entry = false) →
    stamp own.1 (entry.acceptance own.2.1 own.2.2) <:+: trace

theorem Attended.of_infix {limits : Limits} {start finish : Instant} {interval : Nat} {entry : Entry μ}
    {completion? : Option (Instant × Outcome × Option ρ)} {trace whole : List (Instant × Event μ ρ)}
    (h : Attended limits start interval finish entry completion? trace) (hwithin : trace <:+: whole) :
    Attended limits start interval finish entry completion? whole :=
  fun own hown hdue honTime => (h own hown hdue honTime).trans hwithin

-- Where all that has come was heard, a message that was in progress was attended to.
theorem Hears.attended {world next : World μ ρ} {queue after : Queue μ ρ} {times : List Instant}
    {trace : List (Instant × Event μ ρ)} (h : Hears world queue times trace next after) (hfits : Fits world queue)
    {start finish : Instant} {interval : Nat} (htimes : ∀ time ∈ times, ∃ k, time = nthTick start interval k)
    (hahead : ∀ report ∈ next.reports, finish < report.due) {slot : Slot μ} (hslot : slot ∈ queue.inProgress.slots)
    {since : Instant} (hstart : slot.entry.startedAt = some since) :
    Attended queue.limits start interval finish slot.entry
      ((world.behaviour slot.entry.message).completion? since) trace := by
  intro own hown hdue honTime
  refine h.accepted hfits hahead hslot hstart hown hdue fun time htime hbefore => ?_
  obtain ⟨k, rfl⟩ := htimes time htime
  exact honTime k hbefore

end Simulation

namespace Pacer

section waited

variable {world : World μ ρ} {queue : Queue μ ρ}

theorem ticked_hears (h : Fits world queue) (times : List Instant) :
    ∃ trace, Hears world queue times trace (ticked times world queue).1 (ticked times world queue).2 := by
  induction times generalizing world queue with
  | nil => exact ⟨[], .refl h⟩
  | cons time times ih =>
      obtain ⟨trace, htick, -⟩ := tickAt_hears h time
      obtain ⟨later, hrest⟩ := ih htick.fits
      exact ⟨trace ++ later, htick.trans hrest⟩

-- Time passes to the stop between two rows of ticks.
theorem passed_hears (h : Fits world queue) (times others : List Instant) (stop : Instant) :
    let reached := ticked times world queue
    let arrived := reached.1.passTo reached.2 stop
    let left := ticked others (arrived.1.note (.log (.shutdownRequested arrived.2.size))) arrived.2
    ∃ trace, Hears world queue (times ++ others) trace left.1 left.2 := by
  intro reached arrived left
  obtain ⟨before, hticked⟩ := ticked_hears h times
  obtain ⟨between, hpassed, -⟩ := hticked.fits.passTo_hears stop
  have hstopped := (hticked.trans hpassed).logged (.shutdownRequested arrived.2.size)
  obtain ⟨after, hleft⟩ := ticked_hears hstopped.fits others
  have hall := hstopped.trans hleft
  rw [List.append_nil] at hall
  exact ⟨_, hall⟩

variable (pacer : Pacer) (shutdownAfter : Duration) (before after : Nat)

-- All that comes after the first tick is heard.
theorem waited_hears (hfits : Fits (tickAt (pacer.started world) queue world.now).1
      (tickAt (pacer.started world) queue world.now).2) :
    let first := tickAt (pacer.started world) queue world.now
    let left := pacer.waited shutdownAfter world queue (before + 1) after
    ∃ times later, (∀ time ∈ times, ∃ k, time = nthTick world.now pacer.interval k) ∧
      Hears first.1 first.2 times later left.1 left.2 := by
  intro first left
  let times := tickTimes world.now pacer.interval 1 before ++ tickTimes world.now pacer.interval (before + 1) after
  have htimes : ∀ time ∈ times, ∃ k, time = nthTick world.now pacer.interval k :=
    List.forall_mem_append.mpr
      ⟨fun _ => exists_of_mem_tickTimes _ _ _ _, fun _ => exists_of_mem_tickTimes _ _ _ _⟩
  have hleft : ticked (tickTimes world.now pacer.interval 0 (before + 1)) (pacer.started world) queue =
      ticked (tickTimes world.now pacer.interval 1 before) first.1 first.2 := by
    rw [tickTimes_succ, nthTick_zero]
    rfl
  obtain ⟨later, hlater⟩ : ∃ later, Hears first.1 first.2 times later left.1 left.2 := by
    simp only [left, waited, stopped, hleft]
    exact passed_hears hfits _ _ _
  exact ⟨times, later, htimes, hlater⟩

variable (h : Fits world queue)
include h

theorem waited_fits :
    Fits (pacer.waited shutdownAfter world queue before after).1
      (pacer.waited shutdownAfter world queue before after).2 := by
  have hstarted : Fits (pacer.started world) queue := h.aside rfl rfl rfl
  obtain ⟨trace, hall⟩ := passed_hears hstarted (tickTimes world.now pacer.interval 0 before)
    (tickTimes world.now pacer.interval before after) (world.now + shutdownAfter)
  exact hall.fits

-- Nothing waits after the first tick, so that no later one adds a report. What is still to come when time
-- has passed is not due yet.
theorem waited_ahead :
    let left := pacer.waited shutdownAfter world queue (before + 1) after
    left.2.pending.entries = [] ∧ ∀ report ∈ left.1.reports, left.1.now < report.due := by
  induction after with
  | zero =>
      have hstarted : Fits (pacer.started world) queue := h.aside rfl rfl rfl
      let reached := ticked (tickTimes world.now pacer.interval 0 before) (pacer.started world) queue
      have hlast : ticked (tickTimes world.now pacer.interval 0 (before + 1)) (pacer.started world) queue =
          tickAt reached.1 reached.2 (nthTick world.now pacer.interval (0 + before)) := by
        rw [tickTimes_concat, ticked_append]
        rfl
      obtain ⟨_, hreached⟩ := ticked_hears hstarted (tickTimes world.now pacer.interval 0 before)
      obtain ⟨_, htick, hpending, -⟩ := tickAt_hears hreached.fits (nthTick world.now pacer.interval (0 + before))
      obtain ⟨_, -, hahead, hkept⟩ := htick.fits.passTo_hears (world.now + shutdownAfter)
      rw [← hlast] at hpending hahead hkept
      exact ⟨(congrArg Lane.entries hkept).trans hpending, hahead⟩
  | succ after ih =>
      have hleft := waited_fits pacer shutdownAfter (before + 1) after h
      obtain ⟨_, -, hpending, hahead, -⟩ := tickAt_hears hleft (nthTick world.now pacer.interval (before + 1 + after))
      dsimp only
      rw [waited_succ, now_tickAt hleft.ready]
      exact ⟨hpending, hahead ih.1⟩

-- The messages that are in progress at the start and those that the first tick hands over are attended to.
theorem waited_attends :
    let left := pacer.waited shutdownAfter world queue (before + 1) after
    ∃ trace, Passage world queue trace left.1 left.2 ∧
      ∀ entry ∈ queue.inProgress.entries ++ (queue.pending.entries.filter fun entry =>
            !queue.limits.late world.now entry).map fun entry => { entry with startedAt := some world.now },
        ∃ start, entry.startedAt = some start ∧
          Attended queue.limits world.now pacer.interval left.1.now entry
            ((world.behaviour entry.message).completion? start) trace := by
  intro left
  have hstarted : Fits (pacer.started world) queue := h.aside rfl rfl rfl
  obtain ⟨admitted, past, hs⟩ := h.ready.reachable.sound
  have hahead := (waited_ahead pacer shutdownAfter before after h).2
  obtain ⟨trace, htick, -, -, hhanded⟩ := tickAt_hears hstarted world.now
  obtain ⟨times, later, htimes, hrest⟩ := waited_hears pacer shutdownAfter before after htick.fits
  have hall := htick.trans hrest
  refine ⟨trace ++ later, hall.of_logged.passage, fun entry hentry => ?_⟩
  rcases List.mem_append.mp hentry with hentry | hentry
  · obtain ⟨slot, hslot, rfl⟩ := List.mem_map.mp hentry
    obtain ⟨start, -, hstart, -⟩ := hs.ordered.inProgress.stamped slot hslot
    have htimes : ∀ time ∈ [world.now] ++ times, ∃ k, time = nthTick world.now pacer.interval k :=
      List.forall_mem_cons.mpr ⟨⟨0, (nthTick_zero _ _).symm⟩, htimes⟩
    exact ⟨start, hstart, hall.attended hstarted htimes hahead hslot hstart⟩
  · rw [← entries_handed] at hentry
    obtain ⟨slot, hslot, rfl⟩ := List.mem_map.mp hentry
    obtain ⟨hreported, hparked⟩ := hhanded slot hslot
    refine ⟨world.now, startedAt_of_mem hslot, ?_⟩
    cases hreports : (world.behaviour slot.entry.message).reports with
    | true =>
        cases hbehaviour : world.behaviour slot.entry.message with
        | keep | drop | reportAfter => simp [hbehaviour, Behaviour.reports] at hreports
        | reportNow outcome reason =>
            rintro own ⟨⟩ - -
            exact (hreported outcome reason hbehaviour).trans (List.prefix_append _ later).isInfix
    | false =>
        have hattended := hrest.attended htick.fits htimes hahead (hparked hreports) (startedAt_of_mem hslot)
        rw [htick.limits, htick.behaviour] at hattended
        exact hattended.of_infix (List.suffix_append _ _).isInfix

end waited

section drained

variable {queue : Queue μ ρ} (world : World μ ρ)

-- The warning is only logged.
theorem warned_eq (queue : Queue μ ρ) :
    ∃ shut, warned (world, queue) = (shut, queue) ∧ shut.now = world.now ∧ shut.behaviour = world.behaviour ∧
      shut.reports = world.reports ∧ world.processed = shut.processed ∧ world.completed = shut.completed ∧
      world.notices = shut.notices := by
  unfold warned
  split
  · exact ⟨world, rfl, rfl, rfl, rfl, rfl, rfl, rfl⟩
  · exact ⟨_, rfl, rfl, rfl, rfl, by simp⟩

-- The drain is made at once and cancels what is left.
theorem drained_course (hready : queue.Ready) :
    ∃ during, (∀ move ∈ during, move.takesQueue = false) ∧
      Course world queue (.call .drain :: during) (drained (world, queue)).1 (drained (world, queue)).2 ∧
      (drained (world, queue)).1.now = world.now ∧
      (queue.run (.call .drain :: during)).2.filterMap Event.raised? =
        queue.cancellations.map fun notice => (.drain, notice) := by
  obtain ⟨shut, heq, hnow, -, -, hprocessed, hcompleted, -⟩ := warned_eq world queue
  obtain ⟨during, hduring, hspans, -, hcourse⟩ := shut.call_course hready .drain rfl
  have hdepth : (queue.step (.call .drain)).1.spans queue.stack.length during = true := by rwa [hready.idle]
  have hcalm : ∀ move ∈ during, move.calm = true := fun move hmove => Move.calm_of_routine (hduring move hmove).1.1
  unfold drained
  rw [heq]
  exact ⟨during, fun move hmove => (hduring move hmove).2, (hcourse.aside ⟨hprocessed, hcompleted⟩ ⟨rfl, rfl⟩).logged _,
    (shut.now_call hready .drain).trans hnow, (drain_cancels hready.turn hready.free hready.kept hdepth hcalm).2⟩

theorem drained_passage (h : Fits world queue) :
    ∃ trace, Passage world queue trace (drained (world, queue)).1 (drained (world, queue)).2 := by
  obtain ⟨shut, heq, hnow, hbehaviour, hreports, hsame⟩ := warned_eq world queue
  have hshut : Fits shut queue := h.aside hbehaviour hnow hreports
  obtain ⟨events, hruns, -⟩ := hshut.drain
  unfold drained
  rw [heq]
  dsimp only
  rw [hruns.eq]
  exact ⟨_, (hruns.passage rfl).aside hsame (by simp)⟩

end drained

-- A run of the pacer that is told to shut down after its start and not on a tick. It makes the ticks that
-- come before its stop and no other, then ticks on while it waits, and drains. From tick to tick the interval
-- passes, and nothing but these ticks takes the queue before the drain. The run ends at the stop, or with the
-- first tick after it after which nothing is left or the deadline has come, and so less than an interval after
-- the deadline. Nothing is cancelled before the drain, and only if the deadline has come is anything left for
-- it to cancel. Up to the end what the processor reports is accepted and delivered.
theorem run_schedules (pacer : Pacer) (shutdownAfter : Duration) (world : World μ ρ) (queue : Queue μ ρ)
    (hready : queue.Ready) (hinterval : 0 < pacer.interval) (hclear : ∀ k : Nat, k * pacer.interval ≠ shutdownAfter)
    (hdeadline : (Instant.after? (world.now + shutdownAfter) pacer.grace).isSome = true) :
    let stop : Instant := world.now + shutdownAfter
    let deadline : Instant := stop + pacer.grace
    let tick := nthTick world.now pacer.interval
    ∃ before after last final, pacer.Counted shutdownAfter world queue before after ∧
      let left := pacer.waited shutdownAfter world queue before after
      pacer.run shutdownAfter world queue = .ok (last, final) ∧ drained left = (last, final) ∧
        (∀ k, stop < tick (before + k)) ∧
        last.now = left.1.now ∧ (after = 0 → last.now = stop) ∧ (∀ k, after = k + 1 → last.now = tick (before + k)) ∧
        last.now < deadline + pacer.interval ∧
        (∃ moves during, Paced world queue ((List.range (before + after)).map tick) moves left.1 left.2 ∧
          moves.filter Move.takesQueue = List.replicate (before + after) (.call .tick) ∧
          Course world queue moves left.1 left.2 ∧
          (∀ event ∈ (queue.run moves).2, event.cancels = false) ∧
          (∀ move ∈ during, move.takesQueue = false) ∧
          Course left.1 left.2 (.call .drain :: during) last final ∧
          (left.2.run (.call .drain :: during)).2.filterMap Event.raised? =
            left.2.cancellations.map (fun notice => (.drain, notice)) ∧
          (last.now < deadline → left.2.cancellations = [])) ∧
        (Fits world queue → ∃ trace, Passage world queue trace last final ∧
          ∀ entry ∈ queue.inProgress.entries ++ (queue.pending.entries.filter fun entry =>
                !queue.limits.late world.now entry).map fun entry => { entry with startedAt := some world.now },
            ∃ start, entry.startedAt = some start ∧
              Attended queue.limits world.now pacer.interval last.now entry
                ((world.behaviour entry.message).completion? start) trace) := by
  intro stop deadline tick
  have hshutdown : 0 < shutdownAfter := by
    refine Nat.pos_of_ne_zero fun hzero => hclear 0 ?_
    rw [hzero, Nat.zero_mul]
  obtain ⟨before, after, hcounted, hrun⟩ := run_eq_drained hinterval hdeadline queue
  let left := pacer.waited shutdownAfter world queue before after
  obtain ⟨moves, hpaced⟩ := waited_paced pacer shutdownAfter world hready before after
  have hcourse := hpaced.course hready
  have htakes := hpaced.filter_takesQueue
  rw [List.length_map, List.length_range] at htakes
  obtain ⟨during, hduring, hdrain, hnow, hraised⟩ := drained_course left.1 (hcourse.ready hready)
  obtain ⟨hend, hempty⟩ := hcounted.now_lt hinterval hready hshutdown
  rw [← hnow] at hend hempty
  refine ⟨before, after, _, _, hcounted, hrun, rfl, hcounted.stop_lt hclear, hnow, ?_, ?_, hend, ?_, fun hfits => ?_⟩
  · rintro rfl
    exact hnow
  · rintro k rfl
    exact hnow.trans (now_waited_succ pacer shutdownAfter world hready before k)
  · exact ⟨moves, during, hpaced, htakes, hcourse, run_uncancelled hpaced.ne_drain (by simp [hready.idle]), hduring,
      hdrain, hraised, fun hearly => cancellations_eq_nil (hempty hearly)⟩
  · obtain ⟨others, rfl⟩ := Nat.exists_eq_succ_of_ne_zero (hcounted.lt_stop_add hshutdown).1.ne'
    obtain ⟨trace, hpassage, hattends⟩ := waited_attends pacer shutdownAfter others after hfits
    obtain ⟨later, hlast⟩ := drained_passage left.1 (waited_fits pacer shutdownAfter (others + 1) after hfits)
    refine ⟨trace ++ later, hpassage.trans hlast, fun entry hentry => ?_⟩
    obtain ⟨start, hstart, hattended⟩ := hattends entry hentry
    rw [← hnow] at hattended
    exact ⟨start, hstart, hattended.of_infix (List.prefix_append _ _).isInfix⟩

-- The first message is reported long after it is handed over, and the token of the second is kept.
def reportingLate : World String String where
  behaviour message := if message = "late" then .reportAfter 38 .success (some "done") else .keep
  now := 12

def twoWaiting : World String String × Queue String String :=
  let first := reportingLate.call (make {} true) (.enqueue "late")
  first.1.call first.2 (.enqueue "kept")

-- Told to shut down at 37 and to wait until 49, a run ticks at 12, 22 and 32, and then at 42 and 52. The
-- report that comes at 50 is accepted.
theorem run_schedules_twoWaiting :
    twoWaiting.2.Ready ∧ Fits twoWaiting.1 twoWaiting.2 ∧ ∃ last final trace,
      Pacer.Counted { interval := 10, grace := 12 } 25 twoWaiting.1 twoWaiting.2 3 2 ∧
      Pacer.run { interval := 10, grace := 12 } 25 twoWaiting.1 twoWaiting.2 = .ok (last, final) ∧ last.now = 52 ∧
      (∃ reached waiting moves, Paced twoWaiting.1 twoWaiting.2 [12, 22, 32, 42, 52] moves reached waiting ∧
        moves.filter Move.takesQueue = List.replicate 5 (.call .tick)) ∧
      Passage twoWaiting.1 twoWaiting.2 trace last final ∧
      stamp 50 (Entry.acceptance { id := ⟨0⟩, message := "late", enqueuedAt := 12, startedAt := some 12 } .success
        (some "done")) <:+: trace := by
  have hfits : Fits twoWaiting.1 twoWaiting.2 := by
    have hstart : Fits reportingLate (make {} true) := .make {} reportingLate.behaviour 12
    exact (hstart.enqueue "late").enqueue "kept"
  have hclear (k : Nat) : k * 10 ≠ 25 := by omega
  have hstart : twoWaiting.1.now = 12 := by decide
  obtain ⟨before, after, last, final, hcounted, hrun, -, -, -, hnone, hsome, -, ⟨moves, _, hpaced, htakes, -⟩,
      htrace⟩ :=
    run_schedules { interval := 10, grace := 12 } 25 twoWaiting.1 twoWaiting.2 hfits.ready (by decide) hclear
      (by decide)
  have hnow : last.now = 52 := by
    have hnow : (Pacer.run { interval := 10, grace := 12 } 25 twoWaiting.1 twoWaiting.2).map (·.1.now) = .ok 52 := by
      decide +kernel
    rw [hrun] at hnow
    exact Except.ok.inj hnow
  obtain ⟨trace, hpassage, hattended⟩ := htrace hfits
  obtain ⟨_, ⟨⟩, hlate⟩ :=
    hattended { id := ⟨0⟩, message := "late", enqueuedAt := 12, startedAt := some 12 } (.head _)
  obtain rfl : before = 3 := by
    have hthird := (hcounted.ticks 2).mp (by decide)
    have hfourth := mt (hcounted.ticks 3).mpr (by decide)
    omega
  obtain rfl : after = 2 := by
    cases after with
    | zero => exact absurd (hnow.symm.trans (hnone rfl)) (by decide)
    | succ k =>
        have htick := hnow.symm.trans (hsome k rfl)
        rw [nthTick, hstart] at htick
        simp only [Instant] at htick
        omega
  rw [hstart] at hpaced
  exact ⟨hfits.ready, hfits, last, final, trace, hcounted, hrun, hnow, ⟨_, _, moves, hpaced, htakes⟩, hpassage,
    hlate _ rfl (by rw [hnow]; decide) (fun k _ => rfl)⟩

end Pacer

end DeadlineQueue
