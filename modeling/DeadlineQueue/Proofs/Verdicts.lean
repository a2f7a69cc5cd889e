import DeadlineQueue.Proofs.Fates
import DeadlineQueue.Proofs.Plans

namespace DeadlineQueue

open Simulation Queue

variable {μ ρ : Type}

namespace Simulation

-- The notices of one message, with their times.
def noticesOf (trace : List (Instant × Event μ ρ)) (id : MessageId) : List (Instant × Notice μ ρ) :=
  (trace.filterMap noticeAt?).filter fun notice => notice.2.id == id

theorem map_snd_notices (trace : List (Instant × Event μ ρ)) :
    (trace.filterMap noticeAt?).map Prod.snd = receipts (trace.map Prod.snd) := by
  induction trace with
  | nil => rfl
  | cons event trace ih =>
      obtain ⟨time, event⟩ := event
      cases event with
      | notified notice => exact congrArg (notice :: ·) ih
      | _ => exact ih

section Passage

variable {world last : World μ ρ} {queue final : Queue μ ρ} {trace : List (Instant × Event μ ρ)}
  (h : Passage world queue trace last final) (hready : queue.Ready) (hobserved : queue.observed = true)
  (hempty : final.isEmpty = true) {entry : Entry μ} (hentry : entry ∈ queue.tracked)
include h hready hobserved hempty hentry

-- A message that was tracked and is no longer so was notified of once.
theorem Passage.length_noticesOf : (noticesOf trace entry.id).length = 1 := by
  obtain ⟨moves, hcourse, hevents⟩ := h.course
  have hidle := hcourse.idle
  rw [← hcourse.run] at hidle hempty
  obtain ⟨honce, -⟩ := hready.notified_once hcourse.routine hidle hempty hentry
  have hnotices : (trace.filterMap noticeAt?).map Prod.snd = deliveries (queue.run moves).2 := by
    rw [map_snd_notices, ← hevents, run_receipts, if_pos hobserved]
  rw [← hnotices, List.map_map, List.count, List.countP_map, List.countP_eq_length_filter] at honce
  exact honce

theorem Passage.noticesOf_eq {time : Instant} {notice : Notice μ ρ} (hid : notice.id = entry.id)
    (htold : (time, .notified notice) ∈ trace) : noticesOf trace entry.id = [(time, notice)] := by
  obtain ⟨only, honly⟩ := List.length_eq_one_iff.mp (h.length_noticesOf hready hobserved hempty hentry)
  have hmem : (time, notice) ∈ noticesOf trace entry.id :=
    List.mem_filter.mpr ⟨List.mem_filterMap.mpr ⟨_, htold, rfl⟩, beq_iff_eq.mpr hid⟩
  rw [honly, List.mem_singleton] at hmem
  rw [honly, hmem]

end Passage

-- How one message ends. If its processor reports it before the given time, that is accepted and the
-- only notice of it. If not, the only notice is the given one, and a report that comes later is refused.
structure Ending (trace : List (Instant × Event μ ρ)) (finish : Instant) (entry : Entry μ)
    (completion? : Option (Instant × Outcome × Option ρ)) (limit : Instant × Outcome) : Prop where
  reported : ∀ own ∈ completion?, own.1 < limit.1 →
    noticesOf trace entry.id = [(own.1, entry.notice own.2.1 own.2.2)] ∧
      stamp own.1 (entry.acceptance own.2.1 own.2.2) <:+: trace
  ended : (∀ own ∈ completion?, limit.1 < own.1) →
    noticesOf trace entry.id = [(limit.1, entry.notice limit.2 none)] ∧
      ∀ own ∈ completion?, own.1 < finish → stamp own.1 (entry.id.refusal own.2.1) <:+: trace

theorem mem_of_acceptance {trace : List (Instant × Event μ ρ)} {time : Instant} {entry : Entry μ} {outcome : Outcome}
    {reason : Option ρ} (h : stamp time (entry.acceptance outcome reason) <:+: trace) :
    (time, .notified (entry.notice outcome reason)) ∈ trace :=
  h.subset (List.mem_map_of_mem (by simp [Entry.acceptance]))

end Simulation

namespace Pacer

-- The times of the ticks of a run.
def ticks (pacer : Pacer) (start finish : Instant) : List Instant :=
  (List.range ((finish - start).toNat / pacer.interval + 1)).map (nthTick start pacer.interval)

-- When and how a message ends in a run that nobody reports. The first tick that finds it overdue
-- times it out, and if there is none it is cancelled at the end.
def verdict (pacer : Pacer) (limits : Limits) (start finish : Instant) (entry : Entry μ) : Instant × Outcome :=
  match (pacer.ticks start finish).find? fun time => limits.overdue time entry with
  | some time => (time, .timeout)
  | none => (finish, .cancelled)

section verdict

variable {pacer : Pacer} (positive : 0 < pacer.interval) {limits : Limits} {start finish : Instant} (h : start ≤ finish)
include positive h

theorem verdict_cases (limits : Limits) (entry : Entry μ) :
    (∃ k, nthTick start pacer.interval k ≤ finish ∧ limits.overdue (nthTick start pacer.interval k) entry = true ∧
        (∀ j < k, limits.overdue (nthTick start pacer.interval j) entry = false) ∧
        pacer.verdict limits start finish entry = (nthTick start pacer.interval k, .timeout)) ∨
      (∀ k, nthTick start pacer.interval k ≤ finish → limits.overdue (nthTick start pacer.interval k) entry = false) ∧
        pacer.verdict limits start finish entry = (finish, .cancelled) := by
  unfold verdict ticks
  rw [List.find?_map]
  cases hfind : (List.range ((finish - start).toNat / pacer.interval + 1)).find?
      ((fun time => limits.overdue time entry) ∘ nthTick start pacer.interval) with
  | some k =>
      obtain ⟨hoverdue, hmem, hearlier⟩ := List.find?_range_eq_some.mp hfind
      refine .inl ⟨k, (nthTick_le_iff positive h k).mpr hmem, hoverdue, fun j hj => ?_, rfl⟩
      simpa using hearlier j hj
  | none =>
      refine .inr ⟨fun k hk => ?_, rfl⟩
      have hnone := List.find?_eq_none.mp hfind k ((nthTick_le_iff positive h k).mp hk)
      simpa using hnone

-- A report that comes before the verdict is accepted. Otherwise the verdict is carried out.
theorem ending_of_fate {entry : Entry μ} {completion? : Option (Instant × Outcome × Option ρ)}
    {trace : List (Instant × Event μ ρ)} (hfate : Fate limits pacer.interval start finish entry completion? trace)
    (honce : ∀ time outcome reason, (time, .notified (entry.notice outcome reason)) ∈ trace →
      noticesOf trace entry.id = [(time, entry.notice outcome reason)]) :
    Ending trace finish entry completion? (pacer.verdict limits start finish entry) := by
  rcases verdict_cases positive h limits entry with ⟨k, hk, hoverdue, hearlier, hverdict⟩ | ⟨honTime, hverdict⟩
  · rw [hverdict]
    constructor
    · intro own hown hbefore
      have honTime (j : Nat) (hj : nthTick start pacer.interval j ≤ own.1) :
          limits.overdue (nthTick start pacer.interval j) entry = false := by
        refine hearlier j ?_
        by_contra hlater
        have hmono := nthTick_mono start pacer.interval (Nat.not_lt.mp hlater)
        exact absurd (Int.lt_of_le_of_lt hj hbefore) (Int.not_lt.mpr hmono)
      have haccepted := hfate.accepted own hown (Int.lt_of_lt_of_le hbefore hk) honTime
      exact ⟨honce own.1 own.2.1 own.2.2 (mem_of_acceptance haccepted), haccepted⟩
    · intro hlater
      obtain ⟨htold, hrefused⟩ := hfate.timedOut k hk hoverdue hearlier hlater
      exact ⟨honce _ .timeout none htold, hrefused⟩
  · rw [hverdict]
    constructor
    · intro own hown hbefore
      have haccepted := hfate.accepted own hown hbefore fun k hk => honTime k (Int.le_trans hk (Int.le_of_lt hbefore))
      exact ⟨honce own.1 own.2.1 own.2.2 (mem_of_acceptance haccepted), haccepted⟩
    · intro hlater
      refine ⟨honce finish .cancelled none (hfate.cancelled honTime hlater), fun own hown hbefore => ?_⟩
      exact absurd hbefore (Int.not_lt.mpr (Int.le_of_lt (hlater own hown)))

end verdict

-- How every message ends that is tracked when a run starts. One that has waited too long by then is
-- timed out at once and never handed to the processor. Every other one is notified of once: as its
-- processor reports it, if that comes before the verdict of the run, and as the verdict says if not.
-- A report that comes later is refused, and so is every token that is still out at the end.
theorem run_fates (pacer : Pacer) (shutdownAfter : Duration) (world : World μ ρ) (queue : Queue μ ρ)
    (hreached : Reached world queue) (hinterval : 0 < pacer.interval)
    (hclear : ∀ k : Nat, k * pacer.interval ≠ shutdownAfter)
    (hdeadline : (Instant.after? (world.now + shutdownAfter) pacer.grace).isSome = true) :
    ∃ last final trace,
      pacer.run shutdownAfter world queue = .ok (last, final) ∧ Passage world queue trace last final ∧
      (∀ entry ∈ queue.tracked, (noticesOf trace entry.id).length = 1) ∧
      (∀ entry ∈ queue.pending.entries, queue.limits.late world.now entry = true →
        noticesOf trace entry.id = [(world.now, entry.notice .timeout none)] ∧
          ∀ issue ∈ dispatches (trace.map Prod.snd), issue.1.id ≠ entry.id) ∧
      (∀ entry ∈ queue.inProgress.entries ++ (queue.pending.entries.filter fun entry =>
            !queue.limits.late world.now entry).map fun entry => { entry with startedAt := some world.now },
        ∃ start, entry.startedAt = some start ∧
          Ending trace last.now entry ((world.behaviour entry.message).completion? start)
            (pacer.verdict queue.limits world.now last.now entry)) ∧
      final.isEmpty = true ∧
      ∀ token ∈ final.held, ∀ later : List (Move μ ρ),
        let outside := (final.run later).1
        outside.turn = .user → token ∈ outside.held → ∀ outcome reason, ∃ record,
          outside.step (.call (.complete token outcome reason)) =
            ({ outside with held := outside.held.erase token }, [.log record, .returned (.delivered false)]) := by
  have hshutdown : 0 < shutdownAfter := by
    refine Nat.pos_of_ne_zero fun hzero => hclear 0 ?_
    rw [hzero, Nat.zero_mul]
  have hclear (k : Nat) : nthTick world.now pacer.interval k ≠ world.now + shutdownAfter := by
    intro hsame
    exact hclear k (Int.ofNat_inj.mp (Int.add_left_cancel hsame))
  have hfits := hreached.fits
  obtain ⟨last, final, trace, hrun, ⟨hpassage, hlast, hempty, houtlook⟩, hfinish, hdispatched, hlate, hfates⟩ :=
    run_ends hinterval hfits hshutdown hdeadline
  have honce (entry : Entry μ) (hentry : entry ∈ queue.tracked) (time : Instant) (notice : Notice μ ρ)
      (hid : notice.id = entry.id) : (time, .notified notice) ∈ trace → noticesOf trace entry.id = [(time, notice)] :=
    hpassage.noticesOf_eq hfits.ready hfits.served.observed hempty hentry hid
  obtain ⟨admitted, past, hs⟩ := hfits.ready.reachable.sound
  refine ⟨last, final, trace, hrun, hpassage, fun entry hentry => ?_, ?_, ?_, hempty, ?_⟩
  · exact hpassage.length_noticesOf hfits.ready hfits.served.observed hempty hentry
  · intro entry hentry hoverdue
    refine ⟨honce entry (List.mem_append_left _ hentry) _ _ rfl (hlate entry hentry hoverdue), ?_⟩
    rw [hdispatched]
    intro issue hissue
    obtain ⟨slot, hslot, rfl⟩ := List.mem_map.mp hissue
    exact id_ne_of_mem_handed hs hentry hoverdue hslot
  · intro entry hentry
    rcases List.mem_append.mp hentry with hentry | hentry
    · obtain ⟨slot, hslot, rfl⟩ := List.mem_map.mp hentry
      obtain ⟨start, -, hstart, -⟩ := hs.ordered.inProgress.stamped slot hslot
      have hfate := (houtlook hclear).fate hfits hslot hstart
      exact ⟨start, hstart, ending_of_fate hinterval hfinish hfate fun time outcome reason =>
        honce slot.entry (List.mem_append_right _ (List.mem_map_of_mem hslot)) time _ rfl⟩
    · rw [← entries_handed] at hentry
      obtain ⟨slot, hslot, rfl⟩ := List.mem_map.mp hentry
      obtain ⟨waiting, hwaiting, -, hsame⟩ := exists_of_mem_handed hslot
      have hfate := hfates hclear slot hslot
      rw [hsame] at hfate ⊢
      exact ⟨world.now, rfl, ending_of_fate hinterval hfinish hfate fun time outcome reason =>
        honce waiting (List.mem_append_left _ hwaiting) time _ rfl⟩
  · intro token htoken later outside hturn hheld outcome reason
    obtain ⟨_, _, hs⟩ := hlast.ready.reachable.sound
    rw [isEmpty, Bool.and_eq_true] at hempty
    exact hs.refuses_run (List.isEmpty_iff.mp hempty.2) htoken later hturn hheld outcome reason

-- The first of three messages is handed over before the other two are there. It and the second are
-- to be reported, and the token of the third is kept.
def answering : World String String where
  behaviour message :=
    if message = "slow" then .reportAfter 33 .success none
    else if message = "quick" then .reportAfter 15 .success (some "done")
    else .keep

def threeTracked : World String String × Queue String String :=
  let first := answering.call (make { limits := { processing := some 30 } } true) (.enqueue "slow")
  let ticked := first.1.call first.2 .tick
  let later := ticked.1.passTo ticked.2 10
  let second := later.1.call later.2 (.enqueue "quick")
  second.1.call second.2 (.enqueue "kept")

-- The first is late at the third tick of the run, the second is reported in time, and the third is
-- still there at the end.
theorem run_fates_threeTracked :
    Reached threeTracked.1 threeTracked.2 ∧ ∃ last final trace,
      Pacer.run { interval := 10 } 25 threeTracked.1 threeTracked.2 = .ok (last, final) ∧
      Passage threeTracked.1 threeTracked.2 trace last final ∧
      noticesOf trace ⟨0⟩ = [(30, { id := ⟨0⟩, message := "slow", outcome := .timeout, reason := none })] ∧
      stamp 33 (MessageId.refusal ⟨0⟩ .success) <:+: trace ∧
      noticesOf trace ⟨1⟩ = [(25, { id := ⟨1⟩, message := "quick", outcome := .success, reason := some "done" })] ∧
      noticesOf trace ⟨2⟩ = [(35, { id := ⟨2⟩, message := "kept", outcome := .cancelled, reason := none })] := by
  have hreached : Reached threeTracked.1 threeTracked.2 := by
    have hstart : Reached answering (make { limits := { processing := some 30 } } true) := .start _ _ _
    have hticked := (hstart.perform id (.enqueue "slow") rfl).perform id .tick rfl
    exact ((hticked.perform id (.sleep 10) rfl).perform id (.enqueue "quick") rfl).perform id (.enqueue "kept") rfl
  have hclear (k : Nat) : k * 10 ≠ 25 := by omega
  obtain ⟨last, final, trace, hrun, hpassage, -, -, hendings, -, -⟩ :=
    run_fates { interval := 10 } 25 threeTracked.1 threeTracked.2 hreached (by decide) hclear (by decide)
  have hlast : last.now = 35 := by
    have hnow : (Pacer.run { interval := 10 } 25 threeTracked.1 threeTracked.2).map (·.1.now) = .ok 35 := by
      decide +kernel
    rw [hrun] at hnow
    exact Except.ok.inj hnow
  rw [hlast] at hendings
  obtain ⟨_, ⟨⟩, hslow⟩ :=
    hendings { id := ⟨0⟩, message := "slow", enqueuedAt := 0, startedAt := some 0 } (.head _)
  obtain ⟨_, ⟨⟩, hquick⟩ :=
    hendings { id := ⟨1⟩, message := "quick", enqueuedAt := 10, startedAt := some 10 } (.tail _ (.head _))
  obtain ⟨_, ⟨⟩, hkept⟩ :=
    hendings { id := ⟨2⟩, message := "kept", enqueuedAt := 10, startedAt := some 10 } (.tail _ (.tail _ (.head _)))
  obtain ⟨hslowNotice, hslowRefused⟩ := hslow.ended (by rintro _ ⟨⟩; decide)
  exact ⟨hreached, last, final, trace, hrun, hpassage, hslowNotice, hslowRefused _ rfl (by decide),
    (hquick.reported _ rfl (by decide)).1, (hkept.ended (by rintro _ ⟨⟩)).1⟩

end Pacer

end DeadlineQueue
