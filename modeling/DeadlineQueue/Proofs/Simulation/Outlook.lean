import DeadlineQueue.Proofs.Simulation.Passage

namespace DeadlineQueue

variable {μ ρ : Type}

-- Whether an entry has waited too long, and whether it is past one of the two deadlines.
def Limits.late (limits : Limits) (now : Instant) (entry : Entry μ) : Bool :=
  limits.waitDeadline.any fun deadline => deadline ≤ elapsed entry.enqueuedAt now

def Limits.overdue (limits : Limits) (now : Instant) (entry : Entry μ) : Bool :=
  limits.late now entry ||
    limits.processingDeadline.any fun deadline => entry.startedAt.any fun start => deadline ≤ elapsed start now

-- A sweep finds the overdue entries among those in progress, and what has waited too long.
theorem lapses_inProgress (limits : Limits) (now : Instant) (entry : Entry μ) :
    lapses limits.scans now .inProgress entry = limits.overdue now entry := by
  unfold lapses Limits.scans Limits.overdue Limits.late
  cases limits.waitDeadline <;> cases limits.processingDeadline <;> cases hstart : entry.startedAt <;>
    simp [Scan.overdue, Entry.since, hstart]

theorem lapses_pending (limits : Limits) (now : Instant) (entry : Entry μ) :
    lapses limits.scans now .pending entry = limits.late now entry := by
  unfold lapses Limits.scans Limits.late
  cases limits.waitDeadline <;> cases limits.processingDeadline <;> simp [Scan.overdue, Entry.since]

-- The time of a tick, counted from the next one.
def nthTick (next : Instant) (interval k : Nat) : Instant :=
  next + (k * interval : Nat)

@[simp] theorem nthTick_zero (next : Instant) (interval : Nat) : nthTick next interval 0 = next := by
  simp [nthTick]

theorem nthTick_succ (next : Instant) (interval k : Nat) :
    nthTick next interval (k + 1) = nthTick (next + interval) interval k := by
  simp only [nthTick, Nat.succ_mul, Nat.cast_add]
  simp only [Instant] at *
  omega

theorem le_nthTick (next : Instant) (interval k : Nat) : next ≤ nthTick next interval k :=
  Int.le_add_of_nonneg_right (Int.natCast_nonneg _)

theorem nthTick_mono (start : Instant) (interval : Nat) {j k : Nat} (h : j ≤ k) :
    nthTick start interval j ≤ nthTick start interval k :=
  Int.add_le_add_left (Int.ofNat_le.mpr (Nat.mul_le_mul_right interval h)) start

theorem nthTick_le_iff {interval : Nat} (positive : 0 < interval) {start finish : Instant} (h : start ≤ finish)
    (k : Nat) :
    nthTick start interval k ≤ finish ↔ k ∈ List.range ((finish - start).toNat / interval + 1) := by
  rw [List.mem_range, Nat.lt_succ_iff, Nat.le_div_iff_mul_le positive, nthTick]
  simp only [Instant] at *
  omega

namespace Simulation

open Queue

-- What is to be told of the messages in progress while a queue is ticked at a fixed interval up to
-- some time and drained then. A message is reported, timed out by the first tick that finds it
-- overdue, or cancelled, whatever comes first, and a report that comes later is refused.
structure Outlook (world : World μ ρ) (queue : Queue μ ρ) (interval : Nat) (next finish : Instant)
    (trace : List (Instant × Event μ ρ)) : Prop where
  accepted : ∀ slot ∈ queue.inProgress.slots, ∀ report ∈ world.reports, report.token.key = slot.key →
    report.due < finish →
    (∀ k, nthTick next interval k ≤ report.due → queue.limits.overdue (nthTick next interval k) slot.entry = false) →
    stamp report.due (slot.entry.acceptance report.outcome report.reason) <:+: trace
  timedOut : ∀ slot ∈ queue.inProgress.slots, ∀ k, nthTick next interval k ≤ finish →
    queue.limits.overdue (nthTick next interval k) slot.entry = true →
    (∀ j < k, queue.limits.overdue (nthTick next interval j) slot.entry = false) →
    (∀ report ∈ world.reports, report.token.key = slot.key → nthTick next interval k < report.due) →
    (nthTick next interval k, .notified (slot.entry.notice .timeout none)) ∈ trace ∧
      ∀ report ∈ world.reports, report.token.key = slot.key → report.due < finish →
        stamp report.due (report.token.id.refusal report.outcome) <:+: trace
  cancelled : ∀ slot ∈ queue.inProgress.slots,
    (∀ k, nthTick next interval k ≤ finish → queue.limits.overdue (nthTick next interval k) slot.entry = false) →
    (∀ report ∈ world.reports, report.token.key = slot.key → finish < report.due) →
    (finish, .notified (slot.entry.notice .cancelled none)) ∈ trace
  refused : ∀ report ∈ world.reports, (∀ slot ∈ queue.inProgress.slots, report.token.key ≠ slot.key) →
    report.due < finish → stamp report.due (report.token.id.refusal report.outcome) <:+: trace

-- The reports that a tick adds are of messages that it has handed over.
theorem Ticked.mem_reports {world : World μ ρ} {queue after : Queue μ ρ} {events : List (Event μ ρ)}
    (h : Ticked world queue events after) :
    (∀ report ∈ world.reports, report ∈ (events.foldl World.observe world).reports) ∧
      ∀ report ∈ (events.foldl World.observe world).reports,
        report ∈ world.reports ∨ queue.nextKey ≤ report.token.key := by
  have hperm := World.perm_scheduleAll (promises world queue) world.reports
  rw [h.reports]
  refine ⟨fun report hreport => hperm.mem_iff.mpr (List.mem_append_left _ hreport), fun report hreport => ?_⟩
  exact (List.mem_append.mp (hperm.mem_iff.mp hreport)).imp_right nextKey_le_of_mem_promises

-- Of the messages in progress a tick keeps those that are not overdue.
theorem Ticked.mem_slots {world : World μ ρ} {queue after : Queue μ ρ} {events : List (Event μ ρ)}
    (h : Ticked world queue events after) (hordered : queue.Ordered) {slot : Slot μ}
    (hslot : slot ∈ queue.inProgress.slots) :
    (queue.limits.overdue world.now slot.entry = false → slot ∈ after.inProgress.slots) ∧
      (queue.limits.overdue world.now slot.entry = true → ∀ other ∈ after.inProgress.slots, slot.key ≠ other.key) := by
  rw [h.inProgress]
  simp only [lapses_inProgress]
  constructor
  · intro honTime
    exact List.mem_append_left _ (List.mem_filter.mpr ⟨hslot, by simp [honTime]⟩)
  · intro hoverdue other hother hkey
    rcases List.mem_append.mp hother with hother | hother
    · obtain ⟨hother, honTime⟩ := List.mem_filter.mp hother
      obtain rfl := hordered.inProgress.eq_of_key_eq hslot hother hkey
      simp [hoverdue] at honTime
    · have hmore := (key_of_mem_startedAt (world.mem_parked.mp hother).1).1
      exact absurd (hordered.inProgressKeys slot hslot) (Nat.not_lt.mpr (hkey ▸ hmore))

namespace Outlook

variable {world next : World μ ρ} {queue after : Queue μ ρ} {interval : Nat} {tick finish : Instant}
  {trace later : List (Instant × Event μ ρ)}

theorem aside {world' : World μ ρ} (h : Outlook world queue interval tick finish trace)
    (hreports : world'.reports = world.reports) : Outlook world' queue interval tick finish trace := by
  constructor
  · rw [hreports]; exact h.accepted
  · rw [hreports]; exact h.timedOut
  · rw [hreports]; exact h.cancelled
  · rw [hreports]; exact h.refused

-- At the end all that is still in progress is cancelled.
theorem drained {events : List (Event μ ρ)} (hfits : Fits world queue) (htick : world.now < tick)
    (htold : ∀ entry ∈ queue.tracked, .notified (entry.notice .cancelled none) ∈ events) :
    Outlook world queue interval tick world.now (stamp world.now events) where
  accepted := fun _ _ report hreport _ hdue => absurd hdue (Int.not_lt.mpr (hfits.ahead report hreport))
  timedOut := fun _ _ k hk =>
    absurd (Int.lt_of_lt_of_le htick (le_nthTick tick interval k)) (Int.not_lt.mpr hk)
  cancelled := fun slot hslot _ _ =>
    List.mem_map_of_mem (htold slot.entry (List.mem_append_right _ (List.mem_map_of_mem hslot)))
  refused := fun report hreport _ hdue => absurd hdue (Int.not_lt.mpr (hfits.ahead report hreport))

-- While time goes on to the next tick at most, the reports that fall due are made.
theorem passed {time : Instant} (hfits : Fits world queue)
    (hnext : next.reports = world.reports.filter fun report => time < report.due)
    (hpassed : Passed queue (world.reports.filter fun report => report.due ≤ time) trace after)
    (htick : time ≤ tick) (hfinish : time ≤ finish) (h : Outlook next after interval tick finish later) :
    Outlook world queue interval tick finish (trace ++ later) := by
  have hleft : ∀ report ∈ world.reports, time < report.due → report ∈ next.reports := by
    intro report hreport hdue
    rw [hnext, List.mem_filter]
    exact ⟨hreport, decide_eq_true hdue⟩
  have hsubset : ∀ report ∈ next.reports, report ∈ world.reports := by
    intro report hreport
    rw [hnext] at hreport
    exact (List.mem_filter.mp hreport).1
  have hgone : ∀ slot ∈ after.inProgress.slots, slot ∈ queue.inProgress.slots := by
    rw [hpassed.slots]
    exact fun slot hslot => (List.mem_filter.mp hslot).1
  obtain ⟨haccepted, htimedOut, hcancelled, hrefused⟩ := h
  simp only [hpassed.limits] at haccepted htimedOut hcancelled
  have hfirst {events : List (Instant × Event μ ρ)} (hevents : events <:+: trace) : events <:+: trace ++ later :=
    hevents.trans (List.prefix_append _ _).isInfix
  have hsecond {events : List (Instant × Event μ ρ)} (hevents : events <:+: later) : events <:+: trace ++ later :=
    hevents.trans (List.suffix_append _ _).isInfix
  constructor
  · intro slot hslot report hreport hkey hdue honTime
    rcases hpassed.accepted_or_kept hslot hfits hreport hkey with htold | ⟨hahead, hkept⟩
    · exact hfirst htold
    · exact hsecond (haccepted slot hkept report (hleft report hreport hahead) hkey hdue honTime)
  · intro slot hslot k hk hoverdue hearlier hlater
    have hahead : ∀ report ∈ world.reports, report.token.key = slot.key → time < report.due :=
      fun report hreport hkey =>
        Int.lt_of_le_of_lt (Int.le_trans htick (le_nthTick tick interval k)) (hlater report hreport hkey)
    obtain ⟨htold, hrefuse⟩ := htimedOut slot (hpassed.mem_slots hslot hahead) k hk hoverdue hearlier
      fun report hreport => hlater report (hsubset report hreport)
    refine ⟨List.mem_append_right _ htold, fun report hreport hkey hdue => ?_⟩
    exact hsecond (hrefuse report (hleft report hreport (hahead report hreport hkey)) hkey hdue)
  · intro slot hslot honTime hlater
    have hahead : ∀ report ∈ world.reports, report.token.key = slot.key → time < report.due :=
      fun report hreport hkey => Int.lt_of_le_of_lt hfinish (hlater report hreport hkey)
    exact List.mem_append_right _ (hcancelled slot (hpassed.mem_slots hslot hahead) honTime
      fun report hreport => hlater report (hsubset report hreport))
  · intro report hreport hnone hdue
    by_cases hpast : report.due ≤ time
    · exact hfirst (hpassed.refused report (List.mem_filter.mpr ⟨hreport, decide_eq_true hpast⟩) hnone)
    · exact hsecond (hrefused report (hleft report hreport (Int.not_le.mp hpast))
        (fun slot hslot => hnone slot (hgone slot hslot)) hdue)

-- A tick times out what it finds overdue, and the rest goes on to the tick after it.
theorem ticked {events : List (Event μ ρ)} (hfits : Fits world queue) (hticked : Ticked world queue events after)
    (hfinish : world.now ≤ finish)
    (h : Outlook (events.foldl World.observe world) after interval (world.now + interval) finish later) :
    Outlook world queue interval world.now finish (stamp world.now events ++ later) := by
  obtain ⟨hreports, hadded⟩ := hticked.mem_reports
  have hkeys := hfits.ordered.inProgressKeys
  have hsubset : ∀ slot ∈ queue.inProgress.slots, ∀ report ∈ (events.foldl World.observe world).reports,
      report.token.key = slot.key → report ∈ world.reports := by
    intro slot hslot report hreport hkey
    rcases hadded report hreport with hreport | hmore
    · exact hreport
    · exact absurd (hkeys slot hslot) (Nat.not_lt.mpr (hkey ▸ hmore))
  obtain ⟨haccepted, htimedOut, hcancelled, hrefused⟩ := h
  simp only [hticked.limits] at haccepted htimedOut hcancelled
  simp only [← nthTick_succ] at haccepted htimedOut hcancelled
  have hsecond {told : List (Instant × Event μ ρ)} (htold : told <:+: later) :
      told <:+: stamp world.now events ++ later := htold.trans (List.suffix_append _ _).isInfix
  constructor
  · intro slot hslot report hreport hkey hdue honTime
    have hnow := honTime 0 (by rw [nthTick_zero]; exact hfits.ahead report hreport)
    rw [nthTick_zero] at hnow
    have hkept := (hticked.mem_slots hfits.ordered hslot).1 hnow
    exact hsecond (haccepted slot hkept report (hreports report hreport) hkey hdue fun k => honTime (k + 1))
  · intro slot hslot k hk hoverdue hearlier hlater
    cases k with
    | zero =>
        rw [nthTick_zero] at hoverdue ⊢
        have hgone := (hticked.mem_slots hfits.ordered hslot).2 hoverdue
        have htold := hticked.timedOut .inProgress slot.entry (List.mem_map_of_mem hslot)
          (by rw [lapses_inProgress]; exact hoverdue)
        refine ⟨List.mem_append_left _ (List.mem_map_of_mem htold), fun report hreport hkey hdue => ?_⟩
        refine hsecond (hrefused report (hreports report hreport) ?_ hdue)
        rw [hkey]
        exact hgone
    | succ k =>
        have hnow := hearlier 0 (Nat.succ_pos k)
        rw [nthTick_zero] at hnow
        have hkept := (hticked.mem_slots hfits.ordered hslot).1 hnow
        obtain ⟨htold, hrefuse⟩ := htimedOut slot hkept k hk hoverdue
          (fun j hj => hearlier (j + 1) (Nat.succ_lt_succ hj))
          fun report hreport hkey => hlater report (hsubset slot hslot report hreport hkey) hkey
        exact ⟨List.mem_append_right _ htold, fun report hreport hkey hdue =>
          hsecond (hrefuse report (hreports report hreport) hkey hdue)⟩
  · intro slot hslot honTime hlater
    have hnow := honTime 0 (by rw [nthTick_zero]; exact hfinish)
    rw [nthTick_zero] at hnow
    have hkept := (hticked.mem_slots hfits.ordered hslot).1 hnow
    exact List.mem_append_right _ (hcancelled slot hkept (fun k => honTime (k + 1))
      fun report hreport hkey => hlater report (hsubset slot hslot report hreport hkey) hkey)
  · intro report hreport hnone hdue
    refine hsecond (hrefused report (hreports report hreport) ?_ hdue)
    intro slot hslot hkey
    rw [hticked.inProgress, List.mem_append] at hslot
    rcases hslot with hslot | hslot
    · exact hnone slot (List.mem_filter.mp hslot).1 hkey
    · have hless := hfits.ready.held_lt _ (hfits.outstanding.held report hreport)
      have hmore := (key_of_mem_startedAt (world.mem_parked.mp hslot).1).1
      exact absurd hless (Nat.not_lt.mpr (hkey ▸ hmore))

end Outlook

end Simulation

end DeadlineQueue
