import DeadlineQueue.Proofs.Fates

namespace DeadlineQueue

open Simulation Queue

variable {μ ρ : Type}

namespace Simulation

-- What becomes of the reports of messages in progress while a queue is ticked at the given times and not
-- drained. A report is accepted, or it is still to come and its message is still in progress, unless a
-- tick before it has found the message overdue.
structure Hears (world : World μ ρ) (queue : Queue μ ρ) (times : List Instant) (trace : List (Instant × Event μ ρ))
    (next : World μ ρ) (after : Queue μ ρ) : Prop where
  passage : Passage world queue trace next after
  fits : Fits next after
  behaviour : next.behaviour = world.behaviour
  limits : after.limits = queue.limits
  heard : ∀ slot ∈ queue.inProgress.slots, ∀ report ∈ world.reports, report.token.key = slot.key →
    (∀ time ∈ times, time < report.due → queue.limits.overdue time slot.entry = false) →
    stamp report.due (slot.entry.acceptance report.outcome report.reason) <:+: trace ∨
      slot ∈ after.inProgress.slots ∧ report ∈ next.reports

namespace Hears

variable {world next : World μ ρ} {queue after : Queue μ ρ} {times : List Instant}
  {trace : List (Instant × Event μ ρ)}

theorem refl (h : Fits world queue) : Hears world queue [] [] world queue where
  passage := .refl world h.ready
  fits := h
  behaviour := rfl
  limits := rfl
  heard := fun _ hslot _ hreport _ _ => .inr ⟨hslot, hreport⟩

theorem trans {last : World μ ρ} {final : Queue μ ρ} {others : List Instant} {later : List (Instant × Event μ ρ)}
    (h : Hears world queue times trace next after) (hlater : Hears next after others later last final) :
    Hears world queue (times ++ others) (trace ++ later) last final where
  passage := h.passage.trans hlater.passage
  fits := hlater.fits
  behaviour := hlater.behaviour.trans h.behaviour
  limits := hlater.limits.trans h.limits
  heard := by
    intro slot hslot report hreport hkey honTime
    obtain ⟨hfirst, hsecond⟩ := List.forall_mem_append.mp honTime
    rcases h.heard slot hslot report hreport hkey hfirst with htold | ⟨hslot, hreport⟩
    · exact .inl (htold.trans (List.prefix_append _ _).isInfix)
    · rw [← h.limits] at hsecond
      exact (hlater.heard slot hslot report hreport hkey hsecond).imp_left
        fun htold => htold.trans (List.suffix_append _ _).isInfix

-- What is logged beside the queue does not count.
theorem logged (h : Hears world queue times trace next after) (record : Record) :
    Hears world queue times trace (next.note (.log record)) after where
  passage := h.passage.aside ⟨rfl, rfl, rfl⟩ (by simp)
  fits := h.fits.aside rfl rfl rfl
  behaviour := h.behaviour
  limits := h.limits
  heard := h.heard

theorem of_logged {record : Record} (h : Hears (world.note (.log record)) queue times trace next after) :
    Hears world queue times trace next after where
  passage := h.passage.aside (by simp) ⟨rfl, rfl, rfl⟩
  fits := h.fits
  behaviour := h.behaviour
  limits := h.limits
  heard := h.heard

-- A report that is no longer to come has been accepted.
theorem accepted (h : Hears world queue times trace next after) (hfits : Fits world queue) {finish : Instant}
    (hahead : ∀ report ∈ next.reports, finish < report.due) {slot : Slot μ} (hslot : slot ∈ queue.inProgress.slots)
    {start : Instant} (hstart : slot.entry.startedAt = some start) {own : Instant × Outcome × Option ρ}
    (hown : own ∈ (world.behaviour slot.entry.message).completion? start) (hdue : own.1 ≤ finish)
    (honTime : ∀ time ∈ times, time < own.1 → queue.limits.overdue time slot.entry = false) :
    stamp own.1 (slot.entry.acceptance own.2.1 own.2.2) <:+: trace := by
  obtain ⟨report, hreport, htoken, hsame, houtcome, hreason⟩ := hfits.exists_report hslot hstart hown
  rw [← hsame] at hdue honTime ⊢
  rw [← houtcome, ← hreason]
  rcases h.heard slot hslot report hreport (by rw [htoken]; rfl) honTime with htold | ⟨-, hleft⟩
  · exact htold
  · exact absurd hdue (Int.not_le.mpr (hahead report hleft))

end Hears

section Fits

variable {world : World μ ρ} {queue : Queue μ ρ} (h : Fits world queue)
include h

-- As time goes on, the reports that fall due are accepted.
theorem Fits.passTo_hears (time : Instant) :
    ∃ trace, Hears world queue [] trace (world.passTo queue time).1 (world.passTo queue time).2 ∧
      (∀ report ∈ (world.passTo queue time).1.reports, time < report.due) ∧
      (world.passTo queue time).2.pending = queue.pending := by
  obtain ⟨trace, next, after, hpass, hpassage, hfits, -, hbehaviour, hreports, hpassed⟩ := h.passTo time
  rw [hpass]
  refine ⟨trace, ⟨hpassage, hfits, hbehaviour, hpassed.limits, ?_⟩, ?_, hpassed.pending⟩
  · intro slot hslot report hreport hkey _
    refine (hpassed.accepted_or_kept hslot h hreport hkey).imp_right fun ⟨hahead, hkept⟩ => ⟨hkept, ?_⟩
    rw [hreports, List.mem_filter]
    exact ⟨hreport, decide_eq_true hahead⟩
  · intro report hreport
    rw [hreports] at hreport
    exact of_decide_eq_true (List.mem_filter.mp hreport).2

end Fits

end Simulation

namespace Pacer

section tickAt

variable {world : World μ ρ} {queue : Queue μ ρ} (h : Fits world queue) (time : Instant)
include h

-- A tick at some time. The messages that it hands over are reported in it, or they are in progress after it.
theorem tickAt_hears :
    ∃ trace, Hears world queue [time] trace (tickAt world queue time).1 (tickAt world queue time).2 ∧
      (tickAt world queue time).2.pending.entries = [] ∧
      (queue.pending.entries = [] → ∀ report ∈ (tickAt world queue time).1.reports, time < report.due) ∧
      ∀ slot ∈ queue.handed time,
        (∀ outcome reason, world.behaviour slot.entry.message = .reportNow outcome reason →
          stamp time (slot.entry.acceptance outcome reason) <:+: trace) ∧
        ((world.behaviour slot.entry.message).reports = false →
          slot ∈ (tickAt world queue time).2.inProgress.slots) := by
  obtain ⟨before, arrived, waiting, hpass, hpassage, harrived, hnow, hbehaviour, hreports, hpassed⟩ := h.passTo time
  obtain ⟨events, after, hruns, hticked, hfits⟩ := harrived.tick
  have htick : tickAt world queue time = (events.foldl World.observe arrived, after) := by
    unfold tickAt
    rw [hpass]
    exact hruns.eq
  have hhanded : waiting.handed arrived.now = queue.handed time := by
    rw [handed, handed, hnow, hpassed.limits, hpassed.pending, hpassed.nextKey]
  rw [htick]
  refine ⟨before ++ stamp arrived.now events, ⟨hpassage.trans (hruns.passage rfl), hfits, ?_, ?_, ?_⟩,
    hticked.pending, ?_, ?_⟩
  · rw [World.behaviour_observe, hbehaviour]
  · rw [hticked.limits, hpassed.limits]
  · intro slot hslot report hreport hkey honTime
    rcases hpassed.accepted_or_kept hslot h hreport hkey with htold | ⟨hahead, hkept⟩
    · exact .inl (htold.trans (List.prefix_append _ _).isInfix)
    · have hnext : report ∈ arrived.reports := by
        rw [hreports, List.mem_filter]
        exact ⟨hreport, decide_eq_true hahead⟩
      have hfresh : waiting.limits.overdue arrived.now slot.entry = false := by
        rw [hpassed.limits, hnow]
        exact honTime time (List.mem_singleton_self time) hahead
      exact .inr ⟨(hticked.mem_slots harrived.ordered hkept).1 hfresh, hticked.mem_reports.1 report hnext⟩
  · intro hnone report hreport
    have hundispatched : dispatches events = [] := by
      rw [hticked.dispatched, handed, hpassed.pending, hnone]
      rfl
    rw [World.reports_of_undispatched _ hundispatched, hreports] at hreport
    exact of_decide_eq_true (List.mem_filter.mp hreport).2
  · intro slot hslot
    rw [← hhanded] at hslot
    rw [← hbehaviour]
    refine ⟨fun outcome reason hreported => ?_, fun hparked => ?_⟩
    · rw [← hnow]
      exact ((hticked.accepted slot hslot outcome reason hreported).map _).trans (List.suffix_append _ _).isInfix
    · rw [hticked.inProgress]
      exact List.mem_append_right _ (arrived.mem_parked.mpr ⟨hslot, hparked⟩)

end tickAt

end Pacer

end DeadlineQueue
