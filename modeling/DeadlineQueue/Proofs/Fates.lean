import DeadlineQueue.Proofs.Endings

namespace DeadlineQueue

open Simulation Queue

variable {μ ρ : Type}

namespace Simulation

-- When and how a message is reported that was handed over at the given time, if it ever is.
def Behaviour.completion? (start : Instant) : Behaviour ρ → Option (Instant × Outcome × Option ρ)
  | keep | drop => none
  | reportNow outcome reason => some (start, outcome, reason)
  | reportAfter wait outcome reason => some (start + wait, outcome, reason)

-- The report that is to come is the one that the behaviour of the message says.
theorem exists_promise {behaviour : μ → Behaviour ρ} {start : Instant} {issue : Token × μ}
    (hparked : (behaviour issue.2).reports = false) {own : Instant × Outcome × Option ρ}
    (hown : own ∈ (behaviour issue.2).completion? start) :
    promise behaviour start issue =
      some { due := own.1, token := issue.1, message := issue.2, outcome := own.2.1, reason := own.2.2 } := by
  unfold promise
  cases hbehaviour : behaviour issue.2 with
  | keep | drop => simp [hbehaviour, Behaviour.completion?] at hown
  | reportNow => simp [hbehaviour, Behaviour.reports] at hparked
  | reportAfter wait outcome reason =>
      rw [hbehaviour, Behaviour.completion?, Option.mem_def, Option.some.injEq] at hown
      subst hown
      rfl

theorem completion_of_promise {behaviour : μ → Behaviour ρ} {start : Instant} {issue : Token × μ}
    {report : Report μ ρ} (h : promise behaviour start issue = some report) :
    (report.due, report.outcome, report.reason) ∈ (behaviour issue.2).completion? start := by
  unfold promise at h
  split at h
  · rename_i hbehaviour
    obtain rfl := Option.some.inj h
    rw [hbehaviour]
    rfl
  · exact absurd h.symm (Option.some_ne_none report)

-- A message in progress that its processor reports later has its report among those that are to come.
theorem Fits.exists_report {world : World μ ρ} {queue : Queue μ ρ} (h : Fits world queue) {slot : Slot μ}
    (hslot : slot ∈ queue.inProgress.slots) {start : Instant} (hstart : slot.entry.startedAt = some start)
    {own : Instant × Outcome × Option ρ}
    (hown : own ∈ (world.behaviour slot.entry.message).completion? start) :
    ∃ report ∈ world.reports, report.token = slot.issue.1 ∧ report.due = own.1 ∧ report.outcome = own.2.1 ∧
      report.reason = own.2.2 := by
  have hpromise : promise world.behaviour start slot.issue = some _ :=
    exists_promise (h.outstanding.parked slot hslot) hown
  exact ⟨_, ((h.outstanding.promised slot hslot start hstart _).mp hpromise).1, rfl, rfl, rfl, rfl⟩

-- What becomes of one message that has been handed over, while its queue is ticked at a fixed
-- interval up to some time and drained then.
structure Fate (limits : Limits) (interval : Nat) (tick finish : Instant) (entry : Entry μ)
    (completion? : Option (Instant × Outcome × Option ρ)) (trace : List (Instant × Event μ ρ)) : Prop where
  accepted : ∀ own ∈ completion?, own.1 < finish →
    (∀ k, nthTick tick interval k ≤ own.1 → limits.overdue (nthTick tick interval k) entry = false) →
    stamp own.1 (entry.acceptance own.2.1 own.2.2) <:+: trace
  timedOut : ∀ k, nthTick tick interval k ≤ finish → limits.overdue (nthTick tick interval k) entry = true →
    (∀ j < k, limits.overdue (nthTick tick interval j) entry = false) →
    (∀ own ∈ completion?, nthTick tick interval k < own.1) →
    (nthTick tick interval k, .notified (entry.notice .timeout none)) ∈ trace ∧
      ∀ own ∈ completion?, own.1 < finish → stamp own.1 (entry.id.refusal own.2.1) <:+: trace
  cancelled : (∀ k, nthTick tick interval k ≤ finish → limits.overdue (nthTick tick interval k) entry = false) →
    (∀ own ∈ completion?, finish < own.1) → (finish, .notified (entry.notice .cancelled none)) ∈ trace

-- The fate of a message in progress is told by the outlook of its queue.
theorem Outlook.fate {world : World μ ρ} {queue : Queue μ ρ} {interval : Nat} {tick finish : Instant}
    {trace : List (Instant × Event μ ρ)} (h : Outlook world queue interval tick finish trace) (hfits : Fits world queue)
    {slot : Slot μ} (hslot : slot ∈ queue.inProgress.slots) {start : Instant}
    (hstart : slot.entry.startedAt = some start) :
    Fate queue.limits interval tick finish slot.entry ((world.behaviour slot.entry.message).completion? start)
      trace := by
  have hpromised := hfits.outstanding.promised slot hslot start hstart
  have hcompletion : ∀ report ∈ world.reports, report.token.key = slot.key →
      (report.due, report.outcome, report.reason) ∈ (world.behaviour slot.entry.message).completion? start :=
    fun report hmem hkey => completion_of_promise ((hpromised report).mpr ⟨hmem, hkey⟩)
  constructor
  · intro own hown hbefore honTime
    obtain ⟨report, hmem, htoken, hdue, houtcome, hreason⟩ := hfits.exists_report hslot hstart hown
    rw [← hdue] at hbefore honTime ⊢
    rw [← houtcome, ← hreason]
    exact h.accepted slot hslot report hmem (by rw [htoken]; rfl) hbefore honTime
  · intro k hk hoverdue hearlier hlater
    obtain ⟨htold, hrefused⟩ := h.timedOut slot hslot k hk hoverdue hearlier
      fun report hmem hkey => hlater _ (hcompletion report hmem hkey)
    refine ⟨htold, fun own hown hbefore => ?_⟩
    obtain ⟨report, hmem, htoken, hdue, houtcome, hreason⟩ := hfits.exists_report hslot hstart hown
    have hrefusal := hrefused report hmem (by rw [htoken]; rfl) (by rwa [hdue])
    rw [htoken, hdue, houtcome] at hrefusal
    exact hrefusal
  · intro honTime hlater
    exact h.cancelled slot hslot honTime fun report hmem hkey => hlater _ (hcompletion report hmem hkey)

namespace Fate

variable {limits : Limits} {interval : Nat} {tick finish : Instant} {entry : Entry μ}
  {completion? : Option (Instant × Outcome × Option ρ)} {trace : List (Instant × Event μ ρ)}

-- What was told before does not matter.
theorem prepend (h : Fate limits interval tick finish entry completion? trace) (before : List (Instant × Event μ ρ)) :
    Fate limits interval tick finish entry completion? (before ++ trace) where
  accepted := fun own hown hbefore honTime =>
    (h.accepted own hown hbefore honTime).trans (List.suffix_append before trace).isInfix
  timedOut := by
    intro k hk hoverdue hearlier hlater
    obtain ⟨htold, hrefused⟩ := h.timedOut k hk hoverdue hearlier hlater
    exact ⟨List.mem_append_right before htold, fun own hown hbefore =>
      (hrefused own hown hbefore).trans (List.suffix_append before trace).isInfix⟩
  cancelled := fun honTime hlater => List.mem_append_right before (h.cancelled honTime hlater)

-- A tick that finds the message on time changes nothing of its fate.
theorem later (h : Fate limits interval (tick + interval) finish entry completion? trace)
    (honTime : limits.overdue tick entry = false) : Fate limits interval tick finish entry completion? trace := by
  obtain ⟨haccepted, htimedOut, hcancelled⟩ := h
  simp only [← nthTick_succ] at haccepted htimedOut hcancelled
  constructor
  · exact fun own hown hbefore hall => haccepted own hown hbefore fun k => hall (k + 1)
  · intro k hk hoverdue hearlier hlater
    cases k with
    | zero =>
        rw [nthTick_zero, honTime] at hoverdue
        exact absurd hoverdue Bool.false_ne_true
    | succ k => exact htimedOut k hk hoverdue (fun j hj => hearlier (j + 1) (Nat.succ_lt_succ hj)) hlater
  · exact fun hall hlater => hcancelled (fun k => hall (k + 1)) hlater

end Fate

end Simulation

-- A message is not late as it is handed over, unless it has waited too long.
theorem Limits.overdue_started (limits : Limits) (now : Instant) (entry : Entry μ) :
    limits.overdue now { entry with startedAt := some now } = limits.late now entry := by
  have hzero : elapsed now now = 0 := by simp [elapsed]
  have hlate : limits.late now { entry with startedAt := some now } = limits.late now entry := rfl
  rw [overdue, hlate]
  cases hdeadline : limits.processingDeadline with
  | none => simp
  | some deadline =>
      have hpositive : deadline ≠ 0 := by
        rintro rfl
        unfold processingDeadline enforced at hdeadline
        split at hdeadline
        · exact absurd hdeadline.symm (Option.some_ne_none 0)
        · rename_i hlimit
          exact hlimit hdeadline
      simp [hzero, hpositive]

namespace Simulation

section handed

variable {queue : Queue μ ρ} {now : Instant} {slot : Slot μ}

-- A tick hands over what waits and has not waited too long.
theorem entries_handed (queue : Queue μ ρ) (now : Instant) :
    (queue.handed now).map (·.entry) = (queue.pending.entries.filter fun entry =>
      !queue.limits.late now entry).map fun entry => { entry with startedAt := some now } := by
  rw [handed, entries_startedAt]
  simp only [lapses_pending]

theorem exists_of_mem_handed (hslot : slot ∈ queue.handed now) :
    ∃ entry ∈ queue.pending.entries, queue.limits.late now entry = false ∧
      slot.entry = { entry with startedAt := some now } := by
  have hentry : slot.entry ∈ (queue.handed now).map (·.entry) := List.mem_map_of_mem hslot
  rw [entries_handed] at hentry
  obtain ⟨entry, hmem, hentry⟩ := List.mem_map.mp hentry
  obtain ⟨hmem, honTime⟩ := List.mem_filter.mp hmem
  exact ⟨entry, hmem, by simpa using honTime, hentry.symm⟩

theorem overdue_of_mem_handed (hslot : slot ∈ queue.handed now) : queue.limits.overdue now slot.entry = false := by
  obtain ⟨entry, -, honTime, hsame⟩ := exists_of_mem_handed hslot
  rw [hsame, Limits.overdue_started, honTime]

theorem id_ne_of_mem_handed {admitted : List (MessageId × μ)} {past : List (Event μ ρ)} (hs : queue.Sound admitted past)
    {entry : Entry μ} (hentry : entry ∈ queue.pending.entries) (hlate : queue.limits.late now entry = true)
    (hslot : slot ∈ queue.handed now) : slot.entry.id ≠ entry.id := by
  intro hid
  obtain ⟨other, hother, honTime, hsame⟩ := exists_of_mem_handed hslot
  rw [hsame] at hid
  obtain rfl : other = entry := List.inj_on_of_nodup_map hs.pending_ids_nodup hother hentry hid
  rw [hlate] at honTime
  exact Bool.false_ne_true honTime.symm

end handed

-- The fate of a message that a tick hands over.
theorem Ticked.fate {world : World μ ρ} {queue after : Queue μ ρ} {events : List (Event μ ρ)} {interval : Nat}
    {finish : Instant} {later : List (Instant × Event μ ρ)} (h : Ticked world queue events after)
    (hfits : Fits (events.foldl World.observe world) after) (hfinish : world.now ≤ finish)
    (houtlook : Outlook (events.foldl World.observe world) after interval (world.now + interval) finish later)
    {slot : Slot μ} (hslot : slot ∈ queue.handed world.now) :
    Fate queue.limits interval world.now finish slot.entry
      ((world.behaviour slot.entry.message).completion? world.now) (stamp world.now events ++ later) := by
  have honTime := overdue_of_mem_handed hslot
  cases hreports : (world.behaviour slot.entry.message).reports with
  | true =>
      cases hbehaviour : world.behaviour slot.entry.message with
      | keep | drop | reportAfter => simp [hbehaviour, Behaviour.reports] at hreports
      | reportNow outcome reason =>
          have haccepted := h.accepted slot hslot outcome reason hbehaviour
          constructor
          · rintro own ⟨⟩ - -
            exact (haccepted.map _).trans (List.prefix_append _ later).isInfix
          · intro k _ _ _ hbefore
            have hnow := hbefore _ rfl
            exact absurd (le_nthTick world.now interval k) (Int.not_le.mpr hnow)
          · intro _ hbefore
            exact absurd hfinish (Int.not_le.mpr (hbefore _ rfl))
  | false =>
      have hparked : slot ∈ after.inProgress.slots := by
        rw [h.inProgress]
        exact List.mem_append_right _ (world.mem_parked.mpr ⟨hslot, hreports⟩)
      have hfate := houtlook.fate hfits hparked (startedAt_of_mem hslot)
      rw [World.behaviour_observe, h.limits] at hfate
      exact (hfate.later honTime).prepend _

end Simulation

namespace Pacer

-- A run that makes a tick when it is called. This tick hands over what waits, and it is clear what
-- becomes of that.
theorem tickAt_fates {pacer : Pacer} (positive : 0 < pacer.interval) {world : World μ ρ} {queue : Queue μ ρ}
    (h : Fits world queue) (deadline stop : Instant) (hstop : world.now ≤ stop) :
    let first := tickAt world queue world.now
    let ticked := tickUntil pacer.interval positive stop (world.now + pacer.interval) first.1 first.2
    let ended := close positive stop deadline ticked.1 ticked.2.1 ticked.2.2
    let clear := ∀ k, nthTick world.now pacer.interval k ≠ stop
    ∃ trace, Ends world queue pacer.interval world.now clear trace ended ∧ world.now ≤ ended.1.now ∧
      dispatches (trace.map Prod.snd) = (queue.handed world.now).map Slot.issue ∧
      (∀ entry ∈ queue.pending.entries, queue.limits.late world.now entry = true →
        (world.now, .notified (entry.notice .timeout none)) ∈ trace) ∧
      (clear → ∀ slot ∈ queue.handed world.now,
        Fate queue.limits pacer.interval world.now ended.1.now slot.entry
          ((world.behaviour slot.entry.message).completion? world.now) trace) := by
  obtain ⟨before, arrived, waiting, hpass, hpassage, harrived, hnow, hbehaviour, hreports, hpassed⟩ :=
    h.passTo world.now
  obtain ⟨events, after, hruns, hticked, hfits⟩ := harrived.tick
  have htick : tickAt world queue world.now = (events.foldl World.observe arrived, after) := by
    unfold tickAt
    rw [hpass]
    exact hruns.eq
  obtain ⟨later, hrest, hfinish⟩ := tickUntil_ends positive hfits deadline stop (world.now + pacer.interval)
  have hhanded : waiting.handed arrived.now = queue.handed world.now := by
    rw [handed, handed, hnow, hpassed.limits, hpassed.pending, hpassed.nextKey]
  have hended := Int.le_trans hstop hfinish
  have hlater (hclear : ∀ k, nthTick world.now pacer.interval k ≠ stop) (k : Nat) :
      nthTick (world.now + pacer.interval) pacer.interval k ≠ stop := by
    rw [← nthTick_succ]
    exact hclear (k + 1)
  -- Nothing waits after the first tick, so nothing is dispatched later.
  have hnone : dispatches (later.map Prod.snd) = [] := by
    obtain ⟨moves, hcourse, hevents⟩ := hrest.passage.course
    rw [← hevents]
    exact (hfits.ready.run_nothing hticked.pending hcourse.routine).1
  dsimp only
  rw [htick]
  refine ⟨before ++ (stamp arrived.now events ++ later),
    ⟨hpassage.trans ((hruns.passage rfl).trans hrest.passage), hrest.fits, hrest.empty, fun hclear => ?_⟩, hended,
    ?_, ?_, ?_⟩
  · have houtlook := hrest.outlook (hlater hclear)
    rw [← hnow] at houtlook hended
    have hticks := Outlook.ticked harrived hticked hended houtlook
    rw [hnow] at hticks hended
    rw [hnow]
    exact .passed h hreports hpassed (Int.le_refl _) hended hticks
  · rw [List.map_append, List.map_append, map_snd_stamp, dispatches_append, dispatches_append, hpassed.dispatched,
      hticked.dispatched, hnone, hhanded, List.append_nil]
    rfl
  · intro entry hentry hlate
    have htold := hticked.timedOut .pending entry (by rw [lane_pending, hpassed.pending]; exact hentry)
      (by rw [lapses_pending, hpassed.limits, hnow]; exact hlate)
    rw [hnow]
    exact List.mem_append_right _ (List.mem_append_left _ (List.mem_map_of_mem htold))
  · intro hclear slot hslot
    have houtlook := hrest.outlook (hlater hclear)
    rw [← hhanded] at hslot
    rw [← hnow] at houtlook hended
    have hfate := (hticked.fate hfits hended houtlook hslot).prepend before
    rw [hpassed.limits, hbehaviour, hnow] at hfate
    rw [hnow]
    exact hfate

-- A run that is not told to shut down at once makes its first tick when it is called.
theorem run_ends {pacer : Pacer} (positive : 0 < pacer.interval) {shutdownAfter : Duration} {world : World μ ρ}
    {queue : Queue μ ρ} (h : Fits world queue) (hshutdown : 0 < shutdownAfter)
    (hdeadline : (Instant.after? (world.now + shutdownAfter) pacer.grace).isSome = true) :
    let clear := ∀ k, nthTick world.now pacer.interval k ≠ world.now + shutdownAfter
    ∃ last final trace, pacer.run shutdownAfter world queue = .ok (last, final) ∧
      Ends world queue pacer.interval world.now clear trace (last, final) ∧ world.now ≤ last.now ∧
      dispatches (trace.map Prod.snd) = (queue.handed world.now).map Slot.issue ∧
      (∀ entry ∈ queue.pending.entries, queue.limits.late world.now entry = true →
        (world.now, .notified (entry.notice .timeout none)) ∈ trace) ∧
      (clear → ∀ slot ∈ queue.handed world.now,
        Fate queue.limits pacer.interval world.now last.now slot.entry
          ((world.behaviour slot.entry.message).completion? world.now) trace) := by
  obtain ⟨deadline, hdeadline⟩ := Option.isSome_iff_exists.mp hdeadline
  have hstarted : Fits (pacer.started world) queue := h.aside rfl rfl rfl
  have hstop : world.now ≤ world.now + shutdownAfter := Int.le_add_of_nonneg_right (Int.natCast_nonneg shutdownAfter)
  obtain ⟨trace, hends, hfates⟩ := tickAt_fates positive hstarted deadline (world.now + shutdownAfter) hstop
  exact ⟨_, _, trace, run_eq positive hshutdown hdeadline queue, hends.of_logged, hfates⟩

end Pacer

end DeadlineQueue
