import DeadlineQueue.Proofs.Simulation.Outstanding

namespace DeadlineQueue

variable {μ ρ : Type}

namespace Simulation

open Queue

-- The notices that were delivered, with the time.
@[simp] def Happening.notice? : Happening μ ρ → Option (Instant × Notice μ ρ)
  | completed time notice => some (time, notice)
  | _ => none

def World.notices (world : World μ ρ) : List (Instant × Notice μ ρ) :=
  world.happened.toList.filterMap Happening.notice?

@[simp] def noticeAt? : Instant × Event μ ρ → Option (Instant × Notice μ ρ)
  | (time, .notified notice) => some (time, notice)
  | _ => none

-- The events of a call are told at one time.
def stamp (now : Instant) (events : List (Event μ ρ)) : List (Instant × Event μ ρ) :=
  events.map fun event => (now, event)

@[simp] theorem map_snd_stamp (now : Instant) (events : List (Event μ ρ)) :
    (stamp now events).map Prod.snd = events := by
  simp [stamp, Function.comp_def]

theorem notices_noted (now : Instant) (events : List (Event μ ρ)) :
    (events.flatMap (Event.noted now)).filterMap Happening.notice? = (stamp now events).filterMap noticeAt? := by
  induction events with
  | nil => rfl
  | cons event events ih =>
      rw [List.flatMap_cons, List.filterMap_append, ih]
      cases event <;> rfl

namespace World

theorem notices_foldl_observe (world : World μ ρ) (events : List (Event μ ρ)) :
    (events.foldl observe world).notices = world.notices ++ (stamp world.now events).filterMap noticeAt? := by
  rw [notices, happened_foldl_observe, List.filterMap_append, notices_noted]
  rfl

@[simp] theorem notices_note (world : World μ ρ) (happening : Happening μ ρ) :
    (world.note happening).notices = world.notices ++ [happening].filterMap Happening.notice? := by
  simp [note, notices]

end World

-- What a queue and its surroundings go through together, with the time of all that happens.
structure Passage (world : World μ ρ) (queue : Queue μ ρ) (trace : List (Instant × Event μ ρ)) (next : World μ ρ)
    (after : Queue μ ρ) : Prop where
  course : ∃ moves, Course world queue moves next after ∧ (queue.run moves).2 = trace.map Prod.snd
  notices : next.notices = world.notices ++ trace.filterMap noticeAt?

namespace Passage

variable {world next : World μ ρ} {queue after : Queue μ ρ} {trace : List (Instant × Event μ ρ)}

theorem refl (world : World μ ρ) (hready : queue.Ready) : Passage world queue [] world queue where
  course := ⟨[], .refl world hready, rfl⟩
  notices := by simp

theorem trans {last : World μ ρ} {final : Queue μ ρ} {later : List (Instant × Event μ ρ)}
    (h : Passage world queue trace next after) (hlater : Passage next after later last final) :
    Passage world queue (trace ++ later) last final where
  course := by
    obtain ⟨moves, hcourse, hevents⟩ := h.course
    obtain ⟨others, hothers, hrest⟩ := hlater.course
    refine ⟨moves ++ others, hcourse.trans hothers, ?_⟩
    rw [run_append, hcourse.run, hevents, hrest, List.map_append]
  notices := by rw [hlater.notices, h.notices, List.filterMap_append, List.append_assoc]

-- The clock and the reports to come may change, and what is noted beside the calls does not count.
theorem aside {world' next' : World μ ρ} (h : Passage world queue trace next after)
    (hbefore : world'.processed = world.processed ∧ world'.completed = world.completed ∧
      world'.notices = world.notices)
    (hafter : next'.processed = next.processed ∧ next'.completed = next.completed ∧ next'.notices = next.notices) :
    Passage world' queue trace next' after where
  course := by
    obtain ⟨moves, hcourse, hevents⟩ := h.course
    exact ⟨moves, hcourse.aside ⟨hbefore.1, hbefore.2.1⟩ ⟨hafter.1, hafter.2.1⟩, hevents⟩
  notices := by rw [hafter.2.2, h.notices, hbefore.2.2]

theorem ready (h : Passage world queue trace next after) (hready : queue.Ready) : after.Ready := by
  obtain ⟨moves, hcourse, -⟩ := h.course
  exact hcourse.ready hready

end Passage

theorem Runs.passage {world : World μ ρ} {queue after : Queue μ ρ} {call : Call μ ρ} {events : List (Event μ ρ)}
    (h : Runs world queue call events after) (hroutine : (.call call : Move μ ρ).routine = true) :
    Passage world queue (stamp world.now events) (events.foldl World.observe world) after := by
  obtain ⟨moves, hmoves, hrun⟩ := h.run
  have hall : ∀ move ∈ .call call :: moves, move.routine = true :=
    List.forall_mem_cons.mpr ⟨hroutine, fun move hmove => (hmoves move hmove).1.1⟩
  have hcourse : Course world queue (.call call :: moves) _ _ := .observed world hall (by rw [hrun]; exact h.idle)
  rw [hrun] at hcourse
  exact ⟨⟨_, hcourse, by rw [hrun, map_snd_stamp]⟩, world.notices_foldl_observe events⟩

theorem Runs.ready {world : World μ ρ} {queue after : Queue μ ρ} {call : Call μ ρ} {events : List (Event μ ρ)}
    (h : Runs world queue call events after) (hready : queue.Ready) (hkept : after.dropped = queue.dropped) :
    after.Ready := by
  obtain ⟨moves, -, hrun⟩ := h.run
  have hreachable := hready.reachable.run (.call call :: moves)
  rw [hrun] at hreachable
  exact ⟨hreachable, h.idle, hkept.trans hready.kept⟩

-- A queue between two calls of its owner, and surroundings that know which reports it waits for.
structure Fits (world : World μ ρ) (queue : Queue μ ρ) : Prop where
  ready : queue.Ready
  served : queue.Served
  sorted : world.reports.Pairwise fun first second => first.due ≤ second.due
  ahead : ∀ report ∈ world.reports, world.now ≤ report.due
  outstanding : Outstanding world.behaviour world.reports queue

namespace Fits

variable {world : World μ ρ} {queue : Queue μ ρ}

theorem make (settings : Settings) (behaviour : μ → Behaviour ρ) (now : Instant) :
    Fits { behaviour, now } (Queue.make settings true) where
  ready := ⟨⟨settings, true, [], rfl⟩, rfl, rfl⟩
  served := ⟨rfl, rfl, rfl⟩
  sorted := .nil
  ahead := by simp
  outstanding := ⟨by simp, .nil, by simp [Queue.make], by simp [Queue.make]⟩

section Fits

variable (h : Fits world queue)
include h

-- What is noted does not matter.
theorem aside {world' : World μ ρ} (hbehaviour : world'.behaviour = world.behaviour) (hnow : world'.now = world.now)
    (hreports : world'.reports = world.reports) : Fits world' queue := by
  refine ⟨h.ready, h.served, ?_, ?_, ?_⟩
  · rw [hreports]; exact h.sorted
  · rw [hreports, hnow]; exact h.ahead
  · rw [hreports, hbehaviour]; exact h.outstanding

theorem ordered : queue.Ordered := by
  obtain ⟨admitted, past, hs⟩ := h.ready.reachable.sound
  exact hs.ordered

-- A call that dispatches nothing and hands out no token.
theorem calm {call : Call μ ρ} {events : List (Event μ ρ)} {after : Queue μ ρ}
    (hruns : Runs world queue call events after) (hkept : after.dropped = queue.dropped) (hserved : after.Served)
    (hnone : dispatches events = []) (hheld : after.held = queue.held)
    (hslots : after.inProgress.slots ⊆ queue.inProgress.slots) : Fits (events.foldl World.observe world) after := by
  have hreports := world.reports_of_undispatched hnone
  refine ⟨hruns.ready h.ready hkept, hserved, ?_, ?_, ?_⟩
  · rw [hreports]
    exact h.sorted
  · rw [hreports, World.now_observe]
    exact h.ahead
  · rw [hreports, World.behaviour_observe]
    exact h.outstanding.trims hheld hslots

theorem tick : ∃ events after, Runs world queue .tick events after ∧ Ticked world queue events after ∧
    Fits (events.foldl World.observe world) after := by
  obtain ⟨events, after, hruns, hticked⟩ := runs_tick h.ready world h.served
  have hperm := World.perm_scheduleAll (promises world queue) world.reports
  refine ⟨events, after, hruns, hticked, hruns.ready h.ready hticked.kept, hticked.served, ?_, ?_, ?_⟩
  · rw [hticked.reports]
    exact World.sorted_scheduleAll _ h.sorted
  · rw [hticked.reports, World.now_observe]
    intro report hreport
    rcases List.mem_append.mp (hperm.mem_iff.mp hreport) with hreport | hreport
    · exact h.ahead report hreport
    · obtain ⟨slot, -, hpromise⟩ := mem_promises.mp hreport
      exact (promise_eq_some hpromise).2.1
  · rw [hticked.reports, World.behaviour_observe]
    exact (h.outstanding.ticked h.ready.held_lt hticked h.ordered.inProgressKeys).perm hperm.symm

end Fits

end Fits

-- What becomes of a queue when some reports are made and nothing else happens.
structure Passed (queue : Queue μ ρ) (due : List (Report μ ρ)) (trace : List (Instant × Event μ ρ))
    (after : Queue μ ρ) : Prop where
  limits : after.limits = queue.limits
  pending : after.pending = queue.pending
  nextKey : after.nextKey = queue.nextKey
  dispatched : dispatches (trace.map Prod.snd) = []
  slots : after.inProgress.slots =
    queue.inProgress.slots.filter fun slot => due.all fun report => report.token.key ≠ slot.key
  accepted : ∀ report ∈ due, ∀ slot ∈ queue.inProgress.slots, report.token.key = slot.key →
    stamp report.due (slot.entry.acceptance report.outcome report.reason) <:+: trace
  refused : ∀ report ∈ due, (∀ slot ∈ queue.inProgress.slots, report.token.key ≠ slot.key) →
    stamp report.due (report.token.id.refusal report.outcome) <:+: trace

-- No two reports are to come of one message.
theorem Outstanding.eq_of_key_eq {behaviour : μ → Behaviour ρ} {reports : List (Report μ ρ)} {queue : Queue μ ρ}
    (h : Outstanding behaviour reports queue) (hordered : queue.Ordered) {first second : Report μ ρ} {slot : Slot μ}
    (hslot : slot ∈ queue.inProgress.slots) (hfirst : first ∈ reports) (hsecond : second ∈ reports)
    (hkey : first.token.key = slot.key) (hother : second.token.key = slot.key) : first = second := by
  obtain ⟨start, -, hstart, -⟩ := hordered.inProgress.stamped slot hslot
  have hpromise := (h.promised slot hslot start hstart first).mpr ⟨hfirst, hkey⟩
  rw [(h.promised slot hslot start hstart second).mpr ⟨hsecond, hother⟩] at hpromise
  exact (Option.some.inj hpromise).symm

-- What is told when a token is used: its message is still in progress, or it is not.
theorem answer_of_mem {queue : Queue μ ρ} (hordered : queue.Ordered) {slot : Slot μ}
    (hslot : slot ∈ queue.inProgress.slots) {token : Token} (hkey : token.key = slot.key) (outcome : Outcome)
    (reason : Option ρ) :
    queue.answer? token outcome reason =
      .log (.completed slot.entry.id outcome) :: slot.entry.acceptance outcome reason := by
  rw [answer?, hkey, hordered.inProgress.remove_fst hslot]

theorem answer_of_not_mem {queue : Queue μ ρ} {token : Token}
    (hnone : ∀ slot ∈ queue.inProgress.slots, token.key ≠ slot.key) (outcome : Outcome) (reason : Option ρ) :
    queue.answer? token outcome reason = token.id.refusal outcome := by
  rw [answer?, Lane.remove_fst_eq_none fun slot hslot => (hnone slot hslot).symm]

theorem dispatches_answer (queue : Queue μ ρ) (token : Token) (outcome : Outcome) (reason : Option ρ) :
    dispatches (queue.answer? token outcome reason) = [] := by
  unfold answer?
  split <;> rfl

-- A report is a call at its time.
theorem passage_report (world : World μ ρ) {queue : Queue μ ρ} (hready : queue.Ready) (hserved : queue.Served)
    {report : Report μ ρ} (hheld : report.token ∈ queue.held) :
    ∃ next, world.report queue report = (next, queue.spent report.token) ∧
      Passage world queue (stamp report.due (queue.answer? report.token report.outcome report.reason)) next
        (queue.spent report.token) ∧
      next.behaviour = world.behaviour ∧ next.reports = world.reports := by
  let arrived : World μ ρ := { world with now := report.due }
  let events : List (Event μ ρ) := queue.answer? report.token report.outcome report.reason
  let told := events.foldl World.observe arrived
  have hruns : Runs arrived queue _ events (queue.spent report.token) :=
    runs_complete hready arrived hserved hheld report.outcome report.reason
  refine ⟨told.note (.reported report.due report.message told.accepted), ?_, ?_, ?_, ?_⟩
  · unfold World.report
    rw [hruns.eq]
  · exact (hruns.passage rfl).aside ⟨rfl, rfl, rfl⟩ (by simp [told])
  · exact arrived.behaviour_observe events
  · exact arrived.reports_of_undispatched (dispatches_answer queue _ _ _)

-- A report is made, and the other reports are of other messages.
theorem Passed.cons {queue after : Queue μ ρ} {report : Report μ ρ} {due : List (Report μ ρ)}
    {trace : List (Instant × Event μ ρ)} (h : Passed (queue.spent report.token) due trace after)
    (hordered : queue.Ordered) (hothers : ∀ other ∈ due, ∀ slot ∈ queue.inProgress.slots,
      other.token.key = slot.key → slot.key ≠ report.token.key) :
    Passed queue (report :: due)
      (stamp report.due (queue.answer? report.token report.outcome report.reason) ++ trace) after := by
  have hslots : (queue.spent report.token).inProgress.slots =
      queue.inProgress.slots.filter fun slot => slot.key ≠ report.token.key := Lane.slots_remove _ _
  refine ⟨h.limits, h.pending, h.nextKey, ?_, ?_, ?_, ?_⟩
  · rw [List.map_append, map_snd_stamp, dispatches_append, dispatches_answer, h.dispatched]
    rfl
  · rw [h.slots, hslots, List.filter_filter]
    refine List.filter_congr fun slot _ => ?_
    rw [List.all_cons, Bool.and_comm]
    simp only [ne_comm]
  · refine List.forall_mem_cons.mpr ⟨fun slot hslot hkey => ?_, fun other hother slot hslot hkey => ?_⟩
    · rw [answer_of_mem hordered hslot hkey]
      exact ⟨[(report.due, .log (.completed slot.entry.id report.outcome))], trace, rfl⟩
    · have hkept : slot ∈ (queue.spent report.token).inProgress.slots := by
        rw [hslots, List.mem_filter]
        exact ⟨hslot, decide_eq_true (hothers other hother slot hslot hkey)⟩
      exact (h.accepted other hother slot hkept hkey).trans (List.suffix_append _ trace).isInfix
  · refine List.forall_mem_cons.mpr ⟨fun hnone => ?_, fun other hother hnone => ?_⟩
    · rw [answer_of_not_mem hnone]
      exact (List.prefix_append _ trace).isInfix
    · have hgone : ∀ slot ∈ (queue.spent report.token).inProgress.slots, other.token.key ≠ slot.key := by
        rw [hslots]
        exact fun slot hslot => hnone slot (List.mem_filter.mp hslot).1
      exact (h.refused other hother hgone).trans (List.suffix_append _ trace).isInfix

theorem exists_passed {due later : List (Report μ ρ)} {world : World μ ρ} {queue : Queue μ ρ} (hready : queue.Ready)
    (hserved : queue.Served) (h : Outstanding world.behaviour (due ++ later) queue) :
    ∃ trace next after,
      due.foldl (fun (world, queue) report => world.report queue report) (world, queue) = (next, after) ∧
      Passage world queue trace next after ∧ Passed queue due trace after ∧ after.Served ∧
      Outstanding next.behaviour later after ∧ next.behaviour = world.behaviour ∧ next.reports = world.reports := by
  induction due generalizing world queue with
  | nil =>
      refine ⟨[], world, queue, rfl, .refl world hready, ⟨rfl, rfl, rfl, rfl, ?_, ?_, ?_⟩, hserved, h, rfl, rfl⟩
      · simp
      · simp
      · simp
  | cons report due ih =>
      obtain ⟨admitted, past, hs⟩ := hready.reachable.sound
      obtain ⟨next, hreport, hpassage, hbehaviour, hreports⟩ :=
        passage_report world hready hserved (h.held report List.mem_cons_self)
      have hspent : (queue.spent report.token).Served := ⟨hserved.observed, hserved.delivering, hserved.outbox⟩
      have hrest : Outstanding next.behaviour (due ++ later) (queue.spent report.token) := hbehaviour ▸ h.spent
      obtain ⟨trace, last, after, hfold, hlater, hpassed, hlast, hleft, hsame, hkept⟩ :=
        ih (hpassage.ready hready) hspent hrest
      have hothers : ∀ other ∈ due, ∀ slot ∈ queue.inProgress.slots,
          other.token.key = slot.key → slot.key ≠ report.token.key := by
        intro other hother slot hslot hkey hsame
        have heq : report = other := h.eq_of_key_eq hs.ordered hslot (by simp) (by simp [hother]) hsame.symm hkey
        have hdistinct := (List.nodup_cons.mp h.distinct).1
        exact hdistinct (List.mem_map.mpr ⟨other, List.mem_append_left _ hother, by rw [heq]⟩)
      refine ⟨_, last, after, ?_, hpassage.trans hlater, hpassed.cons hs.ordered hothers, hlast, hleft,
        hsame.trans hbehaviour, hkept.trans hreports⟩
      rw [List.foldl_cons]
      dsimp only
      rw [hreport, hfold]

-- Of reports in the order of time those that are due come first.
theorem split_due {reports : List (Report μ ρ)} (h : reports.Pairwise fun first second => first.due ≤ second.due)
    (time : Instant) :
    reports.takeWhile (fun report => report.due ≤ time) = reports.filter (fun report => report.due ≤ time) ∧
      reports.dropWhile (fun report => report.due ≤ time) = reports.filter fun report => time < report.due := by
  induction reports with
  | nil => exact ⟨rfl, rfl⟩
  | cons report reports ih =>
      obtain ⟨hfirst, hrest⟩ := List.pairwise_cons.mp h
      obtain ⟨htake, hdrop⟩ := ih hrest
      by_cases hdue : report.due ≤ time
      · simp [hdue, htake, hdrop]
      · have hlater : ∀ other ∈ reports, time < other.due :=
          fun other hother => Int.lt_of_lt_of_le (Int.not_le.mp hdue) (hfirst other hother)
        have hnone : reports.filter (fun other => other.due ≤ time) = [] := by
          rw [List.filter_eq_nil_iff]
          intro other hother
          simpa using hlater other hother
        have hall : reports.filter (fun other => time < other.due) = reports := by
          rw [List.filter_eq_self]
          intro other hother
          simpa using hlater other hother
        simp [hdue, hnone, hall, Int.not_le.mp hdue]

-- Time goes on.
theorem Fits.passTo {world : World μ ρ} {queue : Queue μ ρ} (h : Fits world queue) (time : Instant) :
    ∃ trace next after, world.passTo queue time = (next, after) ∧ Passage world queue trace next after ∧
      Fits next after ∧ next.now = time ∧ next.behaviour = world.behaviour ∧
      next.reports = (world.reports.filter fun report => time < report.due) ∧
      Passed queue (world.reports.filter fun report => report.due ≤ time) trace after := by
  obtain ⟨htake, hdrop⟩ := split_due h.sorted time
  let later : World μ ρ := { world with reports := world.reports.filter fun report => time < report.due }
  have hsplit : Outstanding later.behaviour ((world.reports.filter fun report => report.due ≤ time) ++
      world.reports.filter fun report => time < report.due) queue := by
    rw [← htake, ← hdrop, List.takeWhile_append_dropWhile]
    exact h.outstanding
  obtain ⟨trace, next, after, hfold, hpassage, hpassed, hserved, hleft, hbehaviour, hreports⟩ :=
    exists_passed h.ready h.served hsplit
  have hkept : (world.reports.filter fun report => time < report.due).Pairwise
      fun first second => first.due ≤ second.due := h.sorted.sublist List.filter_sublist
  refine ⟨trace, { next with now := time }, after, ?_, hpassage.aside ⟨rfl, rfl, rfl⟩ ⟨rfl, rfl, rfl⟩, ?_, rfl,
    hbehaviour, hreports, hpassed⟩
  · unfold World.passTo
    rw [htake, hdrop]
    dsimp only
    rw [hfold]
  · refine ⟨hpassage.ready h.ready, hserved, ?_, ?_, ?_⟩
    · rw [hreports]
      exact hkept
    · rw [hreports]
      intro report hreport
      have hdue := (List.mem_filter.mp hreport).2
      exact Int.le_of_lt (of_decide_eq_true hdue)
    · rw [hreports]
      exact hleft

section Passed

variable {world : World μ ρ} {queue after : Queue μ ρ} {time : Instant} {trace : List (Instant × Event μ ρ)}
  (h : Passed queue (world.reports.filter fun report => report.due ≤ time) trace after) {slot : Slot μ}
  (hslot : slot ∈ queue.inProgress.slots)
include h hslot

-- A message stays in progress while none of its reports falls due.
theorem Passed.mem_slots (hlater : ∀ report ∈ world.reports, report.token.key = slot.key → time < report.due) :
    slot ∈ after.inProgress.slots := by
  rw [h.slots, List.mem_filter, List.all_eq_true]
  refine ⟨hslot, fun report hreport => decide_eq_true fun hkey => ?_⟩
  obtain ⟨hreport, hdue⟩ := List.mem_filter.mp hreport
  exact absurd (of_decide_eq_true hdue) (Int.not_le.mpr (hlater report hreport hkey))

-- It has one report at most. That has been accepted, or it is still to come and the message stays.
theorem Passed.accepted_or_kept (hfits : Fits world queue) {report : Report μ ρ} (hreport : report ∈ world.reports)
    (hkey : report.token.key = slot.key) :
    stamp report.due (slot.entry.acceptance report.outcome report.reason) <:+: trace ∨
      time < report.due ∧ slot ∈ after.inProgress.slots := by
  by_cases hpast : report.due ≤ time
  · exact .inl (h.accepted report (List.mem_filter.mpr ⟨hreport, decide_eq_true hpast⟩) slot hslot hkey)
  · have hahead := Int.not_le.mp hpast
    refine .inr ⟨hahead, h.mem_slots hslot fun other hother hsame => ?_⟩
    rwa [hfits.outstanding.eq_of_key_eq hfits.ordered hslot hother hreport hsame hkey]

end Passed

-- A drain cancels all that is tracked, and the queue fits as before.
theorem Fits.drain {world : World μ ρ} {queue : Queue μ ρ} (h : Fits world queue) :
    ∃ events, Runs world queue .drain events { queue with inProgress := {}, pending := {} } ∧
      Fits (events.foldl World.observe world) { queue with inProgress := {}, pending := {} } ∧
      ∀ entry ∈ queue.tracked, .notified (entry.notice .cancelled none) ∈ events := by
  obtain ⟨events, hruns, hnone, htold⟩ := runs_drain h.ready world h.served
  have hserved : Served { queue with inProgress := {}, pending := {} } :=
    ⟨h.served.observed, h.served.delivering, h.served.outbox⟩
  exact ⟨events, hruns, h.calm hruns rfl hserved hnone rfl (List.nil_subset _), htold⟩

end Simulation

end DeadlineQueue
