import DeadlineQueue.Proofs.Simulation.Calls

namespace DeadlineQueue

variable {μ ρ : Type}

namespace Lane

theorem Sound.eq_of_key_eq {lane : Lane μ} {origin : Origin} (hsound : lane.Sound origin) {slot other : Slot μ}
    (hslot : slot ∈ lane.slots) (hother : other ∈ lane.slots) (hkey : slot.key = other.key) : slot = other := by
  have hkeys : (lane.slots.map (·.key)).Nodup := by
    rw [List.Nodup, List.pairwise_map]
    exact hsound.keys.imp Nat.ne_of_lt
  exact List.inj_on_of_nodup_map hkeys hslot hother hkey

-- The entry of a slot is found by the key of the slot.
theorem Sound.remove_fst {lane : Lane μ} {origin : Origin} (hsound : lane.Sound origin) {slot : Slot μ}
    (hslot : slot ∈ lane.slots) : (lane.remove slot.key).1 = some slot.entry := by
  obtain ⟨other, hfind⟩ : ∃ other, lane.slots.find? (fun other => other.key = slot.key) = some other :=
    Option.isSome_iff_exists.mp (List.find?_isSome.mpr ⟨slot, hslot, by simp⟩)
  have hsame : other = slot :=
    hsound.eq_of_key_eq (List.mem_of_find?_eq_some hfind) hslot (by simpa using List.find?_some hfind)
  rw [remove, hfind, hsame]
  rfl

theorem remove_fst_eq_none {lane : Lane μ} {key : Nat} (h : ∀ slot ∈ lane.slots, slot.key ≠ key) :
    (lane.remove key).1 = none := by
  have hnone : lane.slots.find? (fun slot => slot.key = key) = none := by
    rw [List.find?_eq_none]
    intro slot hslot
    simpa using h slot hslot
  rw [remove, hnone]
  rfl

end Lane

section startedAt

variable (now : Instant) (key : Nat) (entries : List (Entry μ))

theorem keys_startedAt : (startedAt now key entries).map (·.key) = List.range' key entries.length := by
  induction entries generalizing key with
  | nil => rfl
  | cons entry entries ih => simp [startedAt, ih, List.range'_succ]

theorem entries_startedAt :
    (startedAt now key entries).map (·.entry) = entries.map fun entry => { entry with startedAt := some now } := by
  induction entries generalizing key with
  | nil => rfl
  | cons entry entries ih => simp [startedAt, ih]

variable {now key entries}

theorem key_of_mem_startedAt {slot : Slot μ} (hslot : slot ∈ startedAt now key entries) :
    key ≤ slot.key ∧ slot.key < key + entries.length := by
  have hkey := List.mem_map_of_mem (f := (·.key)) hslot
  rw [keys_startedAt, List.mem_range'_1] at hkey
  exact hkey

theorem startedAt_of_mem {slot : Slot μ} (hslot : slot ∈ startedAt now key entries) :
    slot.entry.startedAt = some now := by
  have hentry := List.mem_map_of_mem (f := (·.entry)) hslot
  rw [entries_startedAt] at hentry
  obtain ⟨entry, -, hentry⟩ := List.mem_map.mp hentry
  rw [← hentry]

theorem eq_of_key_eq {slot other : Slot μ} (hslot : slot ∈ startedAt now key entries)
    (hother : other ∈ startedAt now key entries) (hkey : slot.key = other.key) : slot = other := by
  have hnodup : ((startedAt now key entries).map (·.key)).Nodup := by
    rw [keys_startedAt]
    exact List.nodup_range'
  exact List.inj_on_of_nodup_map hnodup hslot hother hkey

end startedAt

namespace Simulation

open Queue

-- The report that is made later of a message that was handed over at the given time.
def promise (behaviour : μ → Behaviour ρ) (start : Instant) (issue : Token × μ) : Option (Report μ ρ) :=
  match behaviour issue.2 with
  | .reportAfter wait outcome reason =>
    some { due := start + wait, token := issue.1, message := issue.2, outcome, reason }
  | _ => none

theorem promise_eq_some {behaviour : μ → Behaviour ρ} {start : Instant} {issue : Token × μ} {report : Report μ ρ}
    (h : promise behaviour start issue = some report) :
    report.token = issue.1 ∧ start ≤ report.due ∧ (behaviour issue.2).retains = true := by
  unfold promise at h
  split at h
  · rename_i wait outcome reason hbehaviour
    obtain rfl := Option.some.inj h
    exact ⟨rfl, Int.le_add_of_nonneg_right (Int.natCast_nonneg wait), by rw [hbehaviour]; rfl⟩
  · exact absurd h.symm (Option.some_ne_none report)

-- The reports that are to come of some messages go by the tokens of these.
theorem tokens_promise (behaviour : μ → Behaviour ρ) (start : Instant) (issues : List (Token × μ)) :
    ((issues.filterMap (promise behaviour start)).map fun report => report.token).Sublist (issues.map Prod.fst) := by
  induction issues with
  | nil => exact .refl _
  | cons issue issues ih =>
      cases hpromise : promise behaviour start issue with
      | none =>
          rw [List.filterMap_cons_none hpromise]
          exact ih.trans (List.sublist_cons_self _ _)
      | some report =>
          rw [List.filterMap_cons_some hpromise, List.map_cons, (promise_eq_some hpromise).1]
          exact ih.cons_cons _

namespace World

theorem perm_schedule (report : Report μ ρ) (reports : List (Report μ ρ)) :
    (schedule report reports).Perm (report :: reports) := by
  induction reports with
  | nil => exact .refl _
  | cons next rest ih =>
      unfold schedule
      split
      · exact (ih.cons next).trans (.swap report next rest)
      · exact .refl _

theorem sorted_schedule (report : Report μ ρ) {reports : List (Report μ ρ)}
    (h : reports.Pairwise fun first second => first.due ≤ second.due) :
    (schedule report reports).Pairwise fun first second => first.due ≤ second.due := by
  induction reports with
  | nil => exact List.pairwise_singleton _ _
  | cons next rest ih =>
      obtain ⟨hnext, hrest⟩ := List.pairwise_cons.mp h
      unfold schedule
      split
      · rename_i hle
        refine List.pairwise_cons.mpr ⟨?_, ih hrest⟩
        intro other hother
        rcases List.mem_cons.mp ((perm_schedule report rest).subset hother) with rfl | hother
        · exact hle
        · exact hnext other hother
      · rename_i hlt
        have hbefore : report.due ≤ next.due := Int.le_of_lt (Int.not_le.mp hlt)
        refine List.pairwise_cons.mpr ⟨List.forall_mem_cons.mpr ⟨hbefore, ?_⟩, h⟩
        exact fun other hother => Int.le_trans hbefore (hnext other hother)

-- Adding reports one by one, in the order of time.
def scheduleAll (added reports : List (Report μ ρ)) : List (Report μ ρ) :=
  added.foldl (fun reports report => schedule report reports) reports

theorem perm_scheduleAll (added reports : List (Report μ ρ)) : (scheduleAll added reports).Perm (reports ++ added) := by
  induction added generalizing reports with
  | nil => simp [scheduleAll]
  | cons report added ih =>
      have hscheduled := (perm_schedule report reports).append_right added
      exact (ih (schedule report reports)).trans (hscheduled.trans List.perm_middle.symm)

theorem sorted_scheduleAll (added : List (Report μ ρ)) {reports : List (Report μ ρ)}
    (h : reports.Pairwise fun first second => first.due ≤ second.due) :
    (scheduleAll added reports).Pairwise fun first second => first.due ≤ second.due := by
  induction added generalizing reports with
  | nil => exact h
  | cons report added ih => exact ih (sorted_schedule report h)

theorem reports_observe (world : World μ ρ) (event : Event μ ρ) :
    (world.observe event).reports =
      scheduleAll ((dispatches [event]).filterMap (promise world.behaviour world.now)) world.reports := by
  cases event with
  | dispatched token message =>
      cases hbehaviour : world.behaviour message <;>
        simp [observe, note, dispatches, promise, hbehaviour, scheduleAll]
  | returned reply => cases reply <;> rfl
  | _ => rfl

-- What is dispatched adds the reports that will be made of it.
theorem reports_foldl_observe (world : World μ ρ) (events : List (Event μ ρ)) :
    (events.foldl observe world).reports =
      scheduleAll ((dispatches events).filterMap (promise world.behaviour world.now)) world.reports := by
  induction events generalizing world with
  | nil => rfl
  | cons event events ih =>
      have hnow : (world.observe event).now = world.now := world.now_observe [event]
      have hbehaviour : (world.observe event).behaviour = world.behaviour := world.behaviour_observe [event]
      have hsplit : dispatches (event :: events) = dispatches [event] ++ dispatches events :=
        dispatches_append [event] events
      rw [List.foldl_cons, ih, reports_observe, hnow, hbehaviour, hsplit, List.filterMap_append]
      simp only [scheduleAll, List.foldl_append]

theorem reports_of_undispatched (world : World μ ρ) {events : List (Event μ ρ)} (hnone : dispatches events = []) :
    (events.foldl observe world).reports = world.reports := by
  rw [reports_foldl_observe, hnone]
  rfl

end World

-- The reports that are to come of the messages that a tick hands over.
def promises (world : World μ ρ) (queue : Queue μ ρ) : List (Report μ ρ) :=
  ((queue.handed world.now).map Slot.issue).filterMap (promise world.behaviour world.now)

section promises

variable {world : World μ ρ} {queue : Queue μ ρ} {report : Report μ ρ}

theorem mem_promises :
    report ∈ promises world queue ↔
      ∃ slot ∈ queue.handed world.now, promise world.behaviour world.now slot.issue = some report := by
  rw [promises, List.filterMap_map, List.mem_filterMap]
  rfl

theorem nextKey_le_of_mem_promises (h : report ∈ promises world queue) : queue.nextKey ≤ report.token.key := by
  obtain ⟨slot, hslot, hpromise⟩ := mem_promises.mp h
  rw [(promise_eq_some hpromise).1]
  exact (key_of_mem_startedAt hslot).1

theorem tokens_promises_nodup : ((promises world queue).map fun report => report.token).Nodup := by
  have hkeys : ((queue.handed world.now).map fun slot => slot.key).Nodup := by
    rw [handed, keys_startedAt]
    exact List.nodup_range'
  have htokens : (((queue.handed world.now).map Slot.issue).map Prod.fst).Nodup := by
    apply List.Nodup.of_map Token.key
    simpa [Function.comp_def, Slot.issue] using hkeys
  exact htokens.sublist (tokens_promise _ _ _)

theorem Ticked.reports {events : List (Event μ ρ)} {after : Queue μ ρ} (h : Ticked world queue events after) :
    (events.foldl World.observe world).reports = World.scheduleAll (promises world queue) world.reports := by
  rw [World.reports_foldl_observe, h.dispatched]
  rfl

end promises

-- How the reports to come stand to a queue. Each has its token, and no two have the same. A message
-- in progress is reported if and only if its behaviour says so.
structure Outstanding (behaviour : μ → Behaviour ρ) (reports : List (Report μ ρ)) (queue : Queue μ ρ) : Prop where
  held : ∀ report ∈ reports, report.token ∈ queue.held
  distinct : (reports.map fun report => report.token).Nodup
  promised : ∀ slot ∈ queue.inProgress.slots, ∀ start ∈ slot.entry.startedAt, ∀ report,
    promise behaviour start slot.issue = some report ↔ report ∈ reports ∧ report.token.key = slot.key
  parked : ∀ slot ∈ queue.inProgress.slots, (behaviour slot.entry.message).reports = false

namespace Outstanding

variable {behaviour : μ → Behaviour ρ} {reports : List (Report μ ρ)} {queue : Queue μ ρ}

theorem perm (h : Outstanding behaviour reports queue) {others : List (Report μ ρ)} (hperm : reports.Perm others) :
    Outstanding behaviour others queue where
  held := fun report hreport => h.held report (hperm.mem_iff.mpr hreport)
  distinct := (hperm.map _).nodup h.distinct
  promised := fun slot hslot start hstart report => by
    rw [← hperm.mem_iff]
    exact h.promised slot hslot start hstart report
  parked := h.parked

-- Messages may leave a queue.
theorem trims (h : Outstanding behaviour reports queue) {after : Queue μ ρ} (hheld : after.held = queue.held)
    (hslots : after.inProgress.slots ⊆ queue.inProgress.slots) : Outstanding behaviour reports after where
  held := fun report hreport => hheld ▸ h.held report hreport
  distinct := h.distinct
  promised := fun slot hslot => h.promised slot (hslots hslot)
  parked := fun slot hslot => h.parked slot (hslots hslot)

-- A report uses up its token and no other.
theorem spent {report : Report μ ρ} (h : Outstanding behaviour (report :: reports) queue) :
    Outstanding behaviour reports (queue.spent report.token) where
  held := by
    intro other hother
    have hne : other.token ≠ report.token := by
      intro htoken
      exact (List.nodup_cons.mp h.distinct).1 (List.mem_map.mpr ⟨other, hother, htoken⟩)
    exact (List.mem_erase_of_ne hne).mpr (h.held other (List.mem_cons_of_mem _ hother))
  distinct := (List.nodup_cons.mp h.distinct).2
  promised := by
    intro slot hslot start hstart other
    rw [Queue.spent, Lane.slots_remove, List.mem_filter] at hslot
    have hkey : slot.key ≠ report.token.key := by simpa using hslot.2
    rw [h.promised slot hslot.1 start hstart other, List.mem_cons]
    constructor
    · rintro ⟨rfl | hother, hsame⟩
      · exact absurd hsame.symm hkey
      · exact ⟨hother, hsame⟩
    · exact fun hother => ⟨.inr hother.1, hother.2⟩
  parked := by
    intro slot hslot
    rw [Queue.spent, Lane.slots_remove, List.mem_filter] at hslot
    exact h.parked slot hslot.1

section ticked

variable {world : World μ ρ} (h : Outstanding world.behaviour world.reports queue)
  (hheld : ∀ token ∈ queue.held, token.key < queue.nextKey)
include h

include hheld in
theorem key_lt : ∀ report ∈ world.reports, report.token.key < queue.nextKey :=
  fun report hreport => hheld report.token (h.held report hreport)

-- The reports that a tick adds are of none of the messages that are in progress before it.
theorem promised_before {slot : Slot μ} (hslot : slot ∈ queue.inProgress.slots) (hkey : slot.key < queue.nextKey)
    {start : Instant} (hstart : start ∈ slot.entry.startedAt) (report : Report μ ρ) :
    promise world.behaviour start slot.issue = some report ↔
      report ∈ world.reports ++ promises world queue ∧ report.token.key = slot.key := by
  rw [h.promised slot hslot start hstart report, List.mem_append]
  constructor
  · exact fun hreport => ⟨.inl hreport.1, hreport.2⟩
  · rintro ⟨hreport | hreport, hsame⟩
    · exact ⟨hreport, hsame⟩
    · have hmore := nextKey_le_of_mem_promises hreport
      rw [hsame] at hmore
      exact absurd hkey (Nat.not_lt.mpr hmore)

include hheld in
theorem promised_handed {slot : Slot μ} (hslot : slot ∈ queue.handed world.now) (report : Report μ ρ) :
    promise world.behaviour world.now slot.issue = some report ↔
      report ∈ world.reports ++ promises world queue ∧ report.token.key = slot.key := by
  rw [List.mem_append]
  constructor
  · intro hpromise
    exact ⟨.inr (mem_promises.mpr ⟨slot, hslot, hpromise⟩), by rw [(promise_eq_some hpromise).1]; rfl⟩
  · rintro ⟨hreport | hreport, hkey⟩
    · have hless := h.key_lt hheld report hreport
      rw [hkey] at hless
      exact absurd hless (Nat.not_lt.mpr (key_of_mem_startedAt hslot).1)
    · obtain ⟨other, hother, hpromise⟩ := mem_promises.mp hreport
      rw [(promise_eq_some hpromise).1] at hkey
      obtain rfl := eq_of_key_eq hother hslot hkey
      exact hpromise

include hheld in
-- A tick adds the reports of the messages that it hands over.
theorem ticked {events : List (Event μ ρ)} {after : Queue μ ρ} (hticked : Ticked world queue events after)
    (hkeys : ∀ slot ∈ queue.inProgress.slots, slot.key < queue.nextKey) :
    Outstanding world.behaviour (world.reports ++ promises world queue) after where
  held := by
    intro report hreport
    rw [hticked.held, List.mem_append]
    rcases List.mem_append.mp hreport with hreport | hreport
    · exact .inl (h.held report hreport)
    · obtain ⟨slot, hslot, hpromise⟩ := mem_promises.mp hreport
      obtain ⟨htoken, -, hretains⟩ := promise_eq_some hpromise
      exact .inr (world.mem_retained.mpr ⟨slot, hslot, hretains, htoken.symm⟩)
  distinct := by
    rw [List.map_append, List.nodup_append]
    refine ⟨h.distinct, tokens_promises_nodup, ?_⟩
    intro token htoken other hother hsame
    obtain ⟨report, hreport, rfl⟩ := List.mem_map.mp htoken
    obtain ⟨later, hlater, rfl⟩ := List.mem_map.mp hother
    have hless := h.key_lt hheld report hreport
    rw [hsame] at hless
    exact absurd hless (Nat.not_lt.mpr (nextKey_le_of_mem_promises hlater))
  promised := by
    intro slot hslot start hstart
    rw [hticked.inProgress, List.mem_append] at hslot
    rcases hslot with hslot | hslot
    · have hslot := (List.mem_filter.mp hslot).1
      exact h.promised_before hslot (hkeys slot hslot) hstart
    · have hslot := (world.mem_parked.mp hslot).1
      rw [startedAt_of_mem hslot, Option.mem_def, Option.some.injEq] at hstart
      subst hstart
      exact h.promised_handed hheld hslot
  parked := by
    intro slot hslot
    rw [hticked.inProgress, List.mem_append] at hslot
    rcases hslot with hslot | hslot
    · exact h.parked slot (List.mem_filter.mp hslot).1
    · exact (world.mem_parked.mp hslot).2

end ticked

end Outstanding

end Simulation

end DeadlineQueue
