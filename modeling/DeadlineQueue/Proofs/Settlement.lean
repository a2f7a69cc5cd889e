import DeadlineQueue.Proofs.Binding
import DeadlineQueue.Proofs.Losses
import DeadlineQueue.Proofs.Routine

namespace DeadlineQueue.Queue

variable {μ ρ : Type}

-- A queue between two calls of its owner.
structure Ready (queue : Queue μ ρ) : Prop where
  reachable : queue.Reachable
  idle : queue.stack = []
  kept : queue.dropped = false

theorem Reachable.run {queue : Queue μ ρ} (h : queue.Reachable) (moves : List (Move μ ρ)) :
    (queue.run moves).1.Reachable := by
  obtain ⟨settings, observed, past, rfl⟩ := h
  exact ⟨settings, observed, past ++ moves, by rw [run_append]⟩

theorem Ready.run {queue : Queue μ ρ} (h : queue.Ready) {moves : List (Move μ ρ)}
    (hroutine : ∀ move ∈ moves, move.routine = true) (hidle : (queue.run moves).1.stack = []) :
    (queue.run moves).1.Ready where
  reachable := h.reachable.run moves
  idle := hidle
  kept := (run_settings_routine hroutine).2.1.trans h.kept

section Ready

variable {queue : Queue μ ρ} (h : queue.Ready)
include h

theorem Ready.turn : queue.turn = .user := by simp [Queue.turn, h.idle]

theorem Ready.free : queue.busy = false := by simp [busy, h.idle]

theorem Ready.closed : queue.Closed := by simp [Closed, h.idle]

end Ready

-- While no call takes the queue nothing that waits moves.
theorem Transition.undisturbed {queue next : Queue μ ρ} {move : Move μ ρ} {events : List (Event μ ρ)}
    (h : Transition queue move next events) (hfree : queue.busy = false) (htakes : move.takesQueue = false) :
    next.busy = false ∧ next.pending = queue.pending ∧ dispatches events = [] := by
  cases h with
  | complete =>
      rw [busy_raise, pending_raise]
      exact ⟨hfree, rfl, rfl⟩
  | clockPanic text => exact ⟨any_eq_false_of_suffix _ (unwind_suffix queue queue.stack text) hfree, rfl, rfl⟩
  | @finish frame rest hstack =>
      exact ⟨any_eq_false_of_suffix _ (hstack ▸ List.suffix_cons frame rest) hfree, rfl, rfl⟩
  | panic text hstack => exact ⟨any_eq_false_of_suffix _ (unwind_suffix_of_cons queue hstack text) hfree, rfl, rfl⟩
  | dropToken => exact ⟨hfree, rfl, by simp [dispatches]⟩
  | _ =>
      first
        | exact ⟨hfree, rfl, rfl⟩
        | simp_all [Queue.busy, Frame.holdsQueue, Move.takesQueue, Call.token?, dispatches]

theorem run_undisturbed {queue : Queue μ ρ} (hfree : queue.busy = false) {moves : List (Move μ ρ)}
    (htakes : ∀ move ∈ moves, move.takesQueue = false) :
    (queue.run moves).1.pending = queue.pending ∧ dispatches (queue.run moves).2 = [] := by
  induction moves generalizing queue with
  | nil => exact ⟨rfl, rfl⟩
  | cons move moves ih =>
      obtain ⟨hnext, hpending, hnone⟩ :=
        (transition_step queue move).undisturbed hfree (htakes move List.mem_cons_self)
      obtain ⟨hpending', hnone'⟩ := ih hnext fun other hother => htakes other (List.mem_cons_of_mem _ hother)
      rw [run_cons, dispatches_append, hnone, hnone']
      exact ⟨hpending'.trans hpending, rfl⟩

theorem run_issues (queue : Queue μ ρ) (moves : List (Move μ ρ)) :
    ((queue.run moves).1.inProgress.slots.map Slot.issue).Sublist
      (queue.inProgress.slots.map Slot.issue ++ dispatches (queue.run moves).2) := by
  induction moves generalizing queue with
  | nil => exact List.sublist_append_left _ _
  | cons move moves ih =>
      rw [run_cons, dispatches_append, ← List.append_assoc]
      exact (ih _).trans ((transition_step queue move).issues.append_right _)

-- A drain leaves nothing behind.
theorem Ready.run_drain {queue : Queue μ ρ} (h : queue.Ready) {moves : List (Move μ ρ)}
    (hroutine : ∀ move ∈ moves, move.routine = true) : (queue.run (.call .drain :: moves)).1.isEmpty = true := by
  have hstep : queue.step (.call .drain) = queue.startDrain := by
    simp [step, h.turn, answer, ifFree, h.free, h.kept]
  have hcleared : queue.startDrain.1.inProgress.slots = [] ∧ queue.startDrain.1.unstarted = [] ∧
      queue.startDrain.1.Closed := by
    unfold startDrain giveBack
    dsimp only
    split <;> simp [unstarted, Closed, h.idle]
  obtain ⟨hslots, hunstarted, hclosed⟩ := hcleared
  obtain ⟨admitted, past, hs⟩ := h.reachable.sound
  have hstarted := (hs.step (.call .drain)).stacked
  rw [hstep] at hstarted
  obtain ⟨hnone, hunstarted⟩ := hclosed.run_unstarted hroutine hstarted hunstarted
  have hissues := run_issues queue.startDrain.1 moves
  rw [hslots, hnone, List.map_nil, List.append_nil, List.sublist_nil, List.map_eq_nil_iff] at hissues
  have hpending := (List.append_eq_nil_iff.mp hunstarted).2
  rw [Lane.entries, List.map_eq_nil_iff] at hpending
  rw [run_cons, hstep]
  simp [isEmpty, Lane.isEmpty, hissues, hpending]

-- A token of a message that is no longer in progress does not come to count again.
theorem Sound.not_expects_run {queue : Queue μ ρ} {admitted : List (MessageId × μ)} {past : List (Event μ ρ)}
    (h : queue.Sound admitted past) (hnone : queue.inProgress.slots = []) {issue : Token × μ}
    (hissue : issue ∈ dispatches past) (later : List (Move μ ρ)) : (queue.run later).1.expects issue.1 = false := by
  have hids := (List.nodup_append.mp (h.run later).ids_nodup).1
  rw [dispatches_append, List.map_append] at hids
  have hfresh := (List.nodup_append.mp hids).2.2
  have hissues := run_issues queue later
  rw [hnone, List.map_nil, List.nil_append] at hissues
  have hother : ∀ entry ∈ (queue.run later).1.inProgress.entries, entry.id ≠ issue.1.id := by
    intro entry hentry hid
    obtain ⟨slot, hslot, rfl⟩ := List.mem_map.mp hentry
    have hdispatched := hissues.subset (List.mem_map_of_mem hslot)
    exact hfresh _ (List.mem_map_of_mem hissue) _ (List.mem_map_of_mem hdispatched) hid.symm
  unfold expects
  rw [List.any_eq_false.mpr (by simpa using hother), Bool.and_false]

-- It is refused for good, and its use changes nothing else.
theorem Sound.refuses_run {queue : Queue μ ρ} {admitted : List (MessageId × μ)} {past : List (Event μ ρ)}
    (h : queue.Sound admitted past) (hnone : queue.inProgress.slots = []) {token : Token} (htoken : token ∈ queue.held)
    (later : List (Move μ ρ)) (hturn : (queue.run later).1.turn = .user) (hheld : token ∈ (queue.run later).1.held)
    (outcome : Outcome) (reason : Option ρ) :
    ∃ record, (queue.run later).1.step (.call (.complete token outcome reason)) =
      ({ (queue.run later).1 with held := (queue.run later).1.held.erase token },
        [.log record, .returned (.delivered false)]) := by
  obtain ⟨message, hissue⟩ := h.exists_issue_of_held htoken
  have hissued : (token, message) ∈ dispatches (past ++ (queue.run later).2) := by
    rw [dispatches_append]
    exact List.mem_append_left _ hissue
  rw [step_complete _ token outcome reason hturn hheld]
  exact (h.run later).complete_of_not_expects hissued outcome reason (h.not_expects_run hnone hissue later)

-- A queue in which nothing waits and that is only ticked and drained dispatches nothing.
theorem Ready.run_nothing {queue : Queue μ ρ} (h : queue.Ready) (hnone : queue.pending.entries = [])
    {moves : List (Move μ ρ)} (hroutine : ∀ move ∈ moves, move.routine = true) :
    dispatches (queue.run moves).2 = [] ∧ (queue.run moves).1.pending.entries = [] := by
  obtain ⟨admitted, past, hs⟩ := h.reachable.sound
  have hunstarted : queue.unstarted = [] := by simp [unstarted, h.idle, hnone]
  obtain ⟨hdispatched, hlast⟩ := h.closed.run_unstarted hroutine hs.stacked hunstarted
  exact ⟨hdispatched, (List.append_eq_nil_iff.mp hlast).2⟩

-- What waits does so in the order of admission, in which ids are given out.
theorem Ready.pending_inOrder {queue : Queue μ ρ} (h : queue.Ready) :
    queue.pending.entries.Pairwise fun first second => first.id.serial < second.id.serial := by
  obtain ⟨admitted, past, hs⟩ := h.reachable.sound
  have hwaiting : (queue.pending.entries.map Entry.labelled).Sublist (queue.unstarted.map Entry.labelled) :=
    (List.sublist_append_right _ _).map _
  have hadmitted := hwaiting.trans ((List.sublist_append_right _ _).trans hs.traced.order)
  have hserials : (admitted.map fun label => label.1.serial).Pairwise (· < ·) := by
    have hrange := congrArg (List.map MessageId.serial) hs.numbered.serials
    rw [List.map_map, List.map_map] at hrange
    have hids : admitted.map (fun label => label.1.serial) = List.range queue.nextId := by
      simpa [Function.comp_def] using hrange
    rw [hids]
    exact List.pairwise_lt_range
  have hsorted := hserials.sublist (hadmitted.map fun label => label.1.serial)
  rw [List.map_map] at hsorted
  exact List.pairwise_map.mp hsorted

def tracked (queue : Queue μ ρ) : List (Entry μ) :=
  queue.pending.entries ++ queue.inProgress.entries

theorem Ready.ledger {queue : Queue μ ρ} (h : queue.Ready) :
    queue.ledger = census (queue.tracked.map Entry.labelled ++ queue.outbox.map Notice.labelled) := by
  simp [Queue.ledger, tracked, Lane.census, h.idle, add_assoc]

-- No message is tracked twice, and none whose notice waits is tracked.
theorem Ready.ids_nodup {queue : Queue μ ρ} (h : queue.Ready) :
    ((queue.tracked.map Entry.labelled ++ queue.outbox.map Notice.labelled).map Prod.fst).Nodup := by
  obtain ⟨settings, observed, moves, rfl⟩ := h.reachable
  have hplaces := run_places settings observed moves
  have hadmitted := (sound_run settings observed moves : Queue.Sound _ _ (_ : List (Event μ ρ))).numbered.nodup
  have hids := (hplaces.map Prod.fst).nodup_iff.mpr hadmitted
  refine List.Nodup.sublist (List.Sublist.map _ ?_) hids
  rw [raises_eq, List.map_append, tracked, List.map_append]
  refine .trans (List.Sublist.append ?_ ?_) (List.sublist_append_left _ _)
  · exact List.sublist_append_left _ _
  · exact List.sublist_append_right _ _

-- A message that was tracked and is no longer so was notified once.
theorem Ready.notified_once {queue : Queue μ ρ} (h : queue.Ready) {moves : List (Move μ ρ)}
    (hroutine : ∀ move ∈ moves, move.routine = true) (hidle : (queue.run moves).1.stack = [])
    (hempty : (queue.run moves).1.isEmpty = true) {entry : Entry μ} (hentry : entry ∈ queue.tracked) :
    ((deliveries (queue.run moves).2).map fun notice => notice.id).count entry.id = 1 ∧
      entry.labelled ∈ (deliveries (queue.run moves).2).map Notice.labelled := by
  obtain ⟨admitted, past, hs⟩ := h.reachable.sound
  have hlast := h.run hroutine hidle
  have hnone : (queue.run moves).1.tracked = [] := by
    rw [isEmpty, Bool.and_eq_true] at hempty
    simpa [tracked, Lane.entries, Lane.isEmpty] using hempty
  have hledger : census ((queue.run moves).1.outbox.map Notice.labelled) + delivered (queue.run moves).2 =
      census (queue.tracked.map Entry.labelled ++ queue.outbox.map Notice.labelled) := by
    have hlaw := h.closed.run_ledger hroutine hs.ordered
    rwa [h.ledger, hlast.ledger, hnone, List.map_nil, List.nil_append] at hlaw
  have hpanic : ∀ text, .panic text ∉ moves := fun text hmem => Bool.false_ne_true (hroutine _ hmem)
  have hcalled : Called queue.stack := by
    rw [h.idle]
    trivial
  have hdelivering : (queue.run moves).1.delivering = false := by
    rw [(hs.stacked.run moves).delivering, hidle]
    rfl
  rcases run_settles hs.stacked hcalled hpanic hdelivering with houtbox | ⟨hraises, houtbox⟩
  · rw [houtbox, List.map_nil, census_nil, zero_add] at hledger
    have hperm : ((deliveries (queue.run moves).2).map Notice.labelled).Perm _ := (census_eq_iff _ _).mp hledger
    have hmem : entry.labelled ∈ (deliveries (queue.run moves).2).map Notice.labelled :=
      hperm.mem_iff.mpr (List.mem_append_left _ (List.mem_map_of_mem hentry))
    have hids := (hperm.map Prod.fst).nodup_iff.mpr h.ids_nodup
    rw [List.map_map] at hids
    obtain ⟨notice, hnotice, hlabelled⟩ := List.mem_map.mp hmem
    have hid : notice.id = entry.id := congrArg Prod.fst hlabelled
    exact ⟨List.count_eq_one_of_mem hids (hid ▸ List.mem_map_of_mem hnotice), hmem⟩
  -- If nothing was raised, nothing was tracked.
  · have houtgoing := run_outbox queue moves
    rw [hraises, houtbox, List.append_nil, List.append_left_eq_self] at houtgoing
    rw [delivered, ← deliveries, houtgoing, houtbox, List.map_nil, census_nil, add_zero, census_append,
      right_eq_add] at hledger
    have hnobody : queue.tracked.map Entry.labelled = [] :=
      ((census_eq_iff _ []).mp hledger).eq_nil
    rw [List.map_eq_nil_iff.mp hnobody] at hentry
    exact absurd hentry List.not_mem_nil

end DeadlineQueue.Queue
