import DeadlineQueue.Proofs.Edits
import DeadlineQueue.Proofs.Sound

namespace DeadlineQueue

variable {μ ρ : Type}

-- If no two elements have the same key, one with a given key is the only one.
theorem filter_eq_singleton {α β : Type} [DecidableEq β] {elements : List α} {key? : α → Option β}
    (hkeys : (elements.filterMap key?).Nodup) {element : α} (helement : element ∈ elements) {key : β}
    (hkey : key? element = some key) : elements.filter (fun other => key? other = some key) = [element] := by
  obtain ⟨before, after, rfl⟩ := List.append_of_mem helement
  have hnodup : (before.filterMap key? ++ key :: after.filterMap key?).Nodup := by
    simpa [List.filterMap_cons, hkey] using hkeys
  obtain ⟨hout, -⟩ := List.nodup_cons.mp (List.nodup_middle.mp hnodup)
  rw [List.mem_append, not_or] at hout
  have hnone {others : List α} (hothers : key ∉ others.filterMap key?) :
      others.filter (fun other => key? other = some key) = [] := by
    rw [List.filter_eq_nil_iff]
    intro other hother hsame
    exact hothers (List.mem_filterMap.mpr ⟨other, hother, by simpa using hsame⟩)
  simp [hkey, hnone hout.1, hnone hout.2]

namespace Queue

-- How the two lanes of a state stand to its past: to what was admitted, to what was dispatched, and to what was done
-- to the lanes.
structure Tracks (queue : Queue μ ρ) (admitted : List (MessageId × μ)) (events : List (Event μ ρ))
    (edits : List (Edit μ)) : Prop where
  -- What was done to a lane makes it of an empty one, and the pushes on both take the keys one after the other.
  replayed : ∀ name, queue.lane name = (Edit.on name edits).foldl Lane.apply {}
  numbered : edits.filterMap Edit.key? = List.range queue.nextKey
  bounded : ∀ slot ∈ queue.pending.slots ++ queue.inProgress.slots, slot.key < queue.nextKey
  disjoint : ∀ waiting ∈ queue.pending.slots, ∀ started ∈ queue.inProgress.slots, waiting.key ≠ started.key
  ids : ((queue.pending.entries ++ queue.inProgress.entries).map (fun entry => entry.id)).Nodup
  -- In the order of their keys the entries stand as they were admitted, or as they were dispatched.
  sorted : ∀ name, (queue.lane name).slots.Pairwise (fun first second => first.key < second.key)
  distinct : (admitted.map Prod.fst).Nodup
  admissionOrder : (queue.pending.entries.map Entry.labelled).Sublist admitted
  dispatchOrder : (queue.inProgress.slots.map Slot.issue).Sublist (dispatches events)
  -- Of all pushes just one has the key of the entry. It was made on this lane, with this stamp and with this entry.
  pendingStamps : ∀ slot ∈ queue.pending.slots, slot.entry.startedAt = none ∧
    edits.filter (fun edit => edit.key? = some slot.key) =
      [⟨.pending, .push slot.key slot.entry.enqueuedAt slot.entry⟩]
  inProgressStamps : ∀ slot ∈ queue.inProgress.slots, ∃ stamp, slot.entry.startedAt = some stamp ∧
    edits.filter (fun edit => edit.key? = some slot.key) = [⟨.inProgress, .push slot.key stamp slot.entry⟩]
  -- What is in progress was pending before, with the same stamp of its admission.
  restamped : ∀ slot ∈ queue.inProgress.slots, ∃ key < slot.key,
    ⟨.pending, .push key slot.entry.enqueuedAt { slot.entry with startedAt := none }⟩ ∈ edits
  -- Of all tokens just one has the key of the entry, and it has the id of the entry. No token is out that was not
  -- handed to the processor.
  tokens : ∀ slot ∈ queue.inProgress.slots,
    (dispatches events).filter (fun issue => issue.1.key = slot.key) = [slot.issue]
  issued : queue.held.Sublist ((dispatches events).map Prod.fst)

section Tracks

variable {queue : Queue μ ρ} {admitted : List (MessageId × μ)} {events : List (Event μ ρ)} {edits : List (Edit μ)}

-- No two pushes have the same key, and each carries the stamp of its entry.
theorem Recorded.filter_edits (h : queue.Recorded edits) {name : LaneName} {key : Nat} {stamp : Instant}
    {entry : Entry μ} (hpush : ⟨name, .push key stamp entry⟩ ∈ edits) : entry.since name.origin = some stamp ∧
      edits.filter (fun edit => edit.key? = some key) = [⟨name, .push key stamp entry⟩] := by
  have hkeys : (edits.filterMap Edit.key?).Nodup := h.keys ▸ List.nodup_range
  exact ⟨(h.stamped _ _ _ _ hpush).1, filter_eq_singleton hkeys hpush rfl⟩

theorem Recorded.keys_disjoint (h : queue.Recorded edits) {waiting started : Slot μ}
    (hwaiting : waiting ∈ queue.pending.slots) (hstarted : started ∈ queue.inProgress.slots) :
    waiting.key ≠ started.key := by
  intro hkey
  obtain ⟨_, hpending⟩ := h.exists_push .pending hwaiting
  obtain ⟨_, hinProgress⟩ := h.exists_push .inProgress hstarted
  rw [hkey] at hpending
  have hsame := (h.filter_edits hpending).2.symm.trans (h.filter_edits hinProgress).2
  simp at hsame

theorem Recorded.pending_stamps (h : queue.Recorded edits) {slot : Slot μ} (hslot : slot ∈ queue.pending.slots) :
    slot.entry.startedAt = none ∧ edits.filter (fun edit => edit.key? = some slot.key) =
      [⟨.pending, .push slot.key slot.entry.enqueuedAt slot.entry⟩] := by
  obtain ⟨stamp, hpush⟩ := h.exists_push .pending hslot
  obtain ⟨hstamp, hedits⟩ := h.filter_edits hpush
  obtain rfl : slot.entry.enqueuedAt = stamp := Option.some.inj hstamp
  exact ⟨(h.stamped _ _ _ _ hpush).2 rfl, hedits⟩

theorem Recorded.inProgress_stamps (h : queue.Recorded edits) {slot : Slot μ} (hslot : slot ∈ queue.inProgress.slots) :
    ∃ stamp, slot.entry.startedAt = some stamp ∧
      edits.filter (fun edit => edit.key? = some slot.key) = [⟨.inProgress, .push slot.key stamp slot.entry⟩] := by
  obtain ⟨stamp, hpush⟩ := h.exists_push .inProgress hslot
  exact ⟨stamp, h.filter_edits hpush⟩

theorem Recorded.was_pending (h : queue.Recorded edits) {slot : Slot μ} (hslot : slot ∈ queue.inProgress.slots) :
    ∃ key < slot.key,
      ⟨.pending, .push key slot.entry.enqueuedAt { slot.entry with startedAt := none }⟩ ∈ edits := by
  obtain ⟨_, hpush⟩ := h.exists_push .inProgress hslot
  obtain ⟨key, hkey, stamp, hadmitted⟩ := h.restamped _ _ _ hpush
  obtain rfl : slot.entry.enqueuedAt = stamp := Option.some.inj (h.stamped _ _ _ _ hadmitted).1
  exact ⟨key, hkey, hadmitted⟩

-- What is in progress has been dispatched, and what is pending has not.
theorem Sound.tracked_ids_nodup (h : queue.Sound admitted events) :
    ((queue.pending.entries ++ queue.inProgress.entries).map (fun entry => entry.id)).Nodup := by
  have hpending : (queue.pending.entries.map (fun entry => entry.id)).Sublist
      (queue.unstarted.map (fun entry => entry.id)) := (List.sublist_append_right _ _).map _
  have hinProgress : (queue.inProgress.entries.map (fun entry => entry.id)).Sublist
      ((dispatches events).map (fun issue => issue.1.id)) := by
    simpa [Lane.entries, Slot.issue, Function.comp_def] using h.traced.tokens.map (fun issue => issue.1.id)
  rw [List.map_append]
  exact List.perm_append_comm.nodup (h.ids_nodup.sublist (hinProgress.append hpending))

theorem Sound.filter_dispatches (h : queue.Sound admitted events) {slot : Slot μ}
    (hslot : slot ∈ queue.inProgress.slots) :
    (dispatches events).filter (fun issue => issue.1.key = slot.key) = [slot.issue] := by
  have hkeys : ((dispatches events).filterMap (fun issue => some issue.1.key)).Nodup := by
    simpa [List.filterMap_eq_map'] using h.keys_nodup
  have hkey : some slot.issue.1.key = some slot.key := rfl
  simpa using filter_eq_singleton hkeys (h.issue_mem hslot) hkey

theorem Sound.pending_order (h : queue.Sound admitted events) :
    (queue.pending.entries.map Entry.labelled).Sublist admitted := by
  have hpending : (queue.pending.entries.map Entry.labelled).Sublist (queue.unstarted.map Entry.labelled) :=
    (List.sublist_append_right _ _).map _
  exact hpending.trans ((List.sublist_append_right _ _).trans h.traced.order)

end Tracks

-- The representation of what is tracked, whatever the callbacks do and wherever they or the clock panic. A run may
-- end anywhere, so this holds inside each callback too and right after a panic has left the calls that were running.
theorem run_tracks (settings : Settings) (observed : Bool) (moves : List (Move μ ρ)) :
    ((make settings observed).run moves).1.Tracks ((make settings observed).admissions moves)
      ((make settings observed).run moves).2 ((make settings observed).edits moves) := by
  have h := recorded_run settings observed moves
  have hs := sound_run settings observed moves
  exact {
    replayed := h.lane
    numbered := h.keys
    bounded := by
      rw [List.forall_mem_append]
      exact ⟨hs.ordered.pendingKeys, hs.ordered.inProgressKeys⟩
    disjoint := fun _ hwaiting _ hstarted => h.keys_disjoint hwaiting hstarted
    ids := hs.tracked_ids_nodup
    sorted := fun name => (hs.ordered.lane name).keys
    distinct := hs.numbered.nodup
    admissionOrder := hs.pending_order
    dispatchOrder := hs.traced.tokens
    pendingStamps := fun _ hslot => h.pending_stamps hslot
    inProgressStamps := fun _ hslot => h.inProgress_stamps hslot
    restamped := fun _ hslot => h.was_pending hslot
    tokens := fun _ hslot => hs.filter_dispatches hslot
    issued := hs.traced.held }

-- The processor of the first message panics. The next tick hands it the second one, and the clock has been set back.
def panickedBetween : List (Move String String) :=
  [.call (.enqueue "a"), .read (.time 5), .call (.enqueue "b"), .read (.time 3), .call .tick, .advance, .advance,
    .read (.time 7), .panic "broken", .call (.enqueue "a"), .read (.time 4), .call .tick, .advance, .advance,
    .read (.time 6)]

-- The second message is with the processor, which has not returned.
theorem run_tracks_panickedBetween :
    let queue : Queue String String := ((make {} true).run panickedBetween).1
    let edits := (make {} true : Queue String String).edits panickedBetween
    queue.turn = .user ∧ queue.busy = true ∧
      queue.pending.slots = [⟨3, { id := ⟨2⟩, message := "a", enqueuedAt := 4 }⟩] ∧
      queue.inProgress.slots =
        [⟨2, { id := ⟨0⟩, message := "a", enqueuedAt := 5, startedAt := some 7 }⟩,
          ⟨4, { id := ⟨1⟩, message := "b", enqueuedAt := 3, startedAt := some 6 }⟩] ∧
      edits.filterMap Edit.key? = [0, 1, 2, 3, 4] ∧
      edits.filter (fun edit => edit.key? = some 4) =
        [⟨.inProgress, .push 4 6 { id := ⟨1⟩, message := "b", enqueuedAt := 3, startedAt := some 6 }⟩] ∧
      (dispatches ((make {} true).run panickedBetween).2).filter (fun issue => issue.1.key = 4) =
        [((⟨4, ⟨1⟩⟩ : Token), "b")] := by
  intro queue edits
  let second : Slot String := ⟨4, { id := ⟨1⟩, message := "b", enqueuedAt := 3, startedAt := some 6 }⟩
  have h := run_tracks {} true panickedBetween
  have hsecond : second ∈ queue.inProgress.slots := List.mem_cons_of_mem _ List.mem_cons_self
  obtain ⟨stamp, hstarted, hedits⟩ := h.inProgressStamps second hsecond
  obtain rfl : 6 = stamp := Option.some.inj hstarted
  exact ⟨rfl, rfl, rfl, rfl, h.numbered, hedits, h.tokens second hsecond⟩

end Queue

end DeadlineQueue
