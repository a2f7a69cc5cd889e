import DeadlineQueue.Proofs.Lane.Chronicle
import DeadlineQueue.Proofs.Tokens

namespace DeadlineQueue

variable {μ ρ : Type}

namespace Lane

-- The slot that an operation fills.
def Operation.slot? : Operation μ → Option (Slot μ)
  | .push key _ entry => some { key, entry }
  | _ => none

theorem exists_push_of_slot {operation : Operation μ} {slot : Slot μ} (h : operation.slot? = some slot) :
    ∃ stamp, operation = .push slot.key stamp slot.entry := by
  cases operation with
  | push key stamp entry =>
      obtain rfl := Option.some.inj h
      exact ⟨stamp, rfl⟩
  | remove | popFront | clear | takeOverdue => cases h

theorem slots_apply (lane : Lane μ) (operation : Operation μ) :
    (lane.apply operation).slots.Sublist (lane.slots ++ operation.slot?.toList) := by
  rcases lane.push_or_trims operation with ⟨key, stamp, entry, rfl⟩ | ⟨-, htrims, -⟩
  · exact List.Sublist.refl _
  · exact htrims.slots.trans (List.sublist_append_left _ _)

-- A lane holds nothing but what was pushed, in the order in which it was pushed.
theorem slots_foldl_apply (lane : Lane μ) (operations : List (Operation μ)) :
    (operations.foldl apply lane).slots.Sublist (lane.slots ++ operations.filterMap Operation.slot?) := by
  induction operations generalizing lane with
  | nil => simp
  | cons operation operations ih =>
      have hfirst := (lane.slots_apply operation).append_right (operations.filterMap Operation.slot?)
      have hpushed : (operation :: operations).filterMap Operation.slot? =
          operation.slot?.toList ++ operations.filterMap Operation.slot? := by
        cases hslot : operation.slot? <;> simp [hslot]
      rw [List.append_assoc, ← hpushed] at hfirst
      exact (ih (lane.apply operation)).trans hfirst

-- A pop that finds nothing leaves the lane as it is.
theorem popFront_of_none (lane : Lane μ) (bound : Nat) (h : (lane.popFront bound).1 = none) :
    (lane.popFront bound).2 = lane := by
  unfold popFront at h ⊢
  split
  · rfl
  · split <;> simp_all

end Lane

-- One thing that is done to one of the lanes.
structure Edit (μ : Type) where
  lane : LaneName
  operation : Lane.Operation μ

namespace Edit

-- The key that a push gives out.
def key? (edit : Edit μ) : Option Nat :=
  edit.operation.key?

-- What is done to one lane.
def on (name : LaneName) (edits : List (Edit μ)) : List (Lane.Operation μ) :=
  (edits.filter fun edit => edit.lane = name).map Edit.operation

theorem on_append (name : LaneName) (first second : List (Edit μ)) :
    on name (first ++ second) = on name first ++ on name second := by
  simp [on]

theorem mem_of_mem_on {name : LaneName} {edits : List (Edit μ)} {operation : Lane.Operation μ}
    (h : operation ∈ on name edits) : ⟨name, operation⟩ ∈ edits := by
  obtain ⟨⟨lane, _⟩, hon, rfl⟩ := List.mem_map.mp h
  obtain ⟨hedit, hlane⟩ := List.mem_filter.mp hon
  obtain rfl : lane = name := by simpa using hlane
  exact hedit

end Edit

namespace Queue

-- What a move does to the lanes.
def editing (queue : Queue μ ρ) : Move μ ρ → List (Edit μ)
  | .advance =>
    match queue.stack with
    | .scanning now ((name, scan) :: _) :: _ => [⟨name, .takeOverdue scan now⟩]
    | .dispatching bound :: _ => [⟨.pending, .popFront bound⟩]
    | _ => []
  | .read (.time now) =>
    match queue.stack with
    | .enqueuing message :: _ =>
      [⟨.pending, .push queue.nextKey now { id := ⟨queue.nextId⟩, message, enqueuedAt := now }⟩]
    | .starting _ entry :: _ => [⟨.inProgress, .push queue.nextKey now { entry with startedAt := some now }⟩]
    | _ => []
  | .call .drain =>
    if queue.turn = .user ∧ queue.busy = false ∧ queue.dropped = false then
      [⟨.inProgress, .clear⟩, ⟨.pending, .clear⟩]
    else []
  | .call (.complete token _ _) =>
    if queue.turn = .user ∧ token ∈ queue.held ∧ queue.alive = true then [⟨.inProgress, .remove token.key⟩] else []
  | _ => []

-- What a run does to the lanes, in its order.
def edits (queue : Queue μ ρ) : List (Move μ ρ) → List (Edit μ)
  | [] => []
  | move :: moves => queue.editing move ++ (queue.step move).1.edits moves

theorem editing_of_not_awaits {queue : Queue μ ρ} {move : Move μ ρ} (hidle : ¬queue.Awaits move) :
    queue.editing move = [] := by
  cases move with
  | advance =>
      have hturn : queue.turn ≠ .queue := hidle
      simp only [editing]
      split <;> simp_all [turn, Frame.isUser, Frame.awaitsClock]
  | read reading =>
      have hturn : queue.turn ≠ .clock := hidle
      cases reading with
      | time now =>
          simp only [editing]
          split <;> simp_all [turn, Frame.isUser, Frame.awaitsClock]
      | failed | panicked => rfl
  | call call =>
      have hturn : queue.turn ≠ .user := hidle
      cases call with
      | drain | complete => simp [editing, hturn]
      | _ => rfl
  | finish | panic => rfl

-- A push takes the next key. It puts a message that is admitted on the pending lane, or one that is started on the
-- other.
theorem push_of_mem_editing {queue : Queue μ ρ} {move : Move μ ρ} {name : LaneName} {key : Nat} {stamp : Instant}
    {entry : Entry μ} (h : ⟨name, .push key stamp entry⟩ ∈ queue.editing move) :
    key = queue.nextKey ∧
      ((∃ message rest, queue.stack = .enqueuing message :: rest ∧ name = .pending ∧
          entry = { id := ⟨queue.nextId⟩, message, enqueuedAt := stamp }) ∨
        ∃ bound waiting rest, queue.stack = .starting bound waiting :: rest ∧ name = .inProgress ∧
          entry = { waiting with startedAt := some stamp }) := by
  unfold editing at h
  split at h
  · split at h <;> simp at h
  · -- The time that the clock tells is that of an admission or that of a start.
    split at h
    · rename_i hstack
      simp only [List.mem_singleton, Edit.mk.injEq, Lane.Operation.push.injEq] at h
      obtain ⟨rfl, rfl, rfl, rfl⟩ := h
      exact ⟨rfl, .inl ⟨_, _, hstack, rfl, rfl⟩⟩
    · rename_i hstack
      simp only [List.mem_singleton, Edit.mk.injEq, Lane.Operation.push.injEq] at h
      obtain ⟨rfl, rfl, rfl, rfl⟩ := h
      exact ⟨rfl, .inr ⟨_, _, _, hstack, rfl, rfl⟩⟩
    · simp at h
  · split at h <;> simp at h
  · split at h <;> simp at h
  · simp at h

-- A push carries the stamp that its entry has for the lane, and nothing gets on the pending lane that was started
-- before.
theorem stamp_of_mem_editing {queue : Queue μ ρ} {move : Move μ ρ} {name : LaneName} {key : Nat} {stamp : Instant}
    {entry : Entry μ} (h : ⟨name, .push key stamp entry⟩ ∈ queue.editing move) :
    entry.since name.origin = some stamp ∧ (name = .pending → entry.startedAt = none) := by
  obtain ⟨-, ⟨message, rest, -, rfl, rfl⟩ | ⟨bound, waiting, rest, -, rfl, rfl⟩⟩ := push_of_mem_editing h
  · exact ⟨rfl, fun _ => rfl⟩
  · exact ⟨rfl, nofun⟩

-- Nothing else happens to the lanes in a step, and no other keys are given out.
theorem Transition.edits {queue next : Queue μ ρ} {move : Move μ ρ} {events : List (Event μ ρ)}
    (h : Transition queue move next events) :
    next.pending = (Edit.on .pending (queue.editing move)).foldl Lane.apply queue.pending ∧
      next.inProgress = (Edit.on .inProgress (queue.editing move)).foldl Lane.apply queue.inProgress ∧
      List.range next.nextKey = List.range queue.nextKey ++ (queue.editing move).filterMap Edit.key? := by
  cases h with
  | idle move hidle => simp [editing_of_not_awaits hidle, Edit.on]
  -- A call that is refused may be any call, so it is taken apart.
  | @busy call hturn hcall hbusy => cases call <;> simp_all [editing, Edit.on, Call.token?]
  | @dropped call hturn hcall hfree hdropped => cases call <;> simp_all [editing, Edit.on, Call.token?]
  | @noToken call token hturn hcall hheld => cases call <;> simp_all [editing, Edit.on, Call.token?]
  | @scan now name scan scans rest hstack =>
      cases name <;> simp [editing, hstack, Edit.on, Edit.key?, Lane.Operation.key?, Lane.apply]
  | dispatchedAll hstack hpop =>
      simp [editing, hstack, Edit.on, Edit.key?, Lane.Operation.key?, Lane.apply, Lane.popFront_of_none _ _ hpop]
  | accept now hstack | start now hstack =>
      simp [editing, hstack, append, Edit.on, Edit.key?, Lane.Operation.key?, Lane.apply, List.range_succ]
  | _ => simp_all [editing, Edit.on, Edit.key?, Lane.Operation.key?, Lane.apply, unwind]

-- What waits was waiting before, or has just been put on the pending lane.
theorem Transition.waiting {queue next : Queue μ ρ} {move : Move μ ρ} {events : List (Event μ ρ)}
    (h : Transition queue move next events) {entry : Entry μ} (hentry : entry ∈ next.unstarted) :
    entry ∈ queue.unstarted ∨ ∃ key stamp, ⟨.pending, .push key stamp entry⟩ ∈ queue.editing move := by
  cases h with
  | @scan now name scan scans rest hstack =>
      left
      cases name with
      | pending =>
          have hleft := (queue.pending.trims_takeOverdue scan now).entries.subset
          simp only [unstarted, hstack, List.mem_append] at hentry ⊢
          exact hentry.imp id (@hleft entry)
      | inProgress => simpa [unstarted, hstack] using hentry
  | @pop bound first rest hstack hpop =>
      have hentries := queue.pending.entries_eq_cons_of_popFront bound first hpop
      simp only [unstarted, hstack, hentries, List.mem_append, List.flatMap_cons, Frame.unstarted,
        List.mem_cons] at hentry ⊢
      tauto
  | @accept message rest now hstack =>
      simp only [unstarted, append, setLane_pending, lane_pending, Lane.entries_push, List.mem_append,
        List.mem_singleton] at hentry
      rcases hentry with hbelow | hold | rfl
      · exact .inl (by simp_all [unstarted])
      · exact .inl (List.mem_append_right _ hold)
      · exact .inr ⟨queue.nextKey, now, by simp [editing, hstack]⟩
  | clockPanic text => exact .inl ((queue.unstarted_unwind _ text (List.suffix_refl _)).subset hentry)
  | @panic frame rest text hstack =>
      exact .inl ((queue.unstarted_unwind _ text (hstack ▸ List.suffix_cons frame rest)).subset hentry)
  | retire | cancel | startUnread | complete =>
      rw [unstarted_raise] at hentry
      exact .inl (by simp_all [unstarted])
  | _ => exact .inl (by simp_all [unstarted, append])

-- What holds of a state and of all that was done to the lanes before it. An entry that is started was admitted
-- before, and gets on the other lane as it was but for its start.
structure Recorded (queue : Queue μ ρ) (edits : List (Edit μ)) : Prop where
  pending : queue.pending = (Edit.on .pending edits).foldl Lane.apply {}
  inProgress : queue.inProgress = (Edit.on .inProgress edits).foldl Lane.apply {}
  keys : edits.filterMap Edit.key? = List.range queue.nextKey
  stamped : ∀ name key stamp entry, ⟨name, .push key stamp entry⟩ ∈ edits →
    entry.since name.origin = some stamp ∧ (name = .pending → entry.startedAt = none)
  waiting : ∀ entry ∈ queue.unstarted, ∃ key stamp, ⟨.pending, .push key stamp entry⟩ ∈ edits
  restamped : ∀ key stamp entry, ⟨.inProgress, .push key stamp entry⟩ ∈ edits →
    ∃ earlier < key, ∃ admission, ⟨.pending, .push earlier admission { entry with startedAt := none }⟩ ∈ edits

theorem Recorded.make (settings : Settings) (observed : Bool) : (make settings observed : Queue μ ρ).Recorded [] where
  pending := rfl
  inProgress := rfl
  keys := rfl
  stamped := by simp
  waiting := by simp [unstarted, Queue.make]
  restamped := by simp

section Recorded

variable {queue : Queue μ ρ} {edits : List (Edit μ)} (h : queue.Recorded edits)
include h

theorem Recorded.lane (name : LaneName) : queue.lane name = (Edit.on name edits).foldl Lane.apply {} := by
  cases name with
  | pending => exact h.pending
  | inProgress => exact h.inProgress

theorem Recorded.key_lt {name : LaneName} {key : Nat} {stamp : Instant} {entry : Entry μ}
    (hpush : ⟨name, .push key stamp entry⟩ ∈ edits) : key < queue.nextKey := by
  have hkey : key ∈ edits.filterMap Edit.key? := List.mem_filterMap.mpr ⟨_, hpush, rfl⟩
  rwa [h.keys, List.mem_range] at hkey

-- What a lane holds has been pushed on it.
theorem Recorded.exists_push (name : LaneName) {slot : Slot μ} (hslot : slot ∈ (queue.lane name).slots) :
    ∃ stamp, ⟨name, .push slot.key stamp slot.entry⟩ ∈ edits := by
  rw [h.lane name] at hslot
  obtain ⟨operation, hon, hfills⟩ := List.mem_filterMap.mp ((Lane.slots_foldl_apply {} _).subset hslot)
  obtain ⟨stamp, rfl⟩ := Lane.exists_push_of_slot hfills
  exact ⟨stamp, Edit.mem_of_mem_on hon⟩

-- The entry that a dispatch has taken off the pending lane gets on the other one with its start added.
theorem Recorded.restamp {bound : Nat} {waiting : Entry μ} {rest : List (Frame μ ρ)}
    (hstack : queue.stack = .starting bound waiting :: rest) (start : Instant) :
    ∃ earlier < queue.nextKey, ∃ admission, ⟨.pending,
      .push earlier admission { { waiting with startedAt := some start } with startedAt := none }⟩ ∈ edits := by
  obtain ⟨earlier, admission, hpush⟩ := h.waiting waiting (by simp [unstarted, hstack])
  have hnone : waiting.startedAt = none := (h.stamped _ _ _ _ hpush).2 rfl
  refine ⟨earlier, h.key_lt hpush, admission, ?_⟩
  rwa [← hnone]

theorem Recorded.step (move : Move μ ρ) : (queue.step move).1.Recorded (edits ++ queue.editing move) := by
  have hstep := transition_step queue move
  obtain ⟨hpending, hinProgress, hkeys⟩ := hstep.edits
  refine ⟨?pending, ?inProgress, ?keys, ?stamped, ?waiting, ?restamped⟩
  case pending => rw [Edit.on_append, List.foldl_append, ← h.pending, hpending]
  case inProgress => rw [Edit.on_append, List.foldl_append, ← h.inProgress, hinProgress]
  case keys => rw [List.filterMap_append, h.keys, hkeys]
  case stamped =>
    intro name key stamp entry hpush
    rcases List.mem_append.mp hpush with hold | hnew
    · exact h.stamped name key stamp entry hold
    · exact stamp_of_mem_editing hnew
  case waiting =>
    intro entry hentry
    rcases hstep.waiting hentry with hold | ⟨key, stamp, hnew⟩
    · obtain ⟨key, stamp, hpush⟩ := h.waiting entry hold
      exact ⟨key, stamp, List.mem_append_left _ hpush⟩
    · exact ⟨key, stamp, List.mem_append_right _ hnew⟩
  case restamped =>
    -- What a step starts was waiting before it, so it was admitted by an earlier step.
    intro key stamp entry hpush
    have hearlier : ∃ earlier < key, ∃ admission,
        ⟨.pending, .push earlier admission { entry with startedAt := none }⟩ ∈ edits := by
      rcases List.mem_append.mp hpush with hold | hnew
      · exact h.restamped key stamp entry hold
      · obtain ⟨rfl, ⟨_, _, -, hname, -⟩ | ⟨bound, waiting, rest, hstack, -, rfl⟩⟩ := push_of_mem_editing hnew
        · cases hname
        · exact h.restamp hstack stamp
    obtain ⟨earlier, hlt, admission, hadmitted⟩ := hearlier
    exact ⟨earlier, hlt, admission, List.mem_append_left _ hadmitted⟩

theorem Recorded.run (moves : List (Move μ ρ)) : (queue.run moves).1.Recorded (edits ++ queue.edits moves) := by
  induction moves generalizing queue edits with
  | nil => simpa [Queue.edits, run_nil] using h
  | cons move moves ih =>
      rw [run_cons, Queue.edits, ← List.append_assoc]
      exact ih (h.step move)

end Recorded

theorem recorded_run (settings : Settings) (observed : Bool) (moves : List (Move μ ρ)) :
    ((make settings observed).run moves).1.Recorded ((make settings observed).edits moves) :=
  (Recorded.make settings observed).run moves

end Queue

end DeadlineQueue
