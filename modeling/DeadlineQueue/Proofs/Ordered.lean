import DeadlineQueue.Proofs.Stack

namespace DeadlineQueue

variable {μ ρ : Type}

-- The keys beyond which a dispatch does not go.
@[simp] def Frame.bounds : Frame μ ρ → List Nat
  | dispatching bound | starting bound _ => [bound]
  | _ => []

namespace Queue

-- The three ways in which a move changes what the lanes hold: entries leave, a message is
-- admitted, or one is dispatched.
inductive Change (queue : Queue μ ρ) (move : Move μ ρ) (next : Queue μ ρ) (events : List (Event μ ρ)) : Prop where
  | trimmed (hpending : queue.pending.Trims next.pending) (hinProgress : queue.inProgress.Trims next.inProgress)
      (hkey : next.nextKey = queue.nextKey) (hid : next.nextId = queue.nextId)
      (hadmitted : events.filterMap Event.admitted? = []) (hdispatched : dispatches events = [])
  | accepted {message : μ} {rest : List (Frame μ ρ)} {now : Instant} (hstack : queue.stack = .enqueuing message :: rest)
      (hmove : move = .read (.time now))
      (hpending : next.pending =
        queue.pending.push queue.nextKey now { id := ⟨queue.nextId⟩, message, enqueuedAt := now })
      (hinProgress : next.inProgress = queue.inProgress) (hkey : next.nextKey = queue.nextKey + 1)
      (hid : next.nextId = queue.nextId + 1) (hrest : next.stack = rest)
      (hadmitted : events.filterMap Event.admitted? = [⟨queue.nextId⟩])
      (hdispatched : dispatches events = [])
  | started {bound : Nat} {entry : Entry μ} {rest : List (Frame μ ρ)} {now : Instant}
      (hstack : queue.stack = .starting bound entry :: rest) (hmove : move = .read (.time now))
      (hpending : next.pending = queue.pending)
      (hinProgress : next.inProgress = queue.inProgress.push queue.nextKey now { entry with startedAt := some now })
      (hkey : next.nextKey = queue.nextKey + 1) (hid : next.nextId = queue.nextId)
      (hadmitted : events.filterMap Event.admitted? = [])
      (hdispatched : dispatches events =
        [({ key := queue.nextKey, id := entry.id }, entry.message)])

theorem Change.unchanged {queue next : Queue μ ρ} {move : Move μ ρ} {events : List (Event μ ρ)}
    (hpending : next.pending = queue.pending) (hinProgress : next.inProgress = queue.inProgress)
    (hkey : next.nextKey = queue.nextKey) (hid : next.nextId = queue.nextId)
    (hadmitted : events.filterMap Event.admitted? = []) (hdispatched : dispatches events = []) :
    Change queue move next events :=
  .trimmed (by rw [hpending]; exact .refl _) (by rw [hinProgress]; exact .refl _) hkey hid hadmitted hdispatched

theorem Transition.change {queue next : Queue μ ρ} {move : Move μ ρ} {events : List (Event μ ρ)}
    (h : Transition queue move next events) : Change queue move next events := by
  cases h with
  | @scan now name scan =>
      cases name with
      | pending => exact .trimmed (Lane.trims_takeOverdue _ scan now) (.refl _) rfl rfl (by simp) (by simp [dispatches])
      | inProgress =>
          exact .trimmed (.refl _) (Lane.trims_takeOverdue _ scan now) rfl rfl (by simp) (by simp [dispatches])
  | @pop bound => exact .trimmed (Lane.trims_popFront _ bound) (.refl _) rfl rfl rfl rfl
  | accept now hstack =>
      exact .accepted hstack rfl rfl rfl rfl rfl rfl (by simp [List.filterMap_cons]) (by simp [dispatches])
  | start now hstack =>
      exact .started hstack rfl rfl rfl rfl rfl (by simp) (by simp [dispatches, List.filterMap_cons])
  | drain => exact .trimmed (Lane.trims_clear _) (Lane.trims_clear _) rfl rfl rfl rfl
  | drainEmpty => exact .trimmed (Lane.trims_clear _) (Lane.trims_clear _) rfl rfl rfl rfl
  | @complete token =>
      exact .trimmed (by simpa using .refl _) (by simpa using Lane.trims_remove _ token.key) (by simp) (by simp) rfl rfl
  | @completeLate token => exact .trimmed (.refl _) (Lane.trims_remove _ token.key) rfl rfl rfl rfl
  | retire => exact .unchanged (by simp) (by simp) (by simp) (by simp) rfl rfl
  | cancel => exact .unchanged (by simp) (by simp) (by simp) (by simp) rfl rfl
  | startUnread => exact .unchanged (by simp) (by simp) (by simp) (by simp) rfl rfl
  | drop => exact .unchanged rfl rfl rfl rfl (by simp) (by simp [dispatches])
  | dropToken => exact .unchanged rfl rfl rfl rfl (by simp) (by simp [dispatches])
  | _ => exact .unchanged rfl rfl rfl rfl rfl rfl

-- Both lanes are sound, under keys that were given out.
structure Ordered (queue : Queue μ ρ) : Prop where
  pending : queue.pending.Sound .admission
  inProgress : queue.inProgress.Sound .start
  pendingKeys : ∀ slot ∈ queue.pending.slots, slot.key < queue.nextKey
  inProgressKeys : ∀ slot ∈ queue.inProgress.slots, slot.key < queue.nextKey

theorem Ordered.make (settings : Settings) (observed : Bool) : (make settings observed : Queue μ ρ).Ordered where
  pending := .empty _
  inProgress := .empty _
  pendingKeys := by simp [Queue.make]
  inProgressKeys := by simp [Queue.make]

theorem Ordered.lane {queue : Queue μ ρ} (h : queue.Ordered) (name : LaneName) :
    (queue.lane name).Sound name.origin := by
  cases name with
  | pending => exact h.pending
  | inProgress => exact h.inProgress

theorem Change.ordered {queue next : Queue μ ρ} {move : Move μ ρ} {events : List (Event μ ρ)}
    (h : Change queue move next events) (hs : queue.Ordered) : next.Ordered := by
  cases h with
  | trimmed hpending hinProgress hkey =>
      exact {
        pending := hs.pending.trims hpending
        inProgress := hs.inProgress.trims hinProgress
        pendingKeys := fun slot hslot => hkey ▸ hs.pendingKeys slot (hpending.slots.subset hslot)
        inProgressKeys := fun slot hslot => hkey ▸ hs.inProgressKeys slot (hinProgress.slots.subset hslot) }
  | accepted hstack hmove hpending hinProgress hkey =>
      exact {
        pending := by rw [hpending]; exact hs.pending.push _ _ _ hs.pendingKeys rfl
        inProgress := by rw [hinProgress]; exact hs.inProgress
        pendingKeys := by rw [hpending, hkey]; exact Lane.key_lt_push hs.pendingKeys _ _
        inProgressKeys := by
          rw [hinProgress, hkey]
          exact fun slot hslot => Nat.lt_succ_of_lt (hs.inProgressKeys slot hslot) }
  | started hstack hmove hpending hinProgress hkey =>
      exact {
        pending := by rw [hpending]; exact hs.pending
        inProgress := by rw [hinProgress]; exact hs.inProgress.push _ _ _ hs.inProgressKeys rfl
        pendingKeys := by
          rw [hpending, hkey]
          exact fun slot hslot => Nat.lt_succ_of_lt (hs.pendingKeys slot hslot)
        inProgressKeys := by rw [hinProgress, hkey]; exact Lane.key_lt_push hs.inProgressKeys _ _ }

theorem ordered_step {queue : Queue μ ρ} (h : queue.Ordered) (move : Move μ ρ) : (queue.step move).1.Ordered :=
  (transition_step queue move).change.ordered h

def bounds (queue : Queue μ ρ) : List Nat :=
  queue.stack.flatMap Frame.bounds

-- No pending entry is out of reach of a dispatch that is running.
def Bounded (queue : Queue μ ρ) : Prop :=
  ∀ bound ∈ queue.bounds, ∀ slot ∈ queue.pending.slots, slot.key ≤ bound

-- A dispatch that finds nothing within its bound has dispatched all that waited.
theorem Bounded.pending_eq_nil {queue : Queue μ ρ} (h : queue.Bounded) {bound : Nat} {rest : List (Frame μ ρ)}
    (hstack : queue.stack = .dispatching bound :: rest) (hpop : (queue.pending.popFront bound).1 = none) :
    queue.pending.entries = [] := by
  cases hslots : queue.pending.slots with
  | nil => simp [Lane.entries, hslots]
  | cons slot slots =>
      have hbound := h bound (by simp [bounds, hstack]) slot (by simp [hslots])
      rw [Lane.popFront_cons _ bound slot slots hslots hbound] at hpop
      exact absurd hpop (Option.some_ne_none _)

theorem bounds_raise (queue : Queue μ ρ) (source : Source) (notice : Notice μ ρ) :
    (queue.raise source notice).1.bounds = queue.bounds :=
  flatMap_stack_raise queue source notice Frame.bounds rfl

theorem bounds_unwind (queue : Queue μ ρ) (stack : List (Frame μ ρ)) (text : String)
    (hsuffix : stack <:+ queue.stack) : (queue.unwind stack text).1.bounds ⊆ queue.bounds := by
  have hrest := (queue.unwind_suffix stack text).trans hsuffix
  intro bound hbound
  obtain ⟨frame, hframe, hmem⟩ := List.mem_flatMap.mp hbound
  exact List.mem_flatMap.mpr ⟨frame, hrest.subset hframe, hmem⟩

-- Only the start of a dispatch sets a new bound.
theorem Transition.bounds {queue next : Queue μ ρ} {move : Move μ ρ} {events : List (Event μ ρ)}
    (h : Transition queue move next events) :
    next.bounds ⊆ queue.bounds ∨
      ∃ bound, queue.pending.lastKey? = some bound ∧ next.pending = queue.pending ∧
        next.bounds = bound :: queue.bounds := by
  cases h with
  | gather hstack hkey => exact .inr ⟨_, hkey, rfl, by simp [Queue.bounds, hstack]⟩
  | clockPanic text => exact .inl (queue.bounds_unwind _ text (List.suffix_refl _))
  | @panic frame rest text hstack => exact .inl (queue.bounds_unwind _ text (hstack ▸ List.suffix_cons frame rest))
  | @finish frame rest hstack => exact .inl (by simp [Queue.bounds, hstack])
  | retire hstack => exact .inl (by rw [bounds_raise]; simp [Queue.bounds, hstack])
  | cancel hstack => exact .inl (by rw [bounds_raise]; simp [Queue.bounds, hstack])
  | startUnread fault hstack => exact .inl (by rw [bounds_raise]; simp [Queue.bounds, hstack])
  | complete => exact .inl (by rw [bounds_raise]; simp [Queue.bounds])
  | _ => exact .inl (by simp [Queue.bounds, *])

theorem Bounded.step {queue : Queue μ ρ} (h : queue.Bounded) (hordered : queue.Ordered) (hstacked : queue.Stacked)
    (move : Move μ ρ) : (queue.step move).1.Bounded := by
  have hstep := transition_step queue move
  rcases hstep.bounds with hbounds | ⟨bound, hkey, hpending, hbounds⟩
  · intro bound hbound slot hslot
    cases hstep.change with
    | trimmed hpending => exact h bound (hbounds hbound) slot (hpending.slots.subset hslot)
    | @accepted message rest now hstack =>
        -- No dispatch lies below an enqueue.
        have hmem : bound ∈ rest.flatMap Frame.bounds := by
          simpa [Queue.bounds, hstack] using hbounds hbound
        obtain ⟨frame, hframe, hmem⟩ := List.mem_flatMap.mp hmem
        have hholds := List.any_eq_false.mp (hstacked.fits hstack).1 frame hframe
        cases frame <;> simp_all [Frame.holdsQueue]
    | started hstack hmove hpending => exact h bound (hbounds hbound) slot (hpending ▸ hslot)
  · intro other hother slot hslot
    rw [hbounds, List.mem_cons] at hother
    rw [hpending] at hslot
    rcases hother with rfl | hother
    · exact hordered.pending.key_le_lastKey _ hkey slot hslot
    · exact h other hother slot hslot

end Queue

end DeadlineQueue
