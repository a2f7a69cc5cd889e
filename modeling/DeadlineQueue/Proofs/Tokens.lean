import DeadlineQueue.Proofs.Admission
import Mathlib.Data.List.Flatten

namespace DeadlineQueue

variable {μ ρ : Type}

-- What the processor was handed, by id.
def labelOf (issue : Token × μ) : MessageId × μ :=
  (issue.1.id, issue.2)

-- What the processor was handed when this slot was filled.
def Slot.issue (slot : Slot μ) : Token × μ :=
  ({ key := slot.key, id := slot.entry.id }, slot.entry.message)

-- The entry that has left the pending lane and is not dispatched yet.
@[simp] def Frame.unstarted : Frame μ ρ → List (Entry μ)
  | starting _ entry => [entry]
  | _ => []

theorem unstarted_of_not_holdsQueue (stack : List (Frame μ ρ)) (h : stack.any Frame.holdsQueue = false) :
    stack.flatMap Frame.unstarted = [] :=
  flatMap_of_not_holdsQueue stack Frame.unstarted (fun frame hframe => by cases frame <;> simp_all [Frame.holdsQueue]) h

theorem Lane.Trims.entries {lane next : Lane μ} (h : lane.Trims next) : next.entries.Sublist lane.entries :=
  h.slots.map _

namespace Queue

-- The entries that are still to be dispatched, in the order in which that will be.
def unstarted (queue : Queue μ ρ) : List (Entry μ) :=
  queue.stack.flatMap Frame.unstarted ++ queue.pending.entries

theorem unstarted_raise (queue : Queue μ ρ) (source : Source) (notice : Notice μ ρ) :
    (queue.raise source notice).1.unstarted = queue.unstarted := by
  unfold unstarted
  rw [flatMap_stack_raise _ _ _ Frame.unstarted rfl, pending_raise]

theorem unstarted_unwind (queue : Queue μ ρ) (stack : List (Frame μ ρ)) (text : String)
    (hsuffix : stack <:+ queue.stack) : (queue.unwind stack text).1.unstarted.Sublist queue.unstarted := by
  have hrest := (queue.unwind_suffix stack text).trans hsuffix
  exact (hrest.sublist.flatMap _).append (List.Sublist.refl _)

-- A step that dispatches nothing may take waiting entries away but does not move one.
theorem fifo_of_sublist {queue next : Queue μ ρ} {events : List (Event μ ρ)}
    (hdispatched : dispatches events = []) (h : next.unstarted.Sublist queue.unstarted) :
    ((dispatches events).map labelOf ++ next.unstarted.map Entry.labelled).Sublist
      (queue.unstarted.map Entry.labelled ++ queue.accepted events) := by
  rw [hdispatched]
  exact (h.map _).trans (List.sublist_append_left _ _)

-- What is dispatched comes first among what waits, and what is admitted comes last.
theorem Transition.fifo {queue next : Queue μ ρ} {move : Move μ ρ} {events : List (Event μ ρ)}
    (h : Transition queue move next events) (hs : queue.Stacked) :
    ((dispatches events).map labelOf ++ next.unstarted.map Entry.labelled).Sublist
      (queue.unstarted.map Entry.labelled ++ queue.accepted events) := by
  cases h with
  | idle => exact fifo_of_sublist rfl (.refl _)
  | @scan now name scan scans rest hstack =>
      apply fifo_of_sublist (by simp [dispatches])
      cases name with
      | pending =>
          have hentries := (queue.pending.trims_takeOverdue scan now).entries
          simpa [unstarted, hstack] using hentries
      | inProgress => simp [unstarted, hstack]
  | @pop bound entry rest hstack hpop =>
      have hrest := unstarted_of_not_holdsQueue rest (hs.fits hstack).1
      have hentries := queue.pending.entries_eq_cons_of_popFront bound entry hpop
      exact fifo_of_sublist rfl (by simp [unstarted, hstack, hrest, hentries])
  | @accept message rest now hstack =>
      simp [dispatches, unstarted, accepted, hstack, append, Lane.entries_push, Entry.labelled, List.filterMap_cons]
  | @start bound entry rest now hstack =>
      have hrest := unstarted_of_not_holdsQueue rest (hs.fits hstack).1
      simp [dispatches, unstarted, accepted, hstack, hrest, append, labelOf, Entry.labelled, List.filterMap_cons]
  | drain => exact fifo_of_sublist rfl ((List.Sublist.refl _).append (List.nil_sublist _))
  | drainEmpty => exact fifo_of_sublist rfl ((List.Sublist.refl _).append (List.nil_sublist _))
  | clockPanic text => exact fifo_of_sublist rfl (queue.unstarted_unwind _ text (List.suffix_refl _))
  | @panic frame rest text hstack =>
      exact fifo_of_sublist rfl (queue.unstarted_unwind _ text (hstack ▸ List.suffix_cons frame rest))
  | @finish frame rest hstack huser =>
      exact fifo_of_sublist rfl (by simp [unstarted, hstack])
  | drop => exact fifo_of_sublist (by simp [dispatches]) (.refl _)
  | dropToken => exact fifo_of_sublist (by simp [dispatches]) (.refl _)
  | retire hstack =>
      apply fifo_of_sublist rfl
      rw [unstarted_raise]
      simp [unstarted, hstack]
  | cancel hstack =>
      apply fifo_of_sublist rfl
      rw [unstarted_raise]
      simp [unstarted, hstack]
  | startUnread fault hstack =>
      apply fifo_of_sublist rfl
      rw [unstarted_raise]
      simp [unstarted, hstack]
  | complete =>
      apply fifo_of_sublist rfl
      rw [unstarted_raise]
      simp [unstarted]
  | _ => exact fifo_of_sublist rfl (by simp [unstarted, *])

-- A token is out from its dispatch until it is used up.
theorem Transition.held {queue next : Queue μ ρ} {move : Move μ ρ} {events : List (Event μ ρ)}
    (h : Transition queue move next events) :
    next.held.Sublist (queue.held ++ (dispatches events).map Prod.fst) := by
  cases h with
  | scan => simp
  | retire => simp
  | cancel => simp
  | startUnread => simp
  | start => simp [dispatches, List.filterMap_cons]
  | complete => simpa using List.erase_sublist.trans (List.sublist_append_left _ _)
  | completeLate => exact List.erase_sublist.trans (List.sublist_append_left _ _)
  | completeOrphan => exact List.erase_sublist.trans (List.sublist_append_left _ _)
  | dropToken => exact List.erase_sublist.trans (List.sublist_append_left _ _)
  | _ => exact List.sublist_append_left _ _

-- What is in progress was so before or has just been dispatched.
theorem Transition.issues {queue next : Queue μ ρ} {move : Move μ ρ} {events : List (Event μ ρ)}
    (h : Transition queue move next events) :
    (next.inProgress.slots.map Slot.issue).Sublist (queue.inProgress.slots.map Slot.issue ++ dispatches events) := by
  cases h.change with
  | trimmed _ hinProgress => exact (hinProgress.slots.map _).trans (List.sublist_append_left _ _)
  | accepted _ _ _ hinProgress =>
      rw [hinProgress]
      exact List.sublist_append_left _ _
  | started _ _ _ hinProgress _ _ _ hdispatched =>
      rw [hinProgress, hdispatched, Lane.push, List.map_append]
      exact List.Sublist.refl _

-- What holds of a state and of all that was dispatched before it. Dispatch follows admission,
-- tokens differ in their keys, and an entry in progress is the one that its token was made for.
structure Traced (queue : Queue μ ρ) (admitted : List (MessageId × μ)) (events : List (Event μ ρ)) : Prop where
  order : ((dispatches events).map labelOf ++ queue.unstarted.map Entry.labelled).Sublist admitted
  tokens : (queue.inProgress.slots.map Slot.issue).Sublist (dispatches events)
  keys : (dispatches events).Pairwise (fun first second => first.1.key < second.1.key)
  fresh : ∀ issue ∈ dispatches events, issue.1.key < queue.nextKey
  held : queue.held.Sublist ((dispatches events).map Prod.fst)

theorem Traced.make (settings : Settings) (observed : Bool) : (make settings observed : Queue μ ρ).Traced [] [] where
  order := List.Sublist.refl []
  tokens := List.Sublist.refl []
  keys := .nil
  fresh := by simp [dispatches]
  held := List.Sublist.refl []

theorem Traced.step {queue : Queue μ ρ} {admitted : List (MessageId × μ)} {events : List (Event μ ρ)}
    (h : queue.Traced admitted events) (hs : queue.Stacked) (move : Move μ ρ) :
    (queue.step move).1.Traced (admitted ++ queue.accepted (queue.step move).2) (events ++ (queue.step move).2) := by
  have hstep := transition_step queue move
  have horder := hstep.fifo hs
  have hheld := hstep.held
  constructor
  · rw [dispatches_append, List.map_append, List.append_assoc]
    refine (horder.append_left _).trans ?_
    rw [← List.append_assoc]
    exact h.order.append_right _
  · rw [dispatches_append]
    exact hstep.issues.trans (h.tokens.append_right _)
  · rw [dispatches_append]
    cases hstep.change with
    | trimmed _ _ _ _ _ hdispatched => simpa [hdispatched] using h.keys
    | accepted _ _ _ _ _ _ _ _ hdispatched => simpa [hdispatched] using h.keys
    | started _ _ _ _ _ _ _ hdispatched =>
        rw [List.pairwise_append, hdispatched]
        exact ⟨h.keys, List.pairwise_singleton _ _, by simpa using h.fresh⟩
  · rw [dispatches_append]
    intro issue hissue
    cases hstep.change with
    | trimmed _ _ hkey _ _ hdispatched =>
        rw [hdispatched, List.append_nil] at hissue
        rw [hkey]
        exact h.fresh issue hissue
    | accepted _ _ _ _ hkey _ _ _ hdispatched =>
        rw [hdispatched, List.append_nil] at hissue
        rw [hkey]
        exact Nat.lt_succ_of_lt (h.fresh issue hissue)
    | started _ _ _ _ hkey _ _ hdispatched =>
        rw [hdispatched, List.mem_append, List.mem_singleton] at hissue
        rw [hkey]
        rcases hissue with hissue | rfl
        · exact Nat.lt_succ_of_lt (h.fresh issue hissue)
        · exact Nat.lt_succ_self _
  · rw [dispatches_append, List.map_append]
    exact hheld.trans (h.held.append_right _)

end Queue

end DeadlineQueue
