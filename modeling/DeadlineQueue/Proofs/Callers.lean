import DeadlineQueue.Proofs.Stack

namespace DeadlineQueue

variable {μ ρ : Type}

namespace Frame

-- The calls that raise notices, and wait for their delivery.
def raises : Frame μ ρ → Bool
  | dispatching _ | retiring _ _ | draining _ _ | completing => true
  | _ => false

-- What lies right below a frame. User code and a batch lie on the call they belong to, a delivery
-- on the call that raised a notice, and any other call on user code, if it was not made from outside.
def CalledFrom : Frame μ ρ → Option (Frame μ ρ) → Prop
  | retiring _ _, below => ∃ now scans, below = some (scanning now scans)
  | processing _ _, below => ∃ bound, below = some (dispatching bound)
  | notifying _, below => below = some delivering
  | delivering, below => ∃ frame, below = some frame ∧ frame.raises = true
  | _, below => ∀ frame ∈ below, frame.isUser = true

end Frame

def Called : List (Frame μ ρ) → Prop
  | [] => True
  | frame :: rest => frame.CalledFrom rest.head? ∧ Called rest

theorem Called.suffix {stack rest : List (Frame μ ρ)} (h : Called stack) (hsuffix : rest <:+ stack) : Called rest := by
  induction stack with
  | nil => rwa [List.suffix_nil.mp hsuffix]
  | cons frame below ih =>
      rcases List.suffix_cons_iff.mp hsuffix with rfl | hbelow
      · exact h
      · exact ih h.2 hbelow

-- A panic ends above the innermost user code.
theorem takeWhile_eq_nil {stack : List (Frame μ ρ)} (h : ∀ frame ∈ stack.head?, frame.isUser = true) :
    stack.takeWhile (fun frame => !frame.isUser) = [] := by
  cases stack with
  | nil => rfl
  | cons frame rest => rw [List.takeWhile_cons_of_neg (by simp [h frame rfl])]

-- A call that reads the clock was made by user code, so the clock's panic leaves just this call.
theorem Called.takeWhile_of_awaitsClock {frame : Frame μ ρ} {rest : List (Frame μ ρ)} (h : Called (frame :: rest))
    (hframe : frame.awaitsClock = true) : (frame :: rest).takeWhile (fun frame => !frame.isUser) = [frame] := by
  cases frame with
  | enqueuing | sweeping | starting => rw [List.takeWhile_cons_of_pos rfl, takeWhile_eq_nil h.1]
  | _ => exact absurd hframe Bool.false_ne_true

namespace Queue

theorem exists_awaitsClock (queue : Queue μ ρ) (hturn : queue.turn = .clock) :
    ∃ frame rest, queue.stack = frame :: rest ∧ frame.awaitsClock = true := by
  rcases queue.stack_of_turn_eq_clock hturn with ⟨_, rest, hstack⟩ | ⟨_, rest, hstack⟩ | ⟨_, _, rest, hstack⟩
  · exact ⟨_, rest, hstack, rfl⟩
  · exact ⟨_, rest, hstack, rfl⟩
  · exact ⟨_, rest, hstack, rfl⟩

theorem called_raise {queue : Queue μ ρ} (source : Source) (notice : Notice μ ρ) {frame : Frame μ ρ}
    {rest : List (Frame μ ρ)} (hstack : queue.stack = frame :: rest) (hframe : frame.raises = true)
    (h : Called queue.stack) : Called (queue.raise source notice).1.stack := by
  rw [stack_raise]
  split
  · exact h
  · exact ⟨⟨frame, by rw [hstack]; rfl, hframe⟩, h⟩

theorem called_enter {queue : Queue μ ρ} (hturn : queue.turn = .user) (h : Called queue.stack) (frame : Frame μ ρ)
    (hframe : (∀ below ∈ queue.stack.head?, below.isUser = true) → frame.CalledFrom queue.stack.head?) :
    Called (frame :: queue.stack) :=
  ⟨hframe ((turn_eq_user_iff queue).mp hturn), h⟩

-- Every call keeps what it was called from.
theorem Transition.called {queue next : Queue μ ρ} {move : Move μ ρ} {events : List (Event μ ρ)}
    (h : Transition queue move next events) (hs : Called queue.stack) : Called next.stack := by
  cases h with
  | idle | busy | dropped | noToken | skip | drainEmpty | setLimits | drop | completeLate
  | completeOrphan | dropToken => exact hs
  | scan hstack =>
      rw [hstack] at hs
      exact ⟨⟨_, _, rfl⟩, hs⟩
  | retire hstack | cancel hstack | startUnread fault hstack =>
      rw [hstack] at hs
      exact called_raise _ _ rfl rfl hs
  | retiredAll hstack =>
      rw [hstack] at hs
      exact hs.2
  | notify hstack =>
      rw [hstack] at hs
      exact ⟨rfl, hs⟩
  | start now hstack =>
      rw [hstack] at hs
      exact ⟨⟨_, rfl⟩, hs⟩
  | clockPanic text => exact hs.suffix (unwind_suffix queue queue.stack text)
  | enqueue message hturn | tick hturn | tickUnlimited hturn | drain hturn => exact called_enter hturn hs _ id
  | complete outcome reason hturn => exact called_raise _ _ rfl rfl (called_enter hturn hs _ id)
  | @finish frame rest hstack => exact hs.suffix (hstack ▸ List.suffix_cons frame rest)
  | panic text hstack => exact hs.suffix (unwind_suffix_of_cons queue hstack text)
  | _ => simp_all [Called, Frame.CalledFrom]

theorem Stacked.run {queue : Queue μ ρ} (h : queue.Stacked) (moves : List (Move μ ρ)) :
    (queue.run moves).1.Stacked :=
  run_invariant (P := fun queue _ _ => queue.Stacked) moves
    (fun queue _ _ move _ h => (transition_step queue move).stacked h) queue [] [] h

theorem called_run_of {queue : Queue μ ρ} (h : Called queue.stack) (moves : List (Move μ ρ)) :
    Called (queue.run moves).1.stack :=
  run_invariant (P := fun queue _ _ => Called queue.stack) moves
    (fun queue _ _ move _ h => (transition_step queue move).called h) queue [] [] h

theorem called_run (settings : Settings) (observed : Bool) (moves : List (Move μ ρ)) :
    Called ((make settings observed).run moves).1.stack :=
  have hmake : Called (make settings observed : Queue μ ρ).stack := trivial
  called_run_of hmake moves

end Queue

end DeadlineQueue
