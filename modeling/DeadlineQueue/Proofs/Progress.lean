import DeadlineQueue.Proofs.Accounting
import DeadlineQueue.Proofs.Spans

namespace DeadlineQueue

variable {μ ρ : Type}

namespace Lane

theorem card_census (lane : Lane μ) : lane.census.card = lane.size := by
  simp [census, DeadlineQueue.census, entries, size]

theorem size_push (lane : Lane μ) (key : Nat) (stamp : Instant) (entry : Entry μ) :
    (lane.push key stamp entry).size = lane.size + 1 := by
  simp [size, push]

theorem size_takeOverdue (lane : Lane μ) (scan : Scan) (now : Instant) :
    (lane.takeOverdue scan now).1.length + (lane.takeOverdue scan now).2.size = lane.size := by
  have hcard := congrArg Multiset.card (lane.census_takeOverdue scan now)
  rw [Multiset.card_add, card_census, card_census] at hcard
  simpa [DeadlineQueue.census] using hcard

theorem size_popFront (lane : Lane μ) (bound : Nat) (entry : Entry μ) (h : (lane.popFront bound).1 = some entry) :
    (lane.popFront bound).2.size + 1 = lane.size := by
  have hcard := congrArg Multiset.card (lane.census_popFront bound entry h)
  rw [Multiset.card_add, card_census, card_census, Multiset.card_singleton] at hcard
  omega

theorem size_remove_of_none (lane : Lane μ) (key : Nat) (h : (lane.remove key).1 = none) :
    (lane.remove key).2.size = lane.size := by
  rw [size, slots_remove_of_none lane key h, size]

theorem Sound.size_remove {lane : Lane μ} {origin : Origin} (hsound : lane.Sound origin) (key : Nat) (entry : Entry μ)
    (h : (lane.remove key).1 = some entry) : (lane.remove key).2.size + 1 = lane.size := by
  have hcard := congrArg Multiset.card (hsound.census_remove key entry h)
  rw [Multiset.card_add, card_census, card_census, Multiset.card_singleton] at hcard
  omega

end Lane

-- How many steps a running call can still take when user code does nothing but use up its token.
-- What it holds counts with the notice that is raised of it and the delivery of that.
def Frame.effort (held : List Token) : Frame μ ρ → Nat
  | enqueuing _ => 10
  | sweeping scans => 2 * scans.length + 4
  | scanning _ scans => 2 * scans.length + 3
  | gathering => 2
  | dispatching _ | completing | delivering | notifying _ => 1
  | starting _ _ => 8
  | retiring _ batch | draining batch _ => 4 * batch.length + 1
  | processing token _ => if token ∈ held then 2 else 1

theorem Frame.effort_mono {held kept : List Token} (h : kept ⊆ held) (frame : Frame μ ρ) :
    frame.effort kept ≤ frame.effort held := by
  cases frame with
  | processing token message =>
      simp only [effort]
      split
      · rename_i hkept
        rw [if_pos (h hkept)]
      · split <;> omega
  | _ => exact Nat.le_refl _

-- No processor runs below a call that holds the queue.
theorem Nested.effort_eq {stack : List (Frame μ ρ)} (h : Nested stack) (hfree : stack.any Frame.holdsQueue = false)
    (held other : List Token) : stack.map (Frame.effort held) = stack.map (Frame.effort other) := by
  apply List.map_congr_left
  intro frame hframe
  cases frame with
  | processing token message =>
      obtain ⟨above, below, rfl⟩ := List.append_of_mem hframe
      obtain ⟨bound, rest, rfl⟩ := (h.suffix (List.suffix_append above _)).1
      simp [Frame.holdsQueue] at hfree
  | _ => rfl

-- A move with which no call is made and nothing panics.
def Move.quiet : Move μ ρ → Bool
  | .advance | .read (.time _) | .read (.failed _) | .finish => true
  | _ => false

namespace Queue

def effort (queue : Queue μ ρ) : Nat :=
  8 * queue.pending.size + 4 * queue.inProgress.size + 2 * queue.outbox.length +
    (queue.stack.map (Frame.effort queue.held)).sum

-- A notice, and perhaps the delivery that it starts.
theorem effort_raise (queue : Queue μ ρ) (source : Source) (notice : Notice μ ρ) :
    (queue.raise source notice).1.effort ≤ queue.effort + 3 := by
  unfold effort
  rw [stack_raise]
  split
  · simp
    omega
  · simp [Frame.effort]
    omega

-- Without new calls every step brings the running ones nearer to their end.
theorem Transition.effort {queue next : Queue μ ρ} {move : Move μ ρ} {events : List (Event μ ρ)}
    (h : Transition queue move next events) (hs : queue.Stacked) (hquiet : move.quiet = true)
    (hawaits : queue.Awaits move) : next.effort < queue.effort := by
  cases h with
  | idle _ hidle => exact absurd hawaits hidle
  | @scan now name scan scans rest hstack =>
      cases name with
      | pending =>
          have hsize := queue.pending.size_takeOverdue scan now
          simp [Queue.effort, hstack, Frame.effort]
          omega
      | inProgress =>
          have hsize := queue.inProgress.size_takeOverdue scan now
          simp [Queue.effort, hstack, Frame.effort]
          omega
  | retire hstack | cancel hstack | startUnread fault hstack =>
      refine (effort_raise _ _ _).trans_lt ?_
      simp [Queue.effort, hstack, Frame.effort]
      omega
  | @pop bound entry rest hstack hpop =>
      have hsize := queue.pending.size_popFront bound entry hpop
      simp [Queue.effort, hstack, Frame.effort]
      omega
  | notify hstack houtbox =>
      simp [Queue.effort, hstack, houtbox, Frame.effort]
      omega
  | skip hstack houtbox =>
      simp [Queue.effort, hstack, houtbox]
  | accept now hstack =>
      simp [Queue.effort, hstack, append, Lane.size_push, Frame.effort]
      omega
  | @start bound entry rest now hstack =>
      have hrest := (hs.fits hstack).2.effort_eq (hs.fits hstack).1
        (queue.held ++ [{ key := queue.nextKey, id := entry.id }]) queue.held
      simp [Queue.effort, hstack, append, Lane.size_push, Frame.effort, hrest]
      omega
  | sweepUnread fault hstack =>
      simp [Queue.effort, hstack, Frame.effort]
  | @finish frame rest hstack huser =>
      have hframe : 0 < frame.effort queue.held := by
        cases frame <;> simp_all [Frame.isUser, Frame.effort]
        split <;> omega
      simp [Queue.effort, hstack]
      omega
  -- What is left are moves that are not quiet, and returns.
  | _ => first | exact absurd hquiet Bool.false_ne_true | simp [Queue.effort, *, Frame.effort]

-- Whoever has to act can, and lets the running calls come to their end.
theorem exists_quiet (queue : Queue μ ρ) (hstack : queue.stack ≠ []) (now : Instant) :
    ∃ move : Move μ ρ, (move = .advance ∨ move = .read (.time now) ∨ move = .finish) ∧ queue.Awaits move := by
  cases hturn : queue.turn with
  | queue => exact ⟨.advance, .inl rfl, hturn⟩
  | clock => exact ⟨.read (.time now), .inr (.inl rfl), hturn⟩
  | user => exact ⟨.finish, .inr (.inr rfl), hturn, hstack⟩

-- Every call returns if the user code that it calls does, with whatever time the clock then tells.
theorem exists_spans (queue : Queue μ ρ) (hs : queue.Stacked) (depth : Nat) (now : Instant) :
    ∃ moves : List (Move μ ρ), (∀ move ∈ moves, move = .advance ∨ move = .read (.time now) ∨ move = .finish) ∧
      queue.spans depth moves = true := by
  by_cases hdepth : depth < queue.stack.length
  · obtain ⟨move, hmove, hawaits⟩ := queue.exists_quiet (List.ne_nil_of_length_pos (by omega)) now
    have hstep := transition_step queue move
    have heffort := hstep.effort hs (by rcases hmove with rfl | rfl | rfl <;> rfl) hawaits
    obtain ⟨moves, hmoves, hspans⟩ := exists_spans _ (hstep.stacked hs) depth now
    exact ⟨move :: moves, by simpa using ⟨hmove, hmoves⟩, by simp [spans, hdepth, hspans]⟩
  · exact ⟨[], by simp, by simpa [spans] using hdepth⟩
termination_by queue.effort

end Queue

end DeadlineQueue
