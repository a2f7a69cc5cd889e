import DeadlineQueue.Proofs.Progress
import DeadlineQueue.Proofs.Tick.Upcoming
import DeadlineQueue.Simulation.World
import Mathlib.Algebra.Order.BigOperators.Group.List
import Mathlib.Algebra.Order.Group.Nat

namespace DeadlineQueue

variable {μ ρ : Type}

theorem Limits.length_scans (limits : Limits) : limits.scans.length ≤ 3 := by
  unfold scans
  cases limits.waitDeadline <;> cases limits.processingDeadline <;> simp

theorem Frame.effort_pos (held : List Token) (frame : Frame μ ρ) : 0 < frame.effort held := by
  cases frame with
  | processing token message =>
      simp only [effort]
      split <;> omega
  | _ => simp [effort]

namespace Queue

theorem stack_eq_nil_of_effort {queue : Queue μ ρ} (h : queue.effort = 0) : queue.stack = [] := by
  cases hstack : queue.stack with
  | nil => rfl
  | cons frame rest =>
      have hframe := frame.effort_pos queue.held
      simp only [effort, hstack, List.map_cons, List.sum_cons] at h
      omega

theorem Sound.held_nodup {queue : Queue μ ρ} {admitted : List (MessageId × μ)} {past : List (Event μ ρ)}
    (h : queue.Sound admitted past) : queue.held.Nodup := by
  have hkeys := h.keys_nodup
  rw [← Function.comp_def Token.key Prod.fst, ← List.map_map] at hkeys
  exact h.traced.held.nodup hkeys.of_map

section token

variable {queue next : Queue μ ρ} {call : Call μ ρ} {events : List (Event μ ρ)}

-- A processor that has used up its token is a step nearer to its end.
theorem effort_erase {token : Token} {message : μ} {rest : List (Frame μ ρ)}
    (hstack : queue.stack = .processing token message :: rest) (hnodup : queue.held.Nodup)
    (hheld : token ∈ queue.held) :
    (queue.stack.map (Frame.effort (queue.held.erase token))).sum <
      (queue.stack.map (Frame.effort queue.held)).sum := by
  have hrest : (rest.map (Frame.effort (queue.held.erase token))).sum ≤ (rest.map (Frame.effort queue.held)).sum :=
    List.sum_le_sum fun frame _ => frame.effort_mono List.erase_subset
  have hused : token ∉ queue.held.erase token := hnodup.not_mem_erase
  simp only [hstack, List.map_cons, List.sum_cons, Frame.effort, if_pos hheld, if_neg hused]
  omega

theorem Transition.effort_token (h : Transition queue (.call call) next events) (hordered : queue.Ordered)
    (hnodup : queue.held.Nodup) {token : Token} {message : μ} {rest : List (Frame μ ρ)}
    (hstack : queue.stack = .processing token message :: rest) (hcall : call.token? = some token)
    (hheld : token ∈ queue.held) : next.effort < queue.effort := by
  have herase := effort_erase hstack hnodup hheld
  have hturn : queue.turn = .user := (turn_eq_user_iff queue).mpr (by simp [hstack, Frame.isUser])
  cases h with
  | idle _ hidle => exact absurd hturn hidle
  | @complete other entry outcome reason _ _ _ hentry =>
      obtain rfl : other = token := Option.some.inj hcall
      have hsize := hordered.inProgress.size_remove other.key entry hentry
      refine (effort_raise _ _ _).trans_lt ?_
      simp only [Queue.effort, List.map_cons, List.sum_cons, Frame.effort]
      omega
  | @completeLate other outcome reason _ _ _ hentry =>
      obtain rfl : other = token := Option.some.inj hcall
      have hsize := queue.inProgress.size_remove_of_none other.key hentry
      simp only [Queue.effort]
      omega
  | @completeOrphan other | @dropToken other =>
      obtain rfl : other = token := Option.some.inj hcall
      simp only [Queue.effort]
      omega
  | noToken _ hother hfree =>
      obtain rfl := Option.some.inj (hcall.symm.trans hother)
      exact absurd hheld hfree
  -- No other call names a token.
  | busy _ hnone | dropped _ hnone => exact absurd (hcall.symm.trans hnone) (Option.some_ne_none token)
  | _ => exact absurd hcall.symm (Option.some_ne_none token)

-- A call from outside takes no more than its turns.
theorem Transition.effort_call (h : Transition queue (.call call) next events) (hordered : queue.Ordered)
    (hstack : queue.stack = []) : next.effort ≤ Simulation.World.turns queue := by
  unfold Simulation.World.turns size
  cases h with
  | tick =>
      have hscans := queue.limits.length_scans
      simp [Queue.effort, hstack, Frame.effort]
      omega
  | drain =>
      simp [Queue.effort, hstack, Frame.effort, Lane.size, Lane.entries]
      omega
  | @complete token entry outcome reason _ _ _ hentry =>
      have hsize := hordered.inProgress.size_remove token.key entry hentry
      refine (effort_raise _ _ _).trans ?_
      simp [Queue.effort, hstack, Frame.effort]
      omega
  | @completeLate token outcome reason _ _ _ hentry =>
      have hsize := queue.inProgress.size_remove_of_none token.key hentry
      simp [Queue.effort, hstack]
      omega
  | _ =>
      simp [Queue.effort, hstack, Frame.effort, Lane.size]
      omega

end token

end Queue

namespace Simulation.World

open Queue

-- Whoever uses a queue in simulated time lets its calls return, and uses up a token if it uses it.
theorem react_cases (world : World μ ρ) (queue : Queue μ ρ) :
    queue.stack = [] ∧ world.react queue = (.rest, world) ∨
      queue.stack ≠ [] ∧ world.react queue = (.move .finish, world) ∨
        ∃ token message rest call, queue.stack = .processing token message :: rest ∧ token ∈ queue.held ∧
          call.token? = some token ∧ world.react queue = (.move (.call call), world) := by
  unfold react
  split
  · rename_i hstack
    exact .inl ⟨hstack, rfl⟩
  · rename_i token message rest hstack
    have hne : queue.stack ≠ [] := by simp [hstack]
    split
    · rename_i hheld
      cases world.behaviour message with
      | drop => exact .inr (.inr ⟨token, message, rest, .dropToken token, hstack, hheld, rfl, rfl⟩)
      | reportNow outcome reason =>
          exact .inr (.inr ⟨token, message, rest, .complete token outcome reason, hstack, hheld, rfl, rfl⟩)
      | keep | reportAfter => exact .inr (.inl ⟨hne, rfl⟩)
    · exact .inr (.inl ⟨hne, rfl⟩)
  · rename_i hne _
    exact .inr (.inl ⟨hne, rfl⟩)

theorem now_observe (world : World μ ρ) (events : List (Event μ ρ)) :
    (events.foldl observe world).now = world.now := by
  induction events generalizing world with
  | nil => rfl
  | cons event events ih =>
      rw [List.foldl_cons, ih]
      unfold observe
      split
      · rfl
      · dsimp only
        split <;> rfl
      · rfl
      · rfl
      · rfl

-- A play that has turns enough ends when the last call has returned. What the surroundings saw is
-- what happened in the run that it went through.
theorem play_eq_run {queue : Queue μ ρ} {admitted : List (MessageId × μ)} {past : List (Event μ ρ)}
    (hs : queue.Sound admitted past) {turns : Nat} (heffort : queue.effort ≤ turns) (world : World μ ρ) :
    ∃ moves, (∀ move ∈ moves, move.routineAt world.now ∧ move.takesQueue = false) ∧ queue.spans 0 moves = true ∧
      host.play turns world queue = ((queue.run moves).2.foldl observe world, (queue.run moves).1) := by
  induction turns generalizing queue admitted past world with
  | zero =>
      have hstack := stack_eq_nil_of_effort (Nat.le_zero.mp heffort)
      exact ⟨[], by simp, by simp [spans, hstack], rfl⟩
  | succ turns ih =>
      -- A move that comes nearer to the end, and the play after it.
      have hmove (move : Move μ ρ) (hawaits : queue.stack ≠ []) (hroutine : move.routineAt world.now)
          (htakes : move.takesQueue = false) (hless : (queue.step move).1.effort < queue.effort) :
          ∃ moves, (∀ move ∈ moves, move.routineAt world.now ∧ move.takesQueue = false) ∧ queue.spans 0 moves = true ∧
            host.play turns (host.apply world queue move).1 (host.apply world queue move).2 =
              ((queue.run moves).2.foldl observe world, (queue.run moves).1) := by
        obtain ⟨moves, hmoves, hspans, hplay⟩ :=
          ih (hs.step move) (by omega) ((queue.step move).2.foldl observe world)
        rw [now_observe] at hmoves
        refine ⟨move :: moves, List.forall_mem_cons.mpr ⟨⟨hroutine, htakes⟩, hmoves⟩, ?_, ?_⟩
        · simpa [spans, hspans] using List.length_pos_of_ne_nil hawaits
        · rw [run_cons, List.foldl_append]
          exact hplay
      have hne (hturn : queue.turn ≠ .user) : queue.stack ≠ [] := fun hstack => hturn (by simp [turn, hstack])
      cases hturn : queue.turn with
      | queue =>
          rw [Host.play_advance _ _ _ hturn]
          exact hmove .advance (hne (by simp [hturn])) ⟨rfl, by simp⟩ rfl
            ((transition_step queue .advance).effort hs.stacked rfl hturn)
      | clock =>
          rw [Host.play_read _ _ _ hturn rfl]
          refine hmove (.read (.time world.now)) (hne (by simp [hturn])) ⟨rfl, ?_⟩ rfl
            ((transition_step queue _).effort hs.stacked rfl hturn)
          rintro time ⟨⟩
          rfl
      | user =>
          rcases react_cases world queue with
            ⟨hstack, hreact⟩ | ⟨hstack, hreact⟩ | ⟨token, message, rest, call, hstack, hheld, hcall, hreact⟩
          · rw [Host.play_rest _ _ _ hturn hreact]
            exact ⟨[], by simp, by simp [spans, hstack], rfl⟩
          · rw [Host.play_move _ _ _ hturn hreact]
            exact hmove .finish hstack ⟨rfl, by simp⟩ rfl
              ((transition_step queue .finish).effort hs.stacked rfl ⟨hturn, hstack⟩)
          · rw [Host.play_move _ _ _ hturn hreact]
            have hroutine : (Move.call call).routineAt world.now := ⟨Move.routine_of_token hcall, by simp⟩
            exact hmove (.call call) (by simp [hstack]) hroutine (by simp [Move.takesQueue, hcall])
              ((transition_step queue (.call call)).effort_token hs.ordered hs.held_nodup hstack hcall hheld)

-- A call from outside returns.
theorem call_eq_run {queue : Queue μ ρ} {admitted : List (MessageId × μ)} {past : List (Event μ ρ)}
    (hs : queue.Sound admitted past) (hstack : queue.stack = []) (world : World μ ρ) (call : Call μ ρ) :
    ∃ moves, (∀ move ∈ moves, move.routineAt world.now ∧ move.takesQueue = false) ∧
      (queue.step (.call call)).1.spans 0 moves = true ∧
      world.call queue call =
        ((queue.run (.call call :: moves)).2.foldl observe world, (queue.run (.call call :: moves)).1) := by
  have heffort := (transition_step queue (.call call)).effort_call hs.ordered hstack
  obtain ⟨moves, hmoves, hspans, hplay⟩ :=
    play_eq_run (hs.step (.call call)) heffort ((queue.step (.call call)).2.foldl observe world)
  rw [now_observe] at hmoves
  refine ⟨moves, hmoves, hspans, ?_⟩
  rw [run_cons, List.foldl_append]
  exact hplay

end Simulation.World

end DeadlineQueue
