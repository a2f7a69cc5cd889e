import DeadlineQueue.Proofs.Simulation.Course

namespace DeadlineQueue.Simulation

open Queue

variable {μ ρ : Type}

-- The move that comes next when a queue and its surroundings act in turn. There is none when the
-- surroundings rest.
def World.move? (world : World μ ρ) (queue : Queue μ ρ) : Option (Move μ ρ) :=
  match queue.turn with
  | .queue => some .advance
  | .clock => some (.read (.time world.now))
  | .user =>
    match (world.react queue).1 with
    | .move move => some move
    | _ => none

-- What a queue comes to when it acts in turn with its surroundings, and what happens on the way.
inductive Evolves (world : World μ ρ) : Queue μ ρ → List (Event μ ρ) → Queue μ ρ → Prop where
  | refl (queue : Queue μ ρ) : Evolves world queue [] queue
  | step {queue next final : Queue μ ρ} {move : Move μ ρ} {events later : List (Event μ ρ)}
      (hmove : world.move? queue = some move) (hstep : Transition queue move next events)
      (hrest : Evolves world next later final) : Evolves world queue (events ++ later) final

namespace World

section move

variable (world : World μ ρ) {queue : Queue μ ρ} {frame : Frame μ ρ} {rest : List (Frame μ ρ)}
  (hstack : queue.stack = frame :: rest)
include hstack

theorem move_of_queue (hframe : frame.isUser = false ∧ frame.awaitsClock = false) :
    world.move? queue = some .advance := by
  simp [move?, turn, hstack, hframe]

theorem move_of_clock (hframe : frame.isUser = false ∧ frame.awaitsClock = true) :
    world.move? queue = some (.read (.time world.now)) := by
  simp [move?, turn, hstack, hframe]

end move

theorem move_of_notifying (world : World μ ρ) {queue : Queue μ ρ} {notice : Notice μ ρ} {rest : List (Frame μ ρ)}
    (hstack : queue.stack = .notifying notice :: rest) : world.move? queue = some .finish := by
  simp [move?, turn, hstack, react, Frame.isUser]

section processing

variable (world : World μ ρ) {queue : Queue μ ρ} {token : Token} {message : μ} {rest : List (Frame μ ρ)}
  (hstack : queue.stack = .processing token message :: rest)
include hstack

theorem move_of_processing (hheld : token ∈ queue.held) :
    world.move? queue = some (match world.behaviour message with
      | .drop => .call (.dropToken token)
      | .reportNow outcome reason => .call (.complete token outcome reason)
      | .keep | .reportAfter _ _ _ => .finish) := by
  simp only [move?, turn, hstack, react, Frame.isUser, if_pos hheld]
  cases world.behaviour message <;> rfl

theorem move_of_processed (hheld : token ∉ queue.held) : world.move? queue = some .finish := by
  simp [move?, turn, hstack, react, Frame.isUser, hheld]

end processing

-- Every move that comes next brings the running calls nearer to their end.
theorem effort_move {queue : Queue μ ρ} {admitted : List (MessageId × μ)} {past : List (Event μ ρ)}
    (hs : queue.Sound admitted past) (world : World μ ρ) {move : Move μ ρ} (hmove : world.move? queue = some move) :
    (move.routineAt world.now ∧ move.takesQueue = false) ∧ (queue.step move).1.effort < queue.effort := by
  have hstep := transition_step queue move
  unfold move? at hmove
  split at hmove
  · rename_i hturn
    obtain rfl := Option.some.inj hmove
    exact ⟨⟨⟨rfl, by simp⟩, rfl⟩, hstep.effort hs.stacked rfl hturn⟩
  · rename_i hturn
    obtain rfl := Option.some.inj hmove
    exact ⟨⟨⟨rfl, by rintro time ⟨⟩; rfl⟩, rfl⟩, hstep.effort hs.stacked rfl hturn⟩
  · rename_i hturn
    rcases react_cases world queue with
      ⟨hstack, hreact⟩ | ⟨hstack, hreact⟩ | ⟨token, message, rest, call, hstack, hheld, hcall, hreact⟩
    · simp [hreact] at hmove
    · obtain rfl : .finish = move := by simpa [hreact] using hmove
      exact ⟨⟨⟨rfl, by simp⟩, rfl⟩, hstep.effort hs.stacked rfl ⟨hturn, hstack⟩⟩
    · obtain rfl : .call call = move := by simpa [hreact] using hmove
      exact ⟨⟨⟨Move.routine_of_token hcall, by simp⟩, by simp [Move.takesQueue, hcall]⟩,
        hstep.effort_token hs.ordered hs.held_nodup hstack hcall hheld⟩

-- The surroundings do not change their ways by what they see.
theorem behaviour_observe (world : World μ ρ) (events : List (Event μ ρ)) :
    (events.foldl observe world).behaviour = world.behaviour := by
  induction events generalizing world with
  | nil => rfl
  | cons event events ih =>
      rw [List.foldl_cons, ih]
      cases event with
      | dispatched token message =>
          unfold observe
          dsimp only
          split <;> rfl
      | returned reply => cases reply <;> rfl
      | _ => rfl

theorem move_observe (world : World μ ρ) (events : List (Event μ ρ)) (queue : Queue μ ρ) :
    (events.foldl observe world).move? queue = world.move? queue := by
  have hreact : ((events.foldl observe world).react queue).1 = (world.react queue).1 := by
    unfold react
    rw [behaviour_observe]
    split
    · rfl
    · split
      · split <;> rfl
      · rfl
    · rfl
  unfold move?
  rw [hreact, now_observe]

end World

namespace Evolves

variable {world : World μ ρ} {queue between final : Queue μ ρ} {events later : List (Event μ ρ)}

-- A step in which nothing is told, and one in which one thing is.
theorem silent {next : Queue μ ρ} {move : Move μ ρ} (hmove : world.move? queue = some move)
    (hstep : Transition queue move next []) (hrest : Evolves world next later final) :
    Evolves world queue later final :=
  .step hmove hstep hrest

theorem telling {next : Queue μ ρ} {move : Move μ ρ} {event : Event μ ρ} (hmove : world.move? queue = some move)
    (hstep : Transition queue move next [event]) (hrest : Evolves world next later final) :
    Evolves world queue (event :: later) final :=
  .step hmove hstep hrest

theorem trans (h : Evolves world queue events between) (hrest : Evolves world between later final) :
    Evolves world queue (events ++ later) final := by
  induction h with
  | refl => exact hrest
  | step hmove hstep _ ih =>
      rw [List.append_assoc]
      exact .step hmove hstep (ih hrest)

-- The moves make up a run.
theorem run {admitted : List (MessageId × μ)} {past : List (Event μ ρ)} (h : Evolves world queue events final)
    (hs : queue.Sound admitted past) :
    ∃ moves, (∀ move ∈ moves, move.routineAt world.now ∧ move.takesQueue = false) ∧
      queue.run moves = (final, events) := by
  induction h generalizing admitted past with
  | refl => exact ⟨[], by simp, rfl⟩
  | @step queue next final move events later hmove hstep hrest ih =>
      have hnext := hs.step move
      rw [hstep.step_eq] at hnext
      obtain ⟨moves, hmoves, hrun⟩ := ih hnext
      refine ⟨move :: moves, List.forall_mem_cons.mpr ⟨(world.effort_move hs hmove).1, hmoves⟩, ?_⟩
      rw [run_cons, hstep.step_eq, hrun]

-- A play that has turns enough goes this way, if the surroundings rest in the end.
theorem play {admitted : List (MessageId × μ)} {past : List (Event μ ρ)} (h : Evolves world queue events final)
    (hidle : final.stack = []) (hs : queue.Sound admitted past) {turns : Nat} (heffort : queue.effort ≤ turns)
    (seen : List (Event μ ρ)) :
    World.host.play turns (seen.foldl World.observe world) queue =
      ((seen ++ events).foldl World.observe world, final) := by
  induction h generalizing admitted past turns seen with
  | refl queue =>
      rw [List.append_nil]
      cases turns with
      | zero => rfl
      | succ turns =>
          have hturn : queue.turn = .user := (turn_eq_user_iff queue).mpr (by simp [hidle])
          exact Host.play_rest _ _ _ hturn (by simp [World.host, World.react, hidle])
  | @step queue next final move events later hmove hstep hrest ih =>
      have hless := (world.effort_move hs hmove).2
      have hnext := hs.step move
      rw [hstep.step_eq] at hnext hless
      obtain ⟨turns, rfl⟩ : ∃ more, turns = more + 1 := ⟨turns - 1, by omega⟩
      have hplay := ih hidle hnext (Nat.le_of_lt_succ (Nat.lt_of_lt_of_le hless heffort)) (seen ++ events)
      rw [List.append_assoc, List.foldl_append] at hplay
      rw [← world.move_observe seen] at hmove
      generalize seen.foldl World.observe world = current at hmove hplay ⊢
      have happly : World.host.apply current queue move = (events.foldl World.observe current, next) := by
        simp only [Host.apply, hstep.step_eq]
        rfl
      unfold World.move? at hmove
      split at hmove
      · rename_i hturn
        obtain rfl := Option.some.inj hmove
        rw [Host.play_advance _ _ _ hturn, happly, hplay]
      · rename_i hturn
        obtain rfl := Option.some.inj hmove
        have hread : World.host.read current = (.time current.now, current) := rfl
        rw [Host.play_read _ _ _ hturn hread, happly, hplay]
      · rename_i hturn
        rcases current.react_cases queue with
          ⟨-, hreact⟩ | ⟨-, hreact⟩ | ⟨token, message, rest, call, -, -, -, hreact⟩
        · simp [hreact] at hmove
        · obtain rfl : .finish = move := by simpa [hreact] using hmove
          have hfinish : World.host.react current queue = (.move .finish, current) := hreact
          rw [Host.play_move _ _ _ hturn hfinish, happly, hplay]
        · obtain rfl : .call call = move := by simpa [hreact] using hmove
          have hcall : World.host.react current queue = (.move (.call call), current) := hreact
          rw [Host.play_move _ _ _ hturn hcall, happly, hplay]

end Evolves

end DeadlineQueue.Simulation
