import DeadlineQueue.Host

namespace DeadlineQueue

variable {σ μ ρ : Type}

namespace Queue

@[simp] theorem lane_pending (queue : Queue μ ρ) : queue.lane .pending = queue.pending := rfl

@[simp] theorem lane_inProgress (queue : Queue μ ρ) : queue.lane .inProgress = queue.inProgress := rfl

section setLane

variable (queue : Queue μ ρ) (name : LaneName) (lane : Lane μ)

@[simp] theorem limits_setLane : (queue.setLane name lane).limits = queue.limits := by cases name <;> rfl
@[simp] theorem observed_setLane : (queue.setLane name lane).observed = queue.observed := by cases name <;> rfl
@[simp] theorem nextKey_setLane : (queue.setLane name lane).nextKey = queue.nextKey := by cases name <;> rfl
@[simp] theorem nextId_setLane : (queue.setLane name lane).nextId = queue.nextId := by cases name <;> rfl
@[simp] theorem outbox_setLane : (queue.setLane name lane).outbox = queue.outbox := by cases name <;> rfl
@[simp] theorem delivering_setLane : (queue.setLane name lane).delivering = queue.delivering := by cases name <;> rfl
@[simp] theorem held_setLane : (queue.setLane name lane).held = queue.held := by cases name <;> rfl
@[simp] theorem dropped_setLane : (queue.setLane name lane).dropped = queue.dropped := by cases name <;> rfl
@[simp] theorem stack_setLane : (queue.setLane name lane).stack = queue.stack := by cases name <;> rfl

@[simp] theorem setLane_pending : queue.setLane .pending lane = { queue with pending := lane } := rfl
@[simp] theorem setLane_inProgress : queue.setLane .inProgress lane = { queue with inProgress := lane } := rfl

end setLane

section raise

variable (queue : Queue μ ρ) (source : Source) (notice : Notice μ ρ)

@[simp] theorem limits_raise : (queue.raise source notice).1.limits = queue.limits := by
  unfold raise; cases queue.delivering <;> rfl
@[simp] theorem observed_raise : (queue.raise source notice).1.observed = queue.observed := by
  unfold raise; cases queue.delivering <;> rfl
@[simp] theorem pending_raise : (queue.raise source notice).1.pending = queue.pending := by
  unfold raise; cases queue.delivering <;> rfl
@[simp] theorem inProgress_raise : (queue.raise source notice).1.inProgress = queue.inProgress := by
  unfold raise; cases queue.delivering <;> rfl
@[simp] theorem nextKey_raise : (queue.raise source notice).1.nextKey = queue.nextKey := by
  unfold raise; cases queue.delivering <;> rfl
@[simp] theorem nextId_raise : (queue.raise source notice).1.nextId = queue.nextId := by
  unfold raise; cases queue.delivering <;> rfl
@[simp] theorem held_raise : (queue.raise source notice).1.held = queue.held := by
  unfold raise; cases queue.delivering <;> rfl
@[simp] theorem dropped_raise : (queue.raise source notice).1.dropped = queue.dropped := by
  unfold raise; cases queue.delivering <;> rfl
@[simp] theorem outbox_raise : (queue.raise source notice).1.outbox = queue.outbox ++ [notice] := by
  unfold raise; cases queue.delivering <;> rfl
@[simp] theorem snd_raise : (queue.raise source notice).2 = [.raised source notice] := rfl

@[simp] theorem delivering_raise : (queue.raise source notice).1.delivering = true := by
  unfold raise; cases queue.delivering <;> rfl

-- A raise that finds no delivery running starts one.
theorem stack_raise : (queue.raise source notice).1.stack =
    if queue.delivering then queue.stack else .delivering :: queue.stack := by
  unfold raise; cases queue.delivering <;> rfl

-- A delivery brings nothing of its own.
theorem flatMap_stack_raise {α : Type} (f : Frame μ ρ → List α) (hf : f .delivering = []) :
    (queue.raise source notice).1.stack.flatMap f = queue.stack.flatMap f := by
  rw [stack_raise]
  split
  · rfl
  · rw [List.flatMap_cons, hf, List.nil_append]

end raise

section complete

variable (queue : Queue μ ρ) (token : Token) (outcome : Outcome) (reason : Option ρ)

-- The queue from which a report raises its notice.
def reporting : Queue μ ρ :=
  { queue with
    held := queue.held.erase token, inProgress := (queue.inProgress.remove token.key).2
    stack := .completing :: queue.stack }

theorem complete_of_some {entry : Entry μ} (halive : queue.alive = true)
    (h : (queue.inProgress.remove token.key).1 = some entry) :
    queue.complete token outcome reason =
      (((queue.reporting token).raise .token (entry.notice outcome reason)).1,
        [.log (.completed entry.id outcome), .raised .token (entry.notice outcome reason)]) := by
  have hremove : queue.inProgress.remove token.key = (some entry, (queue.inProgress.remove token.key).2) := by rw [← h]
  unfold complete
  rw [if_pos halive, hremove]
  rfl

theorem complete_of_none (halive : queue.alive = true) (h : (queue.inProgress.remove token.key).1 = none) :
    queue.complete token outcome reason =
      ({ queue with held := queue.held.erase token, inProgress := (queue.inProgress.remove token.key).2 },
        [.log (.completedLate token.id outcome), .returned (.delivered false)]) := by
  have hremove : queue.inProgress.remove token.key = (none, (queue.inProgress.remove token.key).2) := by rw [← h]
  unfold complete
  rw [if_pos halive, hremove]

theorem complete_of_not_alive (halive : queue.alive = false) :
    queue.complete token outcome reason =
      ({ queue with held := queue.held.erase token },
        [.log (.completedOrphan token.id), .returned (.delivered false)]) := by
  unfold complete
  rw [halive]
  rfl

end complete

-- A panic leaves what lies below some user code as it is.
theorem unwind_suffix (queue : Queue μ ρ) (stack : List (Frame μ ρ)) (text : String) :
    (queue.unwind stack text).1.stack <:+ stack :=
  List.dropWhile_suffix _

theorem unwind_suffix_of_cons (queue : Queue μ ρ) {frame : Frame μ ρ} {rest : List (Frame μ ρ)}
    (hstack : queue.stack = frame :: rest) (text : String) : (queue.unwind rest text).1.stack <:+ queue.stack :=
  (queue.unwind_suffix rest text).trans (hstack ▸ List.suffix_cons frame rest)

theorem logBackwards_eq (queue : Queue μ ρ) (name : LaneName) (stamp : Instant) :
    queue.logBackwards name stamp = [] ∨ queue.logBackwards name stamp = [.log (.turnedBack name)] := by
  unfold logBackwards
  split
  · exact .inr rfl
  · exact .inl rfl

section records

variable (queue : Queue μ ρ) (name : LaneName) (stamp : Instant) (token : Token) (event : Event μ ρ)

@[simp] theorem mem_logBackwards :
    event ∈ queue.logBackwards name stamp ↔
      (queue.lane name).turnsBack stamp = true ∧ event = .log (.turnedBack name) := by
  unfold logBackwards
  split <;> simp_all

@[simp] theorem mem_drop :
    event ∈ queue.drop.2 ↔
      queue.isEmpty = false ∧ event = .log (.queueDropped queue.pending.size queue.inProgress.size) ∨
        event = .returned .done := by
  unfold drop
  split <;> simp_all

@[simp] theorem mem_dropToken :
    event ∈ (queue.dropToken token).2 ↔
      (queue.alive && queue.inProgress.contains token.key) = true ∧ event = .log (.abandoned token.id) ∨
        event = .returned .done := by
  unfold dropToken
  split <;> simp_all

end records

theorem run_nil (queue : Queue μ ρ) : queue.run [] = (queue, []) := rfl

theorem run_cons (queue : Queue μ ρ) (move : Move μ ρ) (moves : List (Move μ ρ)) :
    queue.run (move :: moves) =
      (((queue.step move).1.run moves).1, (queue.step move).2 ++ ((queue.step move).1.run moves).2) := rfl

-- A run can be cut anywhere.
theorem run_append (queue : Queue μ ρ) (first second : List (Move μ ρ)) :
    queue.run (first ++ second) =
      (((queue.run first).1.run second).1, (queue.run first).2 ++ ((queue.run first).1.run second).2) := by
  induction first generalizing queue with
  | nil => rfl
  | cons move moves ih => simp only [List.cons_append, run_cons, ih, List.append_assoc]

-- What happens in a run with one more move.
theorem run_append_singleton_snd (queue : Queue μ ρ) (moves : List (Move μ ρ)) (last : Move μ ρ) :
    (queue.run (moves ++ [last])).2 = (queue.run moves).2 ++ ((queue.run moves).1.step last).2 := by
  rw [run_append, run_cons, run_nil, List.append_nil]

end Queue

namespace Host

-- What a play does with each turn.
section play

variable (host : Host σ μ ρ) (turns : Nat) (state : σ) {queue : Queue μ ρ}

theorem play_advance (hturn : queue.turn = .queue) :
    host.play (turns + 1) state queue =
      host.play turns (host.apply state queue .advance).1 (host.apply state queue .advance).2 := by
  rw [play, hturn]

theorem play_read (hturn : queue.turn = .clock) {reading : Reading} {next : σ}
    (hread : host.read state = (reading, next)) :
    host.play (turns + 1) state queue =
      host.play turns (host.apply next queue (.read reading)).1 (host.apply next queue (.read reading)).2 := by
  rw [play, hturn, hread]

theorem play_rest (hturn : queue.turn = .user) {next : σ} (hreact : host.react state queue = (.rest, next)) :
    host.play (turns + 1) state queue = (next, queue) := by
  rw [play, hturn, hreact]

theorem play_move (hturn : queue.turn = .user) {move : Move μ ρ} {next : σ}
    (hreact : host.react state queue = (.move move, next)) :
    host.play (turns + 1) state queue =
      host.play turns (host.apply next queue move).1 (host.apply next queue move).2 := by
  rw [play, hturn, hreact]

end play

end Host

end DeadlineQueue
