import DeadlineQueue.Queue.Step

namespace DeadlineQueue

-- What user code does when it is its turn: nothing more, something that does not touch the
-- queue, or a move.
inductive Reaction (μ ρ : Type) where
  | rest
  | ponder
  | move (move : Move μ ρ)

-- Everything around a queue, as a state that answers for the clock and for user code and that
-- sees what happens.
structure Host (σ μ ρ : Type) where
  read : σ → Reading × σ
  react : σ → Queue μ ρ → Reaction μ ρ × σ
  observe : σ → Event μ ρ → σ

namespace Host

variable {σ μ ρ : Type}

def apply (host : Host σ μ ρ) (state : σ) (queue : Queue μ ρ) (move : Move μ ρ) : σ × Queue μ ρ :=
  let (next, events) := queue.step move
  (events.foldl host.observe state, next)

-- Lets the queue and its surroundings act in turn until user code rests, for so many turns at
-- most.
def play (host : Host σ μ ρ) : Nat → σ → Queue μ ρ → σ × Queue μ ρ
  | 0, state, queue => (state, queue)
  | turns + 1, state, queue =>
    match queue.turn with
    | .queue =>
      let (state, queue) := host.apply state queue .advance
      play host turns state queue
    | .clock =>
      let (reading, state) := host.read state
      let (state, queue) := host.apply state queue (.read reading)
      play host turns state queue
    | .user =>
      match host.react state queue with
      | (.rest, state) => (state, queue)
      | (.ponder, state) => play host turns state queue
      | (.move move, state) =>
        let (state, queue) := host.apply state queue move
        play host turns state queue

end Host

end DeadlineQueue
