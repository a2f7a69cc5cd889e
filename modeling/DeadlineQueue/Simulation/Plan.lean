import DeadlineQueue.Pacer

namespace DeadlineQueue.Simulation

-- What the owner of a queue does in one phase of a plan.
inductive Phase (μ : Type) where
  | enqueue (message : μ)
  | setLimits (limits : Limits)
  | tick
  | sleep (wait : Duration)
  | run (pacer : Pacer) (shutdownAfter : Duration)

-- What one phase shows: the time after it, what happened in it, and the messages that are left.
structure Summary (μ ρ : Type) where
  time : Instant
  happened : Array (Happening μ ρ)
  pending : Nat
  inProgress : Nat

variable {μ ρ : Type}

-- A pacer waits for its ticks with the timers of its surroundings, which may make less of an interval than
-- it asks for.
def perform (timer : Duration → Duration) (world : World μ ρ) (queue : Queue μ ρ) :
    Phase μ → Except Pacer.Failure (World μ ρ × Queue μ ρ)
  | .enqueue message => .ok (world.call queue (.enqueue message))
  | .setLimits limits => .ok (world.call queue (.setLimits limits))
  | .tick => .ok (world.call queue .tick)
  | .sleep wait => .ok (world.passTo queue (world.now + wait))
  | .run pacer shutdownAfter =>
    { pacer with interval := timer pacer.interval }.pace shutdownAfter (pacer.started world) queue

-- The timers that plans are played with wait for thirty years of 365 days at most.
def longestWait : Duration := 946080000000 * millisecond

def play (world : World μ ρ) (queue : Queue μ ρ) :
    List (Phase μ) → Except Pacer.Failure (List (Summary μ ρ))
  | [] => .ok []
  | phase :: phases =>
    match perform (min longestWait) { world with happened := #[] } queue phase with
    | .error failure => .error failure
    | .ok (world, queue) =>
      (play world queue phases).map
        ({ time := world.now
           happened := world.happened
           pending := queue.pending.size
           inProgress := queue.inProgress.size } :: ·)

end DeadlineQueue.Simulation
