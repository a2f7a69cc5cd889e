import DeadlineQueue.Clock
import DeadlineQueue.Simulation.World

namespace DeadlineQueue

open Simulation

-- Ticks a queue at a fixed interval until it is told to shut down, goes on ticking for at most
-- the grace time while messages are left, and cancels the rest.
structure Pacer where
  interval : Duration := 100 * millisecond
  grace : Duration := 0
  deriving DecidableEq

namespace Pacer

inductive Failure where
  | zeroInterval
  | deadlineOverflow
  deriving DecidableEq

def Failure.message : Failure → String
  | zeroInterval => "`period` must be non-zero."
  | deadlineOverflow => instantOverflow

variable {μ ρ : Type}

def tickAt (world : World μ ρ) (queue : Queue μ ρ) (time : Instant) : World μ ρ × Queue μ ρ :=
  let (arrived, queue) := world.passTo queue time
  arrived.call queue .tick

-- Ticks at `next` and every interval after it, as long as that is before the stop. Gives the
-- time of the first tick that was not made.
def tickUntil (interval : Nat) (positive : 0 < interval) (stop next : Instant)
    (world : World μ ρ) (queue : Queue μ ρ) : Instant × World μ ρ × Queue μ ρ :=
  if next < stop then
    let (world, queue) := tickAt world queue next
    tickUntil interval positive stop (next + interval) world queue
  else (next, world, queue)
termination_by (stop - next).toNat
decreasing_by
  simp only [Instant] at *
  omega

-- The ticks of the shutdown. Whether to go on is decided after each tick.
def tickWhileTracked (interval : Nat) (positive : 0 < interval) (deadline next : Instant)
    (world : World μ ρ) (queue : Queue μ ρ) : World μ ρ × Queue μ ρ :=
  let (world, queue) := tickAt world queue next
  if queue.isEmpty then (world, queue)
  else if next < deadline then
    tickWhileTracked interval positive deadline (next + interval) world queue
  else (world.note (.log (.shutdownTimedOut queue.size)), queue)
termination_by (deadline - next).toNat
decreasing_by
  simp only [Instant] at *
  omega

def shutDown (interval : Nat) (positive : 0 < interval) (deadline next : Instant)
    (world : World μ ρ) (queue : Queue μ ρ) : World μ ρ × Queue μ ρ :=
  if queue.isEmpty then (world, queue)
  else if world.now < deadline then tickWhileTracked interval positive deadline next world queue
  else (world.note (.log (.shutdownTimedOut queue.size)), queue)

-- What is logged at the start of a run: the interval, in milliseconds that are counted in 64 bits.
def started (pacer : Pacer) (world : World μ ρ) : World μ ρ :=
  world.note (.log (.pacerStarted (pacer.interval / millisecond % 18446744073709551616)))

-- A run after its start, told to shut down so long from now.
def pace (pacer : Pacer) (shutdownAfter : Duration) (world : World μ ρ) (queue : Queue μ ρ) :
    Except Failure (World μ ρ × Queue μ ρ) :=
  if positive : 0 < pacer.interval then
    let stop := world.now + shutdownAfter
    let (next, world, queue) := tickUntil pacer.interval positive stop world.now world queue
    let (world, queue) := world.passTo queue stop
    let world := world.note (.log (.shutdownRequested queue.size))
    match stop.after? pacer.grace with
    | none => .error .deadlineOverflow
    | some deadline =>
      let (world, queue) := shutDown pacer.interval positive deadline next world queue
      let (world, queue) := world.call queue .drain
      .ok (world.note (.log .pacerStopped), queue)
  else .error .zeroInterval

-- A whole run.
def run (pacer : Pacer) (shutdownAfter : Duration) (world : World μ ρ) (queue : Queue μ ρ) :
    Except Failure (World μ ρ × Queue μ ρ) :=
  pacer.pace shutdownAfter (pacer.started world) queue

end Pacer

end DeadlineQueue
