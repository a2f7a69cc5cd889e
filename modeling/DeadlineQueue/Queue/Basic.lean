import DeadlineQueue.Limits
import DeadlineQueue.Record

namespace DeadlineQueue

-- A call into the queue that has not returned yet. The frames lie on a stack, innermost first,
-- because user code called by the queue may call the queue again.
inductive Frame (μ ρ : Type) where
  -- Waits for the time of admission.
  | enqueuing (message : μ)
  -- A tick that waits for the time of its sweep.
  | sweeping (scans : List (LaneName × Scan))
  | scanning (now : Instant) (scans : List (LaneName × Scan))
  -- A tick between its sweep and its dispatch.
  | gathering
  -- A tick that dispatches the entries whose keys are not beyond the bound.
  | dispatching (bound : Nat)
  -- A tick that waits for the start time of the entry it has taken off the pending lane.
  | starting (bound : Nat) (entry : Entry μ)
  | retiring (lane : LaneName) (batch : List (Entry μ))
  | draining (batch : List (Entry μ)) (total : Nat)
  | completing
  | delivering
  -- User code: the processor with its message, the notifier with its notice.
  | processing (token : Token) (message : μ)
  | notifying (notice : Notice μ ρ)

namespace Frame

variable {μ ρ : Type}

def isUser : Frame μ ρ → Bool
  | processing _ _ | notifying _ => true
  | _ => false

def awaitsClock : Frame μ ρ → Bool
  | enqueuing _ | sweeping _ | starting _ _ => true
  | _ => false

-- While one of these is on the stack its caller holds the queue exclusively.
def holdsQueue : Frame μ ρ → Bool
  | completing | delivering | processing _ _ | notifying _ => false
  | _ => true

def isCompleting : Frame μ ρ → Bool
  | completing => true
  | _ => false

def isDelivering : Frame μ ρ → Bool
  | delivering => true
  | _ => false

end Frame

-- The whole state of a queue: the two lanes with the keys that order them, the notices on their
-- way to the notifier, the tokens that are out, and the calls that are running.
structure Queue (μ ρ : Type) where
  limits : Limits
  overallTimeout : Duration
  -- Whether anyone listens for notices.
  observed : Bool
  pending : Lane μ := {}
  inProgress : Lane μ := {}
  nextKey : Nat := 0
  nextId : Nat := 0
  outbox : List (Notice μ ρ) := []
  delivering : Bool := false
  held : List Token := []
  dropped : Bool := false
  stack : List (Frame μ ρ) := []

namespace Queue

variable {μ ρ : Type}

def make (settings : Settings) (observed : Bool) : Queue μ ρ :=
  { limits := settings.limits, overallTimeout := settings.overallTimeout, observed }

def lane (queue : Queue μ ρ) : LaneName → Lane μ
  | .pending => queue.pending
  | .inProgress => queue.inProgress

def setLane (queue : Queue μ ρ) (name : LaneName) (lane : Lane μ) : Queue μ ρ :=
  match name with
  | .pending => { queue with pending := lane }
  | .inProgress => { queue with inProgress := lane }

-- The number of tracked messages.
def size (queue : Queue μ ρ) : Nat :=
  queue.pending.size + queue.inProgress.size

def isEmpty (queue : Queue μ ρ) : Bool :=
  queue.pending.isEmpty && queue.inProgress.isEmpty

def busy (queue : Queue μ ρ) : Bool :=
  queue.stack.any Frame.holdsQueue

-- A dropped queue lives on until the completions that were running when it was dropped return.
def alive (queue : Queue μ ρ) : Bool :=
  !queue.dropped || queue.stack.any Frame.isCompleting

end Queue

-- Who has to act next: the code that uses the queue, the clock, or the queue itself.
inductive Turn where
  | user
  | clock
  | queue
  deriving DecidableEq

def Queue.turn {μ ρ : Type} (queue : Queue μ ρ) : Turn :=
  match queue.stack with
  | [] => .user
  | frame :: _ => if frame.isUser then .user else if frame.awaitsClock then .clock else .queue

inductive Call (μ ρ : Type) where
  | enqueue (message : μ)
  | tick
  | drain
  | setLimits (limits : Limits)
  | drop
  | complete (token : Token) (outcome : Outcome) (reason : Option ρ)
  | dropToken (token : Token)

inductive Reading where
  | time (instant : Instant)
  | failed (fault : Fault)
  | panicked (text : String)

-- One step of a run. Everything that is not the queue's own doing is an input to it: the calls,
-- the readings of the clock, and how a callback ends.
inductive Move (μ ρ : Type) where
  | advance
  | read (reading : Reading)
  | call (call : Call μ ρ)
  | finish
  | panic (text : String)

inductive Reply (μ : Type) where
  | done
  | admitted (id : MessageId)
  | rejected (rejection : Rejection μ)
  | delivered (accepted : Bool)
  | busy
  | dropped
  | noToken

-- What made the queue raise a notice.
inductive Source where
  | token
  | sweep (lane : LaneName)
  | unread
  | drain
  deriving DecidableEq

inductive Event (μ ρ : Type) where
  | log (record : Record)
  | raised (source : Source) (notice : Notice μ ρ)
  | dispatched (token : Token) (message : μ)
  | notified (notice : Notice μ ρ)
  | unobserved (notice : Notice μ ρ)
  | returned (reply : Reply μ)
  | panicked (text : String)

end DeadlineQueue
