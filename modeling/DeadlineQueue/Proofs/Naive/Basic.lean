import DeadlineQueue.Queue.Step

namespace DeadlineQueue

namespace Naive

-- A message as it was admitted.
structure Waiting (μ : Type) where
  id : MessageId
  message : μ
  enqueuedAt : Instant

structure Started (μ : Type) extends Waiting μ where
  startedAt : Instant

-- A look goes through a whole list. It is for the wait of what waits, for the wait of what is in
-- progress, or for the processing time of what is in progress.
inductive Look where
  | waiting (deadline : Duration)
  | lasting (deadline : Duration)
  | working (deadline : Duration)

inductive Frame (μ ρ : Type) where
  | enqueuing (message : μ)
  | sweeping (looks : List Look)
  | looking (now : Instant) (looks : List Look)
  | gathering
  | dispatching
  | starting (waiting : Waiting μ)
  | retiring (batch : List (Waiting μ))
  | draining (batch : List (Waiting μ))
  | completing
  | delivering
  | processing (id : MessageId) (message : μ)
  | notifying (notice : Notice μ ρ)

-- What the surroundings of a queue get to see.
inductive Seen (μ ρ : Type) where
  | returned (reply : Reply μ)
  | dispatched (id : MessageId) (message : μ)
  | notified (notice : Notice μ ρ)
  | unobserved (notice : Notice μ ρ)
  | panicked (text : String)

end Naive

-- The queue without any of its shortcuts. The two lists are plain, one in the order of admission
-- and one in the order of dispatch, and a token is the id of its message.
structure Naive (μ ρ : Type) where
  limits : Limits
  observed : Bool
  pending : List (Naive.Waiting μ) := []
  inProgress : List (Naive.Started μ) := []
  nextId : Nat := 0
  outbox : List (Notice μ ρ) := []
  held : List MessageId := []
  dropped : Bool := false
  stack : List (Naive.Frame μ ρ) := []

namespace Naive

variable {μ ρ : Type}

def make (limits : Limits) (observed : Bool) : Naive μ ρ :=
  { limits, observed }

def Waiting.notice (waiting : Waiting μ) (outcome : Outcome) (reason : Option ρ) : Notice μ ρ :=
  { id := waiting.id, message := waiting.message, outcome, reason }

namespace Frame

def turn : Frame μ ρ → Turn
  | processing _ _ | notifying _ => .user
  | enqueuing _ | sweeping _ | starting _ => .clock
  | _ => .queue

def isUser (frame : Frame μ ρ) : Bool :=
  frame.turn = .user

def isCompleting : Frame μ ρ → Bool
  | completing => true
  | _ => false

def isDelivering : Frame μ ρ → Bool
  | delivering => true
  | _ => false

def holdsQueue : Frame μ ρ → Bool
  | completing | delivering | processing _ _ | notifying _ => false
  | _ => true

end Frame

def turn (naive : Naive μ ρ) : Turn :=
  match naive.stack with
  | [] => .user
  | frame :: _ => frame.turn

def busy (naive : Naive μ ρ) : Bool :=
  naive.stack.any Frame.holdsQueue

def alive (naive : Naive μ ρ) : Bool :=
  !naive.dropped || naive.stack.any Frame.isCompleting

def late (deadline : Duration) (stamp now : Instant) : Bool :=
  deadline ≤ elapsed stamp now

-- The messages that a look finds late, and the lists without them.
def take (naive : Naive μ ρ) (now : Instant) : Look → List (Waiting μ) × Naive μ ρ
  | .waiting deadline =>
    (naive.pending.filter (fun waiting => late deadline waiting.enqueuedAt now),
      { naive with pending := naive.pending.filter (fun waiting => !late deadline waiting.enqueuedAt now) })
  | .lasting deadline =>
    ((naive.inProgress.filter (fun started => late deadline started.enqueuedAt now)).map (·.toWaiting),
      { naive with inProgress := naive.inProgress.filter (fun started => !late deadline started.enqueuedAt now) })
  | .working deadline =>
    ((naive.inProgress.filter (fun started => late deadline started.startedAt now)).map (·.toWaiting),
      { naive with inProgress := naive.inProgress.filter (fun started => !late deadline started.startedAt now) })

def looks (limits : Limits) : List Look :=
  (match limits.waitDeadline with
    | none => []
    | some deadline => [.waiting deadline, .lasting deadline]) ++
  (match limits.processingDeadline with
    | none => []
    | some deadline => [.working deadline])

-- A notice waits for the delivery that is running, or for a new one.
def raise (naive : Naive μ ρ) (stack : List (Frame μ ρ)) (notice : Notice μ ρ) : Naive μ ρ :=
  { naive with
    outbox := naive.outbox ++ [notice]
    stack := if stack.any Frame.isDelivering then stack else .delivering :: stack }

def giveBack (naive : Naive μ ρ) (rest : List (Frame μ ρ)) (reply : Reply μ) : Naive μ ρ × List (Seen μ ρ) :=
  ({ naive with stack := rest }, [.returned reply])

def advance (naive : Naive μ ρ) : Naive μ ρ × List (Seen μ ρ) :=
  match naive.stack with
  | .looking now (look :: looks) :: rest =>
    let (batch, next) := naive.take now look
    ({ next with stack := .retiring batch :: .looking now looks :: rest }, [])
  | .looking _ [] :: rest => ({ naive with stack := .gathering :: rest }, [])
  | .retiring (waiting :: batch) :: rest => (naive.raise (.retiring batch :: rest) (waiting.notice .timeout none), [])
  | .retiring [] :: rest => ({ naive with stack := rest }, [])
  | .gathering :: rest =>
    if naive.pending.isEmpty then naive.giveBack rest .done
    else ({ naive with stack := .dispatching :: rest }, [])
  | .dispatching :: rest =>
    match naive.pending with
    | [] => naive.giveBack rest .done
    | waiting :: pending => ({ naive with pending, stack := .starting waiting :: rest }, [])
  | .draining (waiting :: batch) :: rest =>
    (naive.raise (.draining batch :: rest) (waiting.notice .cancelled none), [])
  | .draining [] :: rest => naive.giveBack rest .done
  | .completing :: rest => naive.giveBack rest (.delivered true)
  | .delivering :: rest =>
    match naive.outbox with
    | [] => ({ naive with stack := rest }, [])
    | notice :: outbox =>
      if naive.observed then
        ({ naive with outbox, stack := .notifying notice :: .delivering :: rest }, [.notified notice])
      else ({ naive with outbox }, [.unobserved notice])
  | _ => (naive, [])

def unwind (naive : Naive μ ρ) (stack : List (Frame μ ρ)) (text : String) : Naive μ ρ × List (Seen μ ρ) :=
  ({ naive with stack := stack.dropWhile (fun frame => !frame.isUser) }, [.panicked text])

def read (naive : Naive μ ρ) : Reading → Naive μ ρ × List (Seen μ ρ)
  | .time now =>
    match naive.stack with
    | .enqueuing message :: rest =>
      ({ naive with
          pending := naive.pending ++ [{ id := ⟨naive.nextId⟩, message, enqueuedAt := now }]
          nextId := naive.nextId + 1
          stack := rest },
        [.returned (.admitted ⟨naive.nextId⟩)])
    | .sweeping looks :: rest => ({ naive with stack := .looking now looks :: rest }, [])
    | .starting waiting :: rest =>
      ({ naive with
          inProgress := naive.inProgress ++ [{ waiting with startedAt := now }]
          held := naive.held ++ [waiting.id]
          stack := .processing waiting.id waiting.message :: .dispatching :: rest },
        [.dispatched waiting.id waiting.message])
    | _ => (naive, [])
  | .failed fault =>
    match naive.stack with
    | .enqueuing message :: rest => naive.giveBack rest (.rejected { message, fault })
    | .sweeping _ :: rest => ({ naive with stack := .gathering :: rest }, [])
    | .starting waiting :: rest => (naive.raise (.dispatching :: rest) (waiting.notice .error none), [])
    | _ => (naive, [])
  | .panicked text => naive.unwind naive.stack text

def startTick (naive : Naive μ ρ) : Naive μ ρ :=
  match looks naive.limits with
  | [] => { naive with stack := .gathering :: naive.stack }
  | looks => { naive with stack := .sweeping looks :: naive.stack }

def startDrain (naive : Naive μ ρ) : Naive μ ρ × List (Seen μ ρ) :=
  let batch := naive.inProgress.map (·.toWaiting) ++ naive.pending
  if batch.isEmpty then (naive, [.returned .done])
  else ({ naive with inProgress := [], pending := [], stack := .draining batch :: naive.stack }, [])

def complete (naive : Naive μ ρ) (id : MessageId) (outcome : Outcome) (reason : Option ρ) :
    Naive μ ρ × List (Seen μ ρ) :=
  let used := { naive with held := naive.held.erase id }
  if naive.alive then
    match naive.inProgress.find? (fun started => started.id = id) with
    | some started =>
      let inProgress := naive.inProgress.filter (fun started => started.id ≠ id)
      (raise { used with inProgress } (.completing :: naive.stack) (started.notice outcome reason), [])
    | none => (used, [.returned (.delivered false)])
  else (used, [.returned (.delivered false)])

def ifFree (naive : Naive μ ρ) (next : Naive μ ρ × List (Seen μ ρ)) : Naive μ ρ × List (Seen μ ρ) :=
  if naive.busy then (naive, [.returned .busy])
  else if naive.dropped then (naive, [.returned .dropped])
  else next

def ifHeld (naive : Naive μ ρ) (id : MessageId) (next : Naive μ ρ × List (Seen μ ρ)) : Naive μ ρ × List (Seen μ ρ) :=
  if id ∈ naive.held then next else (naive, [.returned .noToken])

def answer (naive : Naive μ ρ) : Call μ ρ → Naive μ ρ × List (Seen μ ρ)
  | .enqueue message => naive.ifFree ({ naive with stack := .enqueuing message :: naive.stack }, [])
  | .tick => naive.ifFree (naive.startTick, [])
  | .drain => naive.ifFree naive.startDrain
  | .setLimits limits => naive.ifFree ({ naive with limits }, [.returned .done])
  | .drop => naive.ifFree ({ naive with dropped := true }, [.returned .done])
  | .complete token outcome reason => naive.ifHeld token.id (naive.complete token.id outcome reason)
  | .dropToken token => naive.ifHeld token.id ({ naive with held := naive.held.erase token.id }, [.returned .done])

def step (naive : Naive μ ρ) : Move μ ρ → Naive μ ρ × List (Seen μ ρ)
  | .advance => if naive.turn = .queue then naive.advance else (naive, [])
  | .read reading => if naive.turn = .clock then naive.read reading else (naive, [])
  | .call call => if naive.turn = .user then naive.answer call else (naive, [])
  | .finish => if naive.turn = .user then ({ naive with stack := naive.stack.tail }, []) else (naive, [])
  | .panic text => if naive.turn = .user ∧ naive.stack ≠ [] then naive.unwind naive.stack.tail text else (naive, [])

def run (naive : Naive μ ρ) : List (Move μ ρ) → Naive μ ρ × List (Seen μ ρ)
  | [] => (naive, [])
  | move :: moves =>
    let (next, seen) := naive.step move
    let (last, later) := next.run moves
    (last, seen ++ later)

end Naive

end DeadlineQueue
