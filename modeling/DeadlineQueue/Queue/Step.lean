import DeadlineQueue.Queue.Basic

namespace DeadlineQueue

-- The looks that one sweep takes. The lane in progress is ordered by the start of processing,
-- not by admission, so its look at the wait must not be hasty.
def Limits.scans (limits : Limits) : List (LaneName × Scan) :=
  (match limits.waitDeadline with
    | none => []
    | some deadline =>
      [(.pending, { origin := .admission, deadline, hasty := true }),
        (.inProgress, { origin := .admission, deadline, hasty := false })]) ++
  (match limits.processingDeadline with
    | none => []
    | some deadline => [(.inProgress, { origin := .start, deadline, hasty := true })])

-- The state after a step, and what happened in it.
abbrev Stepped (μ ρ : Type) := Queue μ ρ × List (Event μ ρ)

namespace Queue

variable {μ ρ : Type}

def logBackwards (queue : Queue μ ρ) (name : LaneName) (stamp : Instant) : List (Event μ ρ) :=
  if (queue.lane name).turnsBack stamp then [.log (.turnedBack name)] else []

-- Append an entry under the next key.
def append (queue : Queue μ ρ) (name : LaneName) (stamp : Instant) (entry : Entry μ) : Queue μ ρ :=
  { queue.setLane name ((queue.lane name).push queue.nextKey stamp entry) with nextKey := queue.nextKey + 1 }

-- A notice joins the outbox. While another one is being delivered it waits there, so the notifier
-- is never entered twice.
def raise (queue : Queue μ ρ) (source : Source) (notice : Notice μ ρ) : Stepped μ ρ :=
  let waiting := { queue with outbox := queue.outbox ++ [notice] }
  (if queue.delivering then waiting
    else { waiting with delivering := true, stack := .delivering :: queue.stack },
    [.raised source notice])

-- The innermost call returns.
def giveBack (queue : Queue μ ρ) (rest : List (Frame μ ρ)) (reply : Reply μ) : Stepped μ ρ :=
  ({ queue with stack := rest }, [.returned reply])

def advance (queue : Queue μ ρ) : Stepped μ ρ :=
  match queue.stack with
  | .scanning now ((name, scan) :: scans) :: rest =>
    let (batch, lane) := (queue.lane name).takeOverdue scan now
    let stack := Frame.retiring name batch :: .scanning now scans :: rest
    ({ queue.setLane name lane with stack }, batch.map (fun entry => .log (.timedOut entry.id name)))
  | .scanning _ [] :: rest => ({ queue with stack := .gathering :: rest }, [])
  | .retiring name (entry :: batch) :: rest =>
    raise { queue with stack := .retiring name batch :: rest } (.sweep name) (entry.notice .timeout none)
  | .retiring _ [] :: rest => ({ queue with stack := rest }, [])
  | .gathering :: rest =>
    match queue.pending.lastKey? with
    | none => queue.giveBack rest .done
    | some bound => ({ queue with stack := .dispatching bound :: rest }, [])
  | .dispatching bound :: rest =>
    match queue.pending.popFront bound with
    | (none, _) => queue.giveBack rest .done
    | (some entry, pending) => ({ queue with pending, stack := .starting bound entry :: rest }, [])
  | .draining (entry :: batch) total :: rest =>
    let (raised, events) := raise { queue with stack := .draining batch total :: rest } .drain
      (entry.notice .cancelled none)
    (raised, .log (.cancelled entry.id) :: events)
  | .draining [] total :: rest =>
    ({ queue with stack := rest }, [.log (.drained total), .returned .done])
  | .completing :: rest => queue.giveBack rest (.delivered true)
  | .delivering :: rest =>
    match queue.outbox with
    | [] => ({ queue with delivering := false, stack := rest }, [])
    | notice :: outbox =>
      if queue.observed then
        ({ queue with outbox, stack := .notifying notice :: .delivering :: rest }, [.notified notice])
      else ({ queue with outbox }, [.unobserved notice, .log (.unobserved notice.id)])
  | _ => (queue, [])

-- A panic leaves the calls above the innermost user code and reaches that code. What these calls
-- were holding is gone; a delivery among them is over, and what it had not delivered waits.
def unwind (queue : Queue μ ρ) (stack : List (Frame μ ρ)) (text : String) : Stepped μ ρ :=
  let left := stack.takeWhile (fun frame => !frame.isUser)
  ({ queue with
      delivering := queue.delivering && !left.any Frame.isDelivering
      stack := stack.dropWhile (fun frame => !frame.isUser) },
    [.panicked text])

def readTime (queue : Queue μ ρ) (now : Instant) : Stepped μ ρ :=
  match queue.stack with
  | .enqueuing message :: rest =>
    let id : MessageId := ⟨queue.nextId⟩
    let entry : Entry μ := { id, message, enqueuedAt := now }
    ({ queue.append .pending now entry with nextId := queue.nextId + 1, stack := rest },
      queue.logBackwards .pending now ++ [.log (.enqueued id), .returned (.admitted id)])
  | .sweeping scans :: rest => ({ queue with stack := .scanning now scans :: rest }, [])
  | .starting bound entry :: rest =>
    let token : Token := { key := queue.nextKey, id := entry.id }
    ({ queue.append .inProgress now { entry with startedAt := some now } with
        held := queue.held ++ [token]
        stack := .processing token entry.message :: .dispatching bound :: rest },
      queue.logBackwards .inProgress now ++
        [.log (.dispatching entry.id), .dispatched token entry.message])
  | _ => (queue, [])

def readFault (queue : Queue μ ρ) (fault : Fault) : Stepped μ ρ :=
  match queue.stack with
  | .enqueuing message :: rest =>
    ({ queue with stack := rest }, [.log (.enqueueUnread fault), .returned (.rejected { message, fault })])
  | .sweeping _ :: rest => ({ queue with stack := .gathering :: rest }, [.log (.sweepUnread fault)])
  | .starting bound entry :: rest =>
    let (raised, events) := raise { queue with stack := .dispatching bound :: rest } .unread
      (entry.notice .error none)
    (raised, .log (.startUnread entry.id fault) :: events)
  | _ => (queue, [])

def startTick (queue : Queue μ ρ) : Stepped μ ρ :=
  match queue.limits.scans with
  | [] => ({ queue with stack := .gathering :: queue.stack }, [])
  | scans => ({ queue with stack := .sweeping scans :: queue.stack }, [])

-- Every tracked message leaves at once, those in progress first.
def startDrain (queue : Queue μ ρ) : Stepped μ ρ :=
  let (started, inProgress) := queue.inProgress.clear
  let (waiting, pending) := queue.pending.clear
  let batch := started ++ waiting
  let cleared := { queue with inProgress, pending }
  if batch.isEmpty then cleared.giveBack queue.stack .done
  else ({ cleared with stack := .draining batch batch.length :: queue.stack }, [])

def drop (queue : Queue μ ρ) : Stepped μ ρ :=
  ({ queue with dropped := true },
    (if queue.isEmpty then [] else [.log (.queueDropped queue.pending.size queue.inProgress.size)]) ++
      [.returned .done])

-- A token is used up by the report, whether the message was still waiting for it or not.
def complete (queue : Queue μ ρ) (token : Token) (outcome : Outcome) (reason : Option ρ) : Stepped μ ρ :=
  let used := { queue with held := queue.held.erase token }
  if queue.alive then
    match queue.inProgress.remove token.key with
    | (some entry, inProgress) =>
      let (raised, events) := raise { used with inProgress, stack := .completing :: queue.stack } .token
        (entry.notice outcome reason)
      (raised, .log (.completed entry.id outcome) :: events)
    | (none, inProgress) =>
      ({ used with inProgress }, [.log (.completedLate token.id outcome), .returned (.delivered false)])
  else (used, [.log (.completedOrphan token.id), .returned (.delivered false)])

-- The message of a token that is dropped unused stays where it is.
def dropToken (queue : Queue μ ρ) (token : Token) : Stepped μ ρ :=
  ({ queue with held := queue.held.erase token },
    (if queue.alive && queue.inProgress.contains token.key then [.log (.abandoned token.id)] else []) ++
      [.returned .done])

-- A call that needs the queue itself is refused while another one holds it, and after the drop.
def ifFree (queue : Queue μ ρ) (next : Stepped μ ρ) : Stepped μ ρ :=
  if queue.busy then (queue, [.returned .busy])
  else if queue.dropped then (queue, [.returned .dropped])
  else next

def ifHeld (queue : Queue μ ρ) (token : Token) (next : Stepped μ ρ) : Stepped μ ρ :=
  if token ∈ queue.held then next else (queue, [.returned .noToken])

def answer (queue : Queue μ ρ) : Call μ ρ → Stepped μ ρ
  | .enqueue message => queue.ifFree ({ queue with stack := .enqueuing message :: queue.stack }, [])
  | .tick => queue.ifFree queue.startTick
  | .drain => queue.ifFree queue.startDrain
  | .setLimits limits => queue.ifFree ({ queue with limits }, [.returned .done])
  | .drop => queue.ifFree queue.drop
  | .complete token outcome reason => queue.ifHeld token (queue.complete token outcome reason)
  | .dropToken token => queue.ifHeld token (queue.dropToken token)

-- A move that is not its maker's turn changes nothing.
def step (queue : Queue μ ρ) : Move μ ρ → Stepped μ ρ
  | .advance => if queue.turn = .queue then queue.advance else (queue, [])
  | .read (.time now) => if queue.turn = .clock then queue.readTime now else (queue, [])
  | .read (.failed fault) => if queue.turn = .clock then queue.readFault fault else (queue, [])
  | .read (.panicked text) => if queue.turn = .clock then queue.unwind queue.stack text else (queue, [])
  | .call call => if queue.turn = .user then queue.answer call else (queue, [])
  | .finish => if queue.turn = .user then ({ queue with stack := queue.stack.tail }, []) else (queue, [])
  | .panic text =>
    if queue.turn = .user then
      match queue.stack with
      | [] => (queue, [])
      | _ :: rest => queue.unwind rest text
    else (queue, [])

-- The state after a sequence of moves, and all that happened on the way.
def run (queue : Queue μ ρ) : List (Move μ ρ) → Stepped μ ρ
  | [] => (queue, [])
  | move :: moves =>
    let (next, events) := queue.step move
    let (last, later) := next.run moves
    (last, events ++ later)

end Queue

end DeadlineQueue
