import DeadlineQueue.Proofs.Naive.Refinement
import DeadlineQueue.Proofs.Simulation.Play

namespace DeadlineQueue

namespace Session

-- What the processor does with the token of a message before it returns.
inductive Conduct (ρ : Type) where
  | keep
  | drop
  | report (outcome : Outcome) (reason : Option ρ)

-- What the owner of a queue does in one step, and how the clock is set for the steps that follow. A token
-- is named by its message.
inductive Action (μ ρ : Type) where
  | setClock (reading : Except Fault Instant)
  | enqueue (message : μ)
  | tick
  | drain
  | setLimits (limits : Limits)
  | drop
  | complete (id : MessageId) (outcome : Outcome) (reason : Option ρ)
  | dropToken (id : MessageId)

-- What is seen from outside. An answer is given to the holder of a token or to the owner.
inductive Sight (μ ρ : Type) where
  | answered (asker : Option MessageId) (reply : Reply μ)
  | handed (id : MessageId) (message : μ)
  | told (notice : Notice μ ρ)

-- The surroundings during one step. The clock stands still, the processor uses no token but the one that it
-- was handed last, and whoever listens for notices does nothing else.
structure Surroundings (μ ρ : Type) where
  reading : Except Fault Instant
  conduct : MessageId → Conduct ρ
  -- Whether the processor has not come to the token yet.
  unused : Bool := false
  -- Who waits for an answer, innermost first.
  askers : List (Option MessageId) := []
  sights : List (Sight μ ρ) := []

namespace Surroundings

variable {μ ρ : Type}

def read (surroundings : Surroundings μ ρ) : Reading :=
  match surroundings.reading with
  | .ok now => .time now
  | .error fault => .failed fault

def note (surroundings : Surroundings μ ρ) (sights : List (Sight μ ρ)) : Surroundings μ ρ :=
  { surroundings with sights := surroundings.sights ++ sights }

def see (surroundings : Surroundings μ ρ) : Naive.Seen μ ρ → Surroundings μ ρ
  | .returned reply =>
    { surroundings.note [.answered surroundings.askers.head?.join reply] with askers := surroundings.askers.tail }
  | .dispatched id message => { surroundings.note [.handed id message] with unused := true }
  | .notified notice | .unobserved notice => surroundings.note [.told notice]
  | .panicked _ => surroundings

-- The processor comes to a token, and returns if it keeps it.
def use (surroundings : Surroundings μ ρ) (token : Token) : Move μ ρ × Surroundings μ ρ :=
  let used := { surroundings with unused := false }
  let asking := { used with askers := some token.id :: surroundings.askers }
  match surroundings.conduct token.id with
  | .keep => (.finish, used)
  | .drop => (.call (.dropToken token), asking)
  | .report outcome reason => (.call (.complete token outcome reason), asking)

def react (surroundings : Surroundings μ ρ) (queue : Queue μ ρ) : Reaction μ ρ × Surroundings μ ρ :=
  match queue.stack with
  | [] => (.rest, surroundings)
  | .processing token _ :: _ =>
    if surroundings.unused then
      let (move, surroundings) := surroundings.use token
      (.move move, surroundings)
    else (.move .finish, surroundings)
  | _ => (.move .finish, surroundings)

def host : Host (Surroundings μ ρ) μ ρ where
  read surroundings := (surroundings.read, surroundings)
  react := react
  observe surroundings event := event.seen?.elim surroundings surroundings.see

end Surroundings

namespace Action

variable {μ ρ : Type}

-- The message whose token is used.
def subject? : Action μ ρ → Option MessageId
  | complete id _ _ | dropToken id => some id
  | _ => none

-- What the owner calls, if there is something to call. A token can be used while it is out.
def call? (held : List Token) : Action μ ρ → Option (Call μ ρ)
  | setClock _ => none
  | enqueue message => some (.enqueue message)
  | tick => some .tick
  | drain => some .drain
  | setLimits limits => some (.setLimits limits)
  | drop => some .drop
  | complete id outcome reason =>
    (held.find? fun token => token.id = id).map fun token => .complete token outcome reason
  | dropToken id => (held.find? fun token => token.id = id).map .dropToken

end Action

end Session

-- A queue and what its clock shows, between two steps.
structure Session (μ ρ : Type) where
  queue : Queue μ ρ
  reading : Except Fault Instant

namespace Session

variable {μ ρ : Type}

-- One step, until the call that it makes has returned.
def perform (conduct : MessageId → Conduct ρ) (session : Session μ ρ) (action : Action μ ρ) :
    Session μ ρ × List (Sight μ ρ) :=
  match action with
  | .setClock reading => ({ session with reading }, [])
  | action =>
    match action.call? session.queue.held with
    | none => (session, [.answered action.subject? .noToken])
    | some call =>
      let opening := { reading := session.reading, conduct, askers := [action.subject?] }
      let (surroundings, queue) := Surroundings.host.apply opening session.queue (.call call)
      let (surroundings, queue) :=
        Surroundings.host.play (Simulation.World.turns session.queue) surroundings queue
      ({ session with queue }, surroundings.sights)

-- The steps one by one, each with what is seen in it.
def play (conduct : MessageId → Conduct ρ) (session : Session μ ρ) :
    List (Action μ ρ) → List (Action μ ρ × List (Sight μ ρ))
  | [] => []
  | action :: actions =>
    let (next, sights) := session.perform conduct action
    (action, sights) :: next.play conduct actions

def after (conduct : MessageId → Conduct ρ) (session : Session μ ρ) : List (Action μ ρ) → Session μ ρ
  | [] => session
  | action :: actions => (session.perform conduct action).1.after conduct actions

end Session

end DeadlineQueue
