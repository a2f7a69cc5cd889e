import DeadlineQueue.Clock
import DeadlineQueue.Host
import DeadlineQueue.Script.Action

namespace DeadlineQueue.Script

inductive Happening where
  | log (record : Record)
  | process (id : MessageId) (message : String)
  | completed (notice : Notice String String)
  | did (action : Action) (answer : Answer)

-- A running callback, or the step itself: what it still has to do, the token it owns, the action
-- whose call has not returned, and the panic that is leaving it.
structure Act where
  todo : List Action
  message : String := ""
  own : Option Token := none
  waiting : Option Action := none
  panicking : Option String := none

-- The surroundings of a scripted queue. The acts lie innermost first, the last one is the step.
structure Stage where
  clock : ScriptedClock
  -- Whether the queue reads the scripted clock. If not, its own clock stands still.
  scripted : Bool
  onProcess : List Rule
  onComplete : List Rule
  parked : List (String × Token) := []
  acts : List Act := []
  happened : Array Happening := #[]
  answer : Answer := .done

namespace Stage

def read (stage : Stage) : Reading × Stage :=
  if stage.scripted then
    let (reading, clock) := stage.clock.read
    (reading, { stage with clock })
  else (.time 0, stage)

def note (stage : Stage) (happening : Happening) : Stage :=
  { stage with happened := stage.happened.push happening }

-- An action of a callback leaves a mark, the one of the step is the answer.
def settle (stage : Stage) (action : Action) (answer : Answer) : Stage :=
  match stage.acts with
  | [_] => { stage with answer }
  | _ => stage.note (.did action answer)

def replaceTop (stage : Stage) (act : Act) : Stage :=
  { stage with acts := act :: stage.acts.tail }

-- The token that an action uses leaves its holder. The message comes with it, under which it
-- may be parked again.
def take (stage : Stage) (act : Act) : Holder → Option ((String × Token) × Stage)
  | .own =>
    act.own.map (fun token => ((act.message, token), stage.replaceTop { act with own := none }))
  | .parked message =>
    (stage.parked.find? (fun entry => entry.1 = message)).map (fun entry =>
      (entry, { stage with parked := stage.parked.eraseP (fun entry => entry.1 = message) }))

def ask (stage : Stage) (action : Action) (call : Call String String) : Reaction String String × Stage :=
  match stage.acts with
  | [] => (.ponder, stage)
  | act :: _ => (.move (.call call), stage.replaceTop { act with waiting := some action })

def collapse (stage : Stage) (text : String) : Reaction String String × Stage :=
  match stage.acts with
  | [] => (.ponder, stage)
  | act :: _ => (.ponder, stage.replaceTop { act with waiting := none, panicking := some text })

-- Use a token in a call to the queue.
def spend (stage : Stage) (act : Act) (holder : Holder) (action : Action)
    (call : Token → Call String String) : Reaction String String × Stage :=
  match stage.take act holder with
  | none => (.ponder, stage.settle action .noToken)
  | some ((_, token), stage) => stage.ask action (call token)

def parkToken (stage : Stage) (act : Act) (holder : Holder) (action : Action) :
    Reaction String String × Stage :=
  match stage.take act holder with
  | none => (.ponder, stage.settle action .noToken)
  | some (entry, stage) =>
    (.ponder, { stage with parked := stage.parked ++ [entry] }.settle action (.token entry.2))

-- Questions about the queue are subject to the same refusals as calls.
def query (stage : Stage) (queue : Queue String String) (action : Action) (answer : Answer) :
    Reaction String String × Stage :=
  (.ponder, stage.settle action (if queue.busy then .busy else if queue.dropped then .dropped else answer))

def perform (stage : Stage) (queue : Queue String String) (act : Act) (action : Action) :
    Reaction String String × Stage :=
  match action with
  | .enqueue message => stage.ask action (.enqueue message)
  | .tick => stage.ask action .tick
  | .drain => stage.ask action .drain
  | .setLimits limits => stage.ask action (.setLimits limits)
  | .drop => stage.ask action .drop
  | .limits => stage.query queue action (.limits queue.limits)
  | .overallTimeout => stage.query queue action (.duration queue.overallTimeout)
  | .state => stage.query queue action (.counts (Counts.ofQueue queue))
  | .forward wait =>
    match stage.clock.hand.forward? wait with
    | none => stage.collapse instantOverflow
    | some hand => (.ponder, { stage with clock := { stage.clock with hand } }.settle action .done)
  | .back wait =>
    let hand := stage.clock.hand.back wait
    (.ponder, { stage with clock := { stage.clock with hand } }.settle action .done)
  | .setFailing failing =>
    let hand := { stage.clock.hand with failing }
    (.ponder, { stage with clock := { stage.clock with hand } }.settle action .done)
  | .now =>
    (.ponder, stage.settle action (match stage.clock.hand.read with
      | .ok now => .instant now
      | .error fault => .fault fault))
  | .panic text => stage.collapse text
  | .complete holder outcome reason => stage.spend act holder action (.complete · outcome reason)
  | .succeed holder => stage.spend act holder action (.complete · .success none)
  | .fail holder reason => stage.spend act holder action (.complete · .error (some reason))
  | .retry holder reason => stage.spend act holder action (.complete · .retryableError (some reason))
  | .dropToken holder => stage.spend act holder action .dropToken
  | .park holder | .inspect holder => stage.parkToken act holder action

-- A callback drops the token it still owns before it ends, in whatever way it ends.
def react (stage : Stage) (queue : Queue String String) : Reaction String String × Stage :=
  match stage.acts with
  | [] => (.rest, stage)
  | [act] =>
    match act.panicking, act.todo with
    | some text, _ => (.rest, { stage with acts := [], answer := .panicked text })
    | none, [] => (.rest, { stage with acts := [] })
    | none, action :: todo => perform (stage.replaceTop { act with todo }) queue { act with todo } action
  | act :: outer =>
    match act.panicking, act.todo with
    | none, action :: todo => perform (stage.replaceTop { act with todo }) queue { act with todo } action
    | panicking, _ =>
      match act.own with
      | some token => (.move (.call (.dropToken token)), stage.replaceTop { act with own := none })
      | none =>
        let last := match panicking with
          | none => .finish
          | some text => .panic text
        (.move last, { stage with acts := outer })

def observe (stage : Stage) : Event String String → Stage
  | .log record => stage.note (.log record)
  | .dispatched token message =>
    let (actions, onProcess) := pick message none stage.onProcess
    let act : Act := { todo := actions.getD [.park .own], message, own := some token }
    { stage.note (.process token.id message) with onProcess, acts := act :: stage.acts }
  | .notified notice =>
    let (actions, onComplete) := pick notice.message (some notice.outcome) stage.onComplete
    { stage.note (.completed notice) with onComplete, acts := { todo := actions.getD [] } :: stage.acts }
  | .returned reply =>
    match stage.acts with
    | [] => stage
    | act :: _ =>
      match act.waiting with
      | none => stage
      | some action => (stage.replaceTop { act with waiting := none }).settle action (.ofReply reply)
  | .panicked text =>
    match stage.acts with
    | [] => stage
    | act :: _ => stage.replaceTop { act with waiting := none, panicking := some text }
  | .raised _ _ | .unobserved _ => stage

end Stage

def host : Host Stage String String where
  read := Stage.read
  react := Stage.react
  observe := Stage.observe

-- What one step of a script shows: its answer, what happened while it ran, the state after it
-- (none once the queue is dropped), and how often the queue has read its clock so far.
structure Summary where
  answer : Answer
  happened : Array Happening
  counts : Option Counts
  reads : Nat

-- More turns than any script takes that ends at all in practice.
def patience : Nat := 1000000000000

def step (stage : Stage) (queue : Queue String String) (action : Action) :
    Summary × Stage × Queue String String :=
  let opening := { stage with acts := [{ todo := [action] }], happened := #[], answer := .done }
  let (stage, queue) := host.play patience opening queue
  ({ answer := stage.answer
     happened := stage.happened
     counts := if queue.dropped then none else some (Counts.ofQueue queue)
     reads := stage.clock.reads }, stage, queue)

def play (stage : Stage) (queue : Queue String String) : List Action → List Summary
  | [] => []
  | action :: actions =>
    let (summary, stage, queue) := step stage queue action
    summary :: play stage queue actions

end DeadlineQueue.Script
