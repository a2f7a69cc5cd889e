import DeadlineQueue.Queue.Basic

namespace DeadlineQueue.Script

-- Whose token an action uses: that of the callback it stands in, or the oldest parked one of a
-- message.
inductive Holder where
  | own
  | parked (message : String)

inductive Action where
  | enqueue (message : String)
  | tick
  | drain
  | limits
  | overallTimeout
  | setLimits (limits : Limits)
  | state
  | drop
  | forward (wait : Duration)
  | back (wait : Duration)
  | setFailing (failing : Bool)
  | now
  | panic (text : String)
  | complete (holder : Holder) (outcome : Outcome) (reason : Option String)
  | succeed (holder : Holder)
  | fail (holder : Holder) (reason : String)
  | retry (holder : Holder) (reason : String)
  | dropToken (holder : Holder)
  | park (holder : Holder)
  | inspect (holder : Holder)

-- How many messages wait, and how many are with the processor.
structure Counts where
  pending : Nat
  inProgress : Nat

def Counts.ofQueue {μ ρ : Type} (queue : Queue μ ρ) : Counts :=
  { pending := queue.pending.size, inProgress := queue.inProgress.size }

inductive Answer where
  | done
  | admitted (id : MessageId)
  | rejected (rejection : Rejection String)
  | accepted (accepted : Bool)
  | limits (limits : Limits)
  | duration (duration : Duration)
  | counts (counts : Counts)
  | instant (instant : Instant)
  | fault (fault : Fault)
  | token (token : Token)
  | noToken
  | busy
  | dropped
  | panicked (text : String)

def Answer.ofReply : Reply String → Answer
  | .done => .done
  | .admitted fresh => .admitted fresh
  | .rejected refusal => .rejected refusal
  | .delivered kept => .accepted kept
  | .busy => .busy
  | .dropped => .dropped
  | .noToken => .noToken

-- What a callback does for the messages that the rule is for, so many times at most. An outcome
-- restricts the rule only where there is one.
structure Rule where
  message : Option String := none
  outcome : Option Outcome := none
  times : Option Nat := none
  actions : List Action
  used : Nat := 0

def Rule.serves (rule : Rule) (message : String) (outcome : Option Outcome) : Bool :=
  (match rule.message with | none => true | some wanted => wanted = message) &&
  (match rule.outcome, outcome with | some wanted, some given => wanted = given | _, _ => true) &&
  (match rule.times with | none => true | some times => rule.used < times)

-- The actions of the first rule that serves, and the rules with that use counted.
def pick (message : String) (outcome : Option Outcome) : List Rule → Option (List Action) × List Rule
  | [] => (none, [])
  | rule :: rules =>
    if rule.serves message outcome then
      (some rule.actions, { rule with used := rule.used + 1 } :: rules)
    else
      let (actions, rest) := pick message outcome rules
      (actions, rule :: rest)

end DeadlineQueue.Script
