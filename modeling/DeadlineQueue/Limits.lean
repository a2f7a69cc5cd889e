import DeadlineQueue.Time

namespace DeadlineQueue

-- The two deadlines of a message. The wait runs from admission until the message ends, the
-- processing time from dispatch.
structure Limits where
  wait : Option Duration := none
  processing : Option Duration := none
  deriving DecidableEq

-- A stored limit of zero and a missing one both switch the deadline off.
def enforced : Option Duration → Option Duration
  | some 0 => none
  | limit => limit

def Limits.waitDeadline (limits : Limits) : Option Duration :=
  enforced limits.wait

def Limits.processingDeadline (limits : Limits) : Option Duration :=
  enforced limits.processing

-- What a queue is made with. The overall timeout is kept for the owner, the queue itself
-- enforces the limits only.
structure Settings where
  overallTimeout : Duration := 0
  limits : Limits := {}
  deriving DecidableEq

end DeadlineQueue
