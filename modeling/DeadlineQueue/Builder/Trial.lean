import DeadlineQueue.Builder.Basic
import DeadlineQueue.Script.Stage

namespace DeadlineQueue.Builder

-- Two ways to process a message: a function that reports an error with its own name as the
-- reason, and a backend that reports success.
inductive Handler where
  | function (name : String)
  | backend (name : String)

def Handler.action : Handler → Script.Action
  | function name => .fail .own name
  | backend _ => .succeed .own

-- What came of one message and one tick.
structure Trial where
  handler : Handler
  overallTimeout : Duration
  limits : Limits
  size : Nat
  happened : List Script.Happening

-- A first message goes through the freshly built queue, under a clock that stands still.
def tryOut (builder : Builder Handler String) (message : String) : Except Fault Trial :=
  match builder.build with
  | .error fault => .error fault
  | .ok (handler, fresh) =>
    let stage : Script.Stage :=
      { clock := {}, scripted := true, onProcess := [{ actions := [handler.action] }], onComplete := [] }
    let (enqueued, stage, queue) := Script.step stage fresh (.enqueue message)
    let (ticked, _, queue) := Script.step stage queue .tick
    .ok
      { handler
        overallTimeout := queue.overallTimeout
        limits := queue.limits
        size := queue.size
        happened := enqueued.happened.toList ++ ticked.happened.toList }

end DeadlineQueue.Builder
