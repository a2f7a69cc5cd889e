import DeadlineQueue.Fault
import DeadlineQueue.Lane

namespace DeadlineQueue

inductive Severity where
  | trace
  | debug
  | info
  | warn
  | error
  deriving DecidableEq

def Severity.name : Severity → String
  | trace => "TRACE"
  | debug => "DEBUG"
  | info => "INFO"
  | warn => "WARN"
  | error => "ERROR"

-- What is written to the log, by the occasion on which it is written.
inductive Record where
  | enqueued (id : MessageId)
  | enqueueUnread (fault : Fault)
  | sweepUnread (fault : Fault)
  | startUnread (id : MessageId) (fault : Fault)
  | turnedBack (lane : LaneName)
  | timedOut (id : MessageId) (lane : LaneName)
  | dispatching (id : MessageId)
  | completed (id : MessageId) (outcome : Outcome)
  | completedLate (id : MessageId) (outcome : Outcome)
  | completedOrphan (id : MessageId)
  | abandoned (id : MessageId)
  | cancelled (id : MessageId)
  | drained (count : Nat)
  | unobserved (id : MessageId)
  | queueDropped (pending inProgress : Nat)
  | pacerStarted (tickMilliseconds : Nat)
  | shutdownRequested (tracked : Nat)
  | shutdownTimedOut (tracked : Nat)
  | pacerStopped
  deriving DecidableEq

namespace Record

def severity : Record → Severity
  | unobserved _ => .trace
  | enqueued _ | dispatching _ | completed _ _ | completedLate _ _ | completedOrphan _ | cancelled _ => .debug
  | drained _ | pacerStarted _ | shutdownRequested _ | pacerStopped => .info
  | turnedBack _ | timedOut _ _ | abandoned _ | queueDropped _ _ | shutdownTimedOut _ => .warn
  | enqueueUnread _ | sweepUnread _ | startUnread _ _ => .error

def message : Record → String
  | enqueued _ => "Message enqueued"
  | enqueueUnread _ => "Failed setting message enqueue time"
  | sweepUnread _ => "Failed processing timeouts"
  | startUnread _ _ => "Failed setting message processing start time"
  | turnedBack _ => "Clock went backwards, timeout sweeps fall back to full scans"
  | timedOut _ _ => "Message timed out"
  | dispatching _ => "Dispatching message"
  | completed _ _ => "Message completed"
  | completedLate _ _ => "Completion reported for message no longer in progress"
  | completedOrphan _ => "Completion reported after queue was dropped"
  | abandoned _ => "Completion dropped without a result, message stays in progress until timeout or drain"
  | cancelled _ => "Message cancelled"
  | drained _ => "Queue drained"
  | unobserved _ => "No completion callback registered"
  | queueDropped _ _ => "Message queue dropped with tracked messages, they will not be notified"
  | pacerStarted _ => "Queue driver started"
  | shutdownRequested _ => "Shutdown requested, draining..."
  | shutdownTimedOut _ => "Shutdown timeout reached, cancelling remaining messages"
  | pacerStopped => "Queue driver stopped"

inductive Field where
  | id (id : MessageId)
  | text (text : String)
  | number (number : Nat)

-- The values written beside the message, by name.
def fields : Record → List (String × Field)
  | enqueued id | dispatching id | completedOrphan id | abandoned id | cancelled id | unobserved id =>
    [("message_id", .id id)]
  | enqueueUnread fault | sweepUnread fault => [("error", .text fault.message)]
  | startUnread id fault => [("message_id", .id id), ("error", .text fault.message)]
  | turnedBack lane => [("list", .text lane.text)]
  | timedOut id lane => [("message_id", .id id), ("list", .text lane.text)]
  | completed id outcome | completedLate id outcome =>
    [("message_id", .id id), ("result", .text outcome.name)]
  | drained count => [("cancelled", .number count)]
  | queueDropped pending inProgress => [("pending", .number pending), ("in_progress", .number inProgress)]
  | pacerStarted tick => [("tick_interval_ms", .number tick)]
  | shutdownRequested tracked | shutdownTimedOut tracked => [("tracked", .number tracked)]
  | pacerStopped => []

end Record

end DeadlineQueue
