namespace DeadlineQueue

-- How a message ended. The first three are reported by the processor, the last two are
-- decided by the queue on the processor's behalf.
inductive Outcome where
  | success
  | error
  | retryableError
  | timeout
  | cancelled
  deriving DecidableEq

namespace Outcome

def all : List Outcome :=
  [success, error, retryableError, timeout, cancelled]

def name : Outcome → String
  | success => "success"
  | error => "error"
  | retryableError => "retryable_error"
  | timeout => "timeout"
  | cancelled => "cancelled"

-- The name under which an outcome is stored.
def variant : Outcome → String
  | success => "Success"
  | error => "Error"
  | retryableError => "RetryableError"
  | timeout => "Timeout"
  | cancelled => "Cancelled"

def ofName? (text : String) : Option Outcome :=
  all.find? (fun outcome => outcome.name = text)

def ofVariant? (text : String) : Option Outcome :=
  all.find? (fun outcome => outcome.variant = text)

-- Whether the outcome is one that a processor reports.
def byProcessor : Outcome → Bool
  | success | error | retryableError => true
  | timeout | cancelled => false

end Outcome

end DeadlineQueue
