import DeadlineQueue.Outcome
import DeadlineQueue.Time

namespace DeadlineQueue

-- Ids are handed out in the order of admission and never twice.
structure MessageId where
  serial : Nat
  deriving DecidableEq

def MessageId.label (id : MessageId) : String :=
  "m" ++ toString id.serial

-- A message while the queue tracks it. The start is set when it is dispatched.
structure Entry (μ : Type) where
  id : MessageId
  message : μ
  enqueuedAt : Instant
  startedAt : Option Instant := none

-- The one terminal report about a message.
structure Notice (μ ρ : Type) where
  id : MessageId
  message : μ
  outcome : Outcome
  reason : Option ρ

def Entry.notice {μ ρ : Type} (entry : Entry μ) (outcome : Outcome) (reason : Option ρ) : Notice μ ρ :=
  { id := entry.id, message := entry.message, outcome, reason }

-- The right to report the outcome of one dispatched message, found by its key.
structure Token where
  key : Nat
  id : MessageId
  deriving DecidableEq

end DeadlineQueue
