namespace DeadlineQueue

-- What can go wrong in a queue: it was put together wrongly, or its clock could not be read.
inductive Fault where
  | config (cause : String)
  | clock (cause : String)
  deriving DecidableEq

def Fault.message : Fault → String
  | config cause => "Configuration error: " ++ cause
  | clock cause => "Clock error: " ++ cause

-- A message that was not admitted goes back to its owner together with the reason.
structure Rejection (μ : Type) where
  message : μ
  fault : Fault

def Rejection.text {μ : Type} (rejection : Rejection μ) : String :=
  "Message rejected: " ++ rejection.fault.message

end DeadlineQueue
