import DeadlineQueue.Fault
import DeadlineQueue.Limits
import DeadlineQueue.Pacer
import DeadlineQueue.Text.Quoted

namespace DeadlineQueue

-- The units in which a duration is written, largest first, each with the number of its decimals.
def durationUnits : List (Nat × Nat × String) :=
  [(1000000000, 9, "s"), (1000000, 6, "ms"), (1000, 3, "µs"), (1, 0, "ns")]

-- The part after the point, without the zeros at its end.
def fractionText (places rest : Nat) : String :=
  let digits := Nat.toDigits 10 rest
  let padded := List.replicate (places - digits.length) '0' ++ digits
  let kept := (padded.reverse.dropWhile (· = '0')).reverse
  if kept.isEmpty then "" else "." ++ String.ofList kept

-- In the largest unit of which there is at least one.
def durationText (duration : Duration) : String :=
  match durationUnits.find? (fun unit => unit.1 ≤ duration) with
  | none => "0ns"
  | some (size, places, name) =>
    toString (duration / size) ++ fractionText places (duration % size) ++ name

def optionText : Option String → String
  | none => "None"
  | some text => "Some(" ++ text ++ ")"

-- A record by its name and its fields.
def recordText (name : String) (fields : List (String × String)) : String :=
  name ++ " \x7b " ++ String.intercalate ", " (fields.map (fun field => field.1 ++ ": " ++ field.2)) ++ " \x7d"

def Limits.text (limits : Limits) : String :=
  recordText "QueueOptions" [
    ("max_enqueue_wait", optionText (limits.wait.map durationText)),
    ("max_processing_duration", optionText (limits.processing.map durationText))]

def Settings.text (settings : Settings) : String :=
  recordText "QueueConfig" [
    ("processing_timeout", durationText settings.overallTimeout),
    ("options", settings.limits.text)]

def Pacer.text (pacer : Pacer) : String :=
  recordText "Driver" [
    ("tick_interval", durationText pacer.interval),
    ("shutdown_timeout", durationText pacer.grace)]

-- A token in its holder's hands has not been reported yet.
def Token.text (token : Token) : String :=
  recordText "Completion" [("id", "MessageId(" ++ token.id.label ++ ")"), ("reported", "false")]

def Fault.text : Fault → String
  | config cause => "Config(" ++ Text.quoted cause ++ ")"
  | clock cause => "Clock(" ++ Text.quoted cause ++ ")"

-- The message of a rejection is left out, it need not have a text.
def Rejection.summary {μ : Type} (rejection : Rejection μ) : String :=
  "Rejected \x7b error: " ++ rejection.fault.text ++ ", .. \x7d"

end DeadlineQueue
