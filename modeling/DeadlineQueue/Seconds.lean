import DeadlineQueue.Binary64
import DeadlineQueue.Limits

namespace DeadlineQueue

-- Seconds that no duration can hold.
inductive SecondsFailure where
  | tooLong
  deriving DecidableEq

def SecondsFailure.message : SecondsFailure → String
  | tooLong => "cannot convert float seconds to Duration: value is either too big or NaN"

-- Seconds that are not a positive number give no limit. The others are rounded to the nearest
-- nanosecond, which may give a limit of zero.
def limitOfSeconds (seconds : Binary64) : Except SecondsFailure (Option Duration) :=
  match seconds.value? with
  | none => .ok none
  | some value =>
    if 0 < value then
      let nanoseconds := (roundHalfEven (value * 1000000000)).toNat
      if nanoseconds < durationLimit then .ok (some nanoseconds) else .error .tooLong
    else .ok none

def Limits.ofSeconds (wait processing : Binary64) : Except SecondsFailure Limits :=
  match limitOfSeconds wait, limitOfSeconds processing with
  | .error failure, _ | _, .error failure => .error failure
  | .ok wait, .ok processing => .ok { wait, processing }

end DeadlineQueue
