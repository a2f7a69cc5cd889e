namespace DeadlineQueue

-- Instants and durations are whole nanoseconds. An instant counts from a moment that the clock
-- chose, so it can be negative; only differences of instants have a meaning.
abbrev Instant := Int

abbrev Duration := Nat

def millisecond : Duration := 1000000

-- An instant is held as a signed 64-bit number of seconds and the nanoseconds within one.
def instantLimit : Instant := 9223372036854775808 * 1000000000

-- A duration is held as an unsigned 64-bit number of seconds and the nanoseconds within one.
def durationLimit : Duration := 18446744073709551616 * 1000000000

-- The time from `since` to `now`, zero if `now` is the earlier one.
def elapsed (since now : Instant) : Duration :=
  (now - since).toNat

def Instant.after? (start : Instant) (wait : Duration) : Option Instant :=
  if start + wait < instantLimit then some (start + wait) else none

def Instant.before? (start : Instant) (wait : Duration) : Option Instant :=
  if -instantLimit ≤ start - wait then some (start - wait) else none

end DeadlineQueue
