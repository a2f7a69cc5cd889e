import DeadlineQueue.Queue.Basic

namespace DeadlineQueue

def instantOverflow : String := "overflow when adding duration to instant"

-- A clock that is set by hand.
structure HandClock where
  now : Instant := 0
  failing : Bool := false

namespace HandClock

def read (clock : HandClock) : Except Fault Instant :=
  if clock.failing then .error (.clock "manual clock set to fail") else .ok clock.now

-- Fails where no instant is that late.
def forward? (clock : HandClock) (wait : Duration) : Option HandClock :=
  (clock.now.after? wait).map (fun now => { clock with now })

-- Stays where it is if no instant is that early.
def back (clock : HandClock) (wait : Duration) : HandClock :=
  match clock.now.before? wait with
  | none => clock
  | some now => { clock with now }

end HandClock

-- A clock set by hand whose reads are counted. Chosen reads fail, and every good one moves it on.
structure ScriptedClock where
  hand : HandClock := {}
  pace : Duration := 0
  faults : List Nat := []
  reads : Nat := 0

def ScriptedClock.read (clock : ScriptedClock) : Reading × ScriptedClock :=
  let counted := { clock with reads := clock.reads + 1 }
  if clock.reads ∈ clock.faults then
    (.failed (.clock ("read " ++ toString clock.reads ++ " failed")), counted)
  else
    match clock.hand.read with
    | .error fault => (.failed fault, counted)
    | .ok now =>
      match clock.hand.forward? clock.pace with
      | none => (.panicked instantOverflow, counted)
      | some hand => (.time now, { counted with hand })

end DeadlineQueue
