import DeadlineQueue.Message

namespace DeadlineQueue

inductive LaneName where
  | pending
  | inProgress
  deriving DecidableEq

def LaneName.text : LaneName → String
  | pending => "pending"
  | inProgress => "in_progress"

-- The moment from which a deadline is measured.
inductive Origin where
  | admission
  | start
  deriving DecidableEq

def Entry.since {μ : Type} (entry : Entry μ) : Origin → Option Instant
  | .admission => some entry.enqueuedAt
  | .start => entry.startedAt

structure Slot (μ : Type) where
  key : Nat
  entry : Entry μ

-- Entries in the order of their keys. The lane remembers the latest stamp it was given since
-- it was last empty, and whether the stamps have never gone backwards in that time.
structure Lane (μ : Type) where
  slots : List (Slot μ) := []
  latest : Option Instant := none
  ordered : Bool := true

-- One look for overdue entries. A hasty one stops at the first entry that is not overdue.
structure Scan where
  origin : Origin
  deadline : Duration
  hasty : Bool
  deriving DecidableEq

def Scan.overdue {μ : Type} (scan : Scan) (now : Instant) (entry : Entry μ) : Bool :=
  match entry.since scan.origin with
  | none => false
  | some since => scan.deadline ≤ elapsed since now

-- Entries without a stamp have no age, and a hasty scan passes over them.
def Scan.live {μ : Type} (scan : Scan) (now : Instant) (entry : Entry μ) : Bool :=
  (entry.since scan.origin).isSome && !scan.overdue now entry

namespace Lane

variable {μ : Type}

def entries (lane : Lane μ) : List (Entry μ) :=
  lane.slots.map (·.entry)

def size (lane : Lane μ) : Nat :=
  lane.slots.length

def isEmpty (lane : Lane μ) : Bool :=
  lane.slots.isEmpty

def contains (lane : Lane μ) (key : Nat) : Bool :=
  lane.slots.any (fun slot => slot.key = key)

def lastKey? (lane : Lane μ) : Option Nat :=
  lane.slots.getLast?.map (·.key)

-- An empty lane forgets the stamps it has seen.
def settle (lane : Lane μ) : Lane μ :=
  if lane.isEmpty then {} else lane

-- Whether appending this stamp is the first step backwards that the lane sees.
def turnsBack (lane : Lane μ) (stamp : Instant) : Bool :=
  match lane.latest with
  | none => false
  | some latest => lane.ordered && stamp < latest

def push (lane : Lane μ) (key : Nat) (stamp : Instant) (entry : Entry μ) : Lane μ :=
  { slots := lane.slots ++ [{ key, entry }]
    latest := some (match lane.latest with | none => stamp | some latest => max latest stamp)
    ordered := lane.ordered && !lane.turnsBack stamp }

def remove (lane : Lane μ) (key : Nat) : Option (Entry μ) × Lane μ :=
  ((lane.slots.find? (fun slot => slot.key = key)).map (·.entry),
    settle { lane with slots := lane.slots.filter (fun slot => slot.key ≠ key) })

-- The head, if its key is not beyond the bound.
def popFront (lane : Lane μ) (bound : Nat) : Option (Entry μ) × Lane μ :=
  match lane.slots with
  | [] => (none, lane)
  | slot :: rest =>
    if slot.key ≤ bound then (some slot.entry, settle { lane with slots := rest }) else (none, lane)

def clear (lane : Lane μ) : List (Entry μ) × Lane μ :=
  (lane.entries, settle { lane with slots := [] })

-- The slots that a scan looks at, and those behind them. Stopping early is sound only while
-- the stamps never went backwards.
def reach (lane : Lane μ) (scan : Scan) (now : Instant) : List (Slot μ) × List (Slot μ) :=
  if scan.hasty && lane.ordered then
    (lane.slots.takeWhile (fun slot => !scan.live now slot.entry),
      lane.slots.dropWhile (fun slot => !scan.live now slot.entry))
  else (lane.slots, [])

def takeOverdue (lane : Lane μ) (scan : Scan) (now : Instant) : List (Entry μ) × Lane μ :=
  let (seen, unseen) := lane.reach scan now
  let (overdue, kept) := seen.partition (fun slot => scan.overdue now slot.entry)
  (overdue.map (·.entry), settle { lane with slots := kept ++ unseen })

end Lane

end DeadlineQueue
