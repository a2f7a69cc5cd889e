import DeadlineQueue.Host

namespace DeadlineQueue.Simulation

-- What the processor does with the token of a message.
inductive Behaviour (ρ : Type) where
  | keep
  | drop
  | reportNow (outcome : Outcome) (reason : Option ρ)
  | reportAfter (wait : Duration) (outcome : Outcome) (reason : Option ρ)

-- A report that is still to come.
structure Report (μ ρ : Type) where
  due : Instant
  token : Token
  message : μ
  outcome : Outcome
  reason : Option ρ

inductive Happening (μ ρ : Type) where
  | log (record : Record)
  | process (time : Instant) (message : μ)
  | completed (time : Instant) (notice : Notice μ ρ)
  | reported (time : Instant) (message : μ) (accepted : Bool)

-- Surroundings in simulated time: the clock never fails, every message has its behaviour, and
-- whoever listens for notices does nothing else. The reports to come are sorted by time.
structure World (μ ρ : Type) where
  behaviour : μ → Behaviour ρ
  now : Instant := 0
  reports : List (Report μ ρ) := []
  accepted : Bool := false
  happened : Array (Happening μ ρ) := #[]

namespace World

variable {μ ρ : Type}

def note (world : World μ ρ) (happening : Happening μ ρ) : World μ ρ :=
  { world with happened := world.happened.push happening }

def schedule (report : Report μ ρ) : List (Report μ ρ) → List (Report μ ρ)
  | [] => [report]
  | next :: rest => if next.due ≤ report.due then next :: schedule report rest else report :: next :: rest

def react (world : World μ ρ) (queue : Queue μ ρ) : Reaction μ ρ × World μ ρ :=
  match queue.stack with
  | [] => (.rest, world)
  | .processing token message :: _ =>
    if token ∈ queue.held then
      match world.behaviour message with
      | .drop => (.move (.call (.dropToken token)), world)
      | .reportNow outcome reason => (.move (.call (.complete token outcome reason)), world)
      | .keep | .reportAfter _ _ _ => (.move .finish, world)
    else (.move .finish, world)
  | _ => (.move .finish, world)

def observe (world : World μ ρ) : Event μ ρ → World μ ρ
  | .log record => world.note (.log record)
  | .dispatched token message =>
    let noted := world.note (.process world.now message)
    match world.behaviour message with
    | .reportAfter wait outcome reason =>
      let report := { due := world.now + wait, token, message, outcome, reason }
      { noted with reports := schedule report world.reports }
    | _ => noted
  | .notified notice => world.note (.completed world.now notice)
  | .returned (.delivered accepted) => { world with accepted }
  | _ => world

def host : Host (World μ ρ) μ ρ where
  read world := (.time world.now, world)
  react := react
  observe := observe

-- Each tracked message costs a call at most eight turns and each waiting notice three, and the
-- call itself a dozen.
def turns (queue : Queue μ ρ) : Nat :=
  8 * queue.size + 3 * queue.outbox.length + 16

-- One call from the owner of the queue, until it has returned.
def call (world : World μ ρ) (queue : Queue μ ρ) (call : Call μ ρ) : World μ ρ × Queue μ ρ :=
  let (next, called) := host.apply world queue (.call call)
  host.play (turns queue) next called

def report (world : World μ ρ) (queue : Queue μ ρ) (report : Report μ ρ) : World μ ρ × Queue μ ρ :=
  let (next, after) := { world with now := report.due }.call queue
    (.complete report.token report.outcome report.reason)
  (next.note (.reported report.due report.message next.accepted), after)

-- Time goes on to the given instant, and the reports that fall due on the way are made.
def passTo (world : World μ ρ) (queue : Queue μ ρ) (time : Instant) : World μ ρ × Queue μ ρ :=
  let due := world.reports.takeWhile (fun report => report.due ≤ time)
  let later := world.reports.dropWhile (fun report => report.due ≤ time)
  let (next, after) := due.foldl (fun (world, queue) report => world.report queue report)
    ({ world with reports := later }, queue)
  ({ next with now := time }, after)

end World

end DeadlineQueue.Simulation
