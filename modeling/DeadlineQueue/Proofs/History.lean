import DeadlineQueue.Proofs.Transition

namespace DeadlineQueue

variable {μ ρ : Type}

-- A message goes by its id.
def Entry.labelled (entry : Entry μ) : MessageId × μ :=
  (entry.id, entry.message)

def Notice.labelled (notice : Notice μ ρ) : MessageId × μ :=
  (notice.id, notice.message)

namespace Event

-- The id that an enqueue returned.
@[simp] def admitted? : Event μ ρ → Option MessageId
  | .returned (.admitted id) => some id
  | _ => none

@[simp] def dispatched? : Event μ ρ → Option (Token × μ)
  | .dispatched token message => some (token, message)
  | _ => none

@[simp] def raised? : Event μ ρ → Option (Source × Notice μ ρ)
  | .raised source notice => some (source, notice)
  | _ => none

-- The notice that the notifier got, or nobody because nobody listens.
@[simp] def delivered? : Event μ ρ → Option (Notice μ ρ)
  | .notified notice | .unobserved notice => some notice
  | _ => none

@[simp] def isPanic : Event μ ρ → Bool
  | .panicked _ => true
  | _ => false

-- What is said of the events without the log.
class SkipsLog {α : Type} (f : Event μ ρ → Option α) : Prop where
  log (record : Record) : f (.log record) = none

instance : SkipsLog (admitted? : Event μ ρ → _) := ⟨fun _ => rfl⟩
instance : SkipsLog (dispatched? : Event μ ρ → _) := ⟨fun _ => rfl⟩
instance : SkipsLog (raised? : Event μ ρ → _) := ⟨fun _ => rfl⟩
instance : SkipsLog (delivered? : Event μ ρ → _) := ⟨fun _ => rfl⟩

end Event

namespace Frame

-- The message that an enqueue was called with.
@[simp] def message? : Frame μ ρ → Option μ
  | enqueuing message => some message
  | _ => none

-- The entries that a running call holds, which are on no lane.
@[simp] def carried : Frame μ ρ → List (Entry μ)
  | starting _ entry => [entry]
  | retiring _ batch | draining batch _ => batch
  | _ => []

end Frame

-- No panic, neither of user code nor of the clock.
def Move.calm : Move μ ρ → Bool
  | .panic _ | .read (.panicked _) => false
  | _ => true

namespace Queue

section SkipsLog

variable {α : Type} (f : Event μ ρ → Option α) [Event.SkipsLog f] (queue : Queue μ ρ)

@[simp] theorem filterMap_logBackwards (name : LaneName) (stamp : Instant) :
    (queue.logBackwards name stamp).filterMap f = [] := by
  simp [Event.SkipsLog.log]

@[simp] theorem filterMap_comp_log {β : Type} (record : β → Record) (values : List β) :
    values.filterMap (f ∘ fun value => .log (record value)) = [] := by
  simp [Event.SkipsLog.log]

@[simp] theorem filterMap_drop : queue.drop.2.filterMap f = [.returned .done].filterMap f := by
  unfold drop
  split <;> simp [Event.SkipsLog.log]

@[simp] theorem filterMap_dropToken (token : Token) :
    (queue.dropToken token).2.filterMap f = [.returned .done].filterMap f := by
  unfold dropToken
  split <;> simp [Event.SkipsLog.log]

end SkipsLog

-- What the processor was handed.
def dispatches (events : List (Event μ ρ)) : List (Token × μ) :=
  events.filterMap Event.dispatched?

theorem dispatches_append (first second : List (Event μ ρ)) :
    dispatches (first ++ second) = dispatches first ++ dispatches second :=
  List.filterMap_append

-- The ids that an enqueue returned in a step, with the message that it was called with.
def accepted (queue : Queue μ ρ) (events : List (Event μ ρ)) : List (MessageId × μ) :=
  (events.filterMap Event.admitted?).flatMap fun id =>
    (queue.stack.head?.bind Frame.message?).toList.map fun message => (id, message)

-- The messages that a run admits, in the order of admission.
def admissions (queue : Queue μ ρ) : List (Move μ ρ) → List (MessageId × μ)
  | [] => []
  | move :: moves => queue.accepted (queue.step move).2 ++ (queue.step move).1.admissions moves

-- What each step keeps of a state and its past, a whole run keeps.
theorem run_invariant {P : Queue μ ρ → List (MessageId × μ) → List (Event μ ρ) → Prop} (moves : List (Move μ ρ))
    (hstep : ∀ queue admitted events, ∀ move ∈ moves, P queue admitted events →
      P (queue.step move).1 (admitted ++ queue.accepted (queue.step move).2) (events ++ (queue.step move).2))
    (queue : Queue μ ρ) (admitted : List (MessageId × μ)) (events : List (Event μ ρ)) (h : P queue admitted events) :
    P (queue.run moves).1 (admitted ++ queue.admissions moves) (events ++ (queue.run moves).2) := by
  induction moves generalizing queue admitted events with
  | nil => simpa [run_nil, admissions] using h
  | cons move moves ih =>
      have hnext := hstep queue admitted events move List.mem_cons_self h
      have hrest := ih (fun queue admitted events other hother =>
        hstep queue admitted events other (List.mem_cons_of_mem _ hother)) _ _ _ hnext
      rw [run_cons, admissions]
      simpa only [List.append_assoc] using hrest

-- A state that some run of a new queue ends in.
def Reachable (queue : Queue μ ρ) : Prop :=
  ∃ settings observed moves, ((make settings observed).run moves).1 = queue

end Queue

end DeadlineQueue
