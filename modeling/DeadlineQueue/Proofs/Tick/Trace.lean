import DeadlineQueue.Proofs.Calls
import DeadlineQueue.Proofs.Sound

namespace DeadlineQueue

variable {μ ρ : Type}

-- What a scan of a tick found before it: the time, the lane and all that the lane held.
structure Look (μ : Type) where
  now : Instant
  lane : LaneName
  scan : Scan
  entries : List (Entry μ)

namespace Look

def key (look : Look μ) : Instant × LaneName × Scan :=
  (look.now, look.lane, look.scan)

def late (look : Look μ) : List (Entry μ) :=
  look.entries.filter (look.scan.overdue look.now)

-- The reports that the look calls for.
def timeouts (look : Look μ) : List (LaneName × Notice μ ρ) :=
  look.late.map fun entry => (look.lane, entry.notice .timeout none)

end Look

-- A report of the sweep, and the lane that the message was on.
@[simp] def Event.timeout? : Event μ ρ → Option (LaneName × Notice μ ρ)
  | .raised (.sweep lane) notice => some (lane, notice)
  | _ => none

instance : Event.SkipsLog (Event.timeout? : Event μ ρ → _) := ⟨fun _ => rfl⟩

namespace Frame

-- The scans that are still to come.
@[simp] def ahead : Frame μ ρ → List (Instant × LaneName × Scan)
  | scanning now scans => scans.map fun look => (now, look)
  | _ => []

-- The reports that are still to be raised.
@[simp] def unraised : Frame μ ρ → List (LaneName × Notice μ ρ)
  | retiring lane batch => batch.map fun entry => (lane, entry.notice .timeout none)
  | _ => []

-- A call that holds the queue and is no tick, or one that has not got its time yet.
def outsideTick : Frame μ ρ → Bool
  | enqueuing _ | sweeping _ | draining _ _ => true
  | _ => false

-- A tick that has its time and does not dispatch yet.
def sweeps : Frame μ ρ → Bool
  | scanning _ _ | retiring _ _ | gathering => true
  | _ => false

end Frame

theorem ahead_of_not_holdsQueue (stack : List (Frame μ ρ)) (h : stack.any Frame.holdsQueue = false) :
    stack.flatMap Frame.ahead = [] :=
  flatMap_of_not_holdsQueue stack Frame.ahead (fun frame hframe => by cases frame <;> simp_all [Frame.holdsQueue]) h

theorem unraised_of_not_holdsQueue (stack : List (Frame μ ρ)) (h : stack.any Frame.holdsQueue = false) :
    stack.flatMap Frame.unraised = [] :=
  flatMap_of_not_holdsQueue stack Frame.unraised (fun frame hframe => by cases frame <;> simp_all [Frame.holdsQueue]) h

namespace Queue

-- The look that a move takes.
def look? (queue : Queue μ ρ) (move : Move μ ρ) : Option (Look μ) :=
  match move, queue.stack with
  | .advance, .scanning now ((name, scan) :: _) :: _ =>
    some { now, lane := name, scan, entries := (queue.lane name).entries }
  | _, _ => none

def looks (queue : Queue μ ρ) : List (Move μ ρ) → List (Look μ)
  | [] => []
  | move :: moves => (queue.look? move).toList ++ (queue.step move).1.looks moves

def timeouts (events : List (Event μ ρ)) : List (LaneName × Notice μ ρ) :=
  events.filterMap Event.timeout?

def ahead (queue : Queue μ ρ) : List (Instant × LaneName × Scan) :=
  queue.stack.flatMap Frame.ahead

def unraised (queue : Queue μ ρ) : List (LaneName × Notice μ ρ) :=
  queue.stack.flatMap Frame.unraised

def sweeping (queue : Queue μ ρ) : Bool :=
  queue.stack.any Frame.sweeps

-- Whether some call holds the queue before each move.
def occupied (queue : Queue μ ρ) : List (Move μ ρ) → Bool
  | [] => true
  | move :: moves => queue.busy && (queue.step move).1.occupied moves

-- What holds from the reading of a tick's time on while the queue is not free.
structure Ticking (queue : Queue μ ρ) (admitted : List (MessageId × μ)) (past : List (Event μ ρ)) : Prop where
  sound : queue.Sound admitted past
  frames : queue.stack.any Frame.outsideTick = false

theorem look_eq_none (queue : Queue μ ρ) (move : Move μ ρ) (h : move ≠ .advance) : queue.look? move = none := by
  unfold look?
  split
  · exact absurd rfl h
  · rfl

theorem raise_ahead (queue : Queue μ ρ) (source : Source) (notice : Notice μ ρ) :
    (queue.raise source notice).1.ahead = queue.ahead :=
  flatMap_stack_raise queue source notice Frame.ahead rfl

theorem raise_unraised (queue : Queue μ ρ) (source : Source) (notice : Notice μ ρ) :
    (queue.raise source notice).1.unraised = queue.unraised :=
  flatMap_stack_raise queue source notice Frame.unraised rfl

-- In the course of a tick no other call gets the queue.
theorem Transition.outsideTick {queue next : Queue μ ρ} {move : Move μ ρ} {events : List (Event μ ρ)}
    (h : Transition queue move next events) (hbusy : queue.busy = true)
    (hframes : queue.stack.any Frame.outsideTick = false) : next.stack.any Frame.outsideTick = false := by
  cases h with
  | retire hstack =>
      rw [any_stack_raise _ _ _ _ rfl]
      simp_all [Frame.outsideTick]
  | startUnread fault hstack =>
      rw [any_stack_raise _ _ _ _ rfl]
      simp_all [Frame.outsideTick]
  | complete =>
      rw [any_stack_raise _ _ _ _ rfl]
      simpa [Frame.outsideTick] using hframes
  | clockPanic text => exact any_eq_false_of_suffix _ (unwind_suffix queue queue.stack text) hframes
  | panic text hstack => exact any_eq_false_of_suffix _ (unwind_suffix_of_cons queue hstack text) hframes
  | @finish frame rest hstack => exact any_eq_false_of_suffix _ (hstack ▸ List.suffix_cons frame rest) hframes
  | _ => simp_all [Frame.outsideTick]

-- No message is admitted in the course of a tick.
theorem Transition.accepted_eq_nil {queue next : Queue μ ρ} {move : Move μ ρ} {events : List (Event μ ρ)}
    (h : Transition queue move next events) (hframes : queue.stack.any Frame.outsideTick = false) :
    queue.accepted events = [] := by
  cases h.change with
  | trimmed _ _ _ _ hadmitted => exact Queue.accepted_eq_nil queue events hadmitted
  | accepted hstack => simp [hstack, Frame.outsideTick] at hframes
  | started _ _ _ _ _ _ hadmitted => exact Queue.accepted_eq_nil queue events hadmitted

theorem Ticking.step {queue : Queue μ ρ} {admitted : List (MessageId × μ)} {past : List (Event μ ρ)}
    (h : queue.Ticking admitted past) (hbusy : queue.busy = true) (move : Move μ ρ) :
    (queue.step move).1.Ticking admitted (past ++ (queue.step move).2) where
  sound := by
    have hsound := h.sound.step move
    rwa [(transition_step queue move).accepted_eq_nil h.frames, List.append_nil] at hsound
  frames := (transition_step queue move).outsideTick hbusy h.frames

-- What a look does. It takes the next scan from its lane, and what it finds late waits for its report.
theorem step_of_look {queue : Queue μ ρ} {move : Move μ ρ} {look : Look μ} (hlook : queue.look? move = some look) :
    ∃ scans rest, queue.stack = .scanning look.now ((look.lane, look.scan) :: scans) :: rest ∧
      look.entries = (queue.lane look.lane).entries ∧
      (queue.step move).1.lane look.lane = ((queue.lane look.lane).takeOverdue look.scan look.now).2 ∧
      (queue.step move).1.stack = .retiring look.lane ((queue.lane look.lane).takeOverdue look.scan look.now).1 ::
        .scanning look.now scans :: rest ∧
      timeouts (queue.step move).2 = [] := by
  unfold look? at hlook
  split at hlook
  · rename_i now name scan scans rest hstack
    obtain rfl := Option.some.inj hlook
    have hturn : queue.turn = .queue := by simp [turn, hstack, Frame.isUser, Frame.awaitsClock]
    refine ⟨scans, rest, hstack, rfl, ?_⟩
    simp only [step, hturn, if_pos, advance, hstack]
    exact ⟨by cases name <;> rfl, trivial, by simp [timeouts]⟩
  · simp at hlook

-- However hasty the scan, it takes what is late on the whole lane.
theorem Sound.takeOverdue_look {queue : Queue μ ρ} {admitted : List (MessageId × μ)} {past : List (Event μ ρ)}
    (h : queue.Sound admitted past) {move : Move μ ρ} {look : Look μ} (hlook : queue.look? move = some look) :
    ((queue.lane look.lane).takeOverdue look.scan look.now).1 = look.late ∧
      ((queue.lane look.lane).takeOverdue look.scan look.now).2.entries =
        look.entries.filter (fun entry => !look.scan.overdue look.now entry) := by
  obtain ⟨scans, rest, hstack, hentries, -⟩ := step_of_look hlook
  have hfair := h.stacked.fair_scan hstack
  rw [(h.ordered.lane look.lane).takeOverdue look.scan look.now hfair.origin_of_hasty, Look.late, hentries]
  refine ⟨rfl, ?_⟩
  rw [Lane.entries, Lane.slots_settle, Lane.entries, List.filter_map]
  rfl

-- A step that takes no look leaves the scans as they are, and raises the next report if it raises one.
theorem Transition.timeouts {queue next : Queue μ ρ} {move : Move μ ρ} {events : List (Event μ ρ)}
    (h : Transition queue move next events) (hlook : queue.look? move = none) (hcalm : move.calm = true)
    (hbusy : queue.busy = true) (hframes : queue.stack.any Frame.outsideTick = false) :
    next.ahead = queue.ahead ∧ timeouts events ++ next.unraised = queue.unraised := by
  cases h with
  | scan hstack => simp [look?, hstack] at hlook
  | retire hstack =>
      rw [raise_ahead, raise_unraised]
      simp [Queue.ahead, unraised, hstack, Queue.timeouts]
  | startUnread fault hstack =>
      rw [raise_ahead, raise_unraised]
      simp [Queue.ahead, unraised, hstack, Queue.timeouts, List.filterMap_cons]
  | complete =>
      rw [raise_ahead, raise_unraised]
      simp [Queue.ahead, unraised, Queue.timeouts, List.filterMap_cons]
  | @finish frame rest hstack huser =>
      cases frame <;> simp_all [Queue.ahead, unraised, Queue.timeouts, Frame.isUser]
  | clockPanic => simp [Move.calm] at hcalm
  | panic => simp [Move.calm] at hcalm
  | _ => simp_all [Queue.ahead, unraised, Queue.timeouts, List.filterMap_cons, Frame.outsideTick]

-- A look takes the next scan, and what it finds late is to be raised.
theorem Ticking.step_timeouts {queue : Queue μ ρ} {admitted : List (MessageId × μ)} {past : List (Event μ ρ)}
    (h : queue.Ticking admitted past) (hbusy : queue.busy = true) (move : Move μ ρ) (hcalm : move.calm = true) :
    (queue.look? move).toList.map Look.key ++ (queue.step move).1.ahead = queue.ahead ∧
      timeouts (queue.step move).2 ++ (queue.step move).1.unraised =
        queue.unraised ++ (queue.look? move).toList.flatMap Look.timeouts := by
  cases hlook : queue.look? move with
  | none => simpa using (transition_step queue move).timeouts hlook hcalm hbusy h.frames
  | some look =>
      obtain ⟨scans, rest, hstack, -, -, hnext, hevents⟩ := step_of_look hlook
      -- No other call of the sweep lies below this one.
      have hrest := unraised_of_not_holdsQueue rest (h.sound.stacked.fits hstack).1
      rw [(h.sound.takeOverdue_look hlook).1] at hnext
      constructor
      · simp [ahead, hstack, hnext, Look.key]
      · simp [hevents, unraised, hstack, hnext, hrest, Look.timeouts]

-- What is raised is what the looks called for, in their order.
theorem Ticking.run_timeouts {queue : Queue μ ρ} {admitted : List (MessageId × μ)} {past : List (Event μ ρ)}
    (h : queue.Ticking admitted past) (moves : List (Move μ ρ)) (hoccupied : queue.occupied moves = true)
    (hcalm : ∀ move ∈ moves, move.calm = true) :
    (queue.looks moves).map Look.key ++ (queue.run moves).1.ahead = queue.ahead ∧
      timeouts (queue.run moves).2 ++ (queue.run moves).1.unraised =
        queue.unraised ++ (queue.looks moves).flatMap Look.timeouts := by
  induction moves generalizing queue past with
  | nil => simp [run_nil, looks, timeouts]
  | cons move moves ih =>
      obtain ⟨hbusy, hoccupied⟩ := Bool.and_eq_true_iff.mp hoccupied
      obtain ⟨hahead, hraised⟩ := h.step_timeouts hbusy move (hcalm move List.mem_cons_self)
      obtain ⟨hahead', hraised'⟩ := ih (h.step hbusy move) hoccupied
        (fun other hother => hcalm other (List.mem_cons_of_mem _ hother))
      have hevents : timeouts (queue.run (move :: moves)).2 =
          timeouts (queue.step move).2 ++ timeouts ((queue.step move).1.run moves).2 :=
        List.filterMap_append
      rw [hevents, run_cons, looks]
      constructor
      · rw [List.map_append, List.append_assoc, hahead', hahead]
      · rw [List.append_assoc, hraised', ← List.append_assoc, hraised, List.flatMap_append, List.append_assoc]

-- Without a scan ahead there is no look.
theorem Ticking.looks_eq_nil {queue : Queue μ ρ} {admitted : List (MessageId × μ)} {past : List (Event μ ρ)}
    (h : queue.Ticking admitted past) (hahead : queue.ahead = []) (moves : List (Move μ ρ))
    (hoccupied : queue.occupied moves = true) (hcalm : ∀ move ∈ moves, move.calm = true) : queue.looks moves = [] := by
  have hlooks := (h.run_timeouts moves hoccupied hcalm).1
  rw [hahead] at hlooks
  exact List.map_eq_nil_iff.mp (List.append_eq_nil_iff.mp hlooks).1

-- In the course of a tick messages are dispatched from what waited at its start.
theorem Ticking.run_fifo {queue : Queue μ ρ} {admitted : List (MessageId × μ)} {past : List (Event μ ρ)}
    (h : queue.Ticking admitted past) (moves : List (Move μ ρ)) (hoccupied : queue.occupied moves = true) :
    ((dispatches (queue.run moves).2).map labelOf ++ (queue.run moves).1.unstarted.map Entry.labelled).Sublist
      (queue.unstarted.map Entry.labelled) := by
  induction moves generalizing queue past with
  | nil => simp [run_nil, dispatches]
  | cons move moves ih =>
      obtain ⟨hbusy, hoccupied⟩ := Bool.and_eq_true_iff.mp hoccupied
      have hstep := (transition_step queue move).fifo h.sound.stacked
      rw [(transition_step queue move).accepted_eq_nil h.frames, List.append_nil] at hstep
      have hrest := ih (h.step hbusy move) hoccupied
      rw [run_cons, dispatches_append, List.map_append, List.append_assoc]
      exact (hrest.append_left _).trans hstep

theorem Ticking.run {queue : Queue μ ρ} {admitted : List (MessageId × μ)} {past : List (Event μ ρ)}
    (h : queue.Ticking admitted past) (moves : List (Move μ ρ)) (hoccupied : queue.occupied moves = true) :
    (queue.run moves).1.Ticking admitted (past ++ (queue.run moves).2) := by
  induction moves generalizing queue past with
  | nil => simpa [run_nil] using h
  | cons move moves ih =>
      obtain ⟨hbusy, hoccupied⟩ := Bool.and_eq_true_iff.mp hoccupied
      have hrest := ih (h.step hbusy move) hoccupied
      rwa [List.append_assoc] at hrest

end Queue

end DeadlineQueue
