import DeadlineQueue.Clock
import DeadlineQueue.Proofs.Transition

namespace DeadlineQueue

variable {μ ρ : Type}

-- Things as a clock tells them that is ahead by a shift, or behind if the shift is negative.
section later

variable (shift : Int)

def Entry.later (entry : Entry μ) : Entry μ :=
  { entry with enqueuedAt := entry.enqueuedAt + shift, startedAt := entry.startedAt.map (· + shift) }

def Slot.later (slot : Slot μ) : Slot μ :=
  { slot with entry := slot.entry.later shift }

def Lane.later (lane : Lane μ) : Lane μ :=
  { lane with slots := lane.slots.map (Slot.later shift), latest := lane.latest.map (· + shift) }

def Frame.later : Frame μ ρ → Frame μ ρ
  | scanning now scans => scanning (now + shift) scans
  | starting bound entry => starting bound (entry.later shift)
  | retiring name batch => retiring name (batch.map (Entry.later shift))
  | draining batch total => draining (batch.map (Entry.later shift)) total
  | frame => frame

def Queue.later (queue : Queue μ ρ) : Queue μ ρ :=
  { queue with
    pending := queue.pending.later shift
    inProgress := queue.inProgress.later shift
    stack := queue.stack.map (Frame.later shift) }

-- Only a successful reading says what the time is.
def Reading.later : Reading → Reading
  | time now => time (now + shift)
  | reading => reading

def Move.later : Move μ ρ → Move μ ρ
  | read reading => read (reading.later shift)
  | move => move

end later

-- No age changes when both ends of it move by the same shift.
@[simp] theorem elapsed_add_add (since now : Instant) (shift : Int) :
    elapsed (since + shift) (now + shift) = elapsed since now := by
  unfold elapsed
  congr 1
  omega

section Entry

variable (shift : Int) (entry : Entry μ)

@[simp] theorem Entry.id_later : (entry.later shift).id = entry.id := rfl

@[simp] theorem Entry.message_later : (entry.later shift).message = entry.message := rfl

@[simp] theorem Entry.notice_later (outcome : Outcome) (reason : Option ρ) :
    (entry.later shift).notice outcome reason = entry.notice outcome reason := rfl

theorem Entry.since_later (origin : Origin) :
    (entry.later shift).since origin = (entry.since origin).map (· + shift) := by
  cases origin <;> rfl

@[simp] theorem Scan.overdue_later (scan : Scan) (now : Instant) :
    scan.overdue (now + shift) (entry.later shift) = scan.overdue now entry := by
  unfold Scan.overdue
  rw [Entry.since_later]
  cases entry.since scan.origin with
  | none => rfl
  | some since => simp

@[simp] theorem Scan.live_later (scan : Scan) (now : Instant) :
    scan.live (now + shift) (entry.later shift) = scan.live now entry := by
  simp [Scan.live, Entry.since_later]

@[simp] theorem Slot.key_later (slot : Slot μ) : (slot.later shift).key = slot.key := rfl

@[simp] theorem Slot.entry_later (slot : Slot μ) : (slot.later shift).entry = slot.entry.later shift := rfl

end Entry

namespace Lane

variable (shift : Int) (lane : Lane μ)

@[simp] theorem later_empty : ({} : Lane μ).later shift = {} := rfl

@[simp] theorem slots_later : (lane.later shift).slots = lane.slots.map (Slot.later shift) := rfl

@[simp] theorem size_later : (lane.later shift).size = lane.size := by
  simp [size]

@[simp] theorem isEmpty_later : (lane.later shift).isEmpty = lane.isEmpty := by
  simp [isEmpty]

@[simp] theorem contains_later (key : Nat) : (lane.later shift).contains key = lane.contains key := by
  unfold contains
  rw [slots_later, List.any_map]
  rfl

@[simp] theorem lastKey_later : (lane.later shift).lastKey? = lane.lastKey? := by
  simp [lastKey?, Function.comp_def]

theorem entries_later : (lane.later shift).entries = lane.entries.map (Entry.later shift) := by
  simp [entries, Function.comp_def]

theorem settle_later : (lane.later shift).settle = lane.settle.later shift := by
  unfold settle
  rw [isEmpty_later]
  split <;> rfl

@[simp] theorem turnsBack_later (stamp : Instant) :
    (lane.later shift).turnsBack (stamp + shift) = lane.turnsBack stamp := by
  simp only [turnsBack, later]
  cases lane.latest with
  | none => rfl
  | some latest => simp

theorem push_later (key : Nat) (stamp : Instant) (entry : Entry μ) :
    (lane.later shift).push key (stamp + shift) (entry.later shift) = (lane.push key stamp entry).later shift := by
  simp only [push, turnsBack_later]
  cases hlatest : lane.latest with
  | none => simp [later, hlatest, Slot.later]
  | some latest =>
      have hmax : max (latest + shift) (stamp + shift) = max latest stamp + shift := by
        rcases Int.le_total latest stamp with h | h
        · rw [Int.max_eq_right h, Int.max_eq_right (Int.add_le_add_right h shift)]
        · rw [Int.max_eq_left h, Int.max_eq_left (Int.add_le_add_right h shift)]
      simp [later, hlatest, Slot.later, hmax]

theorem remove_later (key : Nat) :
    (lane.later shift).remove key =
      ((lane.remove key).1.map (Entry.later shift), (lane.remove key).2.later shift) := by
  unfold remove
  rw [slots_later, List.find?_map, List.filter_map, ← settle_later]
  simp only [Option.map_map]
  rfl

theorem popFront_later (bound : Nat) :
    (lane.later shift).popFront bound =
      ((lane.popFront bound).1.map (Entry.later shift), (lane.popFront bound).2.later shift) := by
  unfold popFront
  cases hslots : lane.slots with
  | nil => simp [hslots]
  | cons slot rest =>
      by_cases hbound : slot.key ≤ bound
      · simp only [slots_later, hslots, List.map_cons, Slot.later, hbound, ite_true, Option.map_some, ← settle_later]
        rfl
      · simp [hslots, Slot.later, hbound]

theorem reach_later (scan : Scan) (now : Instant) :
    (lane.later shift).reach scan (now + shift) =
      ((lane.reach scan now).1.map (Slot.later shift), (lane.reach scan now).2.map (Slot.later shift)) := by
  unfold reach
  change (if scan.hasty && lane.ordered then _ else _) = _
  split
  · simp [List.takeWhile_map, List.dropWhile_map, Function.comp_def]
  · simp

theorem takeOverdue_later (scan : Scan) (now : Instant) :
    (lane.later shift).takeOverdue scan (now + shift) =
      ((lane.takeOverdue scan now).1.map (Entry.later shift), (lane.takeOverdue scan now).2.later shift) := by
  apply Prod.ext
  · simp [takeOverdue_fst, reach_later, List.filter_map, Function.comp_def]
  · simp only [takeOverdue_snd, ← settle_later, reach_later]
    simp [later, List.filter_map, Function.comp_def]

end Lane

section Frame

variable (shift : Int) (frame : Frame μ ρ)

@[simp] theorem Frame.isUser_later : (frame.later shift).isUser = frame.isUser := by cases frame <;> rfl
@[simp] theorem Frame.awaitsClock_later : (frame.later shift).awaitsClock = frame.awaitsClock := by cases frame <;> rfl
@[simp] theorem Frame.holdsQueue_later : (frame.later shift).holdsQueue = frame.holdsQueue := by cases frame <;> rfl
@[simp] theorem Frame.isCompleting_later : (frame.later shift).isCompleting = frame.isCompleting := by
  cases frame <;> rfl
@[simp] theorem Frame.isDelivering_later : (frame.later shift).isDelivering = frame.isDelivering := by
  cases frame <;> rfl

end Frame

namespace Queue

variable (shift : Int) (queue : Queue μ ρ)

@[simp] theorem stack_later : (queue.later shift).stack = queue.stack.map (Frame.later shift) := rfl

@[simp] theorem pending_later : (queue.later shift).pending = queue.pending.later shift := rfl

@[simp] theorem inProgress_later : (queue.later shift).inProgress = queue.inProgress.later shift := rfl

@[simp] theorem lane_later (name : LaneName) : (queue.later shift).lane name = (queue.lane name).later shift := by
  cases name <;> rfl

@[simp] theorem turn_later : (queue.later shift).turn = queue.turn := by
  unfold turn
  rw [stack_later]
  cases queue.stack with
  | nil => rfl
  | cons frame rest => simp

@[simp] theorem busy_later : (queue.later shift).busy = queue.busy := by
  simp [busy, Function.comp_def]

@[simp] theorem alive_later : (queue.later shift).alive = queue.alive := by
  simp only [alive, stack_later, List.any_map, Function.comp_def, Frame.isCompleting_later]
  rfl

@[simp] theorem logBackwards_later (name : LaneName) (stamp : Instant) :
    (queue.later shift).logBackwards name (stamp + shift) = queue.logBackwards name stamp := by
  simp [logBackwards]

theorem setLane_later (name : LaneName) (lane : Lane μ) :
    (queue.later shift).setLane name (lane.later shift) = (queue.setLane name lane).later shift := by
  cases name <;> rfl

theorem append_later (name : LaneName) (stamp : Instant) (entry : Entry μ) :
    (queue.later shift).append name (stamp + shift) (entry.later shift) =
      (queue.append name stamp entry).later shift := by
  unfold append
  rw [lane_later, Lane.push_later, setLane_later]
  rfl

theorem raise_later (source : Source) (notice : Notice μ ρ) :
    ((queue.later shift).raise source notice).1 = (queue.raise source notice).1.later shift := by
  have hdelivering : (queue.later shift).delivering = queue.delivering := rfl
  simp only [raise, hdelivering]
  split <;> rfl

theorem unwind_later (stack : List (Frame μ ρ)) (text : String) :
    ((queue.later shift).unwind (stack.map (Frame.later shift)) text).1 = (queue.unwind stack text).1.later shift := by
  simp only [unwind, List.takeWhile_map, List.dropWhile_map, List.any_map, Function.comp_def, Frame.isUser_later,
    Frame.isDelivering_later]
  rfl

theorem snd_drop_later : (queue.later shift).drop.2 = queue.drop.2 := by
  simp [drop, isEmpty]

theorem snd_dropToken_later (token : Token) : ((queue.later shift).dropToken token).2 = (queue.dropToken token).2 := by
  simp [dropToken]

theorem awaits_later (move : Move μ ρ) : (queue.later shift).Awaits (move.later shift) ↔ queue.Awaits move := by
  cases move <;> simp [Awaits, Move.later]

section Transition

variable {queue} {next : Queue μ ρ} {events : List (Event μ ρ)} {frame : Frame μ ρ} {rest : List (Frame μ ρ)}

theorem stack_later_cons (hstack : queue.stack = frame :: rest) :
    (queue.later shift).stack = frame.later shift :: rest.map (Frame.later shift) := by
  rw [stack_later, hstack, List.map_cons]

-- A notice tells no time.
theorem Transition.later_raise {move : Move μ ρ} {source : Source} {notice : Notice μ ρ}
    (h : Transition (queue.later shift) move ((next.later shift).raise source notice).1 events) :
    Transition (queue.later shift) move ((next.raise source notice).1.later shift) events := by
  rwa [← raise_later]

theorem later_append (name : LaneName) (now : Instant) (entry : Entry μ) (nextId : Nat) (held : List Token)
    (stack : List (Frame μ ρ)) :
    { (queue.later shift).append name (now + shift) (entry.later shift) with
        nextId, held, stack := stack.map (Frame.later shift) } =
      Queue.later shift { queue.append name now entry with nextId, held, stack } := by
  rw [append_later]
  rfl

-- What the queue does by itself.
theorem Transition.later_advance (h : Transition queue .advance next events) :
    Transition (queue.later shift) .advance (next.later shift) events := by
  cases h with
  | idle _ hidle => exact .idle _ (mt (awaits_later shift queue .advance).mp hidle)
  | @scan now name scan scans rest hstack =>
      have h := Transition.scan (stack_later_cons shift hstack)
      simp only [lane_later, Lane.takeOverdue_later, setLane_later, List.map_map] at h
      cases name <;> exact h
  | scannedAll hstack => exact .scannedAll (stack_later_cons shift hstack)
  | retire hstack =>
      have h := Transition.retire (stack_later_cons shift hstack)
      exact h.later_raise
  | retiredAll hstack => exact .retiredAll (stack_later_cons shift hstack)
  | nothingPending hstack hkey => exact .nothingPending (stack_later_cons shift hstack) (by simpa)
  | gather hstack hkey => exact .gather (stack_later_cons shift hstack) (by simpa)
  | dispatchedAll hstack hpop => exact .dispatchedAll (stack_later_cons shift hstack) (by simpa [Lane.popFront_later])
  | @pop bound entry rest hstack hpop =>
      have hpopped : ((queue.later shift).pending.popFront bound).1 = some (entry.later shift) := by
        simp [Lane.popFront_later, hpop]
      have h := Transition.pop (stack_later_cons shift hstack) hpopped
      simp only [pending_later, Lane.popFront_later] at h
      exact h
  | cancel hstack =>
      have h := Transition.cancel (stack_later_cons shift hstack)
      exact h.later_raise
  | cancelledAll hstack => exact .cancelledAll (stack_later_cons shift hstack)
  | completed hstack => exact .completed (stack_later_cons shift hstack)
  | deliveredAll hstack houtbox => exact .deliveredAll (stack_later_cons shift hstack) houtbox
  | notify hstack houtbox hobserved => exact .notify (stack_later_cons shift hstack) houtbox hobserved
  | skip hstack houtbox hobserved => exact .skip (stack_later_cons shift hstack) houtbox hobserved

-- What it does with a reading, which is shifted.
theorem Transition.later_read {reading : Reading} (h : Transition queue (.read reading) next events) :
    Transition (queue.later shift) (.read (reading.later shift)) (next.later shift) events := by
  cases h with
  | idle _ hidle => exact .idle _ (mt (awaits_later shift queue (.read reading)).mp hidle)
  | accept now hstack =>
      have h := Transition.accept (now + shift) (stack_later_cons shift hstack)
      rw [logBackwards_later] at h
      rw [← later_append]
      exact h
  | sweep now hstack => exact .sweep (now + shift) (stack_later_cons shift hstack)
  | start now hstack =>
      have h := Transition.start (now + shift) (stack_later_cons shift hstack)
      rw [logBackwards_later] at h
      rw [← later_append]
      exact h
  | reject fault hstack => exact .reject fault (stack_later_cons shift hstack)
  | sweepUnread fault hstack => exact .sweepUnread fault (stack_later_cons shift hstack)
  | startUnread fault hstack =>
      have h := Transition.startUnread fault (stack_later_cons shift hstack)
      exact h.later_raise
  | clockPanic text hturn =>
      rw [← unwind_later]
      exact .clockPanic text (by simpa)

-- What it answers to a call.
theorem Transition.later_call {call : Call μ ρ} (h : Transition queue (.call call) next events) :
    Transition (queue.later shift) (.call call) (next.later shift) events := by
  cases h with
  | idle _ hidle => exact .idle _ (mt (awaits_later shift queue (.call call)).mp hidle)
  | busy hturn hcall hbusy => exact .busy (by simpa) hcall (by simpa)
  | dropped hturn hcall hfree hdropped => exact .dropped (by simpa) hcall (by simpa) hdropped
  | noToken hturn hcall hheld => exact .noToken (by simpa) hcall hheld
  | enqueue message hturn hfree halive => exact .enqueue message (by simpa) (by simpa) halive
  | tick hturn hfree halive hscans => exact .tick (by simpa) (by simpa) halive hscans
  | tickUnlimited hturn hfree halive hscans => exact .tickUnlimited (by simpa) (by simpa) halive hscans
  | drain hturn hfree halive htracked =>
      have h : Transition (queue.later shift) _ _ _ :=
        .drain (by simpa) (by simpa) halive (by simpa [Lane.entries_later] using htracked)
      simp only [pending_later, inProgress_later, Lane.entries_later, ← List.map_append, List.length_map] at h
      exact h
  | drainEmpty hturn hfree halive htracked =>
      exact .drainEmpty (by simpa) (by simpa) halive (by simpa [Lane.entries_later] using htracked)
  | setLimits limits hturn hfree halive => exact .setLimits limits (by simpa) (by simpa) halive
  | drop hturn hfree halive =>
      rw [← snd_drop_later shift]
      exact .drop (by simpa) (by simpa) halive
  | @complete token entry outcome reason hturn hheld halive hentry =>
      have hremoved : ((queue.later shift).inProgress.remove token.key).1 = some (entry.later shift) := by
        simp [Lane.remove_later, hentry]
      have h : Transition (queue.later shift) _ _ _ :=
        .complete outcome reason (by simpa) hheld (by simpa) hremoved
      simp only [inProgress_later, Lane.remove_later] at h
      exact h.later_raise
  | @completeLate token outcome reason hturn hheld halive hentry =>
      have hremoved : ((queue.later shift).inProgress.remove token.key).1 = none := by
        simp [Lane.remove_later, hentry]
      have h : Transition (queue.later shift) _ _ _ :=
        .completeLate outcome reason (by simpa) hheld (by simpa) hremoved
      simp only [inProgress_later, Lane.remove_later] at h
      exact h
  | completeOrphan outcome reason hturn hheld halive => exact .completeOrphan outcome reason (by simpa) hheld (by simpa)
  | @dropToken token hturn hheld =>
      rw [← snd_dropToken_later shift]
      exact .dropToken (by simpa) hheld

-- Each rule holds of the shifted state as well, with the shifted reading, and gives the same events.
theorem Transition.later {move : Move μ ρ} (h : Transition queue move next events) :
    Transition (queue.later shift) (move.later shift) (next.later shift) events := by
  cases move with
  | advance => exact h.later_advance shift
  | read reading => exact h.later_read shift
  | call call => exact h.later_call shift
  | finish =>
      cases h with
      | idle _ hidle => exact .idle _ (mt (awaits_later shift queue .finish).mp hidle)
      | finish hstack huser => exact .finish (stack_later_cons shift hstack) (by rwa [Frame.isUser_later])
  | panic text =>
      cases h with
      | idle _ hidle => exact .idle _ (mt (awaits_later shift queue (.panic text)).mp hidle)
      | panic _ hstack huser =>
          rw [← unwind_later]
          exact .panic text (stack_later_cons shift hstack) (by rwa [Frame.isUser_later])

end Transition

theorem step_later (move : Move μ ρ) :
    (queue.later shift).step (move.later shift) = ((queue.step move).1.later shift, (queue.step move).2) :=
  ((queue.transition_step move).later shift).step_eq

-- What is seen of a step: its events, and how many messages are pending and in progress after it.
structure View (μ ρ : Type) where
  events : List (Event μ ρ)
  pending : Nat
  inProgress : Nat

-- A run as it is seen, step by step.
def views (queue : Queue μ ρ) : List (Move μ ρ) → List (View μ ρ)
  | [] => []
  | move :: moves =>
    let (next, events) := queue.step move
    { events, pending := next.pending.size, inProgress := next.inProgress.size } :: next.views moves

theorem views_later (moves : List (Move μ ρ)) :
    (queue.later shift).views (moves.map (Move.later shift)) = queue.views moves := by
  induction moves generalizing queue with
  | nil => rfl
  | cons move moves ih => simp [views, step_later, ih]

end Queue

-- What is done, in one order, to a clock that is set by hand and to the queue that reads it.
inductive Deed (μ ρ : Type) where
  | forward (wait : Duration)
  | back (wait : Duration)
  | failing (failing : Bool)
  | move (move : Move μ ρ)

namespace HandClock

variable (shift : Int) (clock : HandClock)

def later : HandClock :=
  { clock with now := clock.now + shift }

def reading : Reading :=
  match clock.read with
  | .ok now => .time now
  | .error fault => .failed fault

-- Every reading of a move is what the clock says.
def told : Move μ ρ → Move μ ρ
  | .read _ => .read clock.reading
  | move => move

-- The moves of the queue with the readings of the clock, unless the clock leaves its range.
def moves? (clock : HandClock) : List (Deed μ ρ) → Option (List (Move μ ρ))
  | [] => some []
  | .forward wait :: deeds => (clock.forward? wait).bind fun next => next.moves? deeds
  | .back wait :: deeds => if (clock.now.before? wait).isSome then (clock.back wait).moves? deeds else none
  | .failing failing :: deeds => moves? { clock with failing } deeds
  | .move move :: deeds => (clock.moves? deeds).map (clock.told move :: ·)

theorem reading_later : (clock.later shift).reading = clock.reading.later shift := by
  have hfailing : (clock.later shift).failing = clock.failing := rfl
  unfold reading read
  rw [hfailing]
  cases clock.failing <;> rfl

theorem told_later (move : Move μ ρ) : (clock.later shift).told move = (clock.told move).later shift := by
  cases move with
  | read reading => simp [told, Move.later, reading_later]
  | _ => rfl

theorem eq_of_forward {next : HandClock} {wait : Duration} (h : clock.forward? wait = some next) :
    next = { clock with now := clock.now + wait } := by
  unfold forward? Instant.after? at h
  split at h <;> simp_all

theorem back_of_isSome {wait : Duration} (h : (clock.now.before? wait).isSome = true) :
    clock.back wait = { clock with now := clock.now - wait } := by
  unfold back Instant.before? at *
  split at h <;> simp_all

-- Two clocks that are apart by the shift stay so while both are in range.
theorem moves_later {deeds : List (Deed μ ρ)} {moves shifted : List (Move μ ρ)}
    (hmoves : clock.moves? deeds = some moves)
    (hshifted : (clock.later shift).moves? deeds = some shifted) : shifted = moves.map (Move.later shift) := by
  induction deeds generalizing clock moves shifted with
  | nil => simp_all [moves?]
  | cons deed deeds ih =>
      cases deed with
      | forward wait =>
          simp only [moves?, Option.bind_eq_some_iff] at hmoves hshifted
          obtain ⟨next, hnext, hrest⟩ := hmoves
          obtain ⟨ahead, hahead, hothers⟩ := hshifted
          have hlater : ahead = next.later shift := by
            have hnow : clock.now + shift + (wait : Int) = clock.now + wait + shift := Int.add_right_comm _ _ _
            rw [eq_of_forward _ hnext, eq_of_forward _ hahead]
            exact congrArg (HandClock.mk · clock.failing) hnow
          rw [hlater] at hothers
          exact ih next hrest hothers
      | back wait =>
          simp only [moves?, Option.ite_none_right_eq_some] at hmoves hshifted
          have hlater : (clock.later shift).back wait = (clock.back wait).later shift := by
            have hnow : clock.now + shift - (wait : Int) = clock.now - wait + shift := Int.add_right_comm _ _ _
            rw [back_of_isSome _ hmoves.1, back_of_isSome _ hshifted.1]
            exact congrArg (HandClock.mk · clock.failing) hnow
          rw [hlater] at hshifted
          exact ih _ hmoves.2 hshifted.2
      | failing failing => exact ih { clock with failing } hmoves hshifted
      | move move =>
          simp only [moves?, Option.map_eq_some_iff] at hmoves hshifted
          obtain ⟨rest, hrest, rfl⟩ := hmoves
          obtain ⟨others, hothers, rfl⟩ := hshifted
          rw [ih clock hrest hothers, told_later, List.map_cons]

end HandClock

namespace Queue

-- Only differences of times matter. Whatever is added to all readings, the run looks the same step by
-- step; and a clock set by hand that starts later gives just the readings that are later by as much,
-- as long as it finds all its instants.
theorem views_translates (shift : Int) (settings : Settings) (observed : Bool) :
    (∀ moves : List (Move μ ρ), (make settings observed).views (moves.map (Move.later shift)) =
      (make settings observed).views moves) ∧
    ∀ (clock : HandClock) (deeds : List (Deed μ ρ)) (moves shifted : List (Move μ ρ)),
      clock.moves? deeds = some moves → (clock.later shift).moves? deeds = some shifted →
        (make settings observed).views shifted = (make settings observed).views moves := by
  have hsame : ∀ moves : List (Move μ ρ), (make settings observed).views (moves.map (Move.later shift)) =
      (make settings observed).views moves := views_later shift (make settings observed)
  refine ⟨hsame, fun clock deeds moves shifted hmoves hshifted => ?_⟩
  rw [clock.moves_later shift hmoves hshifted, hsame]

-- The clock goes back between two messages and fails for a third. The second one is overdue first.
def setBack : List (Deed String String) :=
  [.forward 5, .move (.call (.enqueue "a")), .move (.read (.time 0)), .back 2, .move (.call (.enqueue "b")),
    .move (.read (.time 0)), .failing true, .move (.call (.enqueue "c")), .move (.read (.time 0)), .failing false,
    .forward 3, .move (.call .tick), .move (.read (.time 0)), .move .advance, .move .advance, .move .advance]

-- Seven later, the same message is overdue.
theorem views_translates_setBack :
    let settings : Settings := { limits := { wait := some 3 } }
    ∃ moves shifted, ({} : HandClock).moves? setBack = some moves ∧
      (({} : HandClock).later 7).moves? setBack = some shifted ∧
      (make settings true).views shifted = (make settings true).views moves ∧
      ((make settings true).run moves).2.getLast? = some (.notified ⟨⟨1⟩, "b", .timeout, none⟩) := by
  intro settings
  refine ⟨_, _, rfl, rfl, (views_translates 7 settings true).2 {} setBack _ _ rfl rfl, rfl⟩

end Queue

end DeadlineQueue
