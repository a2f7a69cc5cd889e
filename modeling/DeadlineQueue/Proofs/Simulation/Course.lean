import DeadlineQueue.Proofs.Settlement
import DeadlineQueue.Proofs.Simulation.Play

namespace DeadlineQueue

open Simulation

variable {μ ρ : Type}

-- What is noted of an event at a given time.
def Event.noted (now : Instant) : Event μ ρ → List (Happening μ ρ)
  | log record => [.log record]
  | dispatched _ message => [.process now message]
  | notified notice => [.completed now notice]
  | _ => []

namespace Simulation

open Queue

namespace Happening

-- What the processor was handed, with the time.
@[simp] def processed? : Happening μ ρ → Option (Instant × μ)
  | process time message => some (time, message)
  | _ => none

@[simp] def completed? : Happening μ ρ → Option (Notice μ ρ)
  | completed _ notice => some notice
  | _ => none

end Happening

section noted

variable (now : Instant) (events : List (Event μ ρ))

theorem processed_noted :
    (events.flatMap (Event.noted now)).filterMap Happening.processed? =
      (dispatches events).map fun issue => (now, issue.2) := by
  induction events with
  | nil => rfl
  | cons event events ih =>
      rw [List.flatMap_cons, List.filterMap_append, ih]
      cases event <;> rfl

theorem completed_noted :
    (events.flatMap (Event.noted now)).filterMap Happening.completed? = receipts events := by
  induction events with
  | nil => rfl
  | cons event events ih =>
      rw [List.flatMap_cons, List.filterMap_append, ih]
      cases event <;> rfl

end noted

namespace World

def processed (world : World μ ρ) : List (Instant × μ) :=
  world.happened.toList.filterMap Happening.processed?

-- The notices that were delivered, in that order.
def completed (world : World μ ρ) : List (Notice μ ρ) :=
  world.happened.toList.filterMap Happening.completed?

@[simp] theorem processed_note (world : World μ ρ) (happening : Happening μ ρ) :
    (world.note happening).processed = world.processed ++ [happening].filterMap Happening.processed? := by
  simp [note, processed]

@[simp] theorem completed_note (world : World μ ρ) (happening : Happening μ ρ) :
    (world.note happening).completed = world.completed ++ [happening].filterMap Happening.completed? := by
  simp [note, completed]

-- The surroundings note what happens, with the time.
theorem happened_observe (world : World μ ρ) (event : Event μ ρ) :
    (world.observe event).happened.toList = world.happened.toList ++ event.noted world.now := by
  cases event with
  | dispatched token message =>
      unfold observe
      dsimp only
      split <;> simp [note, Event.noted]
  | returned reply => cases reply <;> simp [observe, Event.noted]
  | _ => simp [observe, note, Event.noted]

theorem happened_foldl_observe (world : World μ ρ) (events : List (Event μ ρ)) :
    (events.foldl observe world).happened.toList =
      world.happened.toList ++ events.flatMap (Event.noted world.now) := by
  induction events generalizing world with
  | nil => simp
  | cons event events ih =>
      have hnow : (world.observe event).now = world.now := now_observe world [event]
      rw [List.foldl_cons, ih, happened_observe, hnow, List.append_assoc, List.flatMap_cons]

theorem processed_foldl_observe (world : World μ ρ) (events : List (Event μ ρ)) :
    (events.foldl observe world).processed =
      world.processed ++ (dispatches events).map fun issue => (world.now, issue.2) := by
  rw [processed, happened_foldl_observe, List.filterMap_append, processed_noted]
  rfl

theorem completed_foldl_observe (world : World μ ρ) (events : List (Event μ ρ)) :
    (events.foldl observe world).completed = world.completed ++ receipts events := by
  rw [completed, happened_foldl_observe, List.filterMap_append, completed_noted]
  rfl

end World

-- What a queue and its surroundings go through together: a run without admissions and panics that
-- ends between two calls, and of which the surroundings note what the processor and the notifier get.
structure Course (world : World μ ρ) (queue : Queue μ ρ) (moves : List (Move μ ρ)) (next : World μ ρ)
    (after : Queue μ ρ) : Prop where
  run : (queue.run moves).1 = after
  routine : ∀ move ∈ moves, move.routine = true
  idle : after.stack = []
  processed : ∃ handed, next.processed = world.processed ++ handed ∧
    handed.map Prod.snd = (dispatches (queue.run moves).2).map Prod.snd
  completed : next.completed = world.completed ++ receipts (queue.run moves).2

namespace Course

variable {world next : World μ ρ} {queue after : Queue μ ρ} {moves : List (Move μ ρ)}

theorem ready (h : Course world queue moves next after) (hready : queue.Ready) : after.Ready := by
  obtain rfl := h.run
  exact hready.run h.routine h.idle

theorem refl (world : World μ ρ) (hready : queue.Ready) : Course world queue [] world queue where
  run := rfl
  routine := by simp
  idle := hready.idle
  processed := ⟨[], by simp [run_nil, dispatches]⟩
  completed := by simp [run_nil, receipts]

theorem observed (world : World μ ρ) (hroutine : ∀ move ∈ moves, move.routine = true)
    (hidle : (queue.run moves).1.stack = []) :
    Course world queue moves ((queue.run moves).2.foldl World.observe world) (queue.run moves).1 where
  run := rfl
  routine := hroutine
  idle := hidle
  processed := ⟨_, World.processed_foldl_observe world _, by simp⟩
  completed := World.completed_foldl_observe world _

theorem trans {last : World μ ρ} {final : Queue μ ρ} {later : List (Move μ ρ)}
    (h : Course world queue moves next after) (hlater : Course next after later last final) :
    Course world queue (moves ++ later) last final := by
  obtain rfl := h.run
  obtain ⟨handed, hprocessed, hhanded⟩ := h.processed
  obtain ⟨handed', hprocessed', hhanded'⟩ := hlater.processed
  have hevents := congrArg Prod.snd (run_append queue moves later)
  exact {
    run := by rw [run_append, hlater.run]
    routine := List.forall_mem_append.mpr ⟨h.routine, hlater.routine⟩
    idle := hlater.idle
    processed := by
      refine ⟨handed ++ handed', by rw [hprocessed', hprocessed, List.append_assoc], ?_⟩
      rw [hevents, dispatches_append, List.map_append, List.map_append, hhanded, hhanded']
    completed := by
      rw [hlater.completed, h.completed, hevents, receipts, receipts, receipts, List.filterMap_append,
        List.append_assoc] }

-- The clock and the reports to come may change, and other things may be noted.
theorem aside {world' next' : World μ ρ} (h : Course world queue moves next after)
    (hbefore : world'.processed = world.processed ∧ world'.completed = world.completed)
    (hafter : next'.processed = next.processed ∧ next'.completed = next.completed) :
    Course world' queue moves next' after where
  run := h.run
  routine := h.routine
  idle := h.idle
  processed := by
    rw [hbefore.1, hafter.1]
    exact h.processed
  completed := by rw [hbefore.2, hafter.2, h.completed]

-- The processor was handed nothing if nothing was dispatched.
theorem processed_eq (h : Course world queue moves next after) (hnone : dispatches (queue.run moves).2 = []) :
    next.processed = world.processed := by
  obtain ⟨handed, hprocessed, hhanded⟩ := h.processed
  rw [hnone, List.map_nil, List.map_eq_nil_iff] at hhanded
  rw [hprocessed, hhanded, List.append_nil]

-- What is logged beside the queue does not count.
theorem logged (h : Course world queue moves next after) (record : Record) :
    Course world queue moves (next.note (.log record)) after :=
  h.aside ⟨rfl, rfl⟩ (by simp)

theorem of_logged {record : Record} (h : Course (world.note (.log record)) queue moves next after) :
    Course world queue moves next after :=
  h.aside (by simp) ⟨rfl, rfl⟩

end Course

namespace World

variable {queue : Queue μ ρ} (hready : queue.Ready) (world : World μ ρ)
include hready

-- Every call of the owner is a course.
theorem call_course (call : Call μ ρ) (hroutine : (.call call : Move μ ρ).routine = true) :
    ∃ moves, (∀ move ∈ moves, move.routineAt world.now ∧ move.takesQueue = false) ∧
      (queue.step (.call call)).1.spans 0 moves = true ∧
      (world.call queue call).1.processed =
        world.processed ++ (dispatches (queue.run (.call call :: moves)).2).map (fun issue => (world.now, issue.2)) ∧
      Course world queue (.call call :: moves) (world.call queue call).1 (world.call queue call).2 := by
  obtain ⟨admitted, past, hs⟩ := hready.reachable.sound
  obtain ⟨moves, hmoves, hspans, hcall⟩ := call_eq_run hs hready.idle world call
  have hlength := length_of_spans hspans
  have hidle : (queue.run (.call call :: moves)).1.stack = [] := List.length_eq_zero_iff.mp (Nat.le_zero.mp hlength)
  have hall : ∀ move ∈ .call call :: moves, move.routine = true :=
    List.forall_mem_cons.mpr ⟨hroutine, fun move hmove => (hmoves move hmove).1.1⟩
  rw [hcall]
  exact ⟨moves, hmoves, hspans, processed_foldl_observe world _, .observed world hall hidle⟩

theorem report_course (report : Report μ ρ) :
    ∃ moves, (∀ move ∈ moves, move.takesQueue = false) ∧
      Course world queue moves (world.report queue report).1 (world.report queue report).2 := by
  obtain ⟨moves, hmoves, -, -, hcourse⟩ :=
    call_course hready { world with now := report.due } (.complete report.token report.outcome report.reason) rfl
  refine ⟨.call (.complete report.token report.outcome report.reason) :: moves, ?_, ?_⟩
  · exact List.forall_mem_cons.mpr ⟨rfl, fun move hmove => (hmoves move hmove).2⟩
  · exact hcourse.aside ⟨rfl, rfl⟩ (by simp [World.report])

theorem reports_course (reports : List (Report μ ρ)) :
    ∃ moves, (∀ move ∈ moves, move.takesQueue = false) ∧
      Course world queue moves
        (reports.foldl (fun (world, queue) report => world.report queue report) (world, queue)).1
        (reports.foldl (fun (world, queue) report => world.report queue report) (world, queue)).2 := by
  induction reports generalizing world queue with
  | nil => exact ⟨[], by simp, .refl world hready⟩
  | cons report reports ih =>
      obtain ⟨moves, hmoves, hcourse⟩ := report_course hready world report
      obtain ⟨later, hlater, hrest⟩ := ih (hcourse.ready hready) (world.report queue report).1
      exact ⟨moves ++ later, List.forall_mem_append.mpr ⟨hmoves, hlater⟩, hcourse.trans hrest⟩

-- While time passes no call takes the queue.
theorem passTo_course (time : Instant) :
    ∃ moves, (∀ move ∈ moves, move.takesQueue = false) ∧
      Course world queue moves (world.passTo queue time).1 (world.passTo queue time).2 := by
  obtain ⟨moves, hmoves, hcourse⟩ := reports_course hready
    { world with reports := world.reports.dropWhile fun report => report.due ≤ time }
    (world.reports.takeWhile fun report => report.due ≤ time)
  exact ⟨moves, hmoves, hcourse.aside ⟨rfl, rfl⟩ ⟨rfl, rfl⟩⟩

-- A tick hands over all that waits but what its sweep finds overdue, and then nothing waits.
theorem tick_course :
    ∃ during, (queue.step (.call .tick)).1.spans 0 during = true ∧
      Course world queue (.call .tick :: during) (world.call queue .tick).1 (world.call queue .tick).2 ∧
      (dispatches (queue.run (.call .tick :: during)).2).map labelOf =
        (queue.pending.entries.filter fun entry => !queue.limits.waitDeadline.any fun deadline =>
          deadline ≤ elapsed entry.enqueuedAt world.now).map Entry.labelled ∧
      (world.call queue .tick).1.processed =
        world.processed ++ (dispatches (queue.run (.call .tick :: during)).2).map (fun issue => (world.now, issue.2)) ∧
      (world.call queue .tick).2.pending.entries = [] := by
  obtain ⟨admitted, past, hs⟩ := hready.reachable.sound
  obtain ⟨during, hduring, hspans, hprocessed, hcourse⟩ := world.call_course hready .tick rfl
  have hdepth : (queue.step (.call .tick)).1.spans queue.stack.length during = true := by rwa [hready.idle]
  obtain ⟨hdispatched, hpending⟩ := hs.tick_dispatches hready.turn hready.free hready.kept hdepth
    fun move hmove => (hduring move hmove).1
  obtain ⟨frame, -, -, -, hstep⟩ := step_tick queue hready.turn hready.free hready.kept
  have hevents : (queue.run (.call .tick :: during)).2 = ((queue.step (.call .tick)).1.run during).2 := by
    rw [run_cons, hstep]
    rfl
  rw [← hevents] at hdispatched
  refine ⟨during, hspans, hcourse, hdispatched, hprocessed, ?_⟩
  rw [← hcourse.run]
  exact hpending

end World

end Simulation

end DeadlineQueue
