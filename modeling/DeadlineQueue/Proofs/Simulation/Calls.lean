import DeadlineQueue.Proofs.Simulation.Loops

namespace DeadlineQueue

variable {μ ρ : Type}

open Simulation

namespace Queue

-- A queue whose token has been used for a report.
def spent (queue : Queue μ ρ) (token : Token) : Queue μ ρ :=
  { queue with held := queue.held.erase token, inProgress := (queue.inProgress.remove token.key).2 }

-- What is told when a token is used.
def answer? (queue : Queue μ ρ) (token : Token) (outcome : Outcome) (reason : Option ρ) : List (Event μ ρ) :=
  match (queue.inProgress.remove token.key).1 with
  | some entry => .log (.completed entry.id outcome) :: entry.acceptance outcome reason
  | none => token.id.refusal outcome

theorem Ready.held_lt {queue : Queue μ ρ} (h : queue.Ready) : ∀ token ∈ queue.held, token.key < queue.nextKey := by
  obtain ⟨admitted, past, hs⟩ := h.reachable.sound
  intro token htoken
  obtain ⟨message, hissue⟩ := hs.exists_issue_of_held htoken
  exact hs.traced.fresh _ hissue

-- The messages that a tick hands over, as the slots that they fill.
def handed (queue : Queue μ ρ) (now : Instant) : List (Slot μ) :=
  startedAt now queue.nextKey (queue.pending.entries.filter fun entry => !lapses queue.limits.scans now .pending entry)

end Queue

namespace Simulation

open Queue

-- A call of the owner that returns: all that happens in it, and the queue after it.
structure Runs (world : World μ ρ) (queue : Queue μ ρ) (call : Call μ ρ) (events : List (Event μ ρ))
    (after : Queue μ ρ) : Prop where
  eq : world.call queue call = (events.foldl World.observe world, after)
  run : ∃ moves, (∀ move ∈ moves, move.routineAt world.now ∧ move.takesQueue = false) ∧
    queue.run (.call call :: moves) = (after, events)
  idle : after.stack = []

-- What one tick does. Overdue messages are timed out, and what waits is handed over.
structure Ticked (world : World μ ρ) (queue : Queue μ ρ) (events : List (Event μ ρ)) (after : Queue μ ρ) : Prop where
  served : after.Served
  kept : after.dropped = queue.dropped
  limits : after.limits = queue.limits
  pending : after.pending.entries = []
  inProgress : after.inProgress.slots =
    (queue.inProgress.slots.filter fun slot => !lapses queue.limits.scans world.now .inProgress slot.entry) ++
      world.parked (queue.handed world.now)
  nextKey : after.nextKey = queue.nextKey + (queue.handed world.now).length
  held : after.held = queue.held ++ world.retained (queue.handed world.now)
  dispatched : dispatches events = (queue.handed world.now).map Slot.issue
  timedOut : ∀ name, ∀ entry ∈ (queue.lane name).entries, lapses queue.limits.scans world.now name entry = true →
    .notified (entry.notice .timeout none) ∈ events
  accepted : ∀ slot ∈ queue.handed world.now, ∀ outcome reason,
    world.behaviour slot.entry.message = .reportNow outcome reason → slot.entry.acceptance outcome reason <:+: events

section calls

variable {queue : Queue μ ρ} (hready : queue.Ready) (world : World μ ρ)
include hready

theorem runs_of_evolves {call : Call μ ρ} {next after : Queue μ ρ} {events later : List (Event μ ρ)}
    (hcall : Transition queue (.call call) next events) (h : Evolves world next later after)
    (hidle : after.stack = []) : Runs world queue call (events ++ later) after := by
  obtain ⟨admitted, past, hs⟩ := hready.reachable.sound
  have hnext := hs.step (.call call)
  rw [hcall.step_eq] at hnext
  obtain ⟨moves, hmoves, hrun⟩ := h.run hnext
  refine ⟨?_, ⟨moves, hmoves, ?_⟩, hidle⟩
  · have hplay := h.play hidle hnext (hcall.effort_call hs.ordered hready.idle) events
    rw [← hplay]
    simp only [World.call, Host.apply, hcall.step_eq]
    rfl
  · rw [run_cons, hcall.step_eq, hrun]

-- A report delivers what it says if its message is still in progress, and changes nothing else.
theorem runs_complete (hserved : queue.Served) {token : Token} (hheld : token ∈ queue.held) (outcome : Outcome)
    (reason : Option ρ) :
    Runs world queue (.complete token outcome reason) (queue.answer? token outcome reason) (queue.spent token) := by
  have halive : queue.alive = true := by simp [alive, hready.kept]
  unfold answer?
  cases hentry : (queue.inProgress.remove token.key).1 with
  | none =>
      have hcall : Transition queue (.call (.complete token outcome reason)) (queue.spent token)
          (token.id.refusal outcome) := .completeLate outcome reason hready.turn hheld halive hentry
      have hruns := runs_of_evolves hready world hcall (.refl _) hready.idle
      rwa [List.append_nil] at hruns
  | some entry =>
      have hcall : Transition queue (.call (.complete token outcome reason)) _ _ :=
        .complete outcome reason hready.turn hheld halive hentry
      have hspent : (queue.spent token).Served := ⟨hserved.observed, hserved.delivering, hserved.outbox⟩
      exact runs_of_evolves hready world hcall (hspent.evolves_completing world _) hready.idle

-- A drain cancels all that is tracked.
theorem runs_drain (hserved : queue.Served) :
    ∃ events, Runs world queue .drain events { queue with inProgress := {}, pending := {} } ∧ dispatches events = [] ∧
      ∀ entry ∈ queue.tracked, .notified (entry.notice .cancelled none) ∈ events := by
  by_cases htracked : queue.inProgress.entries ++ queue.pending.entries = []
  · have hcall : Transition queue (.call .drain) { queue with inProgress := {}, pending := {} } [.returned .done] :=
      .drainEmpty hready.turn hready.free hready.kept htracked
    have hruns := runs_of_evolves hready world hcall (.refl _) hready.idle
    refine ⟨_, hruns, rfl, ?_⟩
    intro entry hentry
    rw [tracked, List.mem_append, Or.comm, ← List.mem_append, htracked] at hentry
    exact absurd hentry List.not_mem_nil
  · let batch := queue.inProgress.entries ++ queue.pending.entries
    let draining : Queue μ ρ := { queue with
      inProgress := {}, pending := {}, stack := .draining batch batch.length :: queue.stack }
    have hcall : Transition queue (.call .drain) draining [] :=
      .drain hready.turn hready.free hready.kept htracked
    have hserved : draining.Served := ⟨hserved.observed, hserved.delivering, hserved.outbox⟩
    have hruns := runs_of_evolves hready world hcall (hserved.evolves_draining world rfl) hready.idle
    rw [List.nil_append] at hruns
    refine ⟨_, hruns, ?_, ?_⟩
    · have hcancelled : dispatches (batch.flatMap fun entry => entry.cancellation (ρ := ρ)) = [] := by
        rw [dispatches, List.filterMap_flatMap]
        simp [Entry.cancellation]
      rw [dispatches_append, hcancelled]
      rfl
    · intro entry hentry
      have hbatch : entry ∈ batch := by
        rw [tracked, List.mem_append, Or.comm, ← List.mem_append] at hentry
        exact hentry
      have htold : .notified (entry.notice .cancelled none) ∈ entry.cancellation (ρ := ρ) := by
        simp [Entry.cancellation]
      exact List.mem_append_left _ (List.mem_flatMap.mpr ⟨entry, hbatch, htold⟩)

-- The sweep at the beginning of a tick, up to its dispatch.
theorem exists_swept (hserved : queue.Served) :
    ∃ first events swept, Transition queue (.call .tick) first [] ∧ Evolves world first events swept ∧
      dispatches events = [] ∧ swept.Ordered ∧
      swept = { queue with
        pending := swept.pending, inProgress := swept.inProgress, stack := .gathering :: queue.stack } ∧
      (∀ name, (swept.lane name).slots =
        (queue.lane name).slots.filter fun slot => !lapses queue.limits.scans world.now name slot.entry) ∧
      ∀ name, ∀ entry ∈ (queue.lane name).entries, lapses queue.limits.scans world.now name entry = true →
        .notified (entry.notice .timeout none) ∈ events := by
  obtain ⟨admitted, past, hs⟩ := hready.reachable.sound
  by_cases hscans : queue.limits.scans = []
  · let gathering : Queue μ ρ := { queue with stack := .gathering :: queue.stack }
    have hcall : Transition queue (.call .tick) gathering [] :=
      .tickUnlimited hready.turn hready.free hready.kept hscans
    have hordered := hcall.change.ordered hs.ordered
    refine ⟨gathering, [], gathering, hcall, .refl _, rfl, hordered, rfl, ?_, ?_⟩
    · intro name
      cases name <;> simp [gathering, hscans, lapses]
    · intro name entry _ hlapses
      rw [hscans] at hlapses
      exact absurd hlapses Bool.false_ne_true
  · let sweeping : Queue μ ρ := { queue with stack := .sweeping queue.limits.scans :: queue.stack }
    let scanning : Queue μ ρ := { queue with stack := .scanning world.now queue.limits.scans :: queue.stack }
    have hcall : Transition queue (.call .tick) sweeping [] := .tick hready.turn hready.free hready.kept hscans
    have hread : Transition sweeping (.read (.time world.now)) scanning [] := .sweep world.now rfl
    have hscanning : scanning.Served := ⟨hserved.observed, hserved.delivering, hserved.outbox⟩
    have hordered := hread.change.ordered (hcall.change.ordered hs.ordered)
    obtain ⟨events, swept, hevolves, hnone, hshape, hswept, hslots, htold⟩ :=
      hscanning.evolves_scanning world hordered queue.limits.scans_fair rfl
    refine ⟨sweeping, events, swept, hcall, .silent (world.move_of_clock rfl ⟨rfl, rfl⟩) hread hevolves, hnone, hswept,
      hshape, ?_, ?_⟩
    · intro name
      rw [hslots]
      cases name <;> rfl
    · intro name
      have hlane := htold name
      cases name <;> exact hlane

theorem runs_tick (hserved : queue.Served) :
    ∃ events after, Runs world queue .tick events after ∧ Ticked world queue events after := by
  obtain ⟨first, sweeping, swept, hcall, hsweep, hnone, hordered, hshape, hslots, htold⟩ :=
    exists_swept hready world hserved
  obtain ⟨waiting, running, rfl⟩ : ∃ pending inProgress,
      swept = { queue with pending, inProgress, stack := .gathering :: queue.stack } := ⟨_, _, hshape⟩
  have hserved' : Served { queue with
      pending := waiting, inProgress := running, stack := .gathering :: queue.stack } :=
    ⟨hserved.observed, hserved.delivering, hserved.outbox⟩
  obtain ⟨later, pending, inProgress, hdispatch, hpending, hinProgress, hissues, haccepted⟩ :=
    hserved'.evolves_gathering world hready.kept ⟨hready.held_lt, hordered.inProgressKeys⟩ hordered rfl
  have hwaiting : waiting.entries =
      queue.pending.entries.filter fun entry => !lapses queue.limits.scans world.now .pending entry := by
    have hlane := hslots .pending
    rw [lane_pending, lane_pending] at hlane
    rw [Lane.entries, hlane, Lane.entries, List.filter_map]
    rfl
  have hrunning := hslots .inProgress
  simp only [hwaiting] at hdispatch hinProgress hissues haccepted
  have hruns := runs_of_evolves hready world hcall (hsweep.trans hdispatch) hready.idle
  rw [List.nil_append] at hruns
  refine ⟨_, _, hruns, ?_⟩
  exact {
    served := ⟨hserved.observed, hserved.delivering, hserved.outbox⟩
    kept := rfl
    limits := rfl
    pending := hpending
    inProgress := hinProgress.trans (congrArg (· ++ _) hrunning)
    nextKey := rfl
    held := rfl
    dispatched := by rw [dispatches_append, hnone, hissues]; rfl
    timedOut := fun name entry hentry hlapses => List.mem_append_left _ (htold name entry hentry hlapses)
    accepted := fun slot hslot outcome reason hbehaviour =>
      (haccepted slot hslot outcome reason hbehaviour).trans (List.suffix_append _ later).isInfix }

theorem runs_enqueue (message : μ) :
    ∃ events, Runs world queue (.enqueue message) events { queue.append .pending world.now
        { id := ⟨queue.nextId⟩, message, enqueuedAt := world.now } with nextId := queue.nextId + 1 } ∧
      dispatches events = [] := by
  let enqueuing : Queue μ ρ := { queue with stack := .enqueuing message :: queue.stack }
  have hcall : Transition queue (.call (.enqueue message)) enqueuing [] :=
    .enqueue message hready.turn hready.free hready.kept
  have haccept : Transition enqueuing (.read (.time world.now)) _ _ := .accept world.now rfl
  have hevolves := Evolves.step (world.move_of_clock rfl ⟨rfl, rfl⟩) haccept (.refl _)
  refine ⟨_, runs_of_evolves hready world hcall hevolves hready.idle, ?_⟩
  simp [dispatches]

theorem runs_setLimits (limits : Limits) :
    Runs world queue (.setLimits limits) [.returned .done] { queue with limits } := by
  have hcall : Transition queue (.call (.setLimits limits)) { queue with limits } [.returned .done] :=
    .setLimits limits hready.turn hready.free hready.kept
  have hruns := runs_of_evolves hready world hcall (.refl _) hready.idle
  exact hruns

end calls

end Simulation

end DeadlineQueue
