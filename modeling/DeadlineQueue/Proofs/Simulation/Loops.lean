import DeadlineQueue.Proofs.Simulation.Turns

namespace DeadlineQueue

variable {μ ρ : Type}

open Simulation

namespace Lane

variable (lane : Lane μ) {key : Nat} (hkeys : ∀ slot ∈ lane.slots, slot.key < key) (stamp : Instant) (entry : Entry μ)
include hkeys

-- An entry that goes as soon as it has come leaves no trace among the slots.
theorem remove_push_fst : ((lane.push key stamp entry).remove key).1 = some entry := by
  have hnone : lane.slots.find? (fun slot => slot.key = key) = none := by
    rw [List.find?_eq_none]
    intro slot hslot
    simpa using Nat.ne_of_lt (hkeys slot hslot)
  simp [remove, push, List.find?_append, hnone]

theorem slots_remove_push : ((lane.push key stamp entry).remove key).2.slots = lane.slots := by
  have hkept : lane.slots.filter (fun slot => slot.key ≠ key) = lane.slots := by
    rw [List.filter_eq_self]
    intro slot hslot
    simpa using Nat.ne_of_lt (hkeys slot hslot)
  rw [slots_remove]
  simp only [push, List.filter_append, hkept]
  simp

end Lane

-- What is told of a message that a sweep has taken, and of one that is cancelled.
def Entry.retirement (entry : Entry μ) (name : LaneName) : List (Event μ ρ) :=
  [.raised (.sweep name) (entry.notice .timeout none), .notified (entry.notice .timeout none)]

def Entry.cancellation (entry : Entry μ) : List (Event μ ρ) :=
  [.log (.cancelled entry.id), .raised .drain (entry.notice .cancelled none), .notified (entry.notice .cancelled none)]

-- What is told of a message whose token is accepted, and of one for which it comes too late.
def Entry.acceptance (entry : Entry μ) (outcome : Outcome) (reason : Option ρ) : List (Event μ ρ) :=
  [.raised .token (entry.notice outcome reason), .notified (entry.notice outcome reason), .returned (.delivered true)]

def MessageId.refusal (id : MessageId) (outcome : Outcome) : List (Event μ ρ) :=
  [.log (.completedLate id outcome), .returned (.delivered false)]

namespace Simulation.Behaviour

-- Whether the processor is done with the message when it returns, and whether it still has the token then.
def reports : Behaviour ρ → Bool
  | reportNow _ _ => true
  | _ => false

def retains : Behaviour ρ → Bool
  | keep | reportAfter _ _ _ => true
  | _ => false

end Simulation.Behaviour

namespace Queue

-- Somebody listens, and has been told everything.
structure Served (queue : Queue μ ρ) : Prop where
  observed : queue.observed = true
  delivering : queue.delivering = false
  outbox : queue.outbox = []

section Served

variable {queue : Queue μ ρ} (h : queue.Served) (world : World μ ρ)
include h

-- A notice is delivered at once.
theorem Served.evolves_raise (source : Source) (notice : Notice μ ρ) :
    Evolves world (queue.raise source notice).1 [.notified notice] queue := by
  let raised : Queue μ ρ := { queue with delivering := true, stack := .delivering :: queue.stack }
  let notifying : Queue μ ρ := { raised with stack := .notifying notice :: .delivering :: queue.stack }
  have hqueue : { raised with delivering := false, stack := queue.stack } = queue := by
    simp only [raised, ← h.delivering]
  have hraised : raised.outbox = [] := h.outbox
  have hraise : (queue.raise source notice).1 = { raised with outbox := [notice] } := by
    simp [raise, h.delivering, h.outbox, raised]
  have hnotified :
      { raised with outbox := [], stack := .notifying notice :: .delivering :: queue.stack } = notifying := by
    simp only [notifying, ← hraised]
  have hnotify : Transition { raised with outbox := [notice] } .advance notifying [.notified notice] := by
    rw [← hnotified]
    exact .notify rfl rfl h.observed
  have hfinish : Transition notifying .finish raised [] := .finish rfl rfl
  have hdelivered : Transition raised .advance queue [] := by
    have hstep : Transition raised .advance { raised with delivering := false, stack := queue.stack } [] :=
      .deliveredAll rfl hraised
    rwa [hqueue] at hstep
  rw [hraise]
  exact .telling (world.move_of_queue rfl ⟨rfl, rfl⟩) hnotify
    (.silent (world.move_of_notifying rfl) hfinish
      (.silent (world.move_of_queue rfl ⟨rfl, rfl⟩) hdelivered (.refl queue)))

-- The messages that a scan has taken are timed out one by one.
theorem Served.evolves_retiring {name : LaneName} {batch : List (Entry μ)} {rest : List (Frame μ ρ)}
    (hstack : queue.stack = .retiring name batch :: rest) :
    Evolves world queue (batch.flatMap fun entry => entry.retirement name) { queue with stack := rest } := by
  induction batch generalizing queue with
  | nil => exact .silent (world.move_of_queue hstack ⟨rfl, rfl⟩) (.retiredAll hstack) (.refl _)
  | cons entry batch ih =>
      let less : Queue μ ρ := { queue with stack := .retiring name batch :: rest }
      have hless : less.Served := ⟨h.observed, h.delivering, h.outbox⟩
      have hraise := hless.evolves_raise world (.sweep name) (entry.notice .timeout none)
      exact .telling (world.move_of_queue hstack ⟨rfl, rfl⟩) (.retire hstack) (hraise.trans (ih hless rfl))

-- The messages that a drain has taken are cancelled one by one.
theorem Served.evolves_draining {batch : List (Entry μ)} {total : Nat} {rest : List (Frame μ ρ)}
    (hstack : queue.stack = .draining batch total :: rest) :
    Evolves world queue (batch.flatMap Entry.cancellation ++ [.log (.drained total), .returned .done])
      { queue with stack := rest } := by
  induction batch generalizing queue with
  | nil =>
      have hreturn := Evolves.step (world.move_of_queue hstack ⟨rfl, rfl⟩) (.cancelledAll hstack) (.refl _)
      exact hreturn
  | cons entry batch ih =>
      let less : Queue μ ρ := { queue with stack := .draining batch total :: rest }
      have hless : less.Served := ⟨h.observed, h.delivering, h.outbox⟩
      have hraise := hless.evolves_raise world .drain (entry.notice .cancelled none)
      have hrest := hraise.trans (ih hless rfl)
      have hcancel := Evolves.step (world.move_of_queue hstack ⟨rfl, rfl⟩) (.cancel hstack) hrest
      rw [List.flatMap_cons, List.append_assoc]
      exact hcancel

-- A report that has found its message delivers the notice and returns.
theorem Served.evolves_completing (notice : Notice μ ρ) :
    Evolves world (raise { queue with stack := .completing :: queue.stack } .token notice).1
      [.notified notice, .returned (.delivered true)] queue := by
  let completing : Queue μ ρ := { queue with stack := .completing :: queue.stack }
  have hserved : completing.Served := ⟨h.observed, h.delivering, h.outbox⟩
  have hreturn : Transition completing .advance queue [.returned (.delivered true)] := .completed rfl
  exact (hserved.evolves_raise world .token notice).trans
    (.telling (world.move_of_queue rfl ⟨rfl, rfl⟩) hreturn (.refl queue))

end Served

end Queue

-- What one of the looks of a sweep finds overdue on a lane.
def lapses (scans : List (LaneName × Scan)) (now : Instant) (name : LaneName) (entry : Entry μ) : Bool :=
  scans.any fun look => look.1 = name && look.2.overdue now entry

theorem lapses_cons (look : LaneName × Scan) (scans : List (LaneName × Scan)) (now : Instant) (name : LaneName)
    (entry : Entry μ) :
    lapses (look :: scans) now name entry =
      (look.1 = name && look.2.overdue now entry || lapses scans now name entry) :=
  List.any_cons

namespace Queue

-- One look of a sweep takes what it finds overdue, and times it out.
theorem Served.evolves_scan {queue : Queue μ ρ} (h : queue.Served) (world : World μ ρ) (hordered : queue.Ordered)
    {now : Instant} {name : LaneName} {scan : Scan} (hfair : scan.Fair name) {scans : List (LaneName × Scan)}
    {rest : List (Frame μ ρ)} (hstack : queue.stack = .scanning now ((name, scan) :: scans) :: rest) :
    ∃ events scanned, Evolves world queue events scanned ∧ dispatches events = [] ∧ scanned.Served ∧ scanned.Ordered ∧
      scanned = { queue with
        pending := scanned.pending, inProgress := scanned.inProgress, stack := .scanning now scans :: rest } ∧
      (∀ other, (scanned.lane other).slots =
        (queue.lane other).slots.filter fun slot => !(name = other && scan.overdue now slot.entry)) ∧
      ∀ entry ∈ (queue.lane name).entries, scan.overdue now entry = true →
        .notified (entry.notice .timeout none) ∈ events := by
  let taken := (queue.lane name).takeOverdue scan now
  let scanned : Queue μ ρ := { queue.setLane name taken.2 with stack := .scanning now scans :: rest }
  let raising : Queue μ ρ :=
    { queue.setLane name taken.2 with stack := .retiring name taken.1 :: .scanning now scans :: rest }
  have hserved : scanned.Served :=
    ⟨by simp [scanned, h.observed], by simp [scanned, h.delivering], by simp [scanned, h.outbox]⟩
  have hraising : raising.Served := ⟨hserved.observed, hserved.delivering, hserved.outbox⟩
  have hscanning : Transition queue .advance raising _ := .scan hstack
  have hsound := hscanning.change.ordered hordered
  have htaken : taken = ((queue.lane name).entries.filter (scan.overdue now),
      Lane.settle { queue.lane name with
        slots := (queue.lane name).slots.filter fun slot => !scan.overdue now slot.entry }) :=
    (hordered.lane name).takeOverdue scan now hfair.origin_of_hasty
  have hevolves := Evolves.step (world.move_of_queue hstack ⟨rfl, rfl⟩) hscanning
    (hraising.evolves_retiring world rfl)
  refine ⟨_, scanned, hevolves, ?_, hserved,
    ⟨hsound.pending, hsound.inProgress, hsound.pendingKeys, hsound.inProgressKeys⟩, by cases name <;> rfl, ?_, ?_⟩
  · have hlogged : dispatches (taken.1.map fun entry => (.log (.timedOut entry.id name) : Event μ ρ)) = [] := by
      simp [dispatches]
    have hretired : dispatches (taken.1.flatMap fun entry => entry.retirement (ρ := ρ) name) = [] := by
      rw [dispatches, List.filterMap_flatMap]
      simp [Entry.retirement]
    rw [dispatches_append, hretired, List.append_nil]
    exact hlogged
  · intro other
    cases name <;> cases other <;> simp [scanned, htaken, Lane.slots_settle]
  · intro entry hentry hoverdue
    have hmem : entry ∈ taken.1 := by
      rw [htaken]
      exact List.mem_filter.mpr ⟨hentry, hoverdue⟩
    exact List.mem_append_right _ (List.mem_flatMap.mpr ⟨entry, hmem, by simp [Entry.retirement]⟩)

-- A sweep takes what its looks find overdue.
theorem Served.evolves_scanning {queue : Queue μ ρ} (h : queue.Served) (world : World μ ρ) (hordered : queue.Ordered)
    {now : Instant} {scans : List (LaneName × Scan)} {rest : List (Frame μ ρ)}
    (hfair : ∀ look ∈ scans, look.2.Fair look.1) (hstack : queue.stack = .scanning now scans :: rest) :
    ∃ events swept, Evolves world queue events swept ∧ dispatches events = [] ∧
      swept = { queue with pending := swept.pending, inProgress := swept.inProgress, stack := .gathering :: rest } ∧
      swept.Ordered ∧
      (∀ name, (swept.lane name).slots =
        (queue.lane name).slots.filter fun slot => !lapses scans now name slot.entry) ∧
      ∀ name, ∀ entry ∈ (queue.lane name).entries, lapses scans now name entry = true →
        .notified (entry.notice .timeout none) ∈ events := by
  induction scans generalizing queue with
  | nil =>
      refine ⟨[], { queue with stack := .gathering :: rest }, ?_, rfl, rfl, ?_, ?_, ?_⟩
      · exact .silent (world.move_of_queue hstack ⟨rfl, rfl⟩) (.scannedAll hstack) (.refl _)
      · exact ⟨hordered.pending, hordered.inProgress, hordered.pendingKeys, hordered.inProgressKeys⟩
      · intro name
        cases name <;> simp [lapses]
      · intro name entry _ hlapses
        exact absurd hlapses Bool.false_ne_true
  | cons look scans ih =>
      obtain ⟨name, scan⟩ := look
      obtain ⟨hscan, hscans⟩ := List.forall_mem_cons.mp hfair
      obtain ⟨first, scanned, hfirst, hquiet, hserved, hsound, hscanned, hlane, hfound⟩ :=
        h.evolves_scan world hordered hscan hstack
      obtain ⟨later, swept, hrest, hnone, hshape, hlast, hslots, htold⟩ :=
        ih hserved hsound hscans (by rw [hscanned])
      refine ⟨first ++ later, swept, hfirst.trans hrest, ?_, ?_, hlast, ?_, ?_⟩
      · rw [dispatches_append, hquiet, hnone]
        rfl
      · rw [hshape, hscanned]
      · intro other
        rw [hslots, hlane, List.filter_filter]
        refine List.filter_congr fun slot _ => ?_
        rw [lapses_cons, Bool.not_or, Bool.and_comm]
      · intro other entry hentry hlapses
        obtain ⟨slot, hslot, rfl⟩ := List.mem_map.mp hentry
        cases hlook : name = other && scan.overdue now slot.entry with
        | true =>
            obtain ⟨hname, hoverdue⟩ := Bool.and_eq_true_iff.mp hlook
            obtain rfl := of_decide_eq_true hname
            exact List.mem_append_left _ (hfound slot.entry hentry hoverdue)
        | false =>
            have hleft : slot ∈ (scanned.lane other).slots := by
              rw [hlane, List.mem_filter]
              exact ⟨hslot, by rw [hlook]; rfl⟩
            rw [lapses_cons, hlook, Bool.false_or] at hlapses
            exact List.mem_append_right _ (htold other slot.entry (List.mem_map_of_mem hleft) hlapses)

end Queue

-- The slots that a dispatch fills at a given time, under the keys from the given one on.
def startedAt (now : Instant) : Nat → List (Entry μ) → List (Slot μ)
  | _, [] => []
  | key, entry :: entries => { key, entry := { entry with startedAt := some now } } :: startedAt now (key + 1) entries

namespace Simulation.World

variable (world : World μ ρ)

-- Of the slots that are filled, those whose message is still in progress after the processor has returned.
def parked (slots : List (Slot μ)) : List (Slot μ) :=
  slots.filter fun slot => !(world.behaviour slot.entry.message).reports

-- The tokens that are still out then.
def retained (slots : List (Slot μ)) : List Token :=
  (slots.filter fun slot => (world.behaviour slot.entry.message).retains).map fun slot => slot.issue.1

@[simp] theorem parked_nil : world.parked [] = [] := rfl

@[simp] theorem retained_nil : world.retained [] = [] := rfl

theorem mem_parked {slots : List (Slot μ)} {slot : Slot μ} :
    slot ∈ world.parked slots ↔ slot ∈ slots ∧ (world.behaviour slot.entry.message).reports = false := by
  simp [parked]

theorem mem_retained {slots : List (Slot μ)} {token : Token} :
    token ∈ world.retained slots ↔
      ∃ slot ∈ slots, (world.behaviour slot.entry.message).retains = true ∧ slot.issue.1 = token := by
  simp [retained, and_assoc]

theorem parked_singleton (slot : Slot μ) :
    world.parked [slot] = if (world.behaviour slot.entry.message).reports then [] else [slot] := by
  cases hreports : (world.behaviour slot.entry.message).reports <;> simp [parked, hreports]

theorem retained_singleton (slot : Slot μ) :
    world.retained [slot] = if (world.behaviour slot.entry.message).retains then [slot.issue.1] else [] := by
  cases hretains : (world.behaviour slot.entry.message).retains <;> simp [retained, hretains]

theorem parked_cons (slot : Slot μ) (slots : List (Slot μ)) :
    world.parked (slot :: slots) = world.parked [slot] ++ world.parked slots := by
  rw [parked, ← List.singleton_append, List.filter_append]
  rfl

theorem retained_cons (slot : Slot μ) (slots : List (Slot μ)) :
    world.retained (slot :: slots) = world.retained [slot] ++ world.retained slots := by
  rw [retained, ← List.singleton_append, List.filter_append, List.map_append]
  rfl

end Simulation.World

namespace Queue

-- The next key is above all that are in use.
structure Fresh (queue : Queue μ ρ) : Prop where
  held : ∀ token ∈ queue.held, token.key < queue.nextKey
  inProgress : ∀ slot ∈ queue.inProgress.slots, slot.key < queue.nextKey

-- The key of a slot that is filled is used up.
theorem Fresh.filled {queue next : Queue μ ρ} (h : queue.Fresh) (world : World μ ρ) {slot : Slot μ}
    (hslot : slot.key = queue.nextKey) (hkey : next.nextKey = queue.nextKey + 1)
    (hheld : next.held = queue.held ++ world.retained [slot])
    (hslots : next.inProgress.slots = queue.inProgress.slots ++ world.parked [slot]) : next.Fresh where
  held := by
    rw [hheld, hkey]
    intro token htoken
    rcases List.mem_append.mp htoken with htoken | htoken
    · exact Nat.lt_succ_of_lt (h.held token htoken)
    · obtain ⟨other, hother, -, rfl⟩ := world.mem_retained.mp htoken
      obtain rfl := List.mem_singleton.mp hother
      exact hslot.trans_lt (Nat.lt_succ_self _)
  inProgress := by
    rw [hslots, hkey]
    intro other hother
    rw [List.mem_append, world.mem_parked, List.mem_singleton] at hother
    rcases hother with hother | ⟨rfl, -⟩
    · exact Nat.lt_succ_of_lt (h.inProgress other hother)
    · exact hslot.trans_lt (Nat.lt_succ_self _)

-- What the processor does with the token that it has been given.
section processing

variable {queue : Queue μ ρ} (world : World μ ρ) {token : Token} {message : μ} {rest : List (Frame μ ρ)}
  (hstack : queue.stack = .processing token message :: rest)
include hstack

theorem turn_of_processing : queue.turn = .user := (turn_eq_user_iff queue).mpr (by simp [hstack, Frame.isUser])

theorem evolves_processed (hheld : token ∉ queue.held) : Evolves world queue [] { queue with stack := rest } :=
  .silent (world.move_of_processed hstack hheld) (.finish hstack rfl) (.refl _)

variable (hheld : token ∈ queue.held)
include hheld

theorem evolves_keeping (hretains : (world.behaviour message).retains = true) :
    Evolves world queue [] { queue with stack := rest } := by
  have hmove := world.move_of_processing hstack hheld
  have hfinish : Transition queue .finish { queue with stack := rest } [] := .finish hstack rfl
  cases hbehaviour : world.behaviour message with
  | keep | reportAfter =>
      simp only [hbehaviour] at hmove
      exact .silent hmove hfinish (.refl _)
  | drop | reportNow => simp [hbehaviour, Behaviour.retains] at hretains

variable (honce : token ∉ queue.held.erase token)
include honce

theorem evolves_dropping (hbehaviour : world.behaviour message = .drop) :
    Evolves world queue (queue.dropToken token).2 { queue with held := queue.held.erase token, stack := rest } := by
  have hmove := world.move_of_processing hstack hheld
  simp only [hbehaviour] at hmove
  let dropped : Queue μ ρ := { queue with held := queue.held.erase token }
  have hdrop : Transition queue (.call (.dropToken token)) dropped (queue.dropToken token).2 :=
    .dropToken (turn_of_processing hstack) hheld
  have hdropped : dropped.stack = .processing token message :: rest := hstack
  have hevolves := Evolves.step hmove hdrop (evolves_processed world hdropped honce)
  rwa [List.append_nil] at hevolves

theorem Served.evolves_reporting (h : queue.Served) {outcome : Outcome} {reason : Option ρ}
    (hbehaviour : world.behaviour message = .reportNow outcome reason) (halive : queue.alive = true) {entry : Entry μ}
    (hentry : (queue.inProgress.remove token.key).1 = some entry) :
    Evolves world queue (.log (.completed entry.id outcome) :: entry.acceptance outcome reason)
      { queue with
        held := queue.held.erase token, inProgress := (queue.inProgress.remove token.key).2, stack := rest } := by
  have hmove := world.move_of_processing hstack hheld
  simp only [hbehaviour] at hmove
  let reported : Queue μ ρ := { queue with
    held := queue.held.erase token, inProgress := (queue.inProgress.remove token.key).2 }
  have hcomplete : Transition queue (.call (.complete token outcome reason)) _ _ :=
    .complete outcome reason (turn_of_processing hstack) hheld halive hentry
  have hserved : reported.Served := ⟨h.observed, h.delivering, h.outbox⟩
  have hreported : reported.stack = .processing token message :: rest := hstack
  have hreturned := (hserved.evolves_completing world (entry.notice outcome reason)).trans
    (evolves_processed world hreported honce)
  have hevolves := Evolves.step hmove hcomplete hreturned
  rwa [List.append_nil] at hevolves

end processing

section dispatching

variable {queue : Queue μ ρ} (h : queue.Served) (world : World μ ρ) (hkept : queue.dropped = false)
  (hfresh : queue.Fresh)
include h hkept hfresh

-- The processor gets a message and does with its token what the behaviour of the message says.
theorem Served.evolves_starting {bound : Nat} {entry : Entry μ} {rest : List (Frame μ ρ)}
    (hstack : queue.stack = .starting bound entry :: rest) :
    let slot : Slot μ := { key := queue.nextKey, entry := { entry with startedAt := some world.now } }
    ∃ events inProgress,
      Evolves world queue events { queue with
        inProgress, nextKey := queue.nextKey + 1
        held := queue.held ++ world.retained [slot]
        stack := .dispatching bound :: rest } ∧
      inProgress.slots = queue.inProgress.slots ++ world.parked [slot] ∧
      dispatches events = [slot.issue] ∧
      ∀ outcome reason, world.behaviour entry.message = .reportNow outcome reason →
        entry.acceptance outcome reason <:+: events := by
  intro slot
  rw [world.parked_singleton, world.retained_singleton]
  let token : Token := { key := queue.nextKey, id := entry.id }
  let handed : List (Event μ ρ) := queue.logBackwards .inProgress world.now ++
    [.log (.dispatching entry.id), .dispatched token entry.message]
  let processing : Queue μ ρ := { queue.append .inProgress world.now slot.entry with
    held := queue.held ++ [token]
    stack := .processing token entry.message :: .dispatching bound :: rest }
  have hstart : Transition queue (.read (.time world.now)) processing handed := .start world.now hstack
  have hclock := world.move_of_clock hstack ⟨rfl, rfl⟩
  have hhanded : dispatches handed = [slot.issue] := by
    simp [handed, dispatches, List.filterMap_cons, slot, token, Slot.issue]
  have hslots : processing.inProgress.slots = queue.inProgress.slots ++ [slot] := rfl
  have htoken : token ∉ queue.held := fun hmem => Nat.lt_irrefl _ (hfresh.held token hmem)
  have herase : processing.held.erase token = queue.held := by
    simp [processing, List.erase_append, htoken]
  have hprocessing : processing.stack = .processing token entry.message :: .dispatching bound :: rest := rfl
  have hheld : token ∈ processing.held := List.mem_append_right _ (List.mem_singleton_self token)
  have honce : token ∉ processing.held.erase token := herase ▸ htoken
  cases hbehaviour : world.behaviour entry.message with
  | keep | reportAfter =>
      have hkeeping := evolves_keeping world hprocessing hheld (by rw [hbehaviour]; rfl)
      exact ⟨handed ++ [], processing.inProgress, .step hclock hstart hkeeping, hslots, by simpa using hhanded, by simp⟩
  | drop =>
      have hdropping := evolves_dropping world hprocessing hheld honce hbehaviour
      rw [herase] at hdropping
      refine ⟨handed ++ (processing.dropToken token).2, processing.inProgress, ?_, hslots, ?_, by simp⟩
      · simp only [Behaviour.retains, Bool.false_eq_true, if_false, List.append_nil]
        exact .step hclock hstart hdropping
      · rw [dispatches_append, hhanded, dispatches, filterMap_dropToken]
        rfl
  | reportNow outcome reason =>
      have hprocessed : processing.Served := ⟨h.observed, h.delivering, h.outbox⟩
      have halive : processing.alive = true := by simp [alive, processing, append, hkept]
      have hentry : (processing.inProgress.remove token.key).1 = some slot.entry :=
        Lane.remove_push_fst _ hfresh.inProgress _ _
      have hremoved : (processing.inProgress.remove token.key).2.slots = queue.inProgress.slots :=
        Lane.slots_remove_push _ hfresh.inProgress _ _
      have hreporting := hprocessed.evolves_reporting world hprocessing hheld honce hbehaviour halive hentry
      rw [herase] at hreporting
      refine ⟨handed ++ .log (.completed entry.id outcome) :: entry.acceptance outcome reason,
        (processing.inProgress.remove token.key).2, ?_, ?_, ?_, ?_⟩
      · simp only [Behaviour.retains, Bool.false_eq_true, if_false, List.append_nil]
        exact .step hclock hstart hreporting
      · simpa [Behaviour.reports] using hremoved
      · rw [dispatches_append, hhanded]
        rfl
      · rintro outcome reason ⟨⟩
        exact ⟨handed ++ [.log (.completed entry.id outcome)], [], by simp⟩

-- A dispatch hands over what waits, one message after the other.
theorem Served.evolves_dispatching {bound : Nat} {rest : List (Frame μ ρ)}
    (hbound : ∀ slot ∈ queue.pending.slots, slot.key ≤ bound) (hstack : queue.stack = .dispatching bound :: rest) :
    let started := startedAt world.now queue.nextKey queue.pending.entries
    ∃ events pending inProgress,
      Evolves world queue events { queue with
        pending, inProgress, nextKey := queue.nextKey + started.length
        held := queue.held ++ world.retained started
        stack := rest } ∧
      pending.entries = [] ∧ inProgress.slots = queue.inProgress.slots ++ world.parked started ∧
      dispatches events = started.map Slot.issue ∧
      ∀ slot ∈ started, ∀ outcome reason, world.behaviour slot.entry.message = .reportNow outcome reason →
        slot.entry.acceptance outcome reason <:+: events := by
  intro started
  have hmove := world.move_of_queue hstack ⟨rfl, rfl⟩
  generalize hslots : queue.pending.slots = slots
  induction slots generalizing queue with
  | nil =>
      have hentries : queue.pending.entries = [] := by simp [Lane.entries, hslots]
      have hstarted : started = [] := by simp only [started, hentries, startedAt]
      have hpop : (queue.pending.popFront bound).1 = none := by simp [Lane.popFront, hslots]
      have hreturn : Transition queue .advance { queue with stack := rest } [.returned .done] :=
        .dispatchedAll hstack hpop
      refine ⟨[.returned .done], queue.pending, queue.inProgress, ?_, hentries, ?_, ?_, ?_⟩
      · have hevolves := Evolves.telling hmove hreturn (.refl _)
        simpa [hstarted] using hevolves
      · simp [hstarted]
      · simp [hstarted, dispatches]
      · simp [hstarted]
  | cons slot slots ih =>
      obtain ⟨hslot, hrest⟩ := List.forall_mem_cons.mp (hslots ▸ hbound)
      have hpopped := Lane.popFront_cons queue.pending bound slot slots hslots hslot
      let popped := Lane.settle { queue.pending with slots }
      let starting : Queue μ ρ := { queue with pending := popped, stack := .starting bound slot.entry :: rest }
      have hpop : Transition queue .advance starting [] := by
        have hstep := Transition.pop hstack (congrArg Prod.fst hpopped)
        rwa [hpopped] at hstep
      have hstarting : starting.Served := ⟨h.observed, h.delivering, h.outbox⟩
      obtain ⟨events, inProgress, hstart, hadded, hissue, hreported⟩ :=
        hstarting.evolves_starting world hkept ⟨hfresh.held, hfresh.inProgress⟩ rfl
      let first : Slot μ := { key := queue.nextKey, entry := { slot.entry with startedAt := some world.now } }
      let next : Queue μ ρ := { starting with
        inProgress, nextKey := queue.nextKey + 1
        held := queue.held ++ world.retained [first]
        stack := .dispatching bound :: rest }
      have hnext : next.Served := ⟨h.observed, h.delivering, h.outbox⟩
      have hnextSlots : next.pending.slots = slots := Lane.slots_settle _
      have hnextFresh : next.Fresh := hfresh.filled world rfl rfl rfl hadded
      obtain ⟨later, pending, last, hevolves, hpending, hlast, hissues, hreports⟩ :=
        ih hnext hkept hnextFresh (hnextSlots ▸ hrest) rfl
          (world.move_of_queue rfl ⟨rfl, rfl⟩) hnextSlots
      have hstarted : started = first :: startedAt world.now next.nextKey next.pending.entries := by
        simp only [started, Lane.entries, hslots, hnextSlots]
        rfl
      have hheldAll : queue.held ++ world.retained started =
          next.held ++ world.retained (startedAt world.now next.nextKey next.pending.entries) := by
        rw [hstarted, world.retained_cons, List.append_assoc]
      have hparkedAll : world.parked started =
          world.parked [first] ++ world.parked (startedAt world.now next.nextKey next.pending.entries) := by
        rw [hstarted]
        exact world.parked_cons _ _
      have hkeyAll : queue.nextKey + started.length =
          next.nextKey + (startedAt world.now next.nextKey next.pending.entries).length := by
        rw [hstarted, List.length_cons, Nat.add_comm _ 1, ← Nat.add_assoc]
      refine ⟨events ++ later, pending, last, ?_, hpending, ?_, ?_, ?_⟩
      · rw [hheldAll, hkeyAll]
        exact .silent hmove hpop (hstart.trans hevolves)
      · rw [hlast, hadded, hparkedAll, List.append_assoc]
      · rw [dispatches_append, hissue, hissues, hstarted]
        rfl
      · rw [hstarted]
        refine List.forall_mem_cons.mpr ⟨fun outcome reason hbehaviour => ?_, ?_⟩
        · exact (hreported outcome reason hbehaviour).trans (List.prefix_append events later).isInfix
        · intro other hother outcome reason hbehaviour
          exact (hreports other hother outcome reason hbehaviour).trans (List.suffix_append events later).isInfix

-- The dispatch reaches all that waits when it begins.
theorem Served.evolves_gathering {rest : List (Frame μ ρ)} (hordered : queue.Ordered)
    (hstack : queue.stack = .gathering :: rest) :
    let started := startedAt world.now queue.nextKey queue.pending.entries
    ∃ events pending inProgress,
      Evolves world queue events { queue with
        pending, inProgress, nextKey := queue.nextKey + started.length
        held := queue.held ++ world.retained started
        stack := rest } ∧
      pending.entries = [] ∧ inProgress.slots = queue.inProgress.slots ++ world.parked started ∧
      dispatches events = started.map Slot.issue ∧
      ∀ slot ∈ started, ∀ outcome reason, world.behaviour slot.entry.message = .reportNow outcome reason →
        slot.entry.acceptance outcome reason <:+: events := by
  intro started
  have hmove := world.move_of_queue hstack ⟨rfl, rfl⟩
  cases hkey : queue.pending.lastKey? with
  | none =>
      have hentries := queue.pending.lastKey_eq_none_iff.mp hkey
      have hstarted : started = [] := by simp only [started, hentries, startedAt]
      have hreturn : Transition queue .advance { queue with stack := rest } [.returned .done] :=
        .nothingPending hstack hkey
      refine ⟨[.returned .done], queue.pending, queue.inProgress, ?_, hentries, ?_, ?_, ?_⟩
      · have hevolves := Evolves.telling hmove hreturn (.refl _)
        simpa [hstarted] using hevolves
      · simp [hstarted]
      · simp [hstarted, dispatches]
      · simp [hstarted]
  | some bound =>
      let dispatching : Queue μ ρ := { queue with stack := .dispatching bound :: rest }
      have hgather : Transition queue .advance dispatching [] := .gather hstack hkey
      have hserved : dispatching.Served := ⟨h.observed, h.delivering, h.outbox⟩
      obtain ⟨events, pending, inProgress, hevolves, hdispatched⟩ :=
        hserved.evolves_dispatching world hkept ⟨hfresh.held, hfresh.inProgress⟩
          (hordered.pending.key_le_lastKey bound hkey) rfl
      exact ⟨events, pending, inProgress, .silent hmove hgather hevolves, hdispatched⟩

end dispatching

end Queue

end DeadlineQueue
