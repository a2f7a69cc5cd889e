import DeadlineQueue.Proofs.Admission
import Mathlib.Algebra.Order.Group.Multiset
import Mathlib.Tactic.Abel

namespace DeadlineQueue

variable {μ ρ : Type}

-- Which messages there are, whatever their order.
def census (messages : List (MessageId × μ)) : Multiset (MessageId × μ) :=
  ↑messages

@[simp] theorem census_nil : census ([] : List (MessageId × μ)) = 0 := rfl

@[simp] theorem census_append (first second : List (MessageId × μ)) :
    census (first ++ second) = census first + census second := by
  simp [census]

@[simp] theorem census_cons (message : MessageId × μ) (messages : List (MessageId × μ)) :
    census (message :: messages) = {message} + census messages := by
  simp [census]

theorem census_eq_iff (first second : List (MessageId × μ)) : census first = census second ↔ first.Perm second :=
  Multiset.coe_eq_coe

@[simp] theorem labelled_notice (entry : Entry μ) (outcome : Outcome) (reason : Option ρ) :
    (entry.notice outcome reason).labelled = entry.labelled := rfl

namespace Lane

def census (lane : Lane μ) : Multiset (MessageId × μ) :=
  DeadlineQueue.census (lane.entries.map Entry.labelled)

@[simp] theorem census_empty : ({} : Lane μ).census = 0 := rfl

theorem census_of_slots_perm {lane next : Lane μ} (h : lane.slots.Perm next.slots) : lane.census = next.census := by
  unfold census entries
  rw [census_eq_iff]
  exact (h.map _).map _

@[simp] theorem census_push (lane : Lane μ) (key : Nat) (stamp : Instant) (entry : Entry μ) :
    (lane.push key stamp entry).census = lane.census + {entry.labelled} := by
  simp [census, entries_push]

theorem census_takeOverdue (lane : Lane μ) (scan : Scan) (now : Instant) :
    DeadlineQueue.census ((lane.takeOverdue scan now).1.map Entry.labelled) + (lane.takeOverdue scan now).2.census =
      lane.census := by
  have hperm := (List.filter_append_perm (fun slot : Slot μ => scan.overdue now slot.entry)
    (lane.reach scan now).1).append_right (lane.reach scan now).2
  rw [reach_append, List.append_assoc, ← slots_takeOverdue] at hperm
  unfold census entries
  rw [takeOverdue_fst, ← census_append, census_eq_iff, ← List.map_append, ← List.map_append]
  exact (hperm.map _).map _

theorem census_popFront (lane : Lane μ) (bound : Nat) (entry : Entry μ) (h : (lane.popFront bound).1 = some entry) :
    {entry.labelled} + (lane.popFront bound).2.census = lane.census := by
  rw [census, census, lane.entries_eq_cons_of_popFront bound entry h, List.map_cons, census_cons]

theorem find_append_filter_perm (slots : List (Slot μ)) (key : Nat) (slot : Slot μ)
    (hkeys : slots.Pairwise (fun first second => first.key < second.key))
    (h : slots.find? (fun slot => slot.key = key) = some slot) :
    (slot :: slots.filter (fun slot => slot.key ≠ key)).Perm slots := by
  induction slots with
  | nil => simp at h
  | cons first rest ih =>
      obtain ⟨hfirst, hrest⟩ := List.pairwise_cons.mp hkeys
      by_cases hkey : first.key = key
      · have hslot : first = slot := by simpa [hkey] using h
        have hother : rest.filter (fun slot => slot.key ≠ key) = rest := by
          rw [List.filter_eq_self]
          intro other hmem
          have hlt := hfirst other hmem
          simp only [ne_eq, decide_not, Bool.not_eq_true', decide_eq_false_iff_not]
          omega
        rw [List.filter_cons_of_neg (by simp [hkey]), hother, hslot]
      · have hfind : rest.find? (fun slot => slot.key = key) = some slot := by simpa [hkey] using h
        rw [List.filter_cons_of_pos (by simp [hkey])]
        exact (List.Perm.swap first slot _).trans ((ih hrest hfind).cons first)

theorem Sound.census_remove {lane : Lane μ} {origin : Origin} (hsound : lane.Sound origin) (key : Nat) (entry : Entry μ)
    (h : (lane.remove key).1 = some entry) : {entry.labelled} + (lane.remove key).2.census = lane.census := by
  obtain ⟨slot, hfind, rfl⟩ := Option.map_eq_some_iff.mp h
  have hperm := find_append_filter_perm lane.slots key slot hsound.keys hfind
  rw [← slots_remove] at hperm
  unfold census entries
  rw [← census_cons, census_eq_iff, ← List.map_cons, ← List.map_cons (f := fun slot : Slot μ => slot.entry)]
  exact (hperm.map _).map _

theorem census_remove_none (lane : Lane μ) (key : Nat) (h : (lane.remove key).1 = none) :
    (lane.remove key).2.census = lane.census := by
  apply census_of_slots_perm
  rw [slots_remove_of_none lane key h]

end Lane

theorem Frame.carried_of_isUser {frame : Frame μ ρ} (huser : frame.isUser = true) : frame.carried = [] := by
  cases frame with
  | processing | notifying => rfl
  | _ => exact absurd huser Bool.false_ne_true

namespace Queue

-- Where messages are: on a lane, with a running call, or in a notice on its way.
def ledger (queue : Queue μ ρ) : Multiset (MessageId × μ) :=
  queue.pending.census + queue.inProgress.census + census ((queue.stack.flatMap Frame.carried).map Entry.labelled) +
    census (queue.outbox.map Notice.labelled)

def delivered (events : List (Event μ ρ)) : Multiset (MessageId × μ) :=
  census ((events.filterMap Event.delivered?).map Notice.labelled)

-- What the calls were holding that a panic has left.
def lost (queue : Queue μ ρ) (move : Move μ ρ) (events : List (Event μ ρ)) : List (Entry μ) :=
  let stack : List (Frame μ ρ) := match move with | .panic _ => queue.stack.tail | _ => queue.stack
  if events.any Event.isPanic then (stack.takeWhile (fun frame => !frame.isUser)).flatMap Frame.carried else []

@[simp] theorem ledger_raise (queue : Queue μ ρ) (source : Source) (notice : Notice μ ρ) :
    (queue.raise source notice).1.ledger = queue.ledger + {notice.labelled} := by
  have hstack := flatMap_stack_raise queue source notice Frame.carried rfl
  simp [ledger, hstack]
  abel

theorem ledger_unwind (queue : Queue μ ρ) (stack : List (Frame μ ρ)) (text : String)
    (hstack : stack.flatMap Frame.carried = queue.stack.flatMap Frame.carried) :
    (queue.unwind stack text).1.ledger +
      census (((stack.takeWhile (fun frame => !frame.isUser)).flatMap Frame.carried).map Entry.labelled) =
        queue.ledger := by
  have hsplit := congrArg (List.flatMap Frame.carried)
    (List.takeWhile_append_dropWhile (p := fun frame : Frame μ ρ => !frame.isUser) (l := stack))
  rw [List.flatMap_append, hstack] at hsplit
  simp only [ledger, unwind, ← hsplit, List.map_append, census_append]
  abel

-- A step that admits, delivers and loses nothing.
def Quiet (events : List (Event μ ρ)) : Prop :=
  ∀ event ∈ events, event.admitted? = none ∧ event.delivered? = none ∧ event.isPanic = false

theorem Quiet.balance {queue next : Queue μ ρ} {move : Move μ ρ} {events : List (Event μ ρ)} (hquiet : Quiet events)
    (h : next.ledger = queue.ledger) :
    next.ledger + delivered events + census ((queue.lost move events).map Entry.labelled) =
      queue.ledger + census (queue.accepted events) := by
  have hadmitted : events.filterMap Event.admitted? = [] :=
    List.filterMap_eq_nil_iff.mpr fun event hevent => (hquiet event hevent).1
  have hdelivered : events.filterMap Event.delivered? = [] :=
    List.filterMap_eq_nil_iff.mpr fun event hevent => (hquiet event hevent).2.1
  have hpanic : events.any Event.isPanic = false := by
    rw [List.any_eq_false]
    intro event hevent
    rw [(hquiet event hevent).2.2]
    exact Bool.false_ne_true
  simp [delivered, accepted, lost, hadmitted, hdelivered, hpanic, h]

@[simp] theorem quiet_nil : Quiet ([] : List (Event μ ρ)) := by simp [Quiet]

section ledger

variable {queue : Queue μ ρ}

-- Calls that hold the same messages may take the place of those that run.
theorem ledger_restack {stack : List (Frame μ ρ)}
    (hcarried : stack.flatMap Frame.carried = queue.stack.flatMap Frame.carried) :
    ({ queue with stack } : Queue μ ρ).ledger = queue.ledger := by
  simp only [ledger, hcarried]

theorem ledger_restack_cons {frame : Frame μ ρ} {stack rest : List (Frame μ ρ)} (hstack : queue.stack = frame :: rest)
    (hcarried : stack.flatMap Frame.carried = frame.carried ++ rest.flatMap Frame.carried) :
    ({ queue with stack } : Queue μ ρ).ledger = queue.ledger :=
  ledger_restack (by rw [hcarried, hstack, List.flatMap_cons])

-- A call lets go of the first message it holds when it raises a notice of it.
theorem ledger_handOver {frame top : Frame μ ρ} {entry : Entry μ} {rest : List (Frame μ ρ)}
    (hstack : queue.stack = frame :: rest) (hcarried : frame.carried = entry :: top.carried) (source : Source)
    (outcome : Outcome) (reason : Option ρ) :
    (raise { queue with stack := top :: rest } source (entry.notice outcome reason)).1.ledger = queue.ledger := by
  rw [ledger_raise]
  simp [ledger, hstack, hcarried, -Frame.carried, -Multiset.singleton_add]
  abel

-- What a scan takes off a lane is held by the call that retires it.
theorem ledger_scan {now : Instant} {name : LaneName} {scan : Scan} {scans : List (LaneName × Scan)}
    {rest : List (Frame μ ρ)} (hstack : queue.stack = .scanning now ((name, scan) :: scans) :: rest) :
    ({ queue.setLane name ((queue.lane name).takeOverdue scan now).2 with
      stack := .retiring name ((queue.lane name).takeOverdue scan now).1 :: .scanning now scans :: rest } :
        Queue μ ρ).ledger = queue.ledger := by
  have hcensus := (queue.lane name).census_takeOverdue scan now
  cases name with
  | pending =>
      simp only [ledger, hstack, lane_pending, setLane_pending] at hcensus ⊢
      simp [← hcensus]
      abel
  | inProgress =>
      simp only [ledger, hstack, lane_inProgress, setLane_inProgress] at hcensus ⊢
      simp [← hcensus]
      abel

-- What a dispatch takes off the lane is held by the call that starts it.
theorem ledger_pop {bound : Nat} {entry : Entry μ} {rest : List (Frame μ ρ)}
    (hstack : queue.stack = .dispatching bound :: rest) (hpop : (queue.pending.popFront bound).1 = some entry) :
    ({ queue with
      pending := (queue.pending.popFront bound).2, stack := .starting bound entry :: rest } : Queue μ ρ).ledger =
        queue.ledger := by
  simp only [ledger, hstack, ← queue.pending.census_popFront bound entry hpop]
  simp [-Multiset.singleton_add]
  abel

-- What a report takes off the lane is told by the notice it raises.
theorem ledger_complete {key : Nat} {entry : Entry μ} (hs : queue.Ordered)
    (hentry : (queue.inProgress.remove key).1 = some entry) (held : List Token) (outcome : Outcome)
    (reason : Option ρ) :
    (raise { queue with held, inProgress := (queue.inProgress.remove key).2, stack := .completing :: queue.stack }
      .token (entry.notice outcome reason)).1.ledger = queue.ledger := by
  rw [ledger_raise]
  simp only [ledger, ← hs.inProgress.census_remove key entry hentry]
  simp [-Multiset.singleton_add]
  abel

end ledger

-- The conservation law. Messages come by admission only, and go to the notifier or, when a panic
-- leaves the call that holds them, get lost.
theorem Transition.ledger {queue next : Queue μ ρ} {move : Move μ ρ} {events : List (Event μ ρ)}
    (h : Transition queue move next events) (hs : queue.Ordered) :
    next.ledger + delivered events + census ((queue.lost move events).map Entry.labelled) =
      queue.ledger + census (queue.accepted events) := by
  cases h with
  | idle => exact quiet_nil.balance rfl
  | busy | dropped | noToken | setLimits | completeOrphan => exact Quiet.balance (by simp [Quiet]) rfl
  | drop | dropToken => exact Quiet.balance (by simp +contextual [Quiet, or_imp]) rfl
  | scan hstack => exact Quiet.balance (by simp [Quiet]) (ledger_scan hstack)
  | scannedAll hstack | retiredAll hstack | gather hstack | deliveredAll hstack | sweep now hstack =>
      exact quiet_nil.balance (ledger_restack_cons hstack rfl)
  | nothingPending hstack | dispatchedAll hstack | cancelledAll hstack | completed hstack | reject fault hstack
  | sweepUnread fault hstack =>
      exact Quiet.balance (by simp [Quiet]) (ledger_restack_cons hstack rfl)
  | enqueue | tick | tickUnlimited => exact quiet_nil.balance (ledger_restack rfl)
  | retire hstack | cancel hstack | startUnread fault hstack =>
      exact Quiet.balance (by simp [Quiet]) (ledger_handOver hstack rfl _ _ _)
  | pop hstack hpop => exact quiet_nil.balance (ledger_pop hstack hpop)
  | notify hstack houtbox | skip hstack houtbox =>
      simp [Queue.ledger, hstack, houtbox, delivered, lost, accepted, List.filterMap_cons, -Multiset.singleton_add]
      abel
  | accept now hstack =>
      simp [Queue.ledger, hstack, append, delivered, lost, accepted, List.filterMap_cons, Entry.labelled,
        -Multiset.singleton_add]
      abel
  | start now hstack =>
      apply Quiet.balance (by simp +contextual [Quiet, or_imp])
      simp [Queue.ledger, hstack, append, Entry.labelled, -Multiset.singleton_add]
      abel
  | clockPanic text hturn =>
      have hunwind := queue.ledger_unwind queue.stack text rfl
      simp [delivered, lost, accepted, List.filterMap_cons, hunwind]
  | drain =>
      apply quiet_nil.balance
      simp [Queue.ledger, Lane.census]
      abel
  | drainEmpty hturn hfree halive htracked =>
      apply Quiet.balance (by simp [Quiet])
      rw [List.append_eq_nil_iff] at htracked
      simp [Queue.ledger, Lane.census, htracked]
  | complete outcome reason hturn hheld halive hentry =>
      exact Quiet.balance (by simp [Quiet]) (ledger_complete hs hentry _ _ _)
  | @completeLate token outcome reason hturn hheld halive hentry =>
      have hcensus := queue.inProgress.census_remove_none token.key hentry
      exact Quiet.balance (by simp [Quiet]) (by simp [Queue.ledger, hcensus])
  | @finish frame rest hstack huser =>
      exact quiet_nil.balance (ledger_restack_cons hstack (by rw [Frame.carried_of_isUser huser, List.nil_append]))
  | @panic frame rest text hstack huser =>
      have hunwind := queue.ledger_unwind rest text
        (by rw [hstack, List.flatMap_cons, Frame.carried_of_isUser huser, List.nil_append])
      simp [delivered, lost, accepted, List.filterMap_cons, hstack, hunwind]

-- Without a panic no notice waits while nothing is being delivered.
def Flushed (queue : Queue μ ρ) : Prop :=
  queue.delivering = false → queue.outbox = []

theorem Transition.flushed {queue next : Queue μ ρ} {move : Move μ ρ} {events : List (Event μ ρ)}
    (h : Transition queue move next events) (hcalm : move.calm = true) (hs : queue.Flushed) : next.Flushed := by
  cases h with
  | retire => simp [Flushed]
  | cancel => simp [Flushed]
  | startUnread => simp [Flushed]
  | complete => simp [Flushed]
  | scan => simpa [Flushed] using hs
  | deliveredAll hstack houtbox => exact fun _ => houtbox
  | notify hstack houtbox =>
      intro hidle
      rw [hs hidle] at houtbox
      simp at houtbox
  | skip hstack houtbox =>
      intro hidle
      rw [hs hidle] at houtbox
      simp at houtbox
  | clockPanic => simp [Move.calm] at hcalm
  | panic => simp [Move.calm] at hcalm
  | _ => exact hs

-- What every calm run keeps.
structure Balanced (queue : Queue μ ρ) (admitted : List (MessageId × μ)) (events : List (Event μ ρ)) : Prop where
  ordered : queue.Ordered
  stacked : queue.Stacked
  flushed : queue.Flushed
  numbered : queue.Numbered admitted events
  balance : queue.ledger + delivered events = census admitted

theorem Balanced.make (settings : Settings) (observed : Bool) :
    (make settings observed : Queue μ ρ).Balanced [] [] where
  ordered := .make settings observed
  stacked := .make settings observed
  flushed := fun _ => rfl
  numbered := .make settings observed
  balance := rfl

theorem Transition.isPanic_of_calm {queue next : Queue μ ρ} {move : Move μ ρ} {events : List (Event μ ρ)}
    (h : Transition queue move next events) (hcalm : move.calm = true) : events.any Event.isPanic = false := by
  cases h with
  | clockPanic => simp [Move.calm] at hcalm
  | panic => simp [Move.calm] at hcalm
  | _ => simp +contextual [or_imp]

theorem Transition.lost_eq_nil {queue next : Queue μ ρ} {move : Move μ ρ} {events : List (Event μ ρ)}
    (h : Transition queue move next events) (hcalm : move.calm = true) : queue.lost move events = [] := by
  simp only [lost, h.isPanic_of_calm hcalm, Bool.false_eq_true, if_false]

theorem Balanced.step {queue : Queue μ ρ} {admitted : List (MessageId × μ)} {events : List (Event μ ρ)}
    (h : queue.Balanced admitted events) (move : Move μ ρ) (hcalm : move.calm = true) :
    (queue.step move).1.Balanced (admitted ++ queue.accepted (queue.step move).2) (events ++ (queue.step move).2) := by
  have hstep := transition_step queue move
  exact {
    ordered := hstep.change.ordered h.ordered
    stacked := hstep.stacked h.stacked
    flushed := hstep.flushed hcalm h.flushed
    numbered := h.numbered.step move
    balance := by
      have hledger := hstep.ledger h.ordered
      rw [hstep.lost_eq_nil hcalm, List.map_nil, census_nil, add_zero] at hledger
      have hevents : delivered (events ++ (queue.step move).2) = delivered events + delivered (queue.step move).2 := by
        simp [delivered]
      rw [hevents, census_append, ← h.balance]
      calc (queue.step move).1.ledger + (delivered events + delivered (queue.step move).2)
          = (queue.step move).1.ledger + delivered (queue.step move).2 + delivered events := by abel
        _ = queue.ledger + delivered events + census (queue.accepted (queue.step move).2) := by rw [hledger]; abel }

theorem Balanced.run (settings : Settings) (observed : Bool) (moves : List (Move μ ρ))
    (hcalm : ∀ move ∈ moves, move.calm = true) :
    ((Queue.make settings observed).run moves).1.Balanced ((Queue.make settings observed).admissions moves)
      ((Queue.make settings observed).run moves).2 :=
  run_invariant moves (fun _ _ _ move hmove h => h.step move (hcalm move hmove)) _ [] [] (.make settings observed)

-- Exactly once. When no call is running, each admitted message is in one place and there once: it
-- waits, it is in progress, or its notice was delivered; and nothing else is in these places.
theorem run_accounts (settings : Settings) (observed : Bool) (moves : List (Move μ ρ))
    (hcalm : ∀ move ∈ moves, move.calm = true) (hidle : ((make settings observed).run moves).1.stack = []) :
    let queue := ((make settings observed).run moves).1
    let events := ((make settings observed).run moves).2
    let admitted := (make settings observed).admissions moves
    let notices := events.filterMap Event.delivered?
    admitted.map Prod.fst = events.filterMap Event.admitted? ∧
      (admitted.map Prod.fst).Nodup ∧
      (queue.pending.entries.map Entry.labelled ++ queue.inProgress.entries.map Entry.labelled ++
        notices.map Notice.labelled).Perm admitted ∧
      queue.size + notices.length = admitted.length := by
  intro queue events admitted notices
  have h : queue.Balanced admitted events := Balanced.run settings observed moves hcalm
  have houtbox : queue.outbox = [] := h.flushed (by rw [h.stacked.delivering, hidle]; rfl)
  have hperm : (queue.pending.entries.map Entry.labelled ++ queue.inProgress.entries.map Entry.labelled ++
      notices.map Notice.labelled).Perm admitted := by
    rw [← census_eq_iff, ← h.balance, ledger, houtbox, hidle]
    simp [Lane.census, delivered, notices, add_assoc]
  have hlength := hperm.length_eq
  refine ⟨h.numbered.returned, h.numbered.nodup, hperm, ?_⟩
  simp only [List.length_append, List.length_map, Lane.entries] at hlength
  unfold size Lane.size
  omega

-- Three messages, of which the first is reported by the processor in the course of its dispatch,
-- the second stays with the processor, and the third comes too late for the tick.
def threePlaces : List (Move String String) :=
  [.call (.enqueue "a"), .read (.time 0), .call (.enqueue "b"), .read (.time 1), .call .tick, .advance, .advance,
    .read (.time 2), .call (.complete ⟨2, ⟨0⟩⟩ .success none), .advance, .finish, .advance, .advance, .finish, .advance,
    .read (.time 3), .finish, .advance, .call (.enqueue "c"), .read (.time 4)]

theorem run_accounts_threePlaces :
    (∀ move ∈ threePlaces, move.calm = true) ∧ ((make {} true).run threePlaces).1.stack = [] ∧
      List.Perm ([((⟨2⟩ : MessageId), "c")] ++ [(⟨1⟩, "b")] ++ [(⟨0⟩, "a")]) [(⟨0⟩, "a"), (⟨1⟩, "b"), (⟨2⟩, "c")] ∧
      ((make {} true).run threePlaces).1.size + 1 = 3 :=
  have hcalm : ∀ move ∈ threePlaces, move.calm = true := by decide
  ⟨hcalm, rfl, (run_accounts {} true threePlaces hcalm rfl).2.2⟩

end Queue

end DeadlineQueue
