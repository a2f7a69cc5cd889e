import DeadlineQueue.Proofs.Naive.Basic
import DeadlineQueue.Proofs.Sound

namespace DeadlineQueue

variable {μ ρ : Type}

-- What the naive queue knows of each part of a queue.
def Entry.waiting (entry : Entry μ) : Naive.Waiting μ :=
  { id := entry.id, message := entry.message, enqueuedAt := entry.enqueuedAt }

def Entry.started (entry : Entry μ) : Naive.Started μ :=
  { entry.waiting with startedAt := entry.startedAt.getD entry.enqueuedAt }

def Scan.look (scan : Scan) (name : LaneName) : Naive.Look :=
  match name, scan.origin with
  | .pending, _ => .waiting scan.deadline
  | .inProgress, .admission => .lasting scan.deadline
  | .inProgress, .start => .working scan.deadline

def looksOf (scans : List (LaneName × Scan)) : List Naive.Look :=
  scans.map fun look => look.2.look look.1

@[simp] def Frame.naive : Frame μ ρ → Naive.Frame μ ρ
  | enqueuing message => .enqueuing message
  | sweeping scans => .sweeping (looksOf scans)
  | scanning now scans => .looking now (looksOf scans)
  | gathering => .gathering
  | dispatching _ => .dispatching
  | starting _ entry => .starting entry.waiting
  | retiring _ batch => .retiring (batch.map Entry.waiting)
  | draining batch _ => .draining (batch.map Entry.waiting)
  | completing => .completing
  | delivering => .delivering
  | processing token message => .processing token.id message
  | notifying notice => .notifying notice

@[simp] def Event.seen? : Event μ ρ → Option (Naive.Seen μ ρ)
  | returned reply => some (.returned reply)
  | dispatched token message => some (.dispatched token.id message)
  | notified notice => some (.notified notice)
  | unobserved notice => some (.unobserved notice)
  | panicked text => some (.panicked text)
  | _ => none

def Move.token? : Move μ ρ → Option Token
  | .call request => request.token?
  | _ => none

namespace Frame

@[simp] theorem isUser_naive (frame : Frame μ ρ) : frame.naive.isUser = frame.isUser := by
  cases frame <;> rfl

@[simp] theorem isCompleting_naive (frame : Frame μ ρ) : frame.naive.isCompleting = frame.isCompleting := by
  cases frame <;> rfl

@[simp] theorem isDelivering_naive (frame : Frame μ ρ) : frame.naive.isDelivering = frame.isDelivering := by
  cases frame <;> rfl

@[simp] theorem holdsQueue_naive (frame : Frame μ ρ) : frame.naive.holdsQueue = frame.holdsQueue := by
  cases frame <;> rfl

end Frame

theorem Limits.looks_naive (limits : Limits) : Naive.looks limits = looksOf limits.scans := by
  unfold Naive.looks scans looksOf
  cases limits.waitDeadline <;> cases limits.processingDeadline <;> rfl

@[simp] theorem notice_waiting (entry : Entry μ) (outcome : Outcome) (reason : Option ρ) :
    entry.waiting.notice outcome reason = entry.notice outcome reason := rfl

@[simp] theorem notice_started (entry : Entry μ) (outcome : Outcome) (reason : Option ρ) :
    entry.started.notice outcome reason = entry.notice outcome reason := rfl

@[simp] theorem toWaiting_started (entry : Entry μ) : entry.started.toWaiting = entry.waiting := rfl

namespace Queue

-- Keys, stamps of lanes and bounds are forgotten.
def naive (queue : Queue μ ρ) : Naive μ ρ where
  limits := queue.limits
  observed := queue.observed
  pending := queue.pending.entries.map Entry.waiting
  inProgress := queue.inProgress.entries.map Entry.started
  nextId := queue.nextId
  outbox := queue.outbox
  held := queue.held.map Token.id
  dropped := queue.dropped
  stack := queue.stack.map Frame.naive

theorem turn_naive (queue : Queue μ ρ) : queue.naive.turn = queue.turn := by
  unfold Naive.turn turn naive
  cases queue.stack with
  | nil => rfl
  | cons frame rest => cases frame <;> rfl

theorem busy_naive (queue : Queue μ ρ) : queue.naive.busy = queue.busy := by
  simp [Naive.busy, busy, naive, List.any_map, Function.comp_def, -Frame.naive]

theorem alive_naive (queue : Queue μ ρ) : queue.naive.alive = queue.alive := by
  simp [Naive.alive, alive, naive, List.any_map, Function.comp_def, -Frame.naive]

-- The naive queue has no flag for a delivery, it looks whether there is one.
theorem raise_naive (queue : Queue μ ρ) (source : Source) (notice : Notice μ ρ)
    (hdelivering : queue.delivering = queue.stack.any Frame.isDelivering) :
    (queue.raise source notice).1.naive = queue.naive.raise (queue.stack.map Frame.naive) notice := by
  simp only [naive, Naive.raise, limits_raise, observed_raise, pending_raise, inProgress_raise, nextId_raise,
    outbox_raise, held_raise, dropped_raise, stack_raise, hdelivering, List.any_map, Function.comp_def,
    Frame.isDelivering_naive]
  split <;> rfl

-- A step as it looks to the naive queue.
def outside (next : Stepped μ ρ) : Naive μ ρ × List (Naive.Seen μ ρ) :=
  (next.1.naive, next.2.filterMap Event.seen?)

theorem unwind_naive (queue : Queue μ ρ) (stack : List (Frame μ ρ)) (text : String) :
    queue.naive.unwind (stack.map Frame.naive) text = outside (queue.unwind stack text) := by
  simp [outside, naive, unwind, Naive.unwind, List.dropWhile_map, Function.comp_def, -Frame.naive]

-- A call that raises a notice is no delivery, before and after.
theorem Stacked.raise_naive {queue : Queue μ ρ} (h : queue.Stacked) {frame : Frame μ ρ} (top : Frame μ ρ)
    {rest : List (Frame μ ρ)} (hstack : queue.stack = frame :: rest) (hframe : top.isDelivering = frame.isDelivering)
    (source : Source) (notice : Notice μ ρ) :
    (Queue.raise { queue with stack := top :: rest } source notice).1.naive =
      queue.naive.raise (top.naive :: rest.map Frame.naive) notice := by
  rw [Queue.raise_naive _ _ _ (by rw [h.delivering, hstack, List.any_cons, List.any_cons, hframe])]
  rfl

-- A look at the whole list finds what a scan of the lane takes.
theorem Ordered.take_naive {queue : Queue μ ρ} (hs : queue.Ordered) (name : LaneName) (scan : Scan) (now : Instant)
    (hfair : scan.Fair name) :
    queue.naive.take now (scan.look name) =
      (((queue.lane name).takeOverdue scan now).1.map Entry.waiting,
        (queue.setLane name ((queue.lane name).takeOverdue scan now).2).naive) := by
  have htake := (hs.lane name).takeOverdue scan now hfair.origin_of_hasty
  rw [htake]
  cases name with
  | pending =>
      have hlate : ∀ entry : Entry μ,
          scan.overdue now entry = Naive.late scan.deadline entry.waiting.enqueuedAt now := by
        intro entry
        simp only [Scan.overdue, hfair.origin_of_pending rfl]
        rfl
      simp [Scan.look, Naive.take, naive, Lane.entries, Lane.slots_settle, List.filter_map, Function.comp_def, hlate]
  | inProgress =>
      cases horigin : scan.origin with
      | admission =>
          have hlate : ∀ entry : Entry μ,
              scan.overdue now entry = Naive.late scan.deadline entry.started.enqueuedAt now := by
            intro entry
            simp only [Scan.overdue, horigin]
            rfl
          simp [Scan.look, horigin, Naive.take, naive, Lane.entries, Lane.slots_settle, List.filter_map,
            Function.comp_def, hlate]
      | start =>
          have hlate : ∀ slot ∈ queue.inProgress.slots,
              scan.overdue now slot.entry = Naive.late scan.deadline slot.entry.started.startedAt now := by
            intro slot hslot
            obtain ⟨stamp, _, hstamp, _⟩ := hs.inProgress.stamped slot hslot
            have hstarted : slot.entry.startedAt = some stamp := hstamp
            simp [Scan.overdue, horigin, Entry.since, Entry.started, hstarted, Naive.late]
          have htaken := List.filter_congr hlate
          have hleft := List.filter_congr fun slot hslot => congrArg (! ·) (hlate slot hslot)
          simp [Scan.look, horigin, Naive.take, naive, Lane.entries, Lane.slots_settle, List.filter_map,
            Function.comp_def, htaken, hleft]

theorem map_id_erase (held : List Token) (token : Token)
    (h : ∀ other ∈ held, other.id = token.id → other = token) :
    (held.erase token).map Token.id = (held.map Token.id).erase token.id := by
  induction held with
  | nil => rfl
  | cons other rest ih =>
      have hrest := ih fun other hother => h other (List.mem_cons_of_mem _ hother)
      by_cases hother : other = token
      · simp [hother]
      · have hid : other.id ≠ token.id := fun hid => hother (h other List.mem_cons_self hid)
        simp [hother, hid, hrest]

section Sound

variable {queue : Queue μ ρ} {admitted : List (MessageId × μ)} {past : List (Event μ ρ)} {token : Token} {message : μ}

theorem Sound.mem_held_naive (hs : queue.Sound admitted past) (hissue : (token, message) ∈ dispatches past) :
    token.id ∈ queue.naive.held ↔ token ∈ queue.held := by
  constructor
  · intro hheld
    obtain ⟨other, hother, hid⟩ := List.mem_map.mp hheld
    exact hs.eq_of_held hissue other hother hid ▸ hother
  · exact List.mem_map_of_mem

theorem Sound.held_naive (hs : queue.Sound admitted past) (hissue : (token, message) ∈ dispatches past) :
    (queue.held.erase token).map Token.id = queue.naive.held.erase token.id :=
  map_id_erase queue.held token (hs.eq_of_held hissue)

-- The id finds the entry that the key finds.
theorem Sound.find_naive (hs : queue.Sound admitted past) (hissue : (token, message) ∈ dispatches past) :
    queue.naive.inProgress.find? (fun started => started.id = token.id) =
      (queue.inProgress.remove token.key).1.map Entry.started := by
  rw [hs.remove_fst hissue, Queue.naive, List.find?_map]
  rfl

theorem Sound.remove_naive (hs : queue.Sound admitted past) (hissue : (token, message) ∈ dispatches past) :
    queue.naive.inProgress.filter (fun started => started.id ≠ token.id) =
      (queue.inProgress.remove token.key).2.entries.map Entry.started := by
  rw [hs.entries_remove hissue, Queue.naive, List.filter_map]
  rfl

end Sound

-- A move out of turn does nothing to the naive queue either.
theorem step_idle_naive {queue : Queue μ ρ} (move : Move μ ρ) (hidle : ¬queue.Awaits move) :
    queue.naive.step move = (queue.naive, []) := by
  cases move with
  | advance => exact if_neg (by rwa [turn_naive])
  | read reading => exact if_neg (by rwa [turn_naive])
  | call call => exact if_neg (by rwa [turn_naive])
  | finish =>
      rw [Naive.step, turn_naive]
      split
      · rename_i hturn
        have hstack : queue.stack = [] := by simpa [Awaits, hturn] using hidle
        simp [Queue.naive, hstack]
      · rfl
  | panic text =>
      have hstack : queue.naive.stack = queue.stack.map Frame.naive := rfl
      exact if_neg (by rw [turn_naive, hstack]; simpa [Awaits] using hidle)

section call

variable (queue : Queue μ ρ)

-- A call is refused by both or by none.
theorem ifFree_naive (next : Stepped μ ρ) : queue.naive.ifFree (outside next) = outside (queue.ifFree next) := by
  have hdropped : queue.naive.dropped = queue.dropped := rfl
  unfold Naive.ifFree ifFree
  rw [busy_naive, hdropped]
  split
  · rfl
  · split <;> rfl

theorem startTick_naive : (queue.naive.startTick, []) = outside queue.startTick := by
  have hlooks : Naive.looks queue.naive.limits = looksOf queue.limits.scans := queue.limits.looks_naive
  unfold Naive.startTick startTick
  rw [hlooks]
  cases queue.limits.scans <;> rfl

theorem startDrain_naive : queue.naive.startDrain = outside queue.startDrain := by
  have hbatch : queue.naive.inProgress.map (·.toWaiting) ++ queue.naive.pending =
      (queue.inProgress.entries ++ queue.pending.entries).map Entry.waiting := by
    simp [Queue.naive, Function.comp_def]
  unfold Naive.startDrain startDrain
  simp only [hbatch, Lane.clear_fst, Lane.clear_snd, List.isEmpty_map]
  split
  · rename_i htracked
    have hnone := List.append_eq_nil_iff.mp (List.isEmpty_iff.mp htracked)
    simp [outside, giveBack, Queue.naive, hnone]
  · simp [outside, Queue.naive]

theorem drop_naive : ({ queue.naive with dropped := true }, [.returned .done]) = outside queue.drop := by
  unfold drop
  split <;> rfl

end call

section Sound

variable {queue : Queue μ ρ} {admitted : List (MessageId × μ)} {past : List (Event μ ρ)}
  (hs : queue.Sound admitted past)
include hs

section token

variable {token : Token} {message : μ} (hissue : (token, message) ∈ dispatches past)
include hissue

theorem Sound.ifHeld_naive (next : Stepped μ ρ) :
    queue.naive.ifHeld token.id (outside next) = outside (queue.ifHeld token next) := by
  by_cases hheld : token ∈ queue.held
  · rw [Naive.ifHeld, ifHeld, if_pos hheld, if_pos ((hs.mem_held_naive hissue).mpr hheld)]
  · rw [Naive.ifHeld, ifHeld, if_neg hheld, if_neg (mt (hs.mem_held_naive hissue).mp hheld)]
    rfl

theorem Sound.complete_naive (outcome : Outcome) (reason : Option ρ) :
    queue.naive.complete token.id outcome reason = outside (queue.complete token outcome reason) := by
  simp only [Naive.complete, alive_naive, hs.find_naive hissue, hs.remove_naive hissue, ← hs.held_naive hissue]
  cases halive : queue.alive with
  | false =>
      rw [complete_of_not_alive queue token outcome reason halive]
      rfl
  | true =>
      cases hentry : (queue.inProgress.remove token.key).1 with
      | none =>
          rw [complete_of_none queue token outcome reason halive hentry,
            hs.ordered.inProgress.remove_of_none token.key hentry]
          rfl
      | some entry =>
          have hdelivering :
              (queue.reporting token).delivering = (queue.reporting token).stack.any Frame.isDelivering :=
            hs.stacked.delivering
          rw [complete_of_some queue token outcome reason halive hentry, outside, raise_naive _ _ _ hdelivering]
          rfl

theorem Sound.dropToken_naive :
    ({ queue.naive with held := queue.naive.held.erase token.id }, [.returned .done]) =
      outside (queue.dropToken token) := by
  rw [← hs.held_naive hissue]
  unfold dropToken
  split <;> rfl

end token

-- The queue and the naive queue answer alike.
theorem Sound.answer_naive (call : Call μ ρ)
    (hnamed : ∀ token ∈ call.token?, ∃ message, (token, message) ∈ dispatches past) :
    queue.naive.answer call = outside (queue.answer call) := by
  cases call with
  | enqueue message => exact ifFree_naive queue ({ queue with stack := .enqueuing message :: queue.stack }, [])
  | tick =>
      rw [Naive.answer, startTick_naive]
      exact ifFree_naive queue queue.startTick
  | drain =>
      rw [Naive.answer, startDrain_naive]
      exact ifFree_naive queue queue.startDrain
  | setLimits limits => exact ifFree_naive queue ({ queue with limits }, [.returned .done])
  | drop =>
      rw [Naive.answer, drop_naive]
      exact ifFree_naive queue queue.drop
  | complete token outcome reason =>
      obtain ⟨message, hissue⟩ := hnamed token rfl
      rw [Naive.answer, hs.complete_naive hissue]
      exact hs.ifHeld_naive hissue (queue.complete token outcome reason)
  | dropToken token =>
      obtain ⟨message, hissue⟩ := hnamed token rfl
      rw [Naive.answer, hs.dropToken_naive hissue]
      exact hs.ifHeld_naive hissue (queue.dropToken token)

variable {next : Queue μ ρ} {events : List (Event μ ρ)}

-- What the queue does by itself the naive queue does, and both look the same from outside.
theorem Transition.advance_naive (h : Transition queue .advance next events) (hturn : queue.turn = .queue) :
    queue.naive.advance = outside (next, events) := by
  cases h with
  | idle _ hidle => exact absurd hturn hidle
  | @scan now name scan scans rest hstack =>
      have htake := hs.ordered.take_naive name scan now (hs.stacked.fair_scan hstack)
      have hstack' : queue.naive.stack = .looking now (scan.look name :: looksOf scans) :: rest.map Frame.naive := by
        simp [Queue.naive, hstack, looksOf]
      simp only [Naive.advance, hstack', htake]
      simp [outside, Queue.naive, Function.comp_def]
  | @retire name entry batch rest hstack =>
      rw [outside, hs.stacked.raise_naive (.retiring name batch) hstack rfl]
      simp [Naive.advance, Queue.naive, hstack, Naive.raise]
  | @cancel entry batch total rest hstack =>
      rw [outside, hs.stacked.raise_naive (.draining batch total) hstack rfl]
      simp [Naive.advance, Queue.naive, hstack, Naive.raise, List.filterMap_cons]
  | nothingPending hstack hkey =>
      have hpending := queue.pending.lastKey_eq_none_iff.mp hkey
      simp [outside, Naive.advance, Queue.naive, hstack, hpending, Naive.giveBack]
  | gather hstack hkey =>
      have hpending : queue.pending.entries ≠ [] := by
        rw [Ne, ← Lane.lastKey_eq_none_iff, hkey]
        exact Option.some_ne_none _
      simp [outside, Naive.advance, Queue.naive, hstack, hpending]
  | dispatchedAll hstack hpop =>
      have hpending := hs.bounded.pending_eq_nil hstack hpop
      simp [outside, Naive.advance, Queue.naive, hstack, hpending, Naive.giveBack]
  | @pop bound entry rest hstack hpop =>
      have hpending := queue.pending.entries_eq_cons_of_popFront bound entry hpop
      simp [outside, Naive.advance, Queue.naive, hstack, hpending]
  | scannedAll hstack | retiredAll hstack => simp [outside, Naive.advance, Queue.naive, hstack, looksOf]
  | cancelledAll hstack | completed hstack =>
      simp [outside, Naive.advance, Queue.naive, hstack, Naive.giveBack, List.filterMap_cons]
  | deliveredAll hstack houtbox => simp [outside, Naive.advance, Queue.naive, hstack, houtbox]
  | notify hstack houtbox hobserved | skip hstack houtbox hobserved =>
      simp [outside, Naive.advance, Queue.naive, hstack, houtbox, hobserved]

-- What the clock shows has the same effect on both.
theorem Transition.read_naive {reading : Reading} (h : Transition queue (.read reading) next events)
    (hturn : queue.turn = .clock) : queue.naive.read reading = outside (next, events) := by
  cases h with
  | idle _ hidle => exact absurd hturn hidle
  | accept now hstack =>
      rcases queue.logBackwards_eq .pending now with hlog | hlog <;>
        simp [outside, Naive.read, Queue.naive, hstack, append, Lane.entries_push, hlog, Entry.waiting,
          List.filterMap_cons]
  | start now hstack =>
      rcases queue.logBackwards_eq .inProgress now with hlog | hlog <;>
        simp [outside, Naive.read, Queue.naive, hstack, append, Lane.entries_push, hlog, Entry.started, Entry.waiting,
          List.filterMap_cons]
  | sweep now hstack | sweepUnread fault hstack => simp [outside, Naive.read, Queue.naive, hstack]
  | reject fault hstack =>
      simp [outside, Naive.read, Queue.naive, hstack, Naive.giveBack, List.filterMap_cons]
  | @startUnread bound entry rest fault hstack =>
      rw [outside, hs.stacked.raise_naive (.dispatching bound) hstack rfl]
      simp [Naive.read, Queue.naive, hstack, Naive.raise, List.filterMap_cons]
  | clockPanic text => exact queue.unwind_naive queue.stack text

end Sound

-- Whatever the move is, the queue and the naive queue look the same from outside after it.
theorem Sound.step_naive {queue : Queue μ ρ} {admitted : List (MessageId × μ)} {past : List (Event μ ρ)}
    (hs : queue.Sound admitted past) (move : Move μ ρ)
    (hnamed : ∀ token ∈ move.token?, ∃ message, (token, message) ∈ dispatches past) :
    queue.naive.step move = outside (queue.step move) := by
  have hstep := transition_step queue move
  by_cases hawaits : queue.Awaits move
  · cases move with
    | advance =>
        have hturn : queue.turn = .queue := hawaits
        rw [Naive.step, turn_naive, if_pos hturn]
        exact hstep.advance_naive hs hturn
    | read reading =>
        have hturn : queue.turn = .clock := hawaits
        rw [Naive.step, turn_naive, if_pos hturn]
        exact hstep.read_naive hs hturn
    | call call =>
        have hturn : queue.turn = .user := hawaits
        have hcall : queue.step (.call call) = queue.answer call := if_pos hturn
        rw [Naive.step, turn_naive, if_pos hturn, hcall]
        exact hs.answer_naive call hnamed
    | finish =>
        rw [Naive.step, turn_naive, if_pos hawaits.1, Queue.step, if_pos hawaits.1]
        simp [outside, Queue.naive]
    | panic text =>
        obtain ⟨frame, rest, hstack⟩ := List.exists_cons_of_ne_nil hawaits.2
        have hstack' : queue.naive.stack = frame.naive :: rest.map Frame.naive := by
          simp only [Queue.naive, hstack, List.map_cons]
        have hne : queue.naive.stack ≠ [] := by simp [hstack']
        have hpanic : queue.step (.panic text) = queue.unwind rest text := by simp [Queue.step, hawaits.1, hstack]
        rw [Naive.step, turn_naive, if_pos ⟨hawaits.1, hne⟩, hpanic, hstack']
        exact queue.unwind_naive rest text
  · rw [step_idle_naive move hawaits, step_of_not_awaits queue move hawaits]
    rfl

-- Whether each call that names a token names one that the processor was handed before. Nobody else
-- makes tokens.
def genuine (queue : Queue μ ρ) (issued : List Token) : List (Move μ ρ) → Bool
  | [] => true
  | move :: moves =>
    move.token?.all (fun token => token ∈ issued) &&
      (queue.step move).1.genuine (issued ++ (dispatches (queue.step move).2).map Prod.fst) moves

theorem genuine_of_isPrefix (queue : Queue μ ρ) (issued : List Token) {first moves : List (Move μ ρ)}
    (hinitial : first <+: moves) (h : queue.genuine issued moves = true) : queue.genuine issued first = true := by
  induction first generalizing queue issued moves with
  | nil => rfl
  | cons move rest ih =>
      obtain ⟨later, rfl⟩ := hinitial
      rw [List.cons_append, genuine, Bool.and_eq_true] at h
      rw [genuine, h.1, Bool.true_and]
      exact ih _ _ (List.prefix_append rest later) h.2

theorem Sound.run_refines {queue : Queue μ ρ} {admitted : List (MessageId × μ)} {past : List (Event μ ρ)}
    (hs : queue.Sound admitted past) (moves : List (Move μ ρ))
    (hgenuine : queue.genuine ((dispatches past).map Prod.fst) moves = true) :
    queue.naive.run moves = ((queue.run moves).1.naive, (queue.run moves).2.filterMap Event.seen?) := by
  induction moves generalizing queue admitted past with
  | nil => rfl
  | cons move moves ih =>
      rw [genuine, Bool.and_eq_true, ← List.map_append, ← dispatches_append] at hgenuine
      have hnamed : ∀ token ∈ move.token?, ∃ message, (token, message) ∈ dispatches past := by
        intro token htoken
        have hissued := hgenuine.1
        rw [Option.mem_def.mp htoken] at hissued
        simpa using hissued
      have hstep := hs.step_naive move hnamed
      have hrest := ih (hs.step move) hgenuine.2
      simp only [Naive.run, run_cons, hstep, outside, hrest, List.filterMap_append]

-- The refinement. Whatever the clock shows and whatever the callbacks do, the queue and the naive
-- queue answer alike, hand out and report the same in the same order, and count the same.
theorem run_naive (settings : Settings) (observed : Bool) (moves : List (Move μ ρ))
    (hgenuine : (make settings observed).genuine [] moves = true) (first : List (Move μ ρ)) (hfirst : first <+: moves) :
    let queue := ((make settings observed).run first).1
    let events := ((make settings observed).run first).2
    let naive := ((Naive.make settings.limits observed).run first).1
    let seen := ((Naive.make settings.limits observed).run first).2
    events.filterMap Event.seen? = seen ∧
      queue.pending.size = naive.pending.length ∧ queue.inProgress.size = naive.inProgress.length := by
  intro queue events naive seen
  have h := (sound_make settings observed).run_refines first (genuine_of_isPrefix _ _ hfirst hgenuine)
  have hnaive : naive = queue.naive := congrArg Prod.fst h
  have hseen : seen = events.filterMap Event.seen? := congrArg Prod.snd h
  refine ⟨hseen.symm, ?_, ?_⟩
  · simp [hnaive, Queue.naive, Lane.size, Lane.entries]
  · simp [hnaive, Queue.naive, Lane.size, Lane.entries]

-- The clock goes back between two admissions, so the second message is overdue before the first.
-- Its notifier asks for the queue in vain, then the first message is dispatched and reported.
def backwards : List (Move String String) :=
  [.call (.enqueue "a"), .read (.time 5), .call (.enqueue "b"), .read (.time 2), .call .tick, .read (.time 14),
    .advance, .advance, .advance, .call (.enqueue "c"), .finish, .advance, .advance, .advance, .advance, .advance,
    .advance, .advance, .advance, .advance, .read (.time 14), .call (.complete ⟨2, ⟨0⟩⟩ .success none), .advance,
    .finish, .advance, .advance, .finish, .advance]

theorem run_naive_backwards :
    let settings : Settings := { limits := { wait := some 10, processing := some 4 } }
    (make settings true).genuine [] backwards = true ∧
      ((make settings true).run backwards).2.filterMap Event.seen? =
        ((Naive.make settings.limits true).run backwards).2 ∧
      ((make settings true).run backwards).1.pending.size = 0 ∧
      ((Naive.make settings.limits true).run backwards).1.inProgress.length = 0 := by
  intro settings
  have hgenuine : (make settings true).genuine [] backwards = true := by decide
  have h := run_naive settings true backwards hgenuine backwards (List.prefix_refl _)
  exact ⟨hgenuine, h.1, rfl, rfl⟩

end Queue

end DeadlineQueue
