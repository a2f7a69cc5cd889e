import DeadlineQueue.Proofs.Journal.Agreement
import DeadlineQueue.Proofs.Readings
import DeadlineQueue.Proofs.Termination

namespace DeadlineQueue

variable {μ ρ : Type}

-- A call that holds the queue and is no dispatch.
def Frame.besidesDispatch : Frame μ ρ → Bool
  | enqueuing _ | sweeping _ | scanning _ _ | retiring _ _ | draining _ _ => true
  | _ => false

-- The notice of a message whose start time could not be read.
def Event.unread? : Event μ ρ → Option (Notice μ ρ)
  | .raised .unread notice => some notice
  | _ => none

instance : Event.SkipsLog (Event.unread? : Event μ ρ → _) := ⟨fun _ => rfl⟩

-- The slots that the answers to a dispatch fill from some key on. An entry whose time could not be read fills none,
-- and those behind it fill the same slots as without it.
def arriving (key : Nat) : List (Inquiry μ × Reading) → List (Slot μ)
  | [] => []
  | (.start entry, .time now) :: rest =>
    { key, entry := { entry with startedAt := some now } } :: arriving (key + 1) rest
  | _ :: rest => arriving key rest

-- The notice that an answer to a dispatch calls for.
def unread? : Inquiry μ × Reading → Option (Notice μ ρ)
  | (.start entry, .failed _) => some (entry.notice .error none)
  | _ => none

theorem arriving_append (key : Nat) (first second : List (Inquiry μ × Reading)) :
    arriving key (first ++ second) =
      arriving key first ++ arriving (key + (arriving key first).length) second := by
  induction first generalizing key with
  | nil => rfl
  | cons answer rest ih =>
      obtain ⟨inquiry, reading⟩ := answer
      cases inquiry with
      | start entry =>
          cases reading with
          | time now =>
              simp only [List.cons_append, arriving, ih, List.length_cons]
              rw [Nat.add_assoc, Nat.add_comm 1]
          | failed | panicked => simp only [List.cons_append, arriving, ih]
      | admission | sweep => simp only [List.cons_append, arriving, ih]

theorem arriving_unread (key : Nat) (before after : List (Inquiry μ × Reading)) (entry : Entry μ) (fault : Fault) :
    arriving key (before ++ (.start entry, .failed fault) :: after) = arriving key (before ++ after) := by
  rw [arriving_append, arriving_append]
  rfl

namespace Queue

def unreads (events : List (Event μ ρ)) : List (Notice μ ρ) :=
  events.filterMap Event.unread?

-- The slots that a run puts on the lane of the messages in progress.
def arrivals (queue : Queue μ ρ) : List (Move μ ρ) → List (Slot μ)
  | [] => []
  | move :: moves =>
    ((queue.step move).1.inProgress.slots.filter fun slot => queue.nextKey ≤ slot.key) ++
      (queue.step move).1.arrivals moves

-- How a dispatch goes on with these answers of the clock.
structure Answered (queue next : Queue μ ρ) (events : List (Event μ ρ)) (answers : List (Inquiry μ × Reading))
    (slots : List (Slot μ)) : Prop where
  asked : answers.map Prod.fst ++ next.unstarted.map .start = queue.unstarted.map .start
  arrived : slots = arriving queue.nextKey answers
  key : next.nextKey = queue.nextKey + slots.length
  dispatched : dispatches events = slots.map Slot.issue
  unread : unreads events = answers.filterMap unread?
  swept : timeouts events = []

theorem arrived_eq_nil {queue next : Queue μ ρ} (hordered : queue.Ordered)
    (htrims : next.inProgress.slots.Sublist queue.inProgress.slots) :
    (next.inProgress.slots.filter fun slot => queue.nextKey ≤ slot.key) = [] := by
  rw [List.filter_eq_nil_iff]
  intro slot hslot
  have hkey := hordered.inProgressKeys slot (htrims.subset hslot)
  simpa using hkey

theorem Transition.answered {queue next : Queue μ ρ} {move : Move μ ρ} {events : List (Event μ ρ)}
    (h : Transition queue move next events) (hordered : queue.Ordered) (hstacked : queue.Stacked)
    (hbusy : queue.busy = true) (hframes : queue.stack.any Frame.besidesDispatch = false)
    (hcalm : move.calm = true) :
    queue.Answered next events (queue.reading? move).toList
      (next.inProgress.slots.filter fun slot => queue.nextKey ≤ slot.key) := by
  -- A step that answers nothing and puts nothing on the lane.
  have hsame (hreading : queue.reading? move = none) (hunstarted : next.unstarted = queue.unstarted)
      (htrims : next.inProgress.slots.Sublist queue.inProgress.slots) (hkey : next.nextKey = queue.nextKey)
      (hdispatched : dispatches events = []) (hunread : unreads events = []) (hswept : Queue.timeouts events = []) :
      queue.Answered next events (queue.reading? move).toList
        (next.inProgress.slots.filter fun slot => queue.nextKey ≤ slot.key) := by
    rw [hreading, arrived_eq_nil hordered htrims]
    exact ⟨congrArg (List.map Inquiry.start) hunstarted, rfl, hkey, hdispatched, hunread, hswept⟩
  cases h with
  | idle _ hidle =>
      refine hsame ?_ rfl (.refl _) rfl rfl rfl rfl
      cases move with
      | read => exact reading_eq_none hidle _
      | _ => rfl
  | @start bound entry rest now hstack =>
      have hreading : queue.reading? (.read (.time now)) = some (.start entry, .time now) := by
        simp [reading?, hstack, Frame.inquiry?]
      have hrest := unstarted_of_not_holdsQueue rest (hstacked.fits hstack).1
      have hslots := arrived_eq_nil hordered (List.Sublist.refl queue.inProgress.slots)
      rw [hreading]
      constructor
      · simp [unstarted, hstack, append, hrest]
      · simp [append, Lane.push, hslots, arriving]
      · simp [append, Lane.push, hslots]
      · simp [append, Lane.push, hslots, dispatches, List.filterMap_cons, Slot.issue]
      · simp [unreads, Event.unread?, unread?, List.filterMap_cons]
      · simp [Queue.timeouts, List.filterMap_cons]
  | @startUnread bound entry rest fault hstack =>
      have hreading : queue.reading? (.read (.failed fault)) = some (.start entry, .failed fault) := by
        simp [reading?, hstack, Frame.inquiry?]
      have hslots := arrived_eq_nil hordered (List.Sublist.refl queue.inProgress.slots)
      rw [hreading, inProgress_raise, hslots]
      constructor
      · rw [unstarted_raise]
        simp [unstarted, hstack]
      · rfl
      · simp
      · rfl
      · rfl
      · rfl
  | complete outcome reason =>
      refine hsame rfl ?_ ?_ (by simp) rfl rfl rfl
      · rw [unstarted_raise]
        simp [unstarted]
      · rw [inProgress_raise]
        exact (Lane.trims_remove _ _).slots
  | completeLate => exact hsame rfl rfl (Lane.trims_remove _ _).slots rfl rfl rfl rfl
  | completeOrphan => exact hsame rfl rfl (.refl _) rfl rfl rfl rfl
  | dropToken =>
      exact hsame rfl rfl (.refl _) rfl (by simp [dispatches]) (by simp [unreads, Event.unread?])
        (by simp [Queue.timeouts])
  | @finish frame rest hstack huser =>
      refine hsame rfl ?_ (.refl _) rfl rfl rfl rfl
      cases frame <;> simp_all [unstarted, Frame.isUser]
  | @pop bound entry rest hstack hpop =>
      refine hsame rfl ?_ (.refl _) rfl rfl rfl rfl
      have hrest := unstarted_of_not_holdsQueue rest (hstacked.fits hstack).1
      simp [unstarted, hstack, hrest, queue.pending.entries_eq_cons_of_popFront bound entry hpop]
  | clockPanic | panic => exact absurd hcalm Bool.false_ne_true
  | _ =>
      first
        | exact hsame rfl rfl (.refl _) rfl rfl rfl rfl
        | exact hsame rfl (by simp_all [unstarted]) (.refl _) rfl rfl rfl rfl
        | (exfalso; simp_all [Frame.besidesDispatch])

-- A dispatch does not sweep, and no other call gets the queue in its course.
theorem Transition.besidesDispatch {queue next : Queue μ ρ} {move : Move μ ρ} {events : List (Event μ ρ)}
    (h : Transition queue move next events) (hbusy : queue.busy = true)
    (hframes : queue.stack.any Frame.besidesDispatch = false) : next.stack.any Frame.besidesDispatch = false := by
  cases h with
  | startUnread fault hstack =>
      rw [any_stack_raise _ _ _ _ rfl]
      simp_all [Frame.besidesDispatch]
  | complete =>
      rw [any_stack_raise _ _ _ _ rfl]
      simpa [Frame.besidesDispatch] using hframes
  | clockPanic text => exact any_eq_false_of_suffix _ (unwind_suffix queue queue.stack text) hframes
  | panic text hstack => exact any_eq_false_of_suffix _ (unwind_suffix_of_cons queue hstack text) hframes
  | @finish frame rest hstack => exact any_eq_false_of_suffix _ (hstack ▸ List.suffix_cons frame rest) hframes
  | _ => simp_all [Frame.besidesDispatch]

theorem run_answered {queue : Queue μ ρ} (hordered : queue.Ordered) (hstacked : queue.Stacked)
    (hframes : queue.stack.any Frame.besidesDispatch = false) {moves : List (Move μ ρ)}
    (hoccupied : queue.occupied moves = true) (hcalm : ∀ move ∈ moves, move.calm = true) :
    queue.Answered (queue.run moves).1 (queue.run moves).2 (queue.readings moves) (queue.arrivals moves) := by
  induction moves generalizing queue with
  | nil => exact ⟨rfl, rfl, rfl, rfl, rfl, rfl⟩
  | cons move moves ih =>
      obtain ⟨hbusy, hoccupied⟩ := Bool.and_eq_true_iff.mp hoccupied
      have htransition := transition_step queue move
      have hstep := htransition.answered hordered hstacked hbusy hframes (hcalm move List.mem_cons_self)
      have hrest := ih (ordered_step hordered move) (htransition.stacked hstacked)
        (htransition.besidesDispatch hbusy hframes) hoccupied
        (fun other hother => hcalm other (List.mem_cons_of_mem _ hother))
      rw [run_cons, readings, arrivals]
      constructor
      · rw [List.map_append, List.append_assoc, hrest.asked, hstep.asked]
      · rw [arriving_append, ← hstep.arrived, ← hstep.key, hrest.arrived]
      · rw [hrest.key, hstep.key, List.length_append, Nat.add_assoc]
      · rw [dispatches_append, List.map_append, hstep.dispatched, hrest.dispatched]
      · rw [unreads, List.filterMap_append, List.filterMap_append]
        exact congrArg₂ _ hstep.unread hrest.unread
      · rw [timeouts, List.filterMap_append]
        exact List.append_eq_nil_iff.mpr ⟨hstep.swept, hrest.swept⟩

-- Without a panic the calls return one by one.
theorem Transition.length_le {queue next : Queue μ ρ} {move : Move μ ρ} {events : List (Event μ ρ)}
    (h : Transition queue move next events) (hcalm : move.calm = true) :
    queue.stack.length ≤ next.stack.length + 1 := by
  cases h with
  | retire hstack | cancel hstack | startUnread fault hstack =>
      rw [stack_raise]
      split <;> simp [hstack]
  | complete =>
      rw [stack_raise]
      split <;> simp <;> omega
  | clockPanic | panic => exact absurd hcalm Bool.false_ne_true
  | enqueue | tick | tickUnlimited | drain => exact Nat.le_add_right _ 2
  | _ => simp_all

-- The frame of a running call stays while there are others above it.
theorem Transition.stays {queue next : Queue μ ρ} {move : Move μ ρ} {events : List (Event μ ρ)}
    (h : Transition queue move next events) (hcalm : move.calm = true) {below : List (Frame μ ρ)}
    (hbelow : below <:+ queue.stack) (hlength : below.length < queue.stack.length) : below <:+ next.stack := by
  rcases h.shift.keeps hbelow hlength with hstays | hleft
  · exact hstays
  · have hle := h.length_le hcalm
    exact hleft.eq_of_length_le (by omega) ▸ List.suffix_refl next.stack

-- While a call that does not wait for the clock holds the queue, no other call waits for it.
theorem turn_of_holds {queue : Queue μ ρ} (hstacked : queue.Stacked) {above below : List (Frame μ ρ)} {base : Frame μ ρ}
    (hstack : queue.stack = above ++ base :: below) (hbase : base.holdsQueue = true)
    (hawaits : base.awaitsClock = false) : queue.turn ≠ .clock := by
  intro hturn
  obtain ⟨frame, rest, hhead, hframe⟩ := queue.exists_awaitsClock hturn
  have hfree : rest.any Frame.holdsQueue = false := by
    have hfits := (hstacked.fits hhead).1
    cases frame with
    | enqueuing | sweeping | starting => exact hfits
    | _ => exact absurd hframe Bool.false_ne_true
  rw [hstack, List.append_eq_cons_iff] at hhead
  rcases hhead with ⟨-, hhead⟩ | ⟨lower, -, rfl⟩
  · obtain ⟨rfl, -⟩ := List.cons.inj hhead
    exact absurd (hframe.symm.trans hawaits) Bool.false_ne_true.symm
  · simp [hbase] at hfree

-- A scan leaves the sweep as it is, but for the batch that it has found, or ends it.
theorem Transition.scans {queue next : Queue μ ρ} {move : Move μ ρ} {events : List (Event μ ρ)}
    (h : Transition queue move next events) {now : Instant} {scans : List (LaneName × Scan)} {below : List (Frame μ ρ)}
    (hstack : queue.stack = .scanning now scans :: below) :
    (∃ above scans, next.stack = above ++ .scanning now scans :: below) ∨ next.stack = .gathering :: below := by
  have hturn : queue.turn = .queue := by simp [turn, hstack, Frame.isUser, Frame.awaitsClock]
  cases h with
  | idle => exact .inl ⟨[], scans, hstack⟩
  | @scan time name scan later rest hscan =>
      obtain ⟨hframe, rfl⟩ := List.cons.inj (hscan.symm.trans hstack)
      obtain ⟨rfl, rfl⟩ := Frame.scanning.inj hframe
      exact .inl ⟨[_], later, rfl⟩
  | @scannedAll time rest hscan =>
      obtain ⟨-, rfl⟩ := List.cons.inj (hscan.symm.trans hstack)
      exact .inr rfl
  | finish hother huser | panic text hother huser =>
      obtain ⟨rfl, -⟩ := List.cons.inj (hother.symm.trans hstack)
      exact absurd huser Bool.false_ne_true
  | _ => simp_all

-- A sweep that has got its time comes to the dispatch, and does not ask again.
theorem exists_gathering {queue : Queue μ ρ} (hstacked : queue.Stacked) {above below : List (Frame μ ρ)} {now : Instant}
    {scans : List (LaneName × Scan)} (hstack : queue.stack = above ++ .scanning now scans :: below)
    {moves : List (Move μ ρ)} (hspans : queue.spans below.length moves = true)
    (hcalm : ∀ move ∈ moves, move.calm = true) :
    ∃ sweep dispatch, moves = sweep ++ dispatch ∧ (queue.run sweep).1.stack = .gathering :: below ∧
      queue.readings sweep = [] := by
  induction moves generalizing queue above scans with
  | nil =>
      have hlength := length_of_spans hspans
      rw [run_nil, hstack, List.length_append, List.length_cons] at hlength
      omega
  | cons move moves ih =>
      rw [spans, Bool.and_eq_true] at hspans
      have hstep := transition_step queue move
      have hnone := reading_eq_none (turn_of_holds hstacked hstack rfl rfl) move
      have hnext : (∃ above scans, (queue.step move).1.stack = above ++ .scanning now scans :: below) ∨
          (queue.step move).1.stack = .gathering :: below := by
        cases above with
        | nil => exact hstep.scans hstack
        | cons frame above =>
            have hbelow : .scanning now scans :: below <:+ queue.stack := hstack ▸ List.suffix_append _ _
            have hlength : (Frame.scanning now scans :: below).length < queue.stack.length := by
              simp only [hstack, List.length_append, List.length_cons]
              omega
            obtain ⟨above, hstays⟩ := hstep.stays (hcalm move List.mem_cons_self) hbelow hlength
            exact .inl ⟨above, scans, hstays.symm⟩
      rcases hnext with ⟨above, scans, hnext⟩ | hend
      · obtain ⟨sweep, dispatch, rfl, hend, hreadings⟩ := ih (hstep.stacked hstacked) hnext hspans.2
          fun other hother => hcalm other (List.mem_cons_of_mem _ hother)
        exact ⟨move :: sweep, dispatch, rfl, hend, by rw [readings, hnone, hreadings]; rfl⟩
      · exact ⟨[move], moves, rfl, hend, by rw [readings, hnone]; rfl⟩

theorem scans_eq_nil_iff (limits : Limits) :
    limits.scans = [] ↔ limits.waitDeadline = none ∧ limits.processingDeadline = none := by
  unfold Limits.scans
  cases limits.waitDeadline <;> cases limits.processingDeadline <;> simp

-- A tick asks once before its dispatch, if there is something to sweep for. If the clock fails, the dispatch begins
-- with the queue as it was.
theorem tick_asks {queue : Queue μ ρ} (hstacked : (queue.step (.call .tick)).1.Stacked) (hturn : queue.turn = .user)
    (hfree : queue.busy = false) (halive : queue.dropped = false) {during : List (Move μ ρ)}
    (hspans : (queue.step (.call .tick)).1.spans queue.stack.length during = true)
    (hcalm : ∀ move ∈ during, move.calm = true) :
    ∃ sweep dispatch, during = sweep ++ dispatch ∧
      (queue.run (.call .tick :: sweep)).1.stack = .gathering :: queue.stack ∧
      (if queue.limits.scans = [] then queue.readings (.call .tick :: sweep) = []
        else ∃ reading, queue.readings (.call .tick :: sweep) = [(.sweep, reading)]) ∧
      ∀ fault, (.sweep, .failed fault) ∈ queue.readings (.call .tick :: sweep) →
        queue.run (.call .tick :: sweep) =
          ({ queue with stack := .gathering :: queue.stack }, [.log (.sweepUnread fault)]) := by
  have hcall : queue.reading? (.call .tick) = none := rfl
  have hstart : queue.step (.call .tick) = queue.startTick := by simp [step, hturn, answer, ifFree, hfree, halive]
  by_cases hscans : queue.limits.scans = []
  · have htick : queue.step (.call .tick) = ({ queue with stack := .gathering :: queue.stack }, []) := by
      rw [hstart, startTick, hscans]
    refine ⟨[], during, rfl, ?_, ?_, fun fault hfault => ?_⟩
    · rw [run_cons, htick]
      rfl
    · rw [if_pos hscans, readings, hcall]
      rfl
    · rw [readings, hcall] at hfault
      exact absurd hfault List.not_mem_nil
  · let waiting : Queue μ ρ := { queue with stack := .sweeping queue.limits.scans :: queue.stack }
    have htick : queue.step (.call .tick) = (waiting, []) := by
      rw [hstart, startTick]
      split
      · contradiction
      · rfl
    rw [htick] at hspans hstacked
    obtain ⟨idle, reading, rest, rfl, hrun, hreadings⟩ :=
      waiting.exists_reading rfl (Nat.lt_succ_self queue.stack.length) hspans
    have hrest := spans_of_append hspans
    rw [hrun, spans, Bool.and_eq_true] at hrest
    have hcalm' := List.forall_mem_cons.mp (List.forall_mem_append.mp hcalm).2
    cases reading with
    | time now =>
        have hscanning := (transition_step waiting (.read (.time now))).stacked hstacked
        obtain ⟨sweep, dispatch, rfl, hend, hnone⟩ :=
          exists_gathering hscanning (List.nil_append _).symm hrest.2 hcalm'.2
        refine ⟨idle ++ .read (.time now) :: sweep, dispatch, by simp, ?_, ?_, fun fault hfault => ?_⟩
        · rw [run_cons, htick, run_append, hrun]
          exact hend
        · rw [if_neg hscans, readings, hcall, htick, readings_append, hreadings, hrun, readings, hnone]
          exact ⟨.time now, rfl⟩
        · rw [readings, hcall, htick, readings_append, hreadings, hrun, readings, hnone] at hfault
          simp [reading?, waiting, Frame.inquiry?] at hfault
    | failed fault =>
        refine ⟨idle ++ [.read (.failed fault)], rest, by simp, ?_, ?_, fun other hother => ?_⟩
        · rw [run_cons, htick, run_append, hrun]
          rfl
        · rw [if_neg hscans, readings, hcall, htick, readings_append, hreadings, hrun]
          exact ⟨.failed fault, rfl⟩
        · rw [readings, hcall, htick, readings_append, hreadings, hrun] at hother
          obtain rfl : other = fault := by simpa [readings, reading?, waiting, Frame.inquiry?] using hother
          rw [run_cons, htick, run_append, hrun]
          rfl
    | panicked => exact absurd hcalm'.1 Bool.false_ne_true

-- Where only a dispatch holds the queue, the queue is in the course of a tick.
theorem any_besidesTick {stack : List (Frame μ ρ)} (h : stack.any Frame.besidesDispatch = false) :
    stack.any Frame.besidesTick = false := by
  rw [List.any_eq_false] at h ⊢
  intro frame hframe
  have hdispatch := h frame hframe
  cases frame <;> simp_all [Frame.besidesDispatch, Frame.besidesTick]

theorem unstarted_of_left {queue : Queue μ ρ} {below : List (Frame μ ρ)} (hbelow : below.any Frame.holdsQueue = false)
    (hleft : queue.stack <:+ below) (hpending : queue.pending.entries = []) : queue.unstarted = [] := by
  rw [unstarted, unstarted_of_not_holdsQueue _ (any_eq_false_of_suffix _ hleft hbelow), hpending]
  rfl

theorem any_besidesDispatch {stack below : List (Frame μ ρ)} (hstack : stack = .gathering :: below)
    (hbelow : below.any Frame.holdsQueue = false) : stack.any Frame.besidesDispatch = false := by
  rw [hstack]
  exact any_of_not_holdsQueue below Frame.besidesDispatch
    (fun frame hframe => by cases frame <;> simp_all [Frame.holdsQueue, Frame.besidesDispatch]) hbelow

-- A dispatch asks for each entry that waits when it begins, in their order.
theorem Sound.dispatch_asks {queue : Queue μ ρ} {admitted : List (MessageId × μ)} {past : List (Event μ ρ)}
    (h : queue.Sound admitted past) {below : List (Frame μ ρ)} (hstack : queue.stack = .gathering :: below)
    (hbelow : below.any Frame.holdsQueue = false) {moves : List (Move μ ρ)}
    (hspans : queue.spans below.length moves = true) (hcalm : ∀ move ∈ moves, move.calm = true) :
    queue.Answered (queue.run moves).1 (queue.run moves).2 (queue.readings moves) (queue.arrivals moves) ∧
      (queue.readings moves).map Prod.fst = queue.pending.entries.map .start := by
  have hframes := any_besidesDispatch hstack hbelow
  obtain ⟨hoccupied, hleft⟩ := occupied_of_spans (hstack.trans (List.nil_append _).symm) rfl hspans
  have hanswered := run_answered h.ordered h.stacked hframes hoccupied hcalm
  obtain ⟨-, hpending, -⟩ := h.run_tick (hstack.trans (List.nil_append _).symm) rfl hbelow (any_besidesTick hframes)
    hspans fun last hlast => hcalm last (List.mem_of_getLast? hlast)
  have hasked := hanswered.asked
  rw [unstarted_of_left hbelow hleft hpending, List.map_nil, List.append_nil] at hasked
  refine ⟨hanswered, hasked.trans ?_⟩
  rw [unstarted, hstack, List.flatMap_cons, unstarted_of_not_holdsQueue below hbelow]
  rfl

-- Whoever has to act in a dispatch can, and the clock may give whatever answer comes next.
theorem exists_answer {queue : Queue μ ρ} (hstack : queue.stack ≠ [])
    (hframes : queue.stack.any Frame.besidesDispatch = false) {answers : List Reading}
    (hcalm : ∀ answer ∈ answers, (Move.read answer : Move μ ρ).calm = true)
    (hlength : answers.length = queue.unstarted.length) :
    ∃ (move : Move μ ρ) (rest : List Reading), move.quiet = true ∧ queue.Awaits move ∧
      (queue.reading? move).toList.map Prod.snd ++ rest = answers := by
  cases hturn : queue.turn with
  | queue => exact ⟨.advance, answers, rfl, hturn, rfl⟩
  | user => exact ⟨.finish, answers, rfl, ⟨hturn, hstack⟩, rfl⟩
  | clock =>
      rcases queue.stack_of_turn_eq_clock hturn with ⟨_, _, hstack⟩ | ⟨_, _, hstack⟩ | ⟨bound, entry, below, hstack⟩
      · simp [hstack, Frame.besidesDispatch] at hframes
      · simp [hstack, Frame.besidesDispatch] at hframes
      · cases answers with
        | nil => simp [unstarted, hstack] at hlength
        | cons answer rest =>
            refine ⟨.read answer, rest, ?_, hturn, by simp [reading?, hstack, Frame.inquiry?]⟩
            have hanswer := hcalm answer List.mem_cons_self
            cases answer <;> first | rfl | exact hanswer

-- A dispatch can get whatever answers there are, and comes to its end with them.
theorem exists_answered {queue : Queue μ ρ} (hordered : queue.Ordered) (hstacked : queue.Stacked)
    (hbounded : queue.Bounded) {above below : List (Frame μ ρ)} {base : Frame μ ρ}
    (hstack : queue.stack = above ++ base :: below) (hbase : base.holdsQueue = true)
    (hbelow : below.any Frame.holdsQueue = false) (hframes : queue.stack.any Frame.besidesDispatch = false)
    {answers : List Reading} (hcalm : ∀ answer ∈ answers, (Move.read answer : Move μ ρ).calm = true)
    (hlength : answers.length = queue.unstarted.length) :
    ∃ moves : List (Move μ ρ), (∀ move ∈ moves, move.quiet = true) ∧ queue.spans below.length moves = true ∧
      (queue.readings moves).map Prod.snd = answers := by
  have hbusy : queue.busy = true := by simp [busy, hstack, hbase]
  have hdepth : below.length < queue.stack.length := by
    rw [hstack, List.length_append, List.length_cons]
    omega
  obtain ⟨move, rest, hquiet, hawaits, rfl⟩ :=
    exists_answer (List.ne_nil_of_length_pos (by omega)) hframes hcalm hlength
  have hstep := transition_step queue move
  have heffort := hstep.effort hstacked hquiet hawaits
  have hasked := congrArg List.length
    (hstep.answered hordered hstacked hbusy hframes (Move.calm_of_quiet hquiet)).asked
  have hrest : rest.length = (queue.step move).1.unstarted.length := by
    simp only [List.length_append, List.length_map] at hasked hlength
    omega
  rcases hstep.shift.holds hstack hbase with ⟨above, base, hnext, hbase⟩ | hleft
  · obtain ⟨moves, hmoves, hspans, hanswers⟩ := exists_answered (ordered_step hordered move)
      (hstep.stacked hstacked) (hbounded.step hordered hstacked move) hnext hbase hbelow
      (hstep.besidesDispatch hbusy hframes) (List.forall_mem_append.mp hcalm).2 hrest
    refine ⟨move :: moves, List.forall_mem_cons.mpr ⟨hquiet, hmoves⟩, ?_, ?_⟩
    · rw [spans, hspans, Bool.and_true]
      exact decide_eq_true hdepth
    · rw [readings, List.map_append, hanswers]
  · obtain ⟨-, hpending⟩ := hstep.tick_returns hstacked hbounded hbusy (any_besidesTick hframes)
      (Move.calm_of_quiet hquiet) (any_eq_false_of_suffix _ hleft hbelow)
    rw [unstarted_of_left hbelow hleft hpending] at hrest
    obtain rfl := List.eq_nil_of_length_eq_zero hrest
    refine ⟨[move], by simpa using hquiet, ?_, ?_⟩
    · simpa [spans] using ⟨hdepth, hleft.length_le⟩
    · simp [readings]
termination_by queue.effort

-- An answer of a run is given in one of its steps.
theorem exists_step_of_mem_readings {queue : Queue μ ρ} {moves : List (Move μ ρ)} {inquiry : Inquiry μ}
    {reading : Reading} (h : (inquiry, reading) ∈ queue.readings moves) :
    ∃ before after, moves = before ++ .read reading :: after ∧
      (queue.run before).1.reading? (.read reading) = some (inquiry, reading) := by
  induction moves generalizing queue with
  | nil => exact absurd h List.not_mem_nil
  | cons move moves ih =>
      rw [readings, List.mem_append] at h
      rcases h with h | h
      · cases move with
        | read =>
            have hasked := Option.mem_toList.mp h
            obtain ⟨_, -, heq⟩ := Option.map_eq_some_iff.mp hasked
            obtain ⟨-, rfl⟩ := Prod.mk.inj heq
            exact ⟨[], moves, rfl, hasked⟩
        | _ => exact absurd h List.not_mem_nil
      · obtain ⟨before, after, rfl, hasked⟩ := ih h
        exact ⟨move :: before, after, rfl, hasked⟩

-- The queue as it is without one of the messages that wait.
def sparing (queue : Queue μ ρ) (id : MessageId) : Queue μ ρ :=
  let slots := queue.pending.slots.filter fun slot => slot.entry.id ≠ id
  { queue with pending := Lane.settle { queue.pending with slots } }

theorem trims_sparing (queue : Queue μ ρ) (id : MessageId) : queue.pending.Trims (queue.sparing id).pending :=
  Lane.trims_settle _ _ List.filter_sublist

theorem entries_sparing (queue : Queue μ ρ) (id : MessageId) :
    (queue.sparing id).pending.entries = queue.pending.entries.filter fun entry => entry.id ≠ id := by
  simp only [sparing, Lane.entries, Lane.slots_settle, List.filter_map, Function.comp_def]

section sparing

variable {queue : Queue μ ρ} {admitted : List (MessageId × μ)} {past : List (Event μ ρ)}
  (h : queue.Sound admitted past)
include h

theorem Sound.sparing (id : MessageId) : (queue.sparing id).Sound admitted past where
  ordered := {
    pending := h.ordered.pending.trims (queue.trims_sparing id)
    inProgress := h.ordered.inProgress
    pendingKeys := fun slot hslot => h.ordered.pendingKeys slot ((queue.trims_sparing id).slots.subset hslot)
    inProgressKeys := h.ordered.inProgressKeys }
  stacked := ⟨h.stacked.nested, h.stacked.delivering, h.stacked.fair⟩
  bounded := fun bound hbound slot hslot => h.bounded bound hbound slot ((queue.trims_sparing id).slots.subset hslot)
  numbered := ⟨h.numbered.serials, h.numbered.returned⟩
  traced := {
    order := by
      have hunstarted : (queue.sparing id).unstarted.Sublist queue.unstarted :=
        (queue.trims_sparing id).entries.append_left _
      exact ((hunstarted.map _).append_left _).trans h.traced.order
    tokens := h.traced.tokens
    held := h.traced.held
    keys := h.traced.keys
    fresh := h.traced.fresh }

variable {below : List (Frame μ ρ)} (hstack : queue.stack = .gathering :: below)
  (hbelow : below.any Frame.holdsQueue = false) {dispatch : List (Move μ ρ)}
  (hspans : queue.spans below.length dispatch = true) (hcalm : ∀ move ∈ dispatch, move.calm = true)
  {entry : Entry μ} {fault : Fault} {before after : List (Inquiry μ × Reading)}
  (hreadings : queue.readings dispatch = before ++ (.start entry, .failed fault) :: after)
include hstack hbelow hspans hcalm hreadings

-- Without a message whose start time cannot be read the others are still asked for.
theorem Sound.asks_sparing :
    (queue.sparing entry.id).pending.entries.map Inquiry.start = (before ++ after).map Prod.fst := by
  have hasked := (h.dispatch_asks hstack hbelow hspans hcalm).2
  rw [hreadings, List.map_append, eq_comm, List.map_eq_append_iff] at hasked
  obtain ⟨first, rest, hentries, hfirst, hrest⟩ := hasked
  obtain ⟨_, second, rfl, hstart, hsecond⟩ := List.map_eq_cons_iff.mp hrest
  obtain rfl := Inquiry.start.inj hstart
  have hids := h.pending_ids_nodup
  rw [hentries] at hids
  rw [entries_sparing, hentries, filter_id_append hids, List.map_append, List.map_append, hfirst, hsecond]

-- The others can get the answers that they got.
theorem Sound.exists_apart :
    ∃ other : List (Move μ ρ), (∀ move ∈ other, move.quiet = true) ∧
      (queue.sparing entry.id).spans below.length other = true ∧
      (queue.sparing entry.id).readings other = before ++ after := by
  have hasks := h.asks_sparing hstack hbelow hspans hcalm hreadings
  have hframes : (queue.sparing entry.id).stack.any Frame.besidesDispatch = false :=
    any_besidesDispatch hstack hbelow
  have hunstarted : (queue.sparing entry.id).unstarted = (queue.sparing entry.id).pending.entries := by
    have hstack' : (queue.sparing entry.id).stack = .gathering :: below := hstack
    rw [unstarted, hstack', List.flatMap_cons, unstarted_of_not_holdsQueue below hbelow]
    rfl
  have hlength : ((before ++ after).map Prod.snd).length = (queue.sparing entry.id).unstarted.length := by
    have hlength := congrArg List.length hasks
    rw [List.length_map, List.length_map] at hlength
    rw [List.length_map, hunstarted, hlength]
  have hanswers : ∀ answer ∈ (before ++ after).map Prod.snd, (Move.read answer : Move μ ρ).calm = true := by
    intro answer hanswer
    obtain ⟨⟨inquiry, _⟩, hmem, rfl⟩ := List.mem_map.mp hanswer
    have hasked : (inquiry, _) ∈ queue.readings dispatch :=
      hreadings ▸ ((List.sublist_cons_self _ _).append_left before).subset hmem
    obtain ⟨_, _, rfl, -⟩ := exists_step_of_mem_readings hasked
    exact hcalm _ (List.mem_append_right _ List.mem_cons_self)
  have hs := h.sparing entry.id
  obtain ⟨other, hquiet, hspans, hother⟩ := exists_answered hs.ordered hs.stacked hs.bounded
    (hstack.trans (List.nil_append _).symm) rfl hbelow hframes hanswers hlength
  have hasked := (hs.dispatch_asks hstack hbelow hspans fun move hmove => Move.calm_of_quiet (hquiet move hmove)).2
  refine ⟨other, hquiet, hspans, ?_⟩
  rw [← List.zip_unzip ((queue.sparing entry.id).readings other), ← List.zip_unzip (before ++ after)]
  simp only [List.unzip_eq_map, hasked, hasks, hother]

-- A message whose start time cannot be read is to the others as if it had not been there. With the same answers the
-- dispatch hands them over under the same tokens and stamps, and raises the same notices.
theorem Sound.dispatch_apart {other : List (Move μ ρ)}
    (hspans' : (queue.sparing entry.id).spans below.length other = true) (hcalm' : ∀ move ∈ other, move.calm = true)
    (hother : (queue.sparing entry.id).readings other = before ++ after) :
    (queue.sparing entry.id).arrivals other = queue.arrivals dispatch ∧
      dispatches ((queue.sparing entry.id).run other).2 = dispatches (queue.run dispatch).2 ∧
      ∃ first second, unreads (queue.run dispatch).2 = first ++ entry.notice .error none :: second ∧
        unreads ((queue.sparing entry.id).run other).2 = first ++ second := by
  have hanswered := (h.dispatch_asks hstack hbelow hspans hcalm).1
  have hspared := ((h.sparing entry.id).dispatch_asks hstack hbelow hspans' hcalm').1
  have harrivals : (queue.sparing entry.id).arrivals other = queue.arrivals dispatch := by
    rw [hspared.arrived, hanswered.arrived, hother, hreadings, arriving_unread]
    rfl
  refine ⟨harrivals, by rw [hspared.dispatched, hanswered.dispatched, harrivals], before.filterMap unread?,
    after.filterMap unread?, ?_, ?_⟩
  · rw [hanswered.unread, hreadings, List.filterMap_append]
    rfl
  · rw [hspared.unread, hother, List.filterMap_append]

end sparing

-- All that becomes of a message is one notice. It is not handed over and not in progress at any time.
def OnlyTold (queue : Queue μ ρ) (moves : List (Move μ ρ)) (notice : Notice μ ρ) : Prop :=
  ((raises (queue.run moves).2).filter fun other => other.id = notice.id) = [notice] ∧
    (∀ issue ∈ dispatches (queue.run moves).2, issue.1.id ≠ notice.id) ∧
    ∀ before, before <+: moves → ∀ entry ∈ (queue.run before).1.inProgress.entries, entry.id ≠ notice.id

theorem step_unread {queue : Queue μ ρ} {entry : Entry μ} {fault : Fault}
    (hasked : queue.reading? (.read (.failed fault)) = some (.start entry, .failed fault)) :
    entry ∈ queue.unstarted ∧ (queue.step (.read (.failed fault))).2 =
      [.log (.startUnread entry.id fault), .raised .unread (entry.notice .error none)] := by
  obtain ⟨bound, below, hstack⟩ : ∃ bound below, queue.stack = .starting bound entry :: below := by
    obtain ⟨inquiry, hinquiry, heq⟩ := Option.map_eq_some_iff.mp hasked
    obtain ⟨rfl, -⟩ := Prod.mk.inj heq
    cases hstack : queue.stack with
    | nil => simp [hstack] at hinquiry
    | cons frame below => cases frame <;> simp_all [Frame.inquiry?]
  have hturn : queue.turn = .clock := by simp [turn, hstack, Frame.isUser, Frame.awaitsClock]
  exact ⟨by simp [unstarted, hstack], by simp [step, hturn, readFault, hstack]⟩

-- A message whose start time could not be read is told of as failed, and never heard of again.
theorem onlyTold_of_unread (settings : Settings) (observed : Bool) (first rest : List (Move μ ρ)) {entry : Entry μ}
    {fault : Fault} (hasked : ((make settings observed).run first).1.reading? (.read (.failed fault)) =
      some (.start entry, .failed fault)) :
    (make settings observed).OnlyTold (first ++ .read (.failed fault) :: rest)
      (entry.notice .error none : Notice μ ρ) := by
  let notice : Notice μ ρ := entry.notice .error none
  let upto := first ++ [.read (.failed fault)]
  have hs := sound_run settings observed first
  obtain ⟨hunstarted, hevents⟩ := step_unread hasked
  have hmoves : first ++ .read (.failed fault) :: rest = upto ++ rest := by simp [upto]
  have hupto : ((make settings observed).run upto).2 =
      ((make settings observed).run first).2 ++ [.log (.startUnread entry.id fault), .raised .unread notice] := by
    rw [run_append_singleton_snd, hevents]
  have hraised : notice ∈ raises ((make settings observed).run upto).2 := by
    rw [hupto, raises_append]
    exact List.mem_append_right _ List.mem_cons_self
  rw [hmoves]
  have hdispatched : ∀ issue ∈ dispatches ((make settings observed).run (upto ++ rest)).2, issue.1.id ≠ entry.id := by
    intro issue hissue
    rw [run_append, dispatches_append, hupto, dispatches_append, List.append_assoc, List.mem_append] at hissue
    rcases hissue with hbefore | hafter
    · -- It had not been handed over when the clock was asked.
      have hdisjoint := (List.nodup_append.mp hs.ids_nodup).2.2
      exact hdisjoint _ (List.mem_map_of_mem hbefore) _ (List.mem_map_of_mem hunstarted)
    · have hgone : entry.id ∈ (make settings observed).gone upto :=
        List.mem_append_left _ (List.mem_map_of_mem hraised)
      exact fun hid => run_gone_later settings observed upto rest hafter (hid ▸ hgone)
  refine ⟨?_, hdispatched, fun before hbefore tracked htracked => ?_⟩
  · have hids := (List.nodup_append.mp (run_gone settings observed (upto ++ rest)).1).1
    have hmem : notice ∈ raises ((make settings observed).run (upto ++ rest)).2 := by
      rw [run_append, raises_append]
      exact List.mem_append_left _ hraised
    rcases filter_image_of_nodup (fun notice : Notice μ ρ => notice.id) hids entry.id with ⟨-, hnone⟩ | ⟨_, hother, -⟩
    · exact absurd rfl (hnone notice hmem)
    · obtain rfl := List.mem_singleton.mp (hother ▸ List.mem_filter.mpr ⟨hmem, decide_eq_true rfl⟩)
      exact hother
  · obtain ⟨after, hafter⟩ := hbefore
    obtain ⟨slot, hslot, rfl⟩ := List.mem_map.mp htracked
    apply hdispatched slot.issue
    rw [← hafter, run_append, dispatches_append]
    exact List.mem_append_left _ ((sound_run settings observed before).issue_mem hslot)

-- What a tick makes of the answers of the clock. Before the dispatch it asks once, if a deadline is enabled, and if
-- it gets no answer no message is timed out and the dispatch begins with the queue as it was. The dispatch asks
-- for each message that waits then, in the order of admission. What is put in progress, handed over and told of as
-- failed are as the answers say, and a message that is told of as failed is to the others as if it had not been there.
structure Contains (queue swept : Queue μ ρ) (admitted : List (MessageId × μ)) (sweep dispatch : List (Move μ ρ)) :
    Prop where
  reached : (queue.run (.call .tick :: sweep)).1 = swept
  gathering : swept.stack = .gathering :: queue.stack
  asksOnce : if queue.limits.waitDeadline = none ∧ queue.limits.processingDeadline = none
    then queue.readings (.call .tick :: sweep) = []
    else ∃ reading, queue.readings (.call .tick :: sweep) = [(.sweep, reading)]
  unswept : ∀ fault, (.sweep, .failed fault) ∈ queue.readings (.call .tick :: sweep) →
    swept = { queue with stack := .gathering :: queue.stack } ∧
      timeouts (queue.run (.call .tick :: (sweep ++ dispatch))).2 = []
  inOrder : (swept.pending.entries.map Entry.labelled).Sublist admitted
  asksEach : (swept.readings dispatch).map Prod.fst = swept.pending.entries.map .start
  answered : swept.Answered (swept.run dispatch).1 (swept.run dispatch).2 (swept.readings dispatch)
    (swept.arrivals dispatch)
  apart : ∀ entry fault before after, swept.readings dispatch = before ++ (.start entry, .failed fault) :: after →
    let spared := swept.sparing entry.id
    (∃ other, (∀ move ∈ other, move.quiet = true) ∧ spared.spans queue.stack.length other = true ∧
      spared.readings other = before ++ after) ∧
    ∀ other, spared.spans queue.stack.length other = true → (∀ move ∈ other, move.calm = true) →
      spared.readings other = before ++ after →
        spared.arrivals other = swept.arrivals dispatch ∧
        dispatches (spared.run other).2 = dispatches (swept.run dispatch).2 ∧
        ∃ first second, unreads (swept.run dispatch).2 = first ++ entry.notice .error none :: second ∧
          unreads (spared.run other).2 = first ++ second

-- A tick from its call to its return.
theorem Sound.tick_contains {queue : Queue μ ρ} {admitted : List (MessageId × μ)} {past : List (Event μ ρ)}
    (h : queue.Sound admitted past) (hturn : queue.turn = .user) (hfree : queue.busy = false)
    (halive : queue.dropped = false) {during : List (Move μ ρ)}
    (hspans : (queue.step (.call .tick)).1.spans queue.stack.length during = true)
    (hcalm : ∀ move ∈ during, move.calm = true) :
    ∃ sweep dispatch swept, during = sweep ++ dispatch ∧ queue.Contains swept admitted sweep dispatch := by
  have hstarted : (queue.step (.call .tick)).1.Sound _ _ := h.step (.call .tick)
  obtain ⟨sweep, dispatch, rfl, hend, hasks, hunread⟩ :=
    tick_asks hstarted.stacked hturn hfree halive hspans hcalm
  have hcalm' := (List.forall_mem_append.mp hcalm).2
  obtain ⟨frame, -, hframe, -, htick⟩ := step_tick queue hturn hfree halive
  have hstack : (queue.step (.call .tick)).1.stack = [] ++ frame :: queue.stack := by rw [htick]; rfl
  have hoccupied := (occupied_of_spans hstack hframe hspans).1
  rw [occupied_append, Bool.and_eq_true] at hoccupied
  have hs := h.run (.call .tick :: sweep)
  rw [admissions_of_occupied hfree (.inl rfl) hoccupied.1, List.append_nil] at hs
  have hrest : ((queue.step (.call .tick)).1.run sweep).1.spans queue.stack.length dispatch = true :=
    spans_of_append hspans
  obtain ⟨hanswered, hasked⟩ := hs.dispatch_asks hend hfree hrest hcalm'
  refine ⟨sweep, dispatch, _, rfl, rfl, hend, ?_, fun fault hfault => ⟨?_, ?_⟩, hs.lane_inOrder .pending, hasked,
    hanswered, fun entry fault before after hreadings => ⟨?_, fun other hspans' hcalm'' hother => ?_⟩⟩
  · simpa only [scans_eq_nil_iff] using hasks
  · rw [hunread fault hfault]
  · have hevents : timeouts (queue.run (.call .tick :: (sweep ++ dispatch))).2 =
        timeouts (queue.run (.call .tick :: sweep)).2 ++
          timeouts ((queue.run (.call .tick :: sweep)).1.run dispatch).2 := by
      rw [← List.cons_append, run_append, timeouts, List.filterMap_append]
      rfl
    rw [hevents, hanswered.swept, hunread fault hfault]
    rfl
  · exact hs.exists_apart hend hfree hrest hcalm' hreadings
  · exact hs.dispatch_apart hend hfree hrest hcalm' hreadings hspans' hcalm'' hother

-- A failure of the clock is contained in what has asked for the time. An enqueue asks once, and if it gets no answer
-- the message comes back and nothing else has changed. A tick goes on with each of its answers by itself. No other
-- call asks the clock, unless user code that it calls enqueues or ticks.
theorem run_reads (settings : Settings) (observed : Bool) (past : List (Move μ ρ)) :
    let queue := ((make settings observed).run past).1
    let depth := queue.stack.length
    queue.turn = .user →
      (queue.busy = false → queue.dropped = false → ∀ message during,
        (queue.step (.call (.enqueue message))).1.spans depth during = true →
          ∃ reading, queue.readings (.call (.enqueue message) :: during) = [(.admission message, reading)] ∧
            ∀ fault, reading = .failed fault → queue.run (.call (.enqueue message) :: during) =
              (queue, [.log (.enqueueUnread fault), .returned (.rejected { message, fault })])) ∧
      (queue.busy = false → queue.dropped = false → ∀ during,
        (queue.step (.call .tick)).1.spans depth during = true → (∀ move ∈ during, move.calm = true) →
          ∃ sweep dispatch swept, during = sweep ++ dispatch ∧
            queue.Contains swept ((make settings observed).admissions past) sweep dispatch ∧
            ∀ entry fault, (.start entry, .failed fault) ∈ swept.readings dispatch → ∀ later,
              (make settings observed).OnlyTold (past ++ .call .tick :: (during ++ later))
                (entry.notice .error none : Notice μ ρ)) ∧
      ∀ call, (Move.call call : Move μ ρ).asks = false → ∀ during,
        (queue.step (.call call)).1.spans depth during = true →
          call = .drain ∨ (∀ move ∈ during, move.asks = false) → queue.readings (.call call :: during) = [] := by
  intro queue depth hturn
  have hs : queue.Sound ((make settings observed).admissions past) _ := sound_run settings observed past
  refine ⟨fun hfree halive message during hspans => enqueue_reads hturn hfree halive message hspans,
    fun hfree halive during hspans hcalm => ?_,
    fun call hcall during hspans hasks => other_reads hturn hcall hspans hasks⟩
  obtain ⟨sweep, dispatch, swept, rfl, hcontains⟩ := hs.tick_contains hturn hfree halive hspans hcalm
  refine ⟨sweep, dispatch, swept, rfl, hcontains, fun entry fault hfailed later => ?_⟩
  obtain ⟨before, after, rfl, hasked⟩ := exists_step_of_mem_readings hfailed
  have hreached :
      ((make settings observed).run (past ++ .call .tick :: (sweep ++ before))).1 = (swept.run before).1 := by
    rw [← hcontains.reached, run_append, ← List.cons_append, run_append]
  have htold := onlyTold_of_unread settings observed (past ++ .call .tick :: (sweep ++ before)) (after ++ later)
    (hreached ▸ hasked)
  simpa only [List.append_assoc, List.cons_append] using htold

-- A tick at 12 without a time for its sweep, and without one for the second of three messages.
def unreadTwice : List (Move String String) :=
  [.read (.failed (.clock "gone")), .advance, .advance, .read (.time 12), .finish, .advance,
    .read (.failed (.clock "gone")), .advance, .finish, .advance, .advance, .read (.time 13), .finish, .advance]

-- The first message is overdue but handed over, and so is the third. The second one is told of as failed.
theorem run_reads_unreadTwice :
    let queue : Queue String String := ((make { limits := { wait := some 10 } } true).run threeWaiting).1
    let gone : Fault := .clock "gone"
    let second : Notice String String := { id := ⟨1⟩, message := "b", outcome := .error, reason := none }
    queue.turn = .user ∧ queue.busy = false ∧ queue.dropped = false ∧
      (queue.step (.call .tick)).1.spans 0 unreadTwice = true ∧ (∀ move ∈ unreadTwice, move.calm = true) ∧
      (∃ sweep dispatch swept, unreadTwice = sweep ++ dispatch ∧
        queue.Contains swept [(⟨0⟩, "a"), (⟨1⟩, "b"), (⟨2⟩, "c")] sweep dispatch) ∧
      (make { limits := { wait := some 10 } } true).OnlyTold (threeWaiting ++ .call .tick :: unreadTwice) second ∧
      queue.run [.call (.enqueue "d"), .read (.failed gone)] =
        (queue, [.log (.enqueueUnread gone), .returned (.rejected { message := "d", fault := gone })]) ∧
      queue.readings (.call .drain :: threeNotices) = [] := by
  intro queue gone second
  obtain ⟨henqueue, htick, hother⟩ := run_reads { limits := { wait := some 10 } } true threeWaiting rfl
  have hspans : (queue.step (.call .tick)).1.spans 0 unreadTwice = true := by decide
  have hcalm : ∀ move ∈ unreadTwice, move.calm = true := by decide
  obtain ⟨sweep, dispatch, swept, hduring, hcontains, htold⟩ := htick rfl rfl unreadTwice hspans hcalm
  obtain ⟨reading, hreading, hrejected⟩ := henqueue rfl rfl "d" [.read (.failed gone)] rfl
  obtain ⟨-, rfl⟩ := Prod.mk.inj (List.cons.inj hreading).1
  refine ⟨rfl, rfl, rfl, hspans, hcalm, ⟨sweep, dispatch, swept, hduring, hcontains⟩, ?_, hrejected gone rfl,
    hother .drain rfl threeNotices rfl (.inl rfl)⟩
  -- All that is asked for after the sweep is asked for by the dispatch.
  have hall : queue.readings (.call .tick :: unreadTwice) =
      [(.sweep, .failed gone), (.start { id := ⟨0⟩, message := "a", enqueuedAt := 0 }, .time 12),
        (.start { id := ⟨1⟩, message := "b", enqueuedAt := 5 }, .failed gone),
        (.start { id := ⟨2⟩, message := "c", enqueuedAt := 5 }, .time 13)] := by decide
  have henabled : ¬(queue.limits.waitDeadline = none ∧ queue.limits.processingDeadline = none) := by decide
  obtain ⟨reading, hsweep⟩ := (if_neg henabled).mp hcontains.asksOnce
  rw [hduring, ← List.cons_append, readings_append, hsweep, hcontains.reached,
    List.singleton_append] at hall
  obtain ⟨-, hdispatch⟩ := List.cons.inj hall
  have hsecond := htold { id := ⟨1⟩, message := "b", enqueuedAt := 5 } gone (by rw [hdispatch]; simp) []
  rwa [List.append_nil] at hsecond

end Queue

end DeadlineQueue
