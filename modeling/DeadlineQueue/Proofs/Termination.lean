import DeadlineQueue.Proofs.Cancelling
import Mathlib.Order.OrderIsoNat

namespace DeadlineQueue

variable {μ ρ : Type}

namespace Queue

-- While a call holds the queue no enqueue begins.
theorem Transition.closed_of_busy {queue next : Queue μ ρ} {move : Move μ ρ} {events : List (Event μ ρ)}
    (h : Transition queue move next events) (hbusy : queue.busy = true) (hclosed : queue.Closed) : next.Closed := by
  cases h with
  | retire hstack | cancel hstack | startUnread fault hstack =>
      apply Closed.raise
      simp_all [Closed]
  | complete =>
      apply Closed.raise
      simpa [Closed] using hclosed
  | clockPanic text =>
      have hleft := (unwind_suffix queue queue.stack text).subset
      exact fun frame hframe => hclosed frame (hleft hframe)
  | panic text hstack =>
      have hleft := (unwind_suffix_of_cons queue hstack text).subset
      exact fun frame hframe => hclosed frame (hleft hframe)
  | _ => simp_all [Closed]

theorem Closed.run_occupied {queue : Queue μ ρ} (hclosed : queue.Closed) {moves : List (Move μ ρ)}
    (hoccupied : queue.occupied moves = true) : queue.admissions moves = [] := by
  induction moves generalizing queue with
  | nil => rfl
  | cons move moves ih =>
      obtain ⟨hbusy, hoccupied⟩ := Bool.and_eq_true_iff.mp hoccupied
      rw [admissions, hclosed.accepted, ih ((transition_step queue move).closed_of_busy hbusy hclosed) hoccupied]
      rfl

theorem closed_of_free {queue : Queue μ ρ} (hfree : queue.busy = false) : queue.Closed := by
  intro frame hframe
  have hholds := List.any_eq_false.mp hfree frame hframe
  cases frame with
  | enqueuing => exact absurd rfl hholds
  | _ => rfl

-- Nothing is admitted in the course of a tick or of a drain.
theorem closed_of_call {queue : Queue μ ρ} (hfree : queue.busy = false) {call : Call μ ρ}
    (hcall : call = .tick ∨ call = .drain) : (queue.step (.call call)).1.Closed :=
  (transition_step queue (.call call)).closed (by rcases hcall with rfl | rfl <;> rfl) (closed_of_free hfree)

theorem admissions_of_occupied {queue : Queue μ ρ} (hfree : queue.busy = false) {call : Call μ ρ}
    (hcall : call = .tick ∨ call = .drain) {during : List (Move μ ρ)}
    (hoccupied : (queue.step (.call call)).1.occupied during = true) :
    queue.admissions (.call call :: during) = [] := by
  rw [admissions, (closed_of_free hfree).accepted, (closed_of_call hfree hcall).run_occupied hoccupied]
  rfl

-- Dispatch from whatever state.
theorem run_fifo {queue : Queue μ ρ} (hs : queue.Stacked) (moves : List (Move μ ρ)) :
    ((dispatches (queue.run moves).2).map labelOf ++ (queue.run moves).1.unstarted.map Entry.labelled).Sublist
      (queue.unstarted.map Entry.labelled ++ queue.admissions moves) := by
  induction moves generalizing queue with
  | nil => simp [run_nil, admissions, dispatches]
  | cons move moves ih =>
      have hstep := transition_step queue move
      have hrest := ih (hstep.stacked hs)
      rw [run_cons, admissions, dispatches_append, List.map_append, List.append_assoc]
      refine (hrest.append_left _).trans ?_
      rw [← List.append_assoc, ← List.append_assoc]
      exact (hstep.fifo hs).append_right _

-- While nothing is admitted, the processor gets no more than what waits, and no more is raised than what
-- is tracked.
theorem bounds_of_free {queue : Queue μ ρ} (hordered : queue.Ordered) (hstacked : queue.Stacked)
    (hfree : queue.busy = false) {moves : List (Move μ ρ)} (hadmissions : queue.admissions moves = []) :
    (dispatches (queue.run moves).2).length ≤ queue.pending.size ∧
      (raises (queue.run moves).2).length ≤ queue.size := by
  constructor
  · have hlength := (run_fifo hstacked moves).length_le
    have hunstarted : queue.unstarted = queue.pending.entries := by
      rw [unstarted, unstarted_of_not_holdsQueue queue.stack hfree, List.nil_append]
    rw [hadmissions, hunstarted, List.append_nil, List.length_append, List.length_map] at hlength
    have hsize : (queue.pending.entries.map Entry.labelled).length = queue.pending.size := by
      simp [Lane.entries, Lane.size]
    omega
  · have hledger := congrArg Multiset.card (run_ledger queue hordered moves)
    have houtbox := congrArg List.length (run_outbox queue moves)
    have hcarried := flatMap_of_not_holdsQueue queue.stack Frame.carried
      (fun frame hframe => by cases frame <;> simp_all [Frame.holdsQueue]) hfree
    have hdelivered : (delivered (queue.run moves).2).card = (deliveries (queue.run moves).2).length := by
      simp [delivered, deliveries, census]
    rw [hadmissions] at hledger
    simp only [ledger, hcarried, Multiset.card_add, Lane.card_census, hdelivered] at hledger
    simp only [census, Multiset.coe_card, List.length_map, List.length_nil] at hledger
    simp only [List.length_append] at houtbox
    unfold size
    omega

-- A call that holds the queue lies right above these calls.
structure Engaged (queue : Queue μ ρ) (below : List (Frame μ ρ)) : Prop where
  ordered : queue.Ordered
  stacked : queue.Stacked
  closed : queue.Closed
  engaged : ∃ above base, queue.stack = above ++ base :: below ∧ base.holdsQueue = true

theorem Engaged.busy {queue : Queue μ ρ} {below : List (Frame μ ρ)} (h : queue.Engaged below) : queue.busy = true := by
  obtain ⟨above, base, hstack, hbase⟩ := h.engaged
  simp [Queue.busy, hstack, hbase]

theorem Engaged.step {queue : Queue μ ρ} {below : List (Frame μ ρ)} (h : queue.Engaged below) (move : Move μ ρ) :
    (queue.step move).1.Engaged below ∨ (queue.step move).1.stack.length ≤ below.length := by
  have hstep := transition_step queue move
  obtain ⟨above, base, hstack, hbase⟩ := h.engaged
  rcases hstep.shift.holds hstack hbase with hengaged | hleft
  · exact .inl ⟨ordered_step h.ordered move, hstep.stacked h.stacked, hstep.closed_of_busy h.busy h.closed, hengaged⟩
  · exact .inr hleft.length_le

-- How often user code can still be called, if nothing is admitted.
def potential (queue : Queue μ ρ) : Nat :=
  queue.unstarted.length + queue.ledger.card

theorem Transition.potential {queue next : Queue μ ρ} {move : Move μ ρ} {events : List (Event μ ρ)}
    (h : Transition queue move next events) (hordered : queue.Ordered) (hstacked : queue.Stacked)
    (hclosed : queue.Closed) :
    next.potential + (dispatches events).length + (deliveries events).length ≤ queue.potential := by
  have hfifo := (h.fifo hstacked).length_le
  have hledger := congrArg Multiset.card (h.ledger hordered)
  have hdelivered : (delivered events).card = (deliveries events).length := by simp [delivered, deliveries, census]
  rw [hclosed.accepted] at hfifo hledger
  simp only [List.length_append, List.length_map, List.length_nil] at hfifo
  simp only [Multiset.card_add, hdelivered, census_nil, Multiset.card_zero] at hledger
  unfold Queue.potential
  omega

-- The innermost user code, with what lies below it.
def caller (queue : Queue μ ρ) : List (Frame μ ρ) :=
  queue.stack.dropWhile fun frame => !frame.isUser

theorem caller_suffix (queue : Queue μ ρ) : queue.caller <:+ queue.stack :=
  List.dropWhile_suffix _

theorem caller_of_turn {queue : Queue μ ρ} (hturn : queue.turn = .user) : queue.caller = queue.stack := by
  unfold caller
  cases hstack : queue.stack with
  | nil => rfl
  | cons frame rest =>
      have huser := (turn_eq_user_iff queue).mp hturn frame (by rw [hstack]; rfl)
      rw [List.dropWhile_cons_of_neg (by simp [huser])]

theorem caller_raise (queue : Queue μ ρ) (source : Source) (notice : Notice μ ρ) :
    (queue.raise source notice).1.caller = queue.caller := by
  unfold caller
  rw [stack_raise]
  split
  · rfl
  · rw [List.dropWhile_cons_of_pos rfl]

-- Where no user code is called, the callers that there are can be left only.
theorem Transition.caller {queue next : Queue μ ρ} {move : Move μ ρ} {events : List (Event μ ρ)}
    (h : Transition queue move next events) (hbusy : queue.busy = true) (hdispatches : dispatches events = [])
    (hdeliveries : deliveries events = []) : next.caller <:+ queue.caller := by
  cases h with
  | retire hstack | cancel hstack | startUnread fault hstack =>
      rw [caller_raise]
      simp [Queue.caller, hstack, Frame.isUser]
  | complete =>
      rw [caller_raise]
      simp [Queue.caller, Frame.isUser]
  | start => simp [dispatches, List.filterMap_cons] at hdispatches
  | notify | skip => simp [deliveries] at hdeliveries
  | clockPanic text => exact List.dropWhile_suffix _
  | panic text hstack huser =>
      have hcaller : queue.caller = queue.stack := by simp [Queue.caller, hstack, huser]
      rw [hcaller]
      exact (List.dropWhile_suffix _).trans (unwind_suffix_of_cons queue hstack text)
  | @finish frame rest hstack huser =>
      have hcaller : queue.caller = queue.stack := by simp [Queue.caller, hstack, huser]
      rw [hcaller, hstack]
      exact (List.dropWhile_suffix _).trans (List.suffix_cons frame rest)
  | _ => simp_all [Queue.caller, Frame.isUser]

theorem effort_clockPanic (queue : Queue μ ρ) (text : String) (hturn : queue.turn = .clock) :
    (queue.unwind queue.stack text).1.effort < queue.effort := by
  obtain ⟨frame, rest, hstack, hframe⟩ := queue.exists_awaitsClock hturn
  have hpositive : 0 < frame.effort queue.held := by cases frame <;> simp_all [Frame.awaitsClock, Frame.effort]
  have huser : frame.isUser = false := by cases frame <;> simp_all [Frame.awaitsClock, Frame.isUser]
  obtain ⟨left, hleft⟩ := List.dropWhile_suffix (fun frame : Frame μ ρ => !frame.isUser) (l := rest)
  have hsum := congrArg (fun stack : List (Frame μ ρ) => (stack.map (Frame.effort queue.held)).sum) hleft
  simp only [List.map_append, List.sum_append] at hsum
  have hleaves : queue.stack.dropWhile (fun frame => !frame.isUser) = rest.dropWhile fun frame => !frame.isUser := by
    rw [hstack, List.dropWhile_cons_of_pos (by simp [huser])]
  simp only [effort, unwind, hleaves]
  simp only [hstack, List.map_cons, List.sum_cons]
  omega

-- What the queue and the clock do brings the running calls nearer to their end.
theorem Transition.effort_of_turn {queue next : Queue μ ρ} {move : Move μ ρ} {events : List (Event μ ρ)}
    (h : Transition queue move next events) (hs : queue.Stacked) (hawaits : queue.Awaits move)
    (hturn : queue.turn ≠ .user) : next.effort < queue.effort := by
  cases move with
  | advance => exact h.effort hs rfl hawaits
  | read reading =>
      cases reading with
      | time | failed => exact h.effort hs rfl hawaits
      | panicked text =>
          cases h with
          | idle _ hidle => exact absurd hawaits hidle
          | clockPanic _ hclock => exact queue.effort_clockPanic text hclock
  | call => exact absurd hawaits hturn
  | finish | panic => exact absurd hawaits.1 hturn

-- The state after so many of the moves of an endless schedule.
def after (queue : Queue μ ρ) (schedule : Nat → Move μ ρ) (count : Nat) : Queue μ ρ :=
  (queue.run ((List.range count).map schedule)).1

theorem after_succ (queue : Queue μ ρ) (schedule : Nat → Move μ ρ) (count : Nat) :
    queue.after schedule (count + 1) = ((queue.after schedule count).step (schedule count)).1 := by
  simp only [after, List.range_succ, List.map_append, run_append, List.map_cons, List.map_nil, run_cons, run_nil]

-- How the calls above a depth go on until they are left. Each move is made by whoever has to make it. User code
-- does not go on for ever: some time after it has its turn it is left, or it waits for what it has called.
structure Proceeds (queue : Queue μ ρ) (depth : Nat) (schedule : Nat → Move μ ρ) : Prop where
  awaits : ∀ now, depth < (queue.after schedule now).stack.length →
    (queue.after schedule now).Awaits (schedule now)
  yields : ∀ now, depth < (queue.after schedule now).stack.length → (queue.after schedule now).turn = .user →
    ∃ later, now < later ∧
      ((queue.after schedule later).stack.length < (queue.after schedule now).stack.length ∨
        ∀ count, later ≤ count → (queue.after schedule now).stack.length < (queue.after schedule count).stack.length)

-- Lists that get shorter from their heads only stay the same some time.
theorem exists_settled {α : Type} (lists : Nat → List α) {start : Nat}
    (h : ∀ count, start ≤ count → lists (count + 1) <:+ lists count) :
    ∃ stop, ∀ count, stop ≤ count → lists count = lists stop := by
  have hanti : Antitone fun count => (lists (start + count)).length :=
    antitone_nat_of_succ_le fun count => (h (start + count) (Nat.le_add_right _ _)).length_le
  obtain ⟨stop, hstop⟩ := WellFoundedLT.antitone_chain_condition hanti
  refine ⟨start + stop, fun count hcount => ?_⟩
  induction count, hcount using Nat.le_induction with
  | base => rfl
  | succ count hcount ih =>
      have hlength (now : Nat) (hnow : start + stop ≤ now) : (lists now).length = (lists (start + stop)).length := by
        have hsame := hstop (now - start) (by omega)
        rwa [Nat.add_sub_cancel' (by omega), eq_comm] at hsame
      rw [← ih]
      apply (h count (by omega)).eq_of_length
      rw [hlength (count + 1) (by omega), hlength count hcount]

instance (queue : Queue μ ρ) (move : Move μ ρ) : Decidable (queue.Awaits move) :=
  match move with
  | .advance => inferInstanceAs (Decidable (queue.turn = .queue))
  | .read _ => inferInstanceAs (Decidable (queue.turn = .clock))
  | .call _ => inferInstanceAs (Decidable (queue.turn = .user))
  | .finish | .panic _ => inferInstanceAs (Decidable (queue.turn = .user ∧ queue.stack ≠ []))

section Engaged

variable {queue : Queue μ ρ} {below : List (Frame μ ρ)} {schedule : Nat → Move μ ρ}

-- If no user code is left any more, some time none has its turn any more.
theorem Proceeds.turns_end (h : queue.Proceeds below.length schedule)
    (hlasts : ∀ count, below.length < (queue.after schedule count).stack.length) {start : Nat}
    (hcaller : ∀ count, start ≤ count → (queue.after schedule count).caller = (queue.after schedule start).caller) :
    ∃ stop, ∀ count, stop ≤ count → (queue.after schedule count).turn ≠ .user := by
  by_contra hcalled
  push Not at hcalled
  obtain ⟨now, hnow, hturn⟩ := hcalled start
  have hstack := caller_of_turn hturn
  rw [hcaller now hnow] at hstack
  obtain ⟨later, hlater, hleft | hwaits⟩ := h.yields now (hlasts now) hturn
  · have hkept := (queue.after schedule later).caller_suffix.length_le
    rw [hcaller later (hnow.trans hlater.le), hstack] at hkept
    omega
  · obtain ⟨again, hagain, hturn⟩ := hcalled (max start later)
    have hsame := caller_of_turn hturn
    rw [hcaller again ((le_max_left _ _).trans hagain), hstack] at hsame
    have hlonger := hwaits again ((le_max_right _ _).trans hagain)
    rw [hsame] at hlonger
    exact absurd hlonger (Nat.lt_irrefl _)

-- The call that holds the queue is left some time. If it were not, first no user code would be called any more,
-- then none would be left, then none would have its turn, and then each move would bring the running calls
-- nearer to their end.
theorem Engaged.exists_left (h : queue.Engaged below) (hproceeds : queue.Proceeds below.length schedule) :
    ∃ count, (queue.after schedule count).stack.length ≤ below.length := by
  by_contra hlasts
  push Not at hlasts
  have hengaged (count : Nat) : (queue.after schedule count).Engaged below := by
    induction count with
    | zero => exact h
    | succ count ih =>
        have hlonger := hlasts (count + 1)
        rw [after_succ] at hlonger ⊢
        exact (ih.step (schedule count)).resolve_right (Nat.not_le.mpr hlonger)
  have hstep (count : Nat) : Transition (queue.after schedule count) (schedule count)
      (queue.after schedule (count + 1)) ((queue.after schedule count).step (schedule count)).2 := by
    rw [after_succ]
    exact transition_step _ _
  have hpotential (count : Nat) := (hstep count).potential (hengaged count).ordered (hengaged count).stacked
    (hengaged count).closed
  have hanti : Antitone fun count => (queue.after schedule count).potential :=
    antitone_nat_of_succ_le fun count => Nat.le_of_add_right_le (Nat.le_of_add_right_le (hpotential count))
  obtain ⟨first, hfirst⟩ := WellFoundedLT.antitone_chain_condition hanti
  have hcaller (count : Nat) (hcount : first ≤ count) :
      (queue.after schedule (count + 1)).caller <:+ (queue.after schedule count).caller := by
    have hspent := hpotential count
    rw [← hfirst count hcount, ← hfirst (count + 1) (hcount.trans (Nat.le_succ count))] at hspent
    apply (hstep count).caller (hengaged count).busy
    · exact List.eq_nil_of_length_eq_zero (by omega)
    · exact List.eq_nil_of_length_eq_zero (by omega)
  obtain ⟨second, hsecond⟩ := exists_settled (fun count => (queue.after schedule count).caller) hcaller
  obtain ⟨third, hthird⟩ := hproceeds.turns_end hlasts hsecond
  apply not_strictAnti_of_wellFoundedLT fun count => (queue.after schedule (third + count)).effort
  exact strictAnti_nat_of_succ_lt fun count => (hstep (third + count)).effort_of_turn (hengaged _).stacked
    (hproceeds.awaits _ (hlasts _)) (hthird _ (Nat.le_add_right _ _))

end Engaged

-- The moves up to the first time at which a call is left are those that it lasts for.
theorem spans_of_left (queue : Queue μ ρ) (schedule : Nat → Move μ ρ) {depth count : Nat}
    (hlasts : ∀ earlier, earlier < count → depth < (queue.after schedule earlier).stack.length)
    (hleft : (queue.after schedule count).stack.length ≤ depth) :
    queue.spans depth ((List.range count).map schedule) = true := by
  induction count generalizing queue schedule with
  | zero => exact decide_eq_true hleft
  | succ count ih =>
      have hafter (later : Nat) : queue.after schedule (later + 1) =
          (queue.step (schedule 0)).1.after (schedule ∘ Nat.succ) later := by
        simp only [after, List.range_succ_eq_map, List.map_cons, List.map_map, run_cons]
      rw [List.range_succ_eq_map, List.map_cons, List.map_map, spans, Bool.and_eq_true]
      refine ⟨decide_eq_true (hlasts 0 (Nat.succ_pos count)), ih _ _ (fun earlier hearlier => ?_) ?_⟩
      · rw [← hafter]
        exact hlasts (earlier + 1) (Nat.succ_lt_succ hearlier)
      · rwa [← hafter]

-- A tick or a drain that has been called holds the queue, if it has not returned at once.
theorem stack_step_call {queue : Queue μ ρ} (hturn : queue.turn = .user) (hfree : queue.busy = false)
    (halive : queue.dropped = false) {call : Call μ ρ} (hcall : call = .tick ∨ call = .drain) :
    (queue.step (.call call)).1.stack = queue.stack ∨
      ∃ frame : Frame μ ρ, (queue.step (.call call)).1.stack = frame :: queue.stack ∧ frame.holdsQueue = true := by
  rcases hcall with rfl | rfl
  · obtain ⟨frame, -, hframe, -, htick⟩ := step_tick queue hturn hfree halive
    exact .inr ⟨frame, by rw [htick], hframe⟩
  · rw [step_drain queue hturn hfree halive]
    split
    · exact .inl rfl
    · exact .inr ⟨_, rfl, rfl⟩

theorem length_cancellations (queue : Queue μ ρ) : queue.cancellations.length = queue.size := by
  simp [cancellations, Lane.entries, size, Lane.size, Nat.add_comm]

-- A tick and a drain always end, however the notifier and the processor go on in them, and whatever they report.
-- In the course of a tick no more is handed to the processor than was waiting when it was called, and in the
-- course of either call no more is raised than was tracked, which is what a drain does raise.
theorem run_terminates (settings : Settings) (observed : Bool) (past : List (Move μ ρ)) :
    let queue := ((make settings observed).run past).1
    let depth := queue.stack.length
    queue.turn = .user → queue.busy = false → queue.dropped = false →
      ∀ call : Call μ ρ, call = .tick ∨ call = .drain →
        let started := (queue.step (.call call)).1
        (∀ during, started.occupied during = true →
          let told := (queue.run (.call call :: during)).2
          (dispatches told).length ≤ queue.pending.size ∧ (raises told).length ≤ queue.size) ∧
        (call = .drain → ∀ during, started.spans depth during = true → (∀ move ∈ during, move.calm = true) →
          (raises (queue.run (.call call :: during)).2).length = queue.size) ∧
        ∀ schedule, started.Proceeds depth schedule →
          ∃ count, started.spans depth ((List.range count).map schedule) = true := by
  intro queue depth hturn hfree halive call hcall started
  have hs : queue.Sound ((make settings observed).admissions past) _ := sound_run settings observed past
  have hstarted : started.Sound _ _ := hs.step (.call call)
  have hclosed : started.Closed := closed_of_call hfree hcall
  refine ⟨fun during hoccupied => ?_, fun hdrain during hspans hcalm => ?_, fun schedule hproceeds => ?_⟩
  · exact bounds_of_free hs.ordered hs.stacked hfree (admissions_of_occupied hfree hcall hoccupied)
  · subst hdrain
    rw [raises, (drain_cancels hturn hfree halive hspans hcalm).2, List.map_map, List.length_map, length_cancellations]
  · have hleft : ∃ count, (started.after schedule count).stack.length ≤ depth := by
      rcases stack_step_call hturn hfree halive hcall with hstack | ⟨frame, hstack, hframe⟩
      · exact ⟨0, (congrArg List.length hstack).le⟩
      · have hengaged : started.Engaged queue.stack :=
          ⟨hstarted.ordered, hstarted.stacked, hclosed, [], frame, hstack, hframe⟩
        exact hengaged.exists_left hproceeds
    refine ⟨Nat.find hleft, started.spans_of_left schedule (fun earlier hearlier => ?_) (Nat.find_spec hleft)⟩
    exact Nat.not_le.mp (Nat.find_min hleft hearlier)

-- Two messages are in progress and a third one waits.
def twoStarted : List (Move String String) :=
  [.call (.enqueue "a"), .read (.time 0), .call (.enqueue "b"), .read (.time 0), .call .tick, .advance, .advance,
    .read (.time 1), .finish, .advance, .read (.time 1), .finish, .advance, .call (.enqueue "c"), .read (.time 1)]

-- A tick in which the processor, with the third message, reports the first one, the notifier, told of the first,
-- reports the second one, and, told of the second, reports the third one.
def eachOther : List (Move String String) :=
  [.advance, .advance, .read (.time 2), .call (.complete ⟨2, ⟨0⟩⟩ .success none), .advance,
    .call (.complete ⟨3, ⟨1⟩⟩ .success none), .advance, .finish, .advance,
    .call (.complete ⟨5, ⟨2⟩⟩ .success none), .advance, .finish, .advance, .finish, .advance, .advance, .finish,
    .advance]

-- A drain that tells the notifier three times.
def threeNotices : List (Move String String) :=
  (List.replicate 3 [.advance, .advance, .finish, .advance]).flatten ++ [.advance]

theorem run_terminates_eachOther :
    let queue : Queue String String := ((make {} true).run twoStarted).1
    let started := (queue.step (.call .tick)).1
    let schedule : Nat → Move String String := fun now => eachOther.getD now .advance
    queue.turn = .user ∧ queue.busy = false ∧ queue.dropped = false ∧
      started.occupied eachOther = true ∧ (raises (queue.run (.call .tick :: eachOther)).2).length ≤ 3 ∧
      started.Proceeds 0 schedule ∧ (∃ count, started.spans 0 ((List.range count).map schedule) = true) ∧
      (raises (queue.run (.call .drain :: threeNotices)).2).length = 3 := by
  intro queue started schedule
  have hoccupied : started.occupied eachOther = true := by decide
  have hawaits : ∀ now < 18, (started.after schedule now).Awaits (schedule now) := by decide
  have hidle (now : Nat) (hnow : 18 ≤ now) : (started.after schedule now).stack = [] := by
    induction now, hnow using Nat.le_induction with
    | base => rfl
    | succ now hnow ih =>
        have hover : eachOther.length ≤ now := hnow
        have hmove : schedule now = .advance := by simp [schedule, hover]
        simp [after_succ, hmove, step, turn, ih]
  have hnow (now : Nat) (hlasts : 0 < (started.after schedule now).stack.length) : now < 18 := by
    by_contra hnow
    rw [hidle now (Nat.not_lt.mp hnow)] at hlasts
    exact Nat.lt_irrefl 0 hlasts
  have hproceeds : started.Proceeds 0 schedule :=
    { awaits := fun now hlasts => hawaits now (hnow now hlasts)
      yields := fun now hlasts _ => ⟨18, hnow now hlasts, .inl (by rw [hidle 18 (Nat.le_refl 18)]; exact hlasts)⟩ }
  have h := run_terminates {} true twoStarted rfl rfl rfl .tick (.inl rfl)
  have hdrain := (run_terminates {} true twoStarted rfl rfl rfl .drain (.inr rfl)).2.1 rfl threeNotices rfl (by decide)
  exact ⟨rfl, rfl, rfl, hoccupied, (h.1 eachOther hoccupied).2, hproceeds, h.2.2 schedule hproceeds, hdrain⟩

end Queue

end DeadlineQueue
