import DeadlineQueue.Proofs.Cancelling

namespace DeadlineQueue

variable {μ ρ : Type}

deriving instance DecidableEq for Entry, Reading

-- What the time is wanted for when the clock is asked.
inductive Inquiry (μ : Type) where
  | admission (message : μ)
  | sweep
  | start (entry : Entry μ)
  deriving DecidableEq

namespace Frame

def inquiry? : Frame μ ρ → Option (Inquiry μ)
  | enqueuing message => some (.admission message)
  | sweeping _ => some .sweep
  | starting _ entry => some (.start entry)
  | _ => none

-- A call that is still to ask the clock, or may be.
def timed : Frame μ ρ → Bool
  | enqueuing _ | sweeping _ | scanning _ _ | gathering | dispatching _ | starting _ _ => true
  | _ => false

end Frame

-- A call that asks the clock.
def Move.asks : Move μ ρ → Bool
  | .call (.enqueue _) | .call .tick => true
  | _ => false

namespace Queue

-- The answer that a move gives, and what was asked.
def reading? (queue : Queue μ ρ) : Move μ ρ → Option (Inquiry μ × Reading)
  | .read reading => (queue.stack.head?.bind Frame.inquiry?).map fun inquiry => (inquiry, reading)
  | _ => none

-- The times that the clock is asked in a run, each with what it answers.
def readings (queue : Queue μ ρ) : List (Move μ ρ) → List (Inquiry μ × Reading)
  | [] => []
  | move :: moves => (queue.reading? move).toList ++ (queue.step move).1.readings moves

theorem readings_append (queue : Queue μ ρ) (first second : List (Move μ ρ)) :
    queue.readings (first ++ second) = queue.readings first ++ (queue.run first).1.readings second := by
  induction first generalizing queue with
  | nil => rfl
  | cons move moves ih => rw [List.cons_append, readings, ih, readings, run_cons, List.append_assoc]

theorem spans_of_append {queue : Queue μ ρ} {depth : Nat} {first second : List (Move μ ρ)}
    (hspans : queue.spans depth (first ++ second) = true) : (queue.run first).1.spans depth second = true := by
  induction first generalizing queue with
  | nil => exact hspans
  | cons move moves ih =>
      rw [List.cons_append, spans, Bool.and_eq_true] at hspans
      exact ih hspans.2

theorem inquiry_eq_none {queue : Queue μ ρ} (hturn : queue.turn ≠ .clock) :
    queue.stack.head?.bind Frame.inquiry? = none := by
  unfold turn at hturn
  cases hstack : queue.stack with
  | nil => rfl
  | cons frame rest => cases frame <;> simp_all [Frame.isUser, Frame.awaitsClock, Frame.inquiry?]

theorem reading_eq_none {queue : Queue μ ρ} (hturn : queue.turn ≠ .clock) (move : Move μ ρ) :
    queue.reading? move = none := by
  cases move with
  | read reading => rw [reading?, inquiry_eq_none hturn, Option.map_none]
  | _ => rfl

theorem eq_advance_of_awaits {queue : Queue μ ρ} (hturn : queue.turn = .queue) {move : Move μ ρ}
    (h : queue.Awaits move) : move = .advance := by
  cases move with
  | advance => rfl
  | read reading | call call => exact absurd (hturn.symm.trans h) nofun
  | finish | panic text => exact absurd (hturn.symm.trans h.1) nofun

theorem exists_read_of_awaits {queue : Queue μ ρ} (hturn : queue.turn = .clock) {move : Move μ ρ}
    (h : queue.Awaits move) : ∃ reading, move = .read reading := by
  cases move with
  | read reading => exact ⟨reading, rfl⟩
  | advance | call call => exact absurd (hturn.symm.trans h) nofun
  | finish | panic text => exact absurd (hturn.symm.trans h.1) nofun

-- A call that waits for the clock waits until it gets an answer.
theorem exists_reading {queue : Queue μ ρ} (hturn : queue.turn = .clock) {depth : Nat}
    (hdepth : depth < queue.stack.length) {moves : List (Move μ ρ)} (hspans : queue.spans depth moves = true) :
    ∃ idle reading rest, moves = idle ++ .read reading :: rest ∧ queue.run idle = (queue, []) ∧
      queue.readings idle = [] := by
  induction moves with
  | nil => exact absurd (length_of_spans hspans) (Nat.not_le.mpr hdepth)
  | cons move moves ih =>
      by_cases hread : ∃ reading, move = .read reading
      · obtain ⟨reading, rfl⟩ := hread
        exact ⟨[], reading, moves, rfl, rfl, rfl⟩
      · have hidle : queue.step move = (queue, []) := by
          cases move with
          | read reading => exact absurd ⟨reading, rfl⟩ hread
          | _ => simp [step, hturn]
        have hnone : queue.reading? move = none := by
          cases move with
          | read reading => exact absurd ⟨reading, rfl⟩ hread
          | _ => rfl
        rw [spans, Bool.and_eq_true, hidle] at hspans
        obtain ⟨idle, reading, rest, rfl, hrun, hreadings⟩ := ih hspans.2
        refine ⟨move :: idle, reading, rest, rfl, ?_, ?_⟩
        · rw [run_cons, hidle, hrun]
          rfl
        · rw [readings, hnone, hidle, hreadings]
          rfl

-- An enqueue asks once. If the clock fails, the message comes back and nothing has changed.
theorem enqueue_reads {queue : Queue μ ρ} (hturn : queue.turn = .user) (hfree : queue.busy = false)
    (halive : queue.dropped = false) (message : μ) {during : List (Move μ ρ)}
    (hspans : (queue.step (.call (.enqueue message))).1.spans queue.stack.length during = true) :
    ∃ reading, queue.readings (.call (.enqueue message) :: during) = [(.admission message, reading)] ∧
      ∀ fault, reading = .failed fault → queue.run (.call (.enqueue message) :: during) =
        (queue, [.log (.enqueueUnread fault), .returned (.rejected { message, fault })]) := by
  let waiting : Queue μ ρ := { queue with stack := .enqueuing message :: queue.stack }
  have hcall : queue.step (.call (.enqueue message)) = (waiting, []) := by
    simp [step, hturn, answer, ifFree, hfree, halive, waiting]
  rw [hcall] at hspans
  obtain ⟨idle, reading, rest, rfl, hrun, hreadings⟩ :=
    waiting.exists_reading rfl (Nat.lt_succ_self queue.stack.length) hspans
  have hspans := spans_of_append hspans
  rw [hrun] at hspans
  have hrest : rest = [] := by
    have hleft : (waiting.step (.read reading)).1.stack.length ≤ queue.stack.length := by
      cases reading with
      | time | failed => exact Nat.le_refl _
      | panicked text =>
          exact (List.dropWhile_suffix (fun frame : Frame μ ρ => !frame.isUser) (l := queue.stack)).length_le
    rw [spans, Bool.and_eq_true] at hspans
    exact eq_nil_of_spans hspans.2 hleft
  subst hrest
  refine ⟨reading, ?_, ?_⟩
  · rw [readings, hcall, readings_append, hreadings, hrun]
    rfl
  · rintro fault rfl
    rw [run_cons, hcall, run_append, hrun]
    rfl

-- While no other call asks the clock, there are no more calls that may ask it.
theorem Transition.timed {queue next : Queue μ ρ} {move : Move μ ρ} {events : List (Event μ ρ)}
    (h : Transition queue move next events) (hasks : move.asks = false ∨ queue.busy = true) :
    next.stack.countP Frame.timed ≤ queue.stack.countP Frame.timed := by
  cases h with
  | retire hstack | cancel hstack | startUnread fault hstack =>
      rw [stack_raise]
      split
      · simp [hstack, List.countP_cons, Frame.timed]
      · simp [hstack, List.countP_cons, Frame.timed]
  | complete =>
      rw [stack_raise]
      split
      · simp [Frame.timed]
      · simp [Frame.timed]
  | clockPanic text => exact (unwind_suffix queue queue.stack text).sublist.countP_le
  | panic text hstack => exact (unwind_suffix_of_cons queue hstack text).sublist.countP_le
  | @finish frame rest hstack => exact (hstack ▸ List.suffix_cons frame rest : rest <:+ queue.stack).sublist.countP_le
  | enqueue | tick | tickUnlimited => simp_all [Move.asks]
  | _ => simp_all [List.countP_cons, Frame.timed]

-- What lies on a call that was made while `below` was running cannot ask the clock, if there is nothing more on
-- the stack that may ask it than below.
theorem turn_of_timed {queue : Queue μ ρ} {below : List (Frame μ ρ)} (hbelow : below <:+ queue.stack)
    (hdepth : below.length < queue.stack.length)
    (htimed : queue.stack.countP Frame.timed ≤ below.countP Frame.timed) : queue.turn ≠ .clock := by
  intro hturn
  obtain ⟨frame, rest, hstack, hframe⟩ := queue.exists_awaitsClock hturn
  rw [hstack] at hbelow hdepth htimed
  have hrest : below <:+ rest := (List.suffix_cons_iff.mp hbelow).resolve_left fun heq => by
    rw [heq] at hdepth
    exact Nat.lt_irrefl _ hdepth
  have hcount := hrest.sublist.countP_le (p := Frame.timed)
  have htimed' : frame.timed = true := by cases frame <;> simp_all [Frame.awaitsClock, Frame.timed]
  rw [List.countP_cons_of_pos htimed'] at htimed
  omega

-- Of itself no other call asks the clock.
theorem run_timed {queue : Queue μ ρ} {below : List (Frame μ ρ)} {moves : List (Move μ ρ)}
    (hbelow : below <:+ queue.stack) (htimed : queue.stack.countP Frame.timed ≤ below.countP Frame.timed)
    (hasks : (∀ move ∈ moves, move.asks = false) ∨ queue.occupied moves = true)
    (hspans : queue.spans below.length moves = true) : queue.readings moves = [] := by
  induction moves generalizing queue with
  | nil => rfl
  | cons move moves ih =>
      rw [spans, Bool.and_eq_true, decide_eq_true_eq] at hspans
      have hstep := transition_step queue move
      rw [readings, reading_eq_none (turn_of_timed hbelow hspans.1 htimed) move]
      have hfirst : move.asks = false ∨ queue.busy = true :=
        hasks.imp (fun h => h move List.mem_cons_self) fun h => (Bool.and_eq_true_iff.mp h).1
      have hrest : (∀ other ∈ moves, other.asks = false) ∨ (queue.step move).1.occupied moves = true :=
        hasks.imp (fun h other hother => h other (List.mem_cons_of_mem _ hother)) fun h =>
          (Bool.and_eq_true_iff.mp h).2
      rcases hstep.shift.keeps hbelow hspans.1 with hstays | hleft
      · exact ih hstays ((hstep.timed hfirst).trans htimed) hrest hspans.2
      · obtain rfl := eq_nil_of_spans hspans.2 hleft.length_le
        rfl

-- A drain that has not returned at once holds the queue.
theorem Transition.draining {queue next : Queue μ ρ} {events : List (Event μ ρ)}
    (h : Transition queue (.call .drain) next events) (hdepth : ¬next.stack.length ≤ queue.stack.length) :
    ∃ frame : Frame μ ρ, next.stack = frame :: queue.stack ∧ frame.holdsQueue = true := by
  cases h with
  | drain => exact ⟨_, rfl, rfl⟩
  | _ => exact absurd (Nat.le_refl _) hdepth

-- No call but an enqueue and a tick asks the clock. The notifier may make such calls while another one lasts, unless
-- that is a drain.
theorem other_reads {queue : Queue μ ρ} (hturn : queue.turn = .user) {call : Call μ ρ}
    (hcall : (Move.call call).asks = false) {during : List (Move μ ρ)}
    (hspans : (queue.step (.call call)).1.spans queue.stack.length during = true)
    (hasks : call = .drain ∨ ∀ move ∈ during, move.asks = false) : queue.readings (.call call :: during) = [] := by
  have hstep := transition_step queue (.call call)
  have hnone : queue.reading? (.call call) = none := rfl
  rw [readings, hnone]
  by_cases hdepth : (queue.step (.call call)).1.stack.length ≤ queue.stack.length
  · obtain rfl := eq_nil_of_spans hspans hdepth
    rfl
  have hbelow : queue.stack <:+ (queue.step (.call call)).1.stack := by
    cases hstack : queue.stack with
    | nil => exact List.nil_suffix
    | cons frame below =>
        have hframe := Frame.not_holdsQueue_of_isUser ((turn_eq_user_iff queue).mp hturn frame (by simp [hstack]))
        have hold : frame :: below <:+ queue.stack := hstack ▸ List.suffix_refl _
        rcases hstep.shift.stays hframe hold with hstays | hleft
        · exact hstays
        · have hlength := hleft.length_le
          rw [hstack, List.length_cons] at hdepth
          omega
  apply run_timed hbelow (hstep.timed (.inl hcall)) _ hspans
  rcases hasks with rfl | hasks
  · obtain ⟨frame, hstack, hframe⟩ := hstep.draining hdepth
    exact .inr (occupied_of_spans (hstack.trans (List.nil_append _).symm) hframe hspans).1
  · exact .inl hasks

end Queue

end DeadlineQueue
