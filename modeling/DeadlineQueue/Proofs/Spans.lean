import DeadlineQueue.Proofs.Stack

namespace DeadlineQueue.Queue

variable {μ ρ : Type}

-- What a step does to the calls that are running. New ones come on top; the innermost one, which
-- holds the queue, gives way to others, the outermost of which holds it too; or calls are left.
inductive Shift (old new : List (Frame μ ρ)) : Prop where
  | enter (h : old <:+ new)
  | replace {frame : Frame μ ρ} {rest : List (Frame μ ρ)} (above : List (Frame μ ρ)) (hold : old = frame :: rest)
      (hframe : frame.holdsQueue = true) (hnew : new = above ++ rest)
      (habove : ∀ last ∈ above.getLast?, last.holdsQueue = true)
  | leave (h : new <:+ old)

-- A raise takes place in the innermost call, and may start a delivery above it.
theorem Shift.raise {old rest : List (Frame μ ρ)} {frame base : Frame μ ρ} (queue : Queue μ ρ) (source : Source)
    (notice : Notice μ ρ) (hold : old = frame :: rest) (hframe : frame.holdsQueue = true)
    (hstack : queue.stack = base :: rest) (hbase : base.holdsQueue = true) :
    Shift old (queue.raise source notice).1.stack := by
  rw [stack_raise, hstack]
  split
  · exact .replace [base] hold hframe rfl (by simpa using hbase)
  · exact .replace [.delivering, base] hold hframe rfl (by simpa using hbase)

theorem Transition.shift {queue next : Queue μ ρ} {move : Move μ ρ} {events : List (Event μ ρ)}
    (h : Transition queue move next events) : Shift queue.stack next.stack := by
  cases h with
  | scan hstack | start now hstack => exact .replace [_, _] hstack rfl rfl (by simp [Frame.holdsQueue])
  | scannedAll hstack | gather hstack | pop hstack | sweep now hstack | sweepUnread fault hstack =>
      exact .replace [_] hstack rfl rfl (by simp [Frame.holdsQueue])
  | retire hstack | cancel hstack | startUnread fault hstack => exact .raise _ _ _ hstack rfl rfl rfl
  | retiredAll hstack | nothingPending hstack | dispatchedAll hstack | cancelledAll hstack
  | accept now hstack | reject fault hstack => exact .replace [] hstack rfl rfl (by simp)
  | completed hstack | deliveredAll hstack => exact .leave (hstack ▸ List.suffix_cons _ _)
  | notify hstack => exact .enter (hstack ▸ List.suffix_cons _ _)
  | clockPanic text => exact .leave (unwind_suffix queue queue.stack text)
  | enqueue | tick | tickUnlimited | drain => exact .enter (List.suffix_cons _ _)
  | complete =>
      apply Shift.enter
      rw [stack_raise]
      split
      · exact List.suffix_cons _ _
      · exact (List.suffix_cons _ _).trans (List.suffix_cons _ _)
  | @finish frame rest hstack => exact .leave (hstack ▸ List.suffix_cons frame rest)
  | panic text hstack => exact .leave (unwind_suffix_of_cons queue hstack text)
  | _ => exact .enter (List.suffix_refl _)

section Shift

variable {old new below : List (Frame μ ρ)} (h : Shift old new)
include h

-- What lies below the innermost call stays, or calls are left down to somewhere in it.
theorem Shift.keeps (hbelow : below <:+ old) (hlength : below.length < old.length) : below <:+ new ∨ new <:+ below := by
  cases h with
  | enter h => exact .inl (hbelow.trans h)
  | replace above hold hframe hnew =>
      rw [hold, List.suffix_cons_iff] at hbelow
      rcases hbelow with rfl | hbelow
      · simp [hold] at hlength
      · exact .inl (hnew ▸ hbelow.trans (List.suffix_append _ _))
  | leave h => exact List.suffix_or_suffix_of_suffix hbelow h

-- A frame that does not hold the queue stays as it is until it is left.
theorem Shift.stays {frame : Frame μ ρ} (hframe : frame.holdsQueue = false) (hbelow : frame :: below <:+ old) :
    frame :: below <:+ new ∨ new <:+ below := by
  by_cases hlength : (frame :: below).length < old.length
  · rcases h.keeps hbelow hlength with hstays | hleft
    · exact .inl hstays
    · rcases List.suffix_cons_iff.mp hleft with rfl | hleft
      · exact .inl (List.suffix_refl _)
      · exact .inr hleft
  · obtain rfl := hbelow.eq_of_length_le (Nat.not_lt.mp hlength)
    cases h with
    | enter h => exact .inl h
    | replace above hold hheld =>
        rw [← (List.cons.inj hold).1, hframe] at hheld
        exact absurd hheld Bool.false_ne_true
    | leave h =>
        rcases List.suffix_cons_iff.mp h with rfl | h
        · exact .inl (List.suffix_refl _)
        · exact .inr h

-- The outermost of the calls above some frames holds the queue until all of them are left.
theorem Shift.holds {above : List (Frame μ ρ)} {base : Frame μ ρ} (hold : old = above ++ base :: below)
    (hbase : base.holdsQueue = true) :
    (∃ above base, new = above ++ base :: below ∧ base.holdsQueue = true) ∨ new <:+ below := by
  cases h with
  | enter h =>
      obtain ⟨more, rfl⟩ := h
      exact .inl ⟨more ++ above, base, by rw [hold, List.append_assoc], hbase⟩
  | @replace frame rest top hstack hframe hnew htop =>
      rw [hstack, List.cons_eq_append_iff] at hold
      rcases hold with ⟨-, hrest⟩ | ⟨lower, -, hrest⟩
      · obtain rfl := (List.cons.inj hrest).2
        rcases List.eq_nil_or_concat top with rfl | ⟨upper, last, rfl⟩
        · exact .inr (by rw [hnew]; exact List.suffix_refl _)
        · exact .inl ⟨upper, last, by simp [hnew], htop last (by simp)⟩
      · exact .inl ⟨top ++ lower, base, by rw [hnew, hrest, List.append_assoc], hbase⟩
  | leave h =>
      have hbelow : base :: below <:+ old := hold ▸ List.suffix_append above _
      rcases List.suffix_or_suffix_of_suffix h hbelow with h | h
      · rcases List.suffix_cons_iff.mp h with rfl | h
        · exact .inl ⟨[], base, rfl, hbase⟩
        · exact .inr h
      · obtain ⟨upper, rfl⟩ := h
        exact .inl ⟨upper, base, rfl, hbase⟩

end Shift

-- Whether there are more calls than `depth` before each of these moves, and no more after them. If
-- the call made last is above that depth, it lasts for just these moves.
def spans (queue : Queue μ ρ) (depth : Nat) : List (Move μ ρ) → Bool
  | [] => queue.stack.length ≤ depth
  | move :: moves => depth < queue.stack.length && (queue.step move).1.spans depth moves

-- After the call there is nothing left to do for it.
theorem eq_nil_of_spans {queue : Queue μ ρ} {depth : Nat} {moves : List (Move μ ρ)}
    (hspans : queue.spans depth moves = true) (hdepth : queue.stack.length ≤ depth) : moves = [] := by
  cases moves with
  | nil => rfl
  | cons move moves =>
      rw [spans, Bool.and_eq_true, decide_eq_true_eq] at hspans
      exact absurd hspans.1 (Nat.not_lt.mpr hdepth)

theorem length_of_spans {queue : Queue μ ρ} {depth : Nat} {moves : List (Move μ ρ)}
    (hspans : queue.spans depth moves = true) : (queue.run moves).1.stack.length ≤ depth := by
  induction moves generalizing queue with
  | nil => exact of_decide_eq_true hspans
  | cons move moves ih =>
      rw [spans, Bool.and_eq_true] at hspans
      exact ih hspans.2

-- A call that does not hold the queue is left with the last of the moves that it lasts for.
theorem exists_last_of_spans {queue : Queue μ ρ} {frame : Frame μ ρ} {below : List (Frame μ ρ)}
    {moves : List (Move μ ρ)} (hspans : queue.spans below.length moves = true) (hframe : frame.holdsQueue = false)
    (hstack : frame :: below <:+ queue.stack) :
    ∃ before last, moves = before ++ [last] ∧ frame :: below <:+ (queue.run before).1.stack ∧
      (queue.run moves).1.stack <:+ below := by
  induction moves generalizing queue with
  | nil =>
      have hlength := hstack.length_le
      simp only [spans, decide_eq_true_eq, List.length_cons] at hspans hlength
      omega
  | cons move moves ih =>
      rw [spans, Bool.and_eq_true] at hspans
      rcases (transition_step queue move).shift.stays hframe hstack with hstays | hleft
      · obtain ⟨before, last, rfl, hbefore, hend⟩ := ih hspans.2 hstays
        exact ⟨move :: before, last, rfl, hbefore, hend⟩
      · obtain rfl := eq_nil_of_spans hspans.2 hleft.length_le
        exact ⟨[], move, rfl, hstack, hleft⟩

end DeadlineQueue.Queue
