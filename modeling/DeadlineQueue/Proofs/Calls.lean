import DeadlineQueue.Proofs.Transition

namespace DeadlineQueue

variable {μ ρ : Type}

def Event.reply? : Event μ ρ → Option (Reply μ)
  | .returned reply => some reply
  | _ => none

namespace Queue

-- What becomes of the stack in a step. Frames come on top of it or take the place of the innermost
-- one, a report returns, or a panic leaves the calls above some user code.
inductive Reshape (old new : List (Frame μ ρ)) (events : List (Event μ ρ)) : Prop where
  | enter (above : List (Frame μ ρ)) (hnew : new = above ++ old)
  | replace {frame : Frame μ ρ} {rest : List (Frame μ ρ)} (above : List (Frame μ ρ)) (hold : old = frame :: rest)
      (hframe : frame.isCompleting = false) (hnew : new = above ++ rest)
  | completed {rest : List (Frame μ ρ)} (hold : old = .completing :: rest) (hnew : new = rest)
      (hevents : events = [.returned (.delivered true)])
  | unwound (text : String) (hnew : new <:+ old) (hevents : events = [.panicked text])

theorem exists_stack_raise (queue : Queue μ ρ) (source : Source) (notice : Notice μ ρ) :
    ∃ above, (queue.raise source notice).1.stack = above ++ queue.stack := by
  rw [stack_raise]
  split
  · exact ⟨[], rfl⟩
  · exact ⟨[.delivering], rfl⟩

theorem Reshape.raise {old : List (Frame μ ρ)} {events : List (Event μ ρ)} {frame : Frame μ ρ}
    {rest : List (Frame μ ρ)} (queue : Queue μ ρ) (source : Source) (notice : Notice μ ρ) (above : List (Frame μ ρ))
    (hold : old = frame :: rest) (hframe : frame.isCompleting = false) (hstack : queue.stack = above ++ rest) :
    Reshape old (queue.raise source notice).1.stack events := by
  obtain ⟨top, htop⟩ := exists_stack_raise queue source notice
  exact .replace (top ++ above) hold hframe (by rw [htop, hstack, List.append_assoc])

theorem Transition.reshape {queue next : Queue μ ρ} {move : Move μ ρ} {events : List (Event μ ρ)}
    (h : Transition queue move next events) : Reshape queue.stack next.stack events := by
  cases h with
  | scan hstack => exact .replace [_, _] hstack rfl rfl
  | scannedAll hstack => exact .replace [_] hstack rfl rfl
  | @retire name entry batch rest hstack => exact .raise _ _ _ [.retiring name batch] hstack rfl rfl
  | retiredAll hstack => exact .replace [] hstack rfl rfl
  | nothingPending hstack => exact .replace [] hstack rfl rfl
  | gather hstack => exact .replace [_] hstack rfl rfl
  | dispatchedAll hstack => exact .replace [] hstack rfl rfl
  | pop hstack => exact .replace [_] hstack rfl rfl
  | @cancel entry batch total rest hstack => exact .raise _ _ _ [.draining batch total] hstack rfl rfl
  | cancelledAll hstack => exact .replace [] hstack rfl rfl
  | completed hstack => exact .completed hstack rfl rfl
  | deliveredAll hstack => exact .replace [] hstack rfl rfl
  | notify hstack => exact .replace [_, _] hstack rfl rfl
  | accept now hstack => exact .replace [] hstack rfl rfl
  | sweep now hstack => exact .replace [_] hstack rfl rfl
  | start now hstack => exact .replace [_, _] hstack rfl rfl
  | reject fault hstack => exact .replace [] hstack rfl rfl
  | sweepUnread fault hstack => exact .replace [_] hstack rfl rfl
  | @startUnread bound entry rest fault hstack => exact .raise _ _ _ [.dispatching bound] hstack rfl rfl
  | clockPanic text => exact .unwound text (unwind_suffix queue queue.stack text) rfl
  | enqueue message => exact .enter [_] rfl
  | tick => exact .enter [_] rfl
  | tickUnlimited => exact .enter [_] rfl
  | drain => exact .enter [_] rfl
  | complete =>
      obtain ⟨above, habove⟩ := exists_stack_raise _ _ _
      exact .enter (above ++ [.completing]) (by rw [habove, List.append_assoc]; rfl)
  | @finish frame rest hstack huser =>
      exact .replace [] hstack (by cases frame <;> simp_all [Frame.isUser, Frame.isCompleting]) rfl
  | panic text hstack => exact .unwound text (unwind_suffix_of_cons queue hstack text) rfl
  | _ => exact .enter [] rfl

-- The frame of a report stays until the report returns true or a panic ends it.
theorem Reshape.completing {old new below : List (Frame μ ρ)} {events : List (Event μ ρ)} (h : Reshape old new events)
    (hsuffix : .completing :: below <:+ old) :
    .completing :: below <:+ new ∨ new.length ≤ below.length ∧
      (events = [.returned (.delivered true)] ∨ ∃ text, events = [.panicked text]) := by
  cases h with
  | enter above hnew => exact .inl (hnew ▸ hsuffix.trans (List.suffix_append above _))
  | @replace frame rest above hold hframe hnew =>
      rw [hold, List.suffix_cons_iff] at hsuffix
      rcases hsuffix with hsuffix | hsuffix
      · rw [← (List.cons.inj hsuffix).1] at hframe
        simp [Frame.isCompleting] at hframe
      · exact .inl (hnew ▸ hsuffix.trans (List.suffix_append above _))
  | completed hold hnew hevents =>
      rw [hold, List.suffix_cons_iff] at hsuffix
      rcases hsuffix with hsuffix | hsuffix
      · have hbelow : below = new := (List.cons.inj hsuffix).2.trans hnew.symm
        exact .inr ⟨Nat.le_of_eq (congrArg List.length hbelow.symm), .inl hevents⟩
      · exact .inl (hnew ▸ hsuffix)
  | unwound text hnew hevents =>
      by_cases hlength : new.length ≤ below.length
      · exact .inr ⟨hlength, .inr ⟨text, hevents⟩⟩
      · exact .inl (List.suffix_of_suffix_length_le hsuffix hnew (by rw [List.length_cons]; omega))

-- What the call returns that the first of these moves makes: the reply of the step after which the
-- stack is down to the depth from which the call was made. It is none while the call is running,
-- and when a panic ends it.
def reply? (queue : Queue μ ρ) (depth : Nat) : List (Move μ ρ) → Option (Reply μ)
  | [] => none
  | move :: moves =>
    if (queue.step move).1.stack.length ≤ depth then (queue.step move).2.findSome? Event.reply?
    else (queue.step move).1.reply? depth moves

theorem reply_cons_of_lt (queue : Queue μ ρ) (depth : Nat) (move : Move μ ρ) (moves : List (Move μ ρ))
    (h : depth < (queue.step move).1.stack.length) :
    queue.reply? depth (move :: moves) = (queue.step move).1.reply? depth moves := by
  rw [reply?, if_neg (by omega)]

-- A report that found its entry returns true if it returns.
theorem reply_of_completing (queue : Queue μ ρ) (below : List (Frame μ ρ)) (moves : List (Move μ ρ))
    (hsuffix : .completing :: below <:+ queue.stack) (reply : Reply μ)
    (h : queue.reply? below.length moves = some reply) : reply = .delivered true := by
  induction moves generalizing queue with
  | nil => simp [reply?] at h
  | cons move moves ih =>
      rcases (transition_step queue move).reshape.completing hsuffix with hstays | ⟨hlength, hevents⟩
      · have hlength := hstays.length_le
        rw [List.length_cons] at hlength
        rw [reply_cons_of_lt _ _ _ _ hlength] at h
        exact ih _ hstays h
      · rw [reply?, if_pos hlength] at h
        rcases hevents with hevents | ⟨text, hevents⟩
        · rw [hevents] at h
          simpa [Event.reply?] using h.symm
        · rw [hevents] at h
          simp [Event.reply?] at h

-- It does return when no callback disturbs the delivery.
theorem exists_reply_of_delivering (queue : Queue μ ρ) (below : List (Frame μ ρ))
    (hstack : queue.stack = .delivering :: .completing :: below) :
    ∃ moves, queue.reply? below.length moves = some (.delivered true) := by
  have hturn : queue.turn = .queue := by simp [turn, hstack, Frame.isUser, Frame.awaitsClock]
  have hbelow : below.length < queue.stack.length := by
    rw [hstack, List.length_cons, List.length_cons]
    omega
  generalize houtbox : queue.outbox = outbox
  induction outbox generalizing queue with
  | nil =>
      refine ⟨[.advance, .advance], ?_⟩
      simp [reply?, step, turn, hstack, advance, houtbox, giveBack, Frame.isUser, Frame.awaitsClock, Event.reply?]
  | cons notice outbox ih =>
      obtain ⟨moves, hmoves⟩ := ih { queue with outbox } hstack hturn hbelow rfl
      cases hobserved : queue.observed with
      | true =>
          let notified : Queue μ ρ := { queue with outbox, stack := .notifying notice :: queue.stack }
          have hadvance : (queue.step .advance).1 = notified := by
            simp [step, hturn, advance, hstack, houtbox, hobserved, notified]
          have hfinish : (notified.step .finish).1 = { queue with outbox } := by
            simp [step, turn, notified, Frame.isUser]
          refine ⟨.advance :: .finish :: moves, ?_⟩
          rw [reply_cons_of_lt _ _ _ _ (by rw [hadvance]; exact Nat.lt_succ_of_lt hbelow), hadvance,
            reply_cons_of_lt _ _ _ _ (by rw [hfinish]; exact hbelow), hfinish, hmoves]
      | false =>
          have hadvance : (queue.step .advance).1 = { queue with outbox } := by
            simp [step, hturn, advance, hstack, houtbox, hobserved]
          refine ⟨.advance :: moves, ?_⟩
          rw [reply_cons_of_lt _ _ _ _ (by rw [hadvance]; exact hbelow), hadvance, hmoves]

theorem exists_reply_of_raise (queue : Queue μ ρ) (source : Source) (notice : Notice μ ρ) (below : List (Frame μ ρ))
    (hstack : queue.stack = .completing :: below) :
    ∃ moves, (queue.raise source notice).1.reply? below.length moves = some (.delivered true) := by
  have hraised := stack_raise queue source notice
  cases hdelivering : queue.delivering with
  | true =>
      rw [hdelivering, if_pos rfl, hstack] at hraised
      refine ⟨[.advance], ?_⟩
      simp [reply?, step, turn, hraised, advance, giveBack, Frame.isUser, Frame.awaitsClock, Event.reply?]
  | false =>
      apply exists_reply_of_delivering
      rw [hraised, hdelivering, hstack]
      rfl

end Queue

end DeadlineQueue
