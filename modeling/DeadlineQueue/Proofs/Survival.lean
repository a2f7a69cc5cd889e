import DeadlineQueue.Proofs.Callers
import DeadlineQueue.Proofs.Dues

namespace DeadlineQueue

variable {μ ρ : Type}

-- Whatever was started gets overdue at some time.
theorem Scan.exists_overdue (scan : Scan) (entry : Entry μ) (hstarted : entry.startedAt.isSome = true) :
    ∃ now, scan.overdue now entry = true := by
  obtain ⟨since, hsince⟩ : ∃ since, entry.since scan.origin = some since := by
    cases scan.origin with
    | admission => exact ⟨entry.enqueuedAt, rfl⟩
    | start => exact Option.isSome_iff_exists.mp hstarted
  refine ⟨since + scan.deadline, ?_⟩
  simp [Scan.overdue, hsince, elapsed]

-- While the processor runs no other call gets the queue.
theorem Nested.above_processing {above below : List (Frame μ ρ)} {token : Token} {message : μ}
    (h : Nested (above ++ .processing token message :: below)) : ∀ frame ∈ above, frame.holdsQueue = false := by
  induction above with
  | nil => simp
  | cons frame above ih =>
      obtain ⟨hfits, hrest⟩ := h
      have habove := ih hrest
      have hdispatching : (above ++ .processing token message :: below).any Frame.holdsQueue = true := by
        obtain ⟨bound, under, rfl⟩ := (hrest.suffix (List.suffix_append above _)).1
        simp [Frame.holdsQueue]
      rw [List.forall_mem_cons]
      refine ⟨?_, habove⟩
      cases frame with
      | completing => rfl
      | delivering => rfl
      | processing => rfl
      | notifying => rfl
      | retiring name batch =>
          obtain ⟨now, scans, under, hunder⟩ := hfits
          cases above with
          | nil => simp at hunder
          | cons first rest =>
              obtain ⟨rfl, -⟩ := List.cons.inj hunder
              exact absurd (habove _ List.mem_cons_self).symm Bool.false_ne_true
      | _ => exact absurd (hfits.symm.trans hdispatching) Bool.false_ne_true

theorem any_of_suffix {stack rest : List (Frame μ ρ)} {f : Frame μ ρ → Bool} (hsuffix : rest <:+ stack)
    (h : rest.any f = true) : stack.any f = true := by
  rw [List.any_eq_true] at h ⊢
  obtain ⟨frame, hframe, hf⟩ := h
  exact ⟨frame, hsuffix.subset hframe, hf⟩

namespace Queue

theorem busy_raise (queue : Queue μ ρ) (source : Source) (notice : Notice μ ρ) :
    (queue.raise source notice).1.busy = queue.busy :=
  any_stack_raise queue source notice Frame.holdsQueue rfl

-- A dropped queue is not held by any call.
theorem Transition.undropped {queue next : Queue μ ρ} {move : Move μ ρ} {events : List (Event μ ρ)}
    (h : Transition queue move next events) (hs : queue.busy = true → queue.dropped = false)
    (hbusy : next.busy = true) : next.dropped = false := by
  cases h with
  | scan hstack =>
      rw [dropped_setLane]
      exact hs (by simp [Queue.busy, hstack, Frame.holdsQueue])
  | retire hstack | cancel hstack | startUnread fault hstack =>
      rw [dropped_raise]
      exact hs (by simp [Queue.busy, hstack, Frame.holdsQueue])
  | complete =>
      rw [busy_raise] at hbusy
      rw [dropped_raise]
      exact hs (by simpa [Queue.busy, Frame.holdsQueue] using hbusy)
  | clockPanic text => exact hs (any_of_suffix (unwind_suffix queue queue.stack text) hbusy)
  | panic text hstack => exact hs (any_of_suffix (unwind_suffix_of_cons queue hstack text) hbusy)
  | drop hturn hfree => exact absurd (hfree.symm.trans hbusy) Bool.false_ne_true
  | enqueue message hturn hfree halive | tick hturn hfree halive | tickUnlimited hturn hfree halive
  | drain hturn hfree halive => exact halive
  -- No other step makes a free queue busy.
  | _ => first | exact hs hbusy | exact hs (by simp_all [Queue.busy, Frame.holdsQueue])

theorem undropped_run (settings : Settings) (observed : Bool) (moves : List (Move μ ρ))
    (hbusy : ((make settings observed).run moves).1.busy = true) :
    ((make settings observed).run moves).1.dropped = false :=
  run_invariant (P := fun queue _ _ => queue.busy = true → queue.dropped = false) moves
    (fun queue _ _ move _ h => (transition_step queue move).undropped h)
    (make settings observed) [] [] (fun _ => rfl) hbusy

-- While user code runs in a call that holds the queue, messages leave by their tokens only.
theorem Transition.confined {queue next : Queue μ ρ} {move : Move μ ρ} {events : List (Event μ ρ)}
    (h : Transition queue move next events) (hhead : ∀ frame ∈ queue.stack.head?, frame.holdsQueue = false)
    (hbusy : queue.busy = true) :
    next.dropped = queue.dropped ∧ next.pending = queue.pending ∧ (next.inProgress = queue.inProgress ∨
      ∃ token outcome reason, move = .call (.complete token outcome reason) ∧ token ∈ queue.held ∧
        next.inProgress = (queue.inProgress.remove token.key).2) := by
  cases h with
  | complete outcome reason hturn hheld =>
      exact ⟨dropped_raise _ _ _, pending_raise _ _ _, .inr ⟨_, outcome, reason, rfl, hheld, inProgress_raise _ _ _⟩⟩
  | completeLate outcome reason hturn hheld => exact ⟨rfl, rfl, .inr ⟨_, outcome, reason, rfl, hheld, rfl⟩⟩
  | idle => exact ⟨rfl, rfl, .inl rfl⟩
  | _ => first | exact ⟨rfl, rfl, .inl rfl⟩ | simp_all [Frame.holdsQueue]

section processing

variable {queue : Queue μ ρ} {admitted : List (MessageId × μ)} {past : List (Event μ ρ)} {slot : Slot μ} {message : μ}
  {below : List (Frame μ ρ)}

-- As long as its token is not used, a message stays in progress while its processor runs, and
-- nothing else that waits is touched.
theorem Sound.step_processing (h : queue.Sound admitted past)
    (hstack : .processing slot.issue.1 message :: below <:+ queue.stack) (hslot : slot ∈ queue.inProgress.slots)
    {move : Move μ ρ} (hunused : ∀ outcome reason, move ≠ .call (.complete slot.issue.1 outcome reason)) :
    (queue.step move).1.dropped = queue.dropped ∧ (queue.step move).1.pending = queue.pending ∧
      slot ∈ (queue.step move).1.inProgress.slots := by
  obtain ⟨above, habove⟩ := hstack
  have hnested := h.stacked.nested
  rw [← habove] at hnested
  have hhead : ∀ frame ∈ queue.stack.head?, frame.holdsQueue = false := by
    rw [← habove]
    intro frame hframe
    cases above with
    | nil =>
        obtain rfl : _ = frame := Option.some.inj hframe
        rfl
    | cons first rest =>
        obtain rfl : first = frame := Option.some.inj hframe
        exact hnested.above_processing first List.mem_cons_self
  have hbusy : queue.busy = true := by
    obtain ⟨bound, under, rfl⟩ := (hnested.suffix (List.suffix_append above _)).1
    rw [busy, ← habove]
    simp [Frame.holdsQueue]
  obtain ⟨hdropped, hpending, hinProgress | ⟨token, outcome, reason, rfl, hheld, hremoved⟩⟩ :=
    (transition_step queue move).confined hhead hbusy
  · exact ⟨hdropped, hpending, by rw [hinProgress]; exact hslot⟩
  · refine ⟨hdropped, hpending, ?_⟩
    rw [hremoved, Lane.slots_remove, List.mem_filter]
    refine ⟨hslot, by_contra fun hremove => ?_⟩
    -- The token with the key of this slot is the one that was issued for it.
    have hkey : slot.issue.1.key = token.key := by simpa [Slot.issue] using hremove
    obtain ⟨other, hissue⟩ := h.exists_issue_of_held hheld
    have hid := (h.key_eq_iff_id_eq (h.issue_mem hslot) hissue).mp hkey
    have htoken : token = slot.issue.1 := h.eq_of_held (h.issue_mem hslot) token hheld hid.symm
    exact hunused outcome reason (by rw [htoken])

theorem Sound.run_processing (h : queue.Sound admitted past)
    (hstack : .processing slot.issue.1 message :: below <:+ queue.stack) (hslot : slot ∈ queue.inProgress.slots)
    {during : List (Move μ ρ)} (hspans : queue.spans below.length during = true)
    (hunused : ∀ outcome reason, .call (.complete slot.issue.1 outcome reason) ∉ during) :
    (queue.run during).1.dropped = queue.dropped ∧ (queue.run during).1.pending = queue.pending ∧
      slot ∈ (queue.run during).1.inProgress.slots := by
  induction during generalizing queue admitted past with
  | nil => exact ⟨rfl, rfl, hslot⟩
  | cons move moves ih =>
      rw [spans, Bool.and_eq_true] at hspans
      obtain ⟨hdropped, hpending, hnext⟩ := h.step_processing hstack hslot
        (fun outcome reason heq => hunused outcome reason (heq ▸ List.mem_cons_self))
      rcases (transition_step queue move).shift.stays rfl hstack with hstays | hleft
      · obtain ⟨hdropped', hpending', hslot⟩ := ih (h.step move) hstays hnext hspans.2
          (fun outcome reason hmem => hunused outcome reason (List.mem_cons_of_mem _ hmem))
        exact ⟨hdropped'.trans hdropped, hpending'.trans hpending, hslot⟩
      · obtain rfl := eq_nil_of_spans hspans.2 hleft.length_le
        exact ⟨hdropped, hpending, hnext⟩

end processing

-- A panic that leaves a call of user code gets to the code below, if there is any, or out.
theorem turn_unwind (queue : Queue μ ρ) (stack : List (Frame μ ρ)) (text : String) :
    (queue.unwind stack text).1.turn = .user := by
  rw [turn_eq_user_iff]
  intro frame hframe
  have hhead := List.head?_dropWhile_not (fun frame : Frame μ ρ => !frame.isUser) stack
  simp only [unwind] at hframe
  rw [Option.mem_def.mp hframe] at hhead
  simpa using hhead

-- After a panic of the processor the queue is free.
theorem free_of_panic {queue : Queue μ ρ} (hstacked : queue.Stacked) {token : Token} {message : μ}
    {rest : List (Frame μ ρ)} (hstack : queue.stack = .processing token message :: rest) {during : List (Move μ ρ)}
    {text : String} (hspans : queue.spans rest.length (during ++ [.panic text]) = true) :
    (queue.run (during ++ [.panic text])).1.turn = .user ∧ (queue.run (during ++ [.panic text])).1.busy = false := by
  have hrunning : .processing token message :: rest <:+ queue.stack := hstack ▸ List.suffix_refl queue.stack
  obtain ⟨before, last, hmoves, hbefore, hend⟩ := exists_last_of_spans hspans rfl hrunning
  obtain ⟨rfl, hlast⟩ := List.append_inj' hmoves rfl
  obtain rfl : Move.panic text = last := List.head_eq_of_cons_eq hlast
  have hrun : (queue.run (during ++ [.panic text])).1 = ((queue.run during).1.step (.panic text)).1 := by
    rw [run_append]
    rfl
  have hturn : (queue.run (during ++ [.panic text])).1.turn = .user := by
    have hstep := transition_step (queue.run during).1 (.panic text)
    rw [hrun] at hend ⊢
    generalize (queue.run during).1.step (.panic text) = stepped at hstep hend ⊢
    obtain ⟨next, events⟩ := stepped
    cases hstep with
    | idle =>
        have hlength := (hbefore.trans hend).length_le
        exact absurd hlength (Nat.not_succ_le_self rest.length)
    | panic => exact turn_unwind _ _ _
  refine ⟨hturn, ?_⟩
  obtain ⟨⟨bound, below, rfl⟩, hfits, -⟩ := hstacked.fits hstack
  rcases List.suffix_cons_iff.mp hend with hdispatching | hbelow
  · simp [turn, hdispatching, Frame.isUser, Frame.awaitsClock] at hturn
  · exact any_eq_false_of_suffix _ hbelow hfits

-- The processor panics before its token is used.
theorem run_processor_panics (settings : Settings) (observed : Bool) (moves : List (Move μ ρ)) {bound : Nat}
    {entry : Entry μ} {rest : List (Frame μ ρ)} (now : Instant)
    (hstack : ((make settings observed).run moves).1.stack = .starting bound entry :: rest) :
    let queue := ((make settings observed).run moves).1
    let token : Token := { key := queue.nextKey, id := entry.id }
    let started : Entry μ := { entry with startedAt := some now }
    let called := (queue.step (.read (.time now))).1
    called.stack = .processing token entry.message :: .dispatching bound :: rest ∧
      ∀ during text, called.spans (rest.length + 1) (during ++ [.panic text]) = true →
        (∀ outcome reason, .call (.complete token outcome reason) ∉ during) →
        let after := (called.run (during ++ [.panic text])).1
        after.pending.entries = queue.pending.entries ∧ started ∈ after.inProgress.entries ∧
          (∃ later, (∀ move ∈ later, move.quiet = true) ∧
            .raised .drain (started.notice .cancelled none) ∈ (after.run (.call .drain :: later)).2) ∧
          ∀ scan, (LaneName.inProgress, scan) ∈ after.limits.scans → ∃ time later, (∀ move ∈ later, move.quiet = true) ∧
            .raised (.sweep .inProgress) (started.notice .timeout none) ∈
              (after.run (.call .tick :: .read (.time time) :: later)).2 := by
  intro queue token started called
  have hcalled : called = { queue.append .inProgress now started with
      held := queue.held ++ [token]
      stack := .processing token entry.message :: .dispatching bound :: rest } := by
    have hturn : queue.turn = .clock := by rw [turn, hstack]; rfl
    simp only [called, step, hturn, if_true, readTime, queue, hstack]
    rfl
  have hrunning : called.stack = .processing token entry.message :: .dispatching bound :: rest := by rw [hcalled]
  refine ⟨hrunning, fun during text hspans hunused => ?_⟩
  intro after
  let slot : Slot μ := { key := queue.nextKey, entry := started }
  have hslot : slot ∈ called.inProgress.slots := by
    rw [hcalled]
    exact List.mem_append_right _ List.mem_cons_self
  have hs : called.Sound _ _ := (sound_run settings observed moves).step (.read (.time now))
  have hsuffix : .processing slot.issue.1 entry.message :: .dispatching bound :: rest <:+ called.stack :=
    hrunning ▸ List.suffix_refl called.stack
  have hunused' : ∀ outcome reason, .call (.complete token outcome reason) ∉ during ++ [.panic text] := by
    intro outcome reason hmem
    rcases List.mem_append.mp hmem with hmem | hmem
    · exact hunused outcome reason hmem
    · simp at hmem
  obtain ⟨hdropped, hpending, hkept⟩ := hs.run_processing hsuffix hslot hspans hunused'
  obtain ⟨hturn, hfree⟩ := free_of_panic hs.stacked hrunning hspans
  have hafter : after.Sound _ _ := hs.run (during ++ [.panic text])
  have halive : after.dropped = false := by
    have hbusy : queue.busy = true := by
      rw [busy, hstack]
      rfl
    calc after.dropped = called.dropped := hdropped
      _ = queue.dropped := by rw [hcalled]; rfl
      _ = false := undropped_run settings observed moves hbusy
  have hstarted : started ∈ after.inProgress.entries := List.mem_map_of_mem hkept
  refine ⟨?_, hstarted, ?_, ?_⟩
  · calc after.pending.entries = called.pending.entries := congrArg Lane.entries hpending
      _ = queue.pending.entries := by rw [hcalled]; rfl
  · exact exists_cancelled hafter.stacked hturn hfree halive hstarted
  · intro scan hscan
    obtain ⟨time, hoverdue⟩ := scan.exists_overdue started rfl
    exact ⟨time, exists_timedOut hafter.ordered hafter.stacked hturn hfree halive hstarted hscan hoverdue⟩

end Queue

end DeadlineQueue
