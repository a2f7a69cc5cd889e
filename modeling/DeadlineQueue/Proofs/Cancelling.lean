import DeadlineQueue.Proofs.Dues
import DeadlineQueue.Proofs.Settlement
import DeadlineQueue.Proofs.Tick.Upcoming

namespace DeadlineQueue

variable {μ ρ : Type}

-- A call that holds the queue and is no drain.
def Frame.besidesDrain : Frame μ ρ → Bool
  | draining _ _ | completing | delivering | processing _ _ | notifying _ => false
  | _ => true

namespace Queue

-- Both lanes are as in a new queue.
structure Cleared (queue : Queue μ ρ) : Prop where
  inProgress : queue.inProgress = {}
  pending : queue.pending = {}

-- The notices with which a drain ends what is tracked, in their order.
def cancellations (queue : Queue μ ρ) : List (Notice μ ρ) :=
  (queue.inProgress.entries ++ queue.pending.entries).map fun entry => entry.notice .cancelled none

-- While a drain holds the queue, nothing gets on a lane, and what is raised is the next that the
-- drain owes. Reports find nothing, and no other call gets the queue.
theorem Transition.cancels {queue next : Queue μ ρ} {move : Move μ ρ} {events : List (Event μ ρ)}
    (h : Transition queue move next events) (hcalm : move.calm = true) (hbusy : queue.busy = true)
    (hframes : queue.stack.any Frame.besidesDrain = false) (hcleared : queue.Cleared) :
    next.stack.any Frame.besidesDrain = false ∧ next.Cleared ∧
      events.filterMap Event.raised? ++ next.owes = queue.owes := by
  cases h with
  | cancel hstack =>
      rw [any_stack_raise _ _ _ _ rfl, owes_raise]
      refine ⟨?_, ⟨by simpa using hcleared.inProgress, by simpa using hcleared.pending⟩,
        by simp [Queue.owes, hstack, List.filterMap_cons]⟩
      simpa [hstack, Frame.besidesDrain] using hframes
  | complete outcome reason hturn hheld halive hentry =>
      rw [hcleared.inProgress] at hentry
      cases hentry
  | completeLate =>
      refine ⟨hframes, ⟨?_, hcleared.pending⟩, by simp [Queue.owes]⟩
      rw [hcleared.inProgress]
      rfl
  | completeOrphan => exact ⟨hframes, ⟨hcleared.inProgress, hcleared.pending⟩, rfl⟩
  | dropToken => exact ⟨hframes, ⟨hcleared.inProgress, hcleared.pending⟩, by simp [Queue.owes]⟩
  | @finish frame rest hstack huser =>
      refine ⟨any_eq_false_of_suffix _ (hstack ▸ List.suffix_cons frame rest) hframes,
        ⟨hcleared.inProgress, hcleared.pending⟩, ?_⟩
      cases frame <;> simp_all [Queue.owes, Frame.isUser]
  | clockPanic | panic => exact absurd hcalm Bool.false_ne_true
  | cancelledAll hstack | completed hstack | deliveredAll hstack | notify hstack | skip hstack =>
      refine ⟨?_, ⟨hcleared.inProgress, hcleared.pending⟩, by simp [Queue.owes, hstack, List.filterMap_cons]⟩
      simpa [hstack, Frame.besidesDrain] using hframes
  | idle | busy | dropped | noToken => exact ⟨hframes, hcleared, rfl⟩
  | _ => simp_all [Frame.besidesDrain]

theorem run_cancels {queue : Queue μ ρ} {moves : List (Move μ ρ)} (hoccupied : queue.occupied moves = true)
    (hcalm : ∀ move ∈ moves, move.calm = true) (hframes : queue.stack.any Frame.besidesDrain = false)
    (hcleared : queue.Cleared) :
    (queue.run moves).1.Cleared ∧
      (queue.run moves).2.filterMap Event.raised? ++ (queue.run moves).1.owes = queue.owes := by
  induction moves generalizing queue with
  | nil => exact ⟨hcleared, rfl⟩
  | cons move moves ih =>
      obtain ⟨hbusy, hoccupied⟩ := Bool.and_eq_true_iff.mp hoccupied
      obtain ⟨hframes, hcleared, hraised⟩ :=
        (transition_step queue move).cancels (hcalm move List.mem_cons_self) hbusy hframes hcleared
      obtain ⟨hlast, hrest⟩ := ih hoccupied (fun other hother => hcalm other (List.mem_cons_of_mem _ hother))
        hframes hcleared
      refine ⟨hlast, ?_⟩
      rw [run_cons, List.filterMap_append, List.append_assoc, hrest, hraised]

-- A report with this token answers false. It uses up the token, and nothing else changes.
def Refuses (queue : Queue μ ρ) (token : Token) : Prop :=
  queue.turn = .user → token ∈ queue.held → ∀ outcome reason, ∃ record,
    queue.step (.call (.complete token outcome reason)) =
      ({ queue with held := queue.held.erase token }, [.log record, .returned (.delivered false)])

-- No report is accepted while nothing is in progress.
theorem Cleared.refuses {queue : Queue μ ρ} (h : queue.Cleared) (token : Token) : queue.Refuses token := by
  intro hturn hheld outcome reason
  rw [step_complete queue token outcome reason hturn hheld]
  cases halive : queue.alive with
  | true =>
      have hnone : queue.inProgress.remove token.key = (none, queue.inProgress) := by
        rw [h.inProgress]
        rfl
      rw [complete_of_none queue token outcome reason halive (congrArg Prod.fst hnone), hnone]
      exact ⟨_, rfl⟩
  | false => exact ⟨_, complete_of_not_alive queue token outcome reason halive⟩

-- A drain takes everything off the lanes at once. It returns at once if nothing is tracked.
theorem step_drain (queue : Queue μ ρ) (hturn : queue.turn = .user) (hfree : queue.busy = false)
    (halive : queue.dropped = false) :
    let tracked := queue.inProgress.entries ++ queue.pending.entries
    queue.step (.call .drain) =
      if tracked = [] then ({ queue with inProgress := {}, pending := {} }, [.returned .done])
      else ({ queue with
        inProgress := {}, pending := {}, stack := .draining tracked tracked.length :: queue.stack }, []) := by
  intro tracked
  have hstep : queue.step (.call .drain) = queue.startDrain := by simp [step, hturn, answer, ifFree, hfree, halive]
  rw [hstep]
  unfold startDrain giveBack
  simp only [Lane.clear_fst, Lane.clear_snd, List.isEmpty_iff, tracked]

-- A call that was made in a delivery delivers nothing itself.
theorem Transition.deliveries_eq_nil {queue next : Queue μ ρ} {move : Move μ ρ} {events : List (Event μ ρ)}
    (h : Transition queue move next events) (hs : queue.Stacked) {frame : Frame μ ρ} {rest : List (Frame μ ρ)}
    (hstack : queue.stack = frame :: rest) (hrest : rest.any Frame.isDelivering = true) : deliveries events = [] := by
  cases h with
  | notify hdelivering | skip hdelivering =>
      obtain ⟨rfl, rfl⟩ := List.cons.inj (hstack.symm.trans hdelivering)
      exact absurd ((hs.fits hstack).1.symm.trans hrest) Bool.false_ne_true
  | _ => simp [deliveries, List.filterMap_cons]

theorem run_deliveries_eq_nil {queue : Queue μ ρ} (hs : queue.Stacked) {below : List (Frame μ ρ)}
    (hbelow : below <:+ queue.stack) (hdelivering : below.any Frame.isDelivering = true) {moves : List (Move μ ρ)}
    (hspans : queue.spans below.length moves = true) : deliveries (queue.run moves).2 = [] := by
  induction moves generalizing queue with
  | nil => rfl
  | cons move moves ih =>
      rw [spans, Bool.and_eq_true, decide_eq_true_eq] at hspans
      have hstep := transition_step queue move
      have hnone : deliveries (queue.step move).2 = [] := by
        obtain ⟨above, habove⟩ := hbelow
        cases above with
        | nil =>
            rw [← habove] at hspans
            exact absurd hspans.1 (Nat.lt_irrefl _)
        | cons frame above =>
            have hstack : queue.stack = frame :: (above ++ below) := habove.symm
            apply hstep.deliveries_eq_nil hs hstack
            rw [List.any_append, hdelivering, Bool.or_true]
      rw [run_cons, deliveries_append, hnone]
      rcases hstep.shift.keeps hbelow hspans.1 with hstays | hleft
      · exact ih (hstep.stacked hs) hstays hspans.2
      · obtain rfl := eq_nil_of_spans hspans.2 hleft.length_le
        rfl

-- A token that was out before some time at which nothing was in progress is refused for good.
theorem Sound.refuses_later {queue : Queue μ ρ} {admitted : List (MessageId × μ)} {past : List (Event μ ρ)}
    (h : queue.Sound admitted past) (hnone : queue.inProgress.slots = []) {issue : Token × μ}
    (hissue : issue ∈ dispatches past) (later : List (Move μ ρ)) : (queue.run later).1.Refuses issue.1 := by
  intro hturn hheld outcome reason
  have hissued : issue ∈ dispatches (past ++ (queue.run later).2) := by
    rw [dispatches_append]
    exact List.mem_append_left _ hissue
  rw [step_complete _ issue.1 outcome reason hturn hheld]
  exact (h.run later).complete_of_not_expects hissued outcome reason (h.not_expects_run hnone hissue later)

-- User code that finds the queue free is the owner's, or it is the notifier.
theorem Stacked.delivering_of_free {queue : Queue μ ρ} (h : queue.Stacked) (hturn : queue.turn = .user)
    (hfree : queue.busy = false) (hstack : queue.stack ≠ []) : queue.stack.any Frame.isDelivering = true := by
  obtain ⟨frame, rest, hcons⟩ := List.exists_cons_of_ne_nil hstack
  have huser := (turn_eq_user_iff queue).mp hturn frame (by rw [hcons]; rfl)
  have hfits := (h.fits hcons).1
  cases frame with
  | processing token message =>
      obtain ⟨bound, below, rfl⟩ := hfits
      simp [busy, hcons, Frame.holdsQueue] at hfree
  | notifying notice =>
      obtain ⟨below, rfl⟩ := hfits
      simp [hcons, Frame.isDelivering]
  | _ => exact absurd huser Bool.false_ne_true

-- A drain from its call to its return.
theorem drain_cancels {queue : Queue μ ρ} (hturn : queue.turn = .user) (hfree : queue.busy = false)
    (halive : queue.dropped = false) {during : List (Move μ ρ)}
    (hspans : (queue.step (.call .drain)).1.spans queue.stack.length during = true)
    (hcalm : ∀ move ∈ during, move.calm = true) :
    (∀ before, before <+: during → ((queue.step (.call .drain)).1.run before).1.Cleared) ∧
      (queue.run (.call .drain :: during)).2.filterMap Event.raised? =
        queue.cancellations.map fun notice => (.drain, notice) := by
  have hstep := queue.step_drain hturn hfree halive
  rw [run_cons]
  unfold cancellations
  by_cases htracked : queue.inProgress.entries ++ queue.pending.entries = []
  · rw [hstep, if_pos htracked] at hspans ⊢
    obtain rfl := eq_nil_of_spans hspans (Nat.le_refl _)
    refine ⟨fun before hbefore => ?_, by simp [htracked, run_nil, List.filterMap_cons]⟩
    obtain rfl := List.prefix_nil.mp hbefore
    exact ⟨rfl, rfl⟩
  · rw [hstep, if_neg htracked] at hspans ⊢
    obtain ⟨hoccupied, hend⟩ := occupied_of_spans (List.nil_append _).symm rfl hspans
    have hframes := any_of_not_holdsQueue queue.stack Frame.besidesDrain
      (fun frame hframe => by cases frame <;> simp_all [Frame.holdsQueue, Frame.besidesDrain]) hfree
    -- When the drain has returned, nobody owes a notice.
    have howed := owes_of_not_holdsQueue _ (any_eq_false_of_suffix _ hend hfree)
    constructor
    · rintro before ⟨after, rfl⟩
      rw [occupied_append, Bool.and_eq_true] at hoccupied
      exact (run_cancels hoccupied.1 (List.forall_mem_append.mp hcalm).1 hframes ⟨rfl, rfl⟩).1
    · have hraised := (run_cancels hoccupied hcalm hframes ⟨rfl, rfl⟩).2
      rw [owes, howed, List.append_nil] at hraised
      rw [List.nil_append, hraised, owes, List.flatMap_cons, owes_of_not_holdsQueue queue.stack hfree]
      simp [Function.comp_def]

theorem suffix_step_drain (queue : Queue μ ρ) (hturn : queue.turn = .user) (hfree : queue.busy = false)
    (halive : queue.dropped = false) :
    queue.stack <:+ (queue.step (.call .drain)).1.stack ∧ deliveries (queue.step (.call .drain)).2 = [] := by
  rw [queue.step_drain hturn hfree halive]
  split
  · exact ⟨List.suffix_refl _, rfl⟩
  · exact ⟨List.suffix_cons _ _, rfl⟩

-- The drain. All that is tracked is cancelled, what is in progress before what waits, and nothing else is
-- raised. Both lanes are as in a new queue from the call on until the drain returns, so that no report is
-- accepted in that time, and the tokens that were out when it was called are refused for good. Called from
-- outside, the drain delivers all of its notices; called by the notifier, it leaves them behind those that
-- wait already. It comes to its end whenever user code does.
theorem run_drains (settings : Settings) (observed : Bool) (past : List (Move μ ρ)) :
    let queue := ((make settings observed).run past).1
    let events := ((make settings observed).run past).2
    let started := (queue.step (.call .drain)).1
    let depth := queue.stack.length
    queue.turn = .user → queue.busy = false → queue.dropped = false →
      (queue.inProgress.entries.map Entry.labelled).Sublist ((dispatches events).map labelOf) ∧
      (queue.pending.entries.map Entry.labelled).Sublist ((make settings observed).admissions past) ∧
      (queue.cancellations.map fun notice => notice.id).Nodup ∧
      (∀ during, (∀ before, before <+: during → depth < (started.run before).1.stack.length) →
        ∃ later, (∀ move ∈ later, move.quiet = true) ∧ started.spans depth (during ++ later) = true) ∧
      ∀ during, started.spans depth during = true → (∀ move ∈ during, move.calm = true) →
        let told := (queue.run (.call .drain :: during)).2
        let final := (started.run during).1
        told.filterMap Event.raised? = queue.cancellations.map (fun notice => (.drain, notice)) ∧
        final.Cleared ∧
        (∀ before, before <+: during → ∀ token, (started.run before).1.Refuses token) ∧
        (∀ issue ∈ dispatches events, ∀ later, (final.run later).1.Refuses issue.1) ∧
        (queue.stack = [] → deliveries told ++ final.outbox = queue.outbox ++ queue.cancellations ∧
          (queue.cancellations ≠ [] → final.outbox = [])) ∧
        (queue.stack ≠ [] → deliveries told = [] ∧ final.outbox = queue.outbox ++ queue.cancellations) ∧
        ∀ later, deliveries (final.run later).2 ++ (final.run later).1.outbox =
          final.outbox ++ raises (final.run later).2 := by
  intro queue events started depth hturn hfree halive
  have hs : queue.Sound ((make settings observed).admissions past) events := sound_run settings observed past
  have hcalled : Called queue.stack := called_run settings observed past
  have hstarted : started.Sound _ _ := hs.step (.call .drain)
  refine ⟨hs.lane_inOrder .inProgress, hs.lane_inOrder .pending, ?_,
    fun during => exists_end started hstarted.stacked depth during, fun during hspans hcalm => ?_⟩
  · have hids : ((queue.inProgress.entries ++ queue.pending.entries).map fun entry => entry.id).Nodup := by
      rw [List.map_append, List.nodup_append]
      refine ⟨hs.inProgress_ids_nodup, hs.pending_ids_nodup, ?_⟩
      rintro _ hfirst _ hsecond rfl
      obtain ⟨entry, hentry, rfl⟩ := List.mem_map.mp hfirst
      obtain ⟨twin, htwin, hid⟩ := List.mem_map.mp hsecond
      have hstarted : entry ∈ (queue.lane .inProgress).entries := hentry
      have hwaiting : twin ∈ (queue.lane .pending).entries := htwin
      exact LaneName.noConfusion (hs.eq_of_id_eq hwaiting hstarted hid).1
    simpa [cancellations, Function.comp_def, Entry.notice] using hids
  · obtain ⟨hcleared, hraised⟩ := drain_cancels hturn hfree halive hspans hcalm
    intro told final
    have hraises : raises told = queue.cancellations := by
      rw [raises, hraised, List.map_map]
      exact List.map_id _
    have hfinal : final.Cleared := hcleared during (List.prefix_refl during)
    have htold : deliveries told ++ final.outbox = queue.outbox ++ queue.cancellations := by
      rw [← hraises]
      exact run_outbox queue (.call .drain :: during)
    refine ⟨hraised, hfinal, fun before hbefore => (hcleared before hbefore).refuses, ?_,
      fun hstack => ⟨htold, fun htracked => ?_⟩, fun hstack => ?_, run_outbox final⟩
    · intro issue hissue later
      have hissued : issue ∈ dispatches (events ++ (queue.step (.call .drain)).2 ++ (started.run during).2) := by
        rw [dispatches_append, dispatches_append]
        exact List.mem_append_left _ (List.mem_append_left _ hissue)
      exact (hstarted.run during).refuses_later (by rw [hfinal.inProgress]) hissued later
    · have hdepth : depth = 0 := by simp only [depth, hstack, List.length_nil]
      have hidle : final.stack = [] := List.length_eq_zero_iff.mp (Nat.le_zero.mp (hdepth ▸ length_of_spans hspans))
      have hdelivering : final.delivering = false := by
        rw [(hstarted.stacked.run during).delivering, hidle]
        rfl
      have hpanic : ∀ text, .panic text ∉ Move.call .drain :: during := by
        rintro text (_ | ⟨_, hmem⟩)
        exact absurd (hcalm _ hmem) Bool.false_ne_true
      rcases run_settles hs.stacked hcalled hpanic hdelivering with houtbox | ⟨hnone, -⟩
      · exact houtbox
      · exact absurd (hraises.symm.trans hnone) htracked
    · obtain ⟨hbelow, hquiet⟩ := suffix_step_drain queue hturn hfree halive
      have hnone : deliveries told = deliveries (queue.step (.call .drain)).2 ++ deliveries (started.run during).2 :=
        deliveries_append _ _
      rw [hquiet, List.nil_append, run_deliveries_eq_nil hstarted.stacked hbelow
        (hs.stacked.delivering_of_free hturn hfree hstack) hspans] at hnone
      rw [hnone, List.nil_append] at htold
      exact ⟨hnone, htold⟩

-- The notifier is told of the first of four messages and has reported the second, whose notice waits. The
-- third is in progress, and the fourth waits to be dispatched.
def insideNotice : List (Move String String) :=
  [.call (.enqueue "a"), .read (.time 0), .call (.enqueue "b"), .read (.time 0), .call (.enqueue "c"), .read (.time 0),
    .call .tick, .advance, .advance, .read (.time 1), .finish, .advance, .read (.time 1), .finish, .advance,
    .read (.time 1), .finish, .advance, .call (.enqueue "d"), .read (.time 2),
    .call (.complete ⟨3, ⟨0⟩⟩ .success none), .advance, .call (.complete ⟨4, ⟨1⟩⟩ .success none), .advance]

theorem run_drains_insideNotice :
    let queue : Queue String String := ((make {} true).run insideNotice).1
    let started := (queue.step (.call .drain)).1
    let during : List (Move String String) := [.advance, .advance, .advance]
    let second : Notice String String := { id := ⟨1⟩, message := "b", outcome := .success, reason := none }
    let third : Notice String String := { id := ⟨2⟩, message := "c", outcome := .cancelled, reason := none }
    let fourth : Notice String String := { id := ⟨3⟩, message := "d", outcome := .cancelled, reason := none }
    queue.turn = .user ∧ queue.busy = false ∧ queue.dropped = false ∧
      started.spans queue.stack.length during = true ∧ (∀ move ∈ during, move.calm = true) ∧
      (started.run during).1.Cleared ∧ (started.run during).1.outbox = [second, third, fourth] := by
  intro queue started during second third fourth
  have hspans : started.spans queue.stack.length during = true := rfl
  have hcalm : ∀ move ∈ during, move.calm = true := by decide
  have h := (run_drains {} true insideNotice rfl rfl rfl).2.2.2.2 during hspans hcalm
  exact ⟨rfl, rfl, rfl, hspans, hcalm, h.2.1, (h.2.2.2.2.2.1 (List.cons_ne_nil _ _)).2⟩

-- The same notifier drains the queue and then has a fifth message dispatched. It is told of the
-- cancellations after that.
def dispatchedSince : List (Move String String) :=
  insideNotice ++
    [.call .drain, .advance, .advance, .advance, .call (.enqueue "e"), .read (.time 3), .call .tick, .advance, .advance,
      .read (.time 3), .finish, .advance, .finish, .advance, .finish, .advance]

-- A report of the fifth message is accepted while the notifier is told that the third was cancelled.
theorem run_drains_dispatchedSince :
    let queue : Queue String String := ((make {} true).run dispatchedSince).1
    queue.stack.head? = some (.notifying { id := ⟨2⟩, message := "c", outcome := .cancelled, reason := none }) ∧
      ¬∀ token ∈ queue.held, queue.Refuses token := by
  intro queue
  refine ⟨rfl, fun hrefuses => ?_⟩
  have hheld : (⟨8, ⟨4⟩⟩ : Token) ∈ queue.held := by decide
  obtain ⟨record, hstep⟩ := hrefuses ⟨8, ⟨4⟩⟩ hheld rfl hheld .success none
  have hraised : 1 = 0 := congrArg (fun stepped : Stepped String String => (raises stepped.2).length) hstep
  exact absurd hraised Nat.one_ne_zero

end Queue

end DeadlineQueue
