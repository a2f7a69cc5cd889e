import DeadlineQueue.Proofs.Binding
import DeadlineQueue.Proofs.Losses

namespace DeadlineQueue

variable {μ ρ : Type}

-- User code that was not called from a call that holds the queue, nor in a delivery, is outside.
theorem Called.eq_nil_of_free {stack : List (Frame μ ρ)} (h : Called stack)
    (huser : ∀ frame ∈ stack.head?, frame.isUser = true) (hfree : stack.any Frame.holdsQueue = false)
    (hdelivering : stack.any Frame.isDelivering = false) : stack = [] := by
  cases stack with
  | nil => rfl
  | cons frame rest =>
      cases frame with
      | processing token message =>
          obtain ⟨bound, hbelow⟩ := h.1
          obtain ⟨below, rfl⟩ := List.head?_eq_some_iff.mp hbelow
          simp [Frame.holdsQueue] at hfree
      | notifying notice =>
          obtain ⟨below, rfl⟩ := List.head?_eq_some_iff.mp h.1
          simp [Frame.isDelivering] at hdelivering
      | _ => exact absurd (huser _ rfl) Bool.false_ne_true

namespace Queue

-- Where the queue is free: outside, or in the notifier while the outermost report is delivered.
theorem stack_of_free {queue : Queue μ ρ} (hstacked : queue.Stacked) (hcalled : Called queue.stack)
    (hturn : queue.turn = .user) (hfree : queue.busy = false) :
    queue.stack = [] ∨ ∃ notice, queue.stack = [.notifying notice, .delivering, .completing] := by
  have huser := (turn_eq_user_iff queue).mp hturn
  rw [busy] at hfree
  cases hdelivering : queue.stack.any Frame.isDelivering with
  | false => exact .inl (hcalled.eq_nil_of_free huser hfree hdelivering)
  | true =>
      obtain ⟨frame, rest, hstack⟩ : ∃ frame rest, queue.stack = frame :: rest :=
        List.exists_cons_of_ne_nil fun hnil => by simp [hnil] at hdelivering
      have hfits := hstacked.fits hstack
      rw [hstack] at hcalled huser hfree
      cases frame with
      | processing token message =>
          obtain ⟨bound, below, rfl⟩ := hfits.1
          simp [Frame.holdsQueue] at hfree
      | notifying notice =>
          obtain ⟨below, rfl⟩ := hfits.1
          obtain ⟨raiser, hbelow, hraises⟩ := hcalled.2.1
          obtain ⟨under, rfl⟩ := List.head?_eq_some_iff.mp hbelow
          cases raiser with
          | completing =>
              have hunder : under = [] := by
                apply hcalled.2.2.2.eq_nil_of_free hcalled.2.2.1
                · simpa [Frame.holdsQueue] using hfree
                · have hbelow : (Frame.completing :: under).any Frame.isDelivering = false := hfits.2.1
                  simpa [Frame.isDelivering] using hbelow
              exact .inr ⟨notice, by rw [hstack, hunder]⟩
          | _ => simp_all [Frame.holdsQueue, Frame.raises]
      | _ => exact absurd (huser _ rfl) Bool.false_ne_true

-- The calls that need the queue are refused after the drop, so that no call gets hold of it again.
theorem Transition.orphan {queue next : Queue μ ρ} {move : Move μ ρ} {events : List (Event μ ρ)}
    (h : Transition queue move next events) (hdropped : queue.dropped = true) (hfree : queue.busy = false) :
    next.dropped = true ∧ next.busy = false ∧ next.pending = queue.pending ∧ dispatches events = [] := by
  cases h with
  | complete =>
      refine ⟨by rwa [dropped_raise], ?_, by rw [pending_raise], rfl⟩
      rw [busy_raise]
      exact hfree
  | clockPanic text =>
      exact ⟨hdropped, any_eq_false_of_suffix _ (unwind_suffix queue queue.stack text) hfree, rfl, rfl⟩
  | panic text hstack =>
      exact ⟨hdropped, any_eq_false_of_suffix _ (unwind_suffix_of_cons queue hstack text) hfree, rfl, rfl⟩
  | _ => simp_all [Queue.busy, Frame.holdsQueue, dispatches, List.filterMap_cons]

theorem run_orphan {queue : Queue μ ρ} (hdropped : queue.dropped = true) (hfree : queue.busy = false)
    (moves : List (Move μ ρ)) :
    (queue.run moves).1.dropped = true ∧ (queue.run moves).1.busy = false ∧
      (queue.run moves).1.pending = queue.pending ∧ dispatches (queue.run moves).2 = [] := by
  induction moves generalizing queue with
  | nil => exact ⟨hdropped, hfree, rfl, rfl⟩
  | cons move moves ih =>
      obtain ⟨hnext, hfree, hpending, hnone⟩ := (transition_step queue move).orphan hdropped hfree
      obtain ⟨hlast, hfree, hkept, hlater⟩ := ih hnext hfree
      rw [run_cons, dispatches_append, hnone, hlater]
      exact ⟨hlast, hfree, hkept.trans hpending, rfl⟩

-- Nothing comes of a queue any more: it tells the processor and the notifier nothing, and every token
-- that is still out is used up in vain.
def Silent (queue : Queue μ ρ) : Prop :=
  ∀ later, raises (queue.run later).2 = [] ∧ deliveries (queue.run later).2 = [] ∧
    dispatches (queue.run later).2 = [] ∧ (queue.run later).1.turn = .user ∧
    ∀ token ∈ (queue.run later).1.held, ∀ outcome reason,
      (queue.run later).1.step (.call (.complete token outcome reason)) =
        ({ (queue.run later).1 with held := (queue.run later).1.held.erase token },
          [.log (.completedOrphan token.id), .returned (.delivered false)])

-- After the drop no call is made that could raise a notice, unless a report is running.
theorem Transition.silent {queue next : Queue μ ρ} {move : Move μ ρ} {events : List (Event μ ρ)}
    (h : Transition queue move next events) (hdropped : queue.dropped = true) (hstack : queue.stack = []) :
    next.stack = [] ∧ raises events = [] ∧ deliveries events = [] := by
  cases h with
  | complete outcome reason hturn hheld halive => simp [alive, hdropped, hstack] at halive
  | _ => simp_all [turn, raises, deliveries, List.filterMap_cons]

theorem silent_of_dropped {queue : Queue μ ρ} (hdropped : queue.dropped = true) (hstack : queue.stack = []) :
    queue.Silent := by
  have hfree : queue.busy = false := by rw [busy, hstack]; rfl
  have hquiet : ∀ later, (queue.run later).1.stack = [] ∧ raises (queue.run later).2 = [] ∧
      deliveries (queue.run later).2 = [] := by
    intro later
    induction later generalizing queue with
    | nil => exact ⟨hstack, rfl, rfl⟩
    | cons move moves ih =>
        have hstep := transition_step queue move
        obtain ⟨hnext, hraises, hdeliveries⟩ := hstep.silent hdropped hstack
        obtain ⟨hkept, hfree, -, -⟩ := hstep.orphan hdropped hfree
        obtain ⟨hlast, hraised, hdelivered⟩ := ih hkept hnext hfree
        rw [run_cons, raises_append, deliveries_append, hraises, hdeliveries, hraised, hdelivered]
        exact ⟨hlast, rfl, rfl⟩
  intro later
  obtain ⟨hlast, hraises, hdeliveries⟩ := hquiet later
  obtain ⟨hkept, -, -, hdispatches⟩ := run_orphan hdropped hfree later
  have hturn : (queue.run later).1.turn = .user := by rw [turn, hlast]
  have halive : (queue.run later).1.alive = false := by simp [alive, hkept, hlast]
  refine ⟨hraises, hdeliveries, hdispatches, hturn, fun token hheld outcome reason => ?_⟩
  rw [step_complete _ token outcome reason hturn hheld, complete_of_not_alive _ token outcome reason halive]

-- The outermost report keeps the queue alive until it returns, and when it does nothing waits.
theorem Transition.sheltered {queue next : Queue μ ρ} {move : Move μ ρ} {events : List (Event μ ρ)}
    (h : Transition queue move next events) (hstacked : queue.Stacked) (hflushed : queue.Flushed)
    (hcalm : move.calm = true) (hreport : [.completing] <:+ queue.stack) :
    [.completing] <:+ next.stack ∨
      queue.stack = [.completing] ∧ queue.outbox = [] ∧ events = [.returned (.delivered true)] := by
  cases h.reshape with
  | enter above hnew => exact .inl (hnew ▸ hreport.trans (List.suffix_append above _))
  | @replace frame rest above hold hframe hnew =>
      rw [hold, List.suffix_cons_iff] at hreport
      rcases hreport with hreport | hreport
      · obtain ⟨rfl, -⟩ := List.cons.inj hreport
        exact absurd hframe (by simp [Frame.isCompleting])
      · exact .inl (hnew ▸ hreport.trans (List.suffix_append above _))
  | completed hold hnew hevents =>
      have hbelow := hreport
      rw [hold, List.suffix_cons_iff] at hbelow
      rcases hbelow with hbelow | hbelow
      · obtain ⟨-, rfl⟩ := List.cons.inj hbelow
        exact .inr ⟨hold, hflushed (by rw [hstacked.delivering, hold]; rfl), hevents⟩
      · exact .inl (hnew ▸ hbelow)
  | unwound text hnew hevents => exact absurd (h.isPanic_of_calm hcalm) (by simp [hevents])

theorem run_reporting {queue : Queue μ ρ} (hdropped : queue.dropped = true) (hfree : queue.busy = false)
    (hreport : [.completing] <:+ queue.stack) (moves : List (Move μ ρ)) :
    [.completing] <:+ (queue.run moves).1.stack ∨ (queue.run moves).1.stack = [] := by
  have hrun := run_invariant (P := fun queue _ _ => (queue.dropped = true ∧ queue.busy = false) ∧
      ([.completing] <:+ queue.stack ∨ queue.stack = [])) moves
    (fun queue _ _ move _ ⟨⟨hdropped, hfree⟩, hstack⟩ => by
      have hstep := transition_step queue move
      obtain ⟨hkept, hnext, -, -⟩ := hstep.orphan hdropped hfree
      refine ⟨⟨hkept, hnext⟩, ?_⟩
      rcases hstack with hreport | hnone
      · exact (hstep.shift.stays rfl hreport).imp_right List.suffix_nil.mp
      · exact .inr (hstep.silent hdropped hnone).1)
    queue [] [] ⟨⟨hdropped, hfree⟩, .inl hreport⟩
  exact hrun.2

-- So whatever waits or is raised meanwhile is delivered before the outermost report returns.
theorem run_sheltered {queue : Queue μ ρ} (hstacked : queue.Stacked) (hflushed : queue.Flushed)
    (hreport : [.completing] <:+ queue.stack) {during : List (Move μ ρ)} (hcalm : ∀ move ∈ during, move.calm = true)
    (hspans : queue.spans 0 during = true) :
    (∃ before last, during = before ++ [last] ∧
      deliveries (queue.run before).2 = queue.outbox ++ raises (queue.run before).2 ∧
      ((queue.run before).1.step last).2 = [.returned (.delivered true)]) ∧
      (queue.run during).1.stack = [] := by
  have hdepth : queue.spans ([] : List (Frame μ ρ)).length during = true := hspans
  obtain ⟨before, last, rfl, hbefore, hend⟩ := exists_last_of_spans hdepth rfl hreport
  have hend := List.suffix_nil.mp hend
  have hkept : (queue.run before).1.Flushed :=
    run_invariant (P := fun queue _ _ => queue.Flushed) before
      (fun queue _ _ move hmove h => (transition_step queue move).flushed (hcalm move (List.mem_append_left _ hmove)) h)
      queue [] [] hflushed
  have hnext : ((queue.run before).1.step last).1.stack = [] := by
    rw [run_append] at hend
    exact hend
  rcases (transition_step _ last).sheltered (hstacked.run before) hkept (hcalm last (by simp)) hbefore with
    hstays | ⟨-, houtbox, hevents⟩
  · rw [hnext, List.suffix_nil] at hstays
    simp at hstays
  · have hdelivered := run_outbox queue before
    rw [houtbox, List.append_nil] at hdelivered
    exact ⟨⟨before, last, rfl, hdelivered, hevents⟩, hend⟩

-- What waits at the drop waits for good.
theorem orphans_pending (settings : Settings) (observed : Bool) (moves : List (Move μ ρ))
    (hdropped : ((make settings observed).run moves).1.dropped = true)
    (hfree : ((make settings observed).run moves).1.busy = false) {entry : Entry μ}
    (hentry : entry ∈ ((make settings observed).run moves).1.pending.entries) (later : List (Move μ ρ)) :
    ∀ notice ∈ deliveries (((make settings observed).run moves).1.run later).2, notice.id ≠ entry.id := by
  intro notice hnotice hid
  have hplaces := run_places settings observed (moves ++ later)
  have hids := ((hplaces.map Prod.fst).nodup_iff.mpr (sound_run settings observed (moves ++ later)).numbered.nodup)
  have hkept := (run_orphan hdropped hfree later).2.2.1
  have hraised : notice ∈ raises ((make settings observed).run (moves ++ later)).2 := by
    rw [raises_eq, run_append, deliveries_append]
    exact List.mem_append_left _ (List.mem_append_right _ hnotice)
  have hwaits : entry ∈ ((make settings observed).run (moves ++ later)).1.pending.entries := by
    rw [run_append]
    exact hkept ▸ hentry
  simp only [List.map_append, List.map_map, List.append_assoc] at hids
  obtain ⟨-, -, hdisjoint⟩ := List.nodup_append.mp hids
  refine hdisjoint entry.id (List.mem_map.mpr ⟨entry, hwaits, rfl⟩) notice.id ?_ hid.symm
  simp only [List.mem_append]
  exact .inr (.inr (.inl (List.mem_map.mpr ⟨notice, hraised, rfl⟩)))

-- A report in a queue that is still there answers whether its message is in progress, and raises just
-- the notice of that message.
theorem Sound.report {queue : Queue μ ρ} {admitted : List (MessageId × μ)} {past : List (Event μ ρ)}
    (hs : queue.Sound admitted past) (halive : queue.alive = true) (hturn : queue.turn = .user) {token : Token}
    (hheld : token ∈ queue.held) (outcome : Outcome) (reason : Option ρ) :
    let report : Move μ ρ := .call (.complete token outcome reason)
    let tracked := queue.inProgress.entries.find? (fun entry => entry.id = token.id)
    (∀ later reply, queue.reply? queue.stack.length (report :: later) = some reply →
      reply = .delivered tracked.isSome) ∧
      (∃ later, queue.reply? queue.stack.length (report :: later) = some (.delivered tracked.isSome)) ∧
      raises (queue.step report).2 = tracked.toList.map (fun entry => entry.notice outcome reason) := by
  intro report tracked
  obtain ⟨message, hissue⟩ := hs.exists_issue_of_held hheld
  have hremove : (queue.inProgress.remove token.key).1 = tracked := hs.remove_fst hissue
  have hexpects : queue.expects token = tracked.isSome := by
    rw [expects, halive, Bool.true_and, Bool.eq_iff_iff, List.any_eq_true, List.find?_isSome]
  have hstep : queue.step report = queue.complete token outcome reason :=
    step_complete queue token outcome reason hturn hheld
  cases htracked : tracked with
  | none =>
      rw [htracked] at hremove hexpects
      have hreply := hs.reply_of_not_expects hissue hturn hheld outcome reason hexpects
      refine ⟨fun later reply h => ?_, ⟨[], hreply []⟩, ?_⟩
      · rw [hreply later, Option.some.injEq] at h
        exact h.symm
      · rw [hstep, complete_of_none queue token outcome reason halive hremove]
        rfl
  | some entry =>
      rw [htracked] at hremove hexpects
      obtain ⟨hreply, hreplies⟩ := hs.reply_of_expects hissue hturn hheld outcome reason hexpects
      refine ⟨hreply, hreplies, ?_⟩
      rw [hstep, complete_of_some queue token outcome reason halive hremove]
      rfl

-- The end of a queue. The drop raises nothing, and warns of the messages that it leaves behind, if there
-- are any. What waits then is not heard of again. If no report is running, nothing at all is. If one
-- is, reports go on counting until it returns, all that was raised is delivered before it does, and
-- then nothing is heard any more.
theorem run_drops (settings : Settings) (observed : Bool) (moves : List (Move μ ρ))
    (hcalm : ∀ move ∈ moves, move.calm = true) (hturn : ((make settings observed).run moves).1.turn = .user)
    (hfree : ((make settings observed).run moves).1.busy = false)
    (halive : ((make settings observed).run moves).1.dropped = false) :
    let queue := ((make settings observed).run moves).1
    let left := (queue.step (.call .drop)).1
    left = { queue with dropped := true } ∧
      (queue.step (.call .drop)).2 =
        (if queue.size = 0 then [] else [.log (.queueDropped queue.pending.size queue.inProgress.size)]) ++
          [.returned .done] ∧
      (∀ entry ∈ queue.pending.entries, ∀ later,
        (∀ issue ∈ dispatches (left.run later).2, issue.1.id ≠ entry.id) ∧
          ∀ notice ∈ deliveries (left.run later).2, notice.id ≠ entry.id) ∧
      (queue.stack.any Frame.isCompleting = false → left.Silent) ∧
      (queue.stack.any Frame.isCompleting = true →
        (∀ during, (left.run during).1.stack ≠ [] → (left.run during).1.turn = .user →
          ∀ token ∈ (left.run during).1.held, ∀ outcome reason,
            let now := (left.run during).1
            let report : Move μ ρ := .call (.complete token outcome reason)
            let tracked := now.inProgress.entries.find? (fun entry => entry.id = token.id)
            (∀ later reply, now.reply? now.stack.length (report :: later) = some reply →
              reply = .delivered tracked.isSome) ∧
              (∃ later, now.reply? now.stack.length (report :: later) = some (.delivered tracked.isSome)) ∧
              raises (now.step report).2 = tracked.toList.map (fun entry => entry.notice outcome reason)) ∧
          (∀ during, (∀ move ∈ during, move.calm = true) → left.spans 0 during = true →
            (∃ before last, during = before ++ [last] ∧
              deliveries (left.run before).2 = queue.outbox ++ raises (left.run before).2 ∧
              ((left.run before).1.step last).2 = [.returned (.delivered true)]) ∧
              (left.run during).1.Silent) ∧
          ∃ during, (∀ move ∈ during, move.quiet = true) ∧ left.spans 0 during = true) := by
  intro queue left
  have hs : queue.Sound _ _ := sound_run settings observed moves
  have hflushed : queue.Flushed := (Balanced.run settings observed moves hcalm).flushed
  have hstep : queue.step (.call .drop) = ({ queue with dropped := true }, queue.drop.2) :=
    (Transition.drop hturn hfree halive).step_eq
  have hleft : left = { queue with dropped := true } := congrArg Prod.fst hstep
  have hdropped : left.dropped = true := by rw [hleft]
  have hfree' : left.busy = false := by rw [hleft]; exact hfree
  have hstack : left.stack = queue.stack := by rw [hleft]
  have hrun : ((make settings observed).run (moves ++ [.call .drop])).1 = left := by
    rw [run_append]
    rfl
  have houter := stack_of_free hs.stacked (called_run settings observed moves) hturn hfree
  have hbottom (hreports : queue.stack.any Frame.isCompleting = true) : [.completing] <:+ left.stack := by
    rw [hstack]
    rcases houter with hnone | ⟨notice, hsome⟩
    · have hnone : queue.stack = [] := hnone
      simp [hnone] at hreports
    · exact ⟨[.notifying notice, .delivering], hsome.symm⟩
  refine ⟨hleft, ?_, fun entry hentry later => ⟨?_, ?_⟩, fun hreports => ?_, fun hreports => ⟨?_, ?_, ?_⟩⟩
  · rw [hstep, Queue.drop]
    simp only [isEmpty, size, Lane.isEmpty, Lane.size, Nat.add_eq_zero_iff, List.length_eq_zero_iff,
      Bool.and_eq_true, List.isEmpty_iff]
  · rw [(run_orphan hdropped hfree' later).2.2.2]
    exact fun issue hissue => absurd hissue List.not_mem_nil
  · have hwaits := orphans_pending settings observed (moves ++ [.call .drop]) (by rw [hrun]; exact hdropped)
      (by rw [hrun]; exact hfree') (by rw [hrun, hleft]; exact hentry) later
    rwa [hrun] at hwaits
  · apply silent_of_dropped hdropped
    rcases houter with hnone | ⟨notice, hsome⟩
    · exact hstack.trans hnone
    · have hsome : queue.stack = _ := hsome
      simp [hsome, Frame.isCompleting] at hreports
  · intro during hrunning hturn token hheld outcome reason now report tracked
    have hnow : now.Sound _ _ := (hs.step (.call .drop)).run during
    have halive : now.alive = true := by
      have hrunning := (run_reporting hdropped hfree' (hbottom hreports) during).resolve_right hrunning
      have hcompleting := any_of_suffix (f := Frame.isCompleting) hrunning rfl
      rw [alive, hcompleting, Bool.or_true]
    exact hnow.report halive hturn hheld outcome reason
  · intro during hcalm hspans
    have houtbox : left.outbox = queue.outbox := by rw [hleft]
    have hkept : left.Flushed := by rw [hleft]; exact hflushed
    obtain ⟨hdelivered, hend⟩ :=
      run_sheltered (hs.step (.call .drop)).stacked hkept (hbottom hreports) hcalm hspans
    rw [← houtbox]
    exact ⟨hdelivered, silent_of_dropped (run_orphan hdropped hfree' during).1 hend⟩
  · obtain ⟨during, hquiet, hspans⟩ := left.exists_spans (hs.step (.call .drop)).stacked 0 0
    exact ⟨during, fun move hmove => by rcases hquiet move hmove with rfl | rfl | rfl <;> rfl, hspans⟩

-- One message is reported, one is in progress and one waits when the notifier drops the queue.
def droppedInside : List (Move String String) :=
  [.call (.enqueue "a"), .read (.time 0), .call (.enqueue "b"), .read (.time 0), .call .tick, .advance, .advance,
    .read (.time 1), .finish, .advance, .read (.time 1), .finish, .advance, .call (.enqueue "c"), .read (.time 2),
    .call (.complete ⟨2, ⟨0⟩⟩ .success none), .advance]

-- The message in progress is reported from the notifier, delivered after it, and that is the end.
theorem run_drops_droppedInside :
    let queue : Queue String String := ((make {} true).run droppedInside).1
    let left := (queue.step (.call .drop)).1
    let report : Move String String := .call (.complete ⟨3, ⟨1⟩⟩ .error none)
    (∀ move ∈ droppedInside, move.calm = true) ∧ queue.turn = .user ∧ queue.busy = false ∧ queue.dropped = false ∧
      (queue.step (.call .drop)).2 = [.log (.queueDropped 1 1), .returned .done] ∧
      raises (left.step report).2 = [{ id := ⟨1⟩, message := "b", outcome := .error, reason := none }] ∧
      left.spans 0 [report, .advance, .finish, .advance, .finish, .advance, .advance] = true ∧
      (left.run [report, .advance, .finish, .advance, .finish, .advance, .advance]).1.Silent := by
  intro queue left report
  have hcalm : ∀ move ∈ droppedInside, move.calm = true := by decide
  have hturn : queue.turn = .user := by decide +kernel
  have hfree : queue.busy = false := by decide +kernel
  have halive : queue.dropped = false := by decide +kernel
  have hreporting : queue.stack.any Frame.isCompleting = true := by decide +kernel
  have hspans : left.spans 0 [report, .advance, .finish, .advance, .finish, .advance, .advance] = true := by
    decide +kernel
  have hheld : (⟨3, ⟨1⟩⟩ : Token) ∈ left.held := by decide +kernel
  have hturn' : left.turn = .user := by decide +kernel
  obtain ⟨-, hwarns, -, -, hinside⟩ := run_drops {} true droppedInside hcalm hturn hfree halive
  obtain ⟨hreports, hdelivers, -⟩ := hinside hreporting
  have hraises := (hreports [] (List.cons_ne_nil _ _) hturn' ⟨3, ⟨1⟩⟩ hheld .error none).2.2
  have hsilent := (hdelivers _ (by decide) hspans).2
  exact ⟨hcalm, hturn, hfree, halive, hwarns.trans rfl, hraises.trans rfl, hspans, hsilent⟩

end Queue

end DeadlineQueue
