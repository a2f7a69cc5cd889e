import DeadlineQueue.Proofs.Binding
import DeadlineQueue.Proofs.Delivery

namespace DeadlineQueue

variable {μ ρ : Type}

namespace Queue

-- The moves of a delivery to a notifier that does nothing.
def delivery (queue : Queue μ ρ) : List (Move μ ρ) :=
  queue.outbox.flatMap (fun _ => [.advance, .finish]) ++ [.advance]

-- The same moves for a notifier that does nothing: what they raise is delivered at once.
def promptly (queue : Queue μ ρ) : List (Move μ ρ) → List (Move μ ρ)
  | [] => []
  | move :: moves =>
    let next := (queue.step move).1
    let served := if next.delivering then next.delivery else []
    move :: served ++ (next.run served).1.promptly moves

theorem promptly_append (queue : Queue μ ρ) (first second : List (Move μ ρ)) :
    queue.promptly (first ++ second) =
      queue.promptly first ++ (queue.run (queue.promptly first)).1.promptly second := by
  induction first generalizing queue with
  | nil => rfl
  | cons move moves ih => simp [promptly, ih, run_cons, run_append]

theorem run_delivery {queue : Queue μ ρ} {rest : List (Frame μ ρ)} (hstack : queue.stack = .delivering :: rest)
    (hobserved : queue.observed = true) :
    queue.run queue.delivery =
      ({ queue with outbox := [], delivering := false, stack := rest }, queue.outbox.map .notified) := by
  unfold delivery
  generalize houtbox : queue.outbox = outbox
  induction outbox generalizing queue with
  | nil => simp [run_cons, run_nil, (Transition.deliveredAll hstack houtbox).step_eq, houtbox]
  | cons notice outbox ih =>
      let notifying : Queue μ ρ := { queue with outbox, stack := .notifying notice :: .delivering :: rest }
      have hnotify : queue.step .advance = (notifying, [.notified notice]) :=
        (Transition.notify hstack houtbox hobserved).step_eq
      have hleave : notifying.stack = .notifying notice :: queue.stack := by rw [hstack]
      have hfinish : notifying.step .finish = ({ queue with outbox }, []) :=
        (Transition.finish hleave rfl).step_eq
      have hrest := @ih { queue with outbox } hstack hobserved rfl
      simp only [List.flatMap_cons, List.cons_append, List.nil_append, run_cons, hnotify, hfinish, hrest, List.map_cons]

-- The queue as it were if there were no other calls than these, and no notices waiting.
def alone (queue : Queue μ ρ) (above : List (Frame μ ρ)) : Queue μ ρ :=
  { queue with outbox := [], delivering := false, stack := above }

section alone

variable (queue : Queue μ ρ) (above : List (Frame μ ρ))

@[simp] theorem outbox_alone : (queue.alone above).outbox = [] := rfl
@[simp] theorem delivering_alone : (queue.alone above).delivering = false := rfl
@[simp] theorem stack_alone : (queue.alone above).stack = above := rfl

theorem alone_raise (source : Source) (notice : Notice μ ρ) :
    (queue.raise source notice).1.alone above = queue.alone above := by
  unfold raise
  cases queue.delivering <;> rfl

end alone

-- Calls that were made by the notifier while it is told of a notice. No call below holds the queue.
structure Nests (queue : Queue μ ρ) (above : List (Frame μ ρ)) (notice : Notice μ ρ) (below : List (Frame μ ρ)) :
    Prop where
  stack : queue.stack = above ++ .notifying notice :: below
  stacked : queue.Stacked
  free : below.any Frame.holdsQueue = false
  kept : queue.dropped = false
  observed : queue.observed = true

section Nests

variable {queue next : Queue μ ρ} {above below : List (Frame μ ρ)} {notice : Notice μ ρ} {move : Move μ ρ}
variable {events : List (Event μ ρ)}

theorem Nests.called (h : queue.Nests above notice below) : ∃ lower, below = .delivering :: lower := by
  have hnested := h.stacked.nested
  rw [h.stack] at hnested
  exact (hnested.suffix (List.suffix_append above _)).1

theorem Nests.delivering (h : queue.Nests above notice below) :
    queue.delivering = true ∧ above.any Frame.isDelivering = false := by
  obtain ⟨lower, rfl⟩ := h.called
  have hnested := h.stacked.nested
  rw [h.stacked.delivering]
  rw [h.stack] at hnested ⊢
  refine ⟨by simp [Frame.isDelivering], ?_⟩
  by_contra habove
  rw [Bool.not_eq_false] at habove
  simpa [Frame.isDelivering] using hnested.delivering_once habove

-- The calls above find the queue as they would without the calls below.
theorem Nests.turn (h : queue.Nests above notice below) : (queue.alone above).turn = queue.turn := by
  unfold Queue.turn
  rw [h.stack]
  cases above with
  | nil => rfl
  | cons frame rest => rfl

theorem Nests.busy (h : queue.Nests above notice below) : (queue.alone above).busy = queue.busy := by
  simp [Queue.busy, alone, h.stack, h.free, Frame.holdsQueue]

theorem Nests.alive (h : queue.Nests above notice below) : queue.alive = true ∧ (queue.alone above).alive = true := by
  simp [Queue.alive, alone, h.kept]

theorem Nests.exists_top (h : queue.Nests above notice below) {frame : Frame μ ρ} {rest : List (Frame μ ρ)}
    (hstack : queue.stack = frame :: rest) (hframe : frame.isUser = false) :
    ∃ top, above = frame :: top ∧ rest = top ++ .notifying notice :: below := by
  have hsplit := hstack.symm.trans h.stack
  rcases List.cons_eq_append_iff.mp hsplit with ⟨-, hbase⟩ | ⟨top, habove, hrest⟩
  · rw [← (List.cons.inj hbase).1] at hframe
    exact absurd hframe (by simp [Frame.isUser])
  · exact ⟨top, habove, hrest⟩

theorem Nests.not_awaits (h : queue.Nests above notice below) (hidle : ¬queue.Awaits move) :
    ¬(queue.alone above).Awaits move := by
  cases move with
  | advance | read | call => simpa [Awaits, h.turn] using hidle
  | finish | panic =>
      have hstack : queue.stack ≠ [] := by simp [h.stack]
      intro hawaits
      exact hidle ⟨h.turn ▸ hawaits.1, hstack⟩

-- A step of the calls above, said of these calls only. What it raises is not delivered in it.
inductive Mirrored (queue : Queue μ ρ) (above base : List (Frame μ ρ)) (move : Move μ ρ) (next : Queue μ ρ)
    (events : List (Event μ ρ)) : Prop where
  | plain (top : List (Frame μ ρ)) (hstack : next.stack = top ++ base) (hraises : raises events = [])
      (hstep : Transition (queue.alone above) move (next.alone top) events)
  | raised (top : List (Frame μ ρ)) (source : Source) (raised : Notice μ ρ) (hstack : next.stack = top ++ base)
      (hraises : raises events = [raised])
      (hstep : Transition (queue.alone above) move ((next.alone top).raise source raised).1 events)

-- A notice that is raised waits for the delivery below, and would be delivered at once without it.
theorem Mirrored.raise {base : List (Frame μ ρ)} (top : List (Frame μ ρ)) {source : Source} {raised : Notice μ ρ}
    (hdelivering : next.delivering = true) (hstack : next.stack = top ++ base) (hraises : raises events = [raised])
    (hstep : Transition (queue.alone above) move ((next.alone top).raise source raised).1 events) :
    Mirrored queue above base move (next.raise source raised).1 events := by
  refine .raised top source raised ?_ hraises ?_
  · rw [stack_raise, if_pos hdelivering, hstack]
  · rwa [alone_raise]

theorem Nests.mirrored_advance (h : queue.Nests above notice below) (hstep : Transition queue .advance next events) :
    Mirrored queue above (.notifying notice :: below) .advance next events := by
  have hdelivering := h.delivering
  cases hstep with
  | idle _ hidle => exact .plain above h.stack rfl (.idle _ (h.not_awaits hidle))
  | @scan now name scan scans rest hstack =>
      obtain ⟨top, rfl, rfl⟩ := h.exists_top hstack rfl
      have hscanning : (queue.alone (.scanning now ((name, scan) :: scans) :: top)).stack =
          .scanning now ((name, scan) :: scans) :: top := rfl
      refine .plain (.retiring name _ :: .scanning now scans :: top) rfl (by simp [raises]) ?_
      cases name <;> exact .scan hscanning
  | scannedAll hstack =>
      obtain ⟨top, rfl, rfl⟩ := h.exists_top hstack rfl
      exact .plain (.gathering :: top) rfl rfl (.scannedAll rfl)
  | @retire name entry batch rest hstack =>
      obtain ⟨top, rfl, rfl⟩ := h.exists_top hstack rfl
      exact .raise (.retiring name batch :: top) hdelivering.1 rfl rfl (.retire rfl)
  | retiredAll hstack =>
      obtain ⟨top, rfl, rfl⟩ := h.exists_top hstack rfl
      exact .plain top rfl rfl (.retiredAll rfl)
  | nothingPending hstack hkey =>
      obtain ⟨top, rfl, rfl⟩ := h.exists_top hstack rfl
      exact .plain top rfl rfl (.nothingPending rfl hkey)
  | @gather bound rest hstack hkey =>
      obtain ⟨top, rfl, rfl⟩ := h.exists_top hstack rfl
      exact .plain (.dispatching bound :: top) rfl rfl (.gather rfl hkey)
  | dispatchedAll hstack hpop =>
      obtain ⟨top, rfl, rfl⟩ := h.exists_top hstack rfl
      exact .plain top rfl rfl (.dispatchedAll rfl hpop)
  | @pop bound entry rest hstack hpop =>
      obtain ⟨top, rfl, rfl⟩ := h.exists_top hstack rfl
      exact .plain (.starting bound entry :: top) rfl rfl (.pop rfl hpop)
  | @cancel entry batch total rest hstack =>
      obtain ⟨top, rfl, rfl⟩ := h.exists_top hstack rfl
      exact .raise (.draining batch total :: top) hdelivering.1 rfl rfl (.cancel rfl)
  | cancelledAll hstack =>
      obtain ⟨top, rfl, rfl⟩ := h.exists_top hstack rfl
      exact .plain top rfl rfl (.cancelledAll rfl)
  | completed hstack =>
      obtain ⟨top, rfl, rfl⟩ := h.exists_top hstack rfl
      exact .plain top rfl rfl (.completed rfl)
  | deliveredAll hstack | notify hstack | skip hstack =>
      -- The delivery that runs is below.
      obtain ⟨top, rfl, rfl⟩ := h.exists_top hstack rfl
      exact absurd hdelivering.2 (by simp [Frame.isDelivering])

theorem Nests.mirrored_read (h : queue.Nests above notice below) {reading : Reading}
    (hstep : Transition queue (.read reading) next events) (hcalm : (Move.read reading : Move μ ρ).calm = true) :
    Mirrored queue above (.notifying notice :: below) (.read reading) next events := by
  cases hstep with
  | idle _ hidle => exact .plain above h.stack rfl (.idle _ (h.not_awaits hidle))
  | accept now hstack =>
      obtain ⟨top, rfl, rfl⟩ := h.exists_top hstack rfl
      exact .plain top rfl (by simp [raises]) (.accept now rfl)
  | @sweep scans rest now hstack =>
      obtain ⟨top, rfl, rfl⟩ := h.exists_top hstack rfl
      exact .plain (.scanning now scans :: top) rfl rfl (.sweep now rfl)
  | @start bound entry rest now hstack =>
      obtain ⟨top, rfl, rfl⟩ := h.exists_top hstack rfl
      exact .plain (.processing _ entry.message :: .dispatching bound :: top) rfl (by simp [raises]) (.start now rfl)
  | reject fault hstack =>
      obtain ⟨top, rfl, rfl⟩ := h.exists_top hstack rfl
      exact .plain top rfl rfl (.reject fault rfl)
  | sweepUnread fault hstack =>
      obtain ⟨top, rfl, rfl⟩ := h.exists_top hstack rfl
      exact .plain (.gathering :: top) rfl rfl (.sweepUnread fault rfl)
  | @startUnread bound entry rest fault hstack =>
      obtain ⟨top, rfl, rfl⟩ := h.exists_top hstack rfl
      exact .raise (.dispatching bound :: top) h.delivering.1 rfl rfl (.startUnread fault rfl)
  | clockPanic => exact absurd hcalm Bool.false_ne_true

-- The calls below do not hold the queue, so a call is answered as it would be without them.
theorem Nests.mirrored_call (h : queue.Nests above notice below) {call : Call μ ρ}
    (hstep : Transition queue (.call call) next events) (hkeeps : (Move.call call : Move μ ρ) ≠ .call .drop) :
    Mirrored queue above (.notifying notice :: below) (.call call) next events := by
  have huser : queue.turn = .user → (queue.alone above).turn = .user := h.turn.trans
  have hfree : queue.busy = false → (queue.alone above).busy = false := h.busy.trans
  cases hstep with
  | idle _ hidle => exact .plain above h.stack rfl (.idle _ (h.not_awaits hidle))
  | busy hturn hcall hbusy => exact .plain above h.stack rfl (.busy (huser hturn) hcall (h.busy.trans hbusy))
  | dropped hturn hcall hfree' hdropped =>
      rw [h.kept] at hdropped
      exact absurd hdropped Bool.false_ne_true
  | noToken hturn hcall hheld => exact .plain above h.stack rfl (.noToken (huser hturn) hcall hheld)
  | enqueue message hturn hfree' =>
      exact .plain (.enqueuing message :: above) (by simp [h.stack]) rfl
        (.enqueue message (huser hturn) (hfree hfree') h.kept)
  | tick hturn hfree' _ hscans =>
      exact .plain (.sweeping queue.limits.scans :: above) (by simp [h.stack]) rfl
        (.tick (huser hturn) (hfree hfree') h.kept hscans)
  | tickUnlimited hturn hfree' _ hscans =>
      exact .plain (.gathering :: above) (by simp [h.stack]) rfl
        (.tickUnlimited (huser hturn) (hfree hfree') h.kept hscans)
  | drain hturn hfree' _ htracked =>
      exact .plain (.draining (queue.inProgress.entries ++ queue.pending.entries) _ :: above) (by rw [h.stack]; rfl) rfl
        (.drain (huser hturn) (hfree hfree') h.kept htracked)
  | drainEmpty hturn hfree' _ htracked =>
      exact .plain above h.stack rfl (.drainEmpty (huser hturn) (hfree hfree') h.kept htracked)
  | setLimits limits hturn hfree' =>
      exact .plain above h.stack rfl (.setLimits limits (huser hturn) (hfree hfree') h.kept)
  | drop => exact absurd rfl hkeeps
  | @complete token entry outcome reason hturn hheld halive hentry =>
      exact .raise (.completing :: above) h.delivering.1 (congrArg (List.cons .completing) h.stack) rfl
        (.complete outcome reason (huser hturn) hheld h.alive.2 hentry)
  | completeLate outcome reason hturn hheld halive hentry =>
      exact .plain above h.stack rfl (.completeLate outcome reason (huser hturn) hheld h.alive.2 hentry)
  | completeOrphan outcome reason hturn hheld halive =>
      rw [h.alive.1] at halive
      exact absurd halive Bool.noConfusion
  | @dropToken token hturn hheld =>
      have hevents : (queue.dropToken token).2 = ((queue.alone above).dropToken token).2 := by
        simp only [Queue.dropToken, h.alive]
        rfl
      rw [hevents]
      exact .plain above h.stack (by simp [raises]) (.dropToken (huser hturn) hheld)

theorem Nests.mirrored (h : queue.Nests above notice below) (hstep : Transition queue move next events)
    (hcalm : move.calm = true) (hkeeps : move ≠ .call .drop) (hlength : below.length < next.stack.length) :
    Mirrored queue above (.notifying notice :: below) move next events := by
  cases move with
  | advance => exact h.mirrored_advance hstep
  | read reading => exact h.mirrored_read hstep hcalm
  | call call => exact h.mirrored_call hstep hkeeps
  | panic text => exact absurd hcalm Bool.false_ne_true
  | finish =>
      cases hstep with
      | idle _ hidle => exact .plain above h.stack rfl (.idle _ (h.not_awaits hidle))
      | @finish frame rest hstack hframe =>
          have hsplit := hstack.symm.trans h.stack
          rcases List.cons_eq_append_iff.mp hsplit with ⟨-, hbase⟩ | ⟨top, rfl, rfl⟩
          · -- The notifier itself does not return.
            rw [(List.cons.inj hbase).2] at hlength
            exact absurd hlength (Nat.lt_irrefl _)
          · exact .plain top rfl rfl (.finish rfl hframe)

-- The calls above deliver nothing in a step. With the delivery after it nothing is left to deliver.
theorem Mirrored.serve {base : List (Frame μ ρ)} (h : Mirrored queue above base move next events)
    (hobserved : next.observed = true) :
    ∃ top, next.stack = top ++ base ∧ deliveries events = [] ∧
      (queue.alone above).run ((queue.alone above).promptly [move]) =
        (next.alone top, events ++ (raises events).map .notified) := by
  cases h with
  | plain top hstack hraises hstep =>
      have hquiet : deliveries events = [] := by simpa [hraises] using hstep.outbox
      refine ⟨top, hstack, hquiet, ?_⟩
      simp [promptly, hstep.step_eq, run_cons, run_nil, hraises]
  | raised top source raised hstack hraises hstep =>
      let outside : Queue μ ρ := ((next.alone top).raise source raised).1
      have hquiet : deliveries events = [] := by simpa [hraises] using hstep.outbox
      have hserved : outside.run outside.delivery = (next.alone top, [.notified raised]) := by
        have hstack : outside.stack = .delivering :: top := rfl
        rw [run_delivery hstack hobserved]
        rfl
      refine ⟨top, hstack, hquiet, ?_⟩
      simp [promptly, hstep.step_eq, run_cons, outside, hserved, hraises]

theorem Transition.dropped_eq (h : Transition queue move next events) (hkeeps : move ≠ .call .drop) :
    next.dropped = queue.dropped := by
  cases h with
  | drop => exact absurd rfl hkeeps
  | _ => simp [append, unwind]

theorem Nests.step (h : queue.Nests above notice below) (hcalm : move.calm = true) (hkeeps : move ≠ .call .drop)
    (hlength : below.length < (queue.step move).1.stack.length) :
    ∃ top, (queue.step move).1.Nests top notice below ∧ deliveries (queue.step move).2 = [] ∧
      (queue.alone above).run ((queue.alone above).promptly [move]) =
        ((queue.step move).1.alone top, (queue.step move).2 ++ (raises (queue.step move).2).map .notified) := by
  have hstep := transition_step queue move
  have hobserved := hstep.observed.trans h.observed
  obtain ⟨top, hstack, hquiet, hserved⟩ := (h.mirrored hstep hcalm hkeeps hlength).serve hobserved
  exact ⟨top, ⟨hstack, hstep.stacked h.stacked, h.free, (hstep.dropped_eq hkeeps).trans h.kept, hobserved⟩, hquiet,
    hserved⟩

theorem deliveries_notified (notices : List (Notice μ ρ)) : deliveries (notices.map .notified) = notices := by
  rw [deliveries, List.filterMap_map]
  exact List.filterMap_some

theorem filter_of_deliveries_eq_nil (hquiet : deliveries events = []) :
    events.filter (fun event => event.delivered?.isNone) = events := by
  rw [List.filter_eq_self]
  intro event hevent
  rw [List.filterMap_eq_nil_iff.mp hquiet event hevent]
  rfl

theorem lt_of_spans {depth : Nat} {moves : List (Move μ ρ)} {last : Move μ ρ}
    (hspans : queue.spans depth (moves ++ [last]) = true) : depth < queue.stack.length := by
  cases moves with
  | nil => exact of_decide_eq_true (Bool.and_eq_true_iff.mp hspans).1
  | cons move moves => exact of_decide_eq_true (Bool.and_eq_true_iff.mp hspans).1

-- One call at most returns in a step of user code.
theorem length_finish (queue : Queue μ ρ) : queue.stack.length ≤ (queue.step .finish).1.stack.length + 1 := by
  unfold Queue.step
  dsimp only
  split
  · rw [List.length_tail]
    omega
  · exact Nat.le_succ _

-- As long as the notifier is running.
theorem Nests.run (h : queue.Nests above notice below) {moves : List (Move μ ρ)}
    (hmoves : ∀ move ∈ moves, move.calm = true ∧ move ≠ .call .drop)
    (hspans : queue.spans below.length (moves ++ [.finish]) = true) :
    (queue.run moves).1.Nests [] notice below ∧ deliveries (queue.run moves).2 = [] ∧
      ∃ events, (queue.alone above).run ((queue.alone above).promptly moves) = ((queue.run moves).1.alone [], events) ∧
        events.filter (fun event => event.delivered?.isNone) = (queue.run moves).2 ∧
        deliveries events = raises (queue.run moves).2 := by
  induction moves generalizing queue above with
  | nil =>
      -- Nothing is left above the notifier when it returns.
      have hfinish := queue.length_finish
      have hend := length_of_spans hspans
      rw [h.stack, List.length_append, List.length_cons] at hfinish
      simp only [List.nil_append, run_cons, run_nil] at hend
      obtain rfl : above = [] := List.eq_nil_of_length_eq_zero (by omega)
      exact ⟨h, rfl, [], rfl, rfl, rfl⟩
  | cons move moves ih =>
      obtain ⟨hcalm, hkeeps⟩ := hmoves move List.mem_cons_self
      rw [List.cons_append, spans, Bool.and_eq_true] at hspans
      have hlength : below.length < (queue.step move).1.stack.length := lt_of_spans hspans.2
      obtain ⟨top, hnext, hquiet, hserved⟩ := h.step hcalm hkeeps hlength
      obtain ⟨hlast, hquiet', events, hrun, hfilter, hdeliveries⟩ :=
        ih hnext (fun other hother => hmoves other (List.mem_cons_of_mem _ hother)) hspans.2
      have hevents : deliveries (queue.run (move :: moves)).2 = [] := by
        rw [run_cons, deliveries_append, hquiet, hquiet', List.append_nil]
      refine ⟨hlast, hevents, (queue.step move).2 ++ (raises (queue.step move).2).map .notified ++ events, ?_, ?_, ?_⟩
      · rw [← List.singleton_append, promptly_append, run_append, hserved, hrun]
        rfl
      · rw [List.filter_append, List.filter_append, hfilter, filter_of_deliveries_eq_nil hquiet, run_cons]
        simp [List.filter_map]
      · rw [deliveries_append, deliveries_append, hquiet, hdeliveries, deliveries_notified, run_cons, raises_append]
        rfl

end Nests

-- A report from outside that counts: the notifier is called, and when it returns so does the report.
theorem Sound.run_report {queue : Queue μ ρ} {admitted : List (MessageId × μ)} {past : List (Event μ ρ)}
    (hs : queue.Sound admitted past) (hidle : queue.stack = []) (houtbox : queue.outbox = [])
    (hobserved : queue.observed = true) {token : Token} (hheld : token ∈ queue.held)
    (hexpects : queue.expects token = true) (outcome : Outcome) (reason : Option ρ) :
    let report : List (Move μ ρ) := [.call (.complete token outcome reason), .advance]
    let inside := (queue.run report).1
    ∃ notice, notice.id = token.id ∧ inside.Nests [] notice [.delivering, .completing] ∧ inside.outbox = [] ∧
      queue.run (queue.promptly report) = (inside.alone [], (queue.run report).2 ++ [.returned (.delivered true)]) := by
  intro report inside
  obtain ⟨message, hissue⟩ := hs.exists_issue_of_held hheld
  obtain ⟨entry, _, _, hlabelled, -, -, hcomplete⟩ := hs.complete_of_expects hissue outcome reason hexpects
  have hturn : queue.turn = .user := by simp [turn, hidle]
  have hdelivering : queue.delivering = false := by rw [hs.stacked.delivering, hidle]; rfl
  have hkept : queue.dropped = false := by
    have halive := (Bool.and_eq_true_iff.mp hexpects).1
    simpa [alive, hidle] using halive
  let notice := entry.notice outcome reason
  let start : Queue μ ρ := ((queue.reporting token).raise .token notice).1
  have hreport : queue.step (.call (.complete token outcome reason)) =
      (start, [.log (.completed entry.id outcome), .raised .token notice]) :=
    (step_complete queue token outcome reason hturn hheld).trans hcomplete
  have hstack : start.stack = [.delivering, .completing] := by
    have hreporting : (queue.reporting token).stack = .completing :: queue.stack := rfl
    have hidle' : (queue.reporting token).delivering = false := hdelivering
    rw [stack_raise, hidle', hreporting, hidle]
    rfl
  have hwaiting : start.outbox = [notice] := by
    rw [outbox_raise]
    exact congrArg (· ++ [notice]) houtbox
  have hobserved' : start.observed = true := (observed_raise _ _ _).trans hobserved
  have hnotify := (Transition.notify hstack hwaiting hobserved').step_eq
  have hrun : queue.run report = ({ start with outbox := [], stack := [.notifying notice, .delivering, .completing] },
      [.log (.completed entry.id outcome), .raised .token notice, .notified notice]) := by
    simp only [report, run_cons, run_nil, hreport, hnotify]
    rfl
  have hinside : inside = { start with outbox := [], stack := [.notifying notice, .delivering, .completing] } :=
    congrArg Prod.fst hrun
  -- The delivery of this notice, and the return of the report.
  let delivered : Queue μ ρ := { start with outbox := [], delivering := false, stack := [.completing] }
  have hserved : start.run start.delivery = (delivered, [.notified notice]) := by
    rw [run_delivery hstack hobserved', hwaiting]
    rfl
  have hreturn : delivered.step .advance = (inside.alone [], [.returned (.delivered true)]) := by
    rw [hinside]
    exact (Transition.completed rfl).step_eq
  refine ⟨notice, congrArg Prod.fst hlabelled, ⟨?_, ?_, rfl, ?_, ?_⟩, ?_, ?_⟩
  · rw [hinside]
    rfl
  · exact hs.stacked.run report
  · rw [hinside]
    exact (dropped_raise _ _ _).trans hkept
  · rw [hinside]
    exact hobserved'
  · rw [hinside]
  · have hstarting : start.delivering = true := delivering_raise _ _ _
    simp [promptly, report, hrun, hreport, hstarting, hserved, hreturn, run_cons, run_append, run_nil]

-- Re-entrant calls are deferred ones. Calls that the notifier makes while it is told of a message
-- reported from outside do what the same calls do right after that report has returned, with a notifier
-- that does nothing: the same happens in the same order, but for the deliveries, and it comes to the same
-- state and the same deliveries in the end.
theorem run_deferred {queue : Queue μ ρ} {token : Token} {outcome : Outcome} {reason : Option ρ}
    {moves : List (Move μ ρ)} (hreachable : queue.Reachable) (hidle : queue.stack = []) (houtbox : queue.outbox = [])
    (hobserved : queue.observed = true) (hheld : token ∈ queue.held) (hexpects : queue.expects token = true)
    (hmoves : ∀ move ∈ moves, move.calm = true ∧ move ≠ .call .drop)
    (hspans : (queue.run [.call (.complete token outcome reason), .advance]).1.spans 2 (moves ++ [.finish]) = true) :
    let report : List (Move μ ρ) := [.call (.complete token outcome reason), .advance]
    let inside := (queue.run report).1
    let within := inside.run moves
    let nested := queue.run (report ++ moves ++ .finish :: within.1.delivery ++ [.advance])
    let outside := queue.run (queue.promptly report)
    let after := outside.1.run (outside.1.promptly moves)
    (∃ notice, notice.id = token.id ∧ inside.stack = [.notifying notice, .delivering, .completing]) ∧
      outside.1.stack = [] ∧ outside.2.getLast? = some (.returned (.delivered true)) ∧
      nested.2.getLast? = some (.returned (.delivered true)) ∧
      after.2.filter (fun event => event.delivered?.isNone) = within.2 ∧
      after.1 = nested.1 ∧ after.1.stack = [] ∧ deliveries (outside.2 ++ after.2) = deliveries nested.2 := by
  intro report inside within nested outside after
  obtain ⟨admitted, past, hs⟩ := hreachable.sound
  obtain ⟨notice, hid, hinside, hempty, hpromptly⟩ :=
    hs.run_report hidle houtbox hobserved hheld hexpects outcome reason
  obtain ⟨hlast, hnone, events, hevents, hfilter, hdeliveries⟩ := hinside.run hmoves hspans
  have houtside : outside = (inside.alone [], (queue.run report).2 ++ [.returned (.delivered true)]) := hpromptly
  have hquiet : deliveries within.2 = [] := hnone
  have hafter : after = (within.1.alone [], events) := by
    simp only [after, houtside]
    exact hevents
  have hwaiting : within.1.outbox = raises within.2 := by
    have houtgoing := run_outbox inside moves
    rwa [hnone, hempty, List.nil_append, List.nil_append] at houtgoing
  -- The notifier returns, then the notices that have waited are delivered, then the report returns.
  let closing : Queue μ ρ := { within.1 with stack := [.delivering, .completing] }
  let served : Queue μ ρ := { within.1 with outbox := [], delivering := false, stack := [.completing] }
  have hclosing : closing.stack = [.delivering, .completing] := rfl
  have hfinish : within.1.step .finish = (closing, []) := (Transition.finish hlast.stack rfl).step_eq
  have hserved : closing.run within.1.delivery = (served, within.1.outbox.map .notified) :=
    run_delivery hclosing hlast.observed
  have hreturn : served.step .advance = (within.1.alone [], [.returned (.delivered true)]) :=
    (Transition.completed rfl).step_eq
  have hnested : nested = (within.1.alone [],
      (queue.run report).2 ++ within.2 ++ within.1.outbox.map .notified ++ [.returned (.delivered true)]) := by
    simp only [nested, run_append, run_cons, run_nil, hfinish, hserved, hreturn, List.nil_append, List.append_nil,
      inside, within]
  refine ⟨⟨notice, hid, hinside.stack⟩, ?_, ?_, ?_, ?_, ?_, ?_, ?_⟩
  · rw [houtside]
    rfl
  · rw [houtside, List.getLast?_concat]
  · rw [hnested, List.getLast?_concat]
  · rw [hafter]
    exact hfilter
  · rw [hafter, hnested]
  · rw [hafter]
    rfl
  · have hreturned : deliveries [Event.returned (.delivered true)] = ([] : List (Notice μ ρ)) := rfl
    rw [houtside, hafter, hnested]
    simp only [deliveries_append, hreturned, hquiet, hwaiting, deliveries_notified, List.append_nil]
    exact congrArg _ hdeliveries

-- The processor has kept the token of the first message.
def firstKept : Queue String String :=
  ((make {} true).run [.call (.enqueue "a"), .read (.time 0), .call .tick, .advance, .advance, .read (.time 0), .finish,
    .advance]).1

def firstReport : List (Move String String) :=
  [.call (.complete ⟨1, ⟨0⟩⟩ .success none), .advance]

-- A second message is admitted and dispatched, and reported while it is processed.
def secondReported : List (Move String String) :=
  [.call (.enqueue "b"), .read (.time 1), .call .tick, .advance, .advance, .read (.time 2),
    .call (.complete ⟨3, ⟨1⟩⟩ .error (some "why")), .advance, .finish, .advance]

theorem run_deferred_secondReported :
    let within := (firstKept.run firstReport).1.run secondReported
    let nested := firstKept.run (firstReport ++ secondReported ++ .finish :: within.1.delivery ++ [.advance])
    let outside := firstKept.run (firstKept.promptly firstReport)
    let after := outside.1.run (outside.1.promptly secondReported)
    firstKept.Reachable ∧ firstKept.expects ⟨1, ⟨0⟩⟩ = true ∧
      (firstKept.run firstReport).1.spans 2 (secondReported ++ [.finish]) = true ∧
      after.2.filter (fun event => event.delivered?.isNone) = within.2 ∧ after.1 = nested.1 ∧
      dispatches within.2 = [(⟨3, ⟨1⟩⟩, "b")] ∧
      deliveries nested.2 = [⟨⟨0⟩, "a", .success, none⟩, ⟨⟨1⟩, "b", .error, some "why"⟩] := by
  intro within nested outside after
  have hreachable : firstKept.Reachable := ⟨_, _, _, rfl⟩
  have hheld : ⟨1, ⟨0⟩⟩ ∈ firstKept.held := by decide
  have hexpects : firstKept.expects ⟨1, ⟨0⟩⟩ = true := rfl
  have hmoves : ∀ move ∈ secondReported, move.calm = true ∧ move ≠ .call .drop := by simp [secondReported, Move.calm]
  have hspans : (firstKept.run firstReport).1.spans 2 (secondReported ++ [.finish]) = true := rfl
  obtain ⟨-, -, -, -, hsame, hstate, -, -⟩ := run_deferred hreachable rfl rfl rfl hheld hexpects hmoves hspans
  exact ⟨hreachable, hexpects, hspans, hsame, hstate, rfl, rfl⟩

end Queue

end DeadlineQueue
