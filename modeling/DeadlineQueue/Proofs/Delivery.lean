import DeadlineQueue.Proofs.Callers
import DeadlineQueue.Proofs.Progress
import DeadlineQueue.Proofs.Sound
import Mathlib.Data.List.Induction

namespace DeadlineQueue

variable {μ ρ : Type}

-- The notice with which the notifier was called.
@[simp] def Event.notified? : Event μ ρ → Option (Notice μ ρ)
  | .notified notice => some notice
  | _ => none

instance : Event.SkipsLog (Event.notified? : Event μ ρ → _) := ⟨fun _ => rfl⟩

def Frame.isNotifying : Frame μ ρ → Bool
  | notifying _ => true
  | _ => false

-- The notifier is called by a delivery only, and there is one delivery at most.
theorem Nested.no_notifying {stack : List (Frame μ ρ)} (h : Nested stack)
    (hdelivering : stack.any Frame.isDelivering = false) : stack.any Frame.isNotifying = false := by
  induction stack with
  | nil => rfl
  | cons frame rest ih =>
      rw [List.any_cons, Bool.or_eq_false_iff] at hdelivering
      rw [List.any_cons, ih h.2 hdelivering.2, Bool.or_false]
      cases frame with
      | notifying notice =>
          obtain ⟨below, rfl⟩ := h.1
          simp [Frame.isDelivering] at hdelivering
      | _ => rfl

theorem Nested.notifying_once {stack : List (Frame μ ρ)} (h : Nested stack) :
    (stack.filter Frame.isNotifying).length ≤ 1 := by
  induction stack with
  | nil => simp
  | cons frame rest ih =>
      cases frame with
      | notifying notice =>
          obtain ⟨below, rfl⟩ := h.1
          have hbelow := h.2.2.no_notifying h.2.1
          have hnone : below.filter Frame.isNotifying = [] := by simpa using hbelow
          rw [List.filter_cons_of_pos rfl, List.filter_cons_of_neg Bool.false_ne_true, hnone]
          exact le_refl 1
      | _ => exact ih h.2

namespace Queue

-- The notices that were raised, those that a delivery took from the outbox, and those that the
-- notifier was called with.
def raises (events : List (Event μ ρ)) : List (Notice μ ρ) :=
  (events.filterMap Event.raised?).map Prod.snd

def deliveries (events : List (Event μ ρ)) : List (Notice μ ρ) :=
  events.filterMap Event.delivered?

def receipts (events : List (Event μ ρ)) : List (Notice μ ρ) :=
  events.filterMap Event.notified?

theorem raises_append (first second : List (Event μ ρ)) : raises (first ++ second) = raises first ++ raises second := by
  simp [raises]

theorem deliveries_append (first second : List (Event μ ρ)) :
    deliveries (first ++ second) = deliveries first ++ deliveries second :=
  List.filterMap_append

-- A notice is raised to the end of the outbox and delivered from its front.
theorem Transition.outbox {queue next : Queue μ ρ} {move : Move μ ρ} {events : List (Event μ ρ)}
    (h : Transition queue move next events) :
    deliveries events ++ next.outbox = queue.outbox ++ raises events := by
  cases h <;> simp [deliveries, raises, append, unwind, List.filterMap_cons, *]

theorem run_outbox (queue : Queue μ ρ) (moves : List (Move μ ρ)) :
    deliveries (queue.run moves).2 ++ (queue.run moves).1.outbox = queue.outbox ++ raises (queue.run moves).2 := by
  induction moves generalizing queue with
  | nil => simp [run_nil, deliveries, raises]
  | cons move moves ih =>
      have hstep := (transition_step queue move).outbox
      rw [run_cons, deliveries_append, raises_append, List.append_assoc, ih, ← List.append_assoc, hstep,
        List.append_assoc]

theorem Transition.observed {queue next : Queue μ ρ} {move : Move μ ρ} {events : List (Event μ ρ)}
    (h : Transition queue move next events) : next.observed = queue.observed := by
  cases h <;> simp [append, unwind]

-- The notifier gets what is delivered, if there is one.
theorem Transition.receipts {queue next : Queue μ ρ} {move : Move μ ρ} {events : List (Event μ ρ)}
    (h : Transition queue move next events) : receipts events = if queue.observed then deliveries events else [] := by
  cases h <;> simp [Queue.receipts, deliveries, List.filterMap_cons, *]

theorem run_receipts (queue : Queue μ ρ) (moves : List (Move μ ρ)) :
    receipts (queue.run moves).2 = if queue.observed then deliveries (queue.run moves).2 else [] := by
  induction moves generalizing queue with
  | nil => simp [run_nil, receipts, deliveries]
  | cons move moves ih =>
      have hevents : receipts (queue.run (move :: moves)).2 =
          receipts (queue.step move).2 ++ receipts ((queue.step move).1.run moves).2 :=
        List.filterMap_append
      have hstep := transition_step queue move
      rw [hevents, hstep.receipts, ih, hstep.observed, run_cons, deliveries_append]
      split <;> simp

-- The clock's panic ends no delivery, as none was started by the call that reads the clock.
theorem delivering_clockPanic {queue : Queue μ ρ} (hcalled : Called queue.stack) (hturn : queue.turn = .clock)
    (text : String) : (queue.unwind queue.stack text).1.delivering = queue.delivering := by
  obtain ⟨frame, rest, hstack, hframe⟩ := queue.exists_awaitsClock hturn
  rw [hstack] at hcalled
  have hdelivering : frame.isDelivering = false := by cases frame <;> simp_all [Frame.awaitsClock, Frame.isDelivering]
  simp only [unwind, hstack, hcalled.takeWhile_of_awaitsClock hframe]
  simp [hdelivering]

-- A delivery ends with an empty outbox, if it is not ended by a panic of the notifier.
theorem Transition.settles {queue next : Queue μ ρ} {move : Move μ ρ} {events : List (Event μ ρ)}
    (h : Transition queue move next events) (hs : queue.Stacked) (hcalled : Called queue.stack)
    (hpanic : ∀ text, move ≠ .panic text) (hidle : next.delivering = false) :
    next.outbox = [] ∨ queue.delivering = false ∧ next.outbox = queue.outbox ∧ raises events = [] := by
  have hrunning : ∀ {rest : List (Frame μ ρ)}, queue.stack = .delivering :: rest → queue.delivering = true :=
    fun hstack => by rw [hs.delivering, hstack]; rfl
  cases h with
  | retire | cancel | startUnread | complete => simp at hidle
  | scan hstack => exact .inr ⟨by simpa using hidle, by simp, by simp [raises]⟩
  | deliveredAll hstack houtbox => exact .inl houtbox
  | notify hstack | skip hstack => exact absurd (hrunning hstack) (by simpa using hidle)
  | clockPanic text hturn => exact .inr ⟨delivering_clockPanic hcalled hturn text ▸ hidle, rfl, rfl⟩
  | panic text => exact absurd rfl (hpanic text)
  | _ => exact .inr ⟨hidle, rfl, by simp [raises, List.filterMap_cons]⟩

-- When no notice is being delivered any more, none waits that was raised, if no user code panicked.
theorem run_settles {queue : Queue μ ρ} (hs : queue.Stacked) (hcalled : Called queue.stack) {moves : List (Move μ ρ)}
    (hpanic : ∀ text, .panic text ∉ moves) (hidle : (queue.run moves).1.delivering = false) :
    (queue.run moves).1.outbox = [] ∨ raises (queue.run moves).2 = [] ∧ (queue.run moves).1.outbox = queue.outbox := by
  induction moves using List.reverseRecOn with
  | nil => exact .inr ⟨rfl, rfl⟩
  | append_singleton before last ih =>
      have hstep := transition_step (queue.run before).1 last
      have htext : ∀ text, last ≠ .panic text := fun text heq => hpanic text (by simp [heq])
      have hbefore : ∀ text, .panic text ∉ before := fun text hmem => hpanic text (List.mem_append_left _ hmem)
      rw [run_append] at hidle ⊢
      rw [raises_append]
      rcases hstep.settles (hs.run before) (called_run_of hcalled before) htext hidle with
        houtbox | ⟨hidle, houtbox, hraises⟩
      · exact .inl houtbox
      · rcases ih hbefore hidle with hempty | ⟨hnone, hsame⟩
        · exact .inl (houtbox.trans hempty)
        · refine .inr ⟨?_, houtbox.trans hsame⟩
          rw [hnone, List.nil_append]
          simpa [run_cons, run_nil] using hraises

-- Without a panic of user code no notice waits while nothing is being delivered.
theorem flushed_run (settings : Settings) (observed : Bool) (moves : List (Move μ ρ))
    (hpanic : ∀ text, .panic text ∉ moves) : ((make settings observed).run moves).1.Flushed := by
  intro hidle
  rcases run_settles (.make settings observed) trivial hpanic hidle with houtbox | ⟨-, houtbox⟩
  · exact houtbox
  · exact houtbox

-- The notifier is called by the delivery, so not from below itself.
theorem Transition.notified {queue next : Queue μ ρ} {move : Move μ ρ} {events : List (Event μ ρ)}
    (h : Transition queue move next events) (hs : queue.Stacked) {notice : Notice μ ρ}
    (hnotice : .notified notice ∈ events) :
    queue.stack.any Frame.isNotifying = false ∧ next.stack = .notifying notice :: queue.stack := by
  cases h with
  | notify hstack =>
      obtain rfl : notice = _ := by simpa using hnotice
      have hfits := hs.fits hstack
      have hrest := hfits.2.no_notifying hfits.1
      rw [hstack]
      exact ⟨hrest, rfl⟩
  | _ => simp at hnotice

-- A panic leaves the outbox as it is.
theorem Transition.outbox_of_panicked {queue next : Queue μ ρ} {move : Move μ ρ} {events : List (Event μ ρ)}
    (h : Transition queue move next events) {text : String} (htext : .panicked text ∈ events) :
    next.outbox = queue.outbox := by
  cases h with
  | clockPanic | panic => rfl
  | _ => simp at htext

-- A notice that is raised while no delivery runs starts one.
theorem Transition.delivers {queue next : Queue μ ρ} {move : Move μ ρ} {events : List (Event μ ρ)}
    (h : Transition queue move next events) (hidle : queue.delivering = false) {source : Source} {notice : Notice μ ρ}
    (hraised : .raised source notice ∈ events) :
    (∃ rest, next.stack = .delivering :: rest) ∧ next.outbox = queue.outbox ++ [notice] := by
  have hraise : ∀ base : Queue μ ρ, base.delivering = false → base.outbox = queue.outbox →
      (∃ rest, (base.raise source notice).1.stack = .delivering :: rest) ∧
        (base.raise source notice).1.outbox = queue.outbox ++ [notice] := by
    intro base hbase houtbox
    rw [stack_raise, hbase, outbox_raise, houtbox]
    exact ⟨⟨_, rfl⟩, rfl⟩
  cases h with
  | retire | cancel | startUnread | complete =>
      obtain ⟨rfl, rfl⟩ : source = _ ∧ notice = _ := by simpa using hraised
      exact hraise _ hidle rfl
  | _ => simp at hraised

-- When a delivery is left, there is none any more, and it has emptied the outbox if no panic of
-- user code has ended it.
theorem delivered_of_spans {queue : Queue μ ρ} (hs : queue.Stacked) (hcalled : Called queue.stack)
    {rest : List (Frame μ ρ)} (hstack : queue.stack = .delivering :: rest) {during : List (Move μ ρ)}
    (hspans : queue.spans rest.length during = true) :
    (queue.run during).1.delivering = false ∧
      ((queue.run during).1.outbox = [] ∨ ∃ text, during.getLast? = some (.panic text)) := by
  have hrunning : .delivering :: rest <:+ queue.stack := hstack ▸ List.suffix_refl queue.stack
  obtain ⟨before, last, rfl, hbefore, hend⟩ := exists_last_of_spans hspans rfl hrunning
  have hrun : (queue.run (before ++ [last])).1 = ((queue.run before).1.step last).1 := by rw [run_append]; rfl
  have hstacked := hs.run before
  have hstep := transition_step (queue.run before).1 last
  have hidle : ((queue.run before).1.step last).1.delivering = false := by
    rw [(hstep.stacked hstacked).delivering, ← hrun]
    exact any_eq_false_of_suffix _ hend (hs.fits hstack).1
  rw [hrun]
  refine ⟨hidle, ?_⟩
  by_cases hpanic : ∃ text, last = .panic text
  · obtain ⟨text, rfl⟩ := hpanic
    exact .inr ⟨text, by simp⟩
  · rcases hstep.settles hstacked (called_run_of hcalled before) (fun text heq => hpanic ⟨text, heq⟩) hidle with
      houtbox | ⟨hnone, -, -⟩
    · exact .inl houtbox
    · rw [hstacked.delivering, List.any_eq_false] at hnone
      exact absurd rfl (hnone .delivering (hbefore.subset List.mem_cons_self))

-- The outbox. The notifier is not called while it runs, and it is called with all that was raised
-- in order, but for what still waits. Without a panic of user code nothing waits when no call is
-- running. After one, what waits does so until the next notice is raised, and is delivered before
-- that one.
theorem run_delivers (settings : Settings) (observed : Bool) (moves : List (Move μ ρ)) :
    let queue := ((make settings observed).run moves).1
    let events := ((make settings observed).run moves).2
    (queue.stack.filter Frame.isNotifying).length ≤ 1 ∧
      (∀ move notice, .notified notice ∈ (queue.step move).2 →
        queue.stack.any Frame.isNotifying = false ∧ (queue.step move).1.stack = .notifying notice :: queue.stack) ∧
      raises events = deliveries events ++ queue.outbox ∧
      receipts events = (if observed then deliveries events else []) ∧
      (queue.stack = [] → queue.delivering = false ∧ ((∀ text, .panic text ∉ moves) → queue.outbox = [])) ∧
      (∀ move text, .panicked text ∈ (queue.step move).2 → (queue.step move).1.outbox = queue.outbox) ∧
      ∀ move source notice, queue.delivering = false → .raised source notice ∈ (queue.step move).2 →
        let next := (queue.step move).1
        let depth := next.stack.length - 1
        next.stack.head? = some .delivering ∧ next.outbox = queue.outbox ++ [notice] ∧
          (∀ during, next.spans depth during = true →
            (next.run during).1.delivering = false ∧
              deliveries (next.run during).2 ++ (next.run during).1.outbox =
                queue.outbox ++ notice :: raises (next.run during).2 ∧
              ((next.run during).1.outbox = [] ∨ ∃ text, during.getLast? = some (.panic text))) ∧
          ∃ during, (∀ move ∈ during, move.quiet = true) ∧ next.spans depth during = true ∧
            (next.run during).1.outbox = [] := by
  intro queue events
  have hs : queue.Stacked := (sound_run settings observed moves).stacked
  have hcalled : Called queue.stack := called_run settings observed moves
  refine ⟨hs.nested.notifying_once, fun move notice => (transition_step queue move).notified hs, ?_, ?_, ?_,
    fun move text => (transition_step queue move).outbox_of_panicked, ?_⟩
  · exact (run_outbox (make settings observed) moves).symm
  · exact run_receipts (make settings observed) moves
  · intro hidle
    have hdelivering : queue.delivering = false := by rw [hs.delivering, hidle]; rfl
    exact ⟨hdelivering, fun hpanic => flushed_run settings observed moves hpanic hdelivering⟩
  · intro move source notice hidle hraised next depth
    have hstep : Transition queue move next (queue.step move).2 := transition_step queue move
    obtain ⟨⟨rest, hstack⟩, houtbox⟩ := hstep.delivers hidle hraised
    have hdepth : depth = rest.length := by simp [depth, hstack]
    rw [hdepth]
    have hdelivered {during : List (Move μ ρ)} (hspans : next.spans rest.length during = true) :=
      delivered_of_spans (hstep.stacked hs) (hstep.called hcalled) hstack hspans
    refine ⟨by rw [hstack]; rfl, houtbox, fun during hspans => ?_, ?_⟩
    · obtain ⟨hend, hrest⟩ := hdelivered hspans
      refine ⟨hend, ?_, hrest⟩
      rw [run_outbox, houtbox, List.append_assoc]
      rfl
    · obtain ⟨during, hquiet, hspans⟩ := next.exists_spans (hstep.stacked hs) rest.length 0
      refine ⟨during, fun move hmove => by rcases hquiet move hmove with rfl | rfl | rfl <;> rfl, hspans, ?_⟩
      rcases (hdelivered hspans).2 with houtbox | ⟨text, hlast⟩
      · exact houtbox
      · have hmem := hquiet _ (List.mem_of_getLast? hlast)
        simp at hmem

-- Three messages in progress. The notifier of the first one reports the second and then panics.
def notifierPanics : List (Move String String) :=
  [.call (.enqueue "a"), .read (.time 0), .call (.enqueue "b"), .read (.time 0), .call (.enqueue "c"), .read (.time 0),
    .call .tick, .advance, .advance, .read (.time 1), .finish, .advance, .read (.time 1), .finish, .advance,
    .read (.time 1), .finish, .advance, .call (.complete ⟨3, ⟨0⟩⟩ .success none), .advance,
    .call (.complete ⟨4, ⟨1⟩⟩ .error (some "late")), .advance, .panic "notifier"]

-- The notice of the second waits for the report of the third.
theorem run_delivers_notifierPanics :
    let queue := ((make {} true).run notifierPanics).1
    let second : Notice String String := { id := ⟨1⟩, message := "b", outcome := .error, reason := some "late" }
    let third : Notice String String := { id := ⟨2⟩, message := "c", outcome := .success, reason := none }
    let next := (queue.step (.call (.complete ⟨5, ⟨2⟩⟩ .success none))).1
    queue.stack = [] ∧ queue.outbox = [second] ∧
      deliveries (next.run [.advance, .finish, .advance, .finish, .advance]).2 = [second, third] := by
  intro queue second third next
  have h := (run_delivers {} true notifierPanics).2.2.2.2.2.2 (.call (.complete ⟨5, ⟨2⟩⟩ .success none)) .token third
    rfl (List.mem_cons_of_mem _ List.mem_cons_self)
  have hdelivered := (h.2.2.1 [.advance, .finish, .advance, .finish, .advance] rfl).2.1
  exact ⟨rfl, rfl, (List.append_nil _).symm.trans hdelivered⟩

end Queue

end DeadlineQueue
