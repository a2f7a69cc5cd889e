import DeadlineQueue.Proofs.Binding
import DeadlineQueue.Proofs.Readings

namespace DeadlineQueue

variable {μ ρ : Type}

-- What is asked of a queue from outside: a report, or an admission and the time at which it takes
-- place.
inductive Errand (μ ρ : Type) where
  | report (token : Token) (outcome : Outcome) (reason : Option ρ)
  | admission (message : μ) (now : Instant)
  deriving DecidableEq

namespace Errand

def call : Errand μ ρ → Call μ ρ
  | report token outcome reason => .complete token outcome reason
  | admission message _ => .enqueue message

-- The moves with which its call goes on if the notifier does nothing. A report does not ask the clock.
def allows : Errand μ ρ → Move μ ρ → Bool
  | _, .advance | _, .finish => true
  | report _ _ _, .read (.time _) => true
  | admission _ now, .read (.time time) => time = now
  | _, _ => false

def token? : Errand μ ρ → Option Token
  | report token _ _ => some token
  | admission _ _ => none

def isAdmission : Errand μ ρ → Bool
  | report _ _ _ => false
  | admission _ _ => true

end Errand

-- Errands one after the other, each with the moves of its call.
abbrev Outing (μ ρ : Type) := List (Errand μ ρ × List (Move μ ρ))

def Outing.errands (outing : Outing μ ρ) : List (Errand μ ρ) :=
  outing.map Prod.fst

def Outing.moves (outing : Outing μ ρ) : List (Move μ ρ) :=
  outing.flatMap fun visit => .call visit.1.call :: visit.2

namespace Queue

-- Whether each of the calls lasts for the moves that are given with it.
def performs (queue : Queue μ ρ) : Outing μ ρ → Bool
  | [] => true
  | (errand, during) :: outing =>
    (queue.step (.call errand.call)).1.spans 0 during && during.all errand.allows &&
      (queue.run (.call errand.call :: during)).1.performs outing

-- What each of the calls returns.
def answers (queue : Queue μ ρ) : Outing μ ρ → List (Errand μ ρ × Option (Reply μ))
  | [] => []
  | (errand, during) :: outing =>
    (errand, queue.reply? 0 (.call errand.call :: during)) :: (queue.run (.call errand.call :: during)).1.answers outing

-- The entry that a report with this token takes away.
def awaited (queue : Queue μ ρ) (token : Token) : Option (Entry μ) :=
  if queue.alive then (queue.inProgress.remove token.key).1 else none

def notice? (queue : Queue μ ρ) : Errand μ ρ → Option (Notice μ ρ)
  | .report token outcome reason => (queue.awaited token).map fun entry => entry.notice outcome reason
  | .admission _ _ => none

-- The queue when an errand is done.
def once (queue : Queue μ ρ) : Errand μ ρ → Queue μ ρ
  | .report token _ _ =>
    { queue with
      held := queue.held.erase token
      inProgress := if queue.alive then (queue.inProgress.remove token.key).2 else queue.inProgress
      outbox := if (queue.awaited token).isSome then [] else queue.outbox }
  | .admission message now =>
    if queue.dropped then queue
    else
      { queue.append .pending now { id := ⟨queue.nextId⟩, message, enqueuedAt := now } with
        nextId := queue.nextId + 1 }

def response? (queue : Queue μ ρ) : Errand μ ρ → Option (Reply μ)
  | .report token _ _ => some (.delivered (queue.awaited token).isSome)
  | .admission _ _ => some (if queue.dropped then .dropped else .admitted ⟨queue.nextId⟩)

-- What is delivered in the course of an errand. What waits is delivered before the notice of the
-- errand, and stays where it is if there is none.
def served (queue : Queue μ ρ) (errand : Errand μ ρ) : List (Notice μ ρ) :=
  match queue.notice? errand with
  | none => []
  | some notice => queue.outbox ++ [notice]

-- No call is running.
structure Resting (queue : Queue μ ρ) : Prop where
  stack : queue.stack = []
  idle : queue.delivering = false

theorem Stacked.resting {queue : Queue μ ρ} (h : queue.Stacked) (hstack : queue.stack = []) : queue.Resting :=
  ⟨hstack, by rw [h.delivering, hstack]; rfl⟩

-- The queue when a report that counts has returned.
def concluded (queue : Queue μ ρ) : Queue μ ρ :=
  { queue with outbox := [], delivering := false, stack := [] }

-- A report that has raised its notice, with what is still to be delivered.
inductive Concluding (base : Queue μ ρ) : Queue μ ρ → List (Notice μ ρ) → Prop where
  | delivering (outbox : List (Notice μ ρ)) :
      Concluding base { base with outbox, delivering := true, stack := [.delivering, .completing] } outbox
  | notifying (notice : Notice μ ρ) (outbox : List (Notice μ ρ)) :
      Concluding base { base with outbox, delivering := true, stack := [.notifying notice, .delivering, .completing] }
        outbox
  | completing : Concluding base { base with outbox := [], delivering := false, stack := [.completing] } []

theorem Concluding.stack_ne_nil {base queue : Queue μ ρ} {left : List (Notice μ ρ)} (h : Concluding base queue left) :
    queue.stack ≠ [] := by
  cases h with
  | _ => exact List.cons_ne_nil _ _

theorem Concluding.step {base queue : Queue μ ρ} {left : List (Notice μ ρ)} (h : Concluding base queue left)
    {errand : Errand μ ρ} {move : Move μ ρ} (hmove : errand.allows move = true) :
    (∃ next events rest, queue.step move = (next, events) ∧ Concluding base next rest ∧
      deliveries events ++ rest = left) ∨
      left = [] ∧ queue.step move = (base.concluded, [.returned (.delivered true)]) := by
  by_cases hawaits : queue.Awaits move
  case neg => exact .inl ⟨queue, [], left, step_of_not_awaits queue move hawaits, h, rfl⟩
  cases h with
  | delivering =>
      obtain rfl := eq_advance_of_awaits rfl hawaits
      cases left with
      | nil => exact .inl ⟨_, _, _, (Transition.deliveredAll rfl rfl).step_eq, .completing, rfl⟩
      | cons notice outbox =>
          by_cases hobserved : base.observed = true
          · refine .inl ⟨_, _, _, (Transition.notify rfl rfl ?_).step_eq, .notifying notice outbox, rfl⟩
            exact hobserved
          · refine .inl ⟨_, _, _, (Transition.skip rfl rfl ?_).step_eq, .delivering outbox, rfl⟩
            exact Bool.not_eq_true _ ▸ hobserved
  | notifying notice =>
      cases move with
      | finish => exact .inl ⟨_, _, _, (Transition.finish rfl rfl).step_eq, .delivering left, rfl⟩
      | advance => exact absurd hawaits nofun
      | read reading => exact absurd hawaits nofun
      | call call | panic text => cases errand <;> exact absurd hmove Bool.false_ne_true
  | completing =>
      obtain rfl := eq_advance_of_awaits rfl hawaits
      exact .inr ⟨rfl, (Transition.completed rfl).step_eq⟩

theorem Concluding.run {base queue : Queue μ ρ} {left : List (Notice μ ρ)} (h : Concluding base queue left)
    {errand : Errand μ ρ} {moves : List (Move μ ρ)} (hmoves : moves.all errand.allows = true)
    (hspans : queue.spans 0 moves = true) :
    (queue.run moves).1 = base.concluded ∧ queue.reply? 0 moves = some (.delivered true) ∧
      deliveries (queue.run moves).2 = left := by
  induction moves generalizing queue left with
  | nil =>
      have hlength := of_decide_eq_true hspans
      exact absurd (List.length_eq_zero_iff.1 (Nat.le_zero.1 hlength)) h.stack_ne_nil
  | cons move moves ih =>
      rw [List.all_cons, Bool.and_eq_true] at hmoves
      rw [spans, Bool.and_eq_true] at hspans
      rcases h.step hmoves.1 with ⟨next, events, rest, hstep, hnext, hrest⟩ | ⟨rfl, hstep⟩
      · rw [hstep] at hspans
        obtain ⟨hrun, hreply, hdelivered⟩ := ih hnext hmoves.2 hspans.2
        refine ⟨by rw [run_cons, hstep, hrun], ?_, ?_⟩
        · rw [reply_cons_of_lt _ _ _ _ (by rw [hstep]; exact List.length_pos_iff.2 hnext.stack_ne_nil), hstep, hreply]
        · rw [run_cons, deliveries_append, hstep, hdelivered, hrest]
      · rw [hstep] at hspans
        obtain rfl := eq_nil_of_spans hspans.2 (Nat.le_refl 0)
        refine ⟨by rw [run_cons, hstep, run_nil], ?_, ?_⟩
        · rw [reply?, hstep]
          rfl
        · rw [run_cons, hstep]
          rfl

-- A report that finds its entry raises the notice and delivers all that waits.
theorem Resting.perform_awaited {queue : Queue μ ρ} (h : queue.Resting) {token : Token} (outcome : Outcome)
    (reason : Option ρ) (hheld : token ∈ queue.held) {entry : Entry μ} (hentry : queue.awaited token = some entry)
    {during : List (Move μ ρ)}
    (hspans : (queue.step (.call (.complete token outcome reason))).1.spans 0 during = true)
    (hduring : during.all (Errand.report token outcome reason).allows = true) :
    (queue.run (.call (.complete token outcome reason) :: during)).1 = queue.once (.report token outcome reason) ∧
      queue.reply? 0 (.call (.complete token outcome reason) :: during) = some (.delivered true) ∧
      deliveries (queue.run (.call (.complete token outcome reason) :: during)).2 =
        queue.outbox ++ [entry.notice outcome reason] := by
  have hturn : queue.turn = .user := by simp [turn, h.stack]
  obtain ⟨halive, hremove⟩ : queue.alive = true ∧ (queue.inProgress.remove token.key).1 = some entry := by
    unfold awaited at hentry
    split at hentry
    · exact ⟨‹_›, hentry⟩
    · cases hentry
  have hstep := step_complete queue token outcome reason hturn hheld
  rw [complete_of_some queue token outcome reason halive hremove] at hstep
  have hraise : ((queue.reporting token).raise .token (entry.notice outcome reason)).1 =
      { queue.reporting token with
        outbox := queue.outbox ++ [entry.notice outcome reason], delivering := true
        stack := [.delivering, .completing] } := by
    simp [raise, reporting, h.idle, h.stack]
  rw [hraise] at hstep
  rw [hstep] at hspans
  have hconcluding : Concluding (queue.reporting token) _ _ :=
    .delivering (queue.outbox ++ [entry.notice outcome reason])
  obtain ⟨hrun, hreply, hdelivered⟩ := hconcluding.run hduring hspans
  refine ⟨?_, ?_, ?_⟩
  · rw [run_cons, hstep, hrun]
    simp [concluded, reporting, once, halive, hentry, h.idle, h.stack]
  · rw [reply_cons_of_lt _ _ _ _ (by rw [hstep]; exact Nat.zero_lt_succ _), hstep, hreply]
  · rw [run_cons, deliveries_append, hstep, hdelivered]
    rfl

-- Any other report uses up its token and returns at once.
theorem Resting.perform_unawaited {queue : Queue μ ρ} (h : queue.Resting) {token : Token} (outcome : Outcome)
    (reason : Option ρ) (hheld : token ∈ queue.held) (hnone : queue.awaited token = none) :
    ∃ record, queue.step (.call (.complete token outcome reason)) =
      (queue.once (.report token outcome reason), [.log record, .returned (.delivered false)]) := by
  have hturn : queue.turn = .user := by simp [turn, h.stack]
  rw [step_complete queue token outcome reason hturn hheld]
  cases halive : queue.alive with
  | true =>
      have hremove : (queue.inProgress.remove token.key).1 = none := by simpa [awaited, halive] using hnone
      rw [complete_of_none queue token outcome reason halive hremove]
      exact ⟨.completedLate token.id outcome, by simp [once, hnone, halive]⟩
  | false =>
      rw [complete_of_not_alive queue token outcome reason halive]
      exact ⟨.completedOrphan token.id, by simp [once, hnone, halive]⟩

theorem step_enqueuing {queue : Queue μ ρ} (hstack : queue.stack = []) (halive : queue.dropped = false) (message : μ)
    (now : Instant) :
    ∃ events, ({ queue with stack := [.enqueuing message] } : Queue μ ρ).step (.read (.time now)) =
      (queue.once (.admission message now), events) ∧
      events.findSome? Event.reply? = some (.admitted ⟨queue.nextId⟩) ∧ deliveries events = [] := by
  let waiting : Queue μ ρ := { queue with stack := [.enqueuing message] }
  refine ⟨waiting.logBackwards .pending now ++
    [.log (.enqueued ⟨queue.nextId⟩), .returned (.admitted ⟨queue.nextId⟩)], ?_, ?_, by simp [deliveries]⟩
  · have hwaiting : waiting.stack = [.enqueuing message] := rfl
    rw [(Transition.accept now hwaiting).step_eq]
    simp [once, halive, append, hstack, waiting]
  · rcases waiting.logBackwards_eq .pending now with hnone | hsome
    · rw [hnone]
      rfl
    · rw [hsome]
      rfl

-- An enqueue waits for the clock and for nothing else.
theorem perform_enqueuing {queue waiting : Queue μ ρ} {message : μ} {now : Instant} (hstack : queue.stack = [])
    (hwaiting : waiting = { queue with stack := [.enqueuing message] }) (halive : queue.dropped = false)
    {during : List (Move μ ρ)} (hspans : waiting.spans 0 during = true)
    (hduring : during.all (Errand.admission message now).allows = true) :
    (waiting.run during).1 = queue.once (.admission message now) ∧
      waiting.reply? 0 during = some (.admitted ⟨queue.nextId⟩) ∧ deliveries (waiting.run during).2 = [] := by
  have hdepth : 0 < waiting.stack.length := by
    rw [hwaiting]
    exact Nat.zero_lt_succ _
  induction during with
  | nil => exact absurd (of_decide_eq_true hspans) (Nat.not_le.2 hdepth)
  | cons move moves ih =>
      rw [List.all_cons, Bool.and_eq_true] at hduring
      rw [spans, Bool.and_eq_true] at hspans
      by_cases hawaits : waiting.Awaits move
      · obtain ⟨reading, rfl⟩ := exists_read_of_awaits (by rw [hwaiting]; rfl) hawaits
        cases reading with
        | failed fault | panicked text => exact absurd hduring.1 Bool.false_ne_true
        | time time =>
            obtain rfl : time = now := of_decide_eq_true hduring.1
            obtain ⟨events, hstep, hreply, hdelivered⟩ := step_enqueuing hstack halive message time
            rw [← hwaiting] at hstep
            have hlast : (queue.once (.admission message time)).stack.length ≤ 0 := by
              simp [once, halive, append, hstack]
            rw [hstep] at hspans
            obtain rfl := eq_nil_of_spans hspans.2 hlast
            refine ⟨by rw [run_cons, hstep, run_nil], ?_, ?_⟩
            · rw [reply?, hstep, if_pos hlast, hreply]
            · rw [run_cons, hstep, run_nil, List.append_nil, hdelivered]
      · have hidle := step_of_not_awaits waiting move hawaits
        rw [hidle] at hspans
        obtain ⟨hrun, hreply, hdelivered⟩ := ih hspans.2 hduring.2
        refine ⟨by rw [run_cons, hidle, hrun], ?_, ?_⟩
        · rw [reply_cons_of_lt _ _ _ _ (by rw [hidle]; exact hdepth), hidle, hreply]
        · rw [run_cons, hidle, List.nil_append, hdelivered]

-- A dropped queue refuses at once.
theorem Resting.perform_admission {queue : Queue μ ρ} (h : queue.Resting) (message : μ) (now : Instant)
    {during : List (Move μ ρ)} (hspans : (queue.step (.call (.enqueue message))).1.spans 0 during = true)
    (hduring : during.all (Errand.admission message now).allows = true) :
    (queue.run (.call (.enqueue message) :: during)).1 = queue.once (.admission message now) ∧
      queue.reply? 0 (.call (.enqueue message) :: during) = queue.response? (.admission message now) ∧
      deliveries (queue.run (.call (.enqueue message) :: during)).2 = [] := by
  have hturn : queue.turn = .user := by simp [turn, h.stack]
  have hfree : queue.busy = false := by simp [busy, h.stack]
  cases halive : queue.dropped with
  | false =>
      have hstep := (Transition.enqueue message hturn hfree halive).step_eq
      rw [hstep, h.stack] at hspans
      obtain ⟨hrun, hreply, hdelivered⟩ := perform_enqueuing h.stack rfl halive hspans hduring
      rw [run_cons, hstep, h.stack]
      refine ⟨hrun, ?_, ?_⟩
      · rw [reply_cons_of_lt _ _ _ _ (by rw [hstep]; exact Nat.zero_lt_succ _), hstep, h.stack, hreply, response?,
          halive]
        rfl
      · rw [List.nil_append, hdelivered]
  | true =>
      have hrefused : Transition queue (.call (.enqueue message)) queue [.returned .dropped] :=
        .dropped hturn rfl hfree halive
      have hstep := hrefused.step_eq
      rw [hstep] at hspans
      have hlast : queue.stack.length ≤ 0 := by rw [h.stack]; exact Nat.le_refl 0
      obtain rfl := eq_nil_of_spans hspans hlast
      refine ⟨?_, ?_, ?_⟩
      · rw [run_cons, hstep, run_nil, once, if_pos halive]
      · rw [reply?, hstep, if_pos hlast, response?, halive]
        rfl
      · rw [run_cons, hstep]
        rfl

-- What comes of an errand that is done while no other call is running.
theorem Resting.perform {queue : Queue μ ρ} (h : queue.Resting) {errand : Errand μ ρ}
    (hheld : ∀ token ∈ errand.token?, token ∈ queue.held) {during : List (Move μ ρ)}
    (hspans : (queue.step (.call errand.call)).1.spans 0 during = true)
    (hduring : during.all errand.allows = true) :
    (queue.run (.call errand.call :: during)).1 = queue.once errand ∧
      queue.reply? 0 (.call errand.call :: during) = queue.response? errand ∧
      deliveries (queue.run (.call errand.call :: during)).2 = queue.served errand := by
  cases errand with
  | report token outcome reason =>
      cases hentry : queue.awaited token with
      | some entry =>
          obtain ⟨hrun, hreply, hdelivered⟩ := h.perform_awaited outcome reason (hheld token rfl) hentry hspans hduring
          refine ⟨hrun, ?_, ?_⟩
          · rw [response?, hentry]
            exact hreply
          · rw [served, notice?, hentry]
            exact hdelivered
      | none =>
          obtain ⟨record, hstep⟩ := h.perform_unawaited outcome reason (hheld token rfl) hentry
          have hlast : (queue.once (.report token outcome reason)).stack.length ≤ 0 := by simp [once, h.stack]
          have hcall : (Errand.report token outcome reason : Errand μ ρ).call = .complete token outcome reason := rfl
          rw [hcall] at hspans ⊢
          rw [hstep] at hspans
          obtain rfl := eq_nil_of_spans hspans hlast
          refine ⟨by rw [run_cons, hstep, run_nil], ?_, ?_⟩
          · rw [reply?, hstep, if_pos hlast, response?, hentry]
            rfl
          · rw [run_cons, hstep, served, notice?, hentry]
            rfl
  | admission message now => exact h.perform_admission message now hspans hduring

theorem resting_once {queue : Queue μ ρ} (h : queue.Resting) (errand : Errand μ ρ) : (queue.once errand).Resting := by
  cases errand with
  | report token outcome reason => exact ⟨h.stack, h.idle⟩
  | admission message now =>
      rw [once]
      split
      · exact h
      · exact ⟨by simp [append, h.stack], by simp [append, h.idle]⟩

-- An errand uses up its own token only.
theorem mem_held_once {queue : Queue μ ρ} {token : Token} (htoken : token ∈ queue.held) (errand : Errand μ ρ)
    (hother : errand.token? ≠ some token) : token ∈ (queue.once errand).held := by
  cases errand with
  | report used outcome reason =>
      have hne : token ≠ used := fun heq => hother (congrArg some heq.symm)
      exact (List.mem_erase_of_ne hne).2 htoken
  | admission message now =>
      rw [once]
      split
      · exact htoken
      · simpa [append] using htoken

-- What the calls for these errands return, and what is delivered in the course of them.
def replies (queue : Queue μ ρ) : List (Errand μ ρ) → List (Errand μ ρ × Option (Reply μ))
  | [] => []
  | errand :: errands => (errand, queue.response? errand) :: (queue.once errand).replies errands

def servings (queue : Queue μ ρ) : List (Errand μ ρ) → List (Notice μ ρ)
  | [] => []
  | errand :: errands => queue.served errand ++ (queue.once errand).servings errands

-- Errand by errand, an outing comes out as the errands alone say.
theorem Resting.run {queue : Queue μ ρ} (h : queue.Resting) {outing : Outing μ ρ}
    (houting : queue.performs outing = true)
    (hnodup : (outing.errands.filterMap Errand.token?).Nodup)
    (hheld : ∀ token ∈ outing.errands.filterMap Errand.token?, token ∈ queue.held) :
    (queue.run outing.moves).1 = outing.errands.foldl once queue ∧
      queue.answers outing = queue.replies outing.errands ∧
      deliveries (queue.run outing.moves).2 = queue.servings outing.errands := by
  induction outing generalizing queue with
  | nil => exact ⟨rfl, rfl, rfl⟩
  | cons visit outing ih =>
      obtain ⟨errand, during⟩ := visit
      rw [performs, Bool.and_eq_true, Bool.and_eq_true] at houting
      obtain ⟨⟨hspans, hduring⟩, houting⟩ := houting
      have herrands : Outing.errands ((errand, during) :: outing) = errand :: Outing.errands outing := rfl
      have hmoves : Outing.moves ((errand, during) :: outing) = (.call errand.call :: during) ++ Outing.moves outing :=
        rfl
      rw [herrands] at hnodup hheld ⊢
      have hrest : ((Outing.errands outing).filterMap Errand.token?).Sublist
          ((errand :: Outing.errands outing).filterMap Errand.token?) :=
        (List.sublist_cons_self _ _).filterMap _
      have hfirst : ∀ token ∈ errand.token?, token ∈ queue.held :=
        fun token htoken => hheld token (List.mem_filterMap.2 ⟨errand, List.mem_cons_self, htoken⟩)
      have hleft : ∀ token ∈ (Outing.errands outing).filterMap Errand.token?, token ∈ (queue.once errand).held := by
        intro token htoken
        refine mem_held_once (hheld token (hrest.subset htoken)) errand (fun hsame => ?_)
        rw [List.filterMap_cons_some hsame, List.nodup_cons] at hnodup
        exact hnodup.1 htoken
      obtain ⟨hrun, hreply, hdelivered⟩ := h.perform hfirst hspans hduring
      rw [hrun] at houting
      obtain ⟨hlast, hanswers, hservings⟩ := ih (resting_once h errand) houting (hnodup.sublist hrest) hleft
      rw [hmoves, run_append, hrun]
      refine ⟨hlast, ?_, ?_⟩
      · rw [answers, hrun, hreply, hanswers]
        rfl
      · rw [deliveries_append, hdelivered, hservings]
        rfl

-- Every errand can be done.
theorem Sound.exists_performs {queue : Queue μ ρ} {admitted : List (MessageId × μ)} {past : List (Event μ ρ)}
    (h : queue.Sound admitted past) (errands : List (Errand μ ρ)) :
    ∃ outing : Outing μ ρ, outing.errands = errands ∧ queue.performs outing = true := by
  induction errands generalizing queue admitted past with
  | nil => exact ⟨[], rfl, rfl⟩
  | cons errand errands ih =>
      have hduring : ∃ during, (queue.step (.call errand.call)).1.spans 0 during = true ∧
          during.all errand.allows = true := by
        have hstacked := (h.step (.call errand.call)).stacked
        cases errand with
        | report token outcome reason =>
            obtain ⟨during, hmoves, hspans⟩ := exists_spans _ hstacked 0 0
            refine ⟨during, hspans, List.all_eq_true.2 (fun move hmove => ?_)⟩
            rcases hmoves move hmove with rfl | rfl | rfl <;> rfl
        | admission message now =>
            obtain ⟨during, hmoves, hspans⟩ := exists_spans _ hstacked 0 now
            refine ⟨during, hspans, List.all_eq_true.2 (fun move hmove => ?_)⟩
            rcases hmoves move hmove with rfl | rfl | rfl <;> simp [Errand.allows]
      obtain ⟨during, hspans, hall⟩ := hduring
      obtain ⟨outing, rfl, houting⟩ := ih (h.run (.call errand.call :: during))
      refine ⟨(errand, during) :: outing, rfl, ?_⟩
      rw [performs, hspans, hall, houting]
      rfl

end Queue

end DeadlineQueue
