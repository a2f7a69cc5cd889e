import DeadlineQueue.Lane.Lemmas
import DeadlineQueue.Queue.Lemmas

namespace DeadlineQueue

variable {μ ρ : Type}

-- The token that a call names. All other calls need the queue itself.
def Call.token? : Call μ ρ → Option Token
  | complete token _ _ | dropToken token => some token
  | _ => none

namespace Queue

-- It is the turn of the move's maker.
def Awaits (queue : Queue μ ρ) : Move μ ρ → Prop
  | .advance => queue.turn = .queue
  | .read _ => queue.turn = .clock
  | .call _ => queue.turn = .user
  | .finish | .panic _ => queue.turn = .user ∧ queue.stack ≠ []

-- Everything that one move can do, a rule for each way in which the machine goes on. Later proofs
-- look at these rules only and do not open the step function again.
inductive Transition (queue : Queue μ ρ) : Move μ ρ → Queue μ ρ → List (Event μ ρ) → Prop where
  | idle (move : Move μ ρ) (hidle : ¬queue.Awaits move) : Transition queue move queue []
  -- Calls that are refused.
  | busy {call : Call μ ρ} (hturn : queue.turn = .user) (hcall : call.token? = none) (hbusy : queue.busy = true) :
      Transition queue (.call call) queue [.returned .busy]
  | dropped {call : Call μ ρ} (hturn : queue.turn = .user) (hcall : call.token? = none) (hfree : queue.busy = false)
      (hdropped : queue.dropped = true) : Transition queue (.call call) queue [.returned .dropped]
  | noToken {call : Call μ ρ} {token : Token} (hturn : queue.turn = .user) (hcall : call.token? = some token)
      (hheld : token ∉ queue.held) : Transition queue (.call call) queue [.returned .noToken]
  -- The sweep, scan by scan.
  | scan {now : Instant} {name : LaneName} {scan : Scan} {scans : List (LaneName × Scan)} {rest : List (Frame μ ρ)}
      (hstack : queue.stack = .scanning now ((name, scan) :: scans) :: rest) :
      Transition queue .advance
        { queue.setLane name ((queue.lane name).takeOverdue scan now).2 with
          stack := .retiring name ((queue.lane name).takeOverdue scan now).1 :: .scanning now scans :: rest }
        (((queue.lane name).takeOverdue scan now).1.map (fun entry => .log (.timedOut entry.id name)))
  | scannedAll {now : Instant} {rest : List (Frame μ ρ)} (hstack : queue.stack = .scanning now [] :: rest) :
      Transition queue .advance { queue with stack := .gathering :: rest } []
  | retire {name : LaneName} {entry : Entry μ} {batch : List (Entry μ)} {rest : List (Frame μ ρ)}
      (hstack : queue.stack = .retiring name (entry :: batch) :: rest) :
      Transition queue .advance
        (raise { queue with stack := .retiring name batch :: rest } (.sweep name) (entry.notice .timeout none)).1
        [.raised (.sweep name) (entry.notice .timeout none)]
  | retiredAll {name : LaneName} {rest : List (Frame μ ρ)} (hstack : queue.stack = .retiring name [] :: rest) :
      Transition queue .advance { queue with stack := rest } []
  -- The dispatch, entry by entry.
  | nothingPending {rest : List (Frame μ ρ)} (hstack : queue.stack = .gathering :: rest)
      (hkey : queue.pending.lastKey? = none) :
      Transition queue .advance { queue with stack := rest } [.returned .done]
  | gather {bound : Nat} {rest : List (Frame μ ρ)} (hstack : queue.stack = .gathering :: rest)
      (hkey : queue.pending.lastKey? = some bound) :
      Transition queue .advance { queue with stack := .dispatching bound :: rest } []
  | dispatchedAll {bound : Nat} {rest : List (Frame μ ρ)} (hstack : queue.stack = .dispatching bound :: rest)
      (hpop : (queue.pending.popFront bound).1 = none) :
      Transition queue .advance { queue with stack := rest } [.returned .done]
  | pop {bound : Nat} {entry : Entry μ} {rest : List (Frame μ ρ)} (hstack : queue.stack = .dispatching bound :: rest)
      (hpop : (queue.pending.popFront bound).1 = some entry) :
      Transition queue .advance
        { queue with pending := (queue.pending.popFront bound).2, stack := .starting bound entry :: rest } []
  -- The drain, entry by entry.
  | cancel {entry : Entry μ} {batch : List (Entry μ)} {total : Nat} {rest : List (Frame μ ρ)}
      (hstack : queue.stack = .draining (entry :: batch) total :: rest) :
      Transition queue .advance
        (raise { queue with stack := .draining batch total :: rest } .drain (entry.notice .cancelled none)).1
        [.log (.cancelled entry.id), .raised .drain (entry.notice .cancelled none)]
  | cancelledAll {total : Nat} {rest : List (Frame μ ρ)} (hstack : queue.stack = .draining [] total :: rest) :
      Transition queue .advance { queue with stack := rest } [.log (.drained total), .returned .done]
  -- The delivery, notice by notice, and the return of the report that started it.
  | completed {rest : List (Frame μ ρ)} (hstack : queue.stack = .completing :: rest) :
      Transition queue .advance { queue with stack := rest } [.returned (.delivered true)]
  | deliveredAll {rest : List (Frame μ ρ)} (hstack : queue.stack = .delivering :: rest) (houtbox : queue.outbox = []) :
      Transition queue .advance { queue with delivering := false, stack := rest } []
  | notify {notice : Notice μ ρ} {outbox : List (Notice μ ρ)} {rest : List (Frame μ ρ)}
      (hstack : queue.stack = .delivering :: rest) (houtbox : queue.outbox = notice :: outbox)
      (hobserved : queue.observed = true) :
      Transition queue .advance { queue with outbox, stack := .notifying notice :: .delivering :: rest }
        [.notified notice]
  | skip {notice : Notice μ ρ} {outbox : List (Notice μ ρ)} {rest : List (Frame μ ρ)}
      (hstack : queue.stack = .delivering :: rest) (houtbox : queue.outbox = notice :: outbox)
      (hobserved : queue.observed = false) :
      Transition queue .advance { queue with outbox } [.unobserved notice, .log (.unobserved notice.id)]
  -- The clock answers.
  | accept {message : μ} {rest : List (Frame μ ρ)} (now : Instant) (hstack : queue.stack = .enqueuing message :: rest) :
      Transition queue (.read (.time now))
        { queue.append .pending now { id := ⟨queue.nextId⟩, message, enqueuedAt := now } with
          nextId := queue.nextId + 1, stack := rest }
        (queue.logBackwards .pending now ++
          [.log (.enqueued ⟨queue.nextId⟩), .returned (.admitted ⟨queue.nextId⟩)])
  | sweep {scans : List (LaneName × Scan)} {rest : List (Frame μ ρ)} (now : Instant)
      (hstack : queue.stack = .sweeping scans :: rest) :
      Transition queue (.read (.time now)) { queue with stack := .scanning now scans :: rest } []
  | start {bound : Nat} {entry : Entry μ} {rest : List (Frame μ ρ)} (now : Instant)
      (hstack : queue.stack = .starting bound entry :: rest) :
      Transition queue (.read (.time now))
        { queue.append .inProgress now { entry with startedAt := some now } with
          held := queue.held ++ [{ key := queue.nextKey, id := entry.id }]
          stack := .processing { key := queue.nextKey, id := entry.id } entry.message :: .dispatching bound :: rest }
        (queue.logBackwards .inProgress now ++
          [.log (.dispatching entry.id), .dispatched { key := queue.nextKey, id := entry.id } entry.message])
  | reject {message : μ} {rest : List (Frame μ ρ)} (fault : Fault) (hstack : queue.stack = .enqueuing message :: rest) :
      Transition queue (.read (.failed fault)) { queue with stack := rest }
        [.log (.enqueueUnread fault), .returned (.rejected { message, fault })]
  | sweepUnread {scans : List (LaneName × Scan)} {rest : List (Frame μ ρ)} (fault : Fault)
      (hstack : queue.stack = .sweeping scans :: rest) :
      Transition queue (.read (.failed fault)) { queue with stack := .gathering :: rest } [.log (.sweepUnread fault)]
  | startUnread {bound : Nat} {entry : Entry μ} {rest : List (Frame μ ρ)} (fault : Fault)
      (hstack : queue.stack = .starting bound entry :: rest) :
      Transition queue (.read (.failed fault))
        (raise { queue with stack := .dispatching bound :: rest } .unread (entry.notice .error none)).1
        [.log (.startUnread entry.id fault), .raised .unread (entry.notice .error none)]
  | clockPanic (text : String) (hturn : queue.turn = .clock) :
      Transition queue (.read (.panicked text)) (queue.unwind queue.stack text).1 [.panicked text]
  -- User code calls.
  | enqueue (message : μ) (hturn : queue.turn = .user) (hfree : queue.busy = false) (halive : queue.dropped = false) :
      Transition queue (.call (.enqueue message)) { queue with stack := .enqueuing message :: queue.stack } []
  | tick (hturn : queue.turn = .user) (hfree : queue.busy = false) (halive : queue.dropped = false)
      (hscans : queue.limits.scans ≠ []) :
      Transition queue (.call .tick) { queue with stack := .sweeping queue.limits.scans :: queue.stack } []
  | tickUnlimited (hturn : queue.turn = .user) (hfree : queue.busy = false) (halive : queue.dropped = false)
      (hscans : queue.limits.scans = []) :
      Transition queue (.call .tick) { queue with stack := .gathering :: queue.stack } []
  | drain (hturn : queue.turn = .user) (hfree : queue.busy = false) (halive : queue.dropped = false)
      (htracked : queue.inProgress.entries ++ queue.pending.entries ≠ []) :
      Transition queue (.call .drain)
        { queue with
          inProgress := {}, pending := {}
          stack := .draining (queue.inProgress.entries ++ queue.pending.entries)
            (queue.inProgress.entries ++ queue.pending.entries).length :: queue.stack } []
  | drainEmpty (hturn : queue.turn = .user) (hfree : queue.busy = false) (halive : queue.dropped = false)
      (htracked : queue.inProgress.entries ++ queue.pending.entries = []) :
      Transition queue (.call .drain) { queue with inProgress := {}, pending := {} } [.returned .done]
  | setLimits (limits : Limits) (hturn : queue.turn = .user) (hfree : queue.busy = false)
      (halive : queue.dropped = false) :
      Transition queue (.call (.setLimits limits)) { queue with limits } [.returned .done]
  | drop (hturn : queue.turn = .user) (hfree : queue.busy = false) (halive : queue.dropped = false) :
      Transition queue (.call .drop) { queue with dropped := true } queue.drop.2
  | complete {token : Token} {entry : Entry μ} (outcome : Outcome) (reason : Option ρ) (hturn : queue.turn = .user)
      (hheld : token ∈ queue.held) (halive : queue.alive = true)
      (hentry : (queue.inProgress.remove token.key).1 = some entry) :
      Transition queue (.call (.complete token outcome reason))
        (raise { queue with
            held := queue.held.erase token, inProgress := (queue.inProgress.remove token.key).2
            stack := .completing :: queue.stack } .token (entry.notice outcome reason)).1
        [.log (.completed entry.id outcome), .raised .token (entry.notice outcome reason)]
  | completeLate {token : Token} (outcome : Outcome) (reason : Option ρ) (hturn : queue.turn = .user)
      (hheld : token ∈ queue.held) (halive : queue.alive = true)
      (hentry : (queue.inProgress.remove token.key).1 = none) :
      Transition queue (.call (.complete token outcome reason))
        { queue with held := queue.held.erase token, inProgress := (queue.inProgress.remove token.key).2 }
        [.log (.completedLate token.id outcome), .returned (.delivered false)]
  | completeOrphan {token : Token} (outcome : Outcome) (reason : Option ρ) (hturn : queue.turn = .user)
      (hheld : token ∈ queue.held) (halive : queue.alive = false) :
      Transition queue (.call (.complete token outcome reason)) { queue with held := queue.held.erase token }
        [.log (.completedOrphan token.id), .returned (.delivered false)]
  | dropToken {token : Token} (hturn : queue.turn = .user) (hheld : token ∈ queue.held) :
      Transition queue (.call (.dropToken token)) { queue with held := queue.held.erase token }
        (queue.dropToken token).2
  -- User code returns or panics.
  | finish {frame : Frame μ ρ} {rest : List (Frame μ ρ)} (hstack : queue.stack = frame :: rest)
      (huser : frame.isUser = true) :
      Transition queue .finish { queue with stack := rest } []
  | panic {frame : Frame μ ρ} {rest : List (Frame μ ρ)} (text : String) (hstack : queue.stack = frame :: rest)
      (huser : frame.isUser = true) :
      Transition queue (.panic text) (queue.unwind rest text).1 [.panicked text]

theorem turn_eq_user_iff (queue : Queue μ ρ) :
    queue.turn = .user ↔ ∀ frame ∈ queue.stack.head?, frame.isUser = true := by
  unfold turn
  cases queue.stack with
  | nil => simp
  | cons frame rest => cases frame <;> simp [Frame.isUser, Frame.awaitsClock]

theorem transition_advance (queue : Queue μ ρ) (hturn : queue.turn = .queue) :
    Transition queue .advance queue.advance.1 queue.advance.2 := by
  unfold advance
  split
  · rename_i hstack; exact .scan hstack
  · rename_i hstack; exact .scannedAll hstack
  · rename_i hstack; exact .retire hstack
  · rename_i hstack; exact .retiredAll hstack
  · rename_i hstack
    split
    · rename_i hkey; exact .nothingPending hstack hkey
    · rename_i hkey; exact .gather hstack hkey
  · rename_i bound rest hstack
    split
    · rename_i hpop; exact .dispatchedAll hstack (by rw [hpop])
    · rename_i entry pending hpop
      have h := Transition.pop hstack (congrArg Prod.fst hpop)
      rwa [hpop] at h
  · rename_i hstack; exact .cancel hstack
  · rename_i hstack; exact .cancelledAll hstack
  · rename_i hstack; exact .completed hstack
  · rename_i hstack
    split
    · rename_i houtbox; exact .deliveredAll hstack houtbox
    · rename_i houtbox
      split
      · rename_i hobserved; exact .notify hstack houtbox hobserved
      · rename_i hobserved; exact .skip hstack houtbox (by simpa using hobserved)
  · -- No other frame waits for the queue.
    exfalso
    unfold turn at hturn
    cases hstack : queue.stack with
    | nil => simp [hstack] at hturn
    | cons frame rest =>
        cases frame with
        | scanning now scans => cases scans <;> grind
        | retiring name batch => cases batch <;> grind
        | draining batch total => cases batch <;> grind
        | _ => simp_all [Frame.isUser, Frame.awaitsClock]

-- A frame that waits for the clock waits for the time of an admission, of a sweep or of a start.
theorem stack_of_turn_eq_clock (queue : Queue μ ρ) (hturn : queue.turn = .clock) :
    (∃ message rest, queue.stack = .enqueuing message :: rest) ∨ (∃ scans rest, queue.stack = .sweeping scans :: rest) ∨
      ∃ bound entry rest, queue.stack = .starting bound entry :: rest := by
  unfold turn at hturn
  cases hstack : queue.stack with
  | nil => simp [hstack] at hturn
  | cons frame rest => cases frame <;> simp_all [Frame.isUser, Frame.awaitsClock]

theorem transition_readTime (queue : Queue μ ρ) (now : Instant) (hturn : queue.turn = .clock) :
    Transition queue (.read (.time now)) (queue.readTime now).1 (queue.readTime now).2 := by
  unfold readTime
  rcases queue.stack_of_turn_eq_clock hturn with ⟨_, _, hstack⟩ | ⟨_, _, hstack⟩ | ⟨_, _, _, hstack⟩ <;>
    simp only [hstack]
  · exact .accept now hstack
  · exact .sweep now hstack
  · exact .start now hstack

theorem transition_readFault (queue : Queue μ ρ) (fault : Fault) (hturn : queue.turn = .clock) :
    Transition queue (.read (.failed fault)) (queue.readFault fault).1 (queue.readFault fault).2 := by
  unfold readFault
  rcases queue.stack_of_turn_eq_clock hturn with ⟨_, _, hstack⟩ | ⟨_, _, hstack⟩ | ⟨_, _, _, hstack⟩ <;>
    simp only [hstack]
  · exact .reject fault hstack
  · exact .sweepUnread fault hstack
  · exact .startUnread fault hstack

-- A call that is not refused finds the queue free and alive.
theorem transition_ifFree (queue : Queue μ ρ) (call : Call μ ρ) (next : Stepped μ ρ) (hturn : queue.turn = .user)
    (hcall : call.token? = none)
    (hnext : queue.busy = false → queue.dropped = false → Transition queue (.call call) next.1 next.2) :
    Transition queue (.call call) (queue.ifFree next).1 (queue.ifFree next).2 := by
  unfold ifFree
  split
  · rename_i hbusy; exact .busy hturn hcall hbusy
  · rename_i hfree
    rw [Bool.not_eq_true] at hfree
    split
    · rename_i hdropped; exact .dropped hturn hcall hfree hdropped
    · rename_i halive
      rw [Bool.not_eq_true] at halive
      exact hnext hfree halive

theorem transition_ifHeld (queue : Queue μ ρ) (call : Call μ ρ) (token : Token) (next : Stepped μ ρ)
    (hturn : queue.turn = .user) (hcall : call.token? = some token)
    (hnext : token ∈ queue.held → Transition queue (.call call) next.1 next.2) :
    Transition queue (.call call) (queue.ifHeld token next).1 (queue.ifHeld token next).2 := by
  unfold ifHeld
  split
  · rename_i hheld; exact hnext hheld
  · rename_i hheld; exact .noToken hturn hcall hheld

theorem transition_startDrain (queue : Queue μ ρ) (hturn : queue.turn = .user) (hfree : queue.busy = false)
    (halive : queue.dropped = false) :
    Transition queue (.call .drain) queue.startDrain.1 queue.startDrain.2 := by
  unfold startDrain giveBack
  simp only [Lane.clear_fst, Lane.clear_snd, List.isEmpty_iff]
  by_cases htracked : queue.inProgress.entries ++ queue.pending.entries = []
  · rw [if_pos htracked]
    exact .drainEmpty hturn hfree halive htracked
  · rw [if_neg htracked]
    exact .drain hturn hfree halive htracked

theorem transition_complete (queue : Queue μ ρ) (token : Token) (outcome : Outcome) (reason : Option ρ)
    (hturn : queue.turn = .user) (hheld : token ∈ queue.held) :
    Transition queue (.call (.complete token outcome reason))
      (queue.complete token outcome reason).1 (queue.complete token outcome reason).2 := by
  cases halive : queue.alive with
  | true =>
      cases hentry : (queue.inProgress.remove token.key).1 with
      | some entry =>
          rw [complete_of_some queue token outcome reason halive hentry]
          exact .complete outcome reason hturn hheld halive hentry
      | none =>
          rw [complete_of_none queue token outcome reason halive hentry]
          exact .completeLate outcome reason hturn hheld halive hentry
  | false =>
      rw [complete_of_not_alive queue token outcome reason halive]
      exact .completeOrphan outcome reason hturn hheld halive

theorem transition_answer (queue : Queue μ ρ) (call : Call μ ρ) (hturn : queue.turn = .user) :
    Transition queue (.call call) (queue.answer call).1 (queue.answer call).2 := by
  cases call with
  | enqueue message =>
      exact transition_ifFree queue _ _ hturn rfl fun hfree halive => .enqueue message hturn hfree halive
  | tick =>
      apply transition_ifFree queue _ _ hturn rfl
      intro hfree halive
      unfold startTick
      split
      · rename_i hscans; exact .tickUnlimited hturn hfree halive hscans
      · rename_i hscans; exact .tick hturn hfree halive hscans
  | drain =>
      exact transition_ifFree queue _ _ hturn rfl fun hfree halive => transition_startDrain queue hturn hfree halive
  | setLimits limits =>
      exact transition_ifFree queue _ _ hturn rfl fun hfree halive => .setLimits limits hturn hfree halive
  | drop => exact transition_ifFree queue _ _ hturn rfl fun hfree halive => .drop hturn hfree halive
  | complete token outcome reason =>
      exact transition_ifHeld queue _ token _ hturn rfl fun hheld =>
        transition_complete queue token outcome reason hturn hheld
  | dropToken token => exact transition_ifHeld queue _ token _ hturn rfl fun hheld => .dropToken hturn hheld

-- The rules are complete.
theorem transition_step (queue : Queue μ ρ) (move : Move μ ρ) :
    Transition queue move (queue.step move).1 (queue.step move).2 := by
  have huser := (turn_eq_user_iff queue).mp
  unfold step
  cases move with
  | advance =>
      dsimp only
      split
      · rename_i hturn; exact transition_advance queue hturn
      · rename_i hturn; exact .idle _ hturn
  | read reading =>
      cases reading with
      | time now =>
          dsimp only
          split
          · rename_i hturn; exact transition_readTime queue now hturn
          · rename_i hturn; exact .idle _ hturn
      | failed fault =>
          dsimp only
          split
          · rename_i hturn; exact transition_readFault queue fault hturn
          · rename_i hturn; exact .idle _ hturn
      | panicked text =>
          dsimp only
          split
          · rename_i hturn; exact .clockPanic text hturn
          · rename_i hturn; exact .idle _ hturn
  | call call =>
      dsimp only
      split
      · rename_i hturn; exact transition_answer queue call hturn
      · rename_i hturn; exact .idle _ hturn
  | finish =>
      dsimp only
      split
      · rename_i hturn
        cases hstack : queue.stack with
        | nil =>
            have h : { queue with stack := [].tail } = queue := by rw [List.tail_nil, ← hstack]
            rw [h]
            exact .idle _ (by simp [Awaits, hstack])
        | cons frame rest => exact .finish hstack (huser hturn frame (by simp [hstack]))
      · rename_i hturn; exact .idle _ fun h => hturn h.1
  | panic text =>
      dsimp only
      split
      · rename_i hturn
        cases hstack : queue.stack with
        | nil => exact .idle _ (by simp [Awaits, hstack])
        | cons frame rest => exact .panic text hstack (huser hturn frame (by simp [hstack]))
      · rename_i hturn; exact .idle _ fun h => hturn h.1

theorem step_of_not_awaits (queue : Queue μ ρ) (move : Move μ ρ) (hidle : ¬queue.Awaits move) :
    queue.step move = (queue, []) := by
  cases move with
  | advance => exact if_neg hidle
  | read reading => cases reading <;> exact if_neg hidle
  | call call => exact if_neg hidle
  | finish =>
      change (if queue.turn = .user then ({ queue with stack := queue.stack.tail }, []) else (queue, [])) = (queue, [])
      split
      · rename_i hturn
        have hstack : queue.stack = [] := by simpa [Awaits, hturn] using hidle
        rw [hstack, List.tail_nil, ← hstack]
      · rfl
  | panic text =>
      by_cases hturn : queue.turn = .user
      · have hstack : queue.stack = [] := by simpa [Awaits, hturn] using hidle
        simp [step, hstack]
      · exact if_neg hturn

-- The rules leave no choice.
theorem Transition.step_eq {queue next : Queue μ ρ} {move : Move μ ρ} {events : List (Event μ ρ)}
    (h : Transition queue move next events) : queue.step move = (next, events) := by
  cases h with
  | idle move hidle => exact step_of_not_awaits queue move hidle
  | @busy call hturn hcall hbusy => cases call <;> simp_all [step, answer, ifFree, Call.token?]
  | @dropped call hturn hcall hfree hdropped => cases call <;> simp_all [step, answer, ifFree, Call.token?]
  | @noToken call token hturn hcall hheld => cases call <;> simp_all [step, answer, ifHeld, Call.token?]
  | clockPanic text hturn => simp [step, hturn, unwind]
  | tick hturn hfree halive hscans =>
      have hstart : queue.startTick = ({ queue with stack := .sweeping queue.limits.scans :: queue.stack }, []) := by
        unfold startTick
        split
        · rename_i hnone; exact absurd hnone hscans
        · rfl
      simp [step, hturn, answer, ifFree, hfree, halive, hstart]
  | complete outcome reason hturn hheld halive hentry =>
      simp [step, hturn, answer, ifHeld, hheld, complete_of_some queue _ outcome reason halive hentry, reporting]
  | completeLate outcome reason hturn hheld halive hentry =>
      simp [step, hturn, answer, ifHeld, hheld, complete_of_none queue _ outcome reason halive hentry]
  | completeOrphan outcome reason hturn hheld halive =>
      simp [step, hturn, answer, ifHeld, hheld, complete_of_not_alive queue _ outcome reason halive]
  | dropToken hturn hheld => simp [step, hturn, answer, ifHeld, hheld, Queue.dropToken]
  | finish hstack huser => simp [step, turn, hstack, huser]
  | panic text hstack huser => simp [step, turn, hstack, huser, unwind]
  | gather hstack hkey => simp [step, turn, hstack, Frame.isUser, Frame.awaitsClock, advance, hkey]
  | nothingPending hstack hkey => simp [step, turn, hstack, Frame.isUser, Frame.awaitsClock, advance, hkey, giveBack]
  | @dispatchedAll bound rest hstack hpop =>
      have hnone : queue.pending.popFront bound = (none, (queue.pending.popFront bound).2) := by rw [← hpop]
      simp only [step, turn, hstack, Frame.isUser, Frame.awaitsClock, advance, giveBack]
      rw [hnone]
      rfl
  | @pop bound entry rest hstack hpop =>
      have hsome : queue.pending.popFront bound = (some entry, (queue.pending.popFront bound).2) := by rw [← hpop]
      simp only [step, turn, hstack, Frame.isUser, Frame.awaitsClock, advance]
      rw [hsome]
      rfl
  | retire hstack | cancel hstack | startUnread fault hstack =>
      simp only [step, turn, hstack, Frame.isUser, Frame.awaitsClock, advance, readFault]
      rfl
  | _ =>
      simp_all [step, turn, Frame.isUser, Frame.awaitsClock, advance, readTime, readFault, giveBack, answer, ifFree,
        startTick, startDrain, Queue.drop]

end Queue

end DeadlineQueue
