import DeadlineQueue.Proofs.Delivery
import DeadlineQueue.Proofs.Survival

namespace DeadlineQueue

variable {μ ρ : Type}

namespace Queue

-- What the panics of a run lose.
def losses (queue : Queue μ ρ) : List (Move μ ρ) → List (Entry μ)
  | [] => []
  | move :: moves => queue.lost move (queue.step move).2 ++ (queue.step move).1.losses moves

theorem losses_append (queue : Queue μ ρ) (first second : List (Move μ ρ)) :
    queue.losses (first ++ second) = queue.losses first ++ (queue.run first).1.losses second := by
  induction first generalizing queue with
  | nil => rfl
  | cons move moves ih => rw [List.cons_append, losses, ih, losses, run_cons, List.append_assoc]

-- The ways in which a panic loses an entry. The clock panics when it is asked for the start time of
-- the entry, or the notifier panics in a delivery that was started by the call that holds the entry
-- in its batch. A batch whose notices join a delivery that is already running cannot get lost.
inductive Loss (queue : Queue μ ρ) (entry : Entry μ) : Move μ ρ → Prop where
  | unread {bound : Nat} {rest : List (Frame μ ρ)} (text : String)
      (hstack : queue.stack = .starting bound entry :: rest) : Loss queue entry (.read (.panicked text))
  | unswept {notice : Notice μ ρ} {name : LaneName} {batch : List (Entry μ)} {rest : List (Frame μ ρ)} (text : String)
      (hstack : queue.stack = .notifying notice :: .delivering :: .retiring name batch :: rest)
      (hentry : entry ∈ batch) : Loss queue entry (.panic text)
  | undrained {notice : Notice μ ρ} {batch : List (Entry μ)} {total : Nat} {rest : List (Frame μ ρ)} (text : String)
      (hstack : queue.stack = .notifying notice :: .delivering :: .draining batch total :: rest)
      (hentry : entry ∈ batch) : Loss queue entry (.panic text)

-- What a panic of the notifier takes from the call that has raised the notice.
theorem lost_notifying {queue : Queue μ ρ} {notice : Notice μ ρ} {frame : Frame μ ρ} {rest : List (Frame μ ρ)}
    (text : String) (hcalled : Called (frame :: rest)) (hframe : frame.raises = true)
    (hstack : queue.stack = .notifying notice :: .delivering :: frame :: rest) :
    queue.lost (.panic text) [.panicked text] = frame.carried := by
  have hleft : ((frame :: rest).takeWhile (fun frame => !frame.isUser)).flatMap Frame.carried = frame.carried := by
    cases frame with
    | dispatching | completing => rw [List.takeWhile_cons_of_pos rfl, takeWhile_eq_nil hcalled.1]; rfl
    | draining => rw [List.takeWhile_cons_of_pos rfl, takeWhile_eq_nil hcalled.1]; simp
    | retiring name batch =>
        obtain ⟨⟨now, scans, hbelow⟩, hrest⟩ := hcalled
        obtain ⟨below, rfl⟩ := List.head?_eq_some_iff.mp hbelow
        rw [List.takeWhile_cons_of_pos rfl, List.takeWhile_cons_of_pos rfl, takeWhile_eq_nil hrest.1]
        simp
    | _ => exact absurd hframe Bool.false_ne_true
  simp only [lost, hstack, List.any_cons, Event.isPanic, Bool.true_or, if_true, List.tail_cons]
  rw [List.takeWhile_cons_of_pos rfl, List.flatMap_cons, hleft]
  rfl

-- What a panic of the processor takes from the dispatch.
theorem lost_processing {queue : Queue μ ρ} {token : Token} {message : μ} {rest : List (Frame μ ρ)} (text : String)
    (hcalled : Called queue.stack) (hstack : queue.stack = .processing token message :: rest) :
    queue.lost (.panic text) [.panicked text] = [] := by
  rw [hstack] at hcalled
  obtain ⟨⟨bound, hbelow⟩, hrest⟩ := hcalled
  obtain ⟨below, rfl⟩ := List.head?_eq_some_iff.mp hbelow
  simp only [lost, hstack, List.any_cons, Event.isPanic, Bool.true_or, if_true, List.tail_cons]
  rw [List.takeWhile_cons_of_pos rfl, takeWhile_eq_nil hrest.1]
  rfl

-- What a panic of the clock takes from the call that reads it.
theorem lost_awaitsClock {queue : Queue μ ρ} {frame : Frame μ ρ} {rest : List (Frame μ ρ)} (text : String)
    (hcalled : Called queue.stack) (hstack : queue.stack = frame :: rest) (hframe : frame.awaitsClock = true) :
    queue.lost (.read (.panicked text)) [.panicked text] = frame.carried := by
  rw [hstack] at hcalled
  simp only [lost, hstack, List.any_cons, Event.isPanic, Bool.true_or, if_true]
  rw [hcalled.takeWhile_of_awaitsClock hframe, List.flatMap_singleton]

theorem Transition.mem_lost_iff {queue next : Queue μ ρ} {move : Move μ ρ} {events : List (Event μ ρ)}
    (h : Transition queue move next events) (hcalled : Called queue.stack) (entry : Entry μ) :
    entry ∈ queue.lost move events ↔ queue.Loss entry move := by
  by_cases hcalm : move.calm = true
  · rw [h.lost_eq_nil hcalm]
    refine ⟨fun hentry => absurd hentry List.not_mem_nil, fun hloss => ?_⟩
    cases hloss <;> exact absurd hcalm Bool.false_ne_true
  cases h with
  | idle _ hidle =>
      refine ⟨fun hentry => absurd hentry List.not_mem_nil, fun hloss => absurd ?_ hidle⟩
      cases hloss with
      | unread text hstack => simp [Awaits, turn, hstack, Frame.isUser, Frame.awaitsClock]
      | unswept text hstack => simp [Awaits, turn, hstack, Frame.isUser]
      | undrained text hstack => simp [Awaits, turn, hstack, Frame.isUser]
  | clockPanic text hturn =>
      obtain ⟨frame, rest, hstack, hframe⟩ := queue.exists_awaitsClock hturn
      rw [lost_awaitsClock text hcalled hstack hframe]
      constructor
      · intro hentry
        cases frame with
        | starting bound starting =>
            obtain rfl : entry = starting := by simpa using hentry
            exact .unread text hstack
        | enqueuing => exact absurd hentry List.not_mem_nil
        | sweeping => exact absurd hentry List.not_mem_nil
        | _ => exact absurd hframe Bool.false_ne_true
      · intro hloss
        cases hloss with
        | unread text hunread =>
            obtain ⟨rfl, -⟩ := List.cons.inj (hstack.symm.trans hunread)
            exact List.mem_singleton_self entry
  | @panic frame rest text hstack huser =>
      cases frame with
      | processing token message =>
          rw [lost_processing text hcalled hstack]
          refine ⟨fun hentry => absurd hentry List.not_mem_nil, fun hloss => ?_⟩
          cases hloss with
          | unswept text hunswept => simp [hstack] at hunswept
          | undrained text hundrained => simp [hstack] at hundrained
      | notifying notice =>
          rw [hstack] at hcalled
          obtain ⟨below, rfl⟩ := List.head?_eq_some_iff.mp hcalled.1
          obtain ⟨frame, hbelow, hraises⟩ := hcalled.2.1
          obtain ⟨under, rfl⟩ := List.head?_eq_some_iff.mp hbelow
          rw [lost_notifying text hcalled.2.2 hraises hstack]
          constructor
          · intro hentry
            cases frame with
            | retiring => exact .unswept text hstack hentry
            | draining => exact .undrained text hstack hentry
            | dispatching => exact absurd hentry List.not_mem_nil
            | completing => exact absurd hentry List.not_mem_nil
            | _ => exact absurd hraises Bool.false_ne_true
          · intro hloss
            cases hloss with
            | unswept text hunswept hentry =>
                rw [hstack] at hunswept
                obtain ⟨-, -, rfl, -⟩ := by simpa only [List.cons.injEq] using hunswept
                exact hentry
            | undrained text hundrained hentry =>
                rw [hstack] at hundrained
                obtain ⟨-, -, rfl, -⟩ := by simpa only [List.cons.injEq] using hundrained
                exact hentry
      | _ => exact absurd huser Bool.false_ne_true
  | _ => exact absurd rfl hcalm

-- The conservation law over a run.
theorem run_ledger (queue : Queue μ ρ) (hs : queue.Ordered) (moves : List (Move μ ρ)) :
    (queue.run moves).1.ledger + delivered (queue.run moves).2 + census ((queue.losses moves).map Entry.labelled) =
      queue.ledger + census (queue.admissions moves) := by
  induction moves generalizing queue with
  | nil => simp [run_nil, losses, admissions, delivered]
  | cons move moves ih =>
      let next := (queue.step move).1
      let told := (queue.step move).2
      let last := (next.run moves).1
      let later := (next.run moves).2
      let lostNow := census ((queue.lost move told).map Entry.labelled)
      let lostLater := census ((next.losses moves).map Entry.labelled)
      have hstep : next.ledger + delivered told + lostNow = queue.ledger + census (queue.accepted told) :=
        (transition_step queue move).ledger hs
      have hrest : last.ledger + delivered later + lostLater = next.ledger + census (next.admissions moves) :=
        ih next (ordered_step hs move)
      have hdelivered : delivered (told ++ later) = delivered told + delivered later := by simp [delivered]
      rw [run_cons, losses, admissions, List.map_append, census_append, census_append, hdelivered]
      calc last.ledger + (delivered told + delivered later) + (lostNow + lostLater)
          = last.ledger + delivered later + lostLater + (delivered told + lostNow) := by abel
        _ = next.ledger + delivered told + lostNow + census (next.admissions moves) := by rw [hrest]; abel
        _ = queue.ledger + (census (queue.accepted told) + census (next.admissions moves)) := by rw [hstep]; abel

theorem raises_eq (settings : Settings) (observed : Bool) (moves : List (Move μ ρ)) :
    raises ((make settings observed).run moves).2 =
      deliveries ((make settings observed).run moves).2 ++ ((make settings observed).run moves).1.outbox :=
  (run_outbox (make settings observed) moves).symm

-- All the places of a message. Every admitted message is in one of them, panics or not.
theorem run_places (settings : Settings) (observed : Bool) (moves : List (Move μ ρ)) :
    let queue := ((make settings observed).run moves).1
    let events := ((make settings observed).run moves).2
    (queue.pending.entries.map Entry.labelled ++ queue.inProgress.entries.map Entry.labelled ++
      (queue.stack.flatMap Frame.carried).map Entry.labelled ++ (raises events).map Notice.labelled ++
      ((make settings observed).losses moves).map Entry.labelled).Perm ((make settings observed).admissions moves) := by
  intro queue events
  have hledger : queue.ledger + delivered events + census (((make settings observed).losses moves).map Entry.labelled) =
      0 + census ((make settings observed).admissions moves) :=
    run_ledger (make settings observed) (.make settings observed) moves
  rw [zero_add] at hledger
  rw [← census_eq_iff, ← hledger, raises_eq]
  simp only [census_append, List.map_append, ledger, Lane.census, delivered, deliveries, queue, events]
  abel

-- The ids of the messages that were raised and of those that were lost.
def gone (queue : Queue μ ρ) (moves : List (Move μ ρ)) : List MessageId :=
  (raises (queue.run moves).2).map (fun notice => notice.id) ++ (queue.losses moves).map (fun entry => entry.id)

theorem mem_gone_append {queue : Queue μ ρ} {id : MessageId} {past : List (Move μ ρ)} (h : id ∈ queue.gone past)
    (later : List (Move μ ρ)) : id ∈ queue.gone (past ++ later) := by
  unfold gone at h ⊢
  rw [run_append, raises_append, losses_append, List.map_append, List.map_append]
  rcases List.mem_append.mp h with h | h
  · exact List.mem_append_left _ (List.mem_append_left _ h)
  · exact List.mem_append_right _ (List.mem_append_left _ h)

-- A message goes once, and then no call holds it.
theorem run_gone (settings : Settings) (observed : Bool) (moves : List (Move μ ρ)) :
    ((make settings observed).gone moves).Nodup ∧
      ∀ entry ∈ ((make settings observed).run moves).1.stack.flatMap Frame.carried,
        entry.id ∉ (make settings observed).gone moves := by
  have hnodup := ((run_places settings observed moves).map Prod.fst).nodup_iff.mpr
    (sound_run settings observed moves).numbered.nodup
  have hids : ((((make settings observed).run moves).1.pending.entries ++
      ((make settings observed).run moves).1.inProgress.entries ++
      ((make settings observed).run moves).1.stack.flatMap Frame.carried).map (fun entry => entry.id) ++
        (make settings observed).gone moves).Nodup := by
    simpa [gone, Function.comp_def, Entry.labelled, Notice.labelled] using hnodup
  obtain ⟨-, hgone, hdisjoint⟩ := List.nodup_append.mp hids
  exact ⟨hgone, fun entry hentry hid =>
    hdisjoint entry.id (List.mem_map_of_mem (List.mem_append_right _ hentry)) entry.id hid rfl⟩

-- What is told in a run is told in one of its steps.
theorem exists_step_of_mem_run (queue : Queue μ ρ) (moves : List (Move μ ρ)) {event : Event μ ρ}
    (h : event ∈ (queue.run moves).2) :
    ∃ before move after, moves = before ++ move :: after ∧ event ∈ ((queue.run before).1.step move).2 := by
  induction moves generalizing queue with
  | nil => exact absurd h List.not_mem_nil
  | cons move moves ih =>
      rw [run_cons, List.mem_append] at h
      rcases h with h | h
      · exact ⟨[], move, moves, rfl, h⟩
      · obtain ⟨before, last, after, rfl, hevent⟩ := ih _ h
        exact ⟨move :: before, last, after, rfl, hevent⟩

-- What is dispatched was held by the dispatch.
theorem Transition.dispatched {queue next : Queue μ ρ} {move : Move μ ρ} {events : List (Event μ ρ)}
    (h : Transition queue move next events) {issue : Token × μ} (hissue : issue ∈ dispatches events) :
    ∃ entry ∈ queue.stack.flatMap Frame.carried, entry.id = issue.1.id := by
  cases h.change with
  | trimmed _ _ _ _ _ hdispatched | accepted _ _ _ _ _ _ _ _ hdispatched => simp [hdispatched] at hissue
  | @started bound entry rest now hstack _ _ _ _ _ _ hdispatched =>
      obtain rfl : issue = _ := by simpa [hdispatched] using hissue
      exact ⟨entry, by simp [hstack], rfl⟩

-- What has gone is not dispatched.
theorem run_gone_later (settings : Settings) (observed : Bool) (past later : List (Move μ ρ)) {issue : Token × μ}
    (hissue : issue ∈ dispatches (((make settings observed).run past).1.run later).2) :
    issue.1.id ∉ (make settings observed).gone past := by
  intro hgone
  obtain ⟨event, hevent, hdispatched⟩ := List.mem_filterMap.mp hissue
  obtain ⟨before, move, after, rfl, hstep⟩ := exists_step_of_mem_run _ _ hevent
  have hissue := List.mem_filterMap.mpr ⟨event, hstep, hdispatched⟩
  obtain ⟨entry, hentry, hid⟩ := (transition_step _ move).dispatched hissue
  have hcarried : entry ∈ ((make settings observed).run (past ++ before)).1.stack.flatMap Frame.carried := by
    rw [run_append]
    exact hentry
  exact (run_gone settings observed (past ++ before)).2 entry hcarried (hid ▸ mem_gone_append hgone before)

-- What was lost is not delivered.
theorem run_lost_later (settings : Settings) (observed : Bool) (past later : List (Move μ ρ)) {entry : Entry μ}
    (hentry : entry ∈ (make settings observed).losses past) {notice : Notice μ ρ}
    (hnotice : notice ∈ deliveries (((make settings observed).run past).1.run later).2) : notice.id ≠ entry.id := by
  have hgone := (run_gone settings observed (past ++ later)).1
  rw [gone, losses_append, raises_eq, run_append, deliveries_append] at hgone
  refine (List.nodup_append.mp hgone).2.2 notice.id (List.mem_map_of_mem ?_) entry.id (List.mem_map_of_mem ?_)
  · exact List.mem_append_left _ (List.mem_append_right _ hnotice)
  · exact List.mem_append_left _ hentry

-- What panics can do. When no call is running, each admitted message is in one place and there once:
-- it waits, it is in progress, its notice was delivered or waits in the outbox, or it was lost. It is
-- lost in three ways only, and then not heard of again; no message is delivered or dispatched twice.
-- A message whose processor panics before it has used the token is still in progress, with those
-- behind it still waiting, and a drain or a sweep finds it.
theorem run_panics (settings : Settings) (observed : Bool) (moves : List (Move μ ρ)) :
    let queue := ((make settings observed).run moves).1
    let events := ((make settings observed).run moves).2
    let admitted := (make settings observed).admissions moves
    admitted.map Prod.fst = events.filterMap Event.admitted? ∧
      (admitted.map Prod.fst).Nodup ∧
      (queue.stack = [] →
        (queue.pending.entries.map Entry.labelled ++ queue.inProgress.entries.map Entry.labelled ++
          (deliveries events).map Notice.labelled ++ queue.outbox.map Notice.labelled ++
          ((make settings observed).losses moves).map Entry.labelled).Perm admitted) ∧
      (∀ move entry, entry ∈ queue.lost move (queue.step move).2 ↔ queue.Loss entry move) ∧
      (∀ entry ∈ (make settings observed).losses moves, ∀ later,
        (∀ notice ∈ deliveries (queue.run later).2, notice.id ≠ entry.id) ∧
          ∀ issue ∈ dispatches (queue.run later).2, issue.1.id ≠ entry.id) ∧
      ((deliveries events).map (fun notice => notice.id)).Nodup ∧
      ((dispatches events).map (fun issue => issue.1.id)).Nodup ∧
      ∀ bound entry rest now, queue.stack = .starting bound entry :: rest →
        let token : Token := { key := queue.nextKey, id := entry.id }
        let started : Entry μ := { entry with startedAt := some now }
        let called := (queue.step (.read (.time now))).1
        called.stack = .processing token entry.message :: .dispatching bound :: rest ∧
          ∀ during text, called.spans (rest.length + 1) (during ++ [.panic text]) = true →
            (∀ outcome reason, .call (.complete token outcome reason) ∉ during) →
            let after := (called.run (during ++ [.panic text])).1
            after.pending.entries = queue.pending.entries ∧ started ∈ after.inProgress.entries ∧
              (∃ later, (∀ move ∈ later, move.quiet = true) ∧
                .raised .drain (started.notice .cancelled none) ∈ (after.run (.call .drain :: later)).2) ∧
              ∀ scan, (LaneName.inProgress, scan) ∈ after.limits.scans →
                ∃ time later, (∀ move ∈ later, move.quiet = true) ∧
                  .raised (.sweep .inProgress) (started.notice .timeout none) ∈
                    (after.run (.call .tick :: .read (.time time) :: later)).2 := by
  intro queue events admitted
  have hs : queue.Sound admitted events := sound_run settings observed moves
  have hgone := (run_gone settings observed moves).1
  rw [gone, raises_eq, List.map_append] at hgone
  refine ⟨hs.numbered.returned, hs.numbered.nodup, ?_, ?_, ?_, ?_, ?_, ?_⟩
  · intro hidle
    have hstack : ((make settings observed).run moves).1.stack = [] := hidle
    have hplaces := run_places settings observed moves
    dsimp only at hplaces
    rw [raises_eq] at hplaces
    simpa [hstack] using hplaces
  · exact fun move entry => (transition_step queue move).mem_lost_iff (called_run settings observed moves) entry
  · intro entry hentry later
    have hid : entry.id ∈ (make settings observed).gone moves :=
      List.mem_append_right _ (List.mem_map_of_mem hentry)
    exact ⟨fun notice hnotice => run_lost_later settings observed moves later hentry hnotice,
      fun issue hissue heq => run_gone_later settings observed moves later hissue (heq ▸ hid)⟩
  · exact (List.nodup_append.mp (List.nodup_append.mp hgone).1).1
  · exact (List.nodup_append.mp hs.ids_nodup).1
  · exact fun bound entry rest now hstack => run_processor_panics settings observed moves now hstack

-- A drain of two messages, with a notifier that panics at the first notice.
def drainPanics : List (Move String String) :=
  [.call (.enqueue "a"), .read (.time 0), .call (.enqueue "b"), .read (.time 0), .call .drain, .advance, .advance,
    .panic "notifier"]

-- Two more messages, the first of which is about to be dispatched.
def nextTick : List (Move String String) :=
  [.call (.enqueue "c"), .read (.time 1), .call (.enqueue "d"), .read (.time 1), .call .tick, .advance, .advance]

-- The second message of the drain is lost. The processor of the third one panics, and the fourth waits.
theorem run_panics_drainPanics :
    let idle : Queue String String := ((make {} true).run drainPanics).1
    let queue : Queue String String := ((make {} true).run (drainPanics ++ nextTick)).1
    let after := ((queue.step (.read (.time 2))).1.run [.panic "processor"]).1
    idle.stack = [] ∧
      ([((⟨0⟩ : MessageId), "a")] ++ ((make {} true : Queue String String).losses drainPanics).map Entry.labelled).Perm
        [(⟨0⟩, "a"), (⟨1⟩, "b")] ∧
      after.pending.entries.map Entry.labelled = [(⟨3⟩, "d")] ∧
      { id := ⟨2⟩, message := "c", enqueuedAt := 1, startedAt := some 2 } ∈ after.inProgress.entries := by
  intro idle queue after
  have hplaces := (run_panics {} true drainPanics).2.2.1 rfl
  have hpanic := (run_panics {} true (drainPanics ++ nextTick)).2.2.2.2.2.2.2 3
    { id := ⟨2⟩, message := "c", enqueuedAt := 1 } [] 2 rfl
  obtain ⟨hpending, hstarted, -⟩ := hpanic.2 [] "processor" rfl (by simp)
  exact ⟨rfl, hplaces, (congrArg (List.map Entry.labelled) hpending).trans rfl, hstarted⟩

end Queue

end DeadlineQueue
