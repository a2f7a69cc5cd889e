import DeadlineQueue.Proofs.Losses

namespace DeadlineQueue

variable {μ ρ : Type}

-- A message that leaves the pending lane in the course of a tick. It is timed out, its start time
-- cannot be read, or it is handed to the processor.
def Event.departure? : Event μ ρ → Option (MessageId × μ)
  | .raised (.sweep .pending) { id, message, outcome := .timeout, reason := none } => some (id, message)
  | .raised .unread { id, message, outcome := .error, reason := none } => some (id, message)
  | .dispatched token message => some (token.id, message)
  | _ => none

namespace Event

instance : SkipsLog (departure? : Event μ ρ → _) := ⟨fun _ => rfl⟩

@[simp] theorem departure_log (record : Record) : (log record : Event μ ρ).departure? = none := rfl
@[simp] theorem departure_notified (notice : Notice μ ρ) : (notified notice).departure? = none := rfl
@[simp] theorem departure_unobserved (notice : Notice μ ρ) : (unobserved notice).departure? = none := rfl
@[simp] theorem departure_returned (reply : Reply μ) : (returned reply : Event μ ρ).departure? = none := rfl
@[simp] theorem departure_panicked (text : String) : (panicked text : Event μ ρ).departure? = none := rfl
@[simp] theorem departure_dispatched (token : Token) (message : μ) :
    (dispatched token message : Event μ ρ).departure? = some (token.id, message) := rfl
@[simp] theorem departure_token (notice : Notice μ ρ) : (raised .token notice).departure? = none := rfl
@[simp] theorem departure_drain (notice : Notice μ ρ) : (raised .drain notice).departure? = none := rfl
@[simp] theorem departure_sweep (notice : Notice μ ρ) : (raised (.sweep .inProgress) notice).departure? = none := rfl
@[simp] theorem departure_timeout (entry : Entry μ) :
    (raised (.sweep .pending) (entry.notice .timeout none) : Event μ ρ).departure? = some entry.labelled := rfl
@[simp] theorem departure_unread (entry : Entry μ) :
    (raised .unread (entry.notice .error none) : Event μ ρ).departure? = some entry.labelled := rfl

end Event

namespace Frame

-- The entries that have left the pending lane and are still on their way out.
@[simp] def leaving : Frame μ ρ → List (Entry μ)
  | starting _ entry => [entry]
  | retiring .pending batch => batch
  | _ => []

-- A call that holds the queue and is no tick.
def besidesTick : Frame μ ρ → Bool
  | enqueuing _ | draining _ _ => true
  | _ => false

end Frame

-- If a panic leaves some call that holds the queue, it leaves all of them.
theorem Nested.unwind_free {stack : List (Frame μ ρ)} (h : Nested stack)
    (hleft : (stack.takeWhile (fun frame => !frame.isUser)).any Frame.holdsQueue = true) :
    (stack.dropWhile (fun frame => !frame.isUser)).any Frame.holdsQueue = false := by
  induction stack with
  | nil => rfl
  | cons frame rest ih =>
      cases huser : frame.isUser with
      | true =>
          rw [List.takeWhile_cons_of_neg (by simp [huser])] at hleft
          exact absurd hleft Bool.false_ne_true
      | false =>
          rw [List.takeWhile_cons_of_pos (by simp [huser]), List.any_cons] at hleft
          rw [List.dropWhile_cons_of_pos (by simp [huser])]
          have hfree (hrest : rest.any Frame.holdsQueue = false) :
              (rest.dropWhile (fun frame => !frame.isUser)).any Frame.holdsQueue = false :=
            any_eq_false_of_suffix _ (List.dropWhile_suffix _) hrest
          cases frame with
          | retiring name batch =>
              obtain ⟨now, scans, below, rfl⟩ := h.1
              exact ih h.2 (by rw [List.takeWhile_cons_of_pos rfl]; rfl)
          | completing => exact ih h.2 hleft
          | delivering => exact ih h.2 hleft
          | processing => exact absurd huser.symm Bool.false_ne_true
          | notifying => exact absurd huser.symm Bool.false_ne_true
          | _ => exact hfree h.1

theorem leaving_of_not_holdsQueue (stack : List (Frame μ ρ)) (h : stack.any Frame.holdsQueue = false) :
    stack.flatMap Frame.leaving = [] :=
  flatMap_of_not_holdsQueue stack Frame.leaving (fun frame hframe => by cases frame <;> simp_all [Frame.holdsQueue]) h

namespace Queue

def departures (events : List (Event μ ρ)) : Multiset (MessageId × μ) :=
  census (events.filterMap Event.departure?)

theorem departures_append (first second : List (Event μ ρ)) :
    departures (first ++ second) = departures first + departures second := by
  simp [departures]

-- What waits, and what is on its way out.
def leaving (queue : Queue μ ρ) : Multiset (MessageId × μ) :=
  census ((queue.stack.flatMap Frame.leaving).map Entry.labelled) + queue.pending.census

theorem leaving_raise (queue : Queue μ ρ) (source : Source) (notice : Notice μ ρ) :
    (queue.raise source notice).1.leaving = queue.leaving := by
  rw [leaving, leaving, flatMap_stack_raise _ _ _ Frame.leaving rfl, pending_raise]

-- A panic that does not end the tick takes nothing from it.
theorem leaving_unwind (queue : Queue μ ρ) {stack : List (Frame μ ρ)} (text : String) (hnested : Nested stack)
    (hstack : stack.flatMap Frame.leaving = queue.stack.flatMap Frame.leaving)
    (hbusy : (queue.unwind stack text).1.busy = true) : (queue.unwind stack text).1.leaving = queue.leaving := by
  have hleft : (stack.takeWhile (fun frame => !frame.isUser)).any Frame.holdsQueue = false := by
    by_contra hholds
    exact absurd ((hnested.unwind_free (by simpa using hholds)).symm.trans hbusy) Bool.false_ne_true
  have hnone := leaving_of_not_holdsQueue _ hleft
  have hsplit := congrArg (List.flatMap Frame.leaving)
    (List.takeWhile_append_dropWhile (p := fun frame : Frame μ ρ => !frame.isUser) (l := stack))
  rw [List.flatMap_append, hnone, List.nil_append, hstack] at hsplit
  simp only [leaving, unwind, hsplit]

-- In the course of a tick messages leave the pending lane in the three ways only.
theorem Transition.departures {queue next : Queue μ ρ} {move : Move μ ρ} {events : List (Event μ ρ)}
    (h : Transition queue move next events) (hs : queue.Stacked) (hbusy : queue.busy = true)
    (hframes : queue.stack.any Frame.besidesTick = false) (hkept : events.any Event.isPanic = true → next.busy = true) :
    departures events + next.leaving = queue.leaving := by
  cases h with
  | @scan now name scan scans rest hstack =>
      cases name with
      | pending =>
          have hcensus := queue.pending.census_takeOverdue scan now
          simp [Queue.departures, Queue.leaving, hstack, ← hcensus]
          abel
      | inProgress => simp [Queue.departures, Queue.leaving, hstack]
  | @retire name entry batch rest hstack =>
      rw [leaving_raise]
      cases name with
      | pending =>
          simp [Queue.departures, Queue.leaving, hstack, -Multiset.singleton_add]
          abel
      | inProgress => simp [Queue.departures, Queue.leaving, hstack, List.filterMap_cons]
  | @retiredAll name rest hstack =>
      cases name with
      | pending => simp [Queue.departures, Queue.leaving, hstack]
      | inProgress => simp [Queue.departures, Queue.leaving, hstack]
  | @startUnread bound entry rest fault hstack =>
      rw [leaving_raise]
      simp [Queue.departures, Queue.leaving, hstack, List.filterMap_cons, -Multiset.singleton_add]
      abel
  | @pop bound entry rest hstack hpop =>
      have hcensus := queue.pending.census_popFront bound entry hpop
      simp [Queue.departures, Queue.leaving, hstack, ← hcensus, -Multiset.singleton_add]
      abel
  | complete =>
      rw [leaving_raise]
      simp [Queue.departures, Queue.leaving, List.filterMap_cons]
  | @start bound entry rest now hstack =>
      simp [Queue.departures, Queue.leaving, hstack, append, List.filterMap_cons, Entry.labelled,
        -Multiset.singleton_add]
      abel
  | clockPanic text =>
      have hunwind := queue.leaving_unwind text hs.nested rfl (hkept rfl)
      exact (zero_add _).trans hunwind
  | @panic frame rest text hstack huser =>
      have hframe : frame.leaving = [] := by cases frame <;> simp_all [Frame.isUser]
      have hrest : rest.flatMap Frame.leaving = queue.stack.flatMap Frame.leaving := by
        rw [hstack, List.flatMap_cons, hframe, List.nil_append]
      have hunwind := queue.leaving_unwind text (hs.fits hstack).2 hrest (hkept rfl)
      exact (zero_add _).trans hunwind
  | @finish frame rest hstack huser =>
      have hframe : frame.leaving = [] := by cases frame <;> simp_all [Frame.isUser]
      have hrest : rest.flatMap Frame.leaving = queue.stack.flatMap Frame.leaving := by
        rw [hstack, List.flatMap_cons, hframe, List.nil_append]
      simp [Queue.departures, Queue.leaving, hrest]
  | _ => simp_all [Queue.departures, Queue.leaving, Frame.besidesTick, List.filterMap_cons]

-- While a tick holds the queue no other call gets it.
theorem Transition.besidesTick {queue next : Queue μ ρ} {move : Move μ ρ} {events : List (Event μ ρ)}
    (h : Transition queue move next events) (hbusy : queue.busy = true)
    (hframes : queue.stack.any Frame.besidesTick = false) : next.stack.any Frame.besidesTick = false := by
  cases h with
  | retire hstack | startUnread fault hstack =>
      rw [any_stack_raise _ _ _ _ rfl]
      simp_all [Frame.besidesTick]
  | complete =>
      rw [any_stack_raise _ _ _ _ rfl]
      simpa [Frame.besidesTick] using hframes
  | clockPanic text => exact any_eq_false_of_suffix _ (unwind_suffix queue queue.stack text) hframes
  | panic text hstack => exact any_eq_false_of_suffix _ (unwind_suffix_of_cons queue hstack text) hframes
  | @finish frame rest hstack => exact any_eq_false_of_suffix _ (hstack ▸ List.suffix_cons frame rest) hframes
  | _ => simp_all [Frame.besidesTick]

-- A tick that is not ended by a panic returns, and then nothing waits.
theorem Transition.tick_returns {queue next : Queue μ ρ} {move : Move μ ρ} {events : List (Event μ ρ)}
    (h : Transition queue move next events) (hs : queue.Stacked) (hbounded : queue.Bounded) (hbusy : queue.busy = true)
    (hframes : queue.stack.any Frame.besidesTick = false) (hcalm : move.calm = true) (hfree : next.busy = false) :
    events = [.returned .done] ∧ next.pending.entries = [] := by
  cases h with
  | nothingPending hstack hkey => exact ⟨rfl, queue.pending.lastKey_eq_none_iff.mp hkey⟩
  | dispatchedAll hstack hpop => exact ⟨rfl, hbounded.pending_eq_nil hstack hpop⟩
  | retire | cancel | startUnread =>
      rw [busy_raise] at hfree
      exact absurd hfree (by simp [Queue.busy, Frame.holdsQueue])
  | retiredAll hstack =>
      obtain ⟨now, scans, below, rfl⟩ := (hs.fits hstack).1
      exact absurd hfree (by simp [Queue.busy, Frame.holdsQueue])
  | complete =>
      rw [busy_raise] at hfree
      exact absurd (hfree.symm.trans hbusy) Bool.false_ne_true
  | completed hstack | deliveredAll hstack | notify hstack =>
      rw [Queue.busy, hstack] at hbusy
      exact absurd (hfree.symm.trans hbusy) Bool.false_ne_true
  | @finish frame rest hstack huser =>
      rw [Queue.busy, hstack, List.any_cons, Frame.not_holdsQueue_of_isUser huser, Bool.false_or] at hbusy
      exact absurd (hfree.symm.trans hbusy) Bool.false_ne_true
  | clockPanic | panic => exact absurd hcalm Bool.false_ne_true
  | _ =>
      first
        | exact absurd (hfree.symm.trans hbusy) Bool.false_ne_true
        | simp_all [Queue.busy, Frame.holdsQueue, Frame.besidesTick]

theorem leaving_of_free {queue : Queue μ ρ} (hfree : queue.busy = false) : queue.leaving = queue.pending.census := by
  rw [leaving, leaving_of_not_holdsQueue queue.stack hfree, List.map_nil, census_nil, zero_add]

-- The rest of a tick. What is still on its way out leaves, and nothing waits at the end.
theorem Sound.run_tick {queue : Queue μ ρ} {admitted : List (MessageId × μ)} {past : List (Event μ ρ)}
    (h : queue.Sound admitted past) {above below : List (Frame μ ρ)} {base : Frame μ ρ}
    (hstack : queue.stack = above ++ base :: below) (hbase : base.holdsQueue = true)
    (hbelow : below.any Frame.holdsQueue = false) (hframes : queue.stack.any Frame.besidesTick = false)
    {moves : List (Move μ ρ)} (hspans : queue.spans below.length moves = true)
    (hlast : ∀ last ∈ moves.getLast?, last.calm = true) :
    departures (queue.run moves).2 = queue.leaving ∧ (queue.run moves).1.pending.entries = [] ∧
      (queue.run moves).2.getLast? = some (.returned .done) := by
  induction moves generalizing queue admitted past above base with
  | nil =>
      have hlength := length_of_spans hspans
      rw [run_nil, hstack, List.length_append, List.length_cons] at hlength
      omega
  | cons move moves ih =>
      rw [spans, Bool.and_eq_true] at hspans
      have hstep := transition_step queue move
      have hbusy : queue.busy = true := by simp [busy, hstack, hbase]
      rcases hstep.shift.holds hstack hbase with ⟨above, base, hnext, hbase⟩ | hleft
      · have hnextBusy : (queue.step move).1.busy = true := by simp [busy, hnext, hbase]
        have hlast' : ∀ last ∈ moves.getLast?, last.calm = true := by
          intro last hmem
          apply hlast
          rw [List.getLast?_cons, Option.mem_def.mp hmem]
          rfl
        obtain ⟨hdepartures, hpending, hreturned⟩ :=
          ih (h.step move) hnext hbase (hstep.besidesTick hbusy hframes) hspans.2 hlast'
        have hlaw := hstep.departures h.stacked hbusy hframes fun _ => hnextBusy
        rw [run_cons, departures_append, hdepartures, List.getLast?_append, hreturned]
        exact ⟨hlaw, hpending, rfl⟩
      · obtain rfl := eq_nil_of_spans hspans.2 hleft.length_le
        have hfree : (queue.step move).1.busy = false := any_eq_false_of_suffix _ hleft hbelow
        obtain ⟨hevents, hpending⟩ :=
          hstep.tick_returns h.stacked h.bounded hbusy hframes (hlast move rfl) hfree
        have hlaw := hstep.departures h.stacked hbusy hframes (by simp [hevents])
        rw [leaving_of_free hfree, Lane.census, hpending, List.map_nil, census_nil, add_zero] at hlaw
        rw [run_cons, run_nil, List.append_nil]
        exact ⟨hlaw, hpending, by rw [hevents]; rfl⟩

-- A tick begins with the sweep, or with the dispatch if there is nothing to sweep for.
theorem step_tick (queue : Queue μ ρ) (hturn : queue.turn = .user) (hfree : queue.busy = false)
    (halive : queue.dropped = false) :
    ∃ frame : Frame μ ρ, (frame = .sweeping queue.limits.scans ∨ queue.limits.scans = [] ∧ frame = .gathering) ∧
      frame.holdsQueue = true ∧ (frame :: queue.stack).any Frame.besidesTick = false ∧
      queue.step (.call .tick) = ({ queue with stack := frame :: queue.stack }, []) := by
  have htick : queue.step (.call .tick) = queue.startTick := by simp [step, hturn, answer, ifFree, hfree, halive]
  have hrest := any_of_not_holdsQueue queue.stack Frame.besidesTick
    (fun frame hframe => by cases frame <;> simp_all [Frame.holdsQueue, Frame.besidesTick]) hfree
  rw [htick, startTick]
  split
  · rename_i hscans
    exact ⟨.gathering, .inr ⟨hscans, rfl⟩, rfl, hrest, rfl⟩
  · exact ⟨.sweeping queue.limits.scans, .inl rfl, rfl, hrest, rfl⟩

-- Every call that has begun can be brought to its end.
theorem exists_end (queue : Queue μ ρ) (hs : queue.Stacked) (depth : Nat) (during : List (Move μ ρ))
    (hduring : ∀ before, before <+: during → depth < (queue.run before).1.stack.length) :
    ∃ later : List (Move μ ρ), (∀ move ∈ later, move.quiet = true) ∧ queue.spans depth (during ++ later) = true := by
  induction during generalizing queue with
  | nil =>
      obtain ⟨later, hlater, hspans⟩ := queue.exists_spans hs depth 0
      exact ⟨later, fun move hmove => by rcases hlater move hmove with rfl | rfl | rfl <;> rfl, hspans⟩
  | cons move moves ih =>
      obtain ⟨later, hquiet, hspans⟩ := ih (queue.step move).1 ((transition_step queue move).stacked hs)
        fun before hbefore => hduring (move :: before) (List.cons_prefix_cons.mpr ⟨rfl, hbefore⟩)
      have hdepth : depth < queue.stack.length := hduring [] List.nil_prefix
      exact ⟨later, hquiet, by simpa [spans, hspans] using hdepth⟩

-- Dispatch. Over a whole run the messages are handed to the processor in the order of their
-- admission, each once at most and not after its notice was raised. A tick comes to its end whenever
-- user code does, and leaves nothing waiting: what waited before it was timed out, or its start time
-- could not be read, or it was handed to the processor, once.
theorem run_dispatches (settings : Settings) (observed : Bool) (moves : List (Move μ ρ)) :
    let queue := ((make settings observed).run moves).1
    let events := ((make settings observed).run moves).2
    let admitted := (make settings observed).admissions moves
    ((dispatches events).map labelOf).Sublist admitted ∧ (admitted.map Prod.fst).Nodup ∧
      ((dispatches events).map (fun issue => issue.1.id)).Nodup ∧
      (∀ notice ∈ raises events, ∀ later, ∀ issue ∈ dispatches (queue.run later).2, issue.1.id ≠ notice.id) ∧
      (queue.turn = .user → queue.busy = false → queue.dropped = false →
        let started := (queue.step (.call .tick)).1
        let depth := queue.stack.length
        (∀ during, (∀ before, before <+: during → depth < (started.run before).1.stack.length) →
          ∃ later, (∀ move ∈ later, move.quiet = true) ∧ started.spans depth (during ++ later) = true) ∧
        ∀ during, started.spans depth during = true → (∀ last ∈ during.getLast?, last.calm = true) →
          (started.run during).2.getLast? = some (.returned .done) ∧
            (started.run during).1.pending.entries = [] ∧
            ((started.run during).2.filterMap Event.departure?).Perm (queue.pending.entries.map Entry.labelled)) := by
  intro queue events admitted
  have hs : queue.Sound admitted events := sound_run settings observed moves
  refine ⟨(List.sublist_append_left _ _).trans hs.traced.order, hs.numbered.nodup,
    (List.nodup_append.mp hs.ids_nodup).1, ?_, ?_⟩
  · intro notice hnotice later issue hissue heq
    have hgone : notice.id ∈ (make settings observed).gone moves :=
      List.mem_append_left _ (List.mem_map_of_mem hnotice)
    exact run_gone_later settings observed moves later hissue (heq ▸ hgone)
  · intro hturn hfree halive started depth
    have hstarted : started.Sound _ _ := hs.step (.call .tick)
    refine ⟨fun during => exists_end started hstarted.stacked depth during, fun during hspans hlast => ?_⟩
    obtain ⟨frame, hframe, hbase, hframes, htick⟩ := step_tick queue hturn hfree halive
    have hstack : started.stack = [] ++ frame :: queue.stack := congrArg (fun stepped => stepped.1.stack) htick
    rw [← List.nil_append (frame :: queue.stack), ← hstack] at hframes
    have hleaving : started.leaving = queue.pending.census := by
      have hrest : started.leaving = queue.leaving := by
        rw [leaving, hstack, congrArg (fun stepped => stepped.1.pending) htick]
        rcases hframe with rfl | ⟨-, rfl⟩ <;> rfl
      rw [hrest, leaving_of_free hfree]
    obtain ⟨hdepartures, hpending, hreturned⟩ := hstarted.run_tick hstack hbase hfree hframes hspans hlast
    rw [hleaving] at hdepartures
    exact ⟨hreturned, hpending, (census_eq_iff _ _).mp hdepartures⟩

-- Three messages, of which the first has waited for its deadline at 12.
def threeWaiting : List (Move String String) :=
  [.call (.enqueue "a"), .read (.time 0), .call (.enqueue "b"), .read (.time 5), .call (.enqueue "c"), .read (.time 5)]

-- A tick at 12. The clock fails when the second message is to be started.
def tickAtTwelve : List (Move String String) :=
  [.read (.time 12), .advance, .advance, .advance, .advance, .advance, .advance, .advance, .advance, .advance, .advance,
    .read (.failed (.clock "gone")), .advance, .advance, .advance, .read (.time 12), .finish, .advance]

theorem run_dispatches_threeWaiting :
    let queue : Queue String String := ((make { limits := { wait := some 10 } } false).run threeWaiting).1
    let started := (queue.step (.call .tick)).1
    queue.turn = .user ∧ queue.busy = false ∧ queue.dropped = false ∧ started.spans 0 tickAtTwelve = true ∧
      (started.run tickAtTwelve).1.pending.entries = [] ∧
      ((started.run tickAtTwelve).2.filterMap Event.departure?).Perm [(⟨0⟩, "a"), (⟨1⟩, "b"), (⟨2⟩, "c")] := by
  intro queue started
  have hspans : started.spans 0 tickAtTwelve = true := by decide
  have h := (run_dispatches { limits := { wait := some 10 } } false threeWaiting).2.2.2.2 rfl rfl rfl
  exact ⟨rfl, rfl, rfl, hspans, (h.2 tickAtTwelve hspans (by decide)).2⟩

end Queue

end DeadlineQueue
