import DeadlineQueue.Proofs.Deferral
import DeadlineQueue.Proofs.Journal.Life
import DeadlineQueue.Proofs.Provenance

namespace DeadlineQueue

variable {μ ρ : Type}

-- Among values that differ in what a function gives, one at most has a given image.
theorem filter_image_of_nodup {α β : Type} [DecidableEq β] (f : α → β) {values : List α} (h : (values.map f).Nodup)
    (image : β) :
    (values.filter (fun value => f value = image) = [] ∧ ∀ value ∈ values, f value ≠ image) ∨
      ∃ value, values.filter (fun value => f value = image) = [value] ∧ f value = image := by
  have hlength : (values.filter (fun value => f value = image)).length ≤ 1 := by
    have hcount := List.nodup_iff_count_le_one.mp h image
    rwa [List.count, List.countP_map, List.countP_eq_length_filter] at hcount
  cases hvalues : values.filter (fun value => f value = image) with
  | nil => exact .inl ⟨rfl, by simpa using hvalues⟩
  | cons value rest =>
      rw [hvalues, List.length_cons] at hlength
      have hrest : rest = [] := List.length_eq_zero_iff.mp (by omega)
      have hmem : value ∈ values.filter (fun value => f value = image) := hvalues ▸ List.mem_cons_self
      exact .inr ⟨value, by rw [hrest], by simpa using (List.mem_filter.mp hmem).2⟩

-- What the source of an end tells of the dispatch. A report follows one, a failed start does not, and
-- the lane of a sweep tells which.
structure Termination.Fits (dispatched : List MessageId) (ending : Termination) : Prop where
  token : ending.source = .token → ending.id ∈ dispatched
  sweep : ∀ lane, ending.source = .sweep lane → (lane = .pending ↔ ending.id ∉ dispatched)
  unread : ending.source = .unread → ending.id ∉ dispatched

-- What a drain has still to raise, and how much it raises in all.
@[simp] def Frame.owing : Frame μ ρ → List (Nat × Nat)
  | .draining batch total => [(batch.length, total)]
  | _ => []

-- The drains that the log tells of, each with the number that its record gives and the number of notices
-- that drains raised since the record before; and the number of those raised since the last record.
structure Tally where
  drains : List (Nat × Nat) := []
  raised : Nat := 0

def Tally.note (tally : Tally) : Event μ ρ → Tally
  | .raised .drain _ => { tally with raised := tally.raised + 1 }
  | .log (.drained total) => { drains := tally.drains ++ [(total, tally.raised)], raised := 0 }
  | _ => tally

theorem Record.eq_timedOut {record : Record} {id : MessageId} {lane : LaneName} {outcome : Outcome}
    (h : record.ending? = some { source := .sweep lane, id, outcome }) : record = .timedOut id lane := by
  cases record with
  | timedOut told name =>
      obtain ⟨rfl, rfl, -⟩ : name = lane ∧ told = id ∧ Outcome.timeout = outcome := by simpa using h
      rfl
  | _ => simp at h

-- The message of a token that is dropped unused.
def Record.abandoned? : Record → Option MessageId
  | abandoned id => some id
  | _ => none

namespace Queue

def tally (events : List (Event μ ρ)) : Tally :=
  events.foldl Tally.note {}

def owing (queue : Queue μ ρ) : List (Nat × Nat) :=
  queue.stack.flatMap Frame.owing

-- A drain that is running has raised all that it does not owe, and nothing is counted otherwise.
structure Counted (queue : Queue μ ρ) (tally : Tally) : Prop where
  drains : ∀ drain ∈ tally.drains, drain.1 = drain.2
  raised : queue.owing = [] ∧ tally.raised = 0 ∨
    ∃ left total, queue.owing = [(left, total)] ∧ tally.raised + left = total

theorem owing_of_not_holdsQueue (stack : List (Frame μ ρ)) (h : stack.any Frame.holdsQueue = false) :
    stack.flatMap Frame.owing = [] :=
  flatMap_of_not_holdsQueue stack Frame.owing (fun frame hframe => by cases frame <;> simp_all [Frame.holdsQueue]) h

@[simp] theorem owing_raise (queue : Queue μ ρ) (source : Source) (notice : Notice μ ρ) :
    (queue.raise source notice).1.owing = queue.owing :=
  flatMap_stack_raise queue source notice Frame.owing rfl

-- What no drain does is not counted.
theorem foldl_note {events : List (Event μ ρ)} (tally : Tally)
    (h : ∀ event ∈ events, (∀ notice, event ≠ .raised .drain notice) ∧ ∀ total, event ≠ .log (.drained total)) :
    events.foldl Tally.note tally = tally := by
  induction events with
  | nil => rfl
  | cons event events ih =>
      obtain ⟨⟨hraised, hdrained⟩, hrest⟩ := List.forall_mem_cons.mp h
      have hnote : tally.note event = tally := by
        unfold Tally.note
        split
        · exact absurd rfl (hraised _)
        · exact absurd rfl (hdrained _)
        · rfl
      rw [List.foldl_cons, hnote, ih hrest]

theorem Counted.other {queue next : Queue μ ρ} {events : List (Event μ ρ)} {tally : Tally} (hs : queue.Counted tally)
    (h : ∀ event ∈ events, (∀ notice, event ≠ .raised .drain notice) ∧ ∀ total, event ≠ .log (.drained total))
    (howing : next.owing = queue.owing) : next.Counted (events.foldl Tally.note tally) := by
  rw [foldl_note tally h]
  exact ⟨hs.drains, howing ▸ hs.raised⟩

theorem Transition.counted {queue next : Queue μ ρ} {move : Move μ ρ} {events : List (Event μ ρ)} {tally : Tally}
    (h : Transition queue move next events) (hstacked : queue.Stacked) (hcalm : move.calm = true)
    (hs : queue.Counted tally) : next.Counted (events.foldl Tally.note tally) := by
  cases h with
  | @cancel entry batch total rest hstack =>
      have hrest := owing_of_not_holdsQueue rest (hstacked.fits hstack).1
      obtain ⟨left, number, howing, hnumber⟩ := hs.raised.resolve_left (by simp [owing, hstack])
      obtain ⟨rfl, rfl⟩ : (entry :: batch).length = left ∧ total = number := by
        simpa [owing, hstack, hrest] using howing
      refine ⟨hs.drains, .inr ⟨batch.length, total, ?_, ?_⟩⟩
      · rw [owing_raise]
        simp [owing, hrest]
      · change tally.raised + 1 + batch.length = total
        rw [List.length_cons] at hnumber
        omega
  | @cancelledAll total rest hstack =>
      have hrest := owing_of_not_holdsQueue rest (hstacked.fits hstack).1
      obtain ⟨left, number, howing, hnumber⟩ := hs.raised.resolve_left (by simp [owing, hstack])
      obtain ⟨rfl, rfl⟩ : 0 = left ∧ total = number := by
        simpa [owing, hstack, hrest] using howing
      refine ⟨?_, .inl ⟨hrest, rfl⟩⟩
      intro drain hdrain
      rcases List.mem_append.mp hdrain with hdrain | hdrain
      · exact hs.drains drain hdrain
      · rw [List.mem_singleton.mp hdrain]
        exact hnumber.symm
  | drain hturn hfree =>
      have hnone : queue.owing = [] := owing_of_not_holdsQueue queue.stack hfree
      obtain ⟨-, hraised⟩ := hs.raised.resolve_right (by simp [hnone])
      let batch := queue.inProgress.entries ++ queue.pending.entries
      refine ⟨hs.drains, .inr ⟨batch.length, batch.length, ?_, ?_⟩⟩
      · rw [owing, List.flatMap_cons, ← owing, hnone]
        rfl
      · simp [hraised]
  | clockPanic | panic => exact absurd hcalm Bool.false_ne_true
  | retire hstack | startUnread fault hstack =>
      exact hs.other (by simp) (by rw [owing_raise]; simp [owing, hstack])
  | complete => exact hs.other (by simp) (by rw [owing_raise]; rfl)
  | @finish frame rest hstack huser =>
      exact hs.other (by simp) (by cases frame <;> simp_all [owing, Frame.isUser])
  | accept now hstack | start now hstack => exact hs.other (by simp +contextual [or_imp]) (by simp [owing, hstack])
  | scan hstack => exact hs.other (by simp) (by simp [owing, hstack])
  | drop | dropToken => exact hs.other (by simp +contextual [or_imp]) rfl
  | _ => exact hs.other (by simp) (by simp [owing, *])

theorem counted_run (settings : Settings) (observed : Bool) (moves : List (Move μ ρ))
    (hcalm : ∀ move ∈ moves, move.calm = true) :
    ((make settings observed).run moves).1.Counted (tally ((make settings observed).run moves).2) := by
  have hrun := run_invariant (P := fun queue _ events => queue.Stacked ∧ queue.Counted (tally events)) moves
    (fun queue _ events move hmove ⟨hstacked, h⟩ => by
      have hstep := transition_step queue move
      refine ⟨hstep.stacked hstacked, ?_⟩
      rw [tally, List.foldl_append]
      exact hstep.counted hstacked (hcalm move hmove) h)
    (make settings observed) [] [] ⟨.make settings observed, ⟨by simp [tally], .inl ⟨rfl, rfl⟩⟩⟩
  exact hrun.2

theorem Transition.fits {queue next : Queue μ ρ} {move : Move μ ρ} {events past : List (Event μ ρ)}
    {admitted : List (MessageId × μ)} (h : Transition queue move next events) (hs : queue.Sound admitted past)
    {ending : Termination} (hending : ending ∈ Queue.endings events) : ending.Fits (Queue.dispatched past) := by
  have hwaiting : ∀ entry ∈ queue.unstarted, entry.id ∉ Queue.dispatched past := fun entry hentry hid =>
    (List.nodup_append.mp hs.ids_nodup).2.2 entry.id hid entry.id (List.mem_map_of_mem hentry) rfl
  have hstarted : ∀ entry ∈ queue.inProgress.entries, entry.id ∈ Queue.dispatched past := fun entry hentry => by
    obtain ⟨slot, hslot, rfl⟩ := List.mem_map.mp hentry
    exact List.mem_map.mpr ⟨slot.issue, hs.issue_mem hslot, rfl⟩
  cases h with
  | @scan now name scan scans rest hstack =>
      obtain ⟨entry, hentry, rfl⟩ : ∃ entry ∈ ((queue.lane name).takeOverdue scan now).1,
          { source := .sweep name, id := entry.id, outcome := .timeout } = ending := by
        simpa [Queue.endings, records, Function.comp_def] using hending
      have hentry : entry ∈ (queue.lane name).entries := by
        rw [(hs.ordered.lane name).takeOverdue scan now (hs.stacked.fair_scan hstack).origin_of_hasty] at hentry
        exact List.mem_of_mem_filter hentry
      refine ⟨by simp, fun lane hlane => ?_, by simp⟩
      obtain rfl : name = lane := by simpa using hlane
      cases name with
      | pending => simpa using hwaiting entry (List.mem_append_right _ hentry)
      | inProgress => simpa using hstarted entry hentry
  | cancel hstack =>
      obtain rfl : ending = _ := by simpa [Queue.endings, records, List.filterMap_cons] using hending
      exact ⟨by simp, by simp, by simp⟩
  | @startUnread bound entry rest fault hstack =>
      obtain rfl : ending = _ := by simpa [Queue.endings, records, List.filterMap_cons] using hending
      have hentry : entry ∈ queue.unstarted := by simp [unstarted, hstack]
      exact ⟨by simp, by simp, fun _ => hwaiting entry hentry⟩
  | @complete token entry outcome reason hturn hheld halive hentry =>
      obtain rfl : ending = _ := by simpa [Queue.endings, records, List.filterMap_cons] using hending
      obtain ⟨slot, hslot, rfl⟩ := Option.map_eq_some_iff.mp hentry
      have hentry := hstarted slot.entry (List.mem_map_of_mem (List.mem_of_find?_eq_some hslot))
      exact ⟨fun _ => hentry, by simp, by simp⟩
  | accept now hstack | start now hstack =>
      obtain ⟨record, hrecord, hsome⟩ := exists_log_of_ending hending
      simp only [List.mem_append, mem_logBackwards, List.mem_cons, List.not_mem_nil, reduceCtorEq, or_false,
        Event.log.injEq] at hrecord
      rcases hrecord with ⟨-, rfl⟩ | rfl <;> simp at hsome
  | _ =>
      obtain ⟨record, hrecord, hsome⟩ := exists_log_of_ending hending
      simp_all

theorem run_fits (settings : Settings) (observed : Bool) (moves : List (Move μ ρ))
    (hcalm : ∀ move ∈ moves, move.calm = true) :
    ∀ ending ∈ endings ((make settings observed).run moves).2,
      ending.Fits (dispatched ((make settings observed).run moves).2) := by
  induction moves using List.reverseRecOn with
  | nil => exact fun ending hending => absurd hending (Multiset.notMem_zero ending)
  | append_singleton before last ih =>
      obtain ⟨hbefore, -⟩ := List.forall_mem_append.mp hcalm
      have hstep := transition_step ((make settings observed).run before).1 last
      intro ending hending
      rw [run_append_singleton_snd, endings_append, Multiset.mem_add] at hending
      have hpast : ending.Fits (dispatched ((make settings observed).run before).2) :=
        hending.elim (ih hbefore ending) (hstep.fits (sound_run settings observed before))
      rw [run_append_singleton_snd, dispatched_append]
      cases hstep.told with
      | admitted _ _ _ _ hdispatched | ended _ _ hdispatched => rwa [hdispatched, List.append_nil]
      | @dispatched bound entry rest hstack _ hclosings _ hdispatched =>
          -- What is dispatched has not ended.
          have hother : ending.id ≠ entry.id := by
            rcases hending with hold | hnew
            · exact (closings_eq_nil_iff _ _).mp (closings_starting settings observed hbefore hstack) ending hold
            · exact (closings_eq_nil_iff _ _).mp (hclosings entry.id) ending hnew
          have hmem : ending.id ∈ Queue.dispatched ((make settings observed).run before).2 ++ [entry.id] ↔
              ending.id ∈ Queue.dispatched ((make settings observed).run before).2 := by simp [hother]
          rw [hdispatched]
          exact ⟨fun h => hmem.mpr (hpast.token h), fun lane h => (hpast.sweep lane h).trans (not_congr hmem.symm),
            fun h => (not_congr hmem).mpr (hpast.unread h)⟩

-- The notifier is called with notices that were waiting.
theorem Transition.notified_eq {queue next : Queue μ ρ} {move : Move μ ρ} {events : List (Event μ ρ)}
    (h : Transition queue move next events) {notice : Notice μ ρ} (hnotice : .notified notice ∈ events) :
    events = [.notified notice] ∧ notice ∈ queue.outbox := by
  cases h with
  | notify hstack houtbox =>
      obtain rfl : notice = _ := by simpa using hnotice
      exact ⟨rfl, by simp [houtbox]⟩
  | _ => simp at hnotice

-- The end of a message whose notice waits is in the log.
theorem closings_of_mem_outbox (settings : Settings) (observed : Bool) {moves : List (Move μ ρ)}
    (hcalm : ∀ move ∈ moves, move.calm = true) {notice : Notice μ ρ}
    (h : notice ∈ ((make settings observed).run moves).1.outbox) :
    closings notice.id ((make settings observed).run moves).2 ≠ [] := by
  rw [ne_eq, closings_eq_nil_iff]
  intro hnone
  have hraised : notice ∈ raises ((make settings observed).run moves).2 := by
    rw [raises_eq]
    exact List.mem_append_right _ h
  obtain ⟨raised, hmem, rfl⟩ := List.mem_map.mp hraised
  refine hnone (.ofRaised raised) ?_ rfl
  rw [run_endings settings observed moves hcalm]
  exact Multiset.mem_add.mpr (.inl (Multiset.mem_coe.mpr (List.mem_map_of_mem hmem)))

-- Every end is in the log before the notifier hears of it.
theorem run_logs_first (settings : Settings) (observed : Bool) (moves : List (Move μ ρ))
    (hcalm : ∀ move ∈ moves, move.calm = true) {before after : List (Event μ ρ)} {notice : Notice μ ρ}
    (h : ((make settings observed).run moves).2 = before ++ .notified notice :: after) :
    closings notice.id before ≠ [] := by
  induction moves using List.reverseRecOn generalizing after with
  | nil => simp [run_nil] at h
  | append_singleton past last ih =>
      obtain ⟨hpast, -⟩ := List.forall_mem_append.mp hcalm
      have hnotified (hmem : .notified notice ∈ (((make settings observed).run past).1.step last).2) :=
        (transition_step _ last).notified_eq hmem
      rw [run_append_singleton_snd, List.append_eq_append_iff] at h
      rcases h with ⟨gap, hbefore, hnew⟩ | ⟨gap, hold, hnew⟩
      · obtain ⟨hsingle, hwaits⟩ := hnotified (by simp [hnew])
        have hgap : gap = [] := by
          rw [hsingle] at hnew
          cases gap with
          | nil => rfl
          | cons event gap => simp at hnew
        rw [hbefore, hgap, List.append_nil]
        exact closings_of_mem_outbox settings observed hpast hwaits
      · cases gap with
        | nil =>
            rw [List.append_nil] at hold
            rw [List.nil_append] at hnew
            rw [← hold]
            exact closings_of_mem_outbox settings observed hpast (hnotified (by simp [← hnew])).2
        | cons event gap =>
            obtain ⟨rfl, -⟩ := List.cons.inj hnew
            exact ih hpast hold

-- The message of a token that this move drops unused while the message is in progress.
def forsaken (queue : Queue μ ρ) : Move μ ρ → List MessageId
  | .call (.dropToken token) =>
    if queue.turn = .user ∧ token ∈ queue.held ∧ queue.inProgress.entries.any (fun entry => entry.id = token.id) then
      [token.id]
    else []
  | _ => []

def forsakes (queue : Queue μ ρ) : List (Move μ ρ) → List MessageId
  | [] => []
  | move :: moves => queue.forsaken move ++ (queue.step move).1.forsakes moves

def abandonments (events : List (Event μ ρ)) : List MessageId :=
  (records events).filterMap Record.abandoned?

-- A token finds its message by the key, which is as good as the id.
theorem Sound.contains_eq {queue : Queue μ ρ} {admitted : List (MessageId × μ)} {past : List (Event μ ρ)}
    (hs : queue.Sound admitted past) {token : Token} (hheld : token ∈ queue.held) :
    queue.inProgress.contains token.key = queue.inProgress.entries.any (fun entry => entry.id = token.id) := by
  obtain ⟨message, hissue⟩ := hs.exists_issue_of_held hheld
  rw [Lane.contains, Lane.entries, List.any_map, Bool.eq_iff_iff, List.any_eq_true, List.any_eq_true]
  refine exists_congr fun slot => and_congr_right fun hslot => ?_
  simpa using hs.slot_key_eq_iff hslot hissue

theorem Transition.abandonments {queue next : Queue μ ρ} {move : Move μ ρ} {events past : List (Event μ ρ)}
    {admitted : List (MessageId × μ)} (h : Transition queue move next events) (hs : queue.Sound admitted past)
    (halive : queue.dropped = false) : Queue.abandonments events = queue.forsaken move := by
  cases h with
  | @dropToken token hturn hheld =>
      have hcontains := hs.contains_eq hheld
      simp only [forsaken, hturn, hheld, ← hcontains, Queue.dropToken, alive, halive, Queue.abandonments, records,
        true_and, Bool.not_false, Bool.true_or, Bool.true_and]
      split <;> rfl
  | idle move hidle =>
      cases move with
      | call call =>
          have hturn : queue.turn ≠ .user := hidle
          cases call <;> simp [Queue.abandonments, records, forsaken, hturn]
      | _ => rfl
  | @noToken call token hturn hcall hheld =>
      cases call <;> simp_all [Queue.abandonments, records, forsaken, Call.token?]
  | @busy call hturn hcall | @dropped call hturn hcall =>
      cases call <;> simp_all [Queue.abandonments, records, forsaken, Call.token?]
  | drop =>
      rw [Queue.drop]
      split <;> rfl
  | accept now hstack =>
      rcases queue.logBackwards_eq .pending now with hnone | hsome
      · rw [hnone]; rfl
      · rw [hsome]; rfl
  | start now hstack =>
      rcases queue.logBackwards_eq .inProgress now with hnone | hsome
      · rw [hnone]; rfl
      · rw [hsome]; rfl
  | scan hstack => simp [Queue.abandonments, records, forsaken, Record.abandoned?, Function.comp_def]
  | _ => rfl

theorem run_abandonments {queue : Queue μ ρ} {admitted : List (MessageId × μ)} {past : List (Event μ ρ)}
    (hs : queue.Sound admitted past) (halive : queue.dropped = false) (moves : List (Move μ ρ))
    (hkeeps : .call .drop ∉ moves) : abandonments (queue.run moves).2 = queue.forsakes moves := by
  induction moves generalizing queue admitted past with
  | nil => rfl
  | cons move moves ih =>
      have hstep := transition_step queue move
      have hnext := (hstep.dropped_eq fun hmove => hkeeps (hmove ▸ List.mem_cons_self)).trans halive
      have hrest := ih (hs.step move) hnext fun hmem => hkeeps (List.mem_cons_of_mem _ hmem)
      rw [forsakes, ← hrest, ← hstep.abandonments hs halive, run_cons, abandonments, records_append,
        List.filterMap_append]
      rfl

-- The notices that were raised for a message, each with what made the queue raise it.
def raisedFor (id : MessageId) (events : List (Event μ ρ)) : List (Source × Notice μ ρ) :=
  (events.filterMap Event.raised?).filter fun raised => raised.2.id = id

theorem announced_ids_sublist (stack : List (Frame μ ρ)) :
    ((stack.flatMap Frame.announced).map fun ending => ending.id).Sublist
      ((stack.flatMap Frame.carried).map fun entry => entry.id) := by
  induction stack with
  | nil => exact List.Sublist.refl []
  | cons frame stack ih =>
      rw [List.flatMap_cons, List.flatMap_cons, List.map_append, List.map_append]
      refine List.Sublist.append ?_ ih
      cases frame with
      | retiring lane batch => simp [Frame.carried, Function.comp_def]
      | _ => exact List.nil_sublist _

-- No message ends twice, in the log or outside.
theorem nodup_ends (settings : Settings) (observed : Bool) (moves : List (Move μ ρ)) :
    ((((make settings observed).run moves).2.filterMap Event.raised?).map Termination.ofRaised ++
      ((make settings observed).run moves).1.stack.flatMap Frame.announced).map (fun ending => ending.id) |>.Nodup := by
  have hnodup := ((run_places settings observed moves).map Prod.fst).nodup_iff.mpr
    (sound_run settings observed moves).numbered.nodup
  have hids : ((((make settings observed).run moves).1.stack.flatMap Frame.carried).map (fun entry => entry.id) ++
      (raises ((make settings observed).run moves).2).map (fun notice => notice.id)).Nodup := by
    simp only [List.map_append, List.map_map, List.append_assoc] at hnodup
    have hcarried := (List.nodup_append.mp (List.nodup_append.mp hnodup).2.1).2.1
    rw [← List.append_assoc] at hcarried
    exact (List.nodup_append.mp hcarried).1
  obtain ⟨hcarried, hraised, hdisjoint⟩ := List.nodup_append.mp hids
  have hsublist := announced_ids_sublist ((make settings observed).run moves).1.stack
  rw [List.map_append, List.map_map]
  rw [raises, List.map_map] at hraised hdisjoint
  exact List.nodup_append.mpr ⟨hraised, hsublist.nodup hcarried,
    fun first hfirst second hsecond heq => hdisjoint second (hsublist.subset hsecond) first hfirst heq.symm⟩

-- What the log tells of the end of a message: nothing before it ends, and then one record that says the
-- same as the notice. A sweep writes its records ahead of its notices.
inductive Concluded (queue : Queue μ ρ) (events : List (Event μ ρ)) (id : MessageId) : List Record → Prop
  | unended (hraised : raisedFor id events = []) : Concluded queue events id []
  | ended {source : Source} {notice : Notice μ ρ} {record : Record}
      (hraised : raisedFor id events = [(source, notice)])
      (hrecord : record.ending? = some { source, id, outcome := notice.outcome }) : Concluded queue events id [record]
  | announced {lane : LaneName} {batch : List (Entry μ)} (hraised : raisedFor id events = [])
      (hsweeps : .retiring lane batch ∈ queue.stack) (hbatch : id ∈ batch.map fun entry => entry.id) :
      Concluded queue events id [.timedOut id lane]

theorem Concluded.eq_nil_iff {queue : Queue μ ρ} {events : List (Event μ ρ)} {id : MessageId} {closing : List Record}
    (h : queue.Concluded events id closing) (hidle : queue.stack = []) : closing = [] ↔ raisedFor id events = [] := by
  cases h with
  | unended hraised => simp [hraised]
  | ended hraised hrecord => simp [hraised]
  | announced hraised hsweeps hbatch => simp [hidle] at hsweeps

theorem concluded_run (settings : Settings) (observed : Bool) (moves : List (Move μ ρ))
    (hcalm : ∀ move ∈ moves, move.calm = true) (id : MessageId) :
    ((make settings observed).run moves).1.Concluded ((make settings observed).run moves).2 id
      (closings id ((make settings observed).run moves).2) := by
  let queue := ((make settings observed).run moves).1
  let events := ((make settings observed).run moves).2
  let ends := (events.filterMap Event.raised?).map Termination.ofRaised ++ queue.stack.flatMap Frame.announced
  have hmarks : ((closings id events).filterMap Record.ending?).Perm (ends.filter fun ending => ending.id = id) := by
    rw [← Multiset.coe_eq_coe, filterMap_closings, run_endings settings observed moves hcalm, ended, announced,
      Multiset.coe_add, Multiset.filter_coe]
  have hlength : ((closings id events).filterMap Record.ending?).length = (closings id events).length :=
    List.filterMap_length_eq_length.mpr fun record hrecord => isSome_of_mem_closings hrecord
  have hraised : (raisedFor id events).map Termination.ofRaised =
      ((events.filterMap Event.raised?).map Termination.ofRaised).filter fun ending => ending.id = id := by
    rw [List.filter_map]
    rfl
  change queue.Concluded events id (closings id events)
  rcases filter_image_of_nodup (fun ending : Termination => ending.id) (nodup_ends settings observed moves) id with
    ⟨hnone, hothers⟩ | ⟨ending, hone, hid⟩
  · rw [hnone, List.perm_nil] at hmarks
    rw [List.filter_append, ← hraised] at hnone
    rw [List.length_eq_zero_iff.mp (hlength.symm.trans (by rw [hmarks]; rfl))]
    exact .unended (by simpa using (List.append_eq_nil_iff.mp hnone).1)
  · rw [hone, List.perm_singleton] at hmarks
    obtain ⟨record, hrecord⟩ := List.length_eq_one_iff.mp (hlength.symm.trans (by rw [hmarks]; rfl))
    have hending : record.ending? = some ending := by
      rw [hrecord] at hmarks
      cases hrecord : record.ending? <;> simp_all
    rw [hrecord]
    rw [List.filter_append, ← hraised, List.append_eq_singleton_iff] at hone
    rcases hone with ⟨hnone, hannounced⟩ | ⟨hraised, -⟩
    · -- A sweep has logged the end and has not come to it yet.
      have hmem : ending ∈ queue.stack.flatMap Frame.announced :=
        List.mem_of_mem_filter (hannounced ▸ List.mem_singleton_self ending)
      obtain ⟨frame, hframe, hmem⟩ := List.mem_flatMap.mp hmem
      cases frame with
      | retiring lane batch =>
          obtain ⟨entry, hentry, rfl⟩ := List.mem_map.mp hmem
          have hid : entry.id = id := hid
          rw [Record.eq_timedOut hending, hid]
          exact .announced (by simpa using hnone) hframe (List.mem_map.mpr ⟨entry, hentry, hid⟩)
      | _ => exact absurd hmem List.not_mem_nil
    · obtain ⟨⟨source, notice⟩, hsingle, rfl⟩ := List.map_eq_singleton_iff.mp hraised
      exact .ended hsingle (by rw [hending, ← hid]; rfl)

-- What brings about the end of a message that is raised in this step.
def Brings (queue : Queue μ ρ) (move : Move μ ρ) (notice : Notice μ ρ) : Source → Prop
  | .token => ∃ token, token.id = notice.id ∧ move = .call (.complete token notice.outcome notice.reason)
  | .sweep lane => ∃ entry batch rest, queue.stack = .retiring lane (entry :: batch) :: rest ∧ entry.id = notice.id
  | .unread =>
    ∃ fault bound entry rest, move = .read (.failed fault) ∧ queue.stack = .starting bound entry :: rest ∧
      entry.id = notice.id
  | .drain => ∃ entry batch total rest, queue.stack = .draining (entry :: batch) total :: rest ∧ entry.id = notice.id

theorem Transition.brings {queue next : Queue μ ρ} {move : Move μ ρ} {events past : List (Event μ ρ)}
    {admitted : List (MessageId × μ)} (h : Transition queue move next events) (hs : queue.Sound admitted past)
    {source : Source} {notice : Notice μ ρ} (hraised : .raised source notice ∈ events) :
    queue.Brings move notice source := by
  have htoken := (h.raised hs hraised).2
  cases h with
  | retire hstack =>
      obtain ⟨rfl, rfl⟩ : source = _ ∧ notice = _ := by simpa using hraised
      exact ⟨_, _, _, hstack, rfl⟩
  | cancel hstack =>
      obtain ⟨rfl, rfl⟩ : source = _ ∧ notice = _ := by simpa using hraised
      exact ⟨_, _, _, _, hstack, rfl⟩
  | startUnread fault hstack =>
      obtain ⟨rfl, rfl⟩ : source = _ ∧ notice = _ := by simpa using hraised
      exact ⟨fault, _, _, _, rfl, hstack, rfl⟩
  | complete =>
      obtain ⟨rfl, rfl⟩ : source = _ ∧ notice = _ := by simpa using hraised
      exact htoken.mp rfl
  | _ => simp at hraised

-- The log agrees with what happened. It tells of each admitted message that it was admitted, then that it
-- was dispatched if it was, and then how it ended if it did, always before the notifier hears of it.
-- How a message ended tells whether it was dispatched. The abandoned messages are those whose tokens were
-- dropped while they were in progress, and each drain gives the number of the notices that it raised.
theorem run_journals (settings : Settings) (observed : Bool) (moves : List (Move μ ρ))
    (hcalm : ∀ move ∈ moves, move.calm = true) (hkeeps : .call .drop ∉ moves) :
    let queue := ((make settings observed).run moves).1
    let events := ((make settings observed).run moves).2
    (∀ id ∈ events.filterMap Event.admitted?, ∃ closing,
      life id events =
          .enqueued id :: ((if id ∈ dispatched events then [.dispatching id] else []) ++ closing) ∧
        queue.Concluded events id closing ∧ (queue.stack = [] → (closing = [] ↔ raisedFor id events = [])) ∧
        ∀ record ∈ closing, ∀ ending, record.ending? = some ending → ending.Fits (dispatched events)) ∧
      (∀ before after notice, events = before ++ .notified notice :: after → closings notice.id before ≠ []) ∧
      (∀ before move after, moves = before ++ move :: after → ∀ source notice,
        .raised source notice ∈ (((make settings observed).run before).1.step move).2 →
          ((make settings observed).run before).1.Brings move notice source) ∧
      abandonments events = (make settings observed).forsakes moves ∧
      (∀ drain ∈ (tally events).drains, drain.1 = drain.2) ∧ (queue.stack = [] → (tally events).raised = 0) := by
  intro queue events
  refine ⟨fun id hid => ?_, fun before after notice h => run_logs_first settings observed moves hcalm h,
    fun before move after _ source notice hraised =>
      (transition_step _ move).brings (sound_run settings observed before) hraised,
    run_abandonments (sound_run settings observed []) rfl moves hkeeps,
    (counted_run settings observed moves hcalm).drains, fun hidle => ?_⟩
  · have hconcluded := concluded_run settings observed moves hcalm id
    refine ⟨closings id events, ?_, hconcluded, hconcluded.eq_nil_iff, fun record hrecord ending hending => ?_⟩
    · rw [run_life settings observed moves hcalm id, if_pos hid]
      rfl
    · have hmem : ending ∈ endings events :=
        Multiset.mem_coe.mpr (List.mem_filterMap.mpr ⟨record, List.mem_of_mem_filter hrecord, hending⟩)
      exact run_fits settings observed moves hcalm ending hmem
  · refine ((counted_run settings observed moves hcalm).raised.resolve_right ?_).2
    rintro ⟨left, total, howing, -⟩
    rw [owing, hidle] at howing
    exact List.cons_ne_nil _ _ howing.symm

-- The token of the first message is dropped unused, and then both messages are drained.
def forsakenAndDrained : List (Move String String) :=
  [.call (.enqueue "a"), .read (.time 0), .call .tick, .advance, .advance, .read (.time 0),
    .call (.dropToken ⟨1, ⟨0⟩⟩), .finish, .advance, .call (.enqueue "b"), .read (.time 1), .call .drain, .advance,
    .advance, .finish, .advance, .advance, .advance, .finish, .advance, .advance]

theorem run_journals_forsakenAndDrained :
    let events := ((make {} true).run forsakenAndDrained).2
    (∀ move ∈ forsakenAndDrained, move.calm = true) ∧ .call .drop ∉ forsakenAndDrained ∧
      (make {} true).forsakes forsakenAndDrained = [⟨0⟩] ∧ (tally events).drains = [(2, 2)] ∧
      life ⟨1⟩ events = [.enqueued ⟨1⟩, .cancelled ⟨1⟩] ∧ raisedFor ⟨1⟩ events ≠ [] := by
  intro events
  have hcalm : ∀ move ∈ forsakenAndDrained, move.calm = true := by decide
  have hkeeps : .call .drop ∉ forsakenAndDrained := by simp [forsakenAndDrained]
  obtain ⟨hlife, -, -, habandoned, -, -⟩ := run_journals {} true forsakenAndDrained hcalm hkeeps
  have hadmitted : (⟨1⟩ : MessageId) ∈ events.filterMap Event.admitted? := by decide +kernel
  have hidle : ((make {} true).run forsakenAndDrained).1.stack = [] := by rfl
  have htold : life ⟨1⟩ events = [.enqueued ⟨1⟩, .cancelled ⟨1⟩] := by decide +kernel
  have hdispatched : (⟨1⟩ : MessageId) ∉ dispatched events := by decide +kernel
  have habandonments : abandonments events = [⟨0⟩] := by decide +kernel
  obtain ⟨closing, hclosing, -, hraised, -⟩ := hlife ⟨1⟩ hadmitted
  refine ⟨hcalm, hkeeps, habandoned.symm.trans habandonments, by decide +kernel, htold, fun hnone => ?_⟩
  rw [(hraised hidle).mpr hnone] at hclosing
  have hsame : [.enqueued ⟨1⟩, .cancelled ⟨1⟩] = [.enqueued ⟨1⟩] ++ ([] : List Record) :=
    htold.symm.trans (hclosing.trans (by rw [if_neg hdispatched]; rfl))
  simp at hsame

end Queue

end DeadlineQueue
