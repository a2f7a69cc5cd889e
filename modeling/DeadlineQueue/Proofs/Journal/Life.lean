import DeadlineQueue.Proofs.Losses

namespace DeadlineQueue

variable {μ ρ : Type}

-- The end of a message: what brought it about, and with which outcome.
structure Termination where
  source : Source
  id : MessageId
  outcome : Outcome

namespace Record

-- What a record tells of the end of a message.
@[simp] def ending? : Record → Option Termination
  | completed id outcome => some { source := .token, id, outcome }
  | timedOut id lane => some { source := .sweep lane, id, outcome := .timeout }
  | startUnread id _ => some { source := .unread, id, outcome := .error }
  | cancelled id => some { source := .drain, id, outcome := .cancelled }
  | _ => none

def ends (id : MessageId) (record : Record) : Bool :=
  record.ending?.any fun ending => ending.id = id

-- The records of a message's life: its admission, its dispatch and its end.
def concerns (id : MessageId) (record : Record) : Bool :=
  record = .enqueued id || record = .dispatching id || record.ends id

end Record

namespace Event

@[simp] def record? : Event μ ρ → Option Record
  | .log record => some record
  | _ => none

end Event

-- What a notice that was raised tells of the end of its message.
def Termination.ofRaised (raised : Source × Notice μ ρ) : Termination :=
  { source := raised.1, id := raised.2.id, outcome := raised.2.outcome }

-- The ends that a running sweep has written to the log and has not raised yet.
@[simp] def Frame.announced : Frame μ ρ → List Termination
  | .retiring lane batch => batch.map fun entry => { source := .sweep lane, id := entry.id, outcome := .timeout }
  | _ => []

namespace Queue

def records (events : List (Event μ ρ)) : List Record :=
  events.filterMap Event.record?

-- What the log tells of a message.
def life (id : MessageId) (events : List (Event μ ρ)) : List Record :=
  (records events).filter (Record.concerns id)

def endings (events : List (Event μ ρ)) : Multiset Termination :=
  ↑((records events).filterMap Record.ending?)

def ended (events : List (Event μ ρ)) : Multiset Termination :=
  ↑((events.filterMap Event.raised?).map Termination.ofRaised)

def announced (queue : Queue μ ρ) : Multiset Termination :=
  ↑(queue.stack.flatMap Frame.announced)

theorem records_append (first second : List (Event μ ρ)) :
    records (first ++ second) = records first ++ records second :=
  List.filterMap_append

theorem life_append (id : MessageId) (first second : List (Event μ ρ)) :
    life id (first ++ second) = life id first ++ life id second := by
  rw [life, records_append, List.filter_append]
  rfl

theorem endings_append (first second : List (Event μ ρ)) :
    endings (first ++ second) = endings first + endings second := by
  simp [endings, records_append]

theorem ended_append (first second : List (Event μ ρ)) : ended (first ++ second) = ended first + ended second := by
  simp [ended]

@[simp] theorem announced_raise (queue : Queue μ ρ) (source : Source) (notice : Notice μ ρ) :
    (queue.raise source notice).1.announced = queue.announced := by
  rw [announced, flatMap_stack_raise _ _ _ Frame.announced rfl, announced]

theorem exists_log_of_ending {events : List (Event μ ρ)} {ending : Termination} (h : ending ∈ endings events) :
    ∃ record, .log record ∈ events ∧ record.ending? = some ending := by
  obtain ⟨record, hrecord, hending⟩ := List.mem_filterMap.mp (Multiset.mem_coe.mp h)
  obtain ⟨event, hevent, hlog⟩ := List.mem_filterMap.mp hrecord
  cases event with
  | log told =>
      obtain rfl : told = record := by simpa using hlog
      exact ⟨told, hevent, hending⟩
  | _ => simp at hlog

-- Where no record tells of an end and no notice is raised.
theorem endings_eq_of_none {queue next : Queue μ ρ} {events : List (Event μ ρ)}
    (hrecords : ∀ record, .log record ∈ events → record.ending? = none)
    (hraised : events.filterMap Event.raised? = []) (hannounced : next.announced = queue.announced) :
    endings events + queue.announced = ended events + next.announced := by
  have hnone : endings events = 0 := by
    rw [Multiset.eq_zero_iff_forall_notMem]
    intro ending hending
    obtain ⟨record, hrecord, hsome⟩ := exists_log_of_ending hending
    rw [hrecords record hrecord] at hsome
    exact absurd hsome (by simp)
  rw [hnone, ended, hraised, hannounced]
  rfl

-- Every end that is logged is raised, in the same step or by the sweep that has logged it.
theorem Transition.endings {queue next : Queue μ ρ} {move : Move μ ρ} {events : List (Event μ ρ)}
    (h : Transition queue move next events) (hcalm : move.calm = true) :
    endings events + queue.announced = ended events + next.announced := by
  cases h with
  | @scan now name scan scans rest hstack =>
      simp [Queue.endings, ended, records, Queue.announced, hstack, Function.comp_def]
  | retire hstack | cancel hstack | startUnread fault hstack =>
      rw [announced_raise]
      simp [Queue.endings, ended, records, Queue.announced, hstack, List.filterMap_cons, Entry.notice,
        Termination.ofRaised]
  | complete =>
      rw [announced_raise]
      simp [Queue.endings, ended, records, Queue.announced, List.filterMap_cons, Entry.notice, Termination.ofRaised]
  | clockPanic => exact absurd hcalm Bool.false_ne_true
  | panic => exact absurd hcalm Bool.false_ne_true
  | @finish frame rest hstack huser =>
      exact endings_eq_of_none (by simp) rfl (by cases frame <;> simp_all [Queue.announced, Frame.isUser])
  | accept now hstack | start now hstack =>
      exact endings_eq_of_none (by simp [or_imp, forall_and]) (by simp [List.filterMap_cons])
        (by simp [Queue.announced, hstack])
  | drop | dropToken => exact endings_eq_of_none (by simp +contextual) (by simp) rfl
  | _ => exact endings_eq_of_none (by simp) rfl (by simp [Queue.announced, *])

-- The messages that were dispatched, by id.
def dispatched (events : List (Event μ ρ)) : List MessageId :=
  (dispatches events).map fun issue => issue.1.id

theorem dispatched_append (first second : List (Event μ ρ)) :
    dispatched (first ++ second) = dispatched first ++ dispatched second := by
  rw [dispatched, dispatches_append, List.map_append]
  rfl

def closings (id : MessageId) (events : List (Event μ ρ)) : List Record :=
  (records events).filter (Record.ends id)

theorem closings_append (id : MessageId) (first second : List (Event μ ρ)) :
    closings id (first ++ second) = closings id first ++ closings id second := by
  rw [closings, records_append, List.filter_append]
  rfl

theorem closings_eq_nil_iff (id : MessageId) (events : List (Event μ ρ)) :
    closings id events = [] ↔ ∀ ending ∈ endings events, ending.id ≠ id := by
  simp only [closings, List.filter_eq_nil_iff, endings, Multiset.mem_coe, List.mem_filterMap, Record.ends,
    Option.any_eq_true, decide_eq_true_eq, not_exists, not_and, forall_exists_index, and_imp]
  constructor
  · intro h ending record hrecord hending
    exact h record hrecord ending hending
  · intro h record hrecord ending hending
    exact h ending record hrecord hending

-- The three ways in which a step writes to the log: of an admission, of a dispatch, or of ends only.
inductive Told (queue : Queue μ ρ) (events : List (Event μ ρ)) : Prop where
  | admitted {message : μ} {rest : List (Frame μ ρ)} (hstack : queue.stack = .enqueuing message :: rest)
      (hlife : ∀ id, life id events = if id = ⟨queue.nextId⟩ then [.enqueued id] else [])
      (hclosings : ∀ id, closings id events = [])
      (hadmitted : events.filterMap Event.admitted? = [⟨queue.nextId⟩]) (hdispatched : dispatched events = [])
  | dispatched {bound : Nat} {entry : Entry μ} {rest : List (Frame μ ρ)}
      (hstack : queue.stack = .starting bound entry :: rest)
      (hlife : ∀ id, life id events = if id = entry.id then [.dispatching id] else [])
      (hclosings : ∀ id, closings id events = [])
      (hadmitted : events.filterMap Event.admitted? = []) (hdispatched : dispatched events = [entry.id])
  | ended (hlife : ∀ id, life id events = closings id events) (hadmitted : events.filterMap Event.admitted? = [])
      (hdispatched : dispatched events = [])

theorem life_eq_closings {events : List (Event μ ρ)} (id : MessageId)
    (h : ∀ record, .log record ∈ events → (∀ id, record ≠ .enqueued id) ∧ ∀ id, record ≠ .dispatching id) :
    life id events = closings id events := by
  apply List.filter_congr
  intro record hrecord
  obtain ⟨event, hevent, hlog⟩ := List.mem_filterMap.mp hrecord
  have hlogged : event = .log record := by cases event <;> simp_all
  obtain ⟨hadmitted, hdispatched⟩ := h record (hlogged ▸ hevent)
  simp [Record.concerns, hadmitted, hdispatched]

@[simp] theorem life_logBackwards (id : MessageId) (queue : Queue μ ρ) (name : LaneName) (stamp : Instant) :
    life id (queue.logBackwards name stamp) = [] := by
  rcases queue.logBackwards_eq name stamp with hnone | hsome
  · rw [hnone]
    rfl
  · rw [hsome]
    rfl

@[simp] theorem closings_logBackwards (id : MessageId) (queue : Queue μ ρ) (name : LaneName) (stamp : Instant) :
    closings id (queue.logBackwards name stamp) = [] := by
  rcases queue.logBackwards_eq name stamp with hnone | hsome
  · rw [hnone]
    rfl
  · rw [hsome]
    rfl

theorem Transition.told {queue next : Queue μ ρ} {move : Move μ ρ} {events : List (Event μ ρ)}
    (h : Transition queue move next events) : queue.Told events := by
  cases h with
  | accept now hstack =>
      refine .admitted hstack (fun id => ?_) (fun id => ?_) (by simp [List.filterMap_cons])
        (by simp [Queue.dispatched, dispatches])
      · rw [life_append, life_logBackwards]
        change List.filter (Record.concerns id) [.enqueued ⟨queue.nextId⟩] = _
        by_cases hid : id = ⟨queue.nextId⟩ <;> simp [Record.concerns, Record.ends, hid, eq_comm]
      · rw [closings_append, closings_logBackwards]
        rfl
  | @start bound entry rest now hstack =>
      refine .dispatched hstack (fun id => ?_) (fun id => ?_) (by simp)
        (by simp [Queue.dispatched, dispatches, List.filterMap_cons])
      · rw [life_append, life_logBackwards]
        change List.filter (Record.concerns id) [.dispatching entry.id] = _
        by_cases hid : id = entry.id <;> simp [Record.concerns, Record.ends, hid, eq_comm]
      · rw [closings_append, closings_logBackwards]
        rfl
  | scan => exact .ended (fun id => life_eq_closings id (by simp)) (by simp) (by simp [Queue.dispatched, dispatches])
  | drop | dropToken =>
      exact .ended (fun id => life_eq_closings id (by simp +contextual)) (by simp)
        (by simp [Queue.dispatched, dispatches])
  | _ => exact .ended (fun id => life_eq_closings id (by simp)) rfl rfl

section run

variable (settings : Settings) (observed : Bool)

theorem run_endings (moves : List (Move μ ρ)) (hcalm : ∀ move ∈ moves, move.calm = true) :
    endings ((make settings observed).run moves).2 =
      ended ((make settings observed).run moves).2 + ((make settings observed).run moves).1.announced :=
  run_invariant (P := fun queue _ events => endings events = ended events + queue.announced) moves
    (fun queue _ events move hmove h => by
      have hstep := (transition_step queue move).endings (hcalm move hmove)
      calc endings (events ++ (queue.step move).2)
          = ended events + (endings (queue.step move).2 + queue.announced) := by
            rw [endings_append, h]
            abel
        _ = ended (events ++ (queue.step move).2) + (queue.step move).1.announced := by
            rw [hstep, ended_append]
            abel)
    _ [] [] rfl

-- An end is logged for a message that has gone or that a sweep is about to report.
theorem gone_or_announced {moves : List (Move μ ρ)} (hcalm : ∀ move ∈ moves, move.calm = true) {ending : Termination}
    (hending : ending ∈ endings ((make settings observed).run moves).2) :
    ending.id ∈ (make settings observed).gone moves ∨
      ending ∈ ((make settings observed).run moves).1.announced := by
  rw [run_endings settings observed moves hcalm, Multiset.mem_add] at hending
  refine hending.imp_left fun hended => ?_
  obtain ⟨raised, hraised, rfl⟩ := List.mem_map.mp (Multiset.mem_coe.mp hended)
  exact List.mem_append_left _ (List.mem_map_of_mem (List.mem_map_of_mem hraised))

theorem mem_admitted_of_carried {moves : List (Move μ ρ)} {entry : Entry μ}
    (hentry : entry ∈ ((make settings observed).run moves).1.stack.flatMap Frame.carried) :
    entry.id ∈ ((make settings observed).run moves).2.filterMap Event.admitted? := by
  rw [← (sound_run settings observed moves).numbered.returned]
  refine List.mem_map.mpr ⟨entry.labelled, (run_places settings observed moves).mem_iff.mp ?_, rfl⟩
  simp only [List.mem_append]
  exact .inl (.inl (.inr (List.mem_map_of_mem hentry)))

theorem mem_admitted_of_gone {moves : List (Move μ ρ)} {id : MessageId}
    (hid : id ∈ (make settings observed).gone moves) :
    id ∈ ((make settings observed).run moves).2.filterMap Event.admitted? := by
  rw [← (sound_run settings observed moves).numbered.returned]
  have hplaces := run_places settings observed moves
  rcases List.mem_append.mp hid with hid | hid
  · obtain ⟨notice, hnotice, rfl⟩ := List.mem_map.mp hid
    refine List.mem_map.mpr ⟨notice.labelled, hplaces.mem_iff.mp ?_, rfl⟩
    simp only [List.mem_append]
    exact .inl (.inr (List.mem_map_of_mem hnotice))
  · obtain ⟨entry, hentry, rfl⟩ := List.mem_map.mp hid
    refine List.mem_map.mpr ⟨entry.labelled, hplaces.mem_iff.mp ?_, rfl⟩
    simp only [List.mem_append]
    exact .inr (List.mem_map_of_mem hentry)

theorem mem_admitted_of_dispatched {moves : List (Move μ ρ)} {id : MessageId}
    (hid : id ∈ dispatched ((make settings observed).run moves).2) :
    id ∈ ((make settings observed).run moves).2.filterMap Event.admitted? := by
  have hs := sound_run settings observed moves
  obtain ⟨issue, hissue, rfl⟩ := List.mem_map.mp hid
  rw [← hs.numbered.returned]
  exact List.mem_map.mpr ⟨labelOf issue,
    hs.traced.order.subset (List.mem_append_left _ (List.mem_map_of_mem hissue)), rfl⟩

-- What a sweep is about to report it holds.
theorem exists_carried_of_announced {queue : Queue μ ρ} {ending : Termination} (h : ending ∈ queue.announced) :
    ∃ entry ∈ queue.stack.flatMap Frame.carried, entry.id = ending.id := by
  obtain ⟨frame, hframe, hending⟩ := List.mem_flatMap.mp (Multiset.mem_coe.mp h)
  cases frame with
  | retiring lane batch =>
      obtain ⟨entry, hentry, rfl⟩ := List.mem_map.mp hending
      exact ⟨entry, List.mem_flatMap.mpr ⟨_, hframe, hentry⟩, rfl⟩
  | _ => exact absurd hending List.not_mem_nil

theorem mem_admitted_of_ending {moves : List (Move μ ρ)}
    (hcalm : ∀ move ∈ moves, move.calm = true) {ending : Termination}
    (hending : ending ∈ endings ((make settings observed).run moves).2) :
    ending.id ∈ ((make settings observed).run moves).2.filterMap Event.admitted? := by
  rcases gone_or_announced settings observed hcalm hending with hgone | hannounced
  · exact mem_admitted_of_gone settings observed hgone
  · obtain ⟨entry, hentry, hid⟩ := exists_carried_of_announced hannounced
    exact hid ▸ mem_admitted_of_carried settings observed hentry

-- A message that is about to be admitted is not known yet.
theorem fresh_id (moves : List (Move μ ρ)) :
    (⟨((make settings observed).run moves).1.nextId⟩ : MessageId) ∉
      ((make settings observed).run moves).2.filterMap Event.admitted? := by
  have hs := (sound_run settings observed moves).numbered
  rw [← hs.returned, hs.serials]
  simp

-- A message that is about to be dispatched has not ended.
theorem closings_starting {moves : List (Move μ ρ)} (hcalm : ∀ move ∈ moves, move.calm = true) {bound : Nat}
    {entry : Entry μ} {rest : List (Frame μ ρ)}
    (hstack : ((make settings observed).run moves).1.stack = .starting bound entry :: rest) :
    closings entry.id ((make settings observed).run moves).2 = [] := by
  rw [closings_eq_nil_iff]
  intro ending hending hid
  have hcarried : entry ∈ ((make settings observed).run moves).1.stack.flatMap Frame.carried := by
    rw [hstack]
    exact List.mem_cons_self
  rcases gone_or_announced settings observed hcalm hending with hgone | hannounced
  · exact (run_gone settings observed moves).2 entry hcarried (hid ▸ hgone)
  · have hfits := ((sound_run settings observed moves).stacked.fits hstack).1
    have hnone := flatMap_of_not_holdsQueue rest Frame.announced
      (fun frame hframe => by cases frame <;> simp_all [Frame.holdsQueue]) hfits
    rw [announced, hstack, List.flatMap_cons, hnone] at hannounced
    simp at hannounced

-- The log tells of a message first that it was admitted, then perhaps that it was dispatched, and
-- then how it ended.
theorem run_life (moves : List (Move μ ρ)) (hcalm : ∀ move ∈ moves, move.calm = true) (id : MessageId) :
    life id ((make settings observed).run moves).2 =
      (if id ∈ ((make settings observed).run moves).2.filterMap Event.admitted? then [.enqueued id] else []) ++
        (if id ∈ dispatched ((make settings observed).run moves).2 then [.dispatching id] else []) ++
          closings id ((make settings observed).run moves).2 := by
  induction moves using List.reverseRecOn with
  | nil => rfl
  | append_singleton before last ih =>
      obtain ⟨hbefore, -⟩ := List.forall_mem_append.mp hcalm
      rw [run_append_singleton_snd, life_append, closings_append, List.filterMap_append, dispatched_append, ih hbefore]
      cases (transition_step ((make settings observed).run before).1 last).told with
      | admitted hstack hlife hclosings hadmitted hdispatched =>
          rw [hlife, hclosings, hadmitted, hdispatched]
          by_cases hid : id = ⟨((make settings observed).run before).1.nextId⟩
          · have hfresh := fresh_id settings observed before
            have hunknown : id ∉ dispatched ((make settings observed).run before).2 := fun h =>
              hfresh (hid ▸ mem_admitted_of_dispatched settings observed h)
            have hopen : closings id ((make settings observed).run before).2 = [] := by
              rw [closings_eq_nil_iff]
              exact fun ending hending heq =>
                hfresh (hid ▸ heq ▸ mem_admitted_of_ending settings observed hbefore hending)
            rw [← hid] at hfresh
            simp [hopen, hfresh, hunknown, ← hid]
          · simp [hid]
      | @dispatched bound entry rest hstack hlife hclosings hadmitted hdispatched =>
          rw [hlife, hclosings, hadmitted, hdispatched]
          by_cases hid : id = entry.id
          · have hknown : id ∈ ((make settings observed).run before).2.filterMap Event.admitted? :=
              hid ▸ mem_admitted_of_carried settings observed (by rw [hstack]; exact List.mem_cons_self)
            have hopen : closings id ((make settings observed).run before).2 = [] :=
              hid ▸ closings_starting settings observed hbefore hstack
            have hfirst : id ∉ Queue.dispatched ((make settings observed).run before).2 := by
              have hids := (List.nodup_append.mp (sound_run settings observed before).ids_nodup).2.2
              intro hmem
              refine hids id hmem entry.id (List.mem_map_of_mem ?_) hid
              rw [unstarted, hstack]
              exact List.mem_cons_self
            simp [hopen, hknown, hfirst, ← hid]
          · simp [hid]
      | ended hlife hadmitted hdispatched =>
          rw [hlife, hadmitted, hdispatched, List.append_nil, List.append_nil, List.append_assoc]

end run

theorem filterMap_closings (id : MessageId) (events : List (Event μ ρ)) :
    ↑((closings id events).filterMap Record.ending?) = (endings events).filter fun ending => ending.id = id := by
  rw [endings, Multiset.filter_coe, closings]
  congr 1
  generalize records events = told
  induction told with
  | nil => rfl
  | cons record told ih =>
      cases hending : record.ending? with
      | none =>
          have hends : record.ends id = false := by rw [Record.ends, hending]; rfl
          rw [List.filter_cons_of_neg (by simp [hends]), List.filterMap_cons_none hending, ih]
      | some ending =>
          have hends : record.ends id = decide (ending.id = id) := by rw [Record.ends, hending]; rfl
          rw [List.filterMap_cons_some hending]
          by_cases hid : ending.id = id
          · rw [List.filter_cons_of_pos (by simp [hends, hid]), List.filterMap_cons_some hending,
              List.filter_cons_of_pos (by simpa using hid), ih]
          · rw [List.filter_cons_of_neg (by simp [hends, hid]), List.filter_cons_of_neg (by simpa using hid), ih]

theorem isSome_of_mem_closings {id : MessageId} {events : List (Event μ ρ)} {record : Record}
    (h : record ∈ closings id events) : record.ending?.isSome = true := by
  obtain ⟨ending, hending, -⟩ := (Option.any_eq_true _ _).mp (List.mem_filter.mp h).2
  exact Option.isSome_of_mem hending

end Queue

end DeadlineQueue
