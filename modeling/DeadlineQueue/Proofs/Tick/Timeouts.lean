import DeadlineQueue.Proofs.Tick.Trace

namespace DeadlineQueue

-- The looks of a tick, by the deadlines that are in effect.
theorem Limits.map_scans (limits : Limits) (now : Instant) :
    limits.scans.map (fun look => (now, look.1, look.2.origin, look.2.deadline)) =
      (match limits.waitDeadline with
        | none => []
        | some deadline => [(now, .pending, .admission, deadline), (now, .inProgress, .admission, deadline)]) ++
      (match limits.processingDeadline with
        | none => []
        | some deadline => [(now, .inProgress, .start, deadline)]) := by
  unfold scans
  cases limits.waitDeadline <;> cases limits.processingDeadline <;> rfl

namespace Queue

variable {μ ρ : Type}

-- A tick that has come to its dispatch does not sweep again.
theorem Transition.sweeping {queue next : Queue μ ρ} {move : Move μ ρ} {events : List (Event μ ρ)}
    (h : Transition queue move next events) (hbusy : queue.busy = true)
    (hframes : queue.stack.any Frame.outsideTick = false) (hsweeping : queue.sweeping = false) :
    next.sweeping = false := by
  unfold Queue.sweeping at hsweeping ⊢
  cases h with
  | retire hstack => simp [hstack, Frame.sweeps] at hsweeping
  | cancel hstack => simp [hstack, Frame.outsideTick] at hframes
  | startUnread fault hstack =>
      rw [any_stack_raise _ _ _ _ rfl]
      simp_all [Frame.sweeps]
  | complete =>
      rw [any_stack_raise _ _ _ _ rfl]
      simpa [Frame.sweeps] using hsweeping
  | clockPanic text => exact any_eq_false_of_suffix _ (unwind_suffix queue queue.stack text) hsweeping
  | panic text hstack => exact any_eq_false_of_suffix _ (unwind_suffix_of_cons queue hstack text) hsweeping
  | @finish frame rest hstack => exact any_eq_false_of_suffix _ (hstack ▸ List.suffix_cons frame rest) hsweeping
  | _ => simp_all [Frame.sweeps, Frame.outsideTick]

theorem Ticking.run_sweeping {queue : Queue μ ρ} {admitted : List (MessageId × μ)} {past : List (Event μ ρ)}
    (h : queue.Ticking admitted past) (moves : List (Move μ ρ)) (hoccupied : queue.occupied moves = true)
    (hsweeping : queue.sweeping = false) : (queue.run moves).1.sweeping = false := by
  induction moves generalizing queue past with
  | nil => exact hsweeping
  | cons move moves ih =>
      obtain ⟨hbusy, hoccupied⟩ := Bool.and_eq_true_iff.mp hoccupied
      exact ih (h.step hbusy move) hoccupied ((transition_step queue move).sweeping hbusy h.frames hsweeping)

-- While a tick sweeps, entries leave the lanes only.
theorem Transition.trims {queue next : Queue μ ρ} {move : Move μ ρ} {events : List (Event μ ρ)}
    (h : Transition queue move next events) (hstacked : queue.Stacked)
    (hframes : queue.stack.any Frame.outsideTick = false) (hsweeping : queue.sweeping = true) :
    (∀ name, (queue.lane name).Trims (next.lane name)) ∧ dispatches events = [] := by
  cases h.change with
  | trimmed hpending hinProgress _ _ _ hdispatched =>
      exact ⟨fun name => by cases name <;> assumption, hdispatched⟩
  | accepted hstack => simp [hstack, Frame.outsideTick] at hframes
  | @started bound entry rest now hstack =>
      -- No sweep lies below a start.
      have hrest : rest.any Frame.sweeps = false :=
        any_of_not_holdsQueue rest Frame.sweeps
          (fun frame hframe => by cases frame <;> simp_all [Frame.holdsQueue, Frame.sweeps])
          (hstacked.fits hstack).1
      rw [Queue.sweeping, hstack, List.any_cons, hrest] at hsweeping
      simp [Frame.sweeps] at hsweeping

-- A message is on one lane and there once.
theorem Sound.eq_of_id_eq {queue : Queue μ ρ} {admitted : List (MessageId × μ)} {past : List (Event μ ρ)}
    (h : queue.Sound admitted past) {name other : LaneName} {entry twin : Entry μ}
    (hentry : entry ∈ (queue.lane name).entries) (htwin : twin ∈ (queue.lane other).entries)
    (hid : entry.id = twin.id) : name = other ∧ entry = twin := by
  have hids : ∀ waiting ∈ queue.pending.entries, ∀ started ∈ queue.inProgress.entries, waiting.id ≠ started.id := by
    intro waiting hwaiting started hstarted hid
    have hdisjoint := (List.nodup_append.mp h.ids_nodup).2.2
    obtain ⟨slot, hslot, rfl⟩ := List.mem_map.mp hstarted
    exact hdisjoint _ (List.mem_map_of_mem (h.issue_mem hslot)) _
      (List.mem_map_of_mem (List.mem_append_right _ hwaiting)) hid.symm
  cases name with
  | pending =>
      cases other with
      | pending => exact ⟨rfl, List.inj_on_of_nodup_map h.pending_ids_nodup hentry htwin hid⟩
      | inProgress => exact absurd hid (hids entry hentry twin htwin)
  | inProgress =>
      cases other with
      | pending => exact absurd hid.symm (hids twin htwin entry hentry)
      | inProgress => exact ⟨rfl, List.inj_on_of_nodup_map h.inProgress_ids_nodup hentry htwin hid⟩

-- What the looks of a sweep have done so far. Nothing that one of them would find late is left on
-- its lane, and what was found late is on no lane and was found once. The lanes held their entries
-- in the order of admission and of dispatch.
structure Swept (queue : Queue μ ρ) (looks : List (Look μ)) (admitted : List (MessageId × μ))
    (issued : List (Token × μ)) : Prop where
  clean : ∀ look ∈ looks, ∀ entry ∈ (queue.lane look.lane).entries, look.scan.overdue look.now entry = false
  once : ((looks.flatMap Look.late).map (fun entry => entry.id)).Nodup
  gone : ∀ look ∈ looks, ∀ late ∈ look.late, ∀ name, ∀ entry ∈ (queue.lane name).entries, late.id ≠ entry.id
  inOrder : ∀ look ∈ looks, (look.entries.map Entry.labelled).Sublist
    (match look.lane with | .pending => admitted | .inProgress => issued.map labelOf)

theorem Swept.start (queue : Queue μ ρ) (admitted : List (MessageId × μ)) (issued : List (Token × μ)) :
    queue.Swept [] admitted issued where
  clean := by simp
  once := .nil
  gone := by simp
  inOrder := by simp

theorem Swept.trims {queue next : Queue μ ρ} {looks : List (Look μ)} {admitted : List (MessageId × μ)}
    {issued : List (Token × μ)} (h : queue.Swept looks admitted issued)
    (htrims : ∀ name, (queue.lane name).Trims (next.lane name)) : next.Swept looks admitted issued where
  clean := fun look hlook entry hentry => h.clean look hlook entry ((htrims look.lane).entries.subset hentry)
  once := h.once
  gone := fun look hlook late hlate name entry hentry =>
    h.gone look hlook late hlate name entry ((htrims name).entries.subset hentry)
  inOrder := h.inOrder

theorem Sound.lane_ids_nodup {queue : Queue μ ρ} {admitted : List (MessageId × μ)} {past : List (Event μ ρ)}
    (h : queue.Sound admitted past) (name : LaneName) :
    ((queue.lane name).entries.map (fun entry => entry.id)).Nodup := by
  cases name with
  | pending => exact h.pending_ids_nodup
  | inProgress => exact h.inProgress_ids_nodup

-- The pending lane is in the order of admission, the other one in the order of dispatch.
theorem Sound.lane_inOrder {queue : Queue μ ρ} {admitted : List (MessageId × μ)} {past : List (Event μ ρ)}
    (h : queue.Sound admitted past) (name : LaneName) :
    ((queue.lane name).entries.map Entry.labelled).Sublist
      (match name with | .pending => admitted | .inProgress => (dispatches past).map labelOf) := by
  cases name with
  | pending =>
      have hwaiting : (queue.pending.entries.map Entry.labelled).Sublist (queue.unstarted.map Entry.labelled) :=
        (List.sublist_append_right _ _).map _
      exact hwaiting.trans ((List.sublist_append_right _ _).trans h.traced.order)
  | inProgress =>
      have htokens := h.traced.tokens.map labelOf
      rw [List.map_map] at htokens
      simpa [Lane.entries, Function.comp_def, Slot.issue, labelOf, Entry.labelled] using htokens

-- A look at a lane, and the late entries leave it.
theorem Swept.look {queue next : Queue μ ρ} {looks : List (Look μ)} {admitted : List (MessageId × μ)}
    {past : List (Event μ ρ)} (h : queue.Swept looks admitted (dispatches past)) (hs : queue.Sound admitted past)
    (htrims : ∀ name, (queue.lane name).Trims (next.lane name)) (look : Look μ)
    (hentries : look.entries = (queue.lane look.lane).entries)
    (hnext : (next.lane look.lane).entries = look.entries.filter (fun entry => !look.scan.overdue look.now entry)) :
    next.Swept (looks ++ [look]) admitted (dispatches past) := by
  have hold := h.trims htrims
  have hlate : ∀ entry ∈ look.late,
      entry ∈ (queue.lane look.lane).entries ∧ look.scan.overdue look.now entry = true := by
    intro entry hentry
    rw [← hentries]
    exact List.mem_filter.mp hentry
  constructor
  · intro other hother entry hentry
    rcases List.mem_append.mp hother with hother | hother
    · exact hold.clean other hother entry hentry
    · obtain rfl := List.mem_singleton.mp hother
      rw [hnext, List.mem_filter] at hentry
      simpa using hentry.2
  · rw [List.flatMap_append, List.map_append, List.flatMap_singleton, List.nodup_append]
    refine ⟨h.once, ?_, ?_⟩
    · have hids := hs.lane_ids_nodup look.lane
      rw [← hentries] at hids
      exact hids.sublist (List.filter_sublist.map _)
    · intro first hfirst second hsecond
      obtain ⟨early, hearly, rfl⟩ := List.mem_map.mp hfirst
      obtain ⟨entry, hentry, rfl⟩ := List.mem_map.mp hsecond
      obtain ⟨other, hother, hearly⟩ := List.mem_flatMap.mp hearly
      exact h.gone other hother early hearly look.lane entry (hlate entry hentry).1
  · intro other hother late hmem name entry hentry
    rcases List.mem_append.mp hother with hother | hother
    · exact hold.gone other hother late hmem name entry hentry
    · obtain rfl := List.mem_singleton.mp hother
      intro hid
      obtain ⟨hlane, hoverdue⟩ := hlate late hmem
      obtain ⟨rfl, rfl⟩ := hs.eq_of_id_eq hlane ((htrims name).entries.subset hentry) hid
      rw [hnext, List.mem_filter, hoverdue] at hentry
      simp at hentry
  · intro other hother
    rcases List.mem_append.mp hother with hother | hother
    · exact h.inOrder other hother
    · obtain rfl := List.mem_singleton.mp hother
      rw [hentries]
      exact hs.lane_inOrder other.lane

theorem Swept.step {queue : Queue μ ρ} {looks : List (Look μ)} {admitted : List (MessageId × μ)}
    {past : List (Event μ ρ)} (h : queue.Swept looks admitted (dispatches past)) (hs : queue.Ticking admitted past)
    (hsweeping : queue.sweeping = true) (move : Move μ ρ) :
    (queue.step move).1.Swept (looks ++ (queue.look? move).toList) admitted (dispatches past) := by
  obtain ⟨htrims, -⟩ := (transition_step queue move).trims hs.sound.stacked hs.frames hsweeping
  cases hlook : queue.look? move with
  | none => simpa using h.trims htrims
  | some look =>
      obtain ⟨_, _, -, hentries, hnext, -⟩ := step_of_look hlook
      apply h.look hs.sound htrims look hentries
      rw [hnext, (hs.sound.takeOverdue_look hlook).2]

-- The sweep as a whole, up to a state in which it still runs or has just ended.
theorem Swept.run {queue : Queue μ ρ} {looks : List (Look μ)} {admitted : List (MessageId × μ)}
    {past : List (Event μ ρ)} (h : queue.Swept looks admitted (dispatches past)) (hs : queue.Ticking admitted past)
    (moves : List (Move μ ρ)) (hoccupied : queue.occupied moves = true)
    (hsweeping : (queue.run moves).1.sweeping = true) :
    (queue.run moves).1.Swept (looks ++ queue.looks moves) admitted (dispatches past) ∧
      dispatches (queue.run moves).2 = [] := by
  induction moves generalizing queue looks past with
  | nil => exact ⟨by simpa [run_nil, Queue.looks] using h, rfl⟩
  | cons move moves ih =>
      have hstart : queue.sweeping = true := by
        by_contra hstart
        have hend := hs.run_sweeping (move :: moves) hoccupied (by simpa using hstart)
        rw [hend] at hsweeping
        exact Bool.false_ne_true hsweeping
      obtain ⟨hbusy, hoccupied⟩ := Bool.and_eq_true_iff.mp hoccupied
      obtain ⟨-, hdispatched⟩ := (transition_step queue move).trims hs.sound.stacked hs.frames hstart
      have hpast : dispatches (past ++ (queue.step move).2) = dispatches past := by
        rw [dispatches_append, hdispatched, List.append_nil]
      have hnext := h.step hs hstart move
      rw [← hpast] at hnext
      obtain ⟨hrest, hrest'⟩ := ih hnext (hs.step hbusy move) hoccupied hsweeping
      rw [hpast, List.append_assoc] at hrest
      exact ⟨hrest, by rw [run_cons, dispatches_append, hdispatched, hrest', List.nil_append]⟩

-- What a tick dispatches was still waiting when its sweep had ended.
theorem Ticking.exists_waiting {queue : Queue μ ρ} {admitted : List (MessageId × μ)} {past : List (Event μ ρ)}
    (h : queue.Ticking admitted past) {rest : List (Frame μ ρ)} (hstack : queue.stack = .gathering :: rest)
    (hrest : rest.any Frame.holdsQueue = false) (moves : List (Move μ ρ)) (hoccupied : queue.occupied moves = true) :
    ∀ issue ∈ dispatches (queue.run moves).2, ∃ waiting ∈ queue.pending.entries, waiting.id = issue.1.id := by
  intro issue hissue
  have hfifo := (List.sublist_append_left _ _).trans (h.run_fifo moves hoccupied)
  have hunstarted : queue.unstarted = queue.pending.entries := by
    simp [unstarted, hstack, unstarted_of_not_holdsQueue rest hrest]
  obtain ⟨waiting, hwaiting, hlabelled⟩ := List.mem_map.mp (hfifo.subset (List.mem_map_of_mem hissue))
  rw [hunstarted] at hwaiting
  exact ⟨waiting, hwaiting, congrArg Prod.fst hlabelled⟩

theorem occupied_append (queue : Queue μ ρ) (first second : List (Move μ ρ)) :
    queue.occupied (first ++ second) = (queue.occupied first && (queue.run first).1.occupied second) := by
  induction first generalizing queue with
  | nil => rfl
  | cons move moves ih => rw [List.cons_append, occupied, occupied, ih, run_cons, Bool.and_assoc]

-- A tick reads its time before its sweep, unless it has nothing to look for.
theorem exists_start_tick (queue : Queue μ ρ) (hturn : queue.turn = .user) (hfree : queue.busy = false)
    (halive : queue.dropped = false) (now : Instant) :
    ∃ middle frame, queue.step (.call .tick) = (middle, []) ∧
      middle.step (.read (.time now)) = ({ queue with stack := frame :: queue.stack }, []) ∧
      (queue.limits.scans = [] ∧ frame = .gathering ∨
        queue.limits.scans ≠ [] ∧ frame = .scanning now queue.limits.scans) := by
  have htick : queue.step (.call .tick) = queue.startTick := by simp [step, hturn, answer, ifFree, hfree, halive]
  rw [htick, startTick]
  cases hscans : queue.limits.scans with
  | nil =>
      refine ⟨_, .gathering, rfl, ?_, .inl ⟨rfl, rfl⟩⟩
      simp [step, turn, Frame.isUser, Frame.awaitsClock]
  | cons scan scans =>
      refine ⟨_, .scanning now (scan :: scans), rfl, ?_, .inr ⟨by simp, rfl⟩⟩
      simp [step, turn, Frame.isUser, Frame.awaitsClock, readTime]

-- The first look finds its lane as it was when the time was read.
theorem head_looks (queue : Queue μ ρ) (now : Instant) (scans : List (LaneName × Scan)) (rest : List (Frame μ ρ))
    (hstack : queue.stack = .scanning now scans :: rest) (hscans : scans ≠ []) (moves : List (Move μ ρ)) :
    ∀ look ∈ (queue.looks moves).head?, look.entries = (queue.lane look.lane).entries := by
  have hturn : queue.turn = .queue := by simp [turn, hstack, Frame.isUser, Frame.awaitsClock]
  obtain ⟨⟨name, scan⟩, later, rfl⟩ := List.exists_cons_of_ne_nil hscans
  induction moves with
  | nil => simp [looks]
  | cons move moves ih =>
      by_cases hmove : move = .advance
      · intro look hlook
        have hfirst : some { now, lane := name, scan, entries := (queue.lane name).entries } = some look := by
          simpa [looks, hmove, look?, hstack] using hlook
        rw [← Option.some.inj hfirst]
      · have hidle : (queue.step move).1 = queue := by
          cases move with
          | advance => exact absurd rfl hmove
          | read reading => cases reading <;> simp [step, hturn]
          | _ => simp [step, hturn]
        rw [looks, look_eq_none queue move hmove, hidle]
        exact ih

-- A tick whose time has been read takes the looks that the limits call for, the first one at a lane
-- that is as it was when the tick was called.
theorem Sound.start_tick {queue : Queue μ ρ} {admitted : List (MessageId × μ)} {past : List (Event μ ρ)}
    (hs : queue.Sound admitted past) (hturn : queue.turn = .user) (hfree : queue.busy = false)
    (halive : queue.dropped = false) (now : Instant) :
    ∃ started, (queue.run [.call .tick, .read (.time now)]).1 = started ∧ started.Ticking admitted past ∧
      started.ahead = queue.limits.scans.map (fun look => (now, look)) ∧ started.unraised = [] ∧
      ∀ moves, started.occupied moves = true → (∀ move ∈ moves, move.calm = true) →
        ∀ look ∈ (started.looks moves).head?, look.entries = (queue.lane look.lane).entries := by
  obtain ⟨middle, frame, htick, hread, hframe⟩ := exists_start_tick queue hturn hfree halive now
  have hsound := (hs.step (.call .tick)).step (.read (.time now))
  rw [htick, hread] at hsound
  have hahead := ahead_of_not_holdsQueue queue.stack hfree
  have hunraised := unraised_of_not_holdsQueue queue.stack hfree
  have houtside : queue.stack.any Frame.outsideTick = false :=
    any_of_not_holdsQueue queue.stack Frame.outsideTick
      (fun frame hframe => by cases frame <;> simp_all [Frame.holdsQueue, Frame.outsideTick]) hfree
  have hticking : Ticking { queue with stack := frame :: queue.stack } admitted past := by
    refine ⟨by simpa [accepted] using hsound, ?_⟩
    rcases hframe with ⟨-, rfl⟩ | ⟨-, rfl⟩ <;> exact houtside
  refine ⟨{ queue with stack := frame :: queue.stack }, by simp [run_cons, run_nil, htick, hread], hticking, ?_, ?_, ?_⟩
  · rcases hframe with ⟨hscans, rfl⟩ | ⟨-, rfl⟩
    · simp [ahead, hahead, hscans]
    · simp [ahead, hahead]
  · rcases hframe with ⟨-, rfl⟩ | ⟨-, rfl⟩ <;> simp [unraised, hunraised]
  · intro moves hoccupied hcalm
    rcases hframe with ⟨hscans, rfl⟩ | ⟨hscans, rfl⟩
    · have hnone := hticking.looks_eq_nil (by simp [ahead, hahead]) moves hoccupied hcalm
      simp [hnone]
    · exact head_looks _ now queue.limits.scans queue.stack rfl hscans moves

-- The timeouts of a tick. Each look finds its lane as the list of what is tracked at that moment,
-- and exactly what is overdue there is reported, in the order of the lane and once. When the sweep
-- ends nothing overdue is left, and nothing that was overdue is dispatched.
theorem tick_timeouts (settings : Settings) (observed : Bool) (past sweep dispatch : List (Move μ ρ)) (now : Instant)
    (queue started swept : Queue μ ρ) (hqueue : ((make settings observed).run past).1 = queue)
    (hturn : queue.turn = .user) (hfree : queue.busy = false) (halive : queue.dropped = false)
    (hstarted : (queue.run [.call .tick, .read (.time now)]).1 = started) (hswept : (started.run sweep).1 = swept)
    (hend : swept.stack = .gathering :: queue.stack) (hoccupied : started.occupied (sweep ++ dispatch) = true)
    (hcalm : ∀ move ∈ sweep ++ dispatch, move.calm = true) :
    let looks := started.looks sweep
    looks.map (fun look => (look.now, look.lane, look.scan.origin, look.scan.deadline)) =
        (match queue.limits.waitDeadline with
          | none => []
          | some deadline =>
            [(now, .pending, .admission, deadline), (now, .inProgress, .admission, deadline)]) ++
        (match queue.limits.processingDeadline with
          | none => []
          | some deadline => [(now, .inProgress, .start, deadline)]) ∧
      (∀ look ∈ looks.head?, look.entries = (queue.lane look.lane).entries) ∧
      (∀ look ∈ looks, (look.entries.map Entry.labelled).Sublist
        (match look.lane with
          | .pending => (make settings observed).admissions past
          | .inProgress => (dispatches ((make settings observed).run past).2).map labelOf)) ∧
      timeouts (started.run sweep).2 = looks.flatMap Look.timeouts ∧
      timeouts (swept.run dispatch).2 = [] ∧
      ((looks.flatMap Look.late).map (fun entry => entry.id)).Nodup ∧
      (∀ look ∈ looks, ∀ entry ∈ (swept.lane look.lane).entries, look.scan.overdue look.now entry = false) ∧
      ∀ deadline ∈ queue.limits.waitDeadline, ∀ entry ∈ queue.pending.entries, deadline ≤ elapsed entry.enqueuedAt now →
        entry.id ∉ (dispatches (started.run (sweep ++ dispatch)).2).map (fun issue => issue.1.id) := by
  intro looks
  have hs : queue.Sound ((make settings observed).admissions past) ((make settings observed).run past).2 :=
    hqueue ▸ sound_run settings observed past
  obtain ⟨_, rfl, hticking, hahead, hunraised, hhead⟩ := hs.start_tick hturn hfree halive now
  rw [hstarted] at hticking hahead hunraised hhead
  rw [occupied_append, Bool.and_eq_true, hswept] at hoccupied
  have hcalm' := List.forall_mem_append.mp hcalm
  -- The sweep has come to its end, so all its scans are done and all its reports are raised.
  have hsweep := hticking.run_timeouts sweep hoccupied.1 hcalm'.1
  have hswept_ahead : swept.ahead = [] := by simp [ahead, hend, ahead_of_not_holdsQueue queue.stack hfree]
  have hswept_unraised : swept.unraised = [] := by simp [unraised, hend, unraised_of_not_holdsQueue queue.stack hfree]
  rw [hswept, hswept_ahead, hswept_unraised, List.append_nil, List.append_nil, hahead, hunraised, List.nil_append]
    at hsweep
  obtain ⟨hkeys, hraised⟩ := hsweep
  have hsweeping : (started.run sweep).1.sweeping = true := by simp [hswept, sweeping, hend, Frame.sweeps]
  obtain ⟨hlooks, hundispatched⟩ := (Swept.start started _ _).run hticking sweep hoccupied.1 hsweeping
  rw [List.nil_append, hswept] at hlooks
  have hticking' := hticking.run sweep hoccupied.1
  rw [hswept] at hticking'
  refine ⟨?_, hhead sweep hoccupied.1 hcalm'.1, hlooks.inOrder, hraised, ?_, hlooks.once, hlooks.clean, ?_⟩
  · have hexpected := congrArg (List.map fun key => (key.1, key.2.1, key.2.2.origin, key.2.2.deadline)) hkeys
    rw [List.map_map, List.map_map] at hexpected
    exact hexpected.trans (queue.limits.map_scans now)
  · have hnone := hticking'.looks_eq_nil hswept_ahead dispatch hoccupied.2 hcalm'.2
    have hrest := (hticking'.run_timeouts dispatch hoccupied.2 hcalm'.2).2
    rw [hnone, hswept_unraised] at hrest
    exact (List.append_eq_nil_iff.mp hrest).1
  · intro deadline hdeadline entry hentry hoverdue hdispatched
    -- The first look was at the pending lane, and it found the entry late.
    obtain ⟨first, hfirst, hkey⟩ : ∃ look, looks.head? = some look ∧
        look.key = (now, .pending, { origin := .admission, deadline, hasty := true }) := by
      rw [← Option.map_eq_some_iff, ← List.head?_map, hkeys, Limits.scans, Option.mem_def.mp hdeadline]
      rfl
    have hnow : first.now = now := congrArg Prod.fst hkey
    have hlane : first.lane = .pending := congrArg (fun key => key.2.1) hkey
    have hscan : first.scan = { origin := .admission, deadline, hasty := true } := congrArg (fun key => key.2.2) hkey
    have hentries := hhead sweep hoccupied.1 hcalm'.1 first hfirst
    rw [hlane] at hentries
    have hlate : entry ∈ first.late := by
      rw [Look.late, List.mem_filter, hentries, hnow, hscan]
      exact ⟨hentry, by simpa [Scan.overdue, Entry.since] using hoverdue⟩
    rw [run_append, hswept, dispatches_append, hundispatched, List.nil_append] at hdispatched
    obtain ⟨issue, hissue, hid⟩ := List.mem_map.mp hdispatched
    obtain ⟨waiting, hwaiting, hwaitingId⟩ := hticking'.exists_waiting hend hfree dispatch hoccupied.2 issue hissue
    have hgone := hlooks.gone first (List.mem_of_mem_head? hfirst) entry hlate .pending waiting hwaiting
    exact hgone (hid.symm.trans hwaitingId.symm)

-- One message is in progress since 8. Two wait, since 5 and, by a clock that went back, since 3.
def threeMessages : List (Move String String) :=
  [.call (.enqueue "a"), .read (.time 4), .call .tick, .read (.time 4), .advance, .advance, .advance, .advance,
    .advance, .advance, .advance, .advance, .advance, .read (.time 8), .finish, .advance, .call (.enqueue "b"),
    .read (.time 5), .call (.enqueue "c"), .read (.time 3)]

def threeTracked : Queue String String :=
  ((make { limits := { wait := some 10, processing := some 4 } } true).run threeMessages).1

-- At 13 the last message has waited for its deadline, and the first one is past that of its processing.
def atThirteen : Queue String String :=
  (threeTracked.run [.call .tick, .read (.time 13)]).1

def sweepAtThirteen : List (Move String String) :=
  [.advance, .advance, .advance, .finish, .advance, .advance, .advance, .advance, .advance, .advance, .advance, .finish,
    .advance, .advance, .advance]

def sweptAtThirteen : Queue String String :=
  (atThirteen.run sweepAtThirteen).1

def dispatchAtThirteen : List (Move String String) :=
  [.advance, .advance, .read (.time 13)]

theorem tick_timeouts_threeTracked :
    threeTracked.turn = .user ∧ threeTracked.busy = false ∧ threeTracked.dropped = false ∧
      sweptAtThirteen.stack = .gathering :: threeTracked.stack ∧
      atThirteen.occupied (sweepAtThirteen ++ dispatchAtThirteen) = true ∧
      (timeouts (atThirteen.run sweepAtThirteen).2).map (fun report => (report.1, report.2.message)) =
        [(.pending, "c"), (.inProgress, "a")] ∧
      timeouts (sweptAtThirteen.run dispatchAtThirteen).2 = [] := by
  have hend : sweptAtThirteen.stack = .gathering :: threeTracked.stack := rfl
  have hoccupied : atThirteen.occupied (sweepAtThirteen ++ dispatchAtThirteen) = true := by decide
  have hcalm : ∀ move ∈ sweepAtThirteen ++ dispatchAtThirteen, move.calm = true := by decide
  have h := tick_timeouts { limits := { wait := some 10, processing := some 4 } } true threeMessages sweepAtThirteen
    dispatchAtThirteen 13 threeTracked atThirteen sweptAtThirteen rfl rfl rfl rfl rfl rfl hend hoccupied hcalm
  refine ⟨rfl, rfl, rfl, hend, hoccupied, ?_, h.2.2.2.2.1⟩
  rw [h.2.2.2.1]
  rfl

end Queue

end DeadlineQueue
