import DeadlineQueue.Proofs.Tick.Starts
import DeadlineQueue.Proofs.Tick.Upcoming

namespace DeadlineQueue

variable {μ ρ : Type}

theorem enforced_ne_zero {limit : Option Duration} : ∀ deadline ∈ enforced limit, deadline ≠ 0 := by
  intro deadline hdeadline
  unfold enforced at hdeadline
  split at hdeadline
  · cases hdeadline
  · rename_i hlimit
    rintro rfl
    exact hlimit hdeadline

-- The looks at the messages in progress. One measures the wait, as a look at the pending ones does;
-- the other one measures from the start, and a message that starts is not overdue for it.
theorem Limits.scans_inProgress (limits : Limits) {scan : Scan} (h : (LaneName.inProgress, scan) ∈ limits.scans) :
    (∃ waiting, (.pending, waiting) ∈ limits.scans ∧ waiting.origin = .admission ∧ scan.origin = .admission ∧
      waiting.deadline = scan.deadline) ∨ scan.origin = .start ∧ scan.deadline ≠ 0 := by
  unfold scans at h ⊢
  rw [List.mem_append] at h
  rcases h with h | h
  · left
    cases hwait : limits.waitDeadline with
    | none => simp [hwait] at h
    | some deadline =>
        simp only [hwait, List.mem_cons, Prod.mk.injEq, reduceCtorEq, false_and, true_and, List.not_mem_nil, or_false,
          false_or] at h
        subst h
        exact ⟨_, List.mem_append_left _ List.mem_cons_self, rfl, rfl, rfl⟩
  · right
    cases hprocessing : limits.processingDeadline with
    | none => simp [hprocessing] at h
    | some deadline =>
        simp only [hprocessing, List.mem_cons, Prod.mk.injEq, true_and, List.not_mem_nil, or_false] at h
        subst h
        exact ⟨rfl, enforced_ne_zero deadline hprocessing⟩

namespace Queue

-- The entries on a lane, with the one that has left it to be dispatched.
def occupants (queue : Queue μ ρ) : LaneName → List (Entry μ)
  | .pending => queue.unstarted
  | .inProgress => queue.inProgress.entries

-- No entry is overdue for a look that is not still to come.
def Sifting (queue : Queue μ ρ) (now : Instant) : Prop :=
  ∀ look ∈ queue.limits.scans, (now, look) ∈ queue.looming now ∨
    ∀ entry ∈ queue.occupants look.1, look.2.overdue now entry = false

theorem Transition.settings_busy {queue next : Queue μ ρ} {move : Move μ ρ} {events : List (Event μ ρ)}
    (h : Transition queue move next events) (hbusy : queue.busy = true) :
    next.limits = queue.limits ∧ next.dropped = queue.dropped := by
  cases h with
  | setLimits limits hturn hfree | drop hturn hfree => exact absurd (hfree.symm.trans hbusy) Bool.false_ne_true
  | _ => simp [append, unwind]

theorem occupants_subset {queue next : Queue μ ρ} (hunstarted : next.unstarted ⊆ queue.unstarted)
    (hinProgress : next.inProgress.entries ⊆ queue.inProgress.entries) (name : LaneName) :
    next.occupants name ⊆ queue.occupants name := by
  cases name with
  | pending => exact hunstarted
  | inProgress => exact hinProgress

-- Entries that leave do not matter.
theorem Sifting.of_subset {queue next : Queue μ ρ} {now : Instant} (h : queue.Sifting now)
    (hlimits : next.limits = queue.limits) (hlooming : queue.looming now ⊆ next.looming now)
    (hunstarted : next.unstarted ⊆ queue.unstarted)
    (hinProgress : next.inProgress.entries ⊆ queue.inProgress.entries) : next.Sifting now := by
  intro look hlook
  rw [hlimits] at hlook
  refine (h look hlook).imp (hlooming ·) (fun hlive entry hentry => hlive entry ?_)
  exact occupants_subset hunstarted hinProgress look.1 hentry

-- A look takes what is overdue for it.
theorem Sifting.scan {queue : Queue μ ρ} {now time : Instant} (h : queue.Sifting now) (hordered : queue.Ordered)
    (hstacked : queue.Stacked) {name : LaneName} {scan : Scan} {scans : List (LaneName × Scan)}
    {rest : List (Frame μ ρ)} (hstack : queue.stack = .scanning time ((name, scan) :: scans) :: rest) :
    ({ queue.setLane name ((queue.lane name).takeOverdue scan time).2 with
        stack := .retiring name ((queue.lane name).takeOverdue scan time).1 :: .scanning time scans :: rest } :
      Queue μ ρ).Sifting now := by
  have hrest := (hstacked.fits hstack).1
  have hwaiting : rest.flatMap Frame.unstarted = [] := unstarted_of_not_holdsQueue rest hrest
  have hlooming : rest.flatMap (Frame.looming now) = [] := looming_of_not_holdsQueue now rest hrest
  have htake := (hordered.lane name).entries_takeOverdue scan time (hstacked.fair_scan hstack).origin_of_hasty
  have hentries := ((queue.lane name).trims_takeOverdue scan time).entries
  intro look hlook
  simp only [limits_setLane] at hlook
  rcases h look hlook with hahead | hlive
  · simp only [looming, hstack, List.flatMap_cons, Frame.looming, hlooming, List.append_nil, List.map_cons,
      List.mem_cons] at hahead
    rcases hahead with heq | hahead
    · -- This is the look that was taken.
      obtain ⟨rfl, rfl⟩ := Prod.mk.inj heq
      right
      intro entry hentry
      have hmem : entry ∈ ((queue.lane name).takeOverdue scan now).2.entries := by
        cases name with
        | pending => simpa [occupants, unstarted, hwaiting] using hentry
        | inProgress => exact hentry
      rw [htake, List.mem_filter] at hmem
      simpa using hmem.2
    · left
      simpa [looming, hlooming] using hahead
  · right
    intro entry hentry
    refine hlive entry (occupants_subset ?_ ?_ look.1 hentry)
    · cases name with
      | pending => simpa [unstarted, hstack, hwaiting] using hentries.subset
      | inProgress => simp [unstarted, hstack]
    · cases name with
      | pending => exact List.Subset.refl _
      | inProgress => exact hentries.subset

-- What starts is not overdue: it was not for the wait when it was pending, and it has just started.
theorem Sifting.start {queue : Queue μ ρ} {now : Instant} (h : queue.Sifting now) (hstacked : queue.Stacked)
    {bound : Nat} {entry : Entry μ} {rest : List (Frame μ ρ)} (hstack : queue.stack = .starting bound entry :: rest) :
    ({ queue.append .inProgress now { entry with startedAt := some now } with
        held := queue.held ++ [{ key := queue.nextKey, id := entry.id }]
        stack := .processing { key := queue.nextKey, id := entry.id } entry.message :: .dispatching bound :: rest } :
      Queue μ ρ).Sifting now := by
  have hrest := (hstacked.fits hstack).1
  have hnone : queue.looming now = [] := by
    simp [looming, hstack, looming_of_not_holdsQueue now rest hrest]
  -- The sweep is over, so no look is still to come.
  have hlive : ∀ look ∈ queue.limits.scans, ∀ other ∈ queue.occupants look.1, look.2.overdue now other = false := by
    intro look hlook
    refine (h look hlook).resolve_left ?_
    rw [hnone]
    exact List.not_mem_nil
  rintro ⟨name, scan⟩ hlook
  simp only [append, limits_setLane] at hlook
  right
  intro other hother
  cases name with
  | pending =>
      refine hlive _ hlook other ?_
      simp only [occupants, unstarted, hstack, List.flatMap_cons, Frame.unstarted, List.nil_append, append,
        setLane_inProgress, List.cons_append] at hother ⊢
      exact List.mem_cons_of_mem _ hother
  | inProgress =>
      have hmem : other ∈ (queue.inProgress.push queue.nextKey now { entry with startedAt := some now }).entries :=
        hother
      rw [Lane.entries_push, List.mem_append, List.mem_singleton] at hmem
      rcases hmem with hold | rfl
      · exact hlive _ hlook other hold
      · rcases queue.limits.scans_inProgress hlook with ⟨waiting, hwaiting, horigin, hsame, hdeadline⟩ | ⟨horigin, hpos⟩
        · have hentry : entry ∈ queue.occupants .pending := by simp [occupants, unstarted, hstack]
          have hwait := hlive _ hwaiting entry hentry
          simpa only [Scan.overdue, horigin, hsame, hdeadline, Entry.since] using hwait
        · simpa [Scan.overdue, horigin, Entry.since, elapsed] using hpos

theorem reading_eq {queue : Queue μ ρ} {frame : Frame μ ρ} {rest : List (Frame μ ρ)} {inquiry : Inquiry μ}
    (hstack : queue.stack = frame :: rest) (hinquiry : frame.inquiry? = some inquiry) (reading : Reading) :
    queue.reading? (.read reading) = some (inquiry, reading) := by
  rw [reading?, hstack, List.head?_cons, Option.bind_some, hinquiry, Option.map_some]

theorem Transition.sifting {queue next : Queue μ ρ} {move : Move μ ρ} {events : List (Event μ ρ)}
    (h : Transition queue move next events) (hordered : queue.Ordered) (hstacked : queue.Stacked)
    (hbusy : queue.busy = true) (hframes : queue.stack.any Frame.besidesTick = false) (hcalm : move.calm = true)
    {now : Instant} (hreading : ∀ answer ∈ queue.reading? move, answer.2 = .time now) (hs : queue.Sifting now) :
    next.Sifting now := by
  have hlimits := (h.settings_busy hbusy).1
  -- A step that takes no look and starts nothing.
  have hsame (hlooming : next.looming now = queue.looming now) (hunstarted : next.unstarted = queue.unstarted)
      (htrims : queue.inProgress.Trims next.inProgress) : next.Sifting now :=
    hs.of_subset hlimits (by rw [hlooming]; exact List.Subset.refl _)
      (by rw [hunstarted]; exact List.Subset.refl _) htrims.entries.subset
  cases h with
  | scan hstack => exact hs.scan hordered hstacked hstack
  | start time hstack =>
      cases hreading _ (reading_eq hstack rfl _)
      exact hs.start hstacked hstack
  | sweep time hstack =>
      cases hreading _ (reading_eq hstack rfl _)
      exact hsame (by simp [looming, hstack]) (by simp [unstarted, hstack]) (.refl _)
  | sweepUnread fault hstack | startUnread fault hstack =>
      cases hreading _ (reading_eq hstack rfl _)
  | retire hstack =>
      refine hsame ?_ ?_ (by simpa using .refl _)
      · rw [looming_raise]
        simp [looming, hstack]
      · rw [unstarted_raise]
        simp [unstarted, hstack]
  | @pop bound entry rest hstack hpop =>
      refine hsame (by simp [looming, hstack]) ?_ (.refl _)
      have hentries := queue.pending.entries_eq_cons_of_popFront bound entry hpop
      simp [unstarted, hstack, unstarted_of_not_holdsQueue rest (hstacked.fits hstack).1, hentries]
  | @complete token =>
      refine hsame ?_ ?_ (by simpa using Lane.trims_remove _ token.key)
      · rw [looming_raise]
        simp [looming]
      · rw [unstarted_raise]
        simp [unstarted]
  | @completeLate token => exact hsame rfl rfl (Lane.trims_remove _ token.key)
  | @finish frame rest hstack huser =>
      refine hsame ?_ ?_ (.refl _)
      · cases frame <;> simp_all [looming, Frame.isUser]
      · cases frame <;> simp_all [unstarted, Frame.isUser]
  | cancel hstack | accept time hstack => simp [hstack, Frame.besidesTick] at hframes
  | clockPanic | panic => exact absurd hcalm Bool.false_ne_true
  | _ =>
      first
        | exact hsame rfl rfl (.refl _)
        | exact hsame (by simp_all [looming]) (by simp_all [unstarted]) (.refl _)
        | simp_all

theorem readings_cons_forall {queue : Queue μ ρ} {move : Move μ ρ} {moves : List (Move μ ρ)}
    {P : Inquiry μ × Reading → Prop} (h : ∀ answer ∈ queue.readings (move :: moves), P answer) :
    (∀ answer ∈ queue.reading? move, P answer) ∧ ∀ answer ∈ (queue.step move).1.readings moves, P answer := by
  refine ⟨fun answer hanswer => h answer ?_, fun answer hanswer => h answer ?_⟩
  · exact List.mem_append_left _ (Option.mem_toList.2 hanswer)
  · exact List.mem_append_right _ hanswer

-- What is kept while a tick lasts.
theorem run_sifting {queue : Queue μ ρ} (hordered : queue.Ordered) (hstacked : queue.Stacked)
    (hframes : queue.stack.any Frame.besidesTick = false) {now : Instant} (hs : queue.Sifting now)
    {moves : List (Move μ ρ)} (hoccupied : queue.occupied moves = true) (hcalm : ∀ move ∈ moves, move.calm = true)
    (hreadings : ∀ answer ∈ queue.readings moves, answer.2 = .time now) :
    (queue.run moves).1.Sifting now ∧ (queue.run moves).1.dropped = queue.dropped := by
  induction moves generalizing queue with
  | nil => exact ⟨hs, rfl⟩
  | cons move moves ih =>
      obtain ⟨hbusy, hoccupied⟩ := Bool.and_eq_true_iff.mp hoccupied
      obtain ⟨hreading, hreadings⟩ := readings_cons_forall hreadings
      have hstep := transition_step queue move
      have hnext := hstep.sifting hordered hstacked hbusy hframes (hcalm move List.mem_cons_self) hreading hs
      obtain ⟨hlast, hdropped⟩ := ih (ordered_step hordered move) (hstep.stacked hstacked)
        (hstep.besidesTick hbusy hframes) hnext hoccupied
        (fun other hother => hcalm other (List.mem_cons_of_mem _ hother)) hreadings
      exact ⟨hlast, hdropped.trans (hstep.settings_busy hbusy).2⟩

-- The calls below one that no panic ends are still there when it has ended.
theorem stack_of_spans {queue : Queue μ ρ} {below : List (Frame μ ρ)} {moves : List (Move μ ρ)}
    (hbelow : below <:+ queue.stack) (hspans : queue.spans below.length moves = true)
    (hcalm : ∀ move ∈ moves, move.calm = true) : (queue.run moves).1.stack = below := by
  induction moves generalizing queue with
  | nil => exact (hbelow.eq_of_length_le (of_decide_eq_true hspans)).symm
  | cons move moves ih =>
      rw [spans, Bool.and_eq_true, decide_eq_true_eq] at hspans
      have hstays := (transition_step queue move).stays (hcalm move List.mem_cons_self) hbelow hspans.1
      exact ih hstays hspans.2 (fun other hother => hcalm other (List.mem_cons_of_mem _ hother))

-- What a tick leaves: nothing waits, and nothing in progress is overdue at its time.
structure Settled (queue : Queue μ ρ) (now : Instant) : Prop where
  pending : queue.pending.entries = []
  live : ∀ look ∈ queue.limits.scans, ∀ entry ∈ (queue.lane look.1).entries, look.2.overdue now entry = false

theorem Sound.tick_settles {queue : Queue μ ρ} {admitted : List (MessageId × μ)} {past : List (Event μ ρ)}
    (h : queue.Sound admitted past) (hturn : queue.turn = .user) (hfree : queue.busy = false)
    (halive : queue.dropped = false) {now : Instant} {during : List (Move μ ρ)}
    (hspans : (queue.step (.call .tick)).1.spans queue.stack.length during = true)
    (hcalm : ∀ move ∈ during, move.calm = true)
    (hreadings : ∀ answer ∈ queue.readings (.call .tick :: during), answer.2 = .time now) :
    (queue.run (.call .tick :: during)).1.Settled now ∧ (queue.run (.call .tick :: during)).1.stack = queue.stack ∧
      (queue.run (.call .tick :: during)).1.dropped = false := by
  obtain ⟨frame, hframe, hbase, hframes, htick⟩ := step_tick queue hturn hfree halive
  have hstarted : (queue.step (.call .tick)).1.Sound _ _ := h.step (.call .tick)
  have hreadings := (readings_cons_forall hreadings).2
  rw [run_cons]
  rw [htick] at hstarted hspans hreadings ⊢
  dsimp only at hreadings ⊢
  have hlast : ∀ last ∈ during.getLast?, last.calm = true := fun last hlast =>
    hcalm last (List.mem_of_getLast? hlast)
  obtain ⟨-, hpending, -⟩ := hstarted.run_tick (List.nil_append _).symm hbase hfree hframes hspans hlast
  obtain ⟨hoccupied, -⟩ := occupied_of_spans (List.nil_append _).symm hbase hspans
  have hstack := stack_of_spans (List.suffix_cons frame queue.stack) hspans hcalm
  have hsifting : ({ queue with stack := frame :: queue.stack } : Queue μ ρ).Sifting now := by
    intro look hlook
    rcases hframe with rfl | ⟨hnone, -⟩
    · left
      simpa [looming] using .inl hlook
    · rw [hnone] at hlook
      cases hlook
  obtain ⟨hsifted, hdropped⟩ := run_sifting hstarted.ordered hstarted.stacked hframes hsifting hoccupied hcalm hreadings
  refine ⟨⟨hpending, fun look hlook => ?_⟩, hstack, hdropped.trans halive⟩
  have hlive := (hsifted look hlook).resolve_left (by
    rw [looming, hstack, looming_of_not_holdsQueue now queue.stack hfree]
    exact List.not_mem_nil)
  obtain ⟨name, scan⟩ := look
  cases name with
  | pending =>
      rw [lane_pending, hpending]
      exact fun entry hentry => absurd hentry List.not_mem_nil
  | inProgress => exact hlive

-- The calls of a tick at `now` that finds nothing to do.
inductive Idling (limits : Limits) (now : Instant) : List (Frame μ ρ) → Prop where
  | sweeping {scans : List (LaneName × Scan)} (hscans : scans ⊆ limits.scans) : Idling limits now [.sweeping scans]
  | scanning {scans : List (LaneName × Scan)} (hscans : scans ⊆ limits.scans) : Idling limits now [.scanning now scans]
  | retiring {name : LaneName} {scans : List (LaneName × Scan)} (hscans : scans ⊆ limits.scans) :
      Idling limits now [.retiring name [], .scanning now scans]
  | gathering : Idling limits now [.gathering]

theorem Idling.ne_nil {limits : Limits} {now : Instant} {above : List (Frame μ ρ)} (h : Idling limits now above) :
    above ≠ [] := by
  cases h with
  | _ => exact List.cons_ne_nil _ _

-- A look for which nothing is overdue leaves its lane as it is.
theorem Settled.takeOverdue {queue : Queue μ ρ} {now : Instant} (h : queue.Settled now) (hordered : queue.Ordered)
    {look : LaneName × Scan} (hlook : look ∈ queue.limits.scans) :
    (queue.lane look.1).takeOverdue look.2 now = ([], queue.lane look.1) := by
  have hlane := hordered.lane look.1
  have hlive : ∀ slot ∈ (queue.lane look.1).slots, look.2.overdue now slot.entry = false :=
    fun slot hslot => h.live look hlook slot.entry (List.mem_map_of_mem hslot)
  have hnone : (queue.lane look.1).entries.filter (look.2.overdue now) = [] := by
    rw [List.filter_eq_nil_iff]
    intro entry hentry
    simp [h.live look hlook entry hentry]
  have hall : (queue.lane look.1).slots.filter (fun slot => !look.2.overdue now slot.entry) =
      (queue.lane look.1).slots := by
    rw [List.filter_eq_self]
    intro slot hslot
    simp [hlive slot hslot]
  rw [hlane.takeOverdue look.2 now (queue.limits.scans_fair look hlook).origin_of_hasty, hnone, hall, hlane.settle_eq]

-- The queue with these calls made on top of those that are running.
def calling (queue : Queue μ ρ) (above : List (Frame μ ρ)) : Queue μ ρ :=
  { queue with stack := above ++ queue.stack }

theorem Settled.step_scan {queue : Queue μ ρ} {now : Instant} (h : queue.Settled now) (hordered : queue.Ordered)
    {look : LaneName × Scan} (hlook : look ∈ queue.limits.scans) (scans : List (LaneName × Scan)) :
    (queue.calling [.scanning now (look :: scans)]).step .advance =
      (queue.calling [.retiring look.1 [], .scanning now scans], []) := by
  have htake := h.takeOverdue hordered hlook
  obtain ⟨name, scan⟩ := look
  have hscan := (Transition.scan (rfl : (queue.calling [.scanning now ((name, scan) :: scans)]).stack = _)).step_eq
  rw [hscan]
  cases name with
  | pending =>
      have hpending : (queue.calling [.scanning now ((.pending, scan) :: scans)]).lane .pending = queue.lane .pending :=
        rfl
      rw [hpending, htake]
      rfl
  | inProgress =>
      have hinProgress : (queue.calling [.scanning now ((.inProgress, scan) :: scans)]).lane .inProgress =
          queue.lane .inProgress := rfl
      rw [hinProgress, htake]
      rfl

-- A step of such a tick brings it nearer to its end and does nothing else.
theorem Idling.step {queue : Queue μ ρ} {now : Instant} (hsettled : queue.Settled now) (hordered : queue.Ordered)
    {above : List (Frame μ ρ)} (h : Idling queue.limits now above) (move : Move μ ρ)
    (hreading : ∀ answer ∈ (queue.calling above).reading? move, answer.2 = .time now) :
    (∃ next, Idling queue.limits now next ∧ (queue.calling above).step move = (queue.calling next, [])) ∨
      (queue.calling above).step move = (queue, [.returned .done]) := by
  by_cases hawaits : (queue.calling above).Awaits move
  case neg => exact .inl ⟨above, h, step_of_not_awaits _ move hawaits⟩
  cases h with
  | @sweeping scans hscans =>
      obtain ⟨reading, rfl⟩ := exists_read_of_awaits rfl hawaits
      cases hreading _ (reading_eq rfl rfl _)
      exact .inl ⟨_, .scanning hscans, (Transition.sweep now rfl).step_eq⟩
  | @scanning scans hscans =>
      obtain rfl := eq_advance_of_awaits rfl hawaits
      cases scans with
      | nil => exact .inl ⟨_, .gathering, (Transition.scannedAll rfl).step_eq⟩
      | cons look scans =>
          obtain ⟨hlook, hscans⟩ := List.cons_subset.1 hscans
          exact .inl ⟨_, .retiring hscans, hsettled.step_scan hordered hlook scans⟩
  | @retiring name scans hscans =>
      obtain rfl := eq_advance_of_awaits rfl hawaits
      exact .inl ⟨_, .scanning hscans, (Transition.retiredAll rfl).step_eq⟩
  | gathering =>
      obtain rfl := eq_advance_of_awaits rfl hawaits
      have hdone : Transition (queue.calling [.gathering]) .advance queue [.returned .done] :=
        .nothingPending rfl ((Lane.lastKey_eq_none_iff _).2 hsettled.pending)
      exact .inr hdone.step_eq

theorem Idling.run {queue : Queue μ ρ} {now : Instant} (hsettled : queue.Settled now) (hordered : queue.Ordered)
    {above : List (Frame μ ρ)} (h : Idling queue.limits now above) {moves : List (Move μ ρ)}
    (hspans : (queue.calling above).spans queue.stack.length moves = true)
    (hreadings : ∀ answer ∈ (queue.calling above).readings moves, answer.2 = .time now) :
    (queue.calling above).run moves = (queue, [.returned .done]) := by
  induction moves generalizing above with
  | nil =>
      have hlength := length_of_spans hspans
      rw [run_nil, calling, List.length_append] at hlength
      exact absurd (List.length_eq_zero_iff.1 (by omega)) h.ne_nil
  | cons move moves ih =>
      obtain ⟨hreading, hreadings⟩ := readings_cons_forall hreadings
      rw [spans, Bool.and_eq_true] at hspans
      rcases h.step hsettled hordered move hreading with ⟨next, hnext, hstep⟩ | hstep
      · rw [hstep] at hspans hreadings
        rw [run_cons, hstep, ih hnext hspans.2 hreadings]
        rfl
      · rw [hstep] at hspans
        obtain rfl := eq_nil_of_spans hspans.2 (Nat.le_refl _)
        rw [run_cons, hstep]
        rfl

theorem Settled.run_tick {queue : Queue μ ρ} {now : Instant} (h : queue.Settled now) (hordered : queue.Ordered)
    (hturn : queue.turn = .user) (hfree : queue.busy = false) (halive : queue.dropped = false)
    {during : List (Move μ ρ)} (hspans : (queue.step (.call .tick)).1.spans queue.stack.length during = true)
    (hreadings : ∀ answer ∈ queue.readings (.call .tick :: during), answer.2 = .time now) :
    queue.run (.call .tick :: during) = (queue, [.returned .done]) := by
  obtain ⟨frame, hframe, -, -, htick⟩ := step_tick queue hturn hfree halive
  have hidling : Idling queue.limits now [frame] := by
    rcases hframe with rfl | ⟨-, rfl⟩
    · exact .sweeping (List.Subset.refl _)
    · exact .gathering
  have hreadings := (readings_cons_forall hreadings).2
  rw [htick] at hspans hreadings
  rw [run_cons, htick]
  exact hidling.run h hordered hspans hreadings

theorem readings_of_time (queue : Queue μ ρ) {now : Instant} {moves : List (Move μ ρ)}
    (hmoves : ∀ move ∈ moves, move = .advance ∨ move = .read (.time now) ∨ move = .finish) :
    ∀ answer ∈ queue.readings moves, answer.2 = .time now := by
  induction moves generalizing queue with
  | nil => exact fun answer hanswer => absurd hanswer List.not_mem_nil
  | cons move moves ih =>
      obtain ⟨hmove, hmoves⟩ := List.forall_mem_cons.1 hmoves
      intro answer hanswer
      rcases List.mem_append.1 hanswer with hfirst | hrest
      · rcases hmove with rfl | rfl | rfl
        · cases hfirst
        · obtain ⟨inquiry, -, rfl⟩ := Option.map_eq_some_iff.1 (Option.mem_toList.1 hfirst)
          rfl
        · cases hfirst
      · exact ih _ hmoves answer hrest

-- A tick repeated at the same instant does nothing. Whatever was running when the first one was
-- called and whatever its callbacks do, the second one comes to its end, reports nothing and leaves
-- the queue as it was.
theorem run_repeats (settings : Settings) (observed : Bool) (past : List (Move μ ρ)) :
    let queue := ((make settings observed).run past).1
    queue.turn = .user → queue.busy = false → queue.dropped = false →
      ∀ now first, (queue.step (.call .tick)).1.spans queue.stack.length first = true →
        (∀ move ∈ first, move.calm = true) →
        (∀ answer ∈ queue.readings (.call .tick :: first), answer.2 = .time now) →
        let next := (queue.run (.call .tick :: first)).1
        (∃ second, (next.step (.call .tick)).1.spans queue.stack.length second = true ∧
          ∀ answer ∈ next.readings (.call .tick :: second), answer.2 = .time now) ∧
        ∀ second, (next.step (.call .tick)).1.spans queue.stack.length second = true →
          (∀ answer ∈ next.readings (.call .tick :: second), answer.2 = .time now) →
          next.run (.call .tick :: second) = (next, [.returned .done]) := by
  intro queue hturn hfree halive now first hspans hcalm hreadings next
  have hs : queue.Sound _ _ := sound_run settings observed past
  obtain ⟨hsettled, hstack, hdropped⟩ := hs.tick_settles hturn hfree halive hspans hcalm hreadings
  have hnext : next.Sound _ _ := hs.run (.call .tick :: first)
  rw [← hstack]
  constructor
  · obtain ⟨second, hmoves, hsecond⟩ := (next.step (.call .tick)).1.exists_spans
      (hnext.step (.call .tick)).stacked next.stack.length now
    exact ⟨second, hsecond, (next.step (.call .tick)).1.readings_of_time hmoves⟩
  · intro second hsecond hanswers
    have hturnNext : next.turn = .user := by
      rw [turn_eq_user_iff, hstack]
      exact (turn_eq_user_iff queue).1 hturn
    have hfreeNext : next.busy = false := by
      rw [busy, hstack]
      exact hfree
    exact hsettled.run_tick hnext.ordered hturnNext hfreeNext hdropped hsecond hanswers

-- Two messages in progress since 6, and one that the clock, set back, admits at 4.
def busySinceSix : List (Move String String) :=
  [.call (.enqueue "a"), .read (.time 0), .call (.enqueue "b"), .read (.time 5), .call .tick, .read (.time 6),
    .advance, .advance, .advance, .advance, .advance, .advance, .advance, .advance, .advance, .read (.time 6), .finish,
    .advance, .read (.time 6), .finish, .advance, .call (.enqueue "c"), .read (.time 4)]

-- A tick at 12. When the first message has timed out, the notifier reports the outcome of the second
-- one, which would have been the next to time out. Then the third one is dispatched.
def reportedInSweep : List (Move String String) :=
  [.read (.time 12), .advance, .advance, .advance, .advance, .advance, .call (.complete ⟨3, ⟨1⟩⟩ .success none),
    .advance, .finish, .advance, .finish, .advance, .advance, .advance, .advance, .advance, .advance, .advance,
    .read (.time 12), .finish, .advance]

def againAtTwelve : List (Move String String) :=
  [.read (.time 12), .advance, .advance, .advance, .advance, .advance, .advance, .advance, .advance]

theorem run_repeats_reportedInSweep :
    let settings : Settings := { limits := { wait := some 10, processing := some 5 } }
    let queue : Queue String String := ((make settings true).run busySinceSix).1
    let next := (queue.run (.call .tick :: reportedInSweep)).1
    queue.turn = .user ∧ queue.busy = false ∧ queue.dropped = false ∧
      (queue.step (.call .tick)).1.spans 0 reportedInSweep = true ∧ (∀ move ∈ reportedInSweep, move.calm = true) ∧
      (∀ answer ∈ queue.readings (.call .tick :: reportedInSweep), answer.2 = .time 12) ∧
      (next.step (.call .tick)).1.spans 0 againAtTwelve = true ∧
      (∀ answer ∈ next.readings (.call .tick :: againAtTwelve), answer.2 = .time 12) ∧
      next.inProgress.latest = some 12 ∧ next.run (.call .tick :: againAtTwelve) = (next, [.returned .done]) := by
  intro settings queue next
  have hspans : (queue.step (.call .tick)).1.spans 0 reportedInSweep = true := by decide
  have hcalm : ∀ move ∈ reportedInSweep, move.calm = true := by decide
  have hreadings : ∀ answer ∈ queue.readings (.call .tick :: reportedInSweep), answer.2 = .time 12 := by decide
  have hsecond : (next.step (.call .tick)).1.spans 0 againAtTwelve = true := by decide
  have hanswers : ∀ answer ∈ next.readings (.call .tick :: againAtTwelve), answer.2 = .time 12 := by decide
  have h := run_repeats settings true busySinceSix rfl rfl rfl 12 reportedInSweep hspans hcalm hreadings
  have hturn : queue.turn = .user := by decide
  have hbusy : queue.busy = false := by decide
  have hdropped : queue.dropped = false := by rfl
  have hlatest : next.inProgress.latest = some 12 := by decide
  have hrun := h.2 againAtTwelve hsecond hanswers
  exact ⟨hturn, hbusy, hdropped, hspans, hcalm, hreadings, hsecond, hanswers, hlatest, hrun⟩

end Queue

end DeadlineQueue
