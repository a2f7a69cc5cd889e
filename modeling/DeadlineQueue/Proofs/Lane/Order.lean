import DeadlineQueue.Lane.Lemmas

namespace DeadlineQueue

variable {μ : Type}

-- The moment whose stamps order a lane.
def LaneName.origin : LaneName → Origin
  | .pending => .admission
  | .inProgress => .start

-- An entry does not come after another one in time.
def Entry.NotAfter (origin : Origin) (first second : Entry μ) : Prop :=
  ∀ early ∈ first.since origin, ∀ late ∈ second.since origin, early ≤ late

theorem elapsed_anti (now early late : Instant) (h : early ≤ late) : elapsed late now ≤ elapsed early now :=
  Int.toNat_le_toNat (Int.sub_le_sub_left h now)

-- Of two entries the earlier one is overdue first.
theorem Scan.overdue_of_notAfter (scan : Scan) (now : Instant) (first second : Entry μ)
    (horder : first.NotAfter scan.origin second) (hstamped : (first.since scan.origin).isSome)
    (hsecond : scan.overdue now second = true) : scan.overdue now first = true := by
  obtain ⟨early, hearly⟩ := Option.isSome_iff_exists.mp hstamped
  cases hlate : second.since scan.origin with
  | none => simp [Scan.overdue, hlate] at hsecond
  | some late =>
      have hle := elapsed_anti now early late (horder early hearly late hlate)
      simp only [Scan.overdue, hlate, hearly, decide_eq_true_eq] at hsecond ⊢
      exact Nat.le_trans hsecond hle

namespace Lane

-- What holds of a lane at all times: the keys grow, every entry has the stamp it was pushed with,
-- none later than the latest one, an ordered lane is ordered by stamp, and an empty lane is as new.
structure Sound (lane : Lane μ) (origin : Origin) : Prop where
  keys : lane.slots.Pairwise (fun first second => first.key < second.key)
  stamped : ∀ slot ∈ lane.slots, ∃ stamp latest,
    slot.entry.since origin = some stamp ∧ lane.latest = some latest ∧ stamp ≤ latest
  sorted : lane.ordered = true →
    lane.slots.Pairwise (fun first second => first.entry.NotAfter origin second.entry)
  fresh : lane.slots = [] → lane = {}

theorem Sound.empty (origin : Origin) : Sound ({} : Lane μ) origin where
  keys := .nil
  stamped := by simp
  sorted := fun _ => .nil
  fresh := fun _ => rfl

-- A lane from which some entries were taken away.
structure Trims (lane next : Lane μ) : Prop where
  slots : next.slots.Sublist lane.slots
  rest : next = lane ∨ next = settle { lane with slots := next.slots }

theorem Trims.refl (lane : Lane μ) : Trims lane lane :=
  ⟨List.Sublist.refl _, .inl rfl⟩

theorem trims_settle (lane : Lane μ) (slots : List (Slot μ)) (h : slots.Sublist lane.slots) :
    Trims lane (settle { lane with slots }) := by
  have hslots : (settle { lane with slots }).slots = slots := slots_settle _
  exact ⟨by rw [hslots]; exact h, .inr (by rw [hslots])⟩

theorem trims_clear (lane : Lane μ) : Trims lane {} := by
  have h := trims_settle lane [] (List.nil_sublist _)
  rwa [settle_of_slots_eq_nil _ rfl] at h

theorem trims_remove (lane : Lane μ) (key : Nat) : Trims lane (lane.remove key).2 :=
  trims_settle lane _ List.filter_sublist

theorem trims_popFront (lane : Lane μ) (bound : Nat) : Trims lane (lane.popFront bound).2 := by
  unfold popFront
  split
  · exact Trims.refl lane
  · rename_i slot rest hslots
    split
    · exact trims_settle lane rest (hslots ▸ List.sublist_cons_self slot rest)
    · exact Trims.refl lane

theorem trims_takeOverdue (lane : Lane μ) (scan : Scan) (now : Instant) :
    Trims lane (lane.takeOverdue scan now).2 := by
  rw [takeOverdue_snd]
  apply trims_settle
  have h : ((lane.reach scan now).1.filter (fun slot => !scan.overdue now slot.entry) ++
      (lane.reach scan now).2).Sublist ((lane.reach scan now).1 ++ (lane.reach scan now).2) :=
    List.filter_sublist.append (List.Sublist.refl _)
  rwa [reach_append] at h

theorem Sound.trims {lane next : Lane μ} {origin : Origin} (hsound : lane.Sound origin) (h : Trims lane next) :
    next.Sound origin := by
  obtain ⟨hslots, rfl | hrest⟩ := h
  · exact hsound
  rw [hrest]
  generalize next.slots = slots at hslots
  by_cases hnil : slots = []
  · rw [settle_of_slots_eq_nil _ hnil]
    exact Sound.empty origin
  · rw [settle_of_slots_ne_nil _ hnil]
    exact {
      keys := hsound.keys.sublist hslots
      stamped := fun slot hslot => hsound.stamped slot (hslots.subset hslot)
      sorted := fun hordered => (hsound.sorted hordered).sublist hslots
      fresh := fun h => absurd h hnil }

-- Taking nothing away leaves the whole lane as it is.
theorem Sound.settle_eq {lane : Lane μ} {origin : Origin} (hsound : lane.Sound origin) : lane.settle = lane := by
  by_cases hnil : lane.slots = []
  · rw [settle_of_slots_eq_nil _ hnil, hsound.fresh hnil]
  · exact settle_of_slots_ne_nil _ hnil

-- Looking for a key that is not there leaves the lane as it is.
theorem Sound.remove_of_none {lane : Lane μ} {origin : Origin} (hsound : lane.Sound origin) (key : Nat)
    (h : (lane.remove key).1 = none) : (lane.remove key).2 = lane := by
  have hslots := lane.slots_remove_of_none key h
  rw [slots_remove] at hslots
  unfold remove
  rw [hslots]
  exact hsound.settle_eq

theorem Sound.push {lane : Lane μ} {origin : Origin} (hsound : lane.Sound origin) (key : Nat) (stamp : Instant)
    (entry : Entry μ) (hkey : ∀ slot ∈ lane.slots, slot.key < key) (hstamp : entry.since origin = some stamp) :
    (lane.push key stamp entry).Sound origin where
  keys := by
    simp only [Lane.push, List.pairwise_append]
    exact ⟨hsound.keys, List.pairwise_singleton _ _, by simpa using hkey⟩
  stamped := by
    intro slot hslot
    simp only [Lane.push, List.mem_append, List.mem_singleton] at hslot ⊢
    rcases hslot with hslot | rfl
    · obtain ⟨old, latest, hold, hlatest, hle⟩ := hsound.stamped slot hslot
      refine ⟨old, _, hold, rfl, ?_⟩
      simp only [hlatest]
      exact Int.le_trans hle (Int.le_max_left latest stamp)
    · refine ⟨stamp, _, hstamp, rfl, ?_⟩
      cases lane.latest with
      | none => exact Int.le_refl _
      | some latest => exact Int.le_max_right latest stamp
  sorted := by
    intro hordered
    simp only [Lane.push, Bool.and_eq_true, Bool.not_eq_true'] at hordered
    obtain ⟨hordered, hforward⟩ := hordered
    simp only [Lane.push, List.pairwise_append]
    refine ⟨hsound.sorted hordered, List.pairwise_singleton _ _, ?_⟩
    intro slot hslot last hlast early hearly late hlate
    rw [List.mem_singleton.mp hlast, Option.mem_def, hstamp, Option.some.injEq] at hlate
    obtain ⟨old, latest, hold, hlatest, hle⟩ := hsound.stamped slot hslot
    rw [Option.mem_def, hold, Option.some.injEq] at hearly
    simp only [turnsBack, hlatest, hordered, Bool.true_and, decide_eq_false_iff_not] at hforward
    rw [← hearly, ← hlate]
    exact Int.le_trans hle (Int.not_lt.mp hforward)
  fresh := by simp [Lane.push]

theorem key_lt_push {lane : Lane μ} {key : Nat} (h : ∀ slot ∈ lane.slots, slot.key < key) (stamp : Instant)
    (entry : Entry μ) : ∀ slot ∈ (lane.push key stamp entry).slots, slot.key < key + 1 := by
  intro slot hslot
  rcases List.mem_append.mp hslot with hslot | hslot
  · exact Nat.lt_succ_of_lt (h slot hslot)
  · rw [List.mem_singleton.mp hslot]
    exact Nat.lt_succ_self key

-- The last key is the largest.
theorem Sound.key_le_lastKey {lane : Lane μ} {origin : Origin} (hsound : lane.Sound origin) (bound : Nat)
    (h : lane.lastKey? = some bound) : ∀ slot ∈ lane.slots, slot.key ≤ bound := by
  obtain ⟨last, hlast, rfl⟩ := Option.map_eq_some_iff.mp h
  obtain ⟨slots, hslots⟩ := List.getLast?_eq_some_iff.mp hlast
  have hkeys := hslots ▸ hsound.keys
  intro slot hslot
  rw [hslots, List.mem_append, List.mem_singleton] at hslot
  rcases hslot with hslot | rfl
  · exact Nat.le_of_lt ((List.pairwise_append.mp hkeys).2.2 slot hslot last (List.mem_singleton_self last))
  · exact Nat.le_refl _

-- On a list ordered by stamp a scan that stops at the first live entry has seen every overdue one.
theorem takeWhile_overdue (slots : List (Slot μ)) (scan : Scan) (now : Instant)
    (hstamped : ∀ slot ∈ slots, (slot.entry.since scan.origin).isSome)
    (hsorted : slots.Pairwise (fun first second => first.entry.NotAfter scan.origin second.entry)) :
    slots.takeWhile (fun slot => !scan.live now slot.entry) =
        slots.filter (fun slot => scan.overdue now slot.entry) ∧
      slots.dropWhile (fun slot => !scan.live now slot.entry) =
        slots.filter (fun slot => !scan.overdue now slot.entry) := by
  induction slots with
  | nil => exact ⟨rfl, rfl⟩
  | cons slot rest ih =>
      obtain ⟨hfirst, hrest⟩ := List.pairwise_cons.mp hsorted
      have hslot := hstamped slot List.mem_cons_self
      have hlive : (!scan.live now slot.entry) = scan.overdue now slot.entry := by simp [Scan.live, hslot]
      obtain ⟨ihtake, ihdrop⟩ := ih (fun other hother => hstamped other (List.mem_cons_of_mem _ hother)) hrest
      cases hoverdue : scan.overdue now slot.entry with
      | true => simp [hlive, hoverdue, ihtake, ihdrop]
      | false =>
          -- Nothing behind a live entry is overdue.
          have hnone : ∀ other ∈ rest, scan.overdue now other.entry = false := by
            intro other hother
            rw [← Bool.not_eq_true]
            intro hlater
            have h := scan.overdue_of_notAfter now slot.entry other.entry (hfirst other hother) hslot hlater
            rw [hoverdue] at h
            exact Bool.false_ne_true h
          have htake : rest.filter (fun slot => scan.overdue now slot.entry) = [] := by
            rw [List.filter_eq_nil_iff]
            intro other hother
            simp [hnone other hother]
          have hdrop : rest.filter (fun slot => !scan.overdue now slot.entry) = rest := by
            rw [List.filter_eq_self]
            intro other hother
            simp [hnone other hother]
          simp [hlive, hoverdue, htake, hdrop]

-- A hasty scan by the stamp that orders the lane takes what a scan of the whole lane takes.
theorem Sound.takeOverdue {lane : Lane μ} {origin : Origin} (hsound : lane.Sound origin) (scan : Scan)
    (now : Instant) (hscan : scan.hasty = true → scan.origin = origin) :
    lane.takeOverdue scan now =
      (lane.entries.filter (scan.overdue now),
        settle { lane with slots := lane.slots.filter (fun slot => !scan.overdue now slot.entry) }) := by
  have hmap : lane.entries.filter (scan.overdue now) =
      (lane.slots.filter (fun slot => scan.overdue now slot.entry)).map (·.entry) := by
    rw [entries, List.filter_map]
    rfl
  rw [hmap]
  unfold Lane.takeOverdue reach
  by_cases hhasty : (scan.hasty && lane.ordered) = true
  · obtain ⟨hhasty', hordered⟩ := Bool.and_eq_true_iff.mp hhasty
    obtain rfl := hscan hhasty'
    have hstamped : ∀ slot ∈ lane.slots, (slot.entry.since scan.origin).isSome := by
      intro slot hslot
      obtain ⟨stamp, _, hstamp, _⟩ := hsound.stamped slot hslot
      simp [hstamp]
    obtain ⟨htake, hdrop⟩ := takeWhile_overdue lane.slots scan now hstamped (hsound.sorted hordered)
    have hnone : (lane.slots.filter (fun slot => scan.overdue now slot.entry)).filter
        (fun slot => !scan.overdue now slot.entry) = [] := by
      rw [List.filter_eq_nil_iff]
      intro slot hslot
      simp [(List.mem_filter.mp hslot).2]
    simp [hhasty, List.partition_eq_filter_filter, Function.comp_def, htake, hdrop, hnone]
  · simp [hhasty, List.partition_eq_filter_filter, Function.comp_def]

theorem Sound.entries_takeOverdue {lane : Lane μ} {origin : Origin} (hsound : lane.Sound origin) (scan : Scan)
    (now : Instant) (hscan : scan.hasty = true → scan.origin = origin) :
    (lane.takeOverdue scan now).2.entries = lane.entries.filter (fun entry => !scan.overdue now entry) := by
  rw [hsound.takeOverdue scan now hscan, entries, slots_settle, entries, List.filter_map]
  rfl

end Lane

end DeadlineQueue
