import DeadlineQueue.Lane

namespace DeadlineQueue.Lane

variable {μ : Type}

-- Forgetting the stamps does not touch the slots.
theorem slots_settle (lane : Lane μ) : lane.settle.slots = lane.slots := by
  unfold settle isEmpty
  split
  · rename_i h
    exact (List.isEmpty_iff.mp h).symm
  · rfl

theorem settle_of_slots_ne_nil (lane : Lane μ) (h : lane.slots ≠ []) : lane.settle = lane := by
  unfold settle isEmpty
  rw [if_neg (by simpa using h)]

theorem settle_of_slots_eq_nil (lane : Lane μ) (h : lane.slots = []) : lane.settle = {} := by
  unfold settle isEmpty
  rw [if_pos (by simp [h])]

@[simp] theorem entries_empty : ({} : Lane μ).entries = [] := rfl

theorem entries_push (lane : Lane μ) (key : Nat) (stamp : Instant) (entry : Entry μ) :
    (lane.push key stamp entry).entries = lane.entries ++ [entry] := by
  simp [push, entries]

theorem slots_remove (lane : Lane μ) (key : Nat) :
    (lane.remove key).2.slots = lane.slots.filter (fun slot => slot.key ≠ key) :=
  slots_settle _

-- A key that is not there leaves the slots as they are.
theorem slots_remove_of_not_contains (lane : Lane μ) (key : Nat) (h : lane.contains key = false) :
    (lane.remove key).2.slots = lane.slots := by
  rw [slots_remove, List.filter_eq_self]
  intro slot hs
  have hk := List.any_eq_false.mp h slot hs
  simpa using hk

theorem remove_fst_isSome (lane : Lane μ) (key : Nat) :
    (lane.remove key).1.isSome = lane.contains key := by
  unfold remove contains
  rw [Bool.eq_iff_iff]
  simp

theorem slots_remove_of_none (lane : Lane μ) (key : Nat) (h : (lane.remove key).1 = none) :
    (lane.remove key).2.slots = lane.slots := by
  apply slots_remove_of_not_contains
  rw [← remove_fst_isSome, h]
  rfl

@[simp] theorem clear_fst (lane : Lane μ) : lane.clear.1 = lane.entries := rfl

@[simp] theorem clear_snd (lane : Lane μ) : lane.clear.2 = {} :=
  settle_of_slots_eq_nil { lane with slots := [] } rfl

theorem lastKey_eq_none_iff (lane : Lane μ) : lane.lastKey? = none ↔ lane.entries = [] := by
  simp [lastKey?, entries]

theorem popFront_cons (lane : Lane μ) (bound : Nat) (slot : Slot μ) (rest : List (Slot μ))
    (h : lane.slots = slot :: rest) (hk : slot.key ≤ bound) :
    lane.popFront bound = (some slot.entry, settle { lane with slots := rest }) := by
  unfold popFront
  rw [h]
  exact if_pos hk

-- What is popped was the first.
theorem entries_eq_cons_of_popFront (lane : Lane μ) (bound : Nat) (entry : Entry μ)
    (h : (lane.popFront bound).1 = some entry) : lane.entries = entry :: (lane.popFront bound).2.entries := by
  unfold popFront at h ⊢
  split at h
  · simp at h
  · rename_i slot rest hslots
    split at h
    · rename_i hbound
      obtain rfl := Option.some.inj h
      simp [hslots, hbound, entries, slots_settle]
    · simp at h

-- What a scan takes and what it leaves, said of the part that it looks at.
theorem takeOverdue_fst (lane : Lane μ) (scan : Scan) (now : Instant) :
    (lane.takeOverdue scan now).1 =
      ((lane.reach scan now).1.filter (fun slot => scan.overdue now slot.entry)).map (·.entry) := by
  simp [takeOverdue, List.partition_eq_filter_filter]

theorem takeOverdue_snd (lane : Lane μ) (scan : Scan) (now : Instant) :
    (lane.takeOverdue scan now).2 = settle { lane with
      slots := (lane.reach scan now).1.filter (fun slot => !scan.overdue now slot.entry) ++
        (lane.reach scan now).2 } := by
  simp [takeOverdue, List.partition_eq_filter_filter, Function.comp_def]

theorem slots_takeOverdue (lane : Lane μ) (scan : Scan) (now : Instant) :
    (lane.takeOverdue scan now).2.slots =
      (lane.reach scan now).1.filter (fun slot => !scan.overdue now slot.entry) ++
        (lane.reach scan now).2 := by
  rw [takeOverdue_snd, slots_settle]

-- The two parts of a lane that a scan sees and does not see make up the lane.
theorem reach_append (lane : Lane μ) (scan : Scan) (now : Instant) :
    (lane.reach scan now).1 ++ (lane.reach scan now).2 = lane.slots := by
  unfold reach
  split
  · exact List.takeWhile_append_dropWhile
  · simp

end DeadlineQueue.Lane
