import DeadlineQueue.Proofs.Tokens
import Mathlib.Data.List.Find

namespace DeadlineQueue.Queue

variable {μ ρ : Type}

-- All that holds of a state and its past after any run, panics and drops included.
structure Sound (queue : Queue μ ρ) (admitted : List (MessageId × μ)) (events : List (Event μ ρ)) : Prop where
  ordered : queue.Ordered
  stacked : queue.Stacked
  bounded : queue.Bounded
  numbered : queue.Numbered admitted events
  traced : queue.Traced admitted events

theorem sound_make (settings : Settings) (observed : Bool) : (make settings observed : Queue μ ρ).Sound [] [] where
  ordered := .make settings observed
  stacked := .make settings observed
  bounded := by simp [Bounded, bounds, make]
  numbered := .make settings observed
  traced := .make settings observed

theorem Sound.step {queue : Queue μ ρ} {admitted : List (MessageId × μ)} {events : List (Event μ ρ)}
    (h : queue.Sound admitted events) (move : Move μ ρ) :
    (queue.step move).1.Sound (admitted ++ queue.accepted (queue.step move).2) (events ++ (queue.step move).2) where
  ordered := ordered_step h.ordered move
  stacked := (transition_step queue move).stacked h.stacked
  bounded := h.bounded.step h.ordered h.stacked move
  numbered := h.numbered.step move
  traced := h.traced.step h.stacked move

theorem Sound.run {queue : Queue μ ρ} {admitted : List (MessageId × μ)} {past : List (Event μ ρ)}
    (h : queue.Sound admitted past) (moves : List (Move μ ρ)) :
    (queue.run moves).1.Sound (admitted ++ queue.admissions moves) (past ++ (queue.run moves).2) :=
  run_invariant moves (fun _ _ _ move _ h => h.step move) queue admitted past h

theorem sound_run (settings : Settings) (observed : Bool) (moves : List (Move μ ρ)) :
    ((make settings observed).run moves).1.Sound ((make settings observed).admissions moves)
      ((make settings observed).run moves).2 :=
  (sound_make settings observed).run moves

theorem Reachable.sound {queue : Queue μ ρ} (h : queue.Reachable) :
    ∃ admitted events, queue.Sound admitted events := by
  obtain ⟨settings, observed, moves, rfl⟩ := h
  exact ⟨_, _, sound_run settings observed moves⟩

section Sound

variable {queue : Queue μ ρ} {admitted : List (MessageId × μ)} {events : List (Event μ ρ)}

-- No message is dispatched twice, and none that waits was dispatched before.
theorem Sound.ids_nodup (h : queue.Sound admitted events) :
    ((dispatches events).map (fun issue => issue.1.id) ++ queue.unstarted.map (fun entry => entry.id)).Nodup := by
  have hids := (h.traced.order.map Prod.fst).nodup h.numbered.nodup
  simpa [labelOf, Entry.labelled, Function.comp_def] using hids

theorem Sound.pending_ids_nodup (h : queue.Sound admitted events) :
    (queue.pending.entries.map (fun entry => entry.id)).Nodup := by
  have hids := (List.nodup_append.mp h.ids_nodup).2.1
  rw [unstarted, List.map_append] at hids
  exact (List.nodup_append.mp hids).2.1

theorem Sound.keys_nodup (h : queue.Sound admitted events) :
    ((dispatches events).map (fun issue => issue.1.key)).Nodup := by
  rw [List.Nodup, List.pairwise_map]
  exact h.traced.keys.imp Nat.ne_of_lt

-- Of what was dispatched the key tells the id, and the id tells the key.
theorem Sound.key_eq_iff_id_eq (h : queue.Sound admitted events) {first second : Token × μ}
    (hfirst : first ∈ dispatches events) (hsecond : second ∈ dispatches events) :
    first.1.key = second.1.key ↔ first.1.id = second.1.id := by
  have hids : ((dispatches events).map (fun issue => issue.1.id)).Nodup := (List.nodup_append.mp h.ids_nodup).1
  constructor
  · intro hkey
    rw [List.inj_on_of_nodup_map h.keys_nodup hfirst hsecond hkey]
  · intro hid
    rw [List.inj_on_of_nodup_map hids hfirst hsecond hid]

theorem Sound.exists_issue_of_held (h : queue.Sound admitted events) {token : Token} (htoken : token ∈ queue.held) :
    ∃ message, (token, message) ∈ dispatches events := by
  obtain ⟨⟨_, message⟩, hissue, rfl⟩ := List.mem_map.mp (h.traced.held.subset htoken)
  exact ⟨message, hissue⟩

theorem Sound.issue_mem (h : queue.Sound admitted events) {slot : Slot μ} (hslot : slot ∈ queue.inProgress.slots) :
    slot.issue ∈ dispatches events :=
  h.traced.tokens.subset (List.mem_map_of_mem hslot)

-- A token finds by its key the entry that has its id, and no other.
theorem Sound.slot_key_eq_iff (h : queue.Sound admitted events) {slot : Slot μ}
    (hslot : slot ∈ queue.inProgress.slots) {token : Token} {message : μ}
    (htoken : (token, message) ∈ dispatches events) : slot.key = token.key ↔ slot.entry.id = token.id :=
  h.key_eq_iff_id_eq (h.issue_mem hslot) htoken

theorem Sound.inProgress_ids_nodup (h : queue.Sound admitted events) :
    (queue.inProgress.entries.map (fun entry => entry.id)).Nodup := by
  have hids := (h.traced.tokens.map (fun issue => issue.1.id)).nodup (List.nodup_append.mp h.ids_nodup).1
  simpa [Lane.entries, Slot.issue, Function.comp_def] using hids

-- A token that was handed out is told from those that are still out by its id.
theorem Sound.eq_of_held (h : queue.Sound admitted events) {token : Token} {message : μ}
    (hissue : (token, message) ∈ dispatches events) : ∀ other ∈ queue.held, other.id = token.id → other = token := by
  intro other hother hid
  obtain ⟨_, hissued⟩ := h.exists_issue_of_held hother
  have hkey := (h.key_eq_iff_id_eq hissued hissue).mpr hid
  cases other
  cases token
  simp_all

section remove

variable {token : Token} {message : μ} (h : queue.Sound admitted events) (hissue : (token, message) ∈ dispatches events)
include h hissue

-- A report finds the entry with the id of its token, and takes away that entry only.
theorem Sound.remove_fst :
    (queue.inProgress.remove token.key).1 = queue.inProgress.entries.find? (fun entry => entry.id = token.id) := by
  have hkey : ∀ slot ∈ queue.inProgress.slots, decide (slot.key = token.key) = decide (slot.entry.id = token.id) := by
    intro slot hslot
    rw [decide_eq_decide]
    exact h.slot_key_eq_iff hslot hissue
  unfold Lane.remove
  rw [List.find?_congr hkey, Lane.entries, List.find?_map]
  rfl

theorem Sound.entries_remove :
    (queue.inProgress.remove token.key).2.entries =
      queue.inProgress.entries.filter (fun entry => entry.id ≠ token.id) := by
  have hkey : ∀ slot ∈ queue.inProgress.slots, decide (slot.key ≠ token.key) = decide (slot.entry.id ≠ token.id) := by
    intro slot hslot
    rw [decide_eq_decide]
    exact not_congr (h.slot_key_eq_iff hslot hissue)
  unfold Lane.entries
  rw [Lane.slots_remove, List.filter_congr hkey, List.filter_map]
  rfl

end remove

end Sound

end DeadlineQueue.Queue
