import DeadlineQueue.Proofs.Ordered
import Mathlib.Data.List.Nodup

namespace DeadlineQueue.Queue

variable {μ ρ : Type}

theorem accepted_eq_nil (queue : Queue μ ρ) (events : List (Event μ ρ)) (h : events.filterMap Event.admitted? = []) :
    queue.accepted events = [] := by
  rw [accepted, h, List.flatMap_nil]

theorem accepted_eq_singleton (queue : Queue μ ρ) (events : List (Event μ ρ)) {message : μ} {rest : List (Frame μ ρ)}
    {id : MessageId} (hstack : queue.stack = .enqueuing message :: rest)
    (h : events.filterMap Event.admitted? = [id]) : queue.accepted events = [(id, message)] := by
  simp [accepted, h, hstack]

-- Ids are given out in the order of admission, and they are the ids that enqueue returned.
structure Numbered (queue : Queue μ ρ) (admitted : List (MessageId × μ)) (events : List (Event μ ρ)) : Prop where
  serials : admitted.map Prod.fst = (List.range queue.nextId).map MessageId.mk
  returned : admitted.map Prod.fst = events.filterMap Event.admitted?

theorem Numbered.make (settings : Settings) (observed : Bool) : (make settings observed : Queue μ ρ).Numbered [] [] :=
  ⟨rfl, rfl⟩

theorem Numbered.step {queue : Queue μ ρ} {admitted : List (MessageId × μ)} {events : List (Event μ ρ)}
    (h : queue.Numbered admitted events) (move : Move μ ρ) :
    (queue.step move).1.Numbered (admitted ++ queue.accepted (queue.step move).2) (events ++ (queue.step move).2) := by
  have hreturned : (queue.accepted (queue.step move).2).map Prod.fst = (queue.step move).2.filterMap Event.admitted? ∧
      (List.range (queue.step move).1.nextId).map MessageId.mk =
        (List.range queue.nextId).map MessageId.mk ++ (queue.step move).2.filterMap Event.admitted? := by
    cases (transition_step queue move).change with
    | trimmed hpending hinProgress hkey hid hadmitted =>
        rw [accepted_eq_nil _ _ hadmitted, hadmitted, hid]
        exact ⟨rfl, (List.append_nil _).symm⟩
    | accepted hstack hmove hpending hinProgress hkey hid hrest hadmitted =>
        rw [accepted_eq_singleton _ _ hstack hadmitted, hadmitted, hid, List.range_succ, List.map_append]
        exact ⟨rfl, rfl⟩
    | started hstack hmove hpending hinProgress hkey hid hadmitted =>
        rw [accepted_eq_nil _ _ hadmitted, hadmitted, hid]
        exact ⟨rfl, (List.append_nil _).symm⟩
  exact {
    serials := by rw [List.map_append, hreturned.1, hreturned.2, h.serials]
    returned := by rw [List.map_append, hreturned.1, h.returned, List.filterMap_append] }

theorem Numbered.nodup {queue : Queue μ ρ} {admitted : List (MessageId × μ)} {events : List (Event μ ρ)}
    (h : queue.Numbered admitted events) : (admitted.map Prod.fst).Nodup := by
  rw [h.serials]
  apply List.Nodup.map _ List.nodup_range
  intro first second hserial
  exact MessageId.mk.inj hserial

end DeadlineQueue.Queue
