import DeadlineQueue.Proofs.Endings
import DeadlineQueue.Simulation.Plan

namespace DeadlineQueue

open Simulation Queue

variable {μ ρ : Type}

-- A run that does not fail ends with the drain.
theorem Pacer.exists_of_pace_ok {pacer : Pacer} {shutdownAfter : Duration} {world : World μ ρ} {queue : Queue μ ρ}
    {ended : World μ ρ × Queue μ ρ} (h : pacer.pace shutdownAfter world queue = .ok ended) :
    ∃ (positive : 0 < pacer.interval) (deadline : Instant),
      let stop := world.now + shutdownAfter
      let ticked := tickUntil pacer.interval positive stop world.now world queue
      close positive stop deadline ticked.1 ticked.2.1 ticked.2.2 = ended := by
  unfold pace at h
  dsimp only at h
  split at h
  · rename_i positive
    split at h
    · cases h
    · rename_i deadline _
      exact ⟨positive, deadline, Except.ok.inj h⟩
  · cases h

namespace Simulation

-- As long as its interval is not longer than a timer waits, a plan runs a pacer as it is.
theorem perform_run {pacer : Pacer} (h : pacer.interval ≤ longestWait) (shutdownAfter : Duration) (world : World μ ρ)
    (queue : Queue μ ρ) :
    perform (min longestWait) world queue (.run pacer shutdownAfter) = pacer.run shutdownAfter world queue := by
  rw [perform, min_eq_right h, Pacer.run]

-- What a plan can lead to, whatever the timers make of the intervals in it. Between two phases the owner may
-- clear what has been noted.
inductive Reached : World μ ρ → Queue μ ρ → Prop where
  | start (settings : Settings) (behaviour : μ → Behaviour ρ) (now : Instant) :
      Reached { behaviour, now } (make settings true)
  | clear {world : World μ ρ} {queue : Queue μ ρ} (h : Reached world queue) :
      Reached { world with happened := #[] } queue
  | perform {world next : World μ ρ} {queue after : Queue μ ρ} (h : Reached world queue)
      (timer : Duration → Duration) (phase : Phase μ)
      (hperform : perform timer world queue phase = .ok (next, after)) : Reached next after

section perform

variable {world next : World μ ρ} {queue after : Queue μ ρ}

theorem Fits.enqueue (h : Fits world queue) (message : μ) :
    Fits (world.call queue (.enqueue message)).1 (world.call queue (.enqueue message)).2 := by
  obtain ⟨events, hruns, hnone⟩ := runs_enqueue h.ready world message
  rw [hruns.eq]
  exact h.calm hruns rfl ⟨h.served.observed, h.served.delivering, h.served.outbox⟩ hnone rfl (List.Subset.refl _)

theorem Fits.setLimits (h : Fits world queue) (limits : Limits) :
    Fits (world.call queue (.setLimits limits)).1 (world.call queue (.setLimits limits)).2 := by
  have hruns := runs_setLimits h.ready world limits
  rw [hruns.eq]
  exact h.calm hruns rfl ⟨h.served.observed, h.served.delivering, h.served.outbox⟩ rfl rfl (List.Subset.refl _)

theorem Fits.pace (h : Fits world queue) {pacer : Pacer} {shutdownAfter : Duration}
    (hpace : pacer.pace shutdownAfter world queue = .ok (next, after)) : Fits next after := by
  obtain ⟨positive, deadline, hended⟩ := Pacer.exists_of_pace_ok hpace
  obtain ⟨trace, hends, -⟩ := Pacer.tickUntil_ends positive h deadline (world.now + shutdownAfter) world.now
  have hfits := hends.fits
  dsimp only at hended
  rwa [hended] at hfits

theorem Fits.perform (h : Fits world queue) {timer : Duration → Duration} {phase : Phase μ}
    (hperform : perform timer world queue phase = .ok (next, after)) : Fits next after := by
  cases phase with
  | enqueue message =>
      have hcall : world.call queue (.enqueue message) = (next, after) := Except.ok.inj hperform
      have henqueued := h.enqueue message
      rwa [hcall] at henqueued
  | setLimits limits =>
      have hcall : world.call queue (.setLimits limits) = (next, after) := Except.ok.inj hperform
      have hset := h.setLimits limits
      rwa [hcall] at hset
  | tick =>
      have hcall : world.call queue .tick = (next, after) := Except.ok.inj hperform
      obtain ⟨events, ticked, hruns, -, hfits⟩ := h.tick
      rw [hruns.eq] at hcall
      cases hcall
      exact hfits
  | sleep wait =>
      have hslept : world.passTo queue (world.now + wait) = (next, after) := Except.ok.inj hperform
      obtain ⟨trace, arrived, waiting, hpass, -, hfits, -⟩ := h.passTo (world.now + wait)
      rw [hpass] at hslept
      cases hslept
      exact hfits
  | run pacer shutdownAfter =>
      have hstarted : Fits (pacer.started world) queue := h.aside rfl rfl rfl
      exact hstarted.pace hperform

theorem Reached.fits (h : Reached world queue) : Fits world queue := by
  induction h with
  | start settings behaviour now => exact .make settings behaviour now
  | clear _ ih => exact ih.aside rfl rfl rfl
  | perform _ _ _ hperform ih => exact ih.perform hperform

end perform

end Simulation

end DeadlineQueue
