import DeadlineQueue.Proofs.Pacing
import DeadlineQueue.Proofs.Simulation.Outlook

namespace DeadlineQueue

open Simulation Queue

variable {μ ρ : Type}

namespace Pacer

-- How the rest of a run ends: nothing is left, and everything has come as it was to be expected,
-- unless two things fell on the same time.
structure Ends (world : World μ ρ) (queue : Queue μ ρ) (interval : Nat) (tick : Instant) (clear : Prop)
    (trace : List (Instant × Event μ ρ)) (ended : World μ ρ × Queue μ ρ) : Prop where
  passage : Passage world queue trace ended.1 ended.2
  fits : Fits ended.1 ended.2
  empty : ended.2.isEmpty = true
  outlook : clear → Outlook world queue interval tick ended.1.now trace

namespace Ends

variable {world : World μ ρ} {queue : Queue μ ρ} {interval : Nat} {tick : Instant} {clear : Prop}
  {trace : List (Instant × Event μ ρ)} {ended : World μ ρ × Queue μ ρ}

-- What is logged beside the queue does not count.
theorem logged (h : Ends world queue interval tick clear trace ended) (record : Record) :
    Ends world queue interval tick clear trace (ended.1.note (.log record), ended.2) where
  passage := h.passage.aside ⟨rfl, rfl, rfl⟩ (by simp)
  fits := h.fits.aside rfl rfl rfl
  empty := h.empty
  outlook := h.outlook

theorem of_logged {record : Record} (h : Ends (world.note (.log record)) queue interval tick clear trace ended) :
    Ends world queue interval tick clear trace ended where
  passage := h.passage.aside (by simp) ⟨rfl, rfl, rfl⟩
  fits := h.fits
  empty := h.empty
  outlook := fun hclear => (h.outlook hclear).aside rfl

theorem imp (h : Ends world queue interval tick clear trace ended) {other : Prop} (hclear : other → clear) :
    Ends world queue interval tick other trace ended where
  passage := h.passage
  fits := h.fits
  empty := h.empty
  outlook := fun hother => h.outlook (hclear hother)

end Ends

section loops

variable {interval : Nat} (positive : 0 < interval) {world : World μ ρ} {queue : Queue μ ρ} (h : Fits world queue)
include h

-- The drain at the end. It cancels what the next tick would have come too late for.
theorem drain_ends (tick : Instant) :
    ∃ trace, Ends world queue interval tick (world.now < tick) trace (world.call queue .drain) ∧
      (world.call queue .drain).1.now = world.now := by
  obtain ⟨events, hruns, hfits, htold⟩ := h.drain
  have hnow := world.now_observe events
  rw [hruns.eq]
  refine ⟨stamp world.now events, ⟨hruns.passage rfl, hfits, rfl, fun htick => ?_⟩, hnow⟩
  rw [hnow]
  exact .drained h htick htold

-- Time goes on, and the rest follows.
theorem passTo_ends (time : Instant) :
    ∃ trace, Fits (world.passTo queue time).1 (world.passTo queue time).2 ∧ (world.passTo queue time).1.now = time ∧
      ∀ tick clear later ended, time ≤ tick → time ≤ ended.1.now →
        Ends (world.passTo queue time).1 (world.passTo queue time).2 interval tick clear later ended →
        Ends world queue interval tick clear (trace ++ later) ended := by
  obtain ⟨trace, next, after, hpass, hpassage, hfits, hnow, -, hreports, hpassed⟩ := h.passTo time
  rw [hpass]
  refine ⟨trace, hfits, hnow, fun tick clear later ended htick hfinish hrest => ?_⟩
  refine ⟨hpassage.trans hrest.passage, hrest.fits, hrest.empty, fun hclear => ?_⟩
  exact .passed h hreports hpassed htick hfinish (hrest.outlook hclear)

-- A tick is made, and the rest follows.
theorem tick_ends :
    ∃ trace, Fits (world.call queue .tick).1 (world.call queue .tick).2 ∧ (world.call queue .tick).1.now = world.now ∧
      ∀ clear later ended, world.now ≤ ended.1.now →
        Ends (world.call queue .tick).1 (world.call queue .tick).2 interval (world.now + interval) clear later ended →
        Ends world queue interval world.now clear (trace ++ later) ended := by
  obtain ⟨events, after, hruns, hticked, hfits⟩ := h.tick
  rw [hruns.eq]
  refine ⟨stamp world.now events, hfits, world.now_observe events, fun clear later ended hfinish hrest => ?_⟩
  refine ⟨(hruns.passage rfl).trans hrest.passage, hrest.fits, hrest.empty, fun hclear => ?_⟩
  exact .ticked h hticked hfinish (hrest.outlook hclear)

theorem tickAt_ends (time : Instant) :
    ∃ trace, Fits (tickAt world queue time).1 (tickAt world queue time).2 ∧ (tickAt world queue time).1.now = time ∧
      ∀ clear later ended, time ≤ ended.1.now →
        Ends (tickAt world queue time).1 (tickAt world queue time).2 interval (time + interval) clear later ended →
        Ends world queue interval time clear (trace ++ later) ended := by
  obtain ⟨before, hpassed, hnow, hpasses⟩ := passTo_ends h time
  obtain ⟨during, hticked, hsame, hticks⟩ := tick_ends hpassed
  rw [hnow] at hsame hticks
  refine ⟨before ++ during, hticked, hsame, fun clear later ended hfinish hrest => ?_⟩
  rw [List.append_assoc]
  exact hpasses time clear _ ended (Int.le_refl time) hfinish (hticks clear later ended hfinish hrest)

end loops

-- Ticks until nothing is left or the deadline has passed, and the drain after them.
theorem tickWhileTracked_ends {interval : Nat} (positive : 0 < interval) {world : World μ ρ} {queue : Queue μ ρ}
    (h : Fits world queue) (deadline next : Instant) :
    let shut := tickWhileTracked interval positive deadline next world queue
    ∃ trace, Ends world queue interval next True trace (shut.1.call shut.2 .drain) ∧
      next ≤ (shut.1.call shut.2 .drain).1.now := by
  obtain ⟨trace, hfits, hnow, hends⟩ := tickAt_ends h next
  have hbefore : (tickAt world queue next).1.now < next + interval := by
    rw [hnow]
    exact Int.lt_add_of_pos_right next (Int.natCast_pos.mpr positive)
  rw [tickWhileTracked_eq]
  dsimp only
  split
  · obtain ⟨later, hdrain, hsame⟩ := drain_ends hfits (next + interval)
    have hfinish := (hsame.trans hnow).ge
    exact ⟨_, hends True later _ hfinish (hdrain.imp fun _ => hbefore), hfinish⟩
  · split
    · obtain ⟨later, hrest, hfinish⟩ := tickWhileTracked_ends positive hfits deadline (next + interval)
      have hfinish := Int.le_trans (Int.le_add_of_nonneg_right (Int.natCast_nonneg interval)) hfinish
      exact ⟨_, hends True later _ hfinish hrest, hfinish⟩
    · let record := Record.shutdownTimedOut (tickAt world queue next).2.size
      have hnoted : Fits ((tickAt world queue next).1.note (.log record)) (tickAt world queue next).2 :=
        hfits.aside rfl rfl rfl
      obtain ⟨later, hdrain, hsame⟩ := drain_ends hnoted (next + interval)
      have hfinish := (hsame.trans hnow).ge
      exact ⟨_, hends True later _ hfinish (hdrain.imp fun _ => hbefore).of_logged, hfinish⟩
termination_by (deadline - next).toNat
decreasing_by
  simp only [Instant] at *
  omega

theorem shutDown_ends {interval : Nat} (positive : 0 < interval) {world : World μ ρ} {queue : Queue μ ρ}
    (h : Fits world queue) (deadline : Instant) {next : Instant} (hnext : world.now ≤ next) :
    let shut := shutDown interval positive deadline next world queue
    ∃ trace, Ends world queue interval next (world.now < next) trace (shut.1.call shut.2 .drain) ∧
      world.now ≤ (shut.1.call shut.2 .drain).1.now := by
  unfold shutDown
  split
  · obtain ⟨trace, hdrain, hsame⟩ := drain_ends h next
    exact ⟨trace, hdrain, hsame.ge⟩
  · split
    · obtain ⟨trace, hrest, hfinish⟩ := tickWhileTracked_ends positive h deadline next
      exact ⟨trace, hrest.imp fun _ => trivial, Int.le_trans hnext hfinish⟩
    · have hnoted : Fits (world.note (.log (.shutdownTimedOut queue.size))) queue := h.aside rfl rfl rfl
      obtain ⟨trace, hdrain, hsame⟩ := drain_ends hnoted next
      exact ⟨trace, hdrain.of_logged, hsame.ge⟩

section run

variable {pacer : Pacer} (positive : 0 < pacer.interval)

theorem close_ends {world : World μ ρ} {queue : Queue μ ρ} (h : Fits world queue) {stop next : Instant}
    (hnext : stop ≤ next) (deadline : Instant) :
    let ended := close positive stop deadline next world queue
    ∃ trace, Ends world queue pacer.interval next (stop < next) trace ended ∧ stop ≤ ended.1.now := by
  obtain ⟨before, hpassed, hnow, hpasses⟩ := passTo_ends h stop
  let record := Record.shutdownRequested (world.passTo queue stop).2.size
  have hnoted : Fits ((world.passTo queue stop).1.note (.log record)) (world.passTo queue stop).2 :=
    hpassed.aside rfl rfl rfl
  obtain ⟨later, hrest, hfinish⟩ := shutDown_ends positive hnoted deadline (hnow.le.trans hnext)
  have hsame : ((world.passTo queue stop).1.note (.log record)).now = stop := hnow
  rw [hsame] at hrest hfinish
  exact ⟨_, (hpasses next _ later _ hnext hfinish hrest.of_logged).logged .pacerStopped, hfinish⟩

-- A run from its next tick on.
theorem tickUntil_ends {world : World μ ρ} {queue : Queue μ ρ} (h : Fits world queue) (deadline stop next : Instant) :
    let ticked := tickUntil pacer.interval positive stop next world queue
    let ended := close positive stop deadline ticked.1 ticked.2.1 ticked.2.2
    ∃ trace, Ends world queue pacer.interval next (∀ k, nthTick next pacer.interval k ≠ stop) trace ended ∧
      stop ≤ ended.1.now := by
  rw [tickUntil]
  split
  · rename_i hbefore
    obtain ⟨trace, hfits, hnow, hends⟩ := tickAt_ends h next
    obtain ⟨later, hrest, hfinish⟩ := tickUntil_ends hfits deadline stop (next + pacer.interval)
    refine ⟨_, hends _ later _ (Int.le_trans (Int.le_of_lt hbefore) hfinish) (hrest.imp ?_), hfinish⟩
    intro hclear k
    rw [← nthTick_succ]
    exact hclear (k + 1)
  · rename_i hafter
    obtain ⟨trace, hrest, hfinish⟩ := close_ends positive h (Int.not_lt.mp hafter) deadline
    refine ⟨trace, hrest.imp fun hclear => ?_, hfinish⟩
    have hne := hclear 0
    rw [nthTick_zero] at hne
    exact lt_of_le_of_ne (Int.not_lt.mp hafter) hne.symm
termination_by (stop - next).toNat
decreasing_by
  have hpositive : (0 : Nat) < pacer.interval := positive
  simp only [Instant] at *
  omega

end run

end Pacer

end DeadlineQueue
