import DeadlineQueue.Proofs.Pacing
import DeadlineQueue.Proofs.Simulation.Outlook

namespace DeadlineQueue

open Simulation Queue

variable {μ ρ : Type}

theorem nthTick_add (start : Instant) (interval k : Nat) :
    nthTick start interval k + interval = nthTick start interval (k + 1) := by
  simp only [nthTick, Nat.succ_mul, Nat.cast_add]
  exact Int.add_assoc _ _ _

-- The times of so many ticks in a row.
def tickTimes (start : Instant) (interval first count : Nat) : List Instant :=
  (List.range' first count).map (nthTick start interval)

section tickTimes

variable (start : Instant) (interval first count : Nat)

theorem tickTimes_succ :
    tickTimes start interval first (count + 1) =
      nthTick start interval first :: tickTimes start interval (first + 1) count := by
  rw [tickTimes, List.range'_succ, List.map_cons]
  rfl

theorem tickTimes_concat :
    tickTimes start interval first (count + 1) =
      tickTimes start interval first count ++ [nthTick start interval (first + count)] := by
  rw [tickTimes, List.range'_1_concat, List.map_append]
  rfl

theorem tickTimes_append (more : Nat) :
    tickTimes start interval first count ++ tickTimes start interval (first + count) more =
      tickTimes start interval first (count + more) := by
  rw [tickTimes, tickTimes, ← List.map_append, List.range'_append_1]
  rfl

theorem tickTimes_zero : tickTimes start interval 0 count = (List.range count).map (nthTick start interval) := by
  rw [List.range_eq_range']
  rfl

theorem exists_of_mem_tickTimes {time : Instant} (h : time ∈ tickTimes start interval first count) :
    ∃ k, time = nthTick start interval k := by
  obtain ⟨k, -, rfl⟩ := List.mem_map.mp h
  exact ⟨k, rfl⟩

end tickTimes

namespace Simulation

theorem World.now_call {queue : Queue μ ρ} (hready : queue.Ready) (world : World μ ρ) (call : Call μ ρ) :
    (world.call queue call).1.now = world.now := by
  obtain ⟨admitted, past, hs⟩ := hready.reachable.sound
  obtain ⟨moves, -, -, hcall⟩ := World.call_eq_run hs hready.idle world call
  rw [hcall]
  exact world.now_observe _

end Simulation

namespace Pacer

-- What a pacer does with a queue before it drains: it lets time pass, it ticks, and it logs. Tells at what
-- times it ticks and what moves the queue makes, of which only the ticks take the queue.
inductive Paced : World μ ρ → Queue μ ρ → List Instant → List (Move μ ρ) → World μ ρ → Queue μ ρ → Prop where
  | refl (world : World μ ρ) (queue : Queue μ ρ) : Paced world queue [] [] world queue
  | pass {world last : World μ ρ} {queue final : Queue μ ρ} {times : List Instant} {moves later : List (Move μ ρ)}
      (time : Instant) (hmoves : ∀ move ∈ moves, move.takesQueue = false)
      (hpassed : Course world queue moves (world.passTo queue time).1 (world.passTo queue time).2)
      (hrest : Paced (world.passTo queue time).1 (world.passTo queue time).2 times later last final) :
      Paced world queue times (moves ++ later) last final
  | tick {world last : World μ ρ} {queue final : Queue μ ρ} {times : List Instant} {during later : List (Move μ ρ)}
      (hduring : ∀ move ∈ during, move.takesQueue = false)
      (hticked : Course world queue (.call .tick :: during) (world.call queue .tick).1 (world.call queue .tick).2)
      (hrest : Paced (world.call queue .tick).1 (world.call queue .tick).2 times later last final) :
      Paced world queue (world.now :: times) (.call .tick :: during ++ later) last final
  | log {world last : World μ ρ} {queue final : Queue μ ρ} {times : List Instant} {moves : List (Move μ ρ)}
      (record : Record) (hrest : Paced (world.note (.log record)) queue times moves last final) :
      Paced world queue times moves last final

namespace Paced

variable {world next last : World μ ρ} {queue after final : Queue μ ρ} {times others : List Instant}
  {moves later : List (Move μ ρ)}

theorem trans (h : Paced world queue times moves next after) (hlater : Paced next after others later last final) :
    Paced world queue (times ++ others) (moves ++ later) last final := by
  induction h with
  | refl => exact hlater
  | pass time hmoves hpassed _ ih =>
      rw [List.append_assoc]
      exact .pass time hmoves hpassed (ih hlater)
  | tick hduring hticked _ ih =>
      rw [List.append_assoc]
      exact .tick hduring hticked (ih hlater)
  | log record _ ih => exact .log record (ih hlater)

theorem course (h : Paced world queue times moves last final) (hready : queue.Ready) :
    Course world queue moves last final := by
  induction h with
  | refl world queue => exact .refl world hready
  | pass _ _ hpassed _ ih => exact hpassed.trans (ih (hpassed.ready hready))
  | tick _ hticked _ ih => exact hticked.trans (ih (hticked.ready hready))
  | log _ _ ih => exact (ih hready).of_logged

-- The moves that take the queue are the ticks.
theorem filter_takesQueue (h : Paced world queue times moves last final) :
    moves.filter Move.takesQueue = List.replicate times.length (.call .tick) := by
  induction h with
  | refl => rfl
  | pass _ hmoves _ _ ih =>
      have hnone := List.filter_eq_nil_iff.mpr fun move hmove => Bool.eq_false_iff.mp (hmoves move hmove)
      rw [List.filter_append, hnone, List.nil_append, ih]
  | tick hduring _ _ ih =>
      have hnone := List.filter_eq_nil_iff.mpr fun move hmove => Bool.eq_false_iff.mp (hduring move hmove)
      rw [List.filter_append, List.filter_cons_of_pos rfl, hnone, ih]
      rfl
  | log _ _ ih => exact ih

-- No drain is among them.
theorem ne_drain (h : Paced world queue times moves last final) : ∀ move ∈ moves, move ≠ .call .drain := by
  rintro _ hmove rfl
  have htakes : .call .drain ∈ moves.filter Move.takesQueue := List.mem_filter.mpr ⟨hmove, rfl⟩
  rw [h.filter_takesQueue] at htakes
  cases List.eq_of_mem_replicate htakes

end Paced

-- A queue and its surroundings after ticks at the given times.
def ticked (times : List Instant) (world : World μ ρ) (queue : Queue μ ρ) : World μ ρ × Queue μ ρ :=
  times.foldl (fun reached time => tickAt reached.1 reached.2 time) (world, queue)

section ticked

variable {world : World μ ρ} {queue : Queue μ ρ}

theorem ticked_append (first second : List Instant) (world : World μ ρ) (queue : Queue μ ρ) :
    ticked (first ++ second) world queue =
      ticked second (ticked first world queue).1 (ticked first world queue).2 :=
  List.foldl_append

theorem now_tickAt (hready : queue.Ready) (world : World μ ρ) (time : Instant) :
    (tickAt world queue time).1.now = time := by
  obtain ⟨moves, -, hpassed⟩ := world.passTo_course hready time
  exact World.now_call (hpassed.ready hready) _ .tick

theorem tickAt_paced (hready : queue.Ready) (world : World μ ρ) (time : Instant) :
    ∃ moves, Paced world queue [time] moves (tickAt world queue time).1 (tickAt world queue time).2 := by
  obtain ⟨before, hbefore, hpassed⟩ := world.passTo_course hready time
  obtain ⟨during, hduring, -, -, hticked⟩ := (world.passTo queue time).1.call_course (hpassed.ready hready) .tick rfl
  exact ⟨_, .pass time hbefore hpassed (.tick (fun move hmove => (hduring move hmove).2) hticked (.refl _ _))⟩

theorem ticked_paced (hready : queue.Ready) (times : List Instant) (world : World μ ρ) :
    ∃ moves, Paced world queue times moves (ticked times world queue).1 (ticked times world queue).2 := by
  induction times generalizing world queue with
  | nil => exact ⟨[], .refl world queue⟩
  | cons time times ih =>
      obtain ⟨moves, htick⟩ := tickAt_paced hready world time
      obtain ⟨later, hrest⟩ := ih ((htick.course hready).ready hready) (tickAt world queue time).1
      exact ⟨_, htick.trans hrest⟩

end ticked

-- What is logged at the end of a shutdown if messages are left.
def warned (reached : World μ ρ × Queue μ ρ) : World μ ρ × Queue μ ρ :=
  if reached.2.isEmpty then reached
  else (reached.1.note (.log (.shutdownTimedOut reached.2.size)), reached.2)

section loops

variable {interval : Nat} (positive : 0 < interval) (start : Instant)

-- The ticks before a stop are those whose time is before it.
theorem tickUntil_eq (stop : Instant) (first : Nat) (world : World μ ρ) (queue : Queue μ ρ) :
    ∃ count, (∀ k, nthTick start interval (first + k) < stop ↔ k < count) ∧
      tickUntil interval positive stop (nthTick start interval first) world queue =
        (nthTick start interval (first + count), ticked (tickTimes start interval first count) world queue) := by
  rw [tickUntil]
  split
  · rename_i hbefore
    rw [nthTick_add]
    obtain ⟨count, hcount, heq⟩ := tickUntil_eq stop (first + 1) (tickAt world queue (nthTick start interval first)).1
      (tickAt world queue (nthTick start interval first)).2
    refine ⟨count + 1, fun k => ?_, ?_⟩
    · cases k with
      | zero => exact iff_of_true hbefore (Nat.succ_pos count)
      | succ k =>
          rw [Nat.add_comm k, ← Nat.add_assoc, hcount k]
          omega
    · rw [tickTimes_succ, Nat.add_comm count, ← Nat.add_assoc]
      exact heq
  · rename_i hafter
    refine ⟨0, fun k => iff_of_false ?_ (Nat.not_lt_zero k), rfl⟩
    have hmono := nthTick_mono start interval (Nat.le_add_right first k)
    exact Int.not_lt.mpr (Int.le_trans (Int.not_lt.mp hafter) hmono)
termination_by (stop - nthTick start interval first).toNat
decreasing_by
  rw [← nthTick_add]
  simp only [Instant] at *
  omega

-- The ticks of a shutdown end with the first one after which nothing is left or the deadline has come.
theorem tickWhileTracked_eq_ticked (deadline : Instant) (first : Nat) (world : World μ ρ) (queue : Queue μ ρ) :
    let left count := ticked (tickTimes start interval first count) world queue
    let ended k := (left (k + 1)).2.isEmpty = true ∨ deadline ≤ nthTick start interval (first + k)
    ∃ k, ended k ∧ (∀ j < k, ¬ended j) ∧
      tickWhileTracked interval positive deadline (nthTick start interval first) world queue =
        warned (left (k + 1)) := by
  intro left ended
  have hfirst : left 1 = tickAt world queue (nthTick start interval first) := rfl
  rw [tickWhileTracked_eq, ← hfirst]
  dsimp only
  split
  · rename_i hempty
    exact ⟨0, .inl hempty, fun j hj => absurd hj (Nat.not_lt_zero j), (if_pos hempty).symm⟩
  · rename_i hleft
    split
    · rename_i hbefore
      rw [nthTick_add]
      obtain ⟨k, hended, hearlier, heq⟩ := tickWhileTracked_eq_ticked deadline (first + 1) (left 1).1 (left 1).2
      have hlater (count : Nat) :
          ticked (tickTimes start interval (first + 1) count) (left 1).1 (left 1).2 = left (count + 1) := by
        simp only [left, tickTimes_succ]
        rfl
      have hsame (k : Nat) : nthTick start interval (first + 1 + k) = nthTick start interval (first + (k + 1)) := by
        rw [Nat.add_assoc, Nat.add_comm 1]
      simp only [hlater, hsame] at hended hearlier heq
      refine ⟨k + 1, hended, fun j hj => ?_, heq⟩
      cases j with
      | zero => exact not_or.mpr ⟨hleft, Int.not_le.mpr hbefore⟩
      | succ j => exact hearlier j (Nat.lt_of_succ_lt_succ hj)
    · rename_i hafter
      exact ⟨0, .inr (Int.not_lt.mp hafter), fun j hj => absurd hj (Nat.not_lt_zero j), (if_neg hleft).symm⟩
termination_by (deadline - nthTick start interval first).toNat
decreasing_by
  rw [← nthTick_add]
  simp only [Instant] at *
  omega

theorem shutDown_eq (deadline : Instant) (first : Nat) (world : World μ ρ) (queue : Queue μ ρ) :
    let left count := ticked (tickTimes start interval first count) world queue
    let ended k := (left (k + 1)).2.isEmpty = true ∨ deadline ≤ nthTick start interval (first + k)
    ∃ count, (queue.isEmpty = true ∨ deadline ≤ world.now → count = 0) ∧
      (queue.isEmpty = false → world.now < deadline → ∃ k, count = k + 1 ∧ ended k ∧ ∀ j < k, ¬ended j) ∧
      shutDown interval positive deadline (nthTick start interval first) world queue = warned (left count) := by
  intro left ended
  unfold shutDown
  split
  · rename_i hempty
    refine ⟨0, fun _ => rfl, fun hleft => ?_, (if_pos hempty).symm⟩
    rw [hleft] at hempty
    exact absurd hempty Bool.false_ne_true
  · rename_i hleft
    split
    · rename_i hbefore
      obtain ⟨k, hended, hearlier, heq⟩ := tickWhileTracked_eq_ticked positive start deadline first world queue
      exact ⟨k + 1, fun hnone => absurd hnone (not_or.mpr ⟨hleft, Int.not_le.mpr hbefore⟩),
        fun _ _ => ⟨k, rfl, hended, hearlier⟩, heq⟩
    · rename_i hafter
      exact ⟨0, fun _ => rfl, fun _ hbefore => absurd hbefore hafter, (if_neg hleft).symm⟩

end loops

-- The drain after a shutdown.
def drained (reached : World μ ρ × Queue μ ρ) : World μ ρ × Queue μ ρ :=
  let shut := warned reached
  let cancelled := shut.1.call shut.2 .drain
  (cancelled.1.note (.log .pacerStopped), cancelled.2)

section waited

variable (pacer : Pacer) (shutdownAfter : Duration) (world : World μ ρ) (queue : Queue μ ρ)

-- A run up to its shutdown, with so many ticks.
def stopped (before : Nat) : World μ ρ × Queue μ ρ :=
  let reached := ticked (tickTimes world.now pacer.interval 0 before) (pacer.started world) queue
  let arrived := reached.1.passTo reached.2 (world.now + shutdownAfter)
  (arrived.1.note (.log (.shutdownRequested arrived.2.size)), arrived.2)

-- A run that has waited for so many ticks after that.
def waited (before after : Nat) : World μ ρ × Queue μ ρ :=
  let reached := pacer.stopped shutdownAfter world queue before
  ticked (tickTimes world.now pacer.interval before after) reached.1 reached.2

-- Whether the waiting is over with the given tick after the stop, counted from zero: nothing is left,
-- or the deadline has come.
def Over (before k : Nat) : Prop :=
  (pacer.waited shutdownAfter world queue before (k + 1)).2.isEmpty = true ∨
    world.now + shutdownAfter + pacer.grace ≤ nthTick world.now pacer.interval (before + k)

-- How many ticks a run makes before its stop, and for how many it waits after that. It waits for none if
-- it has no grace or nothing is left at the stop, and otherwise up to the first with which that is over.
structure Counted (before after : Nat) : Prop where
  ticks : ∀ k, nthTick world.now pacer.interval k < world.now + shutdownAfter ↔ k < before
  atOnce : pacer.grace = 0 ∨ (pacer.waited shutdownAfter world queue before 0).2.isEmpty = true → after = 0
  delayed : pacer.grace ≠ 0 → (pacer.waited shutdownAfter world queue before 0).2.isEmpty = false →
    ∃ k, after = k + 1 ∧ pacer.Over shutdownAfter world queue before k ∧
      ∀ j < k, ¬pacer.Over shutdownAfter world queue before j

theorem waited_succ (before after : Nat) :
    let reached := pacer.waited shutdownAfter world queue before after
    pacer.waited shutdownAfter world queue before (after + 1) =
      tickAt reached.1 reached.2 (nthTick world.now pacer.interval (before + after)) := by
  dsimp only [waited]
  rw [tickTimes_concat, ticked_append]
  rfl

variable {queue}

-- A run that has waited has ticked at the times of its ticks, and at no other.
theorem waited_paced (hready : queue.Ready) (before after : Nat) :
    ∃ moves, Paced world queue ((List.range (before + after)).map (nthTick world.now pacer.interval)) moves
      (pacer.waited shutdownAfter world queue before after).1
      (pacer.waited shutdownAfter world queue before after).2 := by
  let times := tickTimes world.now pacer.interval 0 before
  obtain ⟨ticking, hticked⟩ := ticked_paced hready times (pacer.started world)
  have hreached := (hticked.course hready).ready hready
  obtain ⟨passing, hpassing, hpassed⟩ :=
    (ticked times (pacer.started world) queue).1.passTo_course hreached (world.now + shutdownAfter)
  obtain ⟨waiting, hwaited⟩ := ticked_paced (hpassed.ready hreached) (tickTimes world.now pacer.interval before after)
    (pacer.stopped shutdownAfter world queue before).1
  have hall := Paced.log _ (hticked.trans (.pass _ hpassing hpassed (.log _ hwaited)))
  have happend := tickTimes_append world.now pacer.interval 0 before after
  rw [Nat.zero_add] at happend
  rw [happend, tickTimes_zero] at hall
  exact ⟨_, hall⟩

theorem now_waited_succ (hready : queue.Ready) (before after : Nat) :
    (pacer.waited shutdownAfter world queue before (after + 1)).1.now =
      nthTick world.now pacer.interval (before + after) := by
  obtain ⟨moves, hpaced⟩ := waited_paced pacer shutdownAfter world hready before after
  rw [waited_succ]
  exact now_tickAt ((hpaced.course hready).ready hready) _ _

variable {pacer shutdownAfter world} (positive : 0 < pacer.interval)

include positive in
-- A run makes the ticks before its stop, waits for so many ticks more, and drains.
theorem run_eq_drained (hdeadline : (Instant.after? (world.now + shutdownAfter) pacer.grace).isSome = true)
    (queue : Queue μ ρ) :
    ∃ before after, pacer.Counted shutdownAfter world queue before after ∧
      pacer.run shutdownAfter world queue = .ok (drained (pacer.waited shutdownAfter world queue before after)) := by
  have hafter : Instant.after? (world.now + shutdownAfter) pacer.grace =
      some (world.now + shutdownAfter + pacer.grace) := by
    unfold Instant.after? at hdeadline ⊢
    split at hdeadline
    · rename_i hlimit
      exact if_pos hlimit
    · exact absurd hdeadline Bool.false_ne_true
  obtain ⟨before, hbefore, hticks⟩ :=
    tickUntil_eq positive world.now (world.now + shutdownAfter) 0 (pacer.started world) queue
  let reached := pacer.stopped shutdownAfter world queue before
  have hstarted : (pacer.started world).now = world.now := rfl
  have hnow : reached.1.now = world.now + shutdownAfter := rfl
  obtain ⟨after, hnone, hsome, hshut⟩ := shutDown_eq positive world.now
    (world.now + shutdownAfter + pacer.grace) before reached.1 reached.2
  rw [nthTick_zero, Nat.zero_add] at hticks
  simp only [Nat.zero_add] at hbefore
  refine ⟨before, after, ⟨hbefore, fun hatOnce => hnone (hatOnce.symm.imp_right fun hgrace => ?_),
    fun hgrace hleft => hsome hleft ?_⟩, ?_⟩
  · rw [hnow, hgrace]
    exact (Int.add_zero _).le
  · rw [hnow]
    exact Int.lt_add_of_pos_right _ (Int.natCast_pos.mpr (Nat.pos_of_ne_zero hgrace))
  · rw [run, pace_eq positive (pacer.started world) queue hafter]
    dsimp only
    rw [hstarted, hticks]
    exact congrArg (fun shut => Except.ok (((shut.1.call shut.2 .drain).1.note (.log .pacerStopped)),
      (shut.1.call shut.2 .drain).2)) hshut

namespace Counted

variable {before after : Nat} (h : pacer.Counted shutdownAfter world queue before after)
include h

-- No tick before the stop is one of the shutdown.
theorem stop_lt (hclear : ∀ k : Nat, k * pacer.interval ≠ shutdownAfter) (k : Nat) :
    world.now + shutdownAfter < nthTick world.now pacer.interval (before + k) := by
  have hafter := mt (h.ticks (before + k)).mp (Nat.not_lt.mpr (Nat.le_add_right before k))
  refine lt_of_le_of_ne (Int.not_lt.mp hafter) fun hsame => hclear (before + k) ?_
  exact Int.ofNat_inj.mp (Int.add_left_cancel hsame).symm

-- There is a tick before the stop, and the first of the shutdown is one interval after the last of those.
theorem lt_stop_add (hshutdown : 0 < shutdownAfter) :
    0 < before ∧ nthTick world.now pacer.interval before < world.now + shutdownAfter + pacer.interval := by
  have hfirst : nthTick world.now pacer.interval 0 < world.now + shutdownAfter := by
    rw [nthTick_zero]
    exact Int.lt_add_of_pos_right world.now (Int.natCast_pos.mpr hshutdown)
  have hsome := (h.ticks 0).mp hfirst
  obtain ⟨others, rfl⟩ := Nat.exists_eq_succ_of_ne_zero hsome.ne'
  have hlast := (h.ticks others).mpr (Nat.lt_succ_self others)
  refine ⟨hsome, ?_⟩
  rw [← nthTick_add]
  exact Int.add_lt_add_right hlast _

include positive in
-- The waiting is over less than an interval after the deadline, and if it is over before that, nothing is left.
theorem now_lt (hready : queue.Ready) (hshutdown : 0 < shutdownAfter) :
    let deadline : Instant := world.now + shutdownAfter + pacer.grace
    let left := pacer.waited shutdownAfter world queue before after
    left.1.now < deadline + pacer.interval ∧ (left.1.now < deadline → left.2.isEmpty = true) := by
  intro deadline left
  have hstop : world.now + shutdownAfter ≤ deadline := Int.le_add_of_nonneg_right (Int.natCast_nonneg _)
  have hpositive : (0 : Int) < pacer.interval := Int.natCast_pos.mpr positive
  by_cases hatOnce : pacer.grace = 0 ∨ (pacer.waited shutdownAfter world queue before 0).2.isEmpty = true
  · obtain rfl := h.atOnce hatOnce
    have hnow : left.1.now = world.now + shutdownAfter := rfl
    rw [hnow]
    refine ⟨Int.lt_add_of_le_of_pos hstop hpositive, fun hearly => ?_⟩
    rcases hatOnce with hgrace | hempty
    · simp [deadline, hgrace] at hearly
    · exact hempty
  · obtain ⟨hgrace, hleft⟩ := not_or.mp hatOnce
    obtain ⟨k, rfl, hended, hearlier⟩ := h.delayed hgrace (by simpa using hleft)
    have hnow : left.1.now = nthTick world.now pacer.interval (before + k) :=
      now_waited_succ pacer shutdownAfter world hready before k
    rw [hnow]
    refine ⟨?_, fun hearly => hended.resolve_right (Int.not_le.mpr hearly)⟩
    cases k with
    | zero => exact Int.lt_of_lt_of_le (h.lt_stop_add hshutdown).2 (Int.add_le_add_right hstop _)
    | succ k =>
        have hbefore := Int.not_le.mp (not_or.mp (hearlier k (Nat.lt_succ_self k))).2
        rw [← Nat.add_assoc, ← nthTick_add]
        exact Int.add_lt_add_right hbefore _

end Counted

end waited

end Pacer

end DeadlineQueue
