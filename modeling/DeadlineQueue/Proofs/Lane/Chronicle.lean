import DeadlineQueue.Proofs.Lane.Order
import DeadlineQueue.Queue.Step

namespace DeadlineQueue.Lane

variable {μ : Type}

inductive Operation (μ : Type) where
  | push (key : Nat) (stamp : Instant) (entry : Entry μ)
  | remove (key : Nat)
  | popFront (bound : Nat)
  | clear
  | takeOverdue (scan : Scan) (now : Instant)

def apply (lane : Lane μ) : Operation μ → Lane μ
  | .push key stamp entry => lane.push key stamp entry
  | .remove key => (lane.remove key).2
  | .popFront bound => (lane.popFront bound).2
  | .clear => lane.clear.2
  | .takeOverdue scan now => (lane.takeOverdue scan now).2

def Operation.key? : Operation μ → Option Nat
  | .push key _ _ => some key
  | _ => none

-- What is logged when a stamp is appended.
def warning (lane : Lane μ) (name : LaneName) (stamp : Instant) : List Record :=
  if lane.turnsBack stamp then [.turnedBack name] else []

theorem logBackwards_eq_warning {ρ : Type} (queue : Queue μ ρ) (name : LaneName) (stamp : Instant) :
    queue.logBackwards name stamp = ((queue.lane name).warning name stamp).map .log := by
  unfold Queue.logBackwards warning
  split
  · rfl
  · rfl

-- The stamps that a lane was given between two moments at which it was empty, and what was logged
-- with them.
structure Stretch where
  stamps : List Instant := []
  log : List Record := []

def Stretch.extend (stretch : Stretch) (name : LaneName) (lane : Lane μ) : Operation μ → Stretch
  | .push _ stamp _ =>
    { stamps := stretch.stamps ++ [stamp], log := stretch.log ++ lane.warning name stamp }
  | _ => stretch

-- A lane with its past. A stretch ends with the operation that leaves the lane empty.
structure Chronicle (μ : Type) where
  lane : Lane μ := {}
  current : Stretch := {}
  past : List Stretch := []

namespace Chronicle

def step (name : LaneName) (chronicle : Chronicle μ) (operation : Operation μ) : Chronicle μ :=
  let lane := chronicle.lane.apply operation
  let current := chronicle.current.extend name chronicle.lane operation
  if lane.isEmpty then { lane, past := chronicle.past ++ [current] } else { chronicle with lane, current }

def run (name : LaneName) (operations : List (Operation μ)) : Chronicle μ :=
  operations.foldl (step name) {}

end Chronicle

-- Whether it was logged once that the stamps of a stretch go backwards, or not at all.
def Stretch.Warned (stretch : Stretch) (name : LaneName) : Prop :=
  stretch.log = if stretch.stamps.Pairwise (· ≤ ·) then [] else [.turnedBack name]

-- What a lane remembers of the stretch that it is in.
structure Remembers (lane : Lane μ) (stretch : Stretch) : Prop where
  latest : lane.latest = stretch.stamps.max?
  ordered : lane.ordered = true ↔ stretch.stamps.Pairwise (· ≤ ·)

theorem Remembers.empty : Remembers ({} : Lane μ) {} where
  latest := rfl
  ordered := ⟨fun _ => .nil, fun _ => rfl⟩

theorem Stretch.warned_empty (name : LaneName) : Warned {} name := by
  simp [Warned]

theorem max?_concat (stamps : List Instant) (stamp : Instant) :
    (stamps ++ [stamp]).max? = some (stamps.max?.elim stamp (max · stamp)) := by
  cases stamps with
  | nil => rfl
  | cons first rest =>
      simp only [List.cons_append, List.max?_cons', List.foldl_append, List.foldl_cons, List.foldl_nil, Option.elim]

theorem latest_push (lane : Lane μ) (key : Nat) (stamp : Instant) (entry : Entry μ) :
    (lane.push key stamp entry).latest = some (lane.latest.elim stamp (max · stamp)) := by
  unfold push
  cases lane.latest with
  | none => rfl
  | some latest => rfl

section push

variable {lane : Lane μ} {stretch : Stretch} (h : lane.Remembers stretch) (stamp : Instant)
include h

theorem Remembers.pairwise_concat_iff :
    (stretch.stamps ++ [stamp]).Pairwise (· ≤ ·) ↔ lane.ordered = true ∧ lane.turnsBack stamp = false := by
  have hmax : (∀ earlier ∈ stretch.stamps, earlier ≤ stamp) ↔ ∀ latest ∈ lane.latest, latest ≤ stamp := by
    rw [h.latest]
    cases hlatest : stretch.stamps.max? with
    | none => simp [List.max?_eq_none_iff.1 hlatest]
    | some latest =>
        rw [← List.max?_le_iff hlatest]
        simp
  have hpairwise : (stretch.stamps ++ [stamp]).Pairwise (· ≤ ·) ↔
      stretch.stamps.Pairwise (· ≤ ·) ∧ ∀ earlier ∈ stretch.stamps, earlier ≤ stamp := by
    rw [List.pairwise_append]
    simp
  rw [hpairwise, hmax, ← h.ordered, and_congr_right_iff]
  intro hordered
  unfold turnsBack
  cases lane.latest with
  | none => simp
  | some latest => simp [hordered]

theorem Remembers.push (key : Nat) (entry : Entry μ) (name : LaneName) :
    (lane.push key stamp entry).Remembers (stretch.extend name lane (.push key stamp entry)) where
  latest := by
    rw [latest_push, h.latest]
    exact (max?_concat stretch.stamps stamp).symm
  ordered := by
    simp only [Lane.push, Stretch.extend, h.pairwise_concat_iff stamp, Bool.and_eq_true, Bool.not_eq_true']

-- The first step backwards is logged, and it is the only one.
theorem Stretch.Warned.push {name : LaneName} (hwarned : stretch.Warned name) (key : Nat) (entry : Entry μ) :
    (stretch.extend name lane (.push key stamp entry)).Warned name := by
  unfold Warned at hwarned ⊢
  simp only [Stretch.extend, warning, hwarned, h.pairwise_concat_iff stamp, ← h.ordered]
  cases hordered : lane.ordered with
  | true =>
      cases hback : lane.turnsBack stamp with
      | true => rfl
      | false => rfl
  | false =>
      have hforward : lane.turnsBack stamp = false := by
        unfold turnsBack
        split
        · rfl
        · rw [hordered, Bool.false_and]
      simp [hforward]

end push

-- Taking entries away changes nothing that is remembered, as long as some are left.
theorem Remembers.trims {lane next : Lane μ} {stretch : Stretch} (h : lane.Remembers stretch) (htrims : Trims lane next)
    (hleft : next.slots ≠ []) : next.Remembers stretch := by
  rcases htrims.rest with hsame | hrest
  · rwa [hsame]
  · rw [settle_of_slots_ne_nil { lane with slots := next.slots } hleft] at hrest
    rw [hrest]
    exact ⟨h.latest, h.ordered⟩

-- An operation appends an entry, or it only takes some away.
theorem push_or_trims (lane : Lane μ) (operation : Operation μ) :
    (∃ key stamp entry, operation = .push key stamp entry) ∨
      operation.key? = none ∧ Trims lane (lane.apply operation) ∧
        ∀ (stretch : Stretch) (name : LaneName), stretch.extend name lane operation = stretch := by
  cases operation with
  | push key stamp entry => exact .inl ⟨key, stamp, entry, rfl⟩
  | remove key => exact .inr ⟨rfl, trims_remove lane key, fun _ _ => rfl⟩
  | popFront bound => exact .inr ⟨rfl, trims_popFront lane bound, fun _ _ => rfl⟩
  | clear =>
      have hclear : lane.apply .clear = {} := clear_snd lane
      exact .inr ⟨rfl, hclear ▸ trims_clear lane, fun _ _ => rfl⟩
  | takeOverdue scan now => exact .inr ⟨rfl, trims_takeOverdue lane scan now, fun _ _ => rfl⟩

theorem mem_slots_apply (lane : Lane μ) (operation : Operation μ) :
    ∀ slot ∈ (lane.apply operation).slots, slot ∈ lane.slots ∨ operation.key? = some slot.key := by
  intro slot hslot
  rcases lane.push_or_trims operation with ⟨key, stamp, entry, rfl⟩ | ⟨-, htrims, -⟩
  · rcases List.mem_append.1 hslot with hold | hnew
    · exact .inl hold
    · rw [List.mem_singleton.1 hnew]
      exact .inr rfl
  · exact .inl (htrims.slots.subset hslot)

namespace Chronicle

-- What the chronicle says is so.
structure Faithful (chronicle : Chronicle μ) (name : LaneName) (origin : Origin) : Prop where
  sound : chronicle.lane.Sound origin
  remembers : chronicle.lane.Remembers chronicle.current
  warned : ∀ stretch ∈ chronicle.past ++ [chronicle.current], stretch.Warned name

theorem faithful_empty (name : LaneName) (origin : Origin) : Faithful ({} : Chronicle μ) name origin where
  sound := Sound.empty origin
  remembers := .empty
  warned := by simpa using Stretch.warned_empty name

variable {chronicle : Chronicle μ} {name : LaneName} {origin : Origin}

-- What an operation makes of the lane and of the stretch that it belongs to, before it is known
-- whether the stretch ends with it.
theorem Faithful.apply (h : chronicle.Faithful name origin) (operation : Operation μ)
    (hkey : ∀ key ∈ operation.key?, ∀ slot ∈ chronicle.lane.slots, slot.key < key)
    (hstamp : ∀ key stamp entry, operation = .push key stamp entry → entry.since origin = some stamp) :
    (chronicle.lane.apply operation).Sound origin ∧
      ((chronicle.lane.apply operation).slots ≠ [] →
        (chronicle.lane.apply operation).Remembers (chronicle.current.extend name chronicle.lane operation)) ∧
      (chronicle.current.extend name chronicle.lane operation).Warned name := by
  have hwarned : chronicle.current.Warned name := h.warned _ (by simp)
  rcases chronicle.lane.push_or_trims operation with ⟨key, stamp, entry, rfl⟩ | ⟨-, htrims, hextend⟩
  · exact ⟨h.sound.push key stamp entry (hkey key rfl) (hstamp key stamp entry rfl),
      fun _ => h.remembers.push stamp key entry name, hwarned.push h.remembers stamp key entry⟩
  · rw [hextend]
    exact ⟨h.sound.trims htrims, h.remembers.trims htrims, hwarned⟩

theorem Faithful.step (h : chronicle.Faithful name origin) (operation : Operation μ)
    (hkey : ∀ key ∈ operation.key?, ∀ slot ∈ chronicle.lane.slots, slot.key < key)
    (hstamp : ∀ key stamp entry, operation = .push key stamp entry → entry.since origin = some stamp) :
    (chronicle.step name operation).Faithful name origin := by
  obtain ⟨hsound, hremembers, hwarned⟩ := h.apply operation hkey hstamp
  have hpast : ∀ stretch ∈ chronicle.past, stretch.Warned name :=
    fun stretch hstretch => h.warned stretch (List.mem_append_left _ hstretch)
  unfold Chronicle.step
  by_cases hnil : (chronicle.lane.apply operation).slots = []
  · have hempty : (chronicle.lane.apply operation).isEmpty = true := List.isEmpty_iff.2 hnil
    rw [if_pos hempty]
    refine ⟨hsound, hsound.fresh hnil ▸ .empty, ?_⟩
    simp only [List.forall_mem_append, List.forall_mem_singleton]
    exact ⟨⟨hpast, hwarned⟩, Stretch.warned_empty name⟩
  · have hempty : ¬ (chronicle.lane.apply operation).isEmpty = true := fun h => hnil (List.isEmpty_iff.1 h)
    rw [if_neg hempty]
    refine ⟨hsound, hremembers hnil, ?_⟩
    simp only [List.forall_mem_append, List.forall_mem_singleton]
    exact ⟨hpast, hwarned⟩

theorem lane_step (chronicle : Chronicle μ) (name : LaneName) (operation : Operation μ) :
    (chronicle.step name operation).lane = chronicle.lane.apply operation := by
  unfold step
  dsimp only
  split
  · rfl
  · rfl

theorem lane_foldl (chronicle : Chronicle μ) (name : LaneName) (operations : List (Operation μ)) :
    (operations.foldl (step name) chronicle).lane = operations.foldl apply chronicle.lane := by
  induction operations generalizing chronicle with
  | nil => rfl
  | cons operation operations ih => rw [List.foldl_cons, List.foldl_cons, ih, lane_step]

-- The keys to come are beyond those in the lane, at each step.
theorem Faithful.foldl (h : chronicle.Faithful name origin) (operations : List (Operation μ))
    (hkeys : (operations.filterMap Operation.key?).Pairwise (· < ·))
    (hahead : ∀ key ∈ operations.filterMap Operation.key?, ∀ slot ∈ chronicle.lane.slots, slot.key < key)
    (hstamps : ∀ key stamp entry, .push key stamp entry ∈ operations → entry.since origin = some stamp) :
    (operations.foldl (Chronicle.step name) chronicle).Faithful name origin := by
  induction operations generalizing chronicle with
  | nil => exact h
  | cons operation operations ih =>
      have hkey : ∀ key ∈ operation.key?, ∀ slot ∈ chronicle.lane.slots, slot.key < key :=
        fun key hkey => hahead key (List.mem_filterMap.2 ⟨operation, List.mem_cons_self, hkey⟩)
      have hstep := h.step operation hkey
        (fun key stamp entry heq => hstamps key stamp entry (heq ▸ List.mem_cons_self))
      have hrest : (operations.filterMap Operation.key?).Pairwise (· < ·) :=
        hkeys.sublist ((List.sublist_cons_self _ _).filterMap _)
      refine ih hstep hrest ?_ (fun key stamp entry hmem => hstamps key stamp entry (List.mem_cons_of_mem _ hmem))
      intro key hmem slot hslot
      rw [lane_step] at hslot
      rcases chronicle.lane.mem_slots_apply operation slot hslot with hold | hnew
      · have hmem' : key ∈ (operation :: operations).filterMap Operation.key? :=
          ((List.sublist_cons_self _ _).filterMap _).subset hmem
        exact hahead key hmem' slot hold
      · rw [List.filterMap_cons_some hnew] at hkeys
        exact (List.pairwise_cons.1 hkeys).1 key hmem

end Chronicle

theorem Sound.latest_eq_none_iff {lane : Lane μ} {origin : Origin} (h : lane.Sound origin) :
    lane.latest = none ↔ lane.slots = [] := by
  constructor
  · intro hnone
    rw [List.eq_nil_iff_forall_not_mem]
    intro slot hslot
    obtain ⟨stamp, latest, -, hlatest, -⟩ := h.stamped slot hslot
    rw [hnone] at hlatest
    cases hlatest
  · intro hnil
    rw [h.fresh hnil]

-- Whatever is done to a lane from the start, with keys that grow and entries that carry the stamp
-- they are pushed with: it knows the latest stamp since it was last empty and whether the stamps
-- since then ever went backwards, which is logged once if they did. And a scan that may stop early
-- does to it what a scan of all of it does.
theorem run_remembers (name : LaneName) (origin : Origin) (operations : List (Operation μ))
    (hkeys : (operations.filterMap Operation.key?).Pairwise (· < ·))
    (hstamps : ∀ key stamp entry, .push key stamp entry ∈ operations → entry.since origin = some stamp) :
    ∃ chronicle, Chronicle.run name operations = chronicle ∧ chronicle.lane = operations.foldl apply {} ∧
      (chronicle.lane.latest = none ↔ chronicle.lane.slots = []) ∧
      chronicle.lane.latest = chronicle.current.stamps.max? ∧
      (chronicle.lane.ordered = true ↔ chronicle.current.stamps.Pairwise (· ≤ ·)) ∧
      (∀ stretch ∈ chronicle.past ++ [chronicle.current],
        stretch.log = if stretch.stamps.Pairwise (· ≤ ·) then [] else [.turnedBack name]) ∧
      (∀ (ρ : Type) (queue : Queue μ ρ) (stamp : Instant), queue.lane name = chronicle.lane →
        queue.logBackwards name stamp = (chronicle.lane.warning name stamp).map .log) ∧
      chronicle.lane.slots.Pairwise (fun first second => first.key < second.key) ∧
      ∀ now deadline, ∃ overdue left,
        chronicle.lane.takeOverdue { origin, deadline, hasty := true } now = (overdue, left) ∧
        chronicle.lane.takeOverdue { origin, deadline, hasty := false } now = (overdue, left) ∧
        overdue = chronicle.lane.entries.filter
          (fun entry => (entry.since origin).any (fun stamp => deadline ≤ elapsed stamp now)) := by
  have hfaithful : (Chronicle.run name operations).Faithful name origin :=
    (Chronicle.faithful_empty name origin).foldl operations hkeys (by simp) hstamps
  obtain ⟨hsound, hremembers, hwarned⟩ := hfaithful
  refine ⟨_, rfl, Chronicle.lane_foldl {} name operations, hsound.latest_eq_none_iff, hremembers.latest,
    hremembers.ordered, hwarned, ?logs, hsound.keys, ?scans⟩
  case logs =>
    intro ρ queue stamp hlane
    rw [logBackwards_eq_warning, hlane]
  case scans =>
    intro now deadline
    refine ⟨_, _, hsound.takeOverdue _ now (fun _ => rfl), hsound.takeOverdue _ now (fun _ => rfl), ?_⟩
    congr 1
    funext entry
    unfold Scan.overdue
    cases entry.since origin with
    | none => simp
    | some stamp => simp

-- Two stretches. In the first one the clock is set back twice and the entry with the latest stamp
-- is the first to go; in the second one two stamps are the same.
def setBackTwice : List (Operation String) :=
  let push (key : Nat) (stamp : Instant) : Operation String :=
    .push key stamp { id := { serial := key }, message := "a", enqueuedAt := stamp }
  [push 0 9, push 2 5, .remove 0, push 3 7, .popFront 1, push 4 6,
    .takeOverdue { origin := .admission, deadline := 4, hasty := true } 10, .clear, push 7 4, push 8 4, .remove 1]

theorem run_remembers_setBackTwice :
    (setBackTwice.filterMap Operation.key?).Pairwise (· < ·) ∧
      (∀ key stamp entry, .push key stamp entry ∈ setBackTwice → entry.since .admission = some stamp) ∧
      ∃ chronicle, Chronicle.run .pending setBackTwice = chronicle ∧
        chronicle.past = [{ stamps := [9, 5, 7, 6], log := [.turnedBack .pending] }] ∧
        chronicle.current = { stamps := [4, 4], log := [] } ∧
        chronicle.lane.latest = some 4 ∧ chronicle.lane.ordered = true ∧
        ∀ now deadline,
          chronicle.lane.takeOverdue { origin := .admission, deadline, hasty := true } now =
            chronicle.lane.takeOverdue { origin := .admission, deadline, hasty := false } now := by
  have hkeys : (setBackTwice.filterMap Operation.key?).Pairwise (· < ·) := by decide
  have hstamps : ∀ key stamp entry, .push key stamp entry ∈ setBackTwice → entry.since .admission = some stamp := by
    intro key stamp entry hmem
    simp only [setBackTwice, List.mem_cons, Operation.push.injEq, List.not_mem_nil, reduceCtorEq, or_false,
      false_or] at hmem
    rcases hmem with ⟨-, rfl, rfl⟩ | ⟨-, rfl, rfl⟩ | ⟨-, rfl, rfl⟩ | ⟨-, rfl, rfl⟩ | ⟨-, rfl, rfl⟩ | ⟨-, rfl, rfl⟩ <;>
      rfl
  obtain ⟨chronicle, hrun, -, -, hlatest, hordered, -, -, -, hscans⟩ :=
    run_remembers .pending .admission setBackTwice hkeys hstamps
  have hpast : chronicle.past = [{ stamps := [9, 5, 7, 6], log := [.turnedBack .pending] }] := hrun ▸ rfl
  have hcurrent : chronicle.current = { stamps := [4, 4], log := [] } := hrun ▸ rfl
  rw [hcurrent] at hlatest hordered
  refine ⟨hkeys, hstamps, chronicle, hrun, hpast, hcurrent, hlatest, hordered.2 (by decide), fun now deadline => ?_⟩
  obtain ⟨overdue, left, hhasty, hthorough, -⟩ := hscans now deadline
  rw [hhasty, hthorough]

end DeadlineQueue.Lane
