import DeadlineQueue.Proofs.Session.Separation

namespace DeadlineQueue

variable {μ ρ : Type}

open Session

namespace Queue

section Sound

variable {queue : Queue μ ρ} {admitted : List (MessageId × μ)} {past : List (Event μ ρ)}
  (hs : queue.Sound admitted past)
include hs

-- All ids are below the next one.
theorem Sound.admitted_lt {label : MessageId × μ} (hlabel : label ∈ admitted) : label.1.serial < queue.nextId := by
  have hmem : label.1 ∈ (List.range queue.nextId).map MessageId.mk :=
    hs.numbered.serials ▸ List.mem_map_of_mem hlabel
  obtain ⟨serial, hserial, hid⟩ := List.mem_map.mp hmem
  rw [← hid]
  exact List.mem_range.mp hserial

theorem Sound.issued_lt {issue : Token × μ} (hissue : issue ∈ dispatches past) : issue.1.id.serial < queue.nextId :=
  hs.admitted_lt (hs.traced.order.subset (List.mem_append_left _ (List.mem_map_of_mem hissue)))

theorem Sound.pending_lt : ∀ waiting ∈ queue.naive.pending, waiting.id.serial < queue.nextId := by
  intro waiting hwaiting
  obtain ⟨entry, hentry, rfl⟩ := List.mem_map.mp hwaiting
  have hunstarted : entry ∈ queue.unstarted := List.mem_append_right _ hentry
  exact hs.admitted_lt (hs.traced.order.subset (List.mem_append_right _ (List.mem_map_of_mem hunstarted)))

theorem Sound.inProgress_lt : ∀ started ∈ queue.naive.inProgress, started.id.serial < queue.nextId := by
  intro started hstarted
  obtain ⟨entry, hentry, rfl⟩ := List.mem_map.mp hstarted
  obtain ⟨slot, hslot, rfl⟩ := List.mem_map.mp hentry
  exact hs.issued_lt (hs.issue_mem hslot)

theorem Sound.held_lt : ∀ id ∈ queue.naive.held, id.serial < queue.nextId := by
  intro id hid
  obtain ⟨token, htoken, rfl⟩ := List.mem_map.mp hid
  obtain ⟨message, hissue⟩ := hs.exists_issue_of_held htoken
  exact hs.issued_lt hissue

end Sound

end Queue

theorem filter_eq_map_of_forall {α : Type} {spares : α → Bool} {rename : α → α} {values : List α}
    (h : ∀ value ∈ values, spares value = true ∧ rename value = value) :
    values.filter spares = values.map rename := by
  rw [List.filter_eq_self.mpr fun value hvalue => (h value hvalue).1,
    List.map_congr_left fun value hvalue => (h value hvalue).2, List.map_id']

namespace Session

namespace Plain

section congr

variable {wider conduct : MessageId → Conduct ρ}

-- Only the ways of the processor with the messages that wait matter to a step.
theorem dispatch_congr (reading : Except Fault Instant) (naive : Naive μ ρ) (batch : List (Naive.Waiting μ))
    (h : ∀ waiting ∈ batch, wider waiting.id = conduct waiting.id) :
    dispatch wider reading naive batch = dispatch conduct reading naive batch := by
  induction batch generalizing naive with
  | nil => rfl
  | cons waiting batch ih =>
      obtain ⟨hwaiting, hbatch⟩ := List.forall_mem_cons.mp h
      have hstart (naive : Naive μ ρ) : start wider reading naive waiting = start conduct reading naive waiting := by
        cases reading with
        | error fault => rfl
        | ok now => rw [start, start, hwaiting]
      rw [dispatch, dispatch, hstart]
      simp only [ih _ hbatch]

theorem sweep_pending_sublist (now : Instant) (naive : Naive μ ρ) (looks : List Naive.Look) :
    (sweep now naive looks).1.pending.Sublist naive.pending := by
  induction looks generalizing naive with
  | nil => exact List.Sublist.refl _
  | cons look looks ih =>
      have hleft : (naive.take now look).2.pending.Sublist naive.pending := by
        cases look with
        | waiting deadline => exact List.filter_sublist
        | lasting | working => exact List.Sublist.refl _
      exact (ih (naive.take now look).2).trans hleft

theorem swept_pending_sublist (reading : Except Fault Instant) (naive : Naive μ ρ) :
    (swept reading naive).1.pending.Sublist naive.pending := by
  cases reading with
  | error fault => exact List.Sublist.refl _
  | ok now => exact sweep_pending_sublist now naive _

theorem perform_congr (reading : Except Fault Instant) (naive : Naive μ ρ)
    (h : ∀ waiting ∈ naive.pending, wider waiting.id = conduct waiting.id) (action : Action μ ρ) :
    perform wider reading naive action = perform conduct reading naive action := by
  cases action with
  | tick =>
      have hdispatch := dispatch_congr reading (swept reading naive).1 (swept reading naive).1.pending
        fun waiting hwaiting => h waiting ((swept_pending_sublist reading naive).subset hwaiting)
      rw [perform, perform, tick, tick]
      simp only [hdispatch]
  | _ => rfl

end congr

-- The queue that has just admitted the extra message, and the queue before.
theorem spared_admitted {queue : Queue μ ρ} {admitted : List (MessageId × μ)} {past : List (Event μ ρ)}
    (hs : queue.Sound admitted past) (now : Instant) (message : μ) :
    Spared ⟨queue.nextId⟩ (enqueue (.ok now) queue.naive message).1 queue.naive := by
  have hbelow {id : MessageId} (hid : id.serial < queue.nextId) :
      decide (id ≠ ⟨queue.nextId⟩) = true ∧ MessageId.skip ⟨queue.nextId⟩ id = id :=
    ⟨decide_eq_true fun heq => absurd (congrArg MessageId.serial heq) (Nat.ne_of_lt hid), MessageId.skip_of_lt hid⟩
  exact {
    limits := rfl
    dropped := rfl
    pending := by
      have hkept : queue.naive.pending.filter (fun waiting => waiting.id ≠ ⟨queue.nextId⟩) =
          queue.naive.pending.map (.rename (MessageId.skip ⟨queue.nextId⟩)) :=
        filter_eq_map_of_forall fun waiting hwaiting => by
          obtain ⟨hother, hsame⟩ := hbelow (hs.pending_lt waiting hwaiting)
          exact ⟨hother, by rw [Naive.Waiting.rename, hsame]⟩
      have hgone : [({ id := ⟨queue.nextId⟩, message, enqueuedAt := now } : Naive.Waiting μ)].filter
          (fun waiting => waiting.id ≠ ⟨queue.nextId⟩) = [] := by simp
      exact (List.filter_append _ _).trans (by rw [hkept]; exact (congrArg _ hgone).trans (List.append_nil _))
    inProgress := filter_eq_map_of_forall fun started hstarted => by
      obtain ⟨hother, hsame⟩ := hbelow (hs.inProgress_lt started hstarted)
      exact ⟨hother, by rw [Naive.Started.rename, hsame]⟩
    held := filter_eq_map_of_forall fun id hid => hbelow (hs.held_lt id hid)
    nextId := rfl
    admitted := Nat.le_refl _ }

end Plain

-- A step of a session with what is seen of it.
abbrev Step (μ ρ : Type) := Action μ ρ × List (Sight μ ρ)

-- What is left of the steps without the extra message.
def without (extra : MessageId) (steps : List (Step μ ρ)) : List (Step μ ρ) :=
  (steps.filter fun step => step.1.spares extra).map fun step => (step.1, step.2.filter (Sight.spares extra))

def renamed (ids : MessageId → MessageId) (steps : List (Step μ ρ)) : List (Step μ ρ) :=
  steps.map fun step => (step.1.rename ids, step.2.map (.rename ids))

theorem play_cons (conduct : MessageId → Conduct ρ) (session : Session μ ρ) (action : Action μ ρ)
    (actions : List (Action μ ρ)) :
    session.play conduct (action :: actions) =
      (action, (session.perform conduct action).2) :: (session.perform conduct action).1.play conduct actions := rfl

theorem play_append (conduct : MessageId → Conduct ρ) (session : Session μ ρ) (first second : List (Action μ ρ)) :
    session.play conduct (first ++ second) =
      session.play conduct first ++ (session.after conduct first).play conduct second := by
  induction first generalizing session with
  | nil => rfl
  | cons action first ih => exact congrArg ((action, (session.perform conduct action).2) :: ·) (ih _)

theorem Settled.after {session : Session μ ρ} (h : session.Settled) (conduct : MessageId → Conduct ρ)
    (actions : List (Action μ ρ)) :
    (session.after conduct actions).Settled ∧
      session.queue.nextId ≤ (session.after conduct actions).queue.nextId := by
  induction actions generalizing session with
  | nil => exact ⟨h, Nat.le_refl _⟩
  | cons action actions ih =>
      obtain ⟨hnext, -, hshown⟩ := h.perform conduct action
      obtain ⟨hafter, hle⟩ := ih hnext
      have hstill := (Plain.still_perform conduct session.reading session.queue.naive action).nextId
      rw [← hshown] at hstill
      exact ⟨hafter, hstill.trans hle⟩

-- A session goes by what the naive queue knows and by the ways of the processor with the messages that there are.
theorem Settled.play_congr {first second : Session μ ρ} (hfirst : first.Settled) (hsecond : second.Settled)
    (hnaive : second.queue.naive = first.queue.naive) (hreading : second.reading = first.reading)
    {wider conduct : MessageId → Conduct ρ} (actions : List (Action μ ρ))
    (hsame : ∀ id, id.serial < (first.after conduct actions).queue.nextId → wider id = conduct id) :
    second.play wider actions = first.play conduct actions ∧
      (second.after wider actions).queue.naive = (first.after conduct actions).queue.naive ∧
      (second.after wider actions).reading = (first.after conduct actions).reading := by
  induction actions generalizing first second with
  | nil => exact ⟨rfl, hnaive, hreading⟩
  | cons action actions ih =>
      obtain ⟨hnextFirst, hclockFirst, hshownFirst⟩ := hfirst.perform conduct action
      obtain ⟨hnextSecond, hclockSecond, hshownSecond⟩ := hsecond.perform wider action
      obtain ⟨admitted, past, hs⟩ := hfirst.sound
      have hle := (hfirst.after conduct (action :: actions)).2
      have hshown : Plain.perform wider second.reading second.queue.naive action =
          Plain.perform conduct first.reading first.queue.naive action := by
        rw [hnaive, hreading]
        exact Plain.perform_congr first.reading first.queue.naive (fun waiting hwaiting =>
          hsame waiting.id ((hs.pending_lt waiting hwaiting).trans_le hle)) action
      have hboth := hshownSecond.trans (hshown.trans hshownFirst.symm)
      obtain ⟨hnaive', hsights⟩ := Prod.mk.inj hboth
      obtain ⟨hplay, hrest⟩ := ih hnextFirst hnextSecond hnaive' (by rw [hclockFirst, hclockSecond, hreading]) hsame
      exact ⟨by rw [play_cons, play_cons, hsights, hplay], hrest⟩

-- Step by step, a session with the extra message shows of the others what the session without it shows.
theorem Settled.play_spares {extra : MessageId} {wider conduct : MessageId → Conduct ρ}
    (hwider : ∀ id, wider (extra.skip id) = conduct id) {full base : Session μ ρ} (hfull : full.Settled)
    (hbase : base.Settled) (hreading : full.reading = base.reading)
    (hspared : Plain.Spared extra full.queue.naive base.queue.naive) {added after : List (Action μ ρ)}
    (hadded : added.filter (Action.spares extra) = after.map (.rename extra.skip)) :
    without extra (full.play wider added) = renamed extra.skip (base.play conduct after) ∧
      ∀ step ∈ full.play wider added, step.1.subject? = some extra → ∀ sight ∈ step.2, sight.subject? = some extra := by
  induction added generalizing full base after with
  | nil =>
      obtain rfl : after = [] := by simpa using hadded.symm
      exact ⟨rfl, by simp [play]⟩
  | cons action added ih =>
      obtain ⟨hnextFull, hclockFull, hshownFull⟩ := hfull.perform wider action
      rw [play_cons]
      by_cases haction : action.subject? = some extra
      · -- The extra message's own step, and nothing of the kind in the session without it.
        have hclock : action.reading full.reading = base.reading := by
          cases action with
          | setClock => exact absurd haction (by simp [Action.subject?])
          | _ => exact hreading
        obtain ⟨hnext, hown⟩ := hspared.perform_extra wider full.reading haction
        rw [← hshownFull] at hnext hown
        rw [List.filter_cons_of_neg (by simp [Action.spares, haction])] at hadded
        obtain ⟨hrest, hlater⟩ := ih hnextFull hbase (hclockFull.trans hclock) hnext hadded
        refine ⟨?_, List.forall_mem_cons.mpr ⟨fun _ => hown, hlater⟩⟩
        rw [without, List.filter_cons_of_neg (by simp [Action.spares, haction])]
        exact hrest
      · rw [List.filter_cons_of_pos (by simp [Action.spares, haction])] at hadded
        obtain ⟨first, rest, rfl, rfl, hrest⟩ := List.map_eq_cons_iff.mp hadded.symm
        obtain ⟨hnextBase, hclockBase, hshownBase⟩ := hbase.perform conduct first
        have hagrees := hspared.perform hwider full.reading first
        rw [← hshownFull, hreading, ← hshownBase] at hagrees
        have hclock : (first.rename extra.skip).reading full.reading = first.reading base.reading := by
          cases first with
          | setClock => rfl
          | _ => exact hreading
        obtain ⟨hsteps, hlater⟩ :=
          ih hnextFull hnextBase (hclockFull.trans (hclock.trans hclockBase.symm)) hagrees.spared hrest.symm
        refine ⟨?_, List.forall_mem_cons.mpr ⟨fun hextra => absurd hextra haction, hlater⟩⟩
        rw [without, List.filter_cons_of_pos (by simp [Action.spares, haction]), List.map_cons, hagrees.sights]
        exact congrArg (_ :: ·) hsteps

-- Whether an enqueue would be accepted now.
def Admits (session : Session μ ρ) : Prop :=
  session.queue.dropped = false ∧ ∃ now, session.reading = .ok now

theorem perform_enqueue_admits {session : Session μ ρ} (h : session.Admits) (conduct : MessageId → Conduct ρ)
    (message : μ) :
    ∃ now, Plain.perform conduct session.reading session.queue.naive (.enqueue message) =
      ((Plain.enqueue (.ok now) session.queue.naive message).1,
        [.answered none (.admitted ⟨session.queue.nextId⟩)]) := by
  obtain ⟨hkept, now, hnow⟩ := h
  have hkept' : ¬session.queue.naive.dropped = true := by simpa [Queue.naive] using hkept
  refine ⟨now, ?_⟩
  rw [Plain.perform, Plain.ifKept, if_neg hkept', hnow]
  rfl

-- An enqueue that is refused leaves the queue as it is.
theorem perform_enqueue_refused {session : Session μ ρ} (h : ¬session.Admits) (conduct : MessageId → Conduct ρ)
    (message : μ) :
    ∃ reply, Plain.perform conduct session.reading session.queue.naive (.enqueue message) =
      (session.queue.naive, [.answered none reply]) := by
  rw [Plain.perform, Plain.ifKept]
  split
  · exact ⟨.dropped, rfl⟩
  · rename_i hkept
    have hkept' : session.queue.dropped = false := by simpa [Queue.naive] using hkept
    cases hreading : session.reading with
    | error fault => exact ⟨.rejected { message, fault }, rfl⟩
    | ok now => exact absurd ⟨hkept', now, hreading⟩ h

-- Messages do not influence one another. Where one more message is admitted in the middle of a session, and its
-- token is used whenever and however, the others fare as before: every step shows of them what it showed without
-- the extra message, but for the ids. Where it is refused nothing else happens.
theorem play_separates (settings : Settings) (observed : Bool) (reading : Except Fault Instant)
    (conduct wider : MessageId → Conduct ρ) (before after added : List (Action μ ρ)) (message : μ) :
    let start : Session μ ρ := { queue := Queue.make settings observed, reading }
    let here := start.after conduct before
    let extra : MessageId := ⟨here.queue.nextId⟩
    start.play conduct (before ++ after) = start.play conduct before ++ here.play conduct after ∧
      (here.Admits → (∀ id, wider (extra.skip id) = conduct id) →
        added.filter (Action.spares extra) = after.map (.rename extra.skip) →
        ∃ later, start.play wider (before ++ .enqueue message :: added) =
            start.play conduct before ++ (.enqueue message, [.answered none (.admitted extra)]) :: later ∧
          without extra later = renamed extra.skip (here.play conduct after) ∧
          ∀ step ∈ later, step.1.subject? = some extra → ∀ sight ∈ step.2, sight.subject? = some extra) ∧
      (¬here.Admits → ∃ reply, start.play conduct (before ++ .enqueue message :: after) =
        start.play conduct before ++ (.enqueue message, [.answered none reply]) :: here.play conduct after) := by
  intro start here extra
  have hstart : start.Settled := .make settings observed reading
  have hhere : here.Settled := (hstart.after conduct before).1
  refine ⟨play_append conduct start before after, ?_, ?_⟩
  · intro hadmits hwider hadded
    -- The extra message has no part in what comes before it.
    have hbelow (id : MessageId) (hid : id.serial < here.queue.nextId) : wider id = conduct id := by
      rw [← hwider, MessageId.skip_of_lt hid]
    obtain ⟨hplay, hnaive, hreading⟩ := hstart.play_congr hstart rfl rfl before hbelow
    obtain ⟨hnext, hclock, hshown⟩ := ((hstart.after wider before).1).perform wider (.enqueue message)
    obtain ⟨now, hadmitted⟩ := perform_enqueue_admits hadmits wider message
    rw [hnaive, hreading, hadmitted] at hshown
    obtain ⟨hqueue, hsights⟩ := Prod.mk.inj hshown
    obtain ⟨admitted, past, hs⟩ := hhere.sound
    have hspared := Plain.spared_admitted hs now message
    rw [← hqueue] at hspared
    refine ⟨_, ?_, hnext.play_spares hwider hhere (hclock.trans hreading) hspared hadded⟩
    rw [play_append, hplay, play_cons, hsights]
  · intro hrefuses
    obtain ⟨hnext, hclock, hshown⟩ := hhere.perform conduct (.enqueue message)
    obtain ⟨reply, hrefused⟩ := perform_enqueue_refused hrefuses conduct message
    obtain ⟨hqueue, hsights⟩ := Prod.mk.inj (hshown.trans hrefused)
    have hrest : (here.perform conduct (.enqueue message)).1.play conduct after = here.play conduct after :=
      (hhere.play_congr hnext hqueue hclock after fun id _ => rfl).1
    exact ⟨reply, by rw [play_append, play_cons, hsights, hrest]⟩

-- The clock is set forward and back. In between one more message is admitted, which the processor reports at once
-- and the owner in vain once more.
def keptFirst : List (Action String String) :=
  [.enqueue "a", .setClock (.ok 50)]

def reportedLater : List (Action String String) :=
  [.setClock (.ok 5), .enqueue "b", .tick, .setClock (.ok 9), .complete ⟨1⟩ .success none, .tick]

def reportedTwice : List (Action String String) :=
  [.setClock (.ok 5), .enqueue "b", .tick, .complete ⟨1⟩ .error none, .setClock (.ok 9), .complete ⟨2⟩ .success none,
    .dropToken ⟨1⟩, .tick]

theorem play_separates_setBack :
    let settings : Settings := { limits := { wait := some 30, processing := some 4 } }
    let start : Session String String := { queue := Queue.make settings true, reading := .ok 0 }
    let keep : MessageId → Conduct String := fun _ => .keep
    let wider : MessageId → Conduct String := fun id => if id = ⟨1⟩ then .report .error none else .keep
    (start.after keep keptFirst).Admits ∧ (∀ id, wider (MessageId.skip ⟨1⟩ id) = keep id) ∧
      reportedTwice.filter (Action.spares ⟨1⟩) = reportedLater.map (.rename (MessageId.skip ⟨1⟩)) ∧
      ∃ later, start.play wider (keptFirst ++ .enqueue "x" :: reportedTwice) =
          start.play keep keptFirst ++ (.enqueue "x", [.answered none (.admitted ⟨1⟩)]) :: later ∧
        without ⟨1⟩ later = renamed (MessageId.skip ⟨1⟩) ((start.after keep keptFirst).play keep reportedLater) := by
  intro settings start keep wider
  have hadmits : (start.after keep keptFirst).Admits := ⟨by decide +kernel, 50, by decide +kernel⟩
  have hwider (id : MessageId) : wider (MessageId.skip ⟨1⟩ id) = keep id := if_neg (MessageId.skip_ne ⟨1⟩ id)
  have hadded : reportedTwice.filter (Action.spares ⟨1⟩) = reportedLater.map (.rename (MessageId.skip ⟨1⟩)) := rfl
  obtain ⟨-, hextra, -⟩ := play_separates settings true (.ok 0) keep wider keptFirst reportedLater reportedTwice "x"
  obtain ⟨later, hplay, hwithout, -⟩ := hextra hadmits hwider hadded
  exact ⟨hadmits, hwider, hadded, later, hplay, hwithout⟩

end Session

end DeadlineQueue
