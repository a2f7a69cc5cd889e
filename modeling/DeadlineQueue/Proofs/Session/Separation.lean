import DeadlineQueue.Proofs.Session.Refinement

namespace DeadlineQueue

variable {μ ρ : Type}

theorem filter_erase_eq_erase_filter {α : Type} [DecidableEq α] (p : α → Bool) (value : α) (values : List α) :
    (values.erase value).filter p = (values.filter p).erase value := by
  induction values with
  | nil => rfl
  | cons first rest ih =>
      by_cases hfirst : first = value
      · subst hfirst
        cases hp : p first with
        | true => simp [hp]
        | false =>
            have hother : first ∉ rest.filter p := by simp [hp]
            simp [hp, List.erase_of_not_mem hother]
      · cases hp : p first <;> simp [hp, hfirst, ih]

theorem filter_filter_eq_map {α : Type} {keeps spares kept : α → Bool} {rename : α → α} {full base : List α}
    (h : full.filter spares = base.map rename) (hkeeps : ∀ value, keeps (rename value) = kept value) :
    (full.filter keeps).filter spares = (base.filter kept).map rename := by
  rw [List.filter_filter, List.filter_congr fun value _ => Bool.and_comm _ _, ← List.filter_filter, h, List.filter_map]
  congr 2
  funext value
  exact hkeeps value

namespace MessageId

-- The id that a message gets when one more message is admitted: all ids from that of the extra one on move up.
def skip (extra id : MessageId) : MessageId :=
  if id.serial < extra.serial then id else ⟨id.serial + 1⟩

theorem skip_ne (extra id : MessageId) : extra.skip id ≠ extra := by
  obtain ⟨serial⟩ := extra
  obtain ⟨other⟩ := id
  simp only [skip]
  split <;> simp only [ne_eq, mk.injEq] <;> omega

theorem skip_injective (extra : MessageId) : Function.Injective extra.skip := by
  rintro ⟨first⟩ ⟨second⟩ h
  simp only [skip] at h
  split at h <;> split at h <;> simp only [mk.injEq] at h ⊢ <;> omega

theorem skip_of_lt {extra id : MessageId} (h : id.serial < extra.serial) : extra.skip id = id :=
  if_pos h

theorem skip_of_le {extra id : MessageId} (h : extra.serial ≤ id.serial) : extra.skip id = ⟨id.serial + 1⟩ :=
  if_neg (Nat.not_lt.mpr h)

end MessageId

namespace Naive

def Waiting.rename (ids : MessageId → MessageId) (waiting : Waiting μ) : Waiting μ :=
  { waiting with id := ids waiting.id }

def Started.rename (ids : MessageId → MessageId) (started : Started μ) : Started μ :=
  { started with id := ids started.id }

end Naive

def Notice.rename (ids : MessageId → MessageId) (notice : Notice μ ρ) : Notice μ ρ :=
  { notice with id := ids notice.id }

def Reply.rename (ids : MessageId → MessageId) : Reply μ → Reply μ
  | admitted id => admitted (ids id)
  | reply => reply

namespace Session

namespace Sight

def rename (ids : MessageId → MessageId) : Sight μ ρ → Sight μ ρ
  | answered asker reply => answered (asker.map ids) (reply.rename ids)
  | handed id message => handed (ids id) message
  | told notice => told (notice.rename ids)

-- The message that a sight is about. An answer to the owner is about none.
def subject? : Sight μ ρ → Option MessageId
  | answered asker _ => asker
  | handed id _ => some id
  | told notice => some notice.id

-- What is not about the extra message.
def spares (extra : MessageId) (sight : Sight μ ρ) : Bool :=
  sight.subject? ≠ some extra

end Sight

namespace Action

def rename (ids : MessageId → MessageId) : Action μ ρ → Action μ ρ
  | complete id outcome reason => complete (ids id) outcome reason
  | dropToken id => dropToken (ids id)
  | action => action

def spares (extra : MessageId) (action : Action μ ρ) : Bool :=
  action.subject? ≠ some extra

end Action

theorem Sight.spares_rename (extra : MessageId) (sight : Sight μ ρ) :
    (sight.rename extra.skip).spares extra = true := by
  cases sight with
  | answered asker reply => cases asker <;> simp [Sight.spares, Sight.subject?, Sight.rename, extra.skip_ne]
  | handed | told => simp [Sight.spares, Sight.subject?, Sight.rename, Notice.rename, extra.skip_ne]

namespace Plain

theorem report_eq {naive : Naive μ ρ} {id : MessageId} {started : Naive.Started μ} (outcome : Outcome)
    (reason : Option ρ) (hkept : naive.dropped = false)
    (hfind : naive.inProgress.find? (fun started => started.id = id) = some started) :
    report naive id outcome reason =
      ({ naive with
          held := naive.held.erase id
          inProgress := naive.inProgress.filter fun started => started.id ≠ id },
        [.told (started.notice outcome reason), .answered (some id) (.delivered true)]) := by
  unfold report
  rw [hkept, hfind]

theorem report_eq_late {naive : Naive μ ρ} {id : MessageId} (outcome : Outcome) (reason : Option ρ)
    (hlate : naive.dropped = true ∨ naive.inProgress.find? (fun started => started.id = id) = none) :
    report naive id outcome reason =
      ({ naive with held := naive.held.erase id }, [.answered (some id) (.delivered false)]) := by
  unfold report
  dsimp only
  split
  · simp_all
  · rfl

-- But for the extra message and the ids the two queues are the same.
structure Spared (extra : MessageId) (full base : Naive μ ρ) : Prop where
  limits : full.limits = base.limits
  dropped : full.dropped = base.dropped
  pending : full.pending.filter (fun waiting => waiting.id ≠ extra) = base.pending.map (.rename extra.skip)
  inProgress : full.inProgress.filter (fun started => started.id ≠ extra) = base.inProgress.map (.rename extra.skip)
  held : full.held.filter (fun id => id ≠ extra) = base.held.map extra.skip
  nextId : full.nextId = base.nextId + 1
  admitted : extra.serial ≤ base.nextId

-- And so is what they show, but for what is about the extra message.
structure Agrees (extra : MessageId) (full base : Shown μ ρ) : Prop where
  spared : Spared extra full.1 base.1
  sights : full.2.filter (Sight.spares extra) = base.2.map (.rename extra.skip)

-- A part of a step that is for the extra message only.
structure Apart (extra : MessageId) (full : Shown μ ρ) (base : Naive μ ρ) : Prop where
  spared : Spared extra full.1 base
  own : ∀ sight ∈ full.2, sight.subject? = some extra

section Spared

variable {extra : MessageId} {full base : Naive μ ρ} (h : Spared extra full base)
include h

theorem Spared.find (id : MessageId) :
    full.inProgress.find? (fun started => started.id = extra.skip id) =
      (base.inProgress.find? fun started => started.id = id).map (.rename extra.skip) := by
  have hspared : full.inProgress.find? (fun started => started.id = extra.skip id) =
      (full.inProgress.filter fun started => started.id ≠ extra).find? fun started => started.id = extra.skip id := by
    rw [List.find?_filter]
    congr 1
    funext started
    by_cases hid : started.id = extra.skip id <;> simp [hid, extra.skip_ne]
  rw [hspared, h.inProgress, List.find?_map]
  congr 2
  funext started
  simp [Naive.Started.rename, extra.skip_injective.eq_iff]

theorem Spared.remove (id : MessageId) :
    (full.inProgress.filter fun started => started.id ≠ extra.skip id).filter (fun started => started.id ≠ extra) =
      (base.inProgress.filter fun started => started.id ≠ id).map (.rename extra.skip) :=
  filter_filter_eq_map h.inProgress fun started => by simp [Naive.Started.rename, extra.skip_injective.eq_iff]

theorem Spared.erase (id : MessageId) :
    (full.held.erase (extra.skip id)).filter (fun id => id ≠ extra) = (base.held.erase id).map extra.skip := by
  rw [filter_erase_eq_erase_filter, h.held, List.map_erase extra.skip_injective]

theorem Spared.erase_extra : (full.held.erase extra).filter (fun id => id ≠ extra) = base.held.map extra.skip := by
  rw [filter_erase_eq_erase_filter, List.erase_of_not_mem (by simp), h.held]

end Spared

section token

variable {extra : MessageId} {full base : Naive μ ρ}

theorem Agrees.map {full base : Naive μ ρ} (h : Spared extra full base) (sights : List (Sight μ ρ)) :
    Agrees extra (full, sights.map (.rename extra.skip)) (base, sights) where
  spared := h
  sights := by
    rw [List.filter_eq_self]
    intro sight hsight
    obtain ⟨sight, -, rfl⟩ := List.mem_map.mp hsight
    exact sight.spares_rename extra

-- A token of another message.
theorem Spared.discard (h : Spared extra full base) (id : MessageId) :
    Agrees extra (discard full (extra.skip id)) (discard base id) :=
  have hused : Spared extra { full with held := full.held.erase (extra.skip id) }
      { base with held := base.held.erase id } := { h with held := h.erase id }
  .map hused [.answered (some id) .done]

theorem Spared.report (h : Spared extra full base) (id : MessageId) (outcome : Outcome) (reason : Option ρ) :
    Agrees extra (report full (extra.skip id) outcome reason) (report base id outcome reason) := by
  have hused : Spared extra { full with held := full.held.erase (extra.skip id) }
      { base with held := base.held.erase id } := { h with held := h.erase id }
  by_cases hlate : base.dropped = true ∨ base.inProgress.find? (fun started => started.id = id) = none
  · have hlate' : full.dropped = true ∨ full.inProgress.find? (fun started => started.id = extra.skip id) = none := by
      rwa [h.dropped, h.find id, Option.map_eq_none_iff]
    rw [report_eq_late outcome reason hlate, report_eq_late outcome reason hlate']
    exact .map hused [.answered (some id) (.delivered false)]
  · obtain ⟨hkept, hfound⟩ := not_or.mp hlate
    obtain ⟨started, hfind⟩ := Option.ne_none_iff_exists'.mp hfound
    have hkept : base.dropped = false := by simpa using hkept
    have hfind' : full.inProgress.find? (fun started => started.id = extra.skip id) =
        some (started.rename extra.skip) := by rw [h.find id, hfind, Option.map_some]
    have hremoved : Spared extra
        { full with
          held := full.held.erase (extra.skip id)
          inProgress := full.inProgress.filter fun started => started.id ≠ extra.skip id }
        { base with
          held := base.held.erase id
          inProgress := base.inProgress.filter fun started => started.id ≠ id } :=
      { hused with inProgress := h.remove id }
    rw [report_eq outcome reason hkept hfind, report_eq outcome reason (h.dropped.trans hkept) hfind']
    exact .map hremoved [.told (started.notice outcome reason), .answered (some id) (.delivered true)]

-- The token of the extra message.
theorem Spared.discard_extra (h : Spared extra full base) : Apart extra (Plain.discard full extra) base where
  spared := { h with held := h.erase_extra }
  own := by simp [Plain.discard, Sight.subject?]

theorem Spared.report_extra (h : Spared extra full base) (outcome : Outcome) (reason : Option ρ) :
    Apart extra (Plain.report full extra outcome reason) base := by
  have hused : Spared extra { full with held := full.held.erase extra } base := { h with held := h.erase_extra }
  unfold Plain.report
  dsimp only
  split
  · rename_i started _ hfind
    have hid : started.id = extra := by simpa using List.find?_some hfind
    have hremoved :
        (full.inProgress.filter fun started => started.id ≠ extra).filter (fun started => started.id ≠ extra) =
          base.inProgress.map (.rename extra.skip) := by
      rw [List.filter_filter]
      simpa using h.inProgress
    exact ⟨{ hused with inProgress := hremoved }, by simp [Sight.subject?, Naive.Waiting.notice, hid]⟩
  · exact ⟨hused, by simp [Sight.subject?]⟩

theorem Spared.spend (h : Spared extra full base) (id : MessageId) (conduct : Conduct ρ) :
    Agrees extra (spend full (extra.skip id) conduct) (spend base id conduct) := by
  cases conduct with
  | keep => exact .map h []
  | drop => exact h.discard id
  | report outcome reason => exact h.report id outcome reason

theorem Spared.spend_extra (h : Spared extra full base) (conduct : Conduct ρ) :
    Apart extra (Plain.spend full extra conduct) base := by
  cases conduct with
  | keep => exact ⟨h, by simp [Plain.spend]⟩
  | drop => exact h.discard_extra
  | report outcome reason => exact h.report_extra outcome reason

end token

section combine

variable {extra : MessageId}

theorem Agrees.append {full base : Shown μ ρ} {told shown : List (Sight μ ρ)} (h : Agrees extra full base)
    (htold : told.filter (Sight.spares extra) = shown.map (.rename extra.skip)) :
    Agrees extra (full.1, told ++ full.2) (base.1, shown ++ base.2) where
  spared := h.spared
  sights := by rw [List.filter_append, htold, h.sights, List.map_append]

-- Sights that are all about the extra message add nothing.
theorem filter_own {sights : List (Sight μ ρ)} (h : ∀ sight ∈ sights, sight.subject? = some extra) :
    sights.filter (Sight.spares extra) = [] := by
  rw [List.filter_eq_nil_iff]
  intro sight hsight
  simp [Sight.spares, h sight hsight]

end combine

section dispatch

variable {extra : MessageId} {wider conduct : MessageId → Conduct ρ} (hwider : ∀ id, wider (extra.skip id) = conduct id)
  {full base : Naive μ ρ}

include hwider in
theorem Spared.start (h : Spared extra full base) (reading : Except Fault Instant) (waiting : Naive.Waiting μ) :
    Agrees extra (start wider reading full (waiting.rename extra.skip)) (start conduct reading base waiting) := by
  cases reading with
  | error fault => exact .map h [.told (waiting.notice .error none)]
  | ok now =>
      let begunFull : Naive μ ρ := { full with
        inProgress := full.inProgress ++ [{ waiting.rename extra.skip with startedAt := now }]
        held := full.held ++ [extra.skip waiting.id] }
      let begunBase : Naive μ ρ := { base with
        inProgress := base.inProgress ++ [{ waiting with startedAt := now }], held := base.held ++ [waiting.id] }
      have hbegun : Spared extra begunFull begunBase := { h with
        inProgress := by
          rw [List.filter_append, h.inProgress, List.map_append,
            List.filter_eq_self.mpr (by simp [Naive.Waiting.rename, extra.skip_ne])]
          rfl
        held := by
          rw [List.filter_append, h.held, List.map_append, List.filter_eq_self.mpr (by simp [extra.skip_ne])]
          rfl }
      have hspent : Agrees extra (Plain.spend begunFull (extra.skip waiting.id) (wider (extra.skip waiting.id)))
          (Plain.spend begunBase waiting.id (conduct waiting.id)) := by
        rw [hwider]
        exact hbegun.spend waiting.id (conduct waiting.id)
      have htold : ([.handed (extra.skip waiting.id) waiting.message] : List (Sight μ ρ)).filter (Sight.spares extra) =
          [.handed waiting.id waiting.message].map (.rename extra.skip) :=
        List.filter_cons_of_pos (Sight.spares_rename extra (.handed waiting.id waiting.message))
      exact hspent.append htold

-- The extra message is handed over.
theorem Spared.start_extra (h : Spared extra full base) (wider : MessageId → Conduct ρ)
    (reading : Except Fault Instant) {waiting : Naive.Waiting μ} (hid : waiting.id = extra) :
    Apart extra (Plain.start wider reading full waiting) base := by
  cases reading with
  | error fault => exact ⟨h, by simp [Plain.start, Sight.subject?, Naive.Waiting.notice, hid]⟩
  | ok now =>
      let begun : Naive μ ρ := { full with
        inProgress := full.inProgress ++ [{ waiting with startedAt := now }], held := full.held ++ [waiting.id] }
      have hbegun : Spared extra begun base := { h with
        inProgress := by
          rw [List.filter_append, h.inProgress, List.filter_eq_nil_iff.mpr (by simp [hid]), List.append_nil]
        held := by rw [List.filter_append, h.held, List.filter_eq_nil_iff.mpr (by simp [hid]), List.append_nil] }
      have hspent := hbegun.spend_extra (wider extra)
      rw [← hid] at hspent ⊢
      exact ⟨hspent.spared, List.forall_mem_cons.mpr ⟨rfl, hspent.own⟩⟩

include hwider in
theorem Spared.dispatch (h : Spared extra full base) (reading : Except Fault Instant)
    {fullBatch batch : List (Naive.Waiting μ)} (hpending : base.pending = batch)
    (hbatch : fullBatch.filter (fun waiting => waiting.id ≠ extra) = batch.map (.rename extra.skip)) :
    Agrees extra (dispatch wider reading full fullBatch) (dispatch conduct reading base batch) := by
  induction fullBatch generalizing full base batch with
  | nil =>
      obtain rfl : batch = [] := by simpa using hbatch.symm
      exact .map h []
  | cons waiting fullBatch ih =>
      by_cases hid : waiting.id = extra
      · rw [List.filter_cons_of_neg (by simpa using hid)] at hbatch
        have hleft : Spared extra { full with pending := fullBatch } base :=
          { h with pending := by rw [hbatch, hpending] }
        have hstarted := hleft.start_extra wider reading hid
        have htold : (Plain.start wider reading { full with pending := fullBatch } waiting).2.filter
            (Sight.spares extra) = ([] : List (Sight μ ρ)).map (.rename extra.skip) := filter_own hstarted.own
        exact (ih hstarted.spared hpending hbatch).append htold
      · rw [List.filter_cons_of_pos (by simpa using hid)] at hbatch
        obtain ⟨first, rest, rfl, rfl, hrest⟩ := List.map_eq_cons_iff.mp hbatch.symm
        have hleft : Spared extra { full with pending := fullBatch } { base with pending := rest } :=
          { h with pending := hrest.symm }
        have hstarted := hleft.start hwider reading first
        obtain ⟨held, inProgress, hstart⟩ := exists_start conduct reading { base with pending := rest } first
        exact (ih hstarted.spared (by rw [hstart]) hrest.symm).append hstarted.sights

end dispatch

section sweep

variable {extra : MessageId} {full base : Naive μ ρ}

theorem filter_toWaiting {full base : List (Naive.Started μ)}
    (h : full.filter (fun started => started.id ≠ extra) = base.map (.rename extra.skip)) :
    (full.map (·.toWaiting)).filter (fun waiting => waiting.id ≠ extra) =
      (base.map (·.toWaiting)).map (.rename extra.skip) := by
  rw [List.filter_map, List.map_map]
  refine (congrArg (List.map (·.toWaiting)) h).trans ?_
  rw [List.map_map]
  rfl

theorem Spared.take (h : Spared extra full base) (now : Instant) (look : Naive.Look) :
    Spared extra (full.take now look).2 (base.take now look).2 ∧
      (full.take now look).1.filter (fun waiting => waiting.id ≠ extra) =
        (base.take now look).1.map (.rename extra.skip) := by
  cases look with
  | waiting deadline =>
      exact ⟨{ h with pending := filter_filter_eq_map h.pending fun _ => rfl },
        filter_filter_eq_map h.pending fun _ => rfl⟩
  | lasting deadline | working deadline =>
      exact ⟨{ h with inProgress := filter_filter_eq_map h.inProgress fun _ => rfl },
        filter_toWaiting (filter_filter_eq_map h.inProgress fun _ => rfl)⟩

-- A batch of messages that all get the same notice.
theorem filter_told {fullBatch batch : List (Naive.Waiting μ)} (outcome : Outcome)
    (h : fullBatch.filter (fun waiting => waiting.id ≠ extra) = batch.map (.rename extra.skip)) :
    (fullBatch.map fun waiting => (.told (waiting.notice outcome none) : Sight μ ρ)).filter (Sight.spares extra) =
      (batch.map fun waiting => (.told (waiting.notice outcome none) : Sight μ ρ)).map (.rename extra.skip) := by
  have hspares :
      (Sight.spares extra ∘ fun waiting : Naive.Waiting μ => (.told (waiting.notice outcome none) : Sight μ ρ)) =
        fun waiting => decide (waiting.id ≠ extra) := by
    funext waiting
    simp [Sight.spares, Sight.subject?, Naive.Waiting.notice]
  rw [List.filter_map, hspares, h, List.map_map, List.map_map]
  rfl

theorem Spared.sweep (h : Spared extra full base) (now : Instant) (looks : List Naive.Look) :
    Agrees extra (sweep now full looks) (sweep now base looks) := by
  induction looks generalizing full base with
  | nil => exact .map h []
  | cons look looks ih =>
      obtain ⟨hleft, hbatch⟩ := h.take now look
      exact (ih hleft).append (filter_told .timeout hbatch)

theorem Spared.swept (h : Spared extra full base) (reading : Except Fault Instant) :
    Agrees extra (swept reading full) (swept reading base) := by
  cases reading with
  | error fault => exact .map h []
  | ok now =>
      unfold Plain.swept
      dsimp only
      rw [h.limits]
      exact h.sweep now _

end sweep

section perform

variable {extra : MessageId} {full base : Naive μ ρ}

-- The owner gets an answer.
theorem Agrees.answered {full base : Shown μ ρ} (h : Agrees extra full base) (reply : Reply μ) :
    Agrees extra (full.1, full.2 ++ [.answered none (reply.rename extra.skip)])
      (base.1, base.2 ++ [.answered none reply]) where
  spared := h.spared
  sights := by
    have hanswered : ([.answered none (reply.rename extra.skip)] : List (Sight μ ρ)).filter (Sight.spares extra) =
        [.answered none reply].map (.rename extra.skip) :=
      List.filter_cons_of_pos (Sight.spares_rename extra (.answered none reply))
    rw [List.filter_append, h.sights, hanswered, List.map_append]

theorem Spared.drain (h : Spared extra full base) : Agrees extra (drain full) (drain base) := by
  have hcleared :
      Spared extra { full with inProgress := [], pending := [] } { base with inProgress := [], pending := [] } :=
    { h with inProgress := rfl, pending := rfl }
  have hbatch : (full.inProgress.map (·.toWaiting) ++ full.pending).filter (fun waiting => waiting.id ≠ extra) =
      (base.inProgress.map (·.toWaiting) ++ base.pending).map (.rename extra.skip) := by
    rw [List.filter_append, filter_toWaiting h.inProgress, h.pending, List.map_append]
  exact ((Agrees.map hcleared []).answered .done).append (filter_told .cancelled hbatch)

theorem Spared.tick {wider conduct : MessageId → Conduct ρ} (hwider : ∀ id, wider (extra.skip id) = conduct id)
    (h : Spared extra full base) (reading : Except Fault Instant) :
    Agrees extra (tick wider reading full) (tick conduct reading base) := by
  have hswept := h.swept reading
  have hdispatched := hswept.spared.dispatch hwider reading rfl hswept.spared.pending
  exact (hdispatched.append hswept.sights).answered .done

theorem Spared.enqueue (h : Spared extra full base) (reading : Except Fault Instant) (message : μ) :
    Agrees extra (enqueue reading full message) (enqueue reading base message) := by
  cases reading with
  | error fault => exact (Agrees.map h []).answered (.rejected { message, fault })
  | ok now =>
      have hid : (⟨full.nextId⟩ : MessageId) = extra.skip ⟨base.nextId⟩ := by
        rw [extra.skip_of_le h.admitted, h.nextId]
      have hspared : Spared extra
          { full with
            pending := full.pending ++ [{ id := ⟨full.nextId⟩, message, enqueuedAt := now }]
            nextId := full.nextId + 1 }
          { base with
            pending := base.pending ++ [{ id := ⟨base.nextId⟩, message, enqueuedAt := now }]
            nextId := base.nextId + 1 } := { h with
        pending := by
          rw [List.filter_append, h.pending, List.map_append, hid,
            List.filter_eq_self.mpr (by simp [extra.skip_ne])]
          rfl
        nextId := congrArg (· + 1) h.nextId
        admitted := h.admitted.trans (Nat.le_succ _) }
      have hanswered := (Agrees.map hspared []).answered (.admitted ⟨base.nextId⟩)
      rw [Reply.rename, ← hid] at hanswered
      exact hanswered

theorem Spared.ifKept (h : Spared extra full base) {fullNext next : Shown μ ρ} (hnext : Agrees extra fullNext next) :
    Agrees extra (ifKept full fullNext) (ifKept base next) := by
  unfold Plain.ifKept
  rw [h.dropped]
  split
  · exact (Agrees.map h []).answered .dropped
  · exact hnext

theorem Spared.mem_held (h : Spared extra full base) (id : MessageId) : extra.skip id ∈ full.held ↔ id ∈ base.held := by
  have hmem : extra.skip id ∈ full.held.filter (fun id => id ≠ extra) ↔ extra.skip id ∈ base.held.map extra.skip := by
    rw [h.held]
  rwa [List.mem_filter, List.mem_map_of_injective extra.skip_injective, and_iff_left (by simp [extra.skip_ne])] at hmem

theorem Spared.ifHeld (h : Spared extra full base) (id : MessageId) {fullNext next : Shown μ ρ}
    (hnext : Agrees extra fullNext next) :
    Agrees extra (ifHeld full (extra.skip id) fullNext) (ifHeld base id next) := by
  unfold Plain.ifHeld
  by_cases hheld : id ∈ base.held
  · rw [if_pos hheld, if_pos ((h.mem_held id).mpr hheld)]
    exact hnext
  · rw [if_neg hheld, if_neg (mt (h.mem_held id).mp hheld)]
    exact .map h [.answered (some id) .noToken]

-- A step that has nothing to do with the extra message.
theorem Spared.perform {wider conduct : MessageId → Conduct ρ} (hwider : ∀ id, wider (extra.skip id) = conduct id)
    (h : Spared extra full base) (reading : Except Fault Instant) (action : Action μ ρ) :
    Agrees extra (perform wider reading full (action.rename extra.skip)) (perform conduct reading base action) := by
  cases action with
  | setClock reading => exact .map h []
  | enqueue message => exact h.ifKept (h.enqueue reading message)
  | tick => exact h.ifKept (h.tick hwider reading)
  | drain => exact h.ifKept h.drain
  | setLimits limits =>
      have hset : Spared extra { full with limits } { base with limits } := { h with limits := rfl }
      exact h.ifKept ((Agrees.map hset []).answered .done)
  | drop =>
      have hdropped : Spared extra { full with dropped := true } { base with dropped := true } :=
        { h with dropped := rfl }
      exact h.ifKept ((Agrees.map hdropped []).answered .done)
  | complete id outcome reason => exact h.ifHeld id (h.report id outcome reason)
  | dropToken id => exact h.ifHeld id (h.discard id)

-- A step that uses the token of the extra message.
theorem Spared.perform_extra (h : Spared extra full base) (wider : MessageId → Conduct ρ)
    (reading : Except Fault Instant) {action : Action μ ρ} (haction : action.subject? = some extra) :
    Apart extra (Plain.perform wider reading full action) base := by
  have hapart {next : Shown μ ρ} (hnext : Apart extra next base) : Apart extra (Plain.ifHeld full extra next) base := by
    unfold Plain.ifHeld
    split
    · exact hnext
    · exact ⟨h, by simp [Sight.subject?]⟩
  cases action with
  | complete id outcome reason =>
      obtain rfl := Option.some.inj haction
      exact hapart (h.report_extra outcome reason)
  | dropToken id =>
      obtain rfl := Option.some.inj haction
      exact hapart h.discard_extra
  | _ => exact absurd haction (by simp [Action.subject?])

end perform

end Plain

end Session

end DeadlineQueue
