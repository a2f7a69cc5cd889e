import DeadlineQueue.Proofs.Session.Basic
import Mathlib.Logic.Relation

namespace DeadlineQueue.Session

variable {μ ρ : Type}

-- What a step comes to: the queue after it, when all calls have returned, and what is seen of it.
abbrev Shown (μ ρ : Type) := Naive μ ρ × List (Sight μ ρ)

namespace Plain

-- A token is used for a report. After a drop it is too late.
def report (naive : Naive μ ρ) (id : MessageId) (outcome : Outcome) (reason : Option ρ) : Shown μ ρ :=
  let used := { naive with held := naive.held.erase id }
  match naive.dropped, naive.inProgress.find? (fun started => started.id = id) with
  | false, some started =>
    ({ used with inProgress := naive.inProgress.filter (fun started => started.id ≠ id) },
      [.told (started.notice outcome reason), .answered (some id) (.delivered true)])
  | _, _ => (used, [.answered (some id) (.delivered false)])

def discard (naive : Naive μ ρ) (id : MessageId) : Shown μ ρ :=
  ({ naive with held := naive.held.erase id }, [.answered (some id) .done])

def spend (naive : Naive μ ρ) (id : MessageId) : Conduct ρ → Shown μ ρ
  | .keep => (naive, [])
  | .drop => discard naive id
  | .report outcome reason => report naive id outcome reason

-- A message that has waited is handed over.
def start (conduct : MessageId → Conduct ρ) (reading : Except Fault Instant) (naive : Naive μ ρ)
    (waiting : Naive.Waiting μ) : Shown μ ρ :=
  match reading with
  | .error _ => (naive, [.told (waiting.notice .error none)])
  | .ok now =>
    let begun := { naive with
      inProgress := naive.inProgress ++ [{ waiting with startedAt := now }], held := naive.held ++ [waiting.id] }
    let (next, sights) := spend begun waiting.id (conduct waiting.id)
    (next, .handed waiting.id waiting.message :: sights)

def dispatch (conduct : MessageId → Conduct ρ) (reading : Except Fault Instant) (naive : Naive μ ρ) :
    List (Naive.Waiting μ) → Shown μ ρ
  | [] => (naive, [])
  | waiting :: rest =>
    let (next, sights) := start conduct reading { naive with pending := rest } waiting
    let (last, later) := dispatch conduct reading next rest
    (last, sights ++ later)

def sweep (now : Instant) (naive : Naive μ ρ) : List Naive.Look → Shown μ ρ
  | [] => (naive, [])
  | look :: looks =>
    let (batch, left) := naive.take now look
    let (last, later) := sweep now left looks
    (last, batch.map (fun waiting => .told (waiting.notice .timeout none)) ++ later)

-- There is no sweep if the clock fails.
def swept (reading : Except Fault Instant) (naive : Naive μ ρ) : Shown μ ρ :=
  match reading with
  | .error _ => (naive, [])
  | .ok now => sweep now naive (Naive.looks naive.limits)

def tick (conduct : MessageId → Conduct ρ) (reading : Except Fault Instant) (naive : Naive μ ρ) : Shown μ ρ :=
  let (left, sights) := swept reading naive
  let (last, later) := dispatch conduct reading left left.pending
  (last, sights ++ later ++ [.answered none .done])

def drain (naive : Naive μ ρ) : Shown μ ρ :=
  let batch := naive.inProgress.map (·.toWaiting) ++ naive.pending
  ({ naive with inProgress := [], pending := [] },
    batch.map (fun waiting => .told (waiting.notice .cancelled none)) ++ [.answered none .done])

def enqueue (reading : Except Fault Instant) (naive : Naive μ ρ) (message : μ) : Shown μ ρ :=
  match reading with
  | .error fault => (naive, [.answered none (.rejected { message, fault })])
  | .ok now =>
    ({ naive with
        pending := naive.pending ++ [{ id := ⟨naive.nextId⟩, message, enqueuedAt := now }]
        nextId := naive.nextId + 1 },
      [.answered none (.admitted ⟨naive.nextId⟩)])

def ifHeld (naive : Naive μ ρ) (id : MessageId) (next : Shown μ ρ) : Shown μ ρ :=
  if id ∈ naive.held then next else (naive, [.answered (some id) .noToken])

def ifKept (naive : Naive μ ρ) (next : Shown μ ρ) : Shown μ ρ :=
  if naive.dropped then (naive, [.answered none .dropped]) else next

-- A whole step of a session, with nothing between its beginning and its end.
def perform (conduct : MessageId → Conduct ρ) (reading : Except Fault Instant) (naive : Naive μ ρ) :
    Action μ ρ → Shown μ ρ
  | .setClock _ => (naive, [])
  | .enqueue message => ifKept naive (enqueue reading naive message)
  | .tick => ifKept naive (tick conduct reading naive)
  | .drain => ifKept naive (drain naive)
  | .setLimits limits => ifKept naive ({ naive with limits }, [.answered none .done])
  | .drop => ifKept naive ({ naive with dropped := true }, [.answered none .done])
  | .complete id outcome reason => ifHeld naive id (report naive id outcome reason)
  | .dropToken id => ifHeld naive id (discard naive id)

-- What runs above does not matter to a token.
theorem report_stack (naive : Naive μ ρ) (stack : List (Naive.Frame μ ρ)) (id : MessageId) (outcome : Outcome)
    (reason : Option ρ) :
    report { naive with stack } id outcome reason =
      ({ (report naive id outcome reason).1 with stack }, (report naive id outcome reason).2) := by
  unfold report
  cases naive.dropped with
  | true => rfl
  | false =>
      dsimp only
      cases naive.inProgress.find? (fun started => started.id = id) <;> rfl

-- A token changes nothing but itself and what is in progress.
theorem exists_spend (naive : Naive μ ρ) (id : MessageId) (conduct : Conduct ρ) :
    ∃ held inProgress, (spend naive id conduct).1 = { naive with held, inProgress } := by
  cases conduct with
  | keep => exact ⟨naive.held, naive.inProgress, rfl⟩
  | drop => exact ⟨naive.held.erase id, naive.inProgress, rfl⟩
  | report outcome reason =>
      unfold spend report
      dsimp only
      split
      · exact ⟨naive.held.erase id, naive.inProgress.filter (fun started => started.id ≠ id), rfl⟩
      · exact ⟨naive.held.erase id, naive.inProgress, rfl⟩

theorem exists_start (conduct : MessageId → Conduct ρ) (reading : Except Fault Instant) (naive : Naive μ ρ)
    (waiting : Naive.Waiting μ) :
    ∃ held inProgress, (start conduct reading naive waiting).1 = { naive with held, inProgress } := by
  cases reading with
  | error fault => exact ⟨naive.held, naive.inProgress, rfl⟩
  | ok now => exact exists_spend { naive with inProgress := _, held := _ } waiting.id (conduct waiting.id)

theorem exists_dispatch (conduct : MessageId → Conduct ρ) (reading : Except Fault Instant) (naive : Naive μ ρ)
    (batch : List (Naive.Waiting μ)) :
    ∃ pending held inProgress, (dispatch conduct reading naive batch).1 = { naive with pending, held, inProgress } := by
  induction batch generalizing naive with
  | nil => exact ⟨naive.pending, naive.held, naive.inProgress, rfl⟩
  | cons waiting batch ih =>
      obtain ⟨held, inProgress, hstart⟩ := exists_start conduct reading { naive with pending := batch } waiting
      obtain ⟨pending, held', inProgress', hrest⟩ :=
        ih (start conduct reading { naive with pending := batch } waiting).1
      exact ⟨pending, held', inProgress', by rw [dispatch, hrest, hstart]⟩

theorem exists_sweep (now : Instant) (naive : Naive μ ρ) (looks : List Naive.Look) :
    ∃ pending inProgress, (sweep now naive looks).1 = { naive with pending, inProgress } := by
  induction looks generalizing naive with
  | nil => exact ⟨naive.pending, naive.inProgress, rfl⟩
  | cons look looks ih =>
      obtain ⟨pending, inProgress, hrest⟩ := ih (naive.take now look).2
      exact ⟨pending, inProgress, by rw [sweep, hrest]; cases look <;> rfl⟩

theorem exists_swept (reading : Except Fault Instant) (naive : Naive μ ρ) :
    ∃ pending inProgress, (swept reading naive).1 = { naive with pending, inProgress } := by
  cases reading with
  | error fault => exact ⟨naive.pending, naive.inProgress, rfl⟩
  | ok now => exact exists_sweep now naive (Naive.looks naive.limits)

end Plain

namespace Surroundings

theorem note_nil (surroundings : Surroundings μ ρ) : surroundings.note [] = surroundings := by
  rw [note, List.append_nil]

theorem note_note (surroundings : Surroundings μ ρ) (first second : List (Sight μ ρ)) :
    (surroundings.note first).note second = surroundings.note (first ++ second) := by
  rw [note, note, note, List.append_assoc]

-- Whoever asked gets the answer.
theorem see_returned (surroundings : Surroundings μ ρ) (asker : Option MessageId) (sights : List (Sight μ ρ))
    (reply : Reply μ) :
    ({ surroundings with askers := asker :: surroundings.askers }.note sights).see (.returned reply) =
      surroundings.note (sights ++ [.answered asker reply]) := by
  rw [← note_note]
  rfl

-- The naive queue makes a move, and its surroundings see what there is to see.
def follow (surroundings : Surroundings μ ρ) (naive : Naive μ ρ) (move : Move μ ρ) : Surroundings μ ρ × Naive μ ρ :=
  let (next, seen) := naive.step move
  (seen.foldl see surroundings, next)

-- The next turn while a call is running.
def next? (surroundings : Surroundings μ ρ) (naive : Naive μ ρ) : Option (Surroundings μ ρ × Naive μ ρ) :=
  match naive.stack with
  | [] => none
  | .processing id _ :: _ =>
    if surroundings.unused then
      let (move, used) := surroundings.use ⟨0, id⟩
      some (used.follow naive move)
    else some (surroundings.follow naive .finish)
  | frame :: _ =>
    match frame.turn with
    | .queue => some (surroundings.follow naive .advance)
    | .clock => some (surroundings.follow naive (.read surroundings.read))
    | .user => some (surroundings.follow naive .finish)

end Surroundings

-- What a queue and its surroundings come to in turns.
abbrev Leads : Surroundings μ ρ × Naive μ ρ → Surroundings μ ρ × Naive μ ρ → Prop :=
  Relation.ReflTransGen fun first second => first.1.next? first.2 = some second

namespace Leads

variable {surroundings next : Surroundings μ ρ} {naive : Naive μ ρ} {final : Surroundings μ ρ × Naive μ ρ}

theorem turn {between : Surroundings μ ρ × Naive μ ρ} (hnext : surroundings.next? naive = some between)
    (hrest : Leads between final) : Leads (surroundings, naive) final :=
  .head hnext hrest

-- A notice is delivered at once.
theorem raise (surroundings : Surroundings μ ρ) (naive : Naive μ ρ) (hempty : naive.outbox = [])
    (stack : List (Naive.Frame μ ρ)) (hstack : stack.any Naive.Frame.isDelivering = false) (notice : Notice μ ρ) :
    Leads (surroundings, naive.raise stack notice) (surroundings.note [.told notice], { naive with stack }) := by
  obtain ⟨limits, observed, pending, inProgress, nextId, outbox, held, dropped, below⟩ := naive
  obtain rfl : outbox = [] := hempty
  rw [Naive.raise, if_neg (by simp [hstack])]
  cases observed with
  | false => exact .turn rfl (.turn rfl .refl)
  | true => exact .turn rfl (.turn rfl (.turn rfl .refl))

section loops

variable (hempty : naive.outbox = []) {rest : List (Naive.Frame μ ρ)}
  (hrest : rest.any Naive.Frame.isDelivering = false)
include hempty hrest

theorem retiring (surroundings : Surroundings μ ρ) (batch : List (Naive.Waiting μ)) :
    Leads (surroundings, { naive with stack := .retiring batch :: rest })
      (surroundings.note (batch.map fun waiting => .told (waiting.notice .timeout none)),
        { naive with stack := rest }) := by
  induction batch generalizing surroundings with
  | nil =>
      rw [List.map_nil, Surroundings.note_nil]
      exact .turn rfl .refl
  | cons waiting batch ih =>
      have htold := ih (surroundings.note [.told (waiting.notice .timeout none)])
      rw [Surroundings.note_note] at htold
      exact .turn rfl ((raise surroundings _ hempty (.retiring batch :: rest) hrest _).trans htold)

theorem draining (surroundings : Surroundings μ ρ) (batch : List (Naive.Waiting μ)) :
    Leads (surroundings, { naive with stack := .draining batch :: rest })
      ((surroundings.note (batch.map fun waiting => .told (waiting.notice .cancelled none))).see (.returned .done),
        { naive with stack := rest }) := by
  induction batch generalizing surroundings with
  | nil =>
      rw [List.map_nil, Surroundings.note_nil]
      exact .turn rfl .refl
  | cons waiting batch ih =>
      have htold := ih (surroundings.note [.told (waiting.notice .cancelled none)])
      rw [Surroundings.note_note] at htold
      exact .turn rfl ((raise surroundings _ hempty (.draining batch :: rest) hrest _).trans htold)

theorem looking (surroundings : Surroundings μ ρ) (now : Instant) (looks : List Naive.Look) :
    Leads (surroundings, { naive with stack := .looking now looks :: rest })
      (surroundings.note (Plain.sweep now naive looks).2,
        { (Plain.sweep now naive looks).1 with stack := .gathering :: rest }) := by
  induction looks generalizing surroundings naive with
  | nil =>
      rw [Plain.sweep, Surroundings.note_nil]
      exact .turn rfl .refl
  | cons look looks ih =>
      have hleft : (naive.take now look).2.outbox = [] := by cases look <;> exact hempty
      have htaken : ({ naive with stack := .looking now (look :: looks) :: rest } : Naive μ ρ).take now look =
          ((naive.take now look).1,
            { (naive.take now look).2 with stack := .looking now (look :: looks) :: rest }) := by
        cases look <;> rfl
      have hnext : surroundings.next? { naive with stack := .looking now (look :: looks) :: rest } =
          some (surroundings, { (naive.take now look).2 with
            stack := .retiring (naive.take now look).1 :: .looking now looks :: rest }) := by
        change some (surroundings.follow _ .advance) = _
        simp only [Surroundings.follow, Naive.step, Naive.turn, Naive.Frame.turn, if_true, Naive.advance, htaken]
        rfl
      have hrest' : (.looking now looks :: rest).any Naive.Frame.isDelivering = false := hrest
      have hlooked := ih hleft (surroundings.note ((naive.take now look).1.map fun waiting =>
        .told (waiting.notice .timeout none)))
      rw [Surroundings.note_note] at hlooked
      exact .turn hnext ((retiring hleft hrest' surroundings _).trans hlooked)

end loops

-- A report with a token that is out, from the owner or from the processor.
theorem report (surroundings : Surroundings μ ρ) (naive : Naive μ ρ) (hempty : naive.outbox = []) (token : Token)
    (hheld : token.id ∈ naive.held) (hturn : naive.turn = .user)
    (hdelivering : naive.stack.any Naive.Frame.isDelivering = false)
    (hcompleting : naive.stack.any Naive.Frame.isCompleting = false) (outcome : Outcome) (reason : Option ρ) :
    Leads
      ({ surroundings with askers := some token.id :: surroundings.askers }.follow naive
        (.call (.complete token outcome reason)))
      (surroundings.note (Plain.report naive token.id outcome reason).2,
        (Plain.report naive token.id outcome reason).1) := by
  have halive : naive.alive = !naive.dropped := by rw [Naive.alive, hcompleting, Bool.or_false]
  have hcall : naive.step (.call (.complete token outcome reason)) = naive.complete token.id outcome reason := by
    rw [Naive.step, if_pos hturn]
    exact if_pos hheld
  rw [Surroundings.follow, hcall, Naive.complete, halive, Plain.report]
  cases naive.dropped with
  | true => exact .refl
  | false =>
      cases naive.inProgress.find? (fun started => started.id = token.id) with
      | none => exact .refl
      | some started =>
          let left : Naive μ ρ := { naive with
            dropped := false
            held := naive.held.erase token.id
            inProgress := naive.inProgress.filter (fun started => started.id ≠ token.id) }
          let asking := { surroundings with askers := some token.id :: surroundings.askers }
          have hstack : (.completing :: naive.stack).any Naive.Frame.isDelivering = false := hdelivering
          have htold := raise asking left hempty _ hstack (started.notice outcome reason)
          have hreturned : Leads (asking.note [.told (started.notice outcome reason)],
              { left with stack := .completing :: naive.stack })
              ((asking.note [.told (started.notice outcome reason)]).see (.returned (.delivered true)), left) :=
            .turn rfl .refl
          rw [Surroundings.see_returned] at hreturned
          exact htold.trans hreturned

theorem discard (surroundings : Surroundings μ ρ) (naive : Naive μ ρ) (token : Token)
    (hheld : token.id ∈ naive.held) (hturn : naive.turn = .user) :
    Leads ({ surroundings with askers := some token.id :: surroundings.askers }.follow naive (.call (.dropToken token)))
      (surroundings.note (Plain.discard naive token.id).2, (Plain.discard naive token.id).1) := by
  have hcall : naive.step (.call (.dropToken token)) =
      ({ naive with held := naive.held.erase token.id }, [.returned .done]) := by
    rw [Naive.step, if_pos hturn]
    exact if_pos hheld
  rw [Surroundings.follow, hcall]
  exact .refl

section dispatch

variable {rest : List (Naive.Frame μ ρ)} (hdelivering : rest.any Naive.Frame.isDelivering = false)
  (hcompleting : rest.any Naive.Frame.isCompleting = false)
include hdelivering hcompleting

-- The processor uses the token that it has been handed, or keeps it.
theorem processing (surroundings : Surroundings μ ρ) (hused : surroundings.unused = false) (naive : Naive μ ρ)
    (hempty : naive.outbox = []) (id : MessageId) (message : μ) (hheld : id ∈ naive.held) :
    Leads ({ surroundings with unused := true }, { naive with stack := .processing id message :: rest })
      (surroundings.note (Plain.spend naive id (surroundings.conduct id)).2,
        { (Plain.spend naive id (surroundings.conduct id)).1 with stack := rest }) := by
  obtain ⟨reading, conduct, unused, askers, sights⟩ := surroundings
  obtain rfl : unused = false := hused
  let kept : Surroundings μ ρ := { reading, conduct, askers, sights }
  let asked : Naive μ ρ := { naive with stack := .processing id message :: rest }
  have hnext : ({ kept with unused := true } : Surroundings μ ρ).next? asked =
      some ((({ kept with unused := true } : Surroundings μ ρ).use ⟨0, id⟩).2.follow asked
        (({ kept with unused := true } : Surroundings μ ρ).use ⟨0, id⟩).1) := rfl
  have hfinish (naive : Naive μ ρ) (sights : List (Sight μ ρ)) :
      Leads (kept.note sights, { naive with stack := .processing id message :: rest })
        (kept.note sights, { naive with stack := rest }) := .turn rfl .refl
  refine .turn hnext ?_
  dsimp only [Surroundings.use, kept]
  cases hconduct : conduct id with
  | keep =>
      rw [Plain.spend, Surroundings.note_nil]
      exact .refl
  | drop =>
      exact (discard kept asked ⟨0, id⟩ hheld rfl).trans (hfinish (Plain.discard naive id).1 _)
  | report outcome reason =>
      have hreported := report kept asked hempty ⟨0, id⟩ hheld rfl hdelivering hcompleting outcome reason
      rw [Plain.report_stack] at hreported
      exact hreported.trans (hfinish (Plain.report naive id outcome reason).1 _)

theorem starting (surroundings : Surroundings μ ρ) (hused : surroundings.unused = false) (naive : Naive μ ρ)
    (hempty : naive.outbox = []) (waiting : Naive.Waiting μ) :
    Leads (surroundings, { naive with stack := .starting waiting :: rest })
      (surroundings.note (Plain.start surroundings.conduct surroundings.reading naive waiting).2,
        { (Plain.start surroundings.conduct surroundings.reading naive waiting).1 with
          stack := .dispatching :: rest }) := by
  have hread : surroundings.next? { naive with stack := .starting waiting :: rest } =
      some (surroundings.follow { naive with stack := .starting waiting :: rest } (.read surroundings.read)) := rfl
  refine .turn hread ?_
  unfold Surroundings.read Plain.start
  cases surroundings.reading with
  | error fault => exact raise surroundings naive hempty (.dispatching :: rest) hdelivering _
  | ok now =>
      let begun : Naive μ ρ := { naive with
        inProgress := naive.inProgress ++ [{ waiting with startedAt := now }], held := naive.held ++ [waiting.id] }
      have hheld : waiting.id ∈ begun.held := List.mem_append_right _ (List.mem_singleton_self _)
      let noted := surroundings.note [.handed waiting.id waiting.message]
      have hdelivering' : (.dispatching :: rest).any Naive.Frame.isDelivering = false := hdelivering
      have hcompleting' : (.dispatching :: rest).any Naive.Frame.isCompleting = false := hcompleting
      have hspent :=
        processing hdelivering' hcompleting' noted hused begun hempty waiting.id waiting.message hheld
      rw [Surroundings.note_note] at hspent
      exact hspent

-- What waits is handed over message by message.
theorem dispatching (surroundings : Surroundings μ ρ) (hused : surroundings.unused = false) (naive : Naive μ ρ)
    (hempty : naive.outbox = []) {batch : List (Naive.Waiting μ)} (hpending : naive.pending = batch) :
    Leads (surroundings, { naive with stack := .dispatching :: rest })
      ((surroundings.note (Plain.dispatch surroundings.conduct surroundings.reading naive batch).2).see
          (.returned .done),
        { (Plain.dispatch surroundings.conduct surroundings.reading naive batch).1 with stack := rest }) := by
  induction batch generalizing surroundings naive with
  | nil =>
      have hreturn : surroundings.next? { naive with stack := .dispatching :: rest } =
          some (surroundings.see (.returned .done), { naive with stack := rest }) := by
        simp [Surroundings.next?, Naive.Frame.turn, Surroundings.follow, Naive.step, Naive.turn, Naive.advance,
          hpending, Naive.giveBack]
      rw [Plain.dispatch, Surroundings.note_nil]
      exact .turn hreturn .refl
  | cons waiting batch ih =>
      let left : Naive μ ρ := { naive with pending := batch }
      have hpop : surroundings.next? { naive with stack := .dispatching :: rest } =
          some (surroundings, { left with stack := .starting waiting :: rest }) := by
        simp [Surroundings.next?, Naive.Frame.turn, Surroundings.follow, Naive.step, Naive.turn, Naive.advance,
          hpending, left]
      have hstarted := starting hdelivering hcompleting surroundings hused left hempty waiting
      obtain ⟨held, inProgress, hstart⟩ := Plain.exists_start surroundings.conduct surroundings.reading left waiting
      have hrest := ih (surroundings.note (Plain.start surroundings.conduct surroundings.reading left waiting).2) hused
        (Plain.start surroundings.conduct surroundings.reading left waiting).1 (by rw [hstart]; exact hempty)
        (by rw [hstart])
      rw [Surroundings.note_note] at hrest
      exact .turn hpop (hstarted.trans hrest)

theorem gathering (surroundings : Surroundings μ ρ) (hused : surroundings.unused = false) (naive : Naive μ ρ)
    (hempty : naive.outbox = []) :
    Leads (surroundings, { naive with stack := .gathering :: rest })
      ((surroundings.note (Plain.dispatch surroundings.conduct surroundings.reading naive naive.pending).2).see
          (.returned .done),
        { (Plain.dispatch surroundings.conduct surroundings.reading naive naive.pending).1 with stack := rest }) := by
  by_cases hpending : naive.pending = []
  · have hreturn : surroundings.next? { naive with stack := .gathering :: rest } =
        some (surroundings.see (.returned .done), { naive with stack := rest }) := by
      simp [Surroundings.next?, Naive.Frame.turn, Surroundings.follow, Naive.step, Naive.turn, Naive.advance, hpending,
        Naive.giveBack]
    have hnone : Plain.dispatch surroundings.conduct surroundings.reading naive naive.pending = (naive, []) := by
      rw [hpending, Plain.dispatch]
    rw [hnone, Surroundings.note_nil]
    exact .turn hreturn .refl
  · have hgather : surroundings.next? { naive with stack := .gathering :: rest } =
        some (surroundings, { naive with stack := .dispatching :: rest }) := by
      simp [Surroundings.next?, Naive.Frame.turn, Surroundings.follow, Naive.step, Naive.turn, Naive.advance, hpending]
    exact .turn hgather (dispatching hdelivering hcompleting surroundings hused naive hempty rfl)

end dispatch

theorem step_call (naive : Naive μ ρ) (hidle : naive.stack = []) (call : Call μ ρ) :
    naive.step (.call call) = naive.answer call :=
  if_pos (by rw [Naive.turn, hidle])

theorem ifFree (naive : Naive μ ρ) (hidle : naive.stack = []) (hkept : naive.dropped = false)
    (next : Naive μ ρ × List (Naive.Seen μ ρ)) : naive.ifFree next = next := by
  simp [Naive.ifFree, Naive.busy, hidle, hkept]

section call

variable (surroundings : Surroundings μ ρ) (naive : Naive μ ρ) (hempty : naive.outbox = []) (hidle : naive.stack = [])
  (hkept : naive.dropped = false)
include hempty hidle hkept

theorem swept :
    Leads (surroundings.follow naive (.call .tick))
      (surroundings.note (Plain.swept surroundings.reading naive).2,
        { (Plain.swept surroundings.reading naive).1 with stack := .gathering :: naive.stack }) := by
  have hcall : naive.step (.call .tick) = (naive.startTick, []) := by
    rw [step_call naive hidle, Naive.answer, ifFree naive hidle hkept]
  rw [Surroundings.follow, hcall, Naive.startTick]
  cases hlooks : Naive.looks naive.limits with
  | nil =>
      have hnone : Plain.swept surroundings.reading naive = (naive, []) := by
        unfold Plain.swept
        cases surroundings.reading with
        | error fault => rfl
        | ok now =>
            dsimp only
            rw [hlooks]
            rfl
      rw [hnone, Surroundings.note_nil]
      exact .refl
  | cons look looks =>
      have hread : surroundings.next? { naive with stack := .sweeping (look :: looks) :: naive.stack } =
          some (surroundings.follow { naive with stack := .sweeping (look :: looks) :: naive.stack }
            (.read surroundings.read)) := rfl
      refine .turn hread ?_
      unfold Plain.swept Surroundings.read
      cases surroundings.reading with
      | error fault =>
          dsimp only
          rw [Surroundings.note_nil]
          exact .refl
      | ok now =>
          dsimp only
          rw [hlooks]
          exact looking hempty (by rw [hidle]; rfl) surroundings now (look :: looks)

theorem tick (hused : surroundings.unused = false) :
    Leads ({ surroundings with askers := none :: surroundings.askers }.follow naive (.call .tick))
      (surroundings.note (Plain.tick surroundings.conduct surroundings.reading naive).2,
        (Plain.tick surroundings.conduct surroundings.reading naive).1) := by
  let asking := { surroundings with askers := none :: surroundings.askers }
  let left := Plain.swept surroundings.reading naive
  let last := Plain.dispatch surroundings.conduct surroundings.reading left.1 left.1.pending
  obtain ⟨pending, inProgress, hleft⟩ : ∃ pending inProgress, left.1 = { naive with pending, inProgress } :=
    Plain.exists_swept surroundings.reading naive
  obtain ⟨pending', held', inProgress', hlast⟩ : ∃ pending held inProgress,
      last.1 = { left.1 with pending, held, inProgress } := Plain.exists_dispatch _ _ _ _
  have hswept := swept asking naive hempty hidle hkept
  have hgathered : Leads (asking.note left.2, { left.1 with stack := .gathering :: naive.stack })
      (((asking.note left.2).note last.2).see (.returned .done), { last.1 with stack := naive.stack }) :=
    gathering (by rw [hidle]; rfl) (by rw [hidle]; rfl) (asking.note left.2) hused left.1 (by rw [hleft]; exact hempty)
  have hstack : { last.1 with stack := naive.stack } = last.1 := by rw [hlast, hleft]
  rw [Surroundings.note_note, Surroundings.see_returned, hstack] at hgathered
  exact hswept.trans hgathered

theorem drain :
    Leads ({ surroundings with askers := none :: surroundings.askers }.follow naive (.call .drain))
      (surroundings.note (Plain.drain naive).2, (Plain.drain naive).1) := by
  let asking := { surroundings with askers := none :: surroundings.askers }
  let batch := naive.inProgress.map (·.toWaiting) ++ naive.pending
  let cleared : Naive μ ρ := { naive with inProgress := [], pending := [] }
  have hcall : naive.step (.call .drain) = naive.startDrain := by
    rw [step_call naive hidle, Naive.answer, ifFree naive hidle hkept]
  have hcleared : cleared.outbox = [] := hempty
  have hdrained : Leads (asking, { cleared with stack := .draining batch :: naive.stack })
      ((asking.note (batch.map fun waiting => .told (waiting.notice .cancelled none))).see (.returned .done),
        cleared) :=
    draining hcleared (by rw [hidle]; rfl) asking batch
  rw [Surroundings.see_returned] at hdrained
  rw [Surroundings.follow, hcall, Naive.startDrain]
  by_cases hbatch : batch = []
  · obtain ⟨hinProgress, hpending⟩ := List.append_eq_nil_iff.mp hbatch
    have hnaive : Plain.drain naive = (naive, [.answered none .done]) := by
      have hsame : { naive with inProgress := [], pending := [] } = naive := by
        cases naive
        simp_all
      rw [Plain.drain, hsame, hinProgress, hpending]
      rfl
    rw [hnaive, if_pos (List.isEmpty_iff.mpr hbatch)]
    exact .refl
  · rw [if_neg (mt List.isEmpty_iff.mp hbatch)]
    exact hdrained

omit hempty in
theorem enqueue (message : μ) :
    Leads ({ surroundings with askers := none :: surroundings.askers }.follow naive (.call (.enqueue message)))
      (surroundings.note (Plain.enqueue surroundings.reading naive message).2,
        (Plain.enqueue surroundings.reading naive message).1) := by
  have hcall : naive.step (.call (.enqueue message)) =
      ({ naive with stack := .enqueuing message :: naive.stack }, []) := by
    rw [step_call naive hidle, Naive.answer, ifFree naive hidle hkept]
  obtain ⟨reading, conduct, unused, askers, sights⟩ := surroundings
  rw [Surroundings.follow, hcall]
  cases reading with
  | error fault => exact .turn rfl .refl
  | ok now => exact .turn rfl .refl

end call

-- A call that needs the queue is refused after the drop.
theorem ifKept (surroundings : Surroundings μ ρ) (naive : Naive μ ρ) (hidle : naive.stack = []) (call : Call μ ρ)
    (next : Naive μ ρ × List (Naive.Seen μ ρ)) (hanswer : naive.answer call = naive.ifFree next) (shown : Shown μ ρ)
    (hleads : naive.dropped = false →
      Leads ({ surroundings with askers := none :: surroundings.askers }.follow naive (.call call))
        (surroundings.note shown.2, shown.1)) :
    Leads ({ surroundings with askers := none :: surroundings.askers }.follow naive (.call call))
      (surroundings.note (Plain.ifKept naive shown).2, (Plain.ifKept naive shown).1) := by
  by_cases hdropped : naive.dropped = true
  · have hrefused : naive.step (.call call) = (naive, [.returned .dropped]) := by
      rw [step_call naive hidle, hanswer]
      simp [Naive.ifFree, Naive.busy, hidle, hdropped]
    rw [Plain.ifKept, if_pos hdropped, Surroundings.follow, hrefused]
    exact .refl
  · rw [Plain.ifKept, if_neg hdropped]
    exact hleads (by simpa using hdropped)

-- A call of the owner, from its beginning to its end.
theorem perform (conduct : MessageId → Conduct ρ) (reading : Except Fault Instant) (naive : Naive μ ρ)
    (hempty : naive.outbox = []) (hidle : naive.stack = []) {held : List Token}
    (hheld : held.map Token.id = naive.held) {action : Action μ ρ} {call : Call μ ρ}
    (hcall : action.call? held = some call) :
    Leads (({ reading, conduct, askers := [action.subject?] } : Surroundings μ ρ).follow naive (.call call))
      (({ reading, conduct } : Surroundings μ ρ).note (Plain.perform conduct reading naive action).2,
        (Plain.perform conduct reading naive action).1) := by
  let resting : Surroundings μ ρ := { reading, conduct }
  have hturn : naive.turn = .user := by rw [Naive.turn, hidle]
  have htoken {id : MessageId} {token : Token} (hfind : held.find? (fun token => token.id = id) = some token) :
      token.id = id ∧ token.id ∈ naive.held :=
    ⟨by simpa using List.find?_some hfind, hheld ▸ List.mem_map_of_mem (List.mem_of_find?_eq_some hfind)⟩
  cases action with
  | setClock => exact absurd hcall (by simp [Action.call?])
  | complete id outcome reason =>
      obtain ⟨token, hfind, rfl⟩ := Option.map_eq_some_iff.mp hcall
      obtain ⟨rfl, hmem⟩ := htoken hfind
      have hreported := report resting naive hempty token hmem hturn (by rw [hidle]; rfl) (by rw [hidle]; rfl) outcome
        reason
      rw [Plain.perform, Plain.ifHeld, if_pos hmem]
      exact hreported
  | dropToken id =>
      obtain ⟨token, hfind, rfl⟩ := Option.map_eq_some_iff.mp hcall
      obtain ⟨rfl, hmem⟩ := htoken hfind
      rw [Plain.perform, Plain.ifHeld, if_pos hmem]
      exact discard resting naive token hmem hturn
  | enqueue message =>
      obtain rfl := Option.some.inj hcall
      exact ifKept resting naive hidle _ _ rfl _ fun hkept => enqueue resting naive hidle hkept message
  | tick =>
      obtain rfl := Option.some.inj hcall
      exact ifKept resting naive hidle _ _ rfl _ fun hkept => tick resting naive hempty hidle hkept rfl
  | drain =>
      obtain rfl := Option.some.inj hcall
      exact ifKept resting naive hidle _ _ rfl _ fun hkept => drain resting naive hempty hidle hkept
  | setLimits limits =>
      obtain rfl := Option.some.inj hcall
      refine ifKept resting naive hidle _ _ rfl _ fun hkept => ?_
      rw [Surroundings.follow, step_call naive hidle, Naive.answer, ifFree naive hidle hkept]
      exact .refl
  | drop =>
      obtain rfl := Option.some.inj hcall
      refine ifKept resting naive hidle _ _ rfl _ fun hkept => ?_
      rw [Surroundings.follow, step_call naive hidle, Naive.answer, ifFree naive hidle hkept]
      exact .refl

end Leads

end DeadlineQueue.Session
