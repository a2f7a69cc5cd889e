import DeadlineQueue.Proofs.Session.Course

namespace DeadlineQueue

variable {μ ρ : Type}

open Session Queue

namespace Queue

-- The processor gets a token that is out.
theorem Transition.offers {queue next : Queue μ ρ} {move : Move μ ρ} {events : List (Event μ ρ)}
    (h : Transition queue move next events) {token : Token} {message : μ}
    (hdispatched : .dispatched token message ∈ events) :
    ∃ token message rest, next.stack = .processing token message :: rest ∧ token ∈ next.held := by
  cases h with
  | start now hstack => exact ⟨_, _, _, rfl, by simp⟩
  | _ => simp at hdispatched

end Queue

namespace Session

namespace Surroundings

theorem foldl_observe (surroundings : Surroundings μ ρ) (events : List (Event μ ρ)) :
    events.foldl host.observe surroundings = (events.filterMap Event.seen?).foldl see surroundings := by
  induction events generalizing surroundings with
  | nil => rfl
  | cons event events ih =>
      rw [List.foldl_cons, ih]
      cases event <;> rfl

-- A token is unused only when it has just been handed over.
theorem exists_dispatched {surroundings : Surroundings μ ρ} (hused : surroundings.unused = false)
    {events : List (Event μ ρ)} (h : (events.foldl host.observe surroundings).unused = true) :
    ∃ token message, .dispatched token message ∈ events := by
  induction events generalizing surroundings with
  | nil => exact absurd (hused.symm.trans h) Bool.false_ne_true
  | cons event events ih =>
      by_cases hevent : (host.observe surroundings event).unused = false
      · obtain ⟨token, message, hmem⟩ := ih hevent h
        exact ⟨token, message, List.mem_cons_of_mem _ hmem⟩
      · cases event with
        | dispatched token message => exact ⟨token, message, List.mem_cons_self⟩
        | _ => exact absurd hused hevent

-- Of a token only the id matters to the naive queue.
theorem follow_use (surroundings : Surroundings μ ρ) (naive : Naive μ ρ) (token : Token) :
    (surroundings.use token).2.follow naive (surroundings.use token).1 =
      (surroundings.use ⟨0, token.id⟩).2.follow naive (surroundings.use ⟨0, token.id⟩).1 := by
  dsimp only [use]
  cases surroundings.conduct token.id <;> rfl

end Surroundings

-- What the processor has not used yet it can use.
def Offered (surroundings : Surroundings μ ρ) (queue : Queue μ ρ) : Prop :=
  surroundings.unused = true →
    ∃ token message rest, queue.stack = .processing token message :: rest ∧ token ∈ queue.held

-- The move that comes next when a queue and its surroundings act in turn, and the surroundings by then.
def next? (surroundings : Surroundings μ ρ) (queue : Queue μ ρ) : Option (Move μ ρ × Surroundings μ ρ) :=
  match queue.turn with
  | .queue => some (.advance, surroundings)
  | .clock => some (.read surroundings.read, surroundings)
  | .user =>
    match surroundings.react queue with
    | (.move move, surroundings) => some (move, surroundings)
    | _ => none

theorem next_naive (surroundings : Surroundings μ ρ) (queue : Queue μ ρ) :
    surroundings.next? queue.naive =
      (next? surroundings queue).map fun next => next.2.follow queue.naive next.1 := by
  obtain ⟨limits, overallTimeout, observed, pending, inProgress, nextKey, nextId, outbox, delivering, held, dropped,
    stack⟩ := queue
  cases stack with
  | nil => rfl
  | cons frame rest =>
      cases frame with
      | processing token message =>
          obtain ⟨reading, conduct, unused, askers, sights⟩ := surroundings
          cases unused with
          | false => rfl
          | true => exact congrArg some (Surroundings.follow_use _ _ token).symm
      | _ => rfl

section next

variable {surroundings used : Surroundings μ ρ} {queue : Queue μ ρ} {move : Move μ ρ}

theorem quiet_read (surroundings : Surroundings μ ρ) : (.read surroundings.read : Move μ ρ).quiet = true := by
  unfold Surroundings.read
  cases surroundings.reading <;> rfl

-- The three things that the surroundings do while a call is running.
theorem react_cases (hnext : surroundings.react queue = (.move move, used)) :
    (∃ token message rest, queue.stack = .processing token message :: rest ∧ surroundings.unused = true ∧
        (move, used) = surroundings.use token) ∨
      queue.stack ≠ [] ∧ move = .finish ∧ used = surroundings ∧
        ((∃ token message rest, queue.stack = .processing token message :: rest) → surroundings.unused = false) := by
  unfold Surroundings.react at hnext
  split at hnext
  · simp at hnext
  · rename_i token message rest hstack
    split at hnext
    · rename_i hunused
      simp only [Prod.mk.injEq, Reaction.move.injEq] at hnext
      exact .inl ⟨token, message, rest, hstack, hunused, Prod.ext hnext.1.symm hnext.2.symm⟩
    · rename_i hunused
      simp only [Prod.mk.injEq, Reaction.move.injEq] at hnext
      exact .inr ⟨by simp [hstack], hnext.1.symm, hnext.2.symm, fun _ => by simpa using hunused⟩
  · rename_i hne hprocessing
    simp only [Prod.mk.injEq, Reaction.move.injEq] at hnext
    refine .inr ⟨hne, hnext.1.symm, hnext.2.symm, ?_⟩
    rintro ⟨token, message, rest, hstack⟩
    exact absurd hstack (hprocessing token message rest)

-- Every move that comes next brings the running calls nearer to their end, and names no token but one that is out.
theorem next_cases {admitted : List (MessageId × μ)} {past : List (Event μ ρ)} (hs : queue.Sound admitted past)
    (hoffered : Offered surroundings queue) (hnext : next? surroundings queue = some (move, used)) :
    used.unused = false ∧ (∀ token ∈ move.token?, token ∈ queue.held) ∧ (queue.step move).1.effort < queue.effort := by
  have hstep := transition_step queue move
  have hidle (hturn : queue.turn ≠ .user) : surroundings.unused = false := by
    rw [← Bool.not_eq_true]
    intro hunused
    obtain ⟨token, message, rest, hstack, -⟩ := hoffered hunused
    exact hturn ((turn_eq_user_iff queue).mpr (by simp [hstack, Frame.isUser]))
  unfold next? at hnext
  split at hnext
  · rename_i hturn
    obtain ⟨rfl, rfl⟩ := Prod.mk.inj (Option.some.inj hnext)
    exact ⟨hidle (by simp [hturn]), by simp [Move.token?], hstep.effort hs.stacked rfl hturn⟩
  · rename_i hturn
    obtain ⟨rfl, rfl⟩ := Prod.mk.inj (Option.some.inj hnext)
    exact ⟨hidle (by simp [hturn]), by simp [Move.token?], hstep.effort hs.stacked (quiet_read _) hturn⟩
  · rename_i hturn
    split at hnext
    · rename_i hreact
      obtain ⟨rfl, rfl⟩ := Prod.mk.inj (Option.some.inj hnext)
      rcases react_cases hreact with ⟨token, message, rest, hstack, hunused, huse⟩ | ⟨hne, rfl, rfl, hused⟩
      · obtain ⟨other, _, _, hother, hheld⟩ := hoffered hunused
        obtain ⟨rfl, -⟩ : other = token ∧ _ = message := by simpa using (List.cons.inj (hother.symm.trans hstack)).1
        unfold Surroundings.use at huse
        split at huse
        · obtain ⟨rfl, rfl⟩ := Prod.mk.inj huse
          exact ⟨rfl, by simp [Move.token?], hstep.effort hs.stacked rfl ⟨hturn, by simp [hstack]⟩⟩
        · obtain ⟨rfl, rfl⟩ := Prod.mk.inj huse
          exact ⟨rfl, by simpa [Move.token?, Call.token?] using hheld,
            hstep.effort_token hs.ordered hs.held_nodup hstack rfl hheld⟩
        · obtain ⟨rfl, rfl⟩ := Prod.mk.inj huse
          exact ⟨rfl, by simpa [Move.token?, Call.token?] using hheld,
            hstep.effort_token hs.ordered hs.held_nodup hstack rfl hheld⟩
      · refine ⟨?_, by simp [Move.token?], hstep.effort hs.stacked rfl ⟨hturn, hne⟩⟩
        rw [← Bool.not_eq_true]
        intro hunused
        obtain ⟨token, message, rest, hstack, -⟩ := hoffered hunused
        exact absurd hunused (by simp [hused ⟨token, message, rest, hstack⟩])
    · simp at hnext

theorem play_next (hnext : next? surroundings queue = some (move, used)) (turns : Nat) :
    Surroundings.host.play (turns + 1) surroundings queue =
      Surroundings.host.play turns (Surroundings.host.apply used queue move).1
        (Surroundings.host.apply used queue move).2 := by
  unfold next? at hnext
  split at hnext
  · rename_i hturn
    obtain ⟨rfl, rfl⟩ := Prod.mk.inj (Option.some.inj hnext)
    exact Host.play_advance _ _ _ hturn
  · rename_i hturn
    obtain ⟨rfl, rfl⟩ := Prod.mk.inj (Option.some.inj hnext)
    exact Host.play_read _ _ _ hturn rfl
  · rename_i hturn
    split at hnext
    · rename_i hreact
      obtain ⟨rfl, rfl⟩ := Prod.mk.inj (Option.some.inj hnext)
      exact Host.play_move _ _ _ hturn hreact
    · simp at hnext

end next

section play

variable {surroundings : Surroundings μ ρ} {queue : Queue μ ρ} {admitted : List (MessageId × μ)}
  {past : List (Event μ ρ)} (hs : queue.Sound admitted past)
include hs

-- What the naive queue shows of a move is what the queue shows.
theorem follow_naive (surroundings : Surroundings μ ρ) {move : Move μ ρ}
    (hheld : ∀ token ∈ move.token?, token ∈ queue.held) :
    surroundings.follow queue.naive move =
      ((Surroundings.host.apply surroundings queue move).1,
        (Surroundings.host.apply surroundings queue move).2.naive) := by
  have hnaive := hs.step_naive move fun token htoken => hs.exists_issue_of_held (hheld token htoken)
  rw [Surroundings.follow, hnaive, outside, Host.apply]
  exact congrArg (·, (queue.step move).1.naive) (Surroundings.foldl_observe surroundings _).symm

-- Queues that act in turn with the same surroundings come to the same, if they have turns enough.
theorem Leads.play (hoffered : Offered surroundings queue) {final : Surroundings μ ρ × Naive μ ρ}
    (h : Leads (surroundings, queue.naive) final) (hidle : final.2.stack = []) {turns : Nat}
    (heffort : queue.effort ≤ turns) :
    ∃ moves, Surroundings.host.play turns surroundings queue = (final.1, (queue.run moves).1) ∧
      (queue.run moves).1.naive = final.2 := by
  induction turns generalizing surroundings queue admitted past with
  | zero =>
      have hstack := stack_eq_nil_of_effort (Nat.le_zero.mp heffort)
      rcases h.cases_head with rfl | ⟨between, hnext, -⟩
      · exact ⟨[], rfl, rfl⟩
      · exact absurd hnext (by simp [next_naive, next?, Queue.turn, hstack, Surroundings.react])
  | succ turns ih =>
      rcases h.cases_head with rfl | ⟨between, hnext, hlater⟩
      · have hstack : queue.stack = [] := List.map_eq_nil_iff.mp hidle
        have hturn : queue.turn = .user := (turn_eq_user_iff queue).mpr (by simp [hstack])
        have hreact : Surroundings.host.react surroundings queue = (.rest, surroundings) := by
          simp [Surroundings.host, Surroundings.react, hstack]
        exact ⟨[], Host.play_rest _ _ _ hturn hreact, rfl⟩
      · obtain ⟨⟨move, used⟩, hmove, rfl⟩ :=
          Option.map_eq_some_iff.mp ((next_naive surroundings queue).symm.trans hnext)
        obtain ⟨hused, hheld, hless⟩ := next_cases hs hoffered hmove
        rw [follow_naive hs used hheld] at hlater
        have hoffers : Offered (Surroundings.host.apply used queue move).1 (queue.step move).1 := by
          intro hunused
          obtain ⟨_, _, hmem⟩ := Surroundings.exists_dispatched hused hunused
          exact (transition_step queue move).offers hmem
        obtain ⟨moves, hplay, hnaive⟩ :=
          ih (hs.step move) hoffers hlater (Nat.le_of_lt_succ (Nat.lt_of_lt_of_le hless heffort))
        refine ⟨move :: moves, ?_, ?_⟩
        · rw [play_next hmove, run_cons]
          exact hplay
        · rw [run_cons]
          exact hnaive

end play

namespace Plain

-- Nothing is left running, nothing to be delivered, and no id is taken back.
structure Still (naive : Naive μ ρ) (shown : Shown μ ρ) : Prop where
  stack : shown.1.stack = naive.stack
  outbox : shown.1.outbox = naive.outbox
  nextId : naive.nextId ≤ shown.1.nextId

theorem Still.ifKept {naive : Naive μ ρ} {shown : Shown μ ρ} (h : Still naive shown) :
    Still naive (ifKept naive shown) := by
  unfold Plain.ifKept
  split
  · exact ⟨rfl, rfl, Nat.le_refl _⟩
  · exact h

theorem Still.ifHeld {naive : Naive μ ρ} {shown : Shown μ ρ} (h : Still naive shown) (id : MessageId) :
    Still naive (ifHeld naive id shown) := by
  unfold Plain.ifHeld
  split
  · exact h
  · exact ⟨rfl, rfl, Nat.le_refl _⟩

theorem still_tick (conduct : MessageId → Conduct ρ) (reading : Except Fault Instant) (naive : Naive μ ρ) :
    Still naive (tick conduct reading naive) := by
  obtain ⟨pending, inProgress, hswept⟩ := exists_swept reading naive
  obtain ⟨pending', held, inProgress', hlast⟩ :=
    exists_dispatch conduct reading (swept reading naive).1 (swept reading naive).1.pending
  have htick : (tick conduct reading naive).1 =
      { naive with pending := pending', held, inProgress := inProgress' } := by rw [tick, hlast, hswept]
  constructor <;> rw [htick]

theorem still_perform (conduct : MessageId → Conduct ρ) (reading : Except Fault Instant) (naive : Naive μ ρ)
    (action : Action μ ρ) : Still naive (perform conduct reading naive action) := by
  cases action with
  | setClock => exact ⟨rfl, rfl, Nat.le_refl _⟩
  | enqueue message =>
      apply Still.ifKept
      cases reading with
      | error fault => exact ⟨rfl, rfl, Nat.le_refl _⟩
      | ok now => exact ⟨rfl, rfl, Nat.le_succ _⟩
  | tick => exact (still_tick conduct reading naive).ifKept
  | drain | setLimits | drop =>
      apply Still.ifKept
      exact ⟨rfl, rfl, Nat.le_refl _⟩
  | complete id outcome reason =>
      obtain ⟨held, inProgress, hspent⟩ := exists_spend naive id (.report outcome reason)
      have hreport : (report naive id outcome reason).1 = { naive with held, inProgress } := hspent
      apply Still.ifHeld
      constructor <;> rw [hreport]
  | dropToken id =>
      apply Still.ifHeld
      exact ⟨rfl, rfl, Nat.le_refl _⟩

end Plain

-- Between two steps no call is running and every notice has been delivered.
structure Settled (session : Session μ ρ) : Prop where
  sound : ∃ admitted past, session.queue.Sound admitted past
  idle : session.queue.stack = []
  outbox : session.queue.outbox = []

theorem Settled.make (settings : Settings) (observed : Bool) (reading : Except Fault Instant) :
    Settled { queue := (Queue.make settings observed : Queue μ ρ), reading } where
  sound := ⟨[], [], sound_make settings observed⟩
  idle := rfl
  outbox := rfl

-- What the clock shows after a step.
def Action.reading (action : Action μ ρ) (reading : Except Fault Instant) : Except Fault Instant :=
  match action with
  | setClock reading => reading
  | _ => reading

theorem call_held {held : List Token} {action : Action μ ρ} {call : Call μ ρ} (h : action.call? held = some call) :
    ∀ token ∈ (Move.call call).token?, token ∈ held := by
  cases action with
  | complete id outcome reason =>
      obtain ⟨token, hfind, rfl⟩ := Option.map_eq_some_iff.mp h
      simpa [Move.token?, Call.token?] using List.mem_of_find?_eq_some hfind
  | dropToken id =>
      obtain ⟨token, hfind, rfl⟩ := Option.map_eq_some_iff.mp h
      simpa [Move.token?, Call.token?] using List.mem_of_find?_eq_some hfind
  | setClock => exact absurd h (by simp [Action.call?])
  | _ =>
      obtain rfl := Option.some.inj h
      simp [Move.token?, Call.token?]

theorem perform_noToken (conduct : MessageId → Conduct ρ) (reading : Except Fault Instant) {naive : Naive μ ρ}
    {held : List Token} (hheld : held.map Token.id = naive.held) {action : Action μ ρ}
    (hcall : action.call? held = none) (hclock : ∀ reading, action ≠ .setClock reading) :
    Plain.perform conduct reading naive action = (naive, [.answered action.subject? .noToken]) := by
  have hfree {id : MessageId} (hfind : held.find? (fun token => token.id = id) = none) : id ∉ naive.held := by
    rw [← hheld]
    simpa using hfind
  cases action with
  | setClock reading => exact absurd rfl (hclock reading)
  | complete id outcome reason => exact if_neg (hfree (Option.map_eq_none_iff.mp hcall))
  | dropToken id => exact if_neg (hfree (Option.map_eq_none_iff.mp hcall))
  | _ => exact absurd hcall (by simp [Action.call?])

theorem perform_none {conduct : MessageId → Conduct ρ} {session : Session μ ρ} {action : Action μ ρ}
    (hcall : action.call? session.queue.held = none) (hclock : ∀ reading, action ≠ .setClock reading) :
    session.perform conduct action = (session, [.answered action.subject? .noToken]) := by
  cases action with
  | setClock reading => exact absurd rfl (hclock reading)
  | complete | dropToken =>
      unfold Session.perform
      dsimp only
      rw [hcall]
  | _ => exact absurd hcall (by simp [Action.call?])

theorem perform_some (conduct : MessageId → Conduct ρ) {session : Session μ ρ} {action : Action μ ρ} {call : Call μ ρ}
    (hcall : action.call? session.queue.held = some call) :
    let opening : Surroundings μ ρ := { reading := session.reading, conduct, askers := [action.subject?] }
    let called := Surroundings.host.apply opening session.queue (.call call)
    let last := Surroundings.host.play (Simulation.World.turns session.queue) called.1 called.2
    session.perform conduct action = ({ session with queue := last.2 }, last.1.sights) := by
  cases action with
  | setClock reading => exact absurd hcall (by simp [Action.call?])
  | _ =>
      unfold Session.perform
      dsimp only
      rw [hcall]

-- A step of a session is a whole step.
theorem Settled.perform {session : Session μ ρ} (h : session.Settled) (conduct : MessageId → Conduct ρ)
    (action : Action μ ρ) :
    (session.perform conduct action).1.Settled ∧
      (session.perform conduct action).1.reading = action.reading session.reading ∧
      ((session.perform conduct action).1.queue.naive, (session.perform conduct action).2) =
        Plain.perform conduct session.reading session.queue.naive action := by
  obtain ⟨admitted, past, hs⟩ := h.sound
  by_cases hclock : ∃ reading, action = .setClock reading
  · obtain ⟨reading, rfl⟩ := hclock
    exact ⟨⟨h.sound, h.idle, h.outbox⟩, rfl, rfl⟩
  · rw [not_exists] at hclock
    have hreading : action.reading session.reading = session.reading := by
      cases action with
      | setClock reading => exact absurd rfl (hclock reading)
      | _ => rfl
    cases hcall : action.call? session.queue.held with
    | none =>
        rw [perform_none hcall hclock, perform_noToken conduct session.reading rfl hcall hclock, hreading]
        exact ⟨h, rfl, rfl⟩
    | some call =>
        let opening : Surroundings μ ρ := { reading := session.reading, conduct, askers := [action.subject?] }
        have hidle : session.queue.naive.stack = [] := List.map_eq_nil_iff.mpr h.idle
        have hleads := Leads.perform conduct session.reading session.queue.naive h.outbox hidle rfl hcall
        rw [follow_naive hs opening (call_held hcall)] at hleads
        have hoffered : Offered (Surroundings.host.apply opening session.queue (.call call)).1
            (session.queue.step (.call call)).1 := fun hunused =>
          have ⟨_, _, hmem⟩ := Surroundings.exists_dispatched rfl hunused
          (transition_step session.queue (.call call)).offers hmem
        have hstill := Plain.still_perform conduct session.reading session.queue.naive action
        have heffort := (transition_step session.queue (.call call)).effort_call hs.ordered h.idle
        obtain ⟨moves, hplay, hnaive⟩ := hleads.play (hs.step (.call call)) hoffered (hstill.stack.trans hidle) heffort
        have hperform : session.perform conduct action =
            ({ session with queue := ((session.queue.step (.call call)).1.run moves).1 },
              (Plain.perform conduct session.reading session.queue.naive action).2) := by
          refine (perform_some conduct hcall).trans ?_
          have hlast : Surroundings.host.play (Simulation.World.turns session.queue)
              (Surroundings.host.apply opening session.queue (.call call)).1
              (Surroundings.host.apply opening session.queue (.call call)).2 = _ := hplay
          rw [hlast]
          rfl
        have hafter : ((session.queue.step (.call call)).1.run moves).1.stack = [] :=
          List.map_eq_nil_iff.mp ((congrArg Naive.stack hnaive).trans (hstill.stack.trans hidle))
        have hdelivered : ((session.queue.step (.call call)).1.run moves).1.outbox = [] :=
          (congrArg Naive.outbox hnaive).trans (hstill.outbox.trans h.outbox)
        rw [hperform, hreading]
        exact ⟨⟨⟨_, _, (hs.step (.call call)).run moves⟩, hafter, hdelivered⟩, rfl, Prod.ext hnaive rfl⟩

end Session

end DeadlineQueue
