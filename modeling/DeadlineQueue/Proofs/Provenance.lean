import DeadlineQueue.Proofs.Losses

namespace DeadlineQueue

variable {μ ρ : Type}

-- What a notice tells, by what made the queue raise it. With a token its holder reports what he likes.
def Source.Tells : Source → Notice μ ρ → Prop
  | .sweep _, notice => notice.outcome = .timeout ∧ notice.reason = none
  | .unread, notice => notice.outcome = .error ∧ notice.reason = none
  | .drain, notice => notice.outcome = .cancelled ∧ notice.reason = none
  | .token, _ => True

namespace Queue

-- A report with a token raises what it says, for the message of that token. Nothing else raises a
-- notice with a token as its source.
theorem Transition.raised {queue next : Queue μ ρ} {move : Move μ ρ} {events past : List (Event μ ρ)}
    {admitted : List (MessageId × μ)} (h : Transition queue move next events) (hs : queue.Sound admitted past)
    {source : Source} {notice : Notice μ ρ} (hraised : .raised source notice ∈ events) :
    source.Tells notice ∧
      (source = .token ↔
        ∃ token, token.id = notice.id ∧ move = .call (.complete token notice.outcome notice.reason)) := by
  cases h with
  | retire | cancel | startUnread =>
      obtain ⟨rfl, rfl⟩ : source = _ ∧ notice = _ := by simpa using hraised
      exact ⟨⟨rfl, rfl⟩, by simp⟩
  | @complete token entry outcome reason hturn hheld halive hentry =>
      obtain ⟨rfl, rfl⟩ : source = _ ∧ notice = _ := by simpa using hraised
      obtain ⟨message, hissue⟩ := hs.exists_issue_of_held hheld
      have hfind := (hs.remove_fst hissue).symm.trans hentry
      have hid : entry.id = token.id := by simpa using List.find?_some hfind
      exact ⟨trivial, fun _ => ⟨token, hid.symm, rfl⟩, fun _ => rfl⟩
  | _ => simp at hraised

-- The notices that were delivered, each with what made the queue raise it. Notices are delivered in
-- the order in which they were raised.
def attributions (events : List (Event μ ρ)) : List (Source × Notice μ ρ) :=
  (events.filterMap Event.raised?).take (deliveries events).length

-- At this place in the run a report with a token raised the notice.
def Reports (queue : Queue μ ρ) (moves : List (Move μ ρ)) (notice : Notice μ ρ) : Prop :=
  ∃ token before after, token.id = notice.id ∧
    moves = before ++ .call (.complete token notice.outcome notice.reason) :: after ∧
    .raised .token notice ∈
      ((queue.run before).1.step (.call (.complete token notice.outcome notice.reason))).2

section run

variable (settings : Settings) (observed : Bool) (moves : List (Move μ ρ))

theorem map_attributions :
    (attributions ((make settings observed).run moves).2).map Prod.snd =
      deliveries ((make settings observed).run moves).2 := by
  have hraises := raises_eq settings observed moves
  rw [raises] at hraises
  rw [attributions, List.map_take, hraises, List.take_left]

theorem attribution_tells {source : Source} {notice : Notice μ ρ}
    (h : (source, notice) ∈ attributions ((make settings observed).run moves).2) :
    source.Tells notice ∧ (source = .token → (make settings observed).Reports moves notice) := by
  obtain ⟨before, move, after, rfl, hraised⟩ := exists_step_of_mem_run _ _ (mem_of_raised (List.mem_of_mem_take h))
  have hs := sound_run settings observed before
  obtain ⟨htells, hsource⟩ := (transition_step _ move).raised hs hraised
  refine ⟨htells, fun htoken => ?_⟩
  obtain ⟨token, hid, rfl⟩ := hsource.mp htoken
  rw [htoken] at hraised
  exact ⟨token, before, after, hid, rfl, hraised⟩

-- Who is behind an outcome. Each notice that is delivered was raised by a report with its token or by
-- the queue. The outcome tells the two apart, but for the error of a message whose start time could
-- not be read, and for a timeout or a cancellation that was reported with a token.
theorem run_attributes :
    (attributions ((make settings observed).run moves).2).map Prod.snd =
        deliveries ((make settings observed).run moves).2 ∧
      ∀ source notice, (source, notice) ∈ attributions ((make settings observed).run moves).2 →
        source.Tells notice ∧ (source = .token → (make settings observed).Reports moves notice) ∧
          ((notice.outcome.byProcessor = true ↔ source = .token) ↔
            source ≠ .unread ∧ (source = .token → notice.outcome.byProcessor = true)) := by
  refine ⟨map_attributions settings observed moves, fun source notice h => ?_⟩
  obtain ⟨htells, hreports⟩ := attribution_tells settings observed moves h
  refine ⟨htells, hreports, ?_⟩
  cases source with
  | token => simp
  | sweep lane => simp [htells.1, Outcome.byProcessor]
  | unread => simp [htells.1, Outcome.byProcessor]
  | drain => simp [htells.1, Outcome.byProcessor]

-- The clock fails when the message is to be started.
def unreadStart : List (Move String String) :=
  [.call (.enqueue "a"), .read (.time 0), .call .tick, .advance, .advance, .read (.failed (.clock "read 1 failed")),
    .advance, .finish, .advance, .advance]

theorem run_attributes_unreadStart :
    ¬∀ attribution ∈ attributions ((make {} true).run unreadStart).2,
      attribution.2.outcome.byProcessor = true ↔ attribution.1 = .token := by
  decide

-- No message has two notices.
theorem eq_of_raised {first second : Notice μ ρ} (hfirst : first ∈ raises ((make settings observed).run moves).2)
    (hsecond : second ∈ raises ((make settings observed).run moves).2) (hid : first.id = second.id) :
    first = second :=
  List.inj_on_of_nodup_map (List.nodup_append.mp (run_gone settings observed moves).1).1 hfirst hsecond hid

theorem Reports.mem_raises {notice : Notice μ ρ} (h : (make settings observed).Reports moves notice) :
    notice ∈ raises ((make settings observed).run moves).2 := by
  obtain ⟨token, before, after, -, rfl, hraised⟩ := h
  have hmem : (.token, notice) ∈ (((make settings observed).run before).1.step
      (.call (.complete token notice.outcome notice.reason))).2.filterMap Event.raised? :=
    List.mem_filterMap.mpr ⟨_, hraised, rfl⟩
  rw [run_append, run_cons, raises_append]
  refine List.mem_append_right _ (List.mem_map_of_mem (f := Prod.snd) (a := (.token, notice)) ?_)
  rw [List.filterMap_append]
  exact List.mem_append_left _ hmem

-- A timeout or a cancellation is delivered without a reason, unless it was reported with a token and
-- with a reason.
theorem run_reasons :
    ∀ notice ∈ deliveries ((make settings observed).run moves).2, notice.outcome.byProcessor = false →
      (notice.reason = none ↔
        ∀ reason, ¬(make settings observed).Reports moves { notice with reason := some reason }) := by
  intro notice hnotice houtcome
  constructor
  · intro hreason reason hreports
    have hraised : notice ∈ raises ((make settings observed).run moves).2 := by
      rw [raises_eq]
      exact List.mem_append_left _ hnotice
    have hsame := eq_of_raised settings observed moves hraised (hreports.mem_raises settings observed moves) rfl
    rw [hsame] at hreason
    exact Option.some_ne_none reason hreason
  · intro hplain
    rw [← map_attributions settings observed moves] at hnotice
    obtain ⟨⟨source, _⟩, h, rfl⟩ := List.mem_map.mp hnotice
    obtain ⟨htells, hreports⟩ := attribution_tells settings observed moves h
    cases source with
    | token =>
        by_contra hreason
        obtain ⟨reason, hsome⟩ := Option.ne_none_iff_exists'.mp hreason
        refine hplain reason ?_
        rw [← hsome]
        exact hreports rfl
    | sweep | unread | drain => exact htells.2

-- A message that waits is cancelled.
def cancelledWaiting : List (Move String String) :=
  [.call (.enqueue "a"), .read (.time 0), .call .drain, .advance, .advance, .finish, .advance, .advance]

theorem run_reasons_cancelledWaiting :
    let notice : Notice String String := { id := ⟨0⟩, message := "a", outcome := .cancelled, reason := none }
    notice ∈ deliveries ((make {} true).run cancelledWaiting).2 ∧ notice.outcome.byProcessor = false ∧
      ∀ reason, ¬(make {} true).Reports cancelledWaiting { notice with reason := some reason } := by
  intro notice
  have hdeliveries : deliveries ((make {} true).run cancelledWaiting).2 = [notice] := rfl
  have hnotice : notice ∈ deliveries ((make {} true).run cancelledWaiting).2 := by
    rw [hdeliveries]
    exact List.mem_singleton_self notice
  exact ⟨hnotice, rfl, (run_reasons {} true cancelledWaiting notice hnotice rfl).mp rfl⟩

-- The processor reports a timeout itself and gives a reason.
def timeoutExplained : List (Move String String) :=
  [.call (.enqueue "a"), .read (.time 0), .call .tick, .advance, .advance, .read (.time 0),
    .call (.complete ⟨1, ⟨0⟩⟩ .timeout (some "why")), .advance, .finish, .advance, .advance, .finish, .advance]

theorem run_reasons_timeoutExplained :
    ¬∀ notice ∈ deliveries ((make {} true).run timeoutExplained).2,
      notice.outcome.byProcessor = false → notice.reason = none := by
  decide

end run

end Queue

end DeadlineQueue
