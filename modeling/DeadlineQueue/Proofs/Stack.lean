import DeadlineQueue.Proofs.History
import DeadlineQueue.Proofs.Lane.Order

namespace DeadlineQueue

variable {μ ρ : Type}

-- A scan may stop early only on the stamps that order its lane, and what waits was not started.
structure Scan.Fair (scan : Scan) (name : LaneName) : Prop where
  origin_of_hasty : scan.hasty = true → scan.origin = name.origin
  origin_of_pending : name = .pending → scan.origin = .admission

theorem Limits.scans_fair (limits : Limits) : ∀ look ∈ limits.scans, look.2.Fair look.1 := by
  unfold scans
  intro look hlook
  rw [List.mem_append] at hlook
  rcases hlook with hlook | hlook
  · cases hwait : limits.waitDeadline with
    | none => simp [hwait] at hlook
    | some deadline =>
        simp only [hwait, List.mem_cons, List.not_mem_nil, or_false] at hlook
        rcases hlook with rfl | rfl <;> exact ⟨by simp [LaneName.origin], by simp⟩
  · cases hprocessing : limits.processingDeadline with
    | none => simp [hprocessing] at hlook
    | some deadline =>
        simp only [hprocessing, List.mem_cons, List.not_mem_nil, or_false] at hlook
        subst hlook
        exact ⟨by simp [LaneName.origin], by simp⟩

namespace Frame

-- What may lie below a frame. No call that holds the queue lies below another one, nor a delivery
-- below a delivery, and user code lies on what has called it.
def Fits : Frame μ ρ → List (Frame μ ρ) → Prop
  | retiring _ _, rest => ∃ now scans below, rest = scanning now scans :: below
  | processing _ _, rest => ∃ bound below, rest = dispatching bound :: below
  | notifying _, rest => ∃ below, rest = delivering :: below
  | delivering, rest => rest.any isDelivering = false
  | completing, _ => True
  | _, rest => rest.any holdsQueue = false

def Fair : Frame μ ρ → Prop
  | sweeping scans | scanning _ scans => ∀ look ∈ scans, look.2.Fair look.1
  | _ => True

theorem not_holdsQueue_of_isUser {frame : Frame μ ρ} (huser : frame.isUser = true) : frame.holdsQueue = false := by
  cases frame with
  | processing | notifying => rfl
  | _ => exact absurd huser Bool.false_ne_true

end Frame

def Nested : List (Frame μ ρ) → Prop
  | [] => True
  | frame :: rest => frame.Fits rest ∧ Nested rest

theorem Nested.suffix {stack rest : List (Frame μ ρ)} (h : Nested stack) (hsuffix : rest <:+ stack) : Nested rest := by
  induction stack with
  | nil => rwa [List.suffix_nil.mp hsuffix]
  | cons frame below ih =>
      rcases List.suffix_cons_iff.mp hsuffix with rfl | hbelow
      · exact h
      · exact ih h.2 hbelow

-- There is one delivery at most.
theorem Nested.delivering_once {above below : List (Frame μ ρ)} (h : Nested (above ++ below))
    (habove : above.any Frame.isDelivering = true) : below.any Frame.isDelivering = false := by
  induction above with
  | nil => simp at habove
  | cons frame rest ih =>
      obtain ⟨hfits, hrest⟩ := h
      cases hframe : frame.isDelivering with
      | false => exact ih hrest (by simpa [hframe] using habove)
      | true =>
          cases frame <;> simp only [Frame.isDelivering, Bool.false_eq_true] at hframe
          change (rest ++ below).any Frame.isDelivering = false at hfits
          rw [List.any_append, Bool.or_eq_false_iff] at hfits
          exact hfits.2

-- Where no call holds the queue, nothing is found that only such calls have.
theorem flatMap_of_not_holdsQueue {α : Type} (stack : List (Frame μ ρ)) (f : Frame μ ρ → List α)
    (hf : ∀ frame : Frame μ ρ, frame.holdsQueue = false → f frame = []) (h : stack.any Frame.holdsQueue = false) :
    stack.flatMap f = [] := by
  rw [List.flatMap_eq_nil_iff]
  intro frame hframe
  have hholds := List.any_eq_false.mp h frame hframe
  exact hf frame (by simpa using hholds)

theorem any_of_not_holdsQueue (stack : List (Frame μ ρ)) (f : Frame μ ρ → Bool)
    (hf : ∀ frame : Frame μ ρ, frame.holdsQueue = false → f frame = false) (h : stack.any Frame.holdsQueue = false) :
    stack.any f = false := by
  rw [List.any_eq_false]
  intro frame hframe
  have hholds := List.any_eq_false.mp h frame hframe
  simp [hf frame (by simpa using hholds)]

theorem any_eq_false_of_suffix {stack rest : List (Frame μ ρ)} (f : Frame μ ρ → Bool) (hsuffix : rest <:+ stack)
    (h : stack.any f = false) : rest.any f = false := by
  rw [List.any_eq_false] at h ⊢
  exact fun frame hframe => h frame (hsuffix.subset hframe)

namespace Queue

theorem any_stack_raise (queue : Queue μ ρ) (source : Source) (notice : Notice μ ρ) (f : Frame μ ρ → Bool)
    (hf : f .delivering = false) : (queue.raise source notice).1.stack.any f = queue.stack.any f := by
  rw [stack_raise]
  split
  · rfl
  · rw [List.any_cons, hf, Bool.false_or]

-- The calls that are running fit together, and the delivery flag tells of a delivery among them.
structure Stacked (queue : Queue μ ρ) : Prop where
  nested : Nested queue.stack
  delivering : queue.delivering = queue.stack.any Frame.isDelivering
  fair : ∀ frame ∈ queue.stack, frame.Fair

theorem Stacked.make (settings : Settings) (observed : Bool) : (make settings observed : Queue μ ρ).Stacked where
  nested := trivial
  delivering := rfl
  fair := by simp [Queue.make]

theorem Stacked.fits {queue : Queue μ ρ} (h : queue.Stacked) {frame : Frame μ ρ} {rest : List (Frame μ ρ)}
    (hstack : queue.stack = frame :: rest) : frame.Fits rest ∧ Nested rest := by
  have hnested := h.nested
  rwa [hstack] at hnested

theorem Stacked.fair_scan {queue : Queue μ ρ} (h : queue.Stacked) {now : Instant} {name : LaneName} {scan : Scan}
    {scans : List (LaneName × Scan)} {rest : List (Frame μ ρ)}
    (hstack : queue.stack = .scanning now ((name, scan) :: scans) :: rest) : scan.Fair name := by
  have hfair := h.fair (.scanning now ((name, scan) :: scans)) (by simp [hstack])
  exact hfair (name, scan) List.mem_cons_self

theorem Stacked.raise {queue : Queue μ ρ} (h : queue.Stacked) (source : Source) (notice : Notice μ ρ) :
    (queue.raise source notice).1.Stacked := by
  cases hdelivering : queue.delivering with
  | true =>
      have hstack : (queue.raise source notice).1.stack = queue.stack := by rw [stack_raise, if_pos hdelivering]
      exact {
        nested := by rw [hstack]; exact h.nested
        delivering := by rw [hstack, delivering_raise, ← h.delivering, hdelivering]
        fair := by rw [hstack]; exact h.fair }
  | false =>
      have hstack : (queue.raise source notice).1.stack = .delivering :: queue.stack := by
        rw [stack_raise, hdelivering]; rfl
      exact {
        nested := by rw [hstack]; exact ⟨h.delivering.symm.trans hdelivering, h.nested⟩
        delivering := by rw [hstack, delivering_raise]; rfl
        fair := by
          rw [hstack]
          intro frame hframe
          rcases List.mem_cons.mp hframe with rfl | hframe
          · trivial
          · exact h.fair frame hframe }

-- A panic leaves the frames below the innermost user code as they are.
theorem Stacked.unwind {queue : Queue μ ρ} (h : queue.Stacked) (stack : List (Frame μ ρ)) (text : String)
    (hsuffix : stack <:+ queue.stack)
    (hdelivering : stack.any Frame.isDelivering = queue.stack.any Frame.isDelivering) :
    (queue.unwind stack text).1.Stacked := by
  have hsplit := List.takeWhile_append_dropWhile (p := fun frame : Frame μ ρ => !frame.isUser) (l := stack)
  have hrest := (queue.unwind_suffix stack text).trans hsuffix
  refine ⟨h.nested.suffix hrest, ?_, fun frame hframe => h.fair frame (hrest.subset hframe)⟩
  have hnested := h.nested.suffix hsuffix
  rw [← hsplit] at hnested hdelivering
  simp only [Queue.unwind, h.delivering, ← hdelivering, List.any_append]
  cases hleft : (stack.takeWhile (fun frame => !frame.isUser)).any Frame.isDelivering with
  | false => simp
  | true => simp [hnested.delivering_once hleft]

-- The innermost frames give way to others while the delivery flag stays.
theorem Stacked.replace {queue next : Queue μ ρ} (h : queue.Stacked) (old new : List (Frame μ ρ))
    {rest : List (Frame μ ρ)} (hold : queue.stack = old ++ rest) (hnew : next.stack = new ++ rest)
    (hflag : next.delivering = queue.delivering)
    (hdelivering : new.any Frame.isDelivering = old.any Frame.isDelivering) (hnested : Nested (new ++ rest))
    (hfair : ∀ frame ∈ new, frame.Fair) : next.Stacked where
  nested := by rwa [hnew]
  delivering := by rw [hflag, h.delivering, hold, hnew, List.any_append, List.any_append, hdelivering]
  fair := by
    intro frame hframe
    rw [hnew, List.mem_append] at hframe
    rcases hframe with hframe | hframe
    · exact hfair frame hframe
    · exact h.fair frame (by rw [hold]; exact List.mem_append_right old hframe)

-- The innermost frame goes.
theorem Stacked.leave {queue next : Queue μ ρ} (h : queue.Stacked) {frame : Frame μ ρ} {rest : List (Frame μ ρ)}
    (hold : queue.stack = frame :: rest) (hnew : next.stack = rest) (hflag : next.delivering = queue.delivering)
    (hframe : frame.isDelivering = false) : next.Stacked :=
  h.replace [frame] [] hold hnew hflag (by simp [hframe]) (hold ▸ h.nested).2 (by simp)

-- A frame comes on top that is no delivery.
theorem Stacked.enter {queue next : Queue μ ρ} (h : queue.Stacked) (frame : Frame μ ρ)
    (hnew : next.stack = frame :: queue.stack) (hflag : next.delivering = queue.delivering)
    (hframe : frame.isDelivering = false) (hfits : frame.Fits queue.stack) (hfair : frame.Fair) : next.Stacked :=
  h.replace [] [frame] rfl hnew hflag (by simp [hframe]) ⟨hfits, h.nested⟩ (by simpa using hfair)

-- The innermost frame gives way to another one that may lie where it did.
theorem Stacked.become {queue next : Queue μ ρ} (h : queue.Stacked) {old new : Frame μ ρ} {rest : List (Frame μ ρ)}
    (hold : queue.stack = old :: rest) (hnew : next.stack = new :: rest) (hflag : next.delivering = queue.delivering)
    (hdelivering : new.isDelivering = old.isDelivering) (hfits : old.Fits rest → new.Fits rest)
    (hfair : old.Fair → new.Fair) : next.Stacked :=
  have hn := h.fits hold
  h.replace [old] [new] hold hnew hflag (by simp [hdelivering]) ⟨hfits hn.1, hn.2⟩
    (by simpa using hfair (h.fair old (by simp [hold])))

theorem Transition.stacked {queue next : Queue μ ρ} {move : Move μ ρ} {events : List (Event μ ρ)}
    (h : Transition queue move next events) (hs : queue.Stacked) : next.Stacked := by
  cases h with
  | idle => exact hs
  | busy => exact hs
  | dropped => exact hs
  | noToken => exact hs
  | @scan now name scan scans rest hstack =>
      have hn := hs.fits hstack
      have hf := hs.fair (.scanning now ((name, scan) :: scans)) (by simp [hstack])
      exact hs.replace [_] [_, _] hstack rfl (by simp) rfl ⟨⟨_, _, _, rfl⟩, hn⟩
        (by simpa [Frame.Fair] using fun name scan hlook => hf (name, scan) (List.mem_cons_of_mem _ hlook))
  | scannedAll hstack => exact hs.become hstack rfl rfl rfl id fun _ => trivial
  | @retire name entry batch rest hstack =>
      apply Stacked.raise
      exact hs.become hstack rfl rfl rfl id id
  | retiredAll hstack => exact hs.leave hstack rfl rfl rfl
  | nothingPending hstack => exact hs.leave hstack rfl rfl rfl
  | gather hstack => exact hs.become hstack rfl rfl rfl id fun _ => trivial
  | dispatchedAll hstack => exact hs.leave hstack rfl rfl rfl
  | pop hstack => exact hs.become hstack rfl rfl rfl id fun _ => trivial
  | @cancel entry batch total rest hstack =>
      apply Stacked.raise
      exact hs.become hstack rfl rfl rfl id id
  | cancelledAll hstack => exact hs.leave hstack rfl rfl rfl
  | completed hstack => exact hs.leave hstack rfl rfl rfl
  | @deliveredAll rest hstack =>
      have hn := hs.fits hstack
      exact ⟨hn.2, hn.1.symm, fun frame hframe => hs.fair frame (by simp [hstack, hframe])⟩
  | @notify notice outbox rest hstack =>
      exact hs.enter (.notifying notice) (by rw [hstack]) rfl rfl (by rw [hstack]; exact ⟨rest, rfl⟩) trivial
  | skip => exact ⟨hs.nested, hs.delivering, hs.fair⟩
  | accept now hstack => exact hs.leave hstack rfl (by simp [append]) rfl
  | sweep now hstack => exact hs.become hstack rfl rfl rfl id id
  | @start bound entry rest now hstack =>
      have hn := hs.fits hstack
      exact hs.replace [_] [_, _] hstack rfl (by simp [append]) rfl
        ⟨⟨_, _, rfl⟩, hn.1, hn.2⟩ (by simp [Frame.Fair])
  | reject fault hstack => exact hs.leave hstack rfl rfl rfl
  | sweepUnread fault hstack => exact hs.become hstack rfl rfl rfl id fun _ => trivial
  | @startUnread bound entry rest fault hstack =>
      apply Stacked.raise
      exact hs.become hstack rfl rfl rfl id fun _ => trivial
  | clockPanic text => exact hs.unwind queue.stack text (List.suffix_refl _) rfl
  | enqueue message hturn hfree => exact hs.enter _ rfl rfl rfl hfree trivial
  | tick hturn hfree => exact hs.enter _ rfl rfl rfl hfree queue.limits.scans_fair
  | tickUnlimited hturn hfree => exact hs.enter _ rfl rfl rfl hfree trivial
  | drain hturn hfree => exact hs.enter _ rfl rfl rfl hfree trivial
  | drainEmpty => exact ⟨hs.nested, hs.delivering, hs.fair⟩
  | setLimits => exact ⟨hs.nested, hs.delivering, hs.fair⟩
  | drop => exact ⟨hs.nested, hs.delivering, hs.fair⟩
  | complete =>
      apply Stacked.raise
      exact hs.enter .completing rfl rfl rfl trivial trivial
  | completeLate => exact ⟨hs.nested, hs.delivering, hs.fair⟩
  | completeOrphan => exact ⟨hs.nested, hs.delivering, hs.fair⟩
  | dropToken => exact ⟨hs.nested, hs.delivering, hs.fair⟩
  | @finish frame rest hstack huser =>
      exact hs.leave hstack rfl rfl (by cases frame <;> simp_all [Frame.isUser, Frame.isDelivering])
  | @panic frame rest text hstack huser =>
      apply hs.unwind rest text (hstack ▸ List.suffix_cons frame rest)
      have hframe : frame.isDelivering = false := by cases frame <;> simp_all [Frame.isUser, Frame.isDelivering]
      simp [hstack, hframe]

end Queue

end DeadlineQueue
