import DeadlineQueue.Proofs.Errands.Basic
import Mathlib.Data.List.Pairwise
import Mathlib.Data.List.Perm.Basic

namespace DeadlineQueue

variable {μ ρ : Type}

namespace Lane

theorem remove_snd_remove (lane : Lane μ) (first second : Nat) :
    ((lane.remove first).2.remove second).2 =
      settle { lane with
        slots := lane.slots.filter (fun slot => slot.key ≠ first ∧ slot.key ≠ second) } := by
  have hboth : (lane.slots.filter (fun slot => slot.key ≠ first)).filter (fun slot => slot.key ≠ second) =
      lane.slots.filter (fun slot => slot.key ≠ first ∧ slot.key ≠ second) := by
    rw [List.filter_filter]
    simp [Bool.and_comm]
  rw [← hboth]
  by_cases hnil : lane.slots.filter (fun slot => slot.key ≠ first) = []
  · have hempty : (lane.remove first).2 = {} := settle_of_slots_eq_nil _ hnil
    rw [hempty, hnil]
    rfl
  · have hleft : (lane.remove first).2 = { lane with slots := lane.slots.filter (fun slot => slot.key ≠ first) } :=
      settle_of_slots_ne_nil _ hnil
    rw [hleft]
    rfl

-- Two entries may leave in any order, also if the lane is empty then.
theorem remove_comm (lane : Lane μ) (first second : Nat) :
    ((lane.remove first).2.remove second).2 = ((lane.remove second).2.remove first).2 := by
  rw [remove_snd_remove, remove_snd_remove]
  simp only [and_comm]

theorem remove_fst_remove (lane : Lane μ) {first second : Nat} (hne : first ≠ second) :
    ((lane.remove first).2.remove second).1 = (lane.remove second).1 := by
  have hkept : ∀ slot ∈ lane.slots,
      decide (decide (slot.key ≠ first) = true ∧ decide (slot.key = second) = true) = decide (slot.key = second) := by
    intro slot _
    rw [decide_eq_decide]
    by_cases hkey : slot.key = second
    · simp [hkey, hne.symm]
    · simp [hkey]
  unfold remove
  rw [slots_settle, List.find?_filter, List.find?_congr hkept]

end Lane

-- Errands with the tokens of different entries, or without one.
def Errand.Apart (first second : Errand μ ρ) : Prop :=
  ∀ one ∈ first.token?, ∀ other ∈ second.token?, one.key ≠ other.key

instance Errand.symm_apart : Std.Symm (@Errand.Apart μ ρ) where
  symm _ _ h := fun one hone other hother => (h other hother one hone).symm

namespace Queue

section once

variable (queue : Queue μ ρ)

@[simp] theorem alive_once (errand : Errand μ ρ) : (queue.once errand).alive = queue.alive := by
  cases errand with
  | report token outcome reason => rfl
  | admission message now =>
      rw [once]
      split
      · rfl
      · simp [alive, append]

theorem inProgress_once_admission (message : μ) (now : Instant) :
    (queue.once (.admission message now)).inProgress = queue.inProgress := by
  rw [once]
  split
  · rfl
  · simp [append]

theorem once_report (token : Token) (outcome : Outcome) (reason : Option ρ) :
    queue.once (.report token outcome reason) =
      { queue with
        held := queue.held.erase token
        inProgress := if queue.alive then (queue.inProgress.remove token.key).2 else queue.inProgress
        outbox := if (queue.awaited token).isSome then [] else queue.outbox } :=
  rfl

-- What a report finds does not depend on errands with other tokens.
theorem awaited_once {errand : Errand μ ρ} {token : Token} (hapart : ∀ used ∈ errand.token?, used.key ≠ token.key) :
    (queue.once errand).awaited token = queue.awaited token := by
  unfold awaited
  rw [alive_once]
  split
  · rename_i halive
    cases errand with
    | report used outcome reason =>
        have hinProgress : (queue.once (.report used outcome reason)).inProgress =
            (queue.inProgress.remove used.key).2 := if_pos halive
        rw [hinProgress, queue.inProgress.remove_fst_remove (hapart used rfl)]
    | admission message now => rw [inProgress_once_admission]
  · rfl

theorem notice?_once {errand other : Errand μ ρ} (hapart : errand.Apart other) :
    (queue.once errand).notice? other = queue.notice? other := by
  cases other with
  | report token outcome reason =>
      rw [notice?, notice?, queue.awaited_once (fun used hused => hapart used hused token rfl)]
  | admission message now => rfl

theorem response?_once {errand other : Errand μ ρ} (hreport : other.isAdmission = false) (hapart : errand.Apart other) :
    (queue.once errand).response? other = queue.response? other := by
  cases other with
  | report token outcome reason =>
      rw [response?, response?, queue.awaited_once (fun used hused => hapart used hused token rfl)]
  | admission message now => exact absurd hreport Bool.noConfusion

theorem outbox_once (errand : Errand μ ρ) :
    (queue.once errand).outbox = if (queue.notice? errand).isSome then [] else queue.outbox := by
  cases errand with
  | report token outcome reason => rw [notice?, Option.isSome_map, once]
  | admission message now =>
      rw [once]
      split
      · rfl
      · simp [append, notice?]

end once

-- A report commutes with what has no part in its entry. The entries may leave in any order, and an
-- admission touches neither the lane nor the outbox.
theorem once_comm (queue : Queue μ ρ) {first second : Errand μ ρ} (hreport : first.isAdmission = false)
    (hapart : first.Apart second) : (queue.once first).once second = (queue.once second).once first := by
  cases first with
  | admission message now => exact absurd hreport Bool.noConfusion
  | report token outcome reason =>
      cases second with
      | report other otherOutcome otherReason =>
          have hne : token.key ≠ other.key := hapart token rfl other rfl
          have hsecond : (queue.once (.report token outcome reason)).awaited other = queue.awaited other :=
            queue.awaited_once (by rintro used ⟨⟩; exact hne)
          have hfirst : (queue.once (.report other otherOutcome otherReason)).awaited token = queue.awaited token :=
            queue.awaited_once (by rintro used ⟨⟩; exact hne.symm)
          have hempties (one two : Bool) : (if two then [] else if one then [] else queue.outbox) =
              if one then [] else if two then [] else queue.outbox := by cases one <;> cases two <;> rfl
          have houtbox := hempties (queue.awaited token).isSome (queue.awaited other).isSome
          rw [once_report (queue.once _) other, once_report (queue.once _) token, hfirst, hsecond, alive_once,
            alive_once]
          simp only [once_report]
          cases halive : queue.alive with
          | true => simp [List.erase_comm token other, queue.inProgress.remove_comm token.key other.key, houtbox]
          | false => simp [List.erase_comm token other, houtbox]
      | admission message now =>
          have hfirst : (queue.once (.admission message now)).awaited token = queue.awaited token :=
            queue.awaited_once nofun
          rw [once_report (queue.once _) token, hfirst, alive_once]
          cases hdropped : queue.dropped with
          | true => simp [once, hdropped]
          | false => simp [once, hdropped, append, setLane, lane]

theorem apart_of_isAdmission {errand other : Errand μ ρ} (hadmission : other.isAdmission = true) :
    errand.Apart other := by
  cases other with
  | report token outcome reason => exact absurd hadmission Bool.false_ne_true
  | admission message now => exact fun _ _ => nofun

-- An admission may wait until all reports are done.
theorem foldl_once_admission (queue : Queue μ ρ) {admission : Errand μ ρ} (hadmission : admission.isAdmission = true)
    {reports : List (Errand μ ρ)} (hreports : ∀ report ∈ reports, report.isAdmission = false) :
    reports.foldl once (queue.once admission) = (reports.foldl once queue).once admission := by
  induction reports generalizing queue with
  | nil => rfl
  | cons report reports ih =>
      rw [List.forall_mem_cons] at hreports
      have hswap := queue.once_comm hreports.1 (apart_of_isAdmission hadmission : report.Apart admission)
      rw [List.foldl_cons, List.foldl_cons, ← hswap, ih (queue.once report) hreports.2]

theorem foldl_once_eq (queue : Queue μ ρ) (errands : List (Errand μ ρ)) :
    errands.foldl once queue =
      (errands.filter Errand.isAdmission).foldl once ((errands.filter (!·.isAdmission)).foldl once queue) := by
  induction errands generalizing queue with
  | nil => rfl
  | cons errand errands ih =>
      rw [List.foldl_cons, ih]
      cases hadmission : errand.isAdmission with
      | false => simp [hadmission]
      | true =>
          have hreports : ∀ report ∈ errands.filter (!·.isAdmission), report.isAdmission = false := by
            intro report hreport
            simpa using (List.mem_filter.1 hreport).2
          rw [queue.foldl_once_admission hadmission hreports]
          simp [hadmission]

-- The order of the reports does not matter, nor does it when the admissions come between them.
theorem foldl_once_perm (queue : Queue μ ρ) {errands others : List (Errand μ ρ)} (hperm : others.Perm errands)
    (hadmissions : others.filter Errand.isAdmission = errands.filter Errand.isAdmission)
    (hapart : others.Pairwise Errand.Apart) : others.foldl once queue = errands.foldl once queue := by
  have hreports : (others.filter (!·.isAdmission)).foldl once queue =
      (errands.filter (!·.isAdmission)).foldl once queue := by
    refine (hperm.filter _).foldl_eq' (fun first hfirst second hsecond current => ?_) queue
    by_cases heq : first = second
    · rw [heq]
    · have hreport : first.isAdmission = false := by simpa using (List.mem_filter.1 hfirst).2
      have hfirstApart : first.Apart second :=
        hapart.forall (List.mem_of_mem_filter hfirst) (List.mem_of_mem_filter hsecond) heq
      exact current.once_comm hreport hfirstApart
  rw [foldl_once_eq, hadmissions, hreports, ← foldl_once_eq]

section Apart

variable {errand : Errand μ ρ} {errands : List (Errand μ ρ)}

theorem filterMap_notice?_once (queue : Queue μ ρ) (hapart : ∀ other ∈ errands, errand.Apart other) :
    errands.filterMap (queue.once errand).notice? = errands.filterMap queue.notice? :=
  List.filterMap_congr fun _ hother => queue.notice?_once (hapart _ hother)

-- What waits is delivered before the first notice of the errands, and stays if there is none.
theorem servings_eq (queue : Queue μ ρ) (hapart : errands.Pairwise Errand.Apart) :
    queue.servings errands =
      if errands.filterMap queue.notice? = [] then [] else queue.outbox ++ errands.filterMap queue.notice? := by
  induction errands generalizing queue with
  | nil => rfl
  | cons errand errands ih =>
      obtain ⟨hfirst, hrest⟩ := List.pairwise_cons.1 hapart
      rw [servings, ih (queue.once errand) hrest, queue.filterMap_notice?_once hfirst, outbox_once, served]
      cases hnotice : queue.notice? errand with
      | none => simp [hnotice]
      | some notice => simp [hnotice]

theorem outbox_foldl_once (queue : Queue μ ρ) (hapart : errands.Pairwise Errand.Apart) :
    (errands.foldl once queue).outbox = if errands.filterMap queue.notice? = [] then queue.outbox else [] := by
  induction errands generalizing queue with
  | nil => rfl
  | cons errand errands ih =>
      obtain ⟨hfirst, hrest⟩ := List.pairwise_cons.1 hapart
      rw [List.foldl_cons, ih (queue.once errand) hrest, queue.filterMap_notice?_once hfirst, outbox_once]
      cases hnotice : queue.notice? errand with
      | none => simp [hnotice]
      | some notice => simp [hnotice]

theorem map_fst_replies (queue : Queue μ ρ) (errands : List (Errand μ ρ)) :
    (queue.replies errands).map Prod.fst = errands := by
  induction errands generalizing queue with
  | nil => rfl
  | cons errand errands ih => rw [replies, List.map_cons, ih]

theorem mem_of_mem_replies {queue : Queue μ ρ} {reply : Option (Reply μ)}
    (h : (errand, reply) ∈ queue.replies errands) : errand ∈ errands := by
  have hmap := List.mem_map_of_mem (f := Prod.fst) h
  rwa [map_fst_replies] at hmap

-- A report is answered as it would be before all other errands.
theorem eq_response?_of_mem_replies (queue : Queue μ ρ) (hapart : errands.Pairwise Errand.Apart)
    {reply : Option (Reply μ)} (hreply : (errand, reply) ∈ queue.replies errands)
    (hreport : errand.isAdmission = false) : reply = queue.response? errand := by
  induction errands generalizing queue with
  | nil => exact absurd hreply List.not_mem_nil
  | cons first errands ih =>
      obtain ⟨hfirst, hrest⟩ := List.pairwise_cons.1 hapart
      rcases List.mem_cons.1 hreply with heq | hlater
      · cases heq
        rfl
      · have hapartFirst := hfirst errand (mem_of_mem_replies hlater)
        rw [ih (queue.once first) hrest hlater, queue.response?_once hreport hapartFirst]

theorem replies_once_report (queue : Queue μ ρ) (token : Token) (outcome : Outcome) (reason : Option ρ)
    {admissions : List (Errand μ ρ)} (hadmissions : ∀ admission ∈ admissions, admission.isAdmission = true) :
    (queue.once (.report token outcome reason)).replies admissions = queue.replies admissions := by
  induction admissions generalizing queue with
  | nil => rfl
  | cons admission admissions ih =>
      rw [List.forall_mem_cons] at hadmissions
      have hapart : (Errand.report token outcome reason).Apart admission := apart_of_isAdmission hadmissions.1
      have hanswer : (queue.once (.report token outcome reason)).response? admission = queue.response? admission := by
        cases admission with
        | report other otherOutcome otherReason => exact absurd hadmissions.1 Bool.false_ne_true
        | admission message now => rfl
      rw [replies, replies, hanswer, queue.once_comm rfl hapart, ih (queue.once admission) hadmissions.2]

-- Admissions are answered as they would be without the reports.
theorem filter_replies (queue : Queue μ ρ) (errands : List (Errand μ ρ)) :
    (queue.replies errands).filter (·.1.isAdmission) = queue.replies (errands.filter Errand.isAdmission) := by
  induction errands generalizing queue with
  | nil => rfl
  | cons errand errands ih =>
      rw [replies]
      cases errand with
      | report token outcome reason =>
          rw [List.filter_cons_of_neg (by simp [Errand.isAdmission]),
            List.filter_cons_of_neg (by simp [Errand.isAdmission]), ih,
            queue.replies_once_report token outcome reason (fun admission h => (List.mem_filter.1 h).2)]
      | admission message now =>
          rw [List.filter_cons_of_pos rfl, List.filter_cons_of_pos rfl, ih]
          rfl

end Apart

section Sound

variable {queue : Queue μ ρ} {admitted : List (MessageId × μ)} {past : List (Event μ ρ)}

-- Errands with different tokens are apart, as different tokens were made for different entries.
theorem Sound.pairwise_apart (h : queue.Sound admitted past) {errands : List (Errand μ ρ)}
    (hnodup : (errands.filterMap Errand.token?).Nodup)
    (hheld : ∀ token ∈ errands.filterMap Errand.token?, token ∈ queue.held) : errands.Pairwise Errand.Apart := by
  have hkeys : (errands.filterMap Errand.token?).Pairwise (fun first second => first.key ≠ second.key) := by
    refine hnodup.imp_of_mem (fun {first second} hfirst hsecond hne hkey => hne ?_)
    obtain ⟨_, hissue⟩ := h.exists_issue_of_held (hheld first hfirst)
    obtain ⟨_, hother⟩ := h.exists_issue_of_held (hheld second hsecond)
    exact h.eq_of_held hother first (hheld first hfirst) ((h.key_eq_iff_id_eq hissue hother).1 hkey)
  exact List.pairwise_filterMap.1 hkeys

theorem Sound.isSome_awaited (h : queue.Sound admitted past) {token : Token} (hheld : token ∈ queue.held) :
    (queue.awaited token).isSome = queue.expects token := by
  obtain ⟨_, hissue⟩ := h.exists_issue_of_held hheld
  rw [awaited, expects, h.remove_fst hissue]
  cases halive : queue.alive with
  | true => rw [if_pos rfl, Bool.true_and, Bool.eq_iff_iff, List.find?_isSome, List.any_eq_true]
  | false => rfl

end Sound

-- Reports with different tokens that are out commute, and admissions may come anywhere between them as
-- long as they stay in order. While no call is running, any such errands can be done. Each report is
-- answered as it would be first, and the notices of those that count are delivered in their order, after
-- what a panic has left in the outbox. The rest of the state comes out the same in every order, as do the
-- answers to the admissions.
theorem run_commutes (settings : Settings) (observed : Bool) (past : List (Move μ ρ)) :
    let queue := ((make settings observed).run past).1
    queue.stack = [] →
      (∀ errands, ∃ outing : Outing μ ρ, outing.errands = errands ∧ queue.performs outing = true) ∧
      ∀ outing : Outing μ ρ, queue.performs outing = true →
        (outing.errands.filterMap Errand.token?).Nodup →
        (∀ token ∈ outing.errands.filterMap Errand.token?, token ∈ queue.held) →
        let last := queue.run outing.moves
        let accepted := outing.errands.filterMap queue.notice?
        (∀ token outcome reason reply, (.report token outcome reason, reply) ∈ queue.answers outing →
          reply = some (.delivered (queue.expects token))) ∧
        deliveries last.2 = (if accepted = [] then [] else queue.outbox ++ accepted) ∧
        receipts last.2 = (if queue.observed then deliveries last.2 else []) ∧
        last.1.outbox = (if accepted = [] then queue.outbox else []) ∧
        ((∀ text, .panic text ∉ past) → deliveries last.2 = accepted ∧ last.1.outbox = []) ∧
        ∀ other : Outing μ ρ, queue.performs other = true → other.errands.Perm outing.errands →
          other.errands.filter Errand.isAdmission = outing.errands.filter Errand.isAdmission →
          (queue.run other.moves).1 = last.1 ∧
            (queue.answers other).filter (·.1.isAdmission) = (queue.answers outing).filter (·.1.isAdmission) := by
  intro queue hstack
  have hs : queue.Sound _ _ := sound_run settings observed past
  have hresting : queue.Resting := hs.stacked.resting hstack
  refine ⟨fun errands => hs.exists_performs errands, fun outing houting hnodup hheld => ?_⟩
  intro last accepted
  have hapart := hs.pairwise_apart hnodup hheld
  obtain ⟨hlast, hanswers, hservings⟩ := hresting.run houting hnodup hheld
  have hdelivered : deliveries last.2 = if accepted = [] then [] else queue.outbox ++ accepted :=
    hservings.trans (queue.servings_eq hapart)
  have houtbox : last.1.outbox = if accepted = [] then queue.outbox else [] := by
    rw [show last.1 = _ from hlast]
    exact queue.outbox_foldl_once hapart
  refine ⟨?_, hdelivered, queue.run_receipts outing.moves, houtbox, ?_, ?_⟩
  · intro token outcome reason reply hreply
    rw [hanswers] at hreply
    have hreported := hheld token (List.mem_filterMap.2 ⟨_, mem_of_mem_replies hreply, rfl⟩)
    rw [queue.eq_response?_of_mem_replies hapart hreply rfl, response?, hs.isSome_awaited hreported]
  · intro hpanic
    have hempty : queue.outbox = [] := flushed_run settings observed past hpanic hresting.idle
    rw [hdelivered, houtbox, hempty]
    simp
  · intro other hother hperm hadmissions
    have htokens : (other.errands.filterMap Errand.token?).Perm (outing.errands.filterMap Errand.token?) :=
      hperm.filterMap _
    have hnodupOther := htokens.nodup_iff.2 hnodup
    have hheldOther : ∀ token ∈ other.errands.filterMap Errand.token?, token ∈ queue.held :=
      fun token htoken => hheld token (htokens.subset htoken)
    obtain ⟨hlastOther, hanswersOther, -⟩ := hresting.run hother hnodupOther hheldOther
    constructor
    · rw [hlastOther, show last.1 = _ from hlast]
      exact queue.foldl_once_perm hperm hadmissions (hs.pairwise_apart hnodupOther hheldOther)
    · rw [hanswersOther, hanswers, filter_replies, filter_replies, hadmissions]

-- Three messages in progress, where the clock was set back before the last of them started. The first one
-- has timed out, but its token is still out.
def tokenOutlivesEntry : List (Move String String) :=
  [.call (.enqueue "a"), .read (.time 0), .call (.enqueue "b"), .read (.time 0), .call (.enqueue "c"), .read (.time 0),
    .call .tick, .read (.time 1), .advance, .advance, .advance, .advance, .advance, .read (.time 1), .finish, .advance,
    .read (.time 7), .finish, .advance, .read (.time 6), .finish, .advance, .call .tick, .read (.time 8), .advance,
    .advance, .advance, .finish, .advance, .advance, .advance, .advance]

-- The lane of what is in progress runs empty with the fourth errand.
def emptiedFourth : Outing String String :=
  [(.report ⟨3, ⟨0⟩⟩ .success none, []), (.report ⟨4, ⟨1⟩⟩ .success none, [.advance, .finish, .advance, .advance]),
    (.admission "d" 8, [.read (.time 8)]),
    (.report ⟨5, ⟨2⟩⟩ .error (some "lost"), [.advance, .finish, .advance, .advance]),
    (.admission "e" 4, [.read (.time 4)])]

-- The same errands in another order. The lane runs empty with the last one.
def emptiedLast : Outing String String :=
  [(.report ⟨5, ⟨2⟩⟩ .error (some "lost"), [.advance, .finish, .advance, .advance]),
    (.admission "d" 8, [.read (.time 8)]), (.admission "e" 4, [.read (.time 4)]),
    (.report ⟨3, ⟨0⟩⟩ .success none, []),
    (.report ⟨4, ⟨1⟩⟩ .success none, [.advance, .finish, .advance, .advance])]

theorem run_commutes_emptiedLast :
    let settings : Settings := { limits := { processing := some 5 } }
    let queue : Queue String String := ((make settings true).run tokenOutlivesEntry).1
    let tokens := emptiedFourth.errands.filterMap Errand.token?
    queue.stack = [] ∧ queue.performs emptiedFourth = true ∧ tokens.Nodup ∧ (∀ token ∈ tokens, token ∈ queue.held) ∧
      queue.performs emptiedLast = true ∧ emptiedLast.errands.Perm emptiedFourth.errands ∧
      emptiedLast.errands.filter Errand.isAdmission = emptiedFourth.errands.filter Errand.isAdmission ∧
      tokens.map queue.expects = [false, true, true] ∧ queue.inProgress.ordered = false ∧
      (queue.run emptiedLast.moves).1 = (queue.run emptiedFourth.moves).1 := by
  intro settings queue tokens
  have hfourth : queue.performs emptiedFourth = true := by decide
  have hnodup : tokens.Nodup := by decide
  have hheld : ∀ token ∈ tokens, token ∈ queue.held := by decide
  have hlast : queue.performs emptiedLast = true := by decide
  have hperm : emptiedLast.errands.Perm emptiedFourth.errands := by decide
  have h := (run_commutes settings true tokenOutlivesEntry rfl).2 emptiedFourth hfourth hnodup hheld
  exact ⟨rfl, hfourth, hnodup, hheld, hlast, hperm, rfl, rfl, rfl,
    (h.2.2.2.2.2 emptiedLast hlast hperm rfl).1⟩

end Queue

end DeadlineQueue
