import DeadlineQueue.Proofs.Calls
import DeadlineQueue.Proofs.Sound

namespace DeadlineQueue.Queue

variable {μ ρ : Type}

-- Whether a report with this token counts: the queue is still there, and the message is in progress.
def expects (queue : Queue μ ρ) (token : Token) : Bool :=
  queue.alive && queue.inProgress.entries.any (fun entry => entry.id = token.id)

theorem step_complete (queue : Queue μ ρ) (token : Token) (outcome : Outcome) (reason : Option ρ)
    (hturn : queue.turn = .user) (hheld : token ∈ queue.held) :
    queue.step (.call (.complete token outcome reason)) = queue.complete token outcome reason := by
  simp [step, hturn, answer, ifHeld, hheld]

theorem step_dropToken (queue : Queue μ ρ) (token : Token) (hturn : queue.turn = .user) (hheld : token ∈ queue.held) :
    queue.step (.call (.dropToken token)) = queue.dropToken token := by
  simp [step, hturn, answer, ifHeld, hheld]

-- An entry that is alone under its id is the only one that goes when the id goes.
theorem filter_id_append {before after : List (Entry μ)} {entry : Entry μ}
    (hids : ((before ++ entry :: after).map (fun entry => entry.id)).Nodup) :
    (before ++ entry :: after).filter (fun other => other.id ≠ entry.id) = before ++ after := by
  rw [List.map_append, List.map_cons, List.nodup_middle, List.nodup_cons, ← List.map_append] at hids
  have hother : ∀ other ∈ before ++ after, decide (other.id ≠ entry.id) = true := by
    intro other hother
    have hne : other.id ≠ entry.id := fun hid => hids.1 (hid ▸ List.mem_map_of_mem hother)
    simpa using hne
  rw [List.forall_mem_append] at hother
  rw [List.filter_append, List.filter_cons_of_neg (by simp), List.filter_eq_self.mpr hother.1,
    List.filter_eq_self.mpr hother.2]

theorem filter_id_ne (entries : List (Entry μ)) (entry : Entry μ) (hids : (entries.map (fun entry => entry.id)).Nodup)
    (h : entry ∈ entries) :
    ∃ before after, entries = before ++ entry :: after ∧
      entries.filter (fun other => other.id ≠ entry.id) = before ++ after := by
  obtain ⟨before, after, rfl⟩ := List.append_of_mem h
  exact ⟨before, after, rfl, filter_id_append hids⟩

section Sound

variable {queue : Queue μ ρ} {admitted : List (MessageId × μ)} {past : List (Event μ ρ)} {token : Token} {message : μ}
variable (hs : queue.Sound admitted past) (hissue : (token, message) ∈ dispatches past)
include hs hissue

-- The message of a token is the one that was admitted under the id.
theorem Sound.mem_admitted_iff (other : μ) : (token.id, other) ∈ admitted ↔ other = message := by
  have hmem : (token.id, message) ∈ admitted := by
    have hmap := List.mem_map_of_mem (f := labelOf) hissue
    exact hs.traced.order.subset (List.mem_append_left _ hmap)
  constructor
  · intro hother
    have hsame := List.inj_on_of_nodup_map hs.numbered.nodup hother hmem rfl
    exact congrArg Prod.snd hsame
  · rintro rfl
    exact hmem

-- The entry in progress with the id of a token is the one that was handed out with it.
theorem Sound.labelled_eq {entry : Entry μ} (hentry : entry ∈ queue.inProgress.entries) (hid : entry.id = token.id) :
    entry.labelled = (token.id, message) := by
  obtain ⟨slot, hslot, rfl⟩ := List.mem_map.mp hentry
  have hkey := (hs.slot_key_eq_iff hslot hissue).mpr hid
  exact congrArg labelOf (List.inj_on_of_nodup_map hs.keys_nodup (hs.issue_mem hslot) hissue hkey)

-- A report that counts takes away that entry only.
theorem Sound.complete_of_expects (outcome : Outcome) (reason : Option ρ) (hexpects : queue.expects token = true) :
    ∃ entry before after, entry.labelled = (token.id, message) ∧ queue.inProgress.entries = before ++ entry :: after ∧
      (queue.inProgress.remove token.key).2.entries = before ++ after ∧
      queue.complete token outcome reason =
        (((queue.reporting token).raise .token (entry.notice outcome reason)).1,
          [.log (.completed entry.id outcome), .raised .token (entry.notice outcome reason)]) := by
  obtain ⟨halive, hany⟩ := Bool.and_eq_true_iff.mp hexpects
  obtain ⟨entry, hfind⟩ := Option.isSome_iff_exists.mp (List.find?_isSome.mpr (List.any_eq_true.mp hany))
  have hmem := List.mem_of_find?_eq_some hfind
  have hid : entry.id = token.id := by simpa using List.find?_some hfind
  obtain ⟨before, after, hentries, hfilter⟩ := filter_id_ne queue.inProgress.entries entry hs.inProgress_ids_nodup hmem
  have hrest := hs.entries_remove hissue
  rw [← hid, hfilter] at hrest
  have hfirst := (hs.remove_fst hissue).trans hfind
  exact ⟨entry, before, after, hs.labelled_eq hissue hmem hid, hentries, hrest,
    complete_of_some queue token outcome reason halive hfirst⟩

-- A report that does not count only uses up its token.
theorem Sound.complete_of_not_expects (outcome : Outcome) (reason : Option ρ) (hexpects : queue.expects token = false) :
    ∃ record, queue.complete token outcome reason =
      ({ queue with held := queue.held.erase token }, [.log record, .returned (.delivered false)]) := by
  cases halive : queue.alive with
  | true =>
      have hnone : ∀ entry ∈ queue.inProgress.entries, entry.id ≠ token.id := by
        simpa [expects, halive] using hexpects
      have hfirst : (queue.inProgress.remove token.key).1 = none := by
        rw [hs.remove_fst hissue]
        simpa using hnone
      rw [complete_of_none queue token outcome reason halive hfirst,
        hs.ordered.inProgress.remove_of_none token.key hfirst]
      exact ⟨_, rfl⟩
  | false => exact ⟨_, complete_of_not_alive queue token outcome reason halive⟩

-- A report that counts returns true, if it returns, and it can return.
theorem Sound.reply_of_expects (hturn : queue.turn = .user) (hheld : token ∈ queue.held) (outcome : Outcome)
    (reason : Option ρ) (hexpects : queue.expects token = true) :
    (∀ later reply, queue.reply? queue.stack.length (.call (.complete token outcome reason) :: later) = some reply →
        reply = .delivered true) ∧
      ∃ later, queue.reply? queue.stack.length (.call (.complete token outcome reason) :: later) =
        some (.delivered true) := by
  obtain ⟨entry, _, _, _, _, _, hcomplete⟩ := hs.complete_of_expects hissue outcome reason hexpects
  rw [← step_complete queue token outcome reason hturn hheld] at hcomplete
  have hnext := congrArg Prod.fst hcomplete
  have hsuffix : .completing :: queue.stack <:+
      (queue.step (.call (.complete token outcome reason))).1.stack := by
    obtain ⟨above, habove⟩ := exists_stack_raise (queue.reporting token) .token (entry.notice outcome reason)
    rw [hnext, habove]
    exact List.suffix_append above _
  have hreply := fun later => reply_cons_of_lt queue queue.stack.length (.call (.complete token outcome reason)) later
    hsuffix.length_le
  constructor
  · intro later reply h
    rw [hreply] at h
    exact reply_of_completing _ queue.stack later hsuffix reply h
  · obtain ⟨later, hlater⟩ :=
      exists_reply_of_raise (queue.reporting token) .token (entry.notice outcome reason) queue.stack rfl
    exact ⟨later, by rw [hreply, hnext, hlater]⟩

-- A report that does not count returns false at once.
theorem Sound.reply_of_not_expects (hturn : queue.turn = .user) (hheld : token ∈ queue.held) (outcome : Outcome)
    (reason : Option ρ) (hexpects : queue.expects token = false) (later : List (Move μ ρ)) :
    queue.reply? queue.stack.length (.call (.complete token outcome reason) :: later) = some (.delivered false) := by
  obtain ⟨record, hcomplete⟩ := hs.complete_of_not_expects hissue outcome reason hexpects
  rw [← step_complete queue token outcome reason hturn hheld] at hcomplete
  rw [reply?, hcomplete, if_pos (Nat.le_refl _)]
  rfl

end Sound

-- A token is bound to one message. A report with it is accepted if and only if that message is in
-- progress in a queue that is still there. Then the notice of that message is raised, and no other
-- message leaves a lane. If the report is refused, and if the token is dropped, the token goes and
-- nothing else changes.
theorem complete_binds (settings : Settings) (observed : Bool) (moves : List (Move μ ρ)) (token : Token) (message : μ)
    (hissue : (token, message) ∈ dispatches ((make settings observed).run moves).2)
    (hheld : token ∈ ((make settings observed).run moves).1.held)
    (hturn : ((make settings observed).run moves).1.turn = .user) (outcome : Outcome) (reason : Option ρ) :
    let queue := ((make settings observed).run moves).1
    let used := { queue with held := queue.held.erase token }
    let report : Move μ ρ := .call (.complete token outcome reason)
    let notice : Notice μ ρ := { id := token.id, message, outcome, reason }
    (∀ other, (token.id, other) ∈ (make settings observed).admissions moves ↔ other = message) ∧
      (∀ later reply, queue.reply? queue.stack.length (report :: later) = some reply →
        reply = .delivered (queue.expects token)) ∧
      (∃ later, queue.reply? queue.stack.length (report :: later) = some (.delivered (queue.expects token))) ∧
      (queue.expects token = true →
        (queue.step report).2.filterMap Event.raised? = [(.token, notice)] ∧
          (queue.step report).1.outbox = queue.outbox ++ [notice] ∧
          (queue.step report).1.pending = queue.pending ∧
          ∃ entry before after, entry.labelled = (token.id, message) ∧
            queue.inProgress.entries = before ++ entry :: after ∧
            (queue.step report).1.inProgress.entries = before ++ after) ∧
      (queue.expects token = false →
        (queue.step report).2.filterMap Event.raised? = [] ∧ (queue.step report).1 = used) ∧
      (queue.step (.call (.dropToken token))).2.filterMap Event.raised? = [] ∧
      (queue.step (.call (.dropToken token))).1 = used := by
  intro queue used report notice
  have hs : queue.Sound ((make settings observed).admissions moves) ((make settings observed).run moves).2 :=
    sound_run settings observed moves
  have hreport : queue.step report = queue.complete token outcome reason :=
    step_complete queue token outcome reason hturn hheld
  have hdrop : queue.step (.call (.dropToken token)) = queue.dropToken token := step_dropToken queue token hturn hheld
  have hdropped : (queue.dropToken token).2.filterMap Event.raised? = [] := by
    unfold Queue.dropToken
    split <;> rfl
  refine ⟨hs.mem_admitted_iff hissue, ?_, ?_, ?_, ?_, by rw [hdrop, hdropped], by rw [hdrop]; rfl⟩
  · cases hexpects : queue.expects token with
    | true => exact (hs.reply_of_expects hissue hturn hheld outcome reason hexpects).1
    | false =>
        intro later reply h
        rw [hs.reply_of_not_expects hissue hturn hheld outcome reason hexpects later, Option.some.injEq] at h
        exact h.symm
  · cases hexpects : queue.expects token with
    | true => exact (hs.reply_of_expects hissue hturn hheld outcome reason hexpects).2
    | false => exact ⟨[], hs.reply_of_not_expects hissue hturn hheld outcome reason hexpects []⟩
  · intro hexpects
    obtain ⟨entry, before, after, hlabelled, hentries, hrest, hcomplete⟩ :=
      hs.complete_of_expects hissue outcome reason hexpects
    have hnotice : entry.notice outcome reason = notice := by
      have hid : entry.id = token.id := congrArg Prod.fst hlabelled
      have hmessage : entry.message = message := congrArg Prod.snd hlabelled
      simp only [Entry.notice, hid, hmessage, notice]
    rw [hreport, hcomplete, hnotice]
    exact ⟨rfl, by rw [outbox_raise]; rfl, by rw [pending_raise]; rfl, entry, before, after, hlabelled, hentries,
      by rw [inProgress_raise]; exact hrest⟩
  · intro hexpects
    obtain ⟨record, hcomplete⟩ := hs.complete_of_not_expects hissue outcome reason hexpects
    rw [hreport, hcomplete]
    exact ⟨rfl, rfl⟩

-- Two equal messages. The first one times out while its token is out, then the second is dispatched.
def staleToken : List (Move String String) :=
  [.call (.enqueue "a"), .read (.time 0), .call .tick, .read (.time 1), .advance, .advance, .advance, .advance,
    .advance, .read (.time 1), .finish, .advance, .call (.enqueue "a"), .read (.time 2), .call .tick, .read (.time 6),
    .advance, .advance, .advance, .finish, .advance, .advance, .advance, .advance, .advance, .read (.time 6)]

-- The processor of the second message holds both tokens, and the stale one does not do.
theorem complete_binds_staleToken :
    let settings : Settings := { limits := { processing := some 4 } }
    let queue : Queue String String := ((make settings true).run staleToken).1
    ((⟨1, ⟨0⟩⟩ : Token), "a") ∈ dispatches ((make settings true).run staleToken).2 ∧
      (⟨1, ⟨0⟩⟩ : Token) ∈ queue.held ∧ queue.turn = .user ∧
      queue.inProgress.entries.map Entry.labelled = [(⟨1⟩, "a")] ∧
      (queue.step (.call (.complete ⟨1, ⟨0⟩⟩ .success none))).1 = { queue with held := [⟨3, ⟨1⟩⟩] } := by
  intro settings queue
  have hissue : ((⟨1, ⟨0⟩⟩ : Token), "a") ∈ dispatches ((make settings true).run staleToken).2 := by decide
  have hheld : (⟨1, ⟨0⟩⟩ : Token) ∈ queue.held := by decide
  have h := complete_binds settings true staleToken ⟨1, ⟨0⟩⟩ "a" hissue hheld rfl .success none
  exact ⟨hissue, hheld, rfl, rfl, (h.2.2.2.2.1 rfl).2⟩

end DeadlineQueue.Queue
