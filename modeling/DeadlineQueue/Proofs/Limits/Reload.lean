import DeadlineQueue.Proofs.Limits.Layouts

namespace DeadlineQueue

theorem enforced_some {limit : Duration} (hlimit : limit ≠ 0) : enforced (some limit) = some limit := by
  cases limit with
  | zero => exact absurd rfl hlimit
  | succ limit => rfl

namespace Limits

def deadline (limits : Limits) : Field → Option Duration
  | .wait => limits.waitDeadline
  | .processing => limits.processingDeadline

-- A limit as it is stored. One that 64 bits do not hold is cut.
def cut (limit : Option Duration) : Option Duration :=
  limit.map (min · (Json.wordLimit - 1))

def stored (limits : Limits) : Limits :=
  { wait := cut limits.wait, processing := cut limits.processing }

def Fits (limits : Limits) : Prop :=
  ∀ field, ∀ limit ∈ limits.get field, limit < Json.wordLimit

theorem get_stored (limits : Limits) (field : Field) : limits.stored.get field = cut (limits.get field) := by
  cases field with
  | wait => rfl
  | processing => rfl

theorem deadline_eq (limits : Limits) (field : Field) : limits.deadline field = enforced (limits.get field) := by
  cases field with
  | wait => rfl
  | processing => rfl

theorem cut_eq_iff (limit : Option Duration) : cut limit = limit ↔ ∀ value ∈ limit, value < Json.wordLimit := by
  have hmin (value : Nat) : min value (Json.wordLimit - 1) = value ↔ value < Json.wordLimit := by
    have hpos : 0 < Json.wordLimit := by decide
    omega
  cases limit with
  | none => simp [cut]
  | some value => simp [cut, hmin]

theorem stored_eq_iff (limits : Limits) : limits.stored = limits ↔ limits.Fits := by
  constructor
  · intro h field
    rw [← cut_eq_iff, ← get_stored, h]
  · intro h
    refine ext_get (fun field => ?_)
    rw [get_stored, cut_eq_iff]
    exact h field

theorem storedLimit_cut (limit : Option Duration) : storedLimit (cut limit) = storedLimit limit := by
  cases limit with
  | none => rfl
  | some value => simp [storedLimit, cut]

theorem toJson_stored (limits : Limits) : limits.stored.toJson = limits.toJson := by
  simp only [toJson, stored, storedLimit_cut]

theorem cut_eq_none_iff (limit : Option Duration) : cut limit = none ↔ limit = none := by
  simp [cut]

theorem cut_eq_zero_iff (limit : Option Duration) : cut limit = some 0 ↔ limit = some 0 := by
  cases limit with
  | none => simp [cut]
  | some value =>
      rw [cut, Option.map_some, Option.some_inj, Option.some_inj, Nat.min_eq_zero_iff]
      exact or_iff_left (by decide)

-- A deadline is as it was, or it is cut as the limit is.
theorem enforced_cut (limit : Option Duration) : enforced (cut limit) = cut (enforced limit) := by
  cases limit with
  | none => rfl
  | some value =>
      rcases Nat.eq_zero_or_pos value with rfl | hpos
      · rfl
      · have hcut : min value (Json.wordLimit - 1) ≠ 0 := by
          rw [Ne, Nat.min_eq_zero_iff, not_or]
          exact ⟨by omega, by decide⟩
        rw [enforced_some (Nat.ne_of_gt hpos)]
        exact enforced_some hcut

theorem Field.name_plain (field : Field) : field.name.toList.all Json.isPlain = true := by
  cases field with
  | wait => decide
  | processing => decide

-- A member of an object, from behind its first quote.
def Field.member (field : Field) (limit : Option Duration) (rest : List Char) : List Char :=
  field.name.toList ++ '"' :: ':' :: ((storedLimit limit).toList ++ rest)

theorem toList_toJson (limits : Limits) :
    limits.toJson.toList = '\x7b' :: '"' :: Field.wait.member limits.wait
      (',' :: '"' :: Field.processing.member limits.processing ['\x7d']) := by
  simp [toJson, Field.member]

theorem denotes_stored (limit : Option Duration) : Denotes (storedLimit limit).toList (cut limit) := by
  cases limit with
  | none => exact .null
  | some limit =>
      have hfits : min limit (Json.wordLimit - 1) < Json.wordLimit :=
        Nat.lt_of_le_of_lt (Nat.min_le_right _ _) (Nat.sub_lt (by decide) Nat.one_pos)
      have htext : (storedLimit (some limit)).toList = Nat.toDigits 10 (min limit (Json.wordLimit - 1)) := by
        simp [storedLimit]
      rw [htext]
      exact .natural hfits

theorem isMember_stored (field : Field) (limit : Option Duration) :
    Json.IsMember (field.name, (storedLimit limit).toList)
      ('"' :: (field.name.toList ++ '"' :: ':' :: (storedLimit limit).toList)) :=
  .blanks .nil (.of_plain field.name_plain) .nil .nil (denotes_stored limit).isJson

-- Stored limits are an object with a member for each field.
theorem isObject_toJson (limits : Limits) :
    Json.IsObject
      [(Field.wait.name, (storedLimit limits.wait).toList),
        (Field.processing.name, (storedLimit limits.processing).toList)]
      limits.toJson.toList := by
  have hrow := Json.Row.first (isMember_stored .wait limits.wait)
    (.further .nil (isMember_stored .processing limits.processing) (.done .nil))
  have hobject : Json.IsObject _ _ := .blanks .nil hrow .nil
  rw [toList_toJson]
  simpa [Field.member] using hobject

theorem ofJson?_toJson (limits : Limits) : ofJson? limits.toJson = .ok limits.stored := by
  rw [ofJson?_object limits.isObject_toJson]
  intro field
  cases field with
  | wait => exact .only (denotes_stored limits.wait)
  | processing => exact .only (denotes_stored limits.processing)

end Limits

namespace Json

open Limits

-- A limit that was read is one that 64 bits hold.
def LimitFits (limit : Option Duration) : Prop :=
  ∀ value ∈ limit, value < wordLimit

theorem Cursor.yields_natural {start after : Cursor} {negative : Bool} {value : Nat}
    (h : start.readNumber negative = .ok (.natural value, after)) :
    Yields LimitFits (.ok (some value, after)) := by
  refine .ok (fun other hother => ?_) after
  cases hother
  exact start.yields_readNumber negative _ after h value rfl

theorem Cursor.yields_readLimit (cursor : Cursor) : Yields LimitFits cursor.readLimit := by
  unfold readLimit
  dsimp only
  split
  · exact .error _
  · split
    · cases cursor.skipBlank.next.readWord ['u', 'l', 'l'] with
      | error failure => exact .error failure
      | ok after => exact .ok (fun value h => by cases h) after
    · split
      · split
        · exact .error _
        · exact yields_natural ‹_›
        · exact .error _
        · exact .error _
      · split
        · split
          · exact .error _
          · exact yields_natural ‹_›
          · exact .error _
          · exact .error _
        · exact .error _

def LimitsDraft.Fits (draft : LimitsDraft) : Prop :=
  ∀ field, ∀ limit ∈ draft.get field, LimitFits limit

namespace LimitsDraft

variable {draft : LimitsDraft}

theorem Fits.limits (h : draft.Fits) : draft.limits.Fits := by
  intro field value hvalue
  rw [get_limits] at hvalue
  cases hlimit : draft.get field with
  | none =>
      rw [hlimit] at hvalue
      cases hvalue
  | some limit =>
      rw [hlimit] at hvalue
      exact h field limit hlimit value hvalue

theorem Fits.set (h : draft.Fits) {limit : Option Duration} (hlimit : LimitFits limit) (field : Field) :
    (draft.set limit field).Fits := by
  intro other found hfound
  rw [get_set] at hfound
  split at hfound
  · cases hfound
    exact hlimit
  · exact h other found hfound

end LimitsDraft

-- Only limits that fit get into the draft, with each member of the object.
theorem yields_readMembers (bound : Nat) (first : Bool) {draft : LimitsDraft} (hdraft : draft.Fits) (cursor : Cursor) :
    Yields Limits.Fits (readMembers bound first draft cursor) := by
  induction bound generalizing first draft cursor with
  | zero => exact .error _
  | succ bound ih =>
      rw [readMembers]
      refine Yields.bind (P := fun _ => True) (fun _ _ _ => trivial) (fun key after _ => ?_)
      cases key with
      | none => exact .ok hdraft.limits after
      | some name =>
          dsimp only
          split
          · exact .behind (fun value => .behind (fun next => ih false hdraft next))
          · rename_i field _
            split
            · exact .error _
            · exact .behind (fun value => .bind value.yields_readLimit
                (fun limit next hlimit => ih false (hdraft.set hlimit field) next))

theorem Cursor.yields_readElement (cursor : Cursor) (first : Bool) : Yields LimitFits (cursor.readElement first) := by
  unfold readElement
  cases cursor.toElement first with
  | error failure => exact .error failure
  | ok element =>
      cases element with
      | none => exact .ok (fun value h => by cases h) cursor
      | some element => exact element.yields_readLimit

theorem Cursor.yields_readLimits (cursor : Cursor) : Yields Limits.Fits cursor.readLimits := by
  unfold readLimits
  dsimp only
  split
  · exact .error _
  · refine .bind (yields_readElement _ true) (fun wait afterWait hwait => ?_)
    refine .bind (yields_readElement _ false) (fun processing afterProcessing hprocessing => ?_)
    refine .behind (fun after => .ok ?_ after)
    rintro (_ | _)
    · exact hwait
    · exact hprocessing
  · exact yields_readMembers _ true (fun field limit h => by cases field <;> cases h) _
  · exact .error _

end Json

namespace Limits

theorem fits_of_ofJson? {text : String} {limits : Limits} (h : ofJson? text = .ok limits) : limits.Fits := by
  unfold ofJson? at h
  cases hread : (Json.Cursor.ofText text).readLimits with
  | error failure =>
      rw [hread] at h
      cases h
  | ok read =>
      obtain ⟨found, after⟩ := read
      have hfits := Json.Cursor.yields_readLimits _ found after hread
      cases hfinish : after.finish with
      | error failure =>
          simp only [hread, bind, Except.bind, hfinish] at h
          cases h
      | ok done =>
          simp only [hread, bind, Except.bind, hfinish] at h
          cases h
          exact hfits

-- Limits survive being stored and read again: a set limit that 64 bits do not hold is cut to the
-- longest that they do, and nothing else changes. Limits that were read survive as they are.
theorem reloads (limits : Limits) :
    (∃ reloaded, ofJson? limits.toJson = .ok reloaded ∧
      (∀ field, reloaded.get field = (limits.get field).map (min · 18446744073709551615)) ∧
      (reloaded = limits ↔ ∀ field, ∀ limit ∈ limits.get field, limit ≤ 18446744073709551615) ∧
      (∀ field, (reloaded.get field = none ↔ limits.get field = none) ∧
        (reloaded.get field = some 0 ↔ limits.get field = some 0)) ∧
      (∀ field, (reloaded.deadline field).isSome = (limits.deadline field).isSome ∧
        ∀ shorter ∈ reloaded.deadline field, ∃ deadline ∈ limits.deadline field, shorter ≤ deadline)) ∧
    (∀ text, ofJson? text = .ok limits →
      ∃ reloaded, ofJson? limits.toJson = .ok reloaded ∧ reloaded = limits ∧ reloaded.toJson = limits.toJson) := by
  refine ⟨⟨limits.stored, limits.ofJson?_toJson, ?values, ?same, ?apart, ?deadlines⟩, ?again⟩
  case values => exact limits.get_stored
  case same =>
    rw [stored_eq_iff]
    exact forall_congr' (fun field => forall₂_congr (fun limit _ => Nat.lt_succ_iff))
  case apart =>
    intro field
    rw [get_stored, cut_eq_none_iff, cut_eq_zero_iff]
    exact ⟨Iff.rfl, Iff.rfl⟩
  case deadlines =>
    intro field
    rw [deadline_eq, deadline_eq, get_stored, enforced_cut]
    refine ⟨Option.isSome_map, fun shorter hshorter => ?_⟩
    obtain ⟨deadline, hdeadline, rfl⟩ := Option.map_eq_some_iff.1 hshorter
    exact ⟨deadline, hdeadline, Nat.min_le_left _ _⟩
  case again =>
    intro text htext
    have hsame : limits.stored = limits := limits.stored_eq_iff.2 (fits_of_ofJson? htext)
    exact ⟨limits.stored, limits.ofJson?_toJson, hsame, limits.toJson_stored⟩

example : ofJson? (toJson { wait := some (durationLimit - 1), processing := some 0 }) =
    .ok { wait := some 18446744073709551615, processing := some 0 } := by
  rfl

-- Limits by name and in reverse, one of them the longest that 64 bits hold, beside a member that
-- is of no interest.
def reversedText : String :=
  "\x7b\"max_processing_duration\":18446744073709551615, \"note\":[null],\"max_enqueue_wait\" : 0\x7d"

def reversedLimits : Limits :=
  { wait := some 0, processing := some 18446744073709551615 }

theorem reloads_reversed :
    ofJson? reversedText = .ok reversedLimits ∧
      ∃ reloaded, ofJson? reversedLimits.toJson = .ok reloaded ∧ reloaded = reversedLimits ∧
        reloaded.toJson = reversedLimits.toJson := by
  have hread : ofJson? reversedText = .ok reversedLimits := by rfl
  exact ⟨hread, (reloads reversedLimits).2 reversedText hread⟩

end Limits

end DeadlineQueue
