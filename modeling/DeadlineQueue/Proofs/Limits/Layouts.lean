import DeadlineQueue.Proofs.Limits.Values

namespace DeadlineQueue

namespace Json

section row

variable {α : Type} {IsPart : α → List Char → Prop} {items : List α} {text rest : List Char}

-- The parts of a list or an object up to its end. A comma stands in front of each part but the first one. The
-- blanks before a part belong to it, and those behind it do not.
inductive Row (IsPart : α → List Char → Prop) : Bool → List α → List Char → Prop where
  | done {first : Bool} {blanks : List Char} (hblanks : Blank blanks) : Row IsPart first [] blanks
  | first {item : α} {items : List α} {part text : List Char} (hpart : IsPart item part)
      (hothers : Row IsPart false items text) : Row IsPart true (item :: items) (part ++ text)
  | further {item : α} {items : List α} {blanks part text : List Char} (hblanks : Blank blanks)
      (hpart : IsPart item part) (hothers : Row IsPart false items text) :
      Row IsPart false (item :: items) (blanks ++ ',' :: (part ++ text))

-- A whole text that is a list or an object.
inductive Encloses (IsPart : α → List Char → Prop) (opening closing : Char) : List α → List Char → Prop where
  | blanks {items : List α} {before row after : List Char} (hbefore : Blank before)
      (hrow : Row IsPart true items row) (hafter : Blank after) :
      Encloses IsPart opening closing items (before ++ opening :: (row ++ closing :: after))

theorem Row.endsNumber (h : Row IsPart false items text) (hrest : EndsNumber rest) : EndsNumber (text ++ rest) := by
  cases h with
  | done hblanks => exact hblanks.endsNumber hrest
  | further hblanks _ _ =>
      rw [List.append_assoc]
      exact hblanks.endsNumber (endsNumber_cons (by decide) _)

-- Each part but the first one takes its comma.
theorem Row.length_le {first : Bool} (h : Row IsPart first items text) :
    items.length ≤ text.length + if first then 1 else 0 := by
  induction h with
  | done => exact Nat.zero_le _
  | first _ _ ih =>
      simp only [List.length_cons, List.length_append, Bool.false_eq_true, if_false, if_true] at ih ⊢
      omega
  | further _ _ _ ih =>
      simp only [List.length_cons, List.length_append, Bool.false_eq_true, if_false] at ih ⊢
      omega

end row

inductive IsElement (value : List Char) : List Char → Prop where
  | blanks {before : List Char} (hbefore : Blank before) (hvalue : IsJson .value value) :
      IsElement value (before ++ value)

-- A member has a name that stands for characters, however it is written, and a value.
inductive IsMember (member : String × List Char) : List Char → Prop where
  | blanks {before name between ahead : List Char} (hbefore : Blank before) (hname : Spells name member.1.toList)
      (hbetween : Blank between) (hahead : Blank ahead) (hvalue : IsJson .value member.2) :
      IsMember member (before ++ '"' :: (name ++ '"' :: (between ++ ':' :: (ahead ++ member.2))))

def IsList (values : List (List Char)) (text : List Char) : Prop :=
  Encloses IsElement '[' ']' values text

def IsObject (members : List (String × List Char)) (text : List Char) : Prop :=
  Encloses IsMember '\x7b' '\x7d' members text

end Json

namespace Limits

open Json

-- The values that the members of an object give for a field.
def valuesOf (members : List (String × List Char)) (field : Field) : List (List Char) :=
  (members.filter (fun member => member.1 = field.name)).map Prod.snd

-- A limit is what the only value for it stands for, and none if there is no value.
inductive Sets : List (List Char) → Option Duration → Prop where
  | missing : Sets [] none
  | only {value : List Char} {limit : Option Duration} (h : Denotes value limit) : Sets [value] limit

section sets

variable {values others : List (List Char)} {limit other : Option Duration}

@[simp] theorem sets_nil_iff : Sets [] limit ↔ limit = none := by
  constructor
  · intro h
    cases h
    rfl
  · rintro rfl
    exact .missing

@[simp] theorem sets_singleton_iff {value : List Char} : Sets [value] limit ↔ Denotes value limit := by
  constructor
  · intro h
    cases h with
    | only h => exact h
  · exact .only

theorem not_sets_cons_cons {value next : List Char} : ¬Sets (value :: next :: values) limit := by
  intro h
  cases h

theorem sets_iff_take (values : List (List Char)) :
    Sets values limit ↔ Sets (values.take 1) limit ∧ values.drop 1 = [] := by
  match values with
  | [] => simp
  | [value] => simp
  | value :: next :: values => simp [not_sets_cons_cons]

theorem exists_sets_iff :
    (∃ limit, Sets values limit) ↔ values.length ≤ 1 ∧ ∀ value ∈ values, ∃ limit, Denotes value limit := by
  match values with
  | [] => simp
  | [value] => simp
  | value :: next :: values => simp [not_sets_cons_cons]

theorem Sets.perm (h : Sets values limit) (hperm : values.Perm others) : Sets others limit := by
  cases h with
  | missing =>
      rw [hperm.nil_eq.symm]
      exact .missing
  | only h =>
      rw [List.singleton_perm.mp hperm |>.symm]
      exact .only h

end sets

theorem Field.ofName?_eq_some_iff {field : Field} {name : String} :
    Field.ofName? name = some field ↔ name = field.name := by
  constructor
  · exact fun h => (Field.name_of_ofName? h).symm
  · rintro rfl
    exact field.ofName?_name

theorem valuesOf_cons (name : String) (value : List Char) (members : List (String × List Char)) (field : Field) :
    valuesOf ((name, value) :: members) field =
      if Field.ofName? name = some field then value :: valuesOf members field else valuesOf members field := by
  by_cases h : name = field.name
  · rw [if_pos (Field.ofName?_eq_some_iff.mpr h)]
    simp [valuesOf, h]
  · rw [if_neg (mt Field.ofName?_eq_some_iff.mp h)]
    simp [valuesOf, h]

-- What becomes of a limit that may have been read before: a further value for it is one too many.
def Settles : Option (Option Duration) → List (List Char) → Option Duration → Prop
  | draft, [], limit => limit = draft.getD none
  | none, value :: values, limit => ∃ given, Denotes value given ∧ Settles (some given) values limit
  | some _, _ :: _, _ => False

theorem settles_none_iff {values : List (List Char)} {limit : Option Duration} :
    Settles none values limit ↔ Sets values limit := by
  match values with
  | [] => simp [Settles]
  | [value] => simp [Settles]
  | value :: next :: values => simp [Settles, not_sets_cons_cons]

end Limits

namespace Json

open Limits

namespace LimitsDraft

variable {draft : LimitsDraft} {members : List (String × List Char)} {name : String} {value : List Char}
  {limits : Limits}

-- What limits can be given in the end, with so many members still ahead.
def Completes (draft : LimitsDraft) (members : List (String × List Char)) (limits : Limits) : Prop :=
  ∀ field, Settles (draft.get field) (valuesOf members field) (limits.get field)

theorem get_set (draft : LimitsDraft) (limit : Option Duration) (field other : Field) :
    (draft.set limit field).get other = if field = other then some limit else draft.get other := by
  cases field with
  | wait => cases other <;> rfl
  | processing => cases other <;> rfl

theorem get_limits (draft : LimitsDraft) (field : Field) : draft.limits.get field = (draft.get field).getD none := by
  cases field with
  | wait => rfl
  | processing => rfl

theorem completes_nil : draft.Completes [] limits ↔ limits = draft.limits := by
  constructor
  · intro h
    refine ext_get fun field => ?_
    rw [get_limits]
    simpa [valuesOf, Settles] using h field
  · rintro rfl field
    simp [valuesOf, Settles, get_limits]

theorem completes_unknown (hname : Field.ofName? name = none) :
    draft.Completes ((name, value) :: members) limits ↔ draft.Completes members limits := by
  simp [Completes, valuesOf_cons, hname]

theorem completes_known {field : Field} (hname : Field.ofName? name = some field) (hdraft : draft.get field = none) :
    draft.Completes ((name, value) :: members) limits ↔
      ∃ limit, Denotes value limit ∧ (draft.set limit field).Completes members limits := by
  simp only [Completes, valuesOf_cons, hname, Option.some_inj, get_set]
  constructor
  · intro h
    obtain ⟨limit, hdenotes, hfield⟩ : ∃ limit, Denotes value limit ∧
        Settles (some limit) (valuesOf members field) (limits.get field) := by
      simpa [hdraft, Settles] using h field
    refine ⟨limit, hdenotes, fun other => ?_⟩
    by_cases hother : field = other
    · rw [if_pos hother]
      exact hother ▸ hfield
    · simpa [hother] using h other
  · rintro ⟨limit, hdenotes, h⟩ other
    by_cases hother : field = other
    · have hfield := h other
      rw [if_pos hother] at hfield ⊢
      rw [← hother, hdraft, hother]
      exact ⟨limit, hdenotes, hfield⟩
    · simpa [hother] using h other

theorem not_completes_twice {field : Field} (hname : Field.ofName? name = some field)
    (hdraft : (draft.get field).isSome = true) : ¬draft.Completes ((name, value) :: members) limits := by
  intro h
  obtain ⟨limit, hlimit⟩ := Option.isSome_iff_exists.mp hdraft
  have hfield := h field
  rw [valuesOf_cons, if_pos hname, hlimit] at hfield
  exact hfield

end LimitsDraft

section object

variable {members : List (String × List Char)} {first : Bool} {text behind rest : List Char}

-- One member is read. What is read behind it completes the limits that have been read with it.
theorem readMembers_member {name : String} {value between ahead : List Char} {bound : Nat} {draft : LimitsDraft}
    {cursor : Cursor} (hbetween : Blank between) (hahead : Blank ahead) (hvalue : IsJson .value value)
    (hbehind : EndsNumber behind)
    (hkey : Gives (cursor.readKey first) (some name) (between ++ ':' :: (ahead ++ (value ++ behind))))
    (hothers : ∀ draft offset,
      Answers (LimitsDraft.Completes draft members) (readMembers bound false draft { rest := behind, offset }) rest) :
    Answers (draft.Completes ((name, value) :: members)) (readMembers (bound + 1) first draft cursor) rest := by
  obtain ⟨start, hkey⟩ := hkey
  obtain ⟨colon, hcolon⟩ := Cursor.readColon_blanks hbetween (ahead ++ (value ++ behind)) start
  rw [readMembers, hkey]
  simp only [bind, Except.bind]
  cases hname : Field.ofName? name with
  | none =>
      obtain ⟨later, hskip⟩ := skipValue_value hahead hvalue hbehind colon
      simp only [hcolon, hskip]
      exact (hothers draft later).congr fun limits => LimitsDraft.completes_unknown hname
  | some field =>
      cases hdraft : draft.get field with
      | some limit =>
          have htwice : (draft.get field).isSome = true := by rw [hdraft, Option.isSome_some]
          refine .inr ⟨fun limits => LimitsDraft.not_completes_twice hname htwice, ?_⟩
          dsimp only
          rw [if_pos htwice]
          exact .error _
      | none =>
          have hlimit : Answers
              (fun limits => ∃ limit, Denotes value limit ∧ (draft.set limit field).Completes members limits)
              (Cursor.readLimit { rest := ahead ++ (value ++ behind), offset := colon } >>= fun read =>
                readMembers bound false (draft.set read.1 field) read.2) rest :=
            (readLimit_value hahead hvalue hbehind colon).bind fun limit offset _ =>
              hothers (draft.set limit field) offset
          simp only [hdraft, hcolon, Option.isSome_none, Bool.false_eq_true, if_false]
          exact hlimit.congr fun limits => LimitsDraft.completes_known hname hdraft

theorem readMembers_row (h : Row IsMember first members text) {bound : Nat} (hbound : members.length < bound)
    (draft : LimitsDraft) (rest : List Char) (offset : Nat) :
    Answers (draft.Completes members) (readMembers bound first draft { rest := text ++ '\x7d' :: rest, offset })
      rest := by
  have hbrace : EndsNumber ('\x7d' :: rest) := endsNumber_cons (by decide) rest
  induction h generalizing bound draft offset with
  | @done first blanks hblanks =>
      obtain ⟨bound, rfl⟩ := Nat.exists_eq_succ_of_ne_zero (Nat.ne_zero_of_lt hbound)
      refine .inl ⟨draft.limits, fun limits => LimitsDraft.completes_nil, offset + blanks.length + 1, ?_⟩
      rw [readMembers, Cursor.readKey_done hblanks]
      rfl
  | @first member members part text hpart hothers ih =>
      obtain ⟨bound, rfl⟩ := Nat.exists_eq_succ_of_ne_zero (Nat.ne_zero_of_lt hbound)
      cases hpart with
      | blanks hbefore hname hbetween hahead hvalue =>
          simp only [List.append_assoc, List.cons_append]
          exact readMembers_member hbetween hahead hvalue (hothers.endsNumber hbrace)
            (Cursor.readKey_first hbefore hname _ offset) (ih (Nat.lt_of_succ_lt_succ hbound))
  | @further member members blanks part text hblanks hpart hothers ih =>
      obtain ⟨bound, rfl⟩ := Nat.exists_eq_succ_of_ne_zero (Nat.ne_zero_of_lt hbound)
      cases hpart with
      | blanks hbefore hname hbetween hahead hvalue =>
          simp only [List.append_assoc, List.cons_append]
          exact readMembers_member hbetween hahead hvalue (hothers.endsNumber hbrace)
            (Cursor.readKey_further hblanks hbefore hname _ offset) (ih (Nat.lt_of_succ_lt_succ hbound))

end object

section list

variable {values : List (List Char)} {value text rest : List Char} {first : Bool}

theorem readElement_done {blanks : List Char} (hblanks : Blank blanks) (first : Bool) (rest : List Char)
    (offset : Nat) :
    Cursor.readElement { rest := blanks ++ ']' :: rest, offset } first =
      .ok (none, { rest := blanks ++ ']' :: rest, offset }) := by
  unfold Cursor.readElement Cursor.toElement
  rw [Cursor.skipBlank_append hblanks]
  rfl

-- An element is read where it starts.
theorem readElement_value {cursor : Cursor} {first : Bool} (hvalue : IsJson .value value) (hrest : EndsNumber rest)
    (start : Nat) (helement : cursor.toElement first = .ok (some { rest := value ++ rest, offset := start })) :
    Answers (Denotes value) (cursor.readElement first) rest := by
  unfold Cursor.readElement
  rw [helement]
  exact readLimit_value .nil hvalue hrest start

-- The next element sets a limit if there is one, and a list that has ended sets none.
theorem readElement_row (h : Row IsElement first values text) (rest : List Char) :
    ∃ left, Row IsElement false (values.drop 1) left ∧ ∀ offset,
      Answers (Sets (values.take 1)) (Cursor.readElement { rest := text ++ ']' :: rest, offset } first)
        (left ++ ']' :: rest) := by
  have hbracket : EndsNumber (']' :: rest) := endsNumber_cons (by decide) rest
  cases h with
  | done hblanks =>
      refine ⟨_, .done hblanks, fun offset => .inl ⟨none, fun limit => sets_nil_iff, offset, ?_⟩⟩
      exact readElement_done hblanks first rest offset
  | @first value values part text hpart hothers =>
      refine ⟨text, hothers, fun offset => .congr ?_ fun limit => sets_singleton_iff⟩
      cases hpart with
      | @blanks before hbefore hvalue =>
          refine readElement_value hvalue (hothers.endsNumber hbracket) (offset + before.length) ?_
          obtain ⟨char, chars, rfl, hchar, hend⟩ := hvalue.head
          simp [Cursor.toElement, Cursor.skipBlank_append hbefore, Cursor.skipBlank_cons hchar, hend]
  | @further value values blanks part text hblanks hpart hothers =>
      refine ⟨text, hothers, fun offset => .congr ?_ fun limit => sets_singleton_iff⟩
      cases hpart with
      | @blanks before hbefore hvalue =>
          refine readElement_value hvalue (hothers.endsNumber hbracket)
            (offset + blanks.length + ','.utf8Size + before.length) ?_
          obtain ⟨char, chars, rfl, hchar, hend⟩ := hvalue.head
          have hcomma : isBlank ',' = false := rfl
          simp [Cursor.toElement, Cursor.skipBlank_append hblanks, Cursor.skipBlank_append hbefore,
            Cursor.skipBlank_cons hcomma, Cursor.skipBlank_cons hchar, Cursor.next, hend]

theorem closeList_done {blanks : List Char} (hblanks : Blank blanks) (rest : List Char) (offset : Nat) :
    Cursor.closeList { rest := blanks ++ ']' :: rest, offset } =
      .ok { rest, offset := offset + blanks.length + 1 } := by
  unfold Cursor.closeList
  rw [Cursor.skipBlank_append hblanks]
  rfl

-- The list ends where it is closed, and with elements left it fails.
theorem closeList_row {α : Type} (h : Row IsElement false values text) (rest : List Char) (given : α) (offset : Nat) :
    Answers (fun other => values = [] ∧ other = given)
      (Cursor.closeList { rest := text ++ ']' :: rest, offset } >>= fun after => .ok (given, after)) rest := by
  cases h with
  | done hblanks =>
      rw [closeList_done hblanks]
      exact .inl ⟨given, fun other => and_iff_right rfl, _, rfl⟩
  | further hblanks hpart hothers =>
      refine .inr ⟨fun other hother => List.cons_ne_nil _ _ hother.1, .bind ?_ _⟩
      unfold Cursor.closeList
      rw [List.append_assoc, Cursor.skipBlank_append hblanks]
      exact .error _

end list

section whole

variable {before row : List Char}

theorem readLimits_list {values : List (List Char)} (hbefore : Blank before) (h : Row IsElement true values row)
    (rest : List Char) (offset : Nat) :
    Answers (fun limits => Sets (values.take 1) limits.wait ∧ Sets (values.drop 1) limits.processing)
      (Cursor.readLimits { rest := before ++ '[' :: (row ++ ']' :: rest), offset }) rest := by
  obtain ⟨left, hleft, hwait⟩ := readElement_row h rest
  obtain ⟨last, hlast, hprocessing⟩ := readElement_row hleft rest
  suffices hread : Answers
      (fun limits : Limits => ∃ wait, Sets (values.take 1) wait ∧ ∃ processing,
        Sets ((values.drop 1).take 1) processing ∧ (values.drop 1).drop 1 = [] ∧ limits = { wait, processing })
      (Cursor.readLimits { rest := before ++ '[' :: (row ++ ']' :: rest), offset }) rest by
    refine hread.congr fun limits => ?_
    rw [sets_iff_take (values.drop 1)]
    constructor
    · rintro ⟨hwait, hprocessing, hdone⟩
      exact ⟨limits.wait, hwait, limits.processing, hprocessing, hdone, rfl⟩
    · rintro ⟨wait, hwait, processing, hprocessing, hdone, rfl⟩
      exact ⟨hwait, hprocessing, hdone⟩
  have hbracket : isBlank '[' = false := rfl
  unfold Cursor.readLimits
  rw [Cursor.skipBlank_append hbefore, Cursor.skipBlank_cons hbracket]
  refine (hwait _).bind fun wait offset _ => ?_
  exact (hprocessing offset).bind fun processing offset _ => closeList_row hlast rest _ offset

theorem readLimits_object {members : List (String × List Char)} (hbefore : Blank before)
    (h : Row IsMember true members row) (rest : List Char) (offset : Nat) :
    Answers (fun limits => ∀ field, Sets (valuesOf members field) (limits.get field))
      (Cursor.readLimits { rest := before ++ '\x7b' :: (row ++ '\x7d' :: rest), offset }) rest := by
  have hbrace : isBlank '\x7b' = false := rfl
  have hbound : members.length < (row ++ '\x7d' :: rest).length + 1 := by
    have hlength := h.length_le
    simp only [if_true, List.length_append, List.length_cons] at hlength ⊢
    omega
  unfold Cursor.readLimits
  rw [Cursor.skipBlank_append hbefore, Cursor.skipBlank_cons hbrace]
  refine (readMembers_row h hbound {} rest _).congr fun limits => forall_congr' fun field => ?_
  cases field with
  | wait => exact settles_none_iff.symm
  | processing => exact settles_none_iff.symm

end whole

end Json

namespace Limits

open Json

-- A whole text is read if its value is, and only blanks come after it.
theorem ofJson?_eq_ok_iff {text : String} {chars after : List Char} {Right : Limits → Prop}
    (htext : text.toList = chars) (hafter : Blank after)
    (h : Answers Right (Cursor.readLimits { rest := chars, offset := 0 }) after) (limits : Limits) :
    ofJson? text = .ok limits ↔ Right limits := by
  have hfinish (offset : Nat) : Cursor.finish { rest := after, offset } = .ok () := by
    have hskip := Cursor.skipBlank_append hafter [] offset
    rw [List.append_nil] at hskip
    unfold Cursor.finish
    rw [hskip]
    rfl
  unfold ofJson? Cursor.ofText
  rw [htext]
  rcases h with ⟨value, hright, offset, heq⟩ | ⟨hnone, failure, heq⟩
  · rw [hright, heq]
    simp only [bind, Except.bind, hfinish]
    exact ⟨fun h => (Except.ok.inj h).symm, fun h => h ▸ rfl⟩
  · rw [heq]
    exact iff_of_false (fun h => nomatch h) (hnone limits)

theorem exists_failure_iff {text : String} :
    (∃ failure, ofJson? text = .error failure) ↔ ∀ limits, ofJson? text ≠ .ok limits := by
  cases ofJson? text with
  | error failure => simp
  | ok limits => simp

variable {text : String}

theorem ofJson?_object {members : List (String × List Char)} (h : IsObject members text.toList) (limits : Limits) :
    ofJson? text = .ok limits ↔ ∀ field, Sets (valuesOf members field) (limits.get field) := by
  unfold IsObject at h
  generalize htext : text.toList = chars at h
  cases h with
  | blanks hbefore hrow hafter =>
      exact ofJson?_eq_ok_iff htext hafter (readLimits_object hbefore hrow _ 0) limits

theorem ofJson?_list {values : List (List Char)} (h : IsList values text.toList) (limits : Limits) :
    ofJson? text = .ok limits ↔ Sets (values.take 1) limits.wait ∧ Sets (values.drop 1) limits.processing := by
  unfold IsList at h
  generalize htext : text.toList = chars at h
  cases h with
  | blanks hbefore hrow hafter =>
      exact ofJson?_eq_ok_iff htext hafter (readLimits_list hbefore hrow _ 0) limits

theorem exists_get_iff {Right : Field → Option Duration → Prop} :
    (∃ limits : Limits, ∀ field, Right field (limits.get field)) ↔ ∀ field, ∃ limit, Right field limit := by
  constructor
  · exact fun ⟨limits, h⟩ field => ⟨limits.get field, h field⟩
  · intro h
    obtain ⟨wait, hwait⟩ := h .wait
    obtain ⟨processing, hprocessing⟩ := h .processing
    refine ⟨{ wait, processing }, fun field => ?_⟩
    cases field with
    | wait => exact hwait
    | processing => exact hprocessing

theorem exists_sets_pair_iff {values : List (List Char)} :
    (∃ limits : Limits, Sets (values.take 1) limits.wait ∧ Sets (values.drop 1) limits.processing) ↔
      values.length ≤ 2 ∧ ∀ value ∈ values, ∃ limit, Denotes value limit := by
  have hpair : (∃ limits : Limits, Sets (values.take 1) limits.wait ∧ Sets (values.drop 1) limits.processing) ↔
      (∃ wait, Sets (values.take 1) wait) ∧ ∃ processing, Sets (values.drop 1) processing := by
    constructor
    · exact fun ⟨limits, hwait, hprocessing⟩ => ⟨⟨_, hwait⟩, _, hprocessing⟩
    · exact fun ⟨⟨wait, hwait⟩, processing, hprocessing⟩ => ⟨{ wait, processing }, hwait, hprocessing⟩
  rw [hpair, exists_sets_iff, exists_sets_iff]
  cases values with
  | nil => simp
  | cons value values =>
      have hlength : values.length + 1 ≤ 2 ↔ values.length ≤ 1 := Nat.add_le_add_iff_right
      simp only [List.take_succ_cons, List.take_zero, List.drop_succ_cons, List.drop_zero, List.length_cons,
        List.length_nil, Nat.le_refl, true_and, List.forall_mem_cons, List.mem_singleton, forall_eq, hlength]
      exact and_left_comm

-- An object is read if each known name is given at most once and with a value that stands for a limit, and it is
-- refused otherwise. The limits depend on these values only. A list is read as its values in order, and refused
-- if there are more than two.
theorem reads_layouts (text : String) :
    (∀ members, IsObject members text.toList →
      (∀ limits, ofJson? text = .ok limits ↔ ∀ field, Sets (valuesOf members field) (limits.get field)) ∧
      ((∃ limits, ofJson? text = .ok limits) ↔
        ∀ field, (valuesOf members field).length ≤ 1 ∧ ∀ value ∈ valuesOf members field, ∃ limit, Denotes value limit) ∧
      ((∃ failure, ofJson? text = .error failure) ↔
        ∃ field, 2 ≤ (valuesOf members field).length ∨
          ∃ value ∈ valuesOf members field, ∀ limit, ¬Denotes value limit) ∧
      ∀ others otherText, IsObject others otherText.toList →
        (∀ field, (valuesOf members field).Perm (valuesOf others field)) →
        ∀ limits, ofJson? text = .ok limits ↔ ofJson? otherText = .ok limits) ∧
    (∀ values, IsList values text.toList →
      (∀ limits, ofJson? text = .ok limits ↔
        Sets (values.take 1) limits.wait ∧ Sets (values.drop 1) limits.processing) ∧
      ((∃ limits, ofJson? text = .ok limits) ↔
        values.length ≤ 2 ∧ ∀ value ∈ values, ∃ limit, Denotes value limit) ∧
      ((∃ failure, ofJson? text = .error failure) ↔
        3 ≤ values.length ∨ ∃ value ∈ values, ∀ limit, ¬Denotes value limit)) := by
  constructor
  · intro members hobject
    have haccepted : (∃ limits, ofJson? text = .ok limits) ↔ ∀ field,
        (valuesOf members field).length ≤ 1 ∧ ∀ value ∈ valuesOf members field, ∃ limit, Denotes value limit := by
      simp only [ofJson?_object hobject, exists_get_iff, exists_sets_iff]
    refine ⟨ofJson?_object hobject, haccepted, ?refused, ?depends⟩
    case refused =>
      rw [exists_failure_iff, ← not_exists, haccepted]
      simp only [not_forall, not_and_or, Nat.not_le, not_exists, exists_prop, Nat.lt_iff_add_one_le]
    case depends =>
      intro others otherText hother hperm limits
      rw [ofJson?_object hobject, ofJson?_object hother]
      exact forall_congr' fun field => ⟨fun h => h.perm (hperm field), fun h => h.perm (hperm field).symm⟩
  · intro values hlist
    have haccepted : (∃ limits, ofJson? text = .ok limits) ↔
        values.length ≤ 2 ∧ ∀ value ∈ values, ∃ limit, Denotes value limit := by
      simp only [ofJson?_list hlist, exists_sets_pair_iff]
    refine ⟨ofJson?_list hlist, haccepted, ?_⟩
    rw [exists_failure_iff, ← not_exists, haccepted]
    simp only [not_forall, not_and_or, Nat.not_le, not_exists, exists_prop, Nat.lt_iff_add_one_le]

-- A member of no interest with a bracket and a brace in its text, and a limit under a name that is not written out,
-- with blanks in between.
def escapedText : String :=
  " \x7b\"note\":[\"]\x7d\"] ,\"max_\\u0065nqueue_wait\" :\n18446744073709551615\x7d"

def longestText : String :=
  "\x7b\"max_enqueue_wait\":18446744073709551615\x7d"

def longestMember : String × List Char :=
  ("max_enqueue_wait", Nat.toDigits 10 18446744073709551615)

theorem denotes_longest : Denotes longestMember.2 (some 18446744073709551615) := by
  have hlimit : 18446744073709551615 < 18446744073709551616 := by decide
  exact .natural hlimit

theorem isObject_longestText : IsObject [longestMember] longestText.toList := by
  have hname : Spells "max_enqueue_wait".toList "max_enqueue_wait".toList := .of_plain (by decide)
  have hmember : IsMember longestMember _ := .blanks .nil hname .nil .nil denotes_longest.isJson
  have hobject : IsObject _ _ := .blanks .nil (.first hmember (.done .nil)) .nil
  exact hobject

theorem isObject_escapedText : IsObject [("note", "[\"]\x7d\"]".toList), longestMember] escapedText.toList := by
  have htext : IsText [']', '\x7d'] := .plain rfl (.plain rfl .nil)
  have hlist := IsJson.list (.lastElement (.element .nil (.text htext) .nil))
  have hnote : Spells ['n', 'o', 't', 'e'] "note".toList := .of_plain (by decide)
  have hunit : IsUnit ['0', '0', '6', '5'] (((0 * 16 + 0) * 16 + 6) * 16 + 5) :=
    .digits (by decide) (by decide) (by decide) (by decide)
  have htail : Spells "nqueue_wait".toList "nqueue_wait".toList := .of_plain (by decide)
  have hname : Spells ('m' :: 'a' :: 'x' :: '_' :: _) "max_enqueue_wait".toList :=
    .plain rfl (.plain rfl (.plain rfl (.plain rfl (.unit hunit (by decide) htail))))
  have hblank : Blank [' '] := by simp [Blank]
  have hline : Blank ['\n'] := by simp [Blank]
  have hmember : IsMember longestMember _ := .blanks .nil hname hblank hline denotes_longest.isJson
  have hother : IsMember ("note", "[\"]\x7d\"]".toList) _ := .blanks .nil hnote .nil .nil hlist
  have hobject : IsObject _ _ := .blanks hblank (.first hother (.further hblank hmember (.done .nil))) .nil
  exact hobject

theorem denotes_five : Denotes ['5'] (some 5) := by
  have hlimit : 5 < 18446744073709551616 := by decide
  exact .natural hlimit

theorem isList_null : IsList [['n', 'u', 'l', 'l'], ['5']] "[null,5]".toList := by
  have hrow := Row.first (IsElement.blanks .nil Denotes.null.isJson)
    (.further .nil (.blanks .nil denotes_five.isJson) (.done .nil))
  have hlist : IsList _ _ := .blanks .nil hrow .nil
  exact hlist

theorem reads_layouts_escaped :
    ofJson? escapedText = .ok { wait := some 18446744073709551615, processing := none } ∧
      (∀ limits, ofJson? escapedText = .ok limits ↔ ofJson? longestText = .ok limits) ∧
      ofJson? "[null,5]" = .ok { wait := none, processing := some 5 } := by
  obtain ⟨hread, -, -, hdepends⟩ := (reads_layouts escapedText).1 _ isObject_escapedText
  obtain ⟨hlist, -, -⟩ := (reads_layouts "[null,5]").2 _ isList_null
  refine ⟨(hread _).mpr fun field => ?read, hdepends _ _ isObject_longestText fun field => ?same,
    (hlist _).mpr ⟨.only .null, .only denotes_five⟩⟩
  case read =>
    cases field with
    | wait => exact .only denotes_longest
    | processing => exact .missing
  case same =>
    cases field with
    | wait => exact .refl _
    | processing => exact .refl _

end Limits

end DeadlineQueue
