import DeadlineQueue.Proofs.Json.Grammar

namespace DeadlineQueue.Json

variable {mode start middle stop : Mode} {nests outer : List Nest} {char : Char} {text rest : List Char}

theorem skip_into {next : Mode} {inner : List Nest} (h : pass mode nests char = .into next inner) (rest : List Char)
    (offset : Nat) : skip mode nests (char :: rest) offset = skip next inner rest (offset + char.utf8Size) := by
  rw [skip, h]

-- Nothing is read behind a value that nothing encloses.
theorem skip_done_nil (rest : List Char) (offset : Nat) : skip .done [] rest offset = .ok { rest, offset } := by
  cases rest with
  | nil => rfl
  | cons char rest => rfl

-- A character that ends a value leads behind it, whether or not the value is enclosed.
theorem skip_close (h : pass mode nests char = if outer.isEmpty then .last else .into .done outer) (rest : List Char)
    (offset : Nat) : skip mode nests (char :: rest) offset = skip .done outer rest (offset + char.utf8Size) := by
  cases outer with
  | nil =>
      have hlast : pass mode nests char = .last := h
      rw [skip, hlast, skip_done_nil]
  | cons nest outer => exact skip_into h rest offset

-- A text leads from one place to another, however it goes on.
def Passes (start : Mode) (nests : List Nest) (text : List Char) (stop : Mode) : Prop :=
  ∀ rest offset, ∃ later, skip start nests (text ++ rest) offset = skip stop nests rest later

namespace Passes

theorem nil (mode : Mode) (nests : List Nest) : Passes mode nests [] mode :=
  fun _ offset => ⟨offset, rfl⟩

theorem trans {others : List Char} (h : Passes start nests text middle) (hothers : Passes middle nests others stop) :
    Passes start nests (text ++ others) stop := by
  intro rest offset
  obtain ⟨later, hfirst⟩ := h (others ++ rest) offset
  obtain ⟨last, hsecond⟩ := hothers rest later
  exact ⟨last, by rw [List.append_assoc, hfirst, hsecond]⟩

theorem cons (hchar : pass start nests char = .into middle nests) (h : Passes middle nests text stop) :
    Passes start nests (char :: text) stop := by
  intro rest offset
  obtain ⟨later, heq⟩ := h rest (offset + char.utf8Size)
  exact ⟨later, (skip_into hchar (text ++ rest) offset).trans heq⟩

-- Characters that lead nowhere else.
theorem stay (h : ∀ char ∈ text, pass mode nests char = .into mode nests) : Passes mode nests text mode := by
  induction text with
  | nil => exact nil mode nests
  | cons char text ih =>
      obtain ⟨hchar, htext⟩ := List.forall_mem_cons.mp h
      exact cons hchar (ih htext)

end Passes

-- A text leads behind a value, provided that what follows it cannot belong to a number.
def Skips (start : Mode) (nests : List Nest) (text : List Char) : Prop :=
  ∀ rest offset, EndsNumber rest → ∃ later, skip start nests (text ++ rest) offset = skip .done nests rest later

theorem Passes.skips (h : Passes start nests text .done) : Skips start nests text :=
  fun rest offset _ => h rest offset

-- Behind the first part of a value comes the rest of it.
theorem Passes.trans_skips {others : List Char} (h : Passes start nests text middle)
    (hothers : Skips middle nests others) : Skips start nests (text ++ others) := by
  intro rest offset hrest
  obtain ⟨later, hfirst⟩ := h (others ++ rest) offset
  obtain ⟨last, hsecond⟩ := hothers rest later hrest
  exact ⟨last, by rw [List.append_assoc, hfirst, hsecond]⟩

theorem Skips.cons (hchar : pass start nests char = .into middle nests) (h : Skips middle nests text) :
    Skips start nests (char :: text) :=
  (Passes.cons hchar (.nil _ _)).trans_skips h

-- Where a character does the same, the reader goes on in the same way.
theorem skip_congr {other : Mode} (hmode : ∀ key seen, mode ≠ .hex key seen)
    (hother : ∀ key seen, other ≠ .hex key seen) (h : pass mode nests char = pass other nests char) (rest : List Char) (offset : Nat) :
    skip mode nests (char :: rest) offset = skip other nests (char :: rest) offset := by
  simp only [skip, h]

section number

-- Where a number can end.
def Mode.endsNumber : Mode → Bool
  | .zero | .digits | .fraction | .exponentDigits => true
  | _ => false

theorem skip_endsNumber (hmode : mode.endsNumber = true) (hrest : EndsNumber rest) (offset : Nat) :
    skip mode nests rest offset = skip .done nests rest offset := by
  cases rest with
  | nil => cases mode <;> first | rfl | cases hmode
  | cons char rest =>
      obtain ⟨hdigit, hpoint, hsmall, hlarge⟩ := hrest char rfl
      refine skip_congr ?_ (by simp) ?_ rest offset
      · rintro key seen rfl
        cases hmode
      · cases mode <;> simp_all [pass, Mode.endsNumber]

-- Digits are read one after the other, except behind a zero at the front.
theorem passes_digits (hmode : ∀ char, isDigit char = true → pass mode nests char = .into mode nests)
    (h : Digits text) : Passes mode nests text mode :=
  .stay fun char hchar => hmode char (h.isDigit char hchar)

theorem passValue_digit (hdigit : isDigit char = true) (hzero : char ≠ '0') :
    passValue nests char = .into .digits nests := by
  have hn : char ≠ 'n' := ne_of_isDigit hdigit rfl
  have ht : char ≠ 't' := ne_of_isDigit hdigit rfl
  have hf : char ≠ 'f' := ne_of_isDigit hdigit rfl
  have hminus : char ≠ '-' := ne_of_isDigit hdigit rfl
  simp [passValue, isBlank_eq_false hdigit, hn, ht, hf, hminus, hzero, hdigit]

theorem passes_whole (nests : List Nest) (h : IsWhole text) (hstart : start = .value ∨ start = .sign) :
    ∃ stop, (stop = .zero ∨ stop = .digits) ∧ Passes start nests text stop := by
  cases h with
  | zero =>
      refine ⟨.zero, .inl rfl, .cons ?_ (.nil _ _)⟩
      rcases hstart with rfl | rfl <;> rfl
  | @positive first digits hfirst hzero hdigits =>
      have hdigit : isDigit first = true := (isDigit_eq first).trans hfirst
      have hstart : pass start nests first = .into .digits nests := by
        rcases hstart with rfl | rfl
        · exact passValue_digit hdigit hzero
        · simp [pass, hdigit, hzero]
      refine ⟨.digits, .inr rfl, .cons hstart (passes_digits (fun char hchar => ?_) hdigits)⟩
      simp [pass, hchar]

-- A row of digits that is not empty, of which the first one leads to where they are read.
theorem passes_digits_cons (hsome : text ≠ [])
    (hstart : ∀ char, isDigit char = true → pass start nests char = .into mode nests)
    (hmode : ∀ char, isDigit char = true → pass mode nests char = .into mode nests) (h : Digits text) :
    Passes start nests text mode := by
  obtain ⟨first, digits, rfl⟩ := List.exists_cons_of_ne_nil hsome
  obtain ⟨hfirst, hdigits⟩ := List.forall_mem_cons.mp h
  exact .cons (hstart first ((isDigit_eq first).trans hfirst)) (passes_digits hmode hdigits)

theorem passes_fraction (nests : List Nest) (h : IsFraction text) (hstart : start = .zero ∨ start = .digits) :
    ∃ stop, (stop = .zero ∨ stop = .digits ∨ stop = .fraction) ∧ Passes start nests text stop := by
  cases h with
  | missing => exact ⟨start, hstart.imp_right .inl, .nil _ _⟩
  | @digits digits hsome hdigits =>
      have hpoint : pass start nests '.' = .into .point nests := by rcases hstart with rfl | rfl <;> rfl
      refine ⟨.fraction, by simp, .cons hpoint (passes_digits_cons hsome ?_ ?_ hdigits)⟩
      · intro char hchar
        simp [pass, hchar]
      · intro char hchar
        simp [pass, hchar]

theorem passes_exponent (nests : List Nest) (h : IsExponent text) (hstart : start = .zero ∨ start = .digits ∨ start = .fraction) :
    ∃ stop, stop.endsNumber = true ∧ Passes start nests text stop := by
  cases h with
  | missing => exact ⟨start, by rcases hstart with rfl | rfl | rfl <;> rfl, .nil _ _⟩
  | @digits letter sign digits hletter hsign hsome hdigits =>
      have hexponent : pass start nests letter = .into .exponent nests := by
        simp only [List.mem_cons, List.not_mem_nil, or_false] at hletter
        rcases hstart with rfl | rfl | rfl <;> rcases hletter with rfl | rfl <;> rfl
      have hdigit (char : Char) (hchar : isDigit char = true) : passExponent nests char = .into .exponentDigits nests :=
        if_pos hchar
      have hmore (char : Char) (hchar : isDigit char = true) :
          pass .exponentDigits nests char = .into .exponentDigits nests :=
        if_pos hchar
      have hplain (char : Char) (hchar : isDigit char = true) :
          pass .exponent nests char = .into .exponentDigits nests := by
        have hplus : char ≠ '+' := ne_of_isDigit hchar rfl
        have hminus : char ≠ '-' := ne_of_isDigit hchar rfl
        simp [pass, hplus, hminus, hdigit char hchar]
      refine ⟨.exponentDigits, rfl, .cons hexponent ?_⟩
      simp only [List.mem_cons, List.not_mem_nil, or_false] at hsign
      rcases hsign with rfl | rfl | rfl
      · exact passes_digits_cons hsome hplain hmore hdigits
      · exact .cons (show pass .exponent nests '+' = .into .exponentSign nests from rfl)
          (passes_digits_cons hsome hdigit hmore hdigits)
      · exact .cons (show pass .exponent nests '-' = .into .exponentSign nests from rfl)
          (passes_digits_cons hsome hdigit hmore hdigits)

theorem skips_number (h : IsNumber text) : Skips .value nests text := by
  cases h with
  | @parts sign whole fraction exponent hsign hwhole hfraction hexponent =>
      obtain ⟨afterSign, hafterSign, hfirst⟩ :
          ∃ middle, (middle = .value ∨ middle = .sign) ∧ Passes .value nests sign middle := by
        simp only [List.mem_cons, List.not_mem_nil, or_false] at hsign
        rcases hsign with rfl | rfl
        · exact ⟨.value, .inl rfl, .nil _ _⟩
        · exact ⟨.sign, .inr rfl, .cons rfl (.nil _ _)⟩
      obtain ⟨afterWhole, hafterWhole, hsecond⟩ := passes_whole nests hwhole hafterSign
      obtain ⟨afterFraction, hafterFraction, hthird⟩ := passes_fraction nests hfraction hafterWhole
      obtain ⟨stop, hstop, hfourth⟩ := passes_exponent nests hexponent hafterFraction
      have hall := hfirst.trans (hsecond.trans (hthird.trans hfourth))
      intro rest offset hrest
      obtain ⟨later, heq⟩ := hall rest offset
      exact ⟨later, heq.trans (skip_endsNumber hstop hrest later)⟩

end number

section text

variable (key : Bool)

theorem hexValue?_of_mem {value : Nat} (h : (char, value) ∈ hexDigits) : hexValue? char = some value := by
  have hall : ∀ digit ∈ hexDigits, hexValue? digit.1 = some digit.2 := by decide
  exact hall _ h

theorem simpleEscape?_of_mem {meant : Char} (h : (char, meant) ∈ escapes) : simpleEscape? char = some meant := by
  have hall : ∀ escape ∈ escapes, simpleEscape? escape.1 = some escape.2 := by decide
  exact hall _ h

-- The letter of a unit is none of the simple ones.
theorem ne_of_mem_escapes {meant : Char} (h : (char, meant) ∈ escapes) : char ≠ 'u' := by
  rintro rfl
  have hletter := simpleEscape?_of_mem h
  cases hletter

theorem passes_unit {value : Nat} (h : IsUnit text value) : Passes (.hex key 0) nests text (.text key) := by
  have hhex (char : Char) (digit seen : Nat) (hdigit : (char, digit) ∈ hexDigits) :
      pass (.hex key seen) nests char = .into (if seen < 3 then .hex key (seen + 1) else .text key) nests := by
    simp [pass, hexValue?_of_mem hdigit]
  cases h with
  | digits hfirst hsecond hthird hfourth =>
      exact .cons (hhex _ _ 0 hfirst) (.cons (hhex _ _ 1 hsecond) (.cons (hhex _ _ 2 hthird)
        (.cons (hhex _ _ 3 hfourth) (.nil _ _))))

theorem passes_text (h : IsText text) : Passes (.text key) nests text (.text key) := by
  have hbackslash : pass (.text key) nests '\\' = .into (.escape key) nests := rfl
  induction h with
  | nil => exact .nil _ _
  | @plain char text hchar _ ih =>
      simp only [isPlain, Bool.and_eq_true, decide_eq_true_eq, ne_eq] at hchar
      obtain ⟨⟨hquote, hescape⟩, hcontrol⟩ := hchar
      refine .cons ?_ ih
      simp only [pass, if_neg hquote, if_neg hescape, if_neg (Nat.not_lt.mpr hcontrol)]
  | @escape letter meant text hletter _ ih =>
      refine .cons hbackslash (.cons ?_ ih)
      simp [pass, ne_of_mem_escapes hletter, simpleEscape?_of_mem hletter]
  | unit hunit _ ih =>
      have hletter : pass (.escape key) nests 'u' = .into (.hex key 0) nests := rfl
      exact .cons hbackslash (.cons hletter ((passes_unit key hunit).trans ih))

end text

-- The last letter of a word ends it.
theorem skips_letters (hsome : text ≠ []) : Skips (.word text) nests text := by
  induction text with
  | nil => exact absurd rfl hsome
  | cons letter letters ih =>
      cases letters with
      | nil => exact fun rest offset _ => ⟨_, skip_close (by simp [pass]) rest offset⟩
      | cons next letters => exact .cons (by simp [pass]) (ih (List.cons_ne_nil _ _))

theorem skips_word (h : text ∈ words) : Skips .value nests text := by
  simp only [words, List.mem_cons, List.not_mem_nil, or_false] at h
  rcases h with rfl | rfl | rfl
  · exact .cons rfl (skips_letters (List.cons_ne_nil _ _))
  · exact .cons rfl (skips_letters (List.cons_ne_nil _ _))
  · exact .cons rfl (skips_letters (List.cons_ne_nil _ _))

theorem skips_text (h : IsText text) : Skips .value nests ('"' :: (text ++ ['"'])) := by
  have hopen : Passes .value nests ('"' :: text) (.text false) := .cons rfl (passes_text false h)
  refine hopen.trans_skips fun rest offset _ => ⟨_, skip_close ?_ rest offset⟩
  rfl

-- Where blanks are passed over.
theorem passes_blanks (hmode : ∀ char, isBlank char = true → pass mode nests char = .into mode nests)
    (h : Blank text) : Passes mode nests text mode :=
  .stay fun char hchar => hmode char (h.isBlank char hchar)

theorem passes_blanks_done (nest : Nest) (h : Blank text) : Passes .done (nest :: nests) text .done :=
  passes_blanks (fun _ hchar => if_pos hchar) h

theorem endsNumber_cons (hchar : isDigit char = false ∧ char ≠ '.' ∧ char ≠ 'e' ∧ char ≠ 'E') (rest : List Char) :
    EndsNumber (char :: rest) := by
  rintro _ ⟨⟩
  exact hchar

theorem Blank.endsNumber (h : Blank text) (hrest : EndsNumber rest) : EndsNumber (text ++ rest) := by
  cases text with
  | nil => exact hrest
  | cons char text =>
      have hchar := h char List.mem_cons_self
      simp only [List.mem_cons, List.not_mem_nil, or_false] at hchar
      rcases hchar with rfl | rfl | rfl | rfl <;> exact endsNumber_cons (by decide) (text ++ rest)

-- Behind a value comes something else that is passed over.
theorem Skips.trans {others : List Char} (h : Skips start nests text)
    (hends : ∀ rest, EndsNumber rest → EndsNumber (others ++ rest)) (hothers : Skips .done nests others) :
    Skips start nests (text ++ others) := by
  intro rest offset hrest
  obtain ⟨later, hfirst⟩ := h (others ++ rest) offset (hends rest hrest)
  obtain ⟨last, hsecond⟩ := hothers rest later hrest
  exact ⟨last, by rw [List.append_assoc, hfirst, hsecond]⟩

section nest

variable {nest : Nest} {opening closing : Char} {first : Mode}

-- A list or an object, from its first character to its last one.
theorem skips_nest (hopen : pass .value nests opening = .into first (nest :: nests))
    (hclose : pass .done (nest :: nests) closing = if nests.isEmpty then .last else .into .done nests)
    (hends : isDigit closing = false ∧ closing ≠ '.' ∧ closing ≠ 'e' ∧ closing ≠ 'E')
    (h : Skips first (nest :: nests) text) : Skips .value nests (opening :: (text ++ [closing])) := by
  intro rest offset _
  obtain ⟨later, hinside⟩ := h (closing :: rest) (offset + opening.utf8Size) (endsNumber_cons hends rest)
  refine ⟨later + closing.utf8Size, ?_⟩
  rw [List.cons_append, List.append_assoc, skip_into hopen, List.singleton_append, hinside, skip_close hclose]

theorem skips_empty (hopen : pass .value nests opening = .into first (nest :: nests))
    (hfirst : ∀ char, isBlank char = true → pass first (nest :: nests) char = .into first (nest :: nests))
    (hclose : pass first (nest :: nests) closing = if nests.isEmpty then .last else .into .done nests)
    (h : Blank text) : Skips .value nests (opening :: (text ++ [closing])) := by
  intro rest offset _
  obtain ⟨later, hinside⟩ := passes_blanks hfirst h (closing :: rest) (offset + opening.utf8Size)
  refine ⟨later + closing.utf8Size, ?_⟩
  rw [List.cons_append, List.append_assoc, skip_into hopen, List.singleton_append, hinside, skip_close hclose]

end nest

-- The first value of a list is passed over as any other one.
theorem skips_first (hvalue : IsJson .value text) (h : Skips .value nests text)
    (hstart : start ∈ [.value, .firstValue]) : Skips start nests text := by
  simp only [List.mem_cons, List.not_mem_nil, or_false] at hstart
  rcases hstart with rfl | rfl
  · exact h
  · obtain ⟨char, chars, rfl, hblank, hend⟩ := hvalue.head
    intro rest offset hrest
    obtain ⟨later, heq⟩ := h rest offset hrest
    refine ⟨later, .trans (skip_congr (by simp) (by simp) ?_ _ offset) heq⟩
    simp [pass, hblank, hend]

-- Where each part of a text is passed over. A value may stand alone, the other parts are within a list or
-- an object.
def Part.Skipped : Part → List Char → Prop
  | .value, text => ∀ nests, Skips .value nests text
  | .element, text => ∀ nest nests, ∀ start ∈ [.value, .firstValue], Skips start (nest :: nests) text
  | .elements, text => ∀ nests, ∀ start ∈ [.value, .firstValue], Skips start (.list :: nests) text
  | .member, text | .members, text => ∀ nests, ∀ start ∈ [.key, .firstKey], Skips start (.object :: nests) text

theorem skipped_element {before value after : List Char} (hbefore : Blank before) (h : IsJson .value value)
    (hskipped : Part.Skipped .value value) (hafter : Blank after) :
    Part.Skipped .element (before ++ (value ++ after)) := by
  intro nest nests start hstart
  have hblank (char : Char) (hchar : isBlank char = true) :
      pass start (nest :: nests) char = .into start (nest :: nests) := by
    simp only [List.mem_cons, List.not_mem_nil, or_false] at hstart
    rcases hstart with rfl | rfl <;> simp [pass, passValue, hchar]
  exact (passes_blanks hblank hbefore).trans_skips ((skips_first h (hskipped _) hstart).trans
    (fun rest hrest => hafter.endsNumber hrest) (passes_blanks_done nest hafter).skips)

theorem skipped_member {before name between element : List Char} (hbefore : Blank before) (hname : IsText name)
    (hbetween : Blank between) (hskipped : Part.Skipped .element element) :
    Part.Skipped .member (before ++ '"' :: (name ++ '"' :: (between ++ ':' :: element))) := by
  intro nests start hstart
  have hmode : start = .key ∨ start = .firstKey := by simpa using hstart
  have hblank (char : Char) (hchar : isBlank char = true) :
      pass start (.object :: nests) char = .into start (.object :: nests) := by
    have hend : char ≠ '\x7d' := by
      rintro rfl
      cases hchar
    rcases hmode with rfl | rfl <;> simp [pass, passKey, hchar, hend]
  have hquote : pass start (.object :: nests) '"' = .into (.text true) (.object :: nests) := by
    rcases hmode with rfl | rfl <;> rfl
  have hcolon (char : Char) (hchar : isBlank char = true) :
      pass .colon (.object :: nests) char = .into .colon (.object :: nests) :=
    if_pos hchar
  have hvalue : Skips .value (.object :: nests) element := hskipped .object nests .value (.head _)
  have hbehind : Skips .colon (.object :: nests) (between ++ ':' :: element) :=
    (passes_blanks hcolon hbetween).trans_skips (.cons rfl hvalue)
  have hname : Skips (.text true) (.object :: nests) (name ++ '"' :: (between ++ ':' :: element)) :=
    (passes_text true hname).trans_skips (.cons rfl hbehind)
  exact (passes_blanks hblank hbefore).trans_skips (.cons hquote hname)

-- A comma leads to the next part of a list or an object.
theorem skips_comma {others : List Char} {next : Mode} (h : Skips start nests text)
    (hcomma : pass .done nests ',' = .into next nests) (hothers : Skips next nests others) :
    Skips start nests (text ++ ',' :: others) :=
  h.trans (fun _ _ => endsNumber_cons (by decide) _) (.cons hcomma hothers)

theorem IsJson.skipped {part : Part} (h : IsJson part text) : part.Skipped text := by
  induction h with
  | word hword => exact fun nests => skips_word hword
  | number hnumber => exact fun nests => skips_number hnumber
  | text htext => exact fun nests => skips_text htext
  | emptyList hblanks =>
      exact fun nests => skips_empty rfl (fun _ hchar => if_pos hchar) rfl hblanks
  | list h ih => exact fun nests => skips_nest rfl rfl (by decide) (ih nests .firstValue (by simp))
  | emptyObject hblanks =>
      refine fun nests => skips_empty (show pass .value nests '\x7b' = .into .firstKey (.object :: nests) from rfl)
        (fun char hchar => ?_) rfl hblanks
      have hend : char ≠ '\x7d' := by
        rintro rfl
        cases hchar
      simp [pass, passKey, hchar, hend]
  | object h ih => exact fun nests => skips_nest rfl rfl (by decide) (ih nests .firstKey (by simp))
  | element hbefore h hafter ih => exact skipped_element hbefore h ih hafter
  | lastElement h ih => exact fun nests => ih .list nests
  | nextElement h hothers ih ihothers =>
      exact fun nests start hstart => skips_comma (ih .list nests start hstart) rfl (ihothers nests .value (.head _))
  | member hbefore hname hbetween h ih => exact skipped_member hbefore hname hbetween ih
  | lastMember h ih => exact ih
  | nextMember h hothers ih ihothers =>
      exact fun nests start hstart => skips_comma (ih nests start hstart) rfl (ihothers nests .key (.head _))

-- A value is passed over up to its end.
theorem skipValue_value {blanks : List Char} (hblanks : Blank blanks) (h : IsJson .value text) (hrest : EndsNumber rest)
    (offset : Nat) :
    ∃ later, Cursor.skipValue { rest := blanks ++ (text ++ rest), offset } = .ok { rest, offset := later } := by
  have hblank (char : Char) (hchar : isBlank char = true) : pass .value [] char = .into .value [] := if_pos hchar
  obtain ⟨later, heq⟩ := (passes_blanks hblank hblanks).trans_skips (h.skipped []) rest offset hrest
  rw [List.append_assoc, skip_done_nil] at heq
  exact ⟨later, heq⟩

end DeadlineQueue.Json
