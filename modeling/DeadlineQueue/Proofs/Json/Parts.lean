import DeadlineQueue.Proofs.Json.Passing
import Mathlib.Data.List.Induction

namespace DeadlineQueue.Json

variable {text rest : List Char}

theorem Cursor.skipBlank_append (h : Blank text) (rest : List Char) (offset : Nat) :
    skipBlank { rest := text ++ rest, offset } = skipBlank { rest, offset := offset + text.length } := by
  simp only [skipBlank, List.takeWhile_append_of_pos h.isBlank, List.dropWhile_append_of_pos h.isBlank,
    List.length_append, Nat.add_assoc]

theorem Cursor.readColon_blanks (h : Blank text) (rest : List Char) (offset : Nat) :
    ∃ later, readColon { rest := text ++ ':' :: rest, offset } = .ok { rest, offset := later } := by
  refine ⟨offset + text.length + 1, ?_⟩
  unfold readColon
  rw [skipBlank_append h]
  rfl

section digits

theorem digitChar_digitValue {char : Char} (h : isDigit char = true) :
    digitValue char < 10 ∧ (digitValue char).digitChar = char := by
  have hall : ∀ digit < 10, digit.digitChar = Char.ofNat (digit + 48) := by decide
  have hbounds : 48 ≤ char.toNat ∧ char.toNat ≤ 57 := by
    rw [isDigit_eq] at h
    exact Char.isDigit_iff_toNat.mp h
  have hless : digitValue char < 10 := by
    unfold digitValue
    omega
  have hchar : digitValue char + 48 = char.toNat := by
    unfold digitValue
    omega
  refine ⟨hless, ?_⟩
  rw [hall _ hless, hchar, Char.ofNat_toNat]

-- A whole number is written as the digits of a number.
theorem IsWhole.exists_toDigits (h : IsWhole text) : ∃ number, text = Nat.toDigits 10 number := by
  cases h with
  | zero => exact ⟨0, rfl⟩
  | @positive first digits hfirst hzero hdigits =>
      suffices hpos : ∃ number, 0 < number ∧ first :: digits = Nat.toDigits 10 number from
        hpos.imp fun _ hnumber => hnumber.2
      induction digits using List.reverseRecOn with
      | nil =>
          obtain ⟨hless, hchar⟩ := digitChar_digitValue ((isDigit_eq first).trans hfirst)
          refine ⟨digitValue first, Nat.pos_of_ne_zero fun hnone => hzero ?_, ?_⟩
          · rw [← hchar, hnone]
            rfl
          · rw [Nat.toDigits_of_lt_base hless, hchar]
      | append_singleton digits digit ih =>
          obtain ⟨number, hpos, heq⟩ := ih fun char hchar => hdigits char (List.mem_append_left _ hchar)
          have hdigit : digit.isDigit = true := hdigits digit (List.mem_append_right _ (.head _))
          obtain ⟨hless, hchar⟩ := digitChar_digitValue ((isDigit_eq digit).trans hdigit)
          refine ⟨10 * number + digitValue digit, by omega, ?_⟩
          rw [← List.cons_append, heq, ← Nat.toDigits_append_toDigits (by decide) hpos hless,
            Nat.toDigits_of_lt_base hless, hchar]

theorem absorb_eq_decimal {significand value : Nat} {digits : List Nat} (h : absorb significand digits = (value, [])) :
    value = decimal significand digits := by
  induction digits generalizing significand with
  | nil =>
      cases h
      rfl
  | cons digit digits ih =>
      rw [absorb] at h
      split at h
      · exact ih h
      · cases h

variable {whole fraction exponent : List Char}

-- Behind a whole number, a number goes on with a point or with the letter of an exponent.
theorem isDigit_head_parts (hfraction : IsFraction fraction) (hexponent : IsExponent exponent)
    (hrest : EndsNumber rest) : ∀ char ∈ (fraction ++ (exponent ++ rest)).head?, isDigit char = false := by
  cases hfraction with
  | digits hsome hdigits =>
      rintro _ ⟨⟩
      rfl
  | missing =>
      cases hexponent with
      | @digits letter sign digits hletter hsign hsome hdigits =>
          rintro _ ⟨⟩
          simp only [List.mem_cons, List.not_mem_nil, or_false] at hletter
          rcases hletter with rfl | rfl <;> rfl
      | missing => exact fun char hchar => (hrest char hchar).1

theorem eq_nil_of_head_parts (hfraction : IsFraction fraction) (hexponent : IsExponent exponent)
    (h : ∀ char ∈ (fraction ++ (exponent ++ rest)).head?, char ∉ ['.', 'e', 'E']) : fraction = [] ∧ exponent = [] := by
  cases hfraction with
  | digits hsome hdigits => exact absurd (.head _) (h '.' rfl)
  | missing =>
      cases hexponent with
      | @digits letter sign digits hletter hsign hsome hdigits => exact absurd (.tail _ hletter) (h letter rfl)
      | missing => exact ⟨rfl, rfl⟩

-- Natural numbers are written as their digits alone.
theorem Cursor.readNumber_natural (hwhole : IsWhole whole) (hfraction : IsFraction fraction)
    (hexponent : IsExponent exponent) (hrest : EndsNumber rest) {offset value : Nat} {negative : Bool} {after : Cursor}
    (h : readNumber { rest := whole ++ (fraction ++ (exponent ++ rest)), offset } negative =
      .ok (.natural value, after)) :
    negative = false ∧ whole ++ (fraction ++ exponent) = Nat.toDigits 10 value ∧ value < wordLimit := by
  obtain ⟨number, rfl⟩ := hwhole.exists_toDigits
  obtain ⟨hnegative, habsorb, hhead⟩ := readNumber_eq_natural h
  have hdigits := digits_append (fun char => isDigit_of_mem_toDigits number)
    (isDigit_head_parts hfraction hexponent hrest) offset
  rw [hdigits] at habsorb hhead
  obtain ⟨rfl, rfl⟩ := eq_nil_of_head_parts hfraction hexponent hhead
  have hvalue : value = number := (absorb_eq_decimal habsorb).trans (decimal_toDigits number)
  have hless := absorb_lt ((Nat.toDigits 10 number).map digitValue) (show 0 < wordLimit by decide)
  rw [habsorb] at hless
  refine ⟨hnegative, ?_, hless⟩
  rw [hvalue, List.append_nil, List.append_nil]

end digits

section text

variable {digits others read : List Char} {value : Nat}

-- The digits of a unit are read up to the last one.
theorem readText_unit (h : IsUnit digits value) (leading : Option Nat) (read rest : List Char) (offset : Nat) :
    ∃ last a d, hexValue? last = some d ∧ a * 16 + d = value ∧ ∃ later,
      readText (.hex 0 0 leading) read (digits ++ rest) offset =
        readText (.hex 3 a leading) read (last :: rest) later := by
  have hnext {char : Char} {digit seen unit offset : Nat} {rest : List Char} (hdigit : (char, digit) ∈ hexDigits)
      (hseen : seen < 3) :
      readText (.hex seen unit leading) read (char :: rest) offset =
        readText (.hex (seen + 1) (unit * 16 + digit) leading) read rest (offset + 1) := by
    rw [readText, hexValue?_of_mem hdigit]
    exact if_pos hseen
  cases h with
  | @digits first second third fourth a b c d hfirst hsecond hthird hfourth =>
      refine ⟨fourth, (a * 16 + b) * 16 + c, d, hexValue?_of_mem hfourth, rfl, offset + 1 + 1 + 1, ?_⟩
      simp only [List.cons_append, List.nil_append]
      rw [hnext hfirst (by omega), hnext hsecond (by omega), hnext hthird (by omega)]
      simp only [Nat.zero_mul, Nat.zero_add]

theorem readText_alone (h : IsUnit digits value) (hvalue : value < 0xD800 ∨ 0xE000 ≤ value) (read rest : List Char)
    (offset : Nat) :
    ∃ later, readText (.hex 0 0 none) read (digits ++ rest) offset =
      readText .plain (Char.ofNat value :: read) rest later := by
  obtain ⟨last, a, d, hlast, rfl, later, heq⟩ := readText_unit h none read rest offset
  have htrailing : isTrailing (a * 16 + d) = false := by
    simp [isTrailing]
    omega
  have hleading : isLeading (a * 16 + d) = false := by
    simp [isLeading]
    omega
  refine ⟨later + 1, ?_⟩
  rw [heq, readText, hlast]
  simp [htrailing, hleading]

theorem readText_pair {leading trailing : Nat} (h : IsUnit digits (0xD800 + leading)) (hfirst : leading < 0x400)
    (hother : IsUnit others (0xDC00 + trailing)) (hsecond : trailing < 0x400) (read rest : List Char) (offset : Nat) :
    ∃ later, readText (.hex 0 0 none) read (digits ++ '\\' :: 'u' :: (others ++ rest)) offset =
      readText .plain (Char.ofNat (0x10000 + leading * 0x400 + trailing) :: read) rest later := by
  obtain ⟨last, a, d, hlast, hunit, later, heq⟩ := readText_unit h none read ('\\' :: 'u' :: (others ++ rest)) offset
  have hnot : isTrailing (0xD800 + leading) = false := by
    simp [isTrailing]
    omega
  have hleading : isLeading (0xD800 + leading) = true := by
    simp [isLeading]
    omega
  have hmark : readText (.hex 3 a none) read (last :: '\\' :: 'u' :: (others ++ rest)) later =
      readText (.hex 0 0 (some (0xD800 + leading))) read (others ++ rest) (later + 1 + 1 + 1) := by
    rw [readText, hlast]
    simp only [hunit, hnot, hleading]
    rfl
  obtain ⟨final, b, e, hfinal, hother, behind, hsame⟩ :=
    readText_unit hother (some (0xD800 + leading)) read rest (later + 1 + 1 + 1)
  have htrailing : isTrailing (0xDC00 + trailing) = true := by
    simp [isTrailing]
    omega
  have hjoined : joinPair (0xD800 + leading) (0xDC00 + trailing) =
      Char.ofNat (0x10000 + leading * 0x400 + trailing) := by
    simp only [joinPair, Nat.add_sub_cancel_left]
  refine ⟨behind + 1, ?_⟩
  rw [heq, hmark, hsame, readText, hfinal]
  simp only [hother, htrailing, hjoined]
  rfl

-- A text is read as the characters that it stands for.
theorem readText_spells {meant : List Char} (h : Spells text meant) (read rest : List Char) (offset : Nat) :
    Gives (readText .plain read (text ++ '"' :: rest) offset) (String.ofList (read.reverse ++ meant)) rest := by
  -- What is read first goes to what has been read before.
  have hfirst {char : Char} {chars tail meant read : List Char} {offset : Nat}
      (hread : ∃ later, readText .plain read chars offset = readText .plain (char :: read) tail later)
      (hrest : ∀ later, Gives (readText .plain (char :: read) tail later)
        (String.ofList ((char :: read).reverse ++ meant)) rest) :
      Gives (readText .plain read chars offset) (String.ofList (read.reverse ++ char :: meant)) rest := by
    obtain ⟨later, heq⟩ := hread
    rw [heq]
    simpa using hrest later
  have hunit (chars read : List Char) (offset : Nat) :
      readText .plain read ('\\' :: 'u' :: chars) offset = readText (.hex 0 0 none) read chars (offset + 1 + 1) := rfl
  induction h generalizing read offset with
  | nil => exact ⟨offset + 1, by simp [readText]⟩
  | @plain char text meant hchar _ ih =>
      refine hfirst ⟨offset + char.utf8Size, ?_⟩ (ih (char :: read))
      simp only [isPlain, Bool.and_eq_true, decide_eq_true_eq, ne_eq] at hchar
      obtain ⟨⟨hquote, hbackslash⟩, hcontrol⟩ := hchar
      rw [List.cons_append, readText, if_neg hquote, if_neg hbackslash, if_neg (Nat.not_lt.mpr hcontrol)]
  | @escape letter char text meant hletter _ ih =>
      refine hfirst ⟨offset + 1 + 1, ?_⟩ (ih (char :: read))
      have hbackslash : readText .plain read ('\\' :: letter :: (text ++ '"' :: rest)) offset =
          readText .escape read (letter :: (text ++ '"' :: rest)) (offset + 1) := rfl
      rw [List.cons_append, List.cons_append, hbackslash, readText, if_neg (ne_of_mem_escapes hletter),
        simpleEscape?_of_mem hletter]
  | @unit digits text meant value hdigits hvalue _ ih =>
      refine hfirst ?_ (ih (Char.ofNat value :: read))
      rw [List.cons_append, List.cons_append, List.append_assoc, hunit]
      exact readText_alone hdigits hvalue _ _ _
  | @pair digits others text meant leading trailing hleading hless htrailing hlessToo _ ih =>
      refine hfirst ?_ (ih (Char.ofNat (0x10000 + leading * 0x400 + trailing) :: read))
      simp only [List.cons_append, List.append_assoc]
      rw [hunit]
      exact readText_pair hleading hless htrailing hlessToo _ _ _

end text

namespace Cursor

variable {name : String} {blanks : List Char}

theorem readKey_done (hblanks : Blank blanks) (first : Bool) (rest : List Char) (offset : Nat) :
    readKey { rest := blanks ++ '\x7d' :: rest, offset } first =
      .ok (none, { rest, offset := offset + blanks.length + 1 }) := by
  unfold readKey
  rw [skipBlank_append hblanks]
  rfl

-- The key of the first member, and of a further one.
theorem readKey_first (hblanks : Blank blanks) (hname : Spells text name.toList) (rest : List Char) (offset : Nat) :
    Gives (readKey { rest := blanks ++ '"' :: (text ++ '"' :: rest), offset } true) (some name) rest := by
  obtain ⟨last, hlast⟩ := readText_spells hname [] rest (offset + blanks.length + '"'.utf8Size)
  rw [List.reverse_nil, List.nil_append, String.ofList_toList] at hlast
  have hquote : isBlank '"' = false := rfl
  refine ⟨last, ?_⟩
  simp only [readKey, skipBlank_append hblanks, skipBlank_cons hquote, next, readText, hlast]
  rfl

theorem readKey_further {before : List Char} (hbefore : Blank before) (hblanks : Blank blanks)
    (hname : Spells text name.toList) (rest : List Char) (offset : Nat) :
    Gives (readKey { rest := before ++ ',' :: (blanks ++ '"' :: (text ++ '"' :: rest)), offset } false) (some name)
      rest := by
  obtain ⟨last, hlast⟩ :=
    readText_spells hname [] rest (offset + before.length + ','.utf8Size + blanks.length + '"'.utf8Size)
  rw [List.reverse_nil, List.nil_append, String.ofList_toList] at hlast
  have hcomma : isBlank ',' = false := rfl
  have hquote : isBlank '"' = false := rfl
  refine ⟨last, ?_⟩
  simp only [readKey, skipBlank_append hbefore, skipBlank_append hblanks, skipBlank_cons hcomma, skipBlank_cons hquote,
    next, readText, hlast]
  rfl

end Cursor

end DeadlineQueue.Json
