import DeadlineQueue.Limits.Json

namespace DeadlineQueue.Json

-- What a reader gives, and the text that it leaves. Where it stands in the text matters to failures only.
def Gives {α : Type} (result : Except Failure (α × Cursor)) (value : α) (rest : List Char) : Prop :=
  ∃ offset, result = .ok (value, { rest, offset })

-- A reader that gives nothing.
def Fails {α : Type} (result : Except Failure α) : Prop :=
  ∃ failure, result = .error failure

-- A reader that gives the one right value, or nothing where no value is right.
def Answers {α : Type} (Right : α → Prop) (result : Except Failure (α × Cursor)) (rest : List Char) : Prop :=
  (∃ value, (∀ other, Right other ↔ other = value) ∧ Gives result value rest) ∨
    ((∀ value, ¬Right value) ∧ Fails result)

-- What may follow a number for it to end there.
def EndsNumber (rest : List Char) : Prop :=
  ∀ char ∈ rest.head?, isDigit char = false ∧ char ≠ '.' ∧ char ≠ 'e' ∧ char ≠ 'E'

-- The number that digits make up behind those that were read before.
def decimal (significand : Nat) (digits : List Nat) : Nat :=
  digits.foldl (fun value digit => value * 10 + digit) significand

-- What a reader can give at all.
def Yields {α : Type} (P : α → Prop) (result : Except Failure (α × Cursor)) : Prop :=
  ∀ value after, result = .ok (value, after) → P value

theorem Fails.error {α : Type} (failure : Failure) : Fails (.error failure : Except Failure α) :=
  ⟨failure, rfl⟩

-- What is read behind a part that fails does not matter.
theorem Fails.bind {α β : Type} {result : Except Failure α} (h : Fails result) (next : α → Except Failure β) :
    Fails (result >>= next) := by
  obtain ⟨failure, rfl⟩ := h
  exact .error failure

namespace Answers

variable {α β : Type} {Right Other : α → Prop} {result : Except Failure (α × Cursor)} {rest : List Char}

theorem congr (h : Answers Right result rest) (hsame : ∀ value, Other value ↔ Right value) :
    Answers Other result rest := by
  rcases h with ⟨value, hright, hgives⟩ | ⟨hnone, hfails⟩
  · exact .inl ⟨value, fun other => (hsame other).trans (hright other), hgives⟩
  · exact .inr ⟨fun value hvalue => hnone value ((hsame value).mp hvalue), hfails⟩

theorem bind {Next : α → β → Prop} {next : α × Cursor → Except Failure (β × Cursor)} {behind : List Char}
    (h : Answers Right result rest)
    (hnext : ∀ value offset, Right value → Answers (Next value) (next (value, { rest, offset })) behind) :
    Answers (fun other => ∃ value, Right value ∧ Next value other) (result >>= next) behind := by
  rcases h with ⟨value, hright, offset, rfl⟩ | ⟨hnone, hfails⟩
  · refine (hnext value offset ((hright value).mpr rfl)).congr fun other => ?_
    simp only [hright, exists_eq_left]
  · exact .inr ⟨fun other ⟨value, hvalue, _⟩ => hnone value hvalue, hfails.bind next⟩

end Answers

namespace Yields

variable {α β : Type} {P : α → Prop} {Q : β → Prop}

theorem error (failure : Failure) : Yields P (.error failure) := by
  intro value after h
  cases h

theorem ok {value : α} (h : P value) (after : Cursor) : Yields P (.ok (value, after)) := by
  intro other place heq
  cases heq
  exact h

theorem bind {result : Except Failure (α × Cursor)} {next : α × Cursor → Except Failure (β × Cursor)}
    (hresult : Yields P result) (hnext : ∀ value after, P value → Yields Q (next (value, after))) :
    Yields Q (result >>= next) := by
  cases result with
  | error failure => exact error failure
  | ok read => exact hnext read.1 read.2 (hresult read.1 read.2 rfl)

-- A part of the text that gives no value does not matter to what is given.
theorem behind {passed : Except Failure Cursor} {next : Cursor → Except Failure (β × Cursor)}
    (hnext : ∀ after, Yields Q (next after)) : Yields Q (passed >>= next) := by
  cases passed with
  | error failure => exact error failure
  | ok after => exact hnext after

end Yields

namespace Cursor

theorem skipBlank_cons {char : Char} (hchar : isBlank char = false) (rest : List Char) (offset : Nat) :
    skipBlank { rest := char :: rest, offset } = { rest := char :: rest, offset } := by
  simp [skipBlank, hchar]

theorem digits_append {run rest : List Char} (hrun : ∀ char ∈ run, isDigit char = true)
    (hrest : ∀ char ∈ rest.head?, isDigit char = false) (offset : Nat) :
    digits { rest := run ++ rest, offset } = (run.map digitValue, { rest, offset := offset + run.length }) := by
  have htake : rest.takeWhile isDigit = [] := by
    cases rest with
    | nil => rfl
    | cons char rest => simp [hrest char rfl]
  have hdrop : rest.dropWhile isDigit = rest := by
    cases rest with
    | nil => rfl
    | cons char rest => simp [hrest char rfl]
  simp only [digits, List.takeWhile_append_of_pos hrun, List.dropWhile_append_of_pos hrun, htake, hdrop,
    List.append_nil]

end Cursor

theorem isDigit_eq (char : Char) : isDigit char = char.isDigit := by
  simp [isDigit, Char.isDigit, Char.le_def]

theorem ne_of_isDigit {char other : Char} (hchar : isDigit char = true) (hother : isDigit other = false) :
    char ≠ other := by
  rintro rfl
  rw [hchar] at hother
  cases hother

theorem isBlank_eq_false {char : Char} (h : isDigit char = true) : isBlank char = false := by
  simp only [isBlank, Bool.or_eq_false_iff, decide_eq_false_iff_not]
  exact ⟨⟨⟨ne_of_isDigit h rfl, ne_of_isDigit h rfl⟩, ne_of_isDigit h rfl⟩, ne_of_isDigit h rfl⟩

theorem le_decimal (significand : Nat) (digits : List Nat) : significand ≤ decimal significand digits := by
  induction digits generalizing significand with
  | nil => exact Nat.le_refl _
  | cons digit digits ih =>
      have hrest := ih (significand * 10 + digit)
      unfold decimal at hrest ⊢
      rw [List.foldl_cons]
      omega

-- Digits are taken to the last one if the number fits.
theorem absorb_eq {significand : Nat} {digits : List Nat} (h : decimal significand digits < wordLimit) :
    absorb significand digits = (decimal significand digits, []) := by
  induction digits generalizing significand with
  | nil => rfl
  | cons digit digits ih =>
      have hnext : significand * 10 + digit < wordLimit := Nat.lt_of_le_of_lt (le_decimal _ digits) h
      rw [absorb, if_pos hnext]
      exact ih h

-- What is taken of them always fits.
theorem absorb_lt {significand : Nat} (digits : List Nat) (h : significand < wordLimit) :
    (absorb significand digits).1 < wordLimit := by
  induction digits generalizing significand with
  | nil => exact h
  | cons digit digits ih =>
      unfold absorb
      split
      · rename_i hnext
        exact ih hnext
      · exact h

section toDigits

variable (number : Nat)

theorem isDigit_of_mem_toDigits {char : Char} (h : char ∈ Nat.toDigits 10 number) : isDigit char = true := by
  rw [isDigit_eq]
  exact Nat.isDigit_of_mem_toDigits (by decide) (by decide) h

theorem decimal_toDigits : decimal 0 ((Nat.toDigits 10 number).map digitValue) = number := by
  have hvalue := Nat.ofDigitChars_ten_toDigits (n := number)
  rw [Nat.ofDigitChars_eq_foldl] at hvalue
  rw [decimal, List.foldl_map]
  calc (Nat.toDigits 10 number).foldl (fun value char => value * 10 + digitValue char) 0
    _ = (Nat.toDigits 10 number).foldl (fun value char => 10 * value + (char.toNat - '0'.toNat)) 0 := by
      simp only [digitValue, Nat.mul_comm]
      rfl
    _ = number := hvalue

theorem digitValue_digitChar {digit : Nat} (h : digit < 10) : digitValue digit.digitChar = digit := by
  revert digit
  decide

-- A number other than zero is not written with a zero in front.
theorem head_toDigits (hnumber : number ≠ 0) :
    ∀ first ∈ ((Nat.toDigits 10 number).map digitValue).head?, first ≠ 0 := by
  induction number using Nat.strongRecOn with
  | ind number ih =>
      rw [Nat.toDigits_eq_if (by decide)]
      split
      · rename_i hless
        simpa [digitValue_digitChar hless] using hnumber
      · rename_i hlarge
        have hshorter := ih (number / 10) (by omega) (by omega)
        intro first hfirst
        refine hshorter first ?_
        have hnonempty : (Nat.toDigits 10 (number / 10)).map digitValue ≠ [] := by simp [Nat.toDigits_ne_nil]
        rwa [List.map_append, List.head?_append, List.head?_eq_some_head hnonempty, Option.some_or,
          ← List.head?_eq_some_head hnonempty] at hfirst

end toDigits

-- A number that 64 bits hold is read as it is written.
theorem readNumber_toDigits {number : Nat} (hnumber : number < wordLimit) {rest : List Char} (hrest : EndsNumber rest)
    (offset : Nat) :
    Gives (Cursor.readNumber { rest := Nat.toDigits 10 number ++ rest, offset } false) (.natural number) rest := by
  have hdigits := Cursor.digits_append (fun char => isDigit_of_mem_toDigits number)
    (fun char hchar => (hrest char hchar).1) offset
  have habsorb : absorb 0 ((Nat.toDigits 10 number).map digitValue) = (number, []) := by
    rw [absorb_eq (by rwa [decimal_toDigits]), decimal_toDigits]
  have hzero : ∀ first others, (Nat.toDigits 10 number).map digitValue = first :: others →
      (decide (first = 0) && !others.isEmpty) = false := by
    intro first others heq
    rcases Nat.eq_zero_or_pos number with rfl | hpos
    · obtain ⟨-, rfl⟩ := List.cons.inj heq
      simp
    · have hfirst := head_toDigits number (by omega) first (by rw [heq]; rfl)
      simp [hfirst]
  refine ⟨offset + (Nat.toDigits 10 number).length, ?_⟩
  unfold Cursor.readNumber
  rw [hdigits]
  dsimp only
  split
  · rename_i hnil
    simp [Nat.toDigits_ne_nil] at hnil
  · rename_i first others hcons
    rw [if_neg (by simp [hzero first others hcons]), habsorb]
    cases rest with
    | nil => rfl
    | cons char rest =>
        obtain ⟨-, hpoint, hsmall, hlarge⟩ := hrest char rfl
        dsimp only
        split
        · simp_all
        · simp_all
        · simp_all
        · rfl

def Number.IsReal (number : Number) : Prop :=
  ∃ signed magnitude, number = .real signed magnitude

theorem yields_readReal (negative : Bool) (significand : Nat) (exponent : Int) (cursor : Cursor) :
    Yields Number.IsReal (readReal negative significand exponent cursor) := by
  unfold readReal
  split
  · exact .error _
  · exact .ok ⟨_, _, rfl⟩ _

theorem yields_readExponent (negative : Bool) (significand : Nat) (exponent : Int) (cursor : Cursor) :
    Yields Number.IsReal (readExponent negative significand exponent cursor) := by
  unfold readExponent
  split
  -- The sign of the exponent makes no difference here.
  all_goals
    dsimp only
    split
    · exact .error _
    · split
      · split
        · exact .error _
        · exact .ok ⟨_, _, rfl⟩ _
      · exact yields_readReal _ _ _ _

theorem yields_readFraction (negative : Bool) (significand : Nat) (exponent : Int) (cursor : Cursor) :
    Yields Number.IsReal (readFraction negative significand exponent cursor) := by
  unfold readFraction
  dsimp only
  split
  · exact .error _
  · split
    · exact yields_readExponent _ _ _ _
    · exact yields_readExponent _ _ _ _
    · exact yields_readReal _ _ _ _

theorem Number.IsReal.ne_natural {number : Number} (h : number.IsReal) (value : Nat) : number ≠ .natural value := by
  rintro rfl
  obtain ⟨signed, magnitude, heq⟩ := h
  cases heq

theorem wholeNumber_eq_natural {negative : Bool} {size value : Nat} (h : wholeNumber negative size = .natural value) :
    negative = false ∧ size = value := by
  unfold wholeNumber at h
  split at h
  · rename_i hnegative
    cases h
    exact ⟨by simpa using hnegative, rfl⟩
  · split at h
    · cases h
    · cases h

-- A number is natural if it has neither sign, fraction nor exponent, and all of its digits are taken.
theorem Cursor.readNumber_eq_natural {cursor after : Cursor} {negative : Bool} {value : Nat}
    (h : cursor.readNumber negative = .ok (.natural value, after)) :
    negative = false ∧ absorb 0 cursor.digits.1 = (value, []) ∧
      ∀ char ∈ cursor.digits.2.rest.head?, char ∉ ['.', 'e', 'E'] := by
  unfold readNumber at h
  dsimp only at h
  split at h
  · cases h
  · split at h
    · cases h
    · split at h
      · exact absurd rfl ((yields_readFraction _ _ _ _ _ _ h).ne_natural value)
      · exact absurd rfl ((yields_readExponent _ _ _ _ _ _ h).ne_natural value)
      · exact absurd rfl ((yields_readExponent _ _ _ _ _ _ h).ne_natural value)
      · rename_i hpoint hsmall hlarge
        split at h
        · rename_i hleft
          obtain ⟨hnegative, hsize⟩ := wholeNumber_eq_natural (congrArg Prod.fst (Except.ok.inj h))
          refine ⟨hnegative, Prod.ext hsize (List.isEmpty_iff.mp hleft), ?_⟩
          intro char hchar hmember
          obtain ⟨rest, hrest⟩ := List.head?_eq_some_iff.mp hchar
          simp only [List.mem_cons, List.not_mem_nil, or_false] at hmember
          rcases hmember with rfl | rfl | rfl
          · exact hpoint rest hrest
          · exact hsmall rest hrest
          · exact hlarge rest hrest
        · exact absurd rfl ((yields_readReal _ _ _ _ _ _ h).ne_natural value)

-- A number without sign, fraction and exponent that was read is one that 64 bits hold.
def Number.Fits (number : Number) : Prop :=
  ∀ value, number = .natural value → value < wordLimit

theorem Cursor.yields_readNumber (cursor : Cursor) (negative : Bool) :
    Yields Number.Fits (cursor.readNumber negative) := by
  rintro _ after h value rfl
  obtain ⟨-, habsorb, -⟩ := readNumber_eq_natural h
  have hless := absorb_lt cursor.digits.1 (show 0 < wordLimit by decide)
  rwa [habsorb] at hless

-- A character that stands for itself in a quoted text.
def isPlain (char : Char) : Bool :=
  char ≠ '"' && char ≠ '\\' && 32 ≤ char.toNat

end DeadlineQueue.Json
