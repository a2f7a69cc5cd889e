import DeadlineQueue.Proofs.Json.Parts

namespace DeadlineQueue

namespace Limits

def get (limits : Limits) : Field → Option Duration
  | .wait => limits.wait
  | .processing => limits.processing

theorem ext_get {limits other : Limits} (h : ∀ field, limits.get field = other.get field) : limits = other := by
  obtain ⟨wait, processing⟩ := limits
  obtain ⟨otherWait, otherProcessing⟩ := other
  have hwait : wait = otherWait := h .wait
  have hprocessing : processing = otherProcessing := h .processing
  rw [hwait, hprocessing]

theorem Field.ofName?_name (field : Field) : Field.ofName? field.name = some field := by
  cases field with
  | wait => decide
  | processing => decide

theorem Field.name_of_ofName? {field : Field} {name : String} (h : Field.ofName? name = some field) :
    field.name = name := by
  simpa using List.find?_some h

-- What a value stands for as a limit: null for none, and the digits of a number that 64 bits hold for so many
-- nanoseconds.
inductive Denotes : List Char → Option Duration → Prop where
  | null : Denotes ['n', 'u', 'l', 'l'] none
  | natural {limit : Duration} (hlimit : limit < 18446744073709551616) : Denotes (Nat.toDigits 10 limit) (some limit)

theorem toDigits_ne_null (number : Nat) : Nat.toDigits 10 number ≠ ['n', 'u', 'l', 'l'] := by
  intro h
  have hdigit : Json.isDigit 'n' = true := Json.isDigit_of_mem_toDigits number (h ▸ List.mem_cons_self)
  cases hdigit

theorem toDigits_inj {number other : Nat} (h : Nat.toDigits 10 number = Nat.toDigits 10 other) : number = other := by
  rw [← Json.decimal_toDigits number, h, Json.decimal_toDigits]

theorem Denotes.unique {text : List Char} {limit other : Option Duration} (h : Denotes text limit)
    (hother : Denotes text other) : other = limit := by
  cases h with
  | null =>
      generalize htext : ['n', 'u', 'l', 'l'] = text at hother
      cases hother with
      | null => rfl
      | natural _ => exact absurd htext.symm (toDigits_ne_null _)
  | @natural limit _ =>
      generalize htext : Nat.toDigits 10 limit = text at hother
      cases hother with
      | null => exact absurd htext (toDigits_ne_null _)
      | natural _ => rw [toDigits_inj htext]

theorem Denotes.isJson {text : List Char} {limit : Option Duration} (h : Denotes text limit) :
    Json.IsJson .value text := by
  cases h with
  | null => exact .word (.head _)
  | @natural limit _ =>
      have hnumber := Json.IsNumber.parts (.head _) (Json.IsWhole.toDigits limit) .missing .missing
      rw [List.nil_append, List.append_nil, List.append_nil] at hnumber
      exact .number hnumber

end Limits

namespace Json

open Limits

variable {text rest : List Char}

theorem readLimit_denoted {limit : Option Duration} (h : Denotes text limit) (hrest : EndsNumber rest) (offset : Nat) :
    Gives (Cursor.readLimit { rest := text ++ rest, offset }) limit rest := by
  cases h with
  | null => exact ⟨offset + 4, rfl⟩
  | @natural limit hlimit =>
      obtain ⟨last, hlast⟩ := readNumber_toDigits hlimit hrest offset
      obtain ⟨digit, digits, hdigits⟩ := List.exists_cons_of_ne_nil (Nat.toDigits_ne_nil (n := limit) (b := 10))
      have hdigit : isDigit digit = true := isDigit_of_mem_toDigits limit (by rw [hdigits]; exact List.mem_cons_self)
      rw [hdigits] at hlast ⊢
      refine ⟨last, ?_⟩
      simp only [Cursor.readLimit, List.cons_append, Cursor.skipBlank_cons (isBlank_eq_false hdigit)]
      rw [if_neg (ne_of_isDigit hdigit rfl), if_neg (ne_of_isDigit hdigit rfl), if_pos hdigit]
      rw [List.cons_append] at hlast
      rw [hlast]

section number

variable {negative : Bool} {offset : Nat}

-- A number that is not natural is refused, whatever it starts with.
theorem readLimit_digit {char : Char} (hdigit : isDigit char = true)
    (h : ∀ value after, Cursor.readNumber { rest := char :: rest, offset } false ≠ .ok (.natural value, after)) :
    Fails (Cursor.readLimit { rest := char :: rest, offset }) := by
  simp only [Cursor.readLimit, Cursor.skipBlank_cons (isBlank_eq_false hdigit)]
  rw [if_neg (ne_of_isDigit hdigit rfl), if_neg (ne_of_isDigit hdigit rfl), if_pos hdigit]
  split
  · exact .error _
  · rename_i value after heq
    exact absurd heq (h value after)
  · exact .error _
  · exact .error _

theorem readLimit_minus
    (h : ∀ value after,
      Cursor.readNumber { rest, offset := offset + '-'.utf8Size } true ≠ .ok (.natural value, after)) :
    Fails (Cursor.readLimit { rest := '-' :: rest, offset }) := by
  simp only [Cursor.readLimit, Cursor.skipBlank_cons (show isBlank '-' = false from rfl)]
  rw [if_neg (by decide), if_pos trivial]
  simp only [Cursor.next]
  split
  · exact .error _
  · rename_i value after heq
    exact absurd heq (h value after)
  · exact .error _
  · exact .error _

end number

theorem readLimit_refused (h : IsJson .value text) (hnone : ∀ limit, ¬Denotes text limit) (hrest : EndsNumber rest)
    (offset : Nat) : Fails (Cursor.readLimit { rest := text ++ rest, offset }) := by
  cases h with
  | word hword =>
      simp only [words, List.mem_cons, List.not_mem_nil, or_false] at hword
      rcases hword with rfl | rfl | rfl
      · exact absurd .null (hnone none)
      · exact ⟨_, rfl⟩
      · exact ⟨_, rfl⟩
  | number hnumber =>
      cases hnumber with
      | @parts sign whole fraction exponent hsign hwhole hfraction hexponent =>
          simp only [List.append_assoc]
          simp only [List.mem_cons, List.not_mem_nil, or_false] at hsign
          rcases hsign with rfl | rfl
          · obtain ⟨first, digits, hcons, hfirst, -⟩ := hwhole.head
            rw [List.nil_append, hcons, List.cons_append]
            refine readLimit_digit hfirst fun value after heq => ?_
            rw [← List.cons_append, ← hcons] at heq
            obtain ⟨-, htext, hvalue⟩ := Cursor.readNumber_natural hwhole hfraction hexponent hrest heq
            exact hnone (some value) (htext ▸ .natural hvalue)
          · refine readLimit_minus fun value after heq => ?_
            obtain ⟨hnegative, -⟩ := Cursor.readNumber_natural hwhole hfraction hexponent hrest heq
            cases hnegative
  | text | emptyList | list | emptyObject | object => exact ⟨_, rfl⟩

-- A value is read as the limit that it stands for.
theorem readLimit_value {blanks : List Char} (hblanks : Blank blanks) (h : IsJson .value text) (hrest : EndsNumber rest)
    (offset : Nat) :
    Answers (Denotes text) (Cursor.readLimit { rest := blanks ++ (text ++ rest), offset }) rest := by
  have hskip : Cursor.readLimit { rest := blanks ++ (text ++ rest), offset } =
      Cursor.readLimit { rest := text ++ rest, offset := offset + blanks.length } := by
    unfold Cursor.readLimit
    rw [Cursor.skipBlank_append hblanks]
  rw [hskip]
  by_cases hlimit : ∃ limit, Denotes text limit
  · obtain ⟨limit, hlimit⟩ := hlimit
    refine .inl ⟨limit, fun other => ⟨hlimit.unique, ?_⟩, readLimit_denoted hlimit hrest _⟩
    rintro rfl
    exact hlimit
  · have hnone : ∀ limit, ¬Denotes text limit := fun limit h => hlimit ⟨limit, h⟩
    exact .inr ⟨hnone, readLimit_refused h hnone hrest _⟩

end Json

end DeadlineQueue
