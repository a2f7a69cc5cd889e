import DeadlineQueue.Proofs.Json.Reading

namespace DeadlineQueue.Json

-- What may stand between two parts of a text.
def Blank (text : List Char) : Prop :=
  ∀ char ∈ text, char ∈ [' ', '\t', '\n', '\r']

def Digits (text : List Char) : Prop :=
  ∀ char ∈ text, char.isDigit = true

-- A whole number is written without zeros in front.
inductive IsWhole : List Char → Prop where
  | zero : IsWhole ['0']
  | positive {first : Char} {digits : List Char} (hfirst : first.isDigit = true) (hzero : first ≠ '0')
      (hdigits : Digits digits) : IsWhole (first :: digits)

inductive IsFraction : List Char → Prop where
  | missing : IsFraction []
  | digits {digits : List Char} (hsome : digits ≠ []) (hdigits : Digits digits) : IsFraction ('.' :: digits)

inductive IsExponent : List Char → Prop where
  | missing : IsExponent []
  | digits {letter : Char} {sign digits : List Char} (hletter : letter ∈ ['e', 'E'])
      (hsign : sign ∈ [[], ['+'], ['-']]) (hsome : digits ≠ []) (hdigits : Digits digits) :
      IsExponent (letter :: (sign ++ digits))

inductive IsNumber : List Char → Prop where
  | parts {sign whole fraction exponent : List Char} (hsign : sign ∈ [[], ['-']]) (hwhole : IsWhole whole)
      (hfraction : IsFraction fraction) (hexponent : IsExponent exponent) :
      IsNumber (sign ++ (whole ++ (fraction ++ exponent)))

-- The letters that may follow a backslash, with what they stand for.
def escapes : List (Char × Char) :=
  [('"', '"'), ('\\', '\\'), ('/', '/'), ('b', '\x08'), ('f', '\x0c'), ('n', '\n'), ('r', '\r'), ('t', '\t')]

def hexDigits : List (Char × Nat) :=
  [('0', 0), ('1', 1), ('2', 2), ('3', 3), ('4', 4), ('5', 5), ('6', 6), ('7', 7), ('8', 8), ('9', 9),
    ('a', 10), ('b', 11), ('c', 12), ('d', 13), ('e', 14), ('f', 15),
    ('A', 10), ('B', 11), ('C', 12), ('D', 13), ('E', 14), ('F', 15)]

-- Four digits make up a 16-bit unit.
inductive IsUnit : List Char → Nat → Prop where
  | digits {first second third fourth : Char} {a b c d : Nat} (hfirst : (first, a) ∈ hexDigits)
      (hsecond : (second, b) ∈ hexDigits) (hthird : (third, c) ∈ hexDigits) (hfourth : (fourth, d) ∈ hexDigits) :
      IsUnit [first, second, third, fourth] (((a * 16 + b) * 16 + c) * 16 + d)

-- A text between its quotes. A unit in it may be half a character.
inductive IsText : List Char → Prop where
  | nil : IsText []
  | plain {char : Char} {text : List Char} (hchar : isPlain char = true) (h : IsText text) : IsText (char :: text)
  | escape {letter char : Char} {text : List Char} (hletter : (letter, char) ∈ escapes) (h : IsText text) :
      IsText ('\\' :: letter :: text)
  | unit {digits text : List Char} {value : Nat} (hunit : IsUnit digits value) (h : IsText text) :
      IsText ('\\' :: 'u' :: (digits ++ text))

-- A text between its quotes, with the characters that it stands for. A character beyond the first 65536 is
-- written as two units, of which the first is one of 1024 and the second one of the 1024 after those.
inductive Spells : List Char → List Char → Prop where
  | nil : Spells [] []
  | plain {char : Char} {text meant : List Char} (hchar : isPlain char = true) (h : Spells text meant) :
      Spells (char :: text) (char :: meant)
  | escape {letter char : Char} {text meant : List Char} (hletter : (letter, char) ∈ escapes)
      (h : Spells text meant) : Spells ('\\' :: letter :: text) (char :: meant)
  | unit {digits text meant : List Char} {value : Nat} (hunit : IsUnit digits value)
      (hvalue : value < 0xD800 ∨ 0xE000 ≤ value) (h : Spells text meant) :
      Spells ('\\' :: 'u' :: (digits ++ text)) (Char.ofNat value :: meant)
  | pair {digits others text meant : List Char} {leading trailing : Nat} (hleading : IsUnit digits (0xD800 + leading))
      (hfirst : leading < 0x400) (htrailing : IsUnit others (0xDC00 + trailing)) (hsecond : trailing < 0x400)
      (h : Spells text meant) :
      Spells ('\\' :: 'u' :: (digits ++ '\\' :: 'u' :: (others ++ text)))
        (Char.ofNat (0x10000 + leading * 0x400 + trailing) :: meant)

def words : List (List Char) :=
  [['n', 'u', 'l', 'l'], ['t', 'r', 'u', 'e'], ['f', 'a', 'l', 's', 'e']]

-- The parts of a text that contain one another. An element is a value with the blanks around it.
inductive Part where
  | value
  | element
  | elements
  | member
  | members

inductive IsJson : Part → List Char → Prop where
  | word {text : List Char} (hword : text ∈ words) : IsJson .value text
  | number {text : List Char} (hnumber : IsNumber text) : IsJson .value text
  | text {text : List Char} (htext : IsText text) : IsJson .value ('"' :: (text ++ ['"']))
  | emptyList {blanks : List Char} (hblanks : Blank blanks) : IsJson .value ('[' :: (blanks ++ [']']))
  | list {elements : List Char} (h : IsJson .elements elements) : IsJson .value ('[' :: (elements ++ [']']))
  | emptyObject {blanks : List Char} (hblanks : Blank blanks) : IsJson .value ('\x7b' :: (blanks ++ ['\x7d']))
  | object {members : List Char} (h : IsJson .members members) : IsJson .value ('\x7b' :: (members ++ ['\x7d']))
  | element {before value after : List Char} (hbefore : Blank before) (h : IsJson .value value)
      (hafter : Blank after) : IsJson .element (before ++ (value ++ after))
  | lastElement {element : List Char} (h : IsJson .element element) : IsJson .elements element
  | nextElement {element elements : List Char} (h : IsJson .element element) (hothers : IsJson .elements elements) :
      IsJson .elements (element ++ ',' :: elements)
  | member {before name between element : List Char} (hbefore : Blank before) (hname : IsText name)
      (hbetween : Blank between) (h : IsJson .element element) :
      IsJson .member (before ++ '"' :: (name ++ '"' :: (between ++ ':' :: element)))
  | lastMember {member : List Char} (h : IsJson .member member) : IsJson .members member
  | nextMember {member members : List Char} (h : IsJson .member member) (hothers : IsJson .members members) :
      IsJson .members (member ++ ',' :: members)

theorem isBlank_of_mem {char : Char} (h : char ∈ [' ', '\t', '\n', '\r']) : isBlank char = true := by
  simpa [isBlank, or_assoc] using h

theorem Blank.nil : Blank [] := by
  simp [Blank]

theorem Blank.isBlank {text : List Char} (h : Blank text) : ∀ char ∈ text, isBlank char = true :=
  fun char hchar => isBlank_of_mem (h char hchar)

theorem Digits.isDigit {text : List Char} (h : Digits text) : ∀ char ∈ text, isDigit char = true :=
  fun char hchar => (isDigit_eq char).trans (h char hchar)

-- A text of characters that stand for themselves.
theorem Spells.of_plain {text : List Char} (h : text.all isPlain = true) : Spells text text := by
  induction text with
  | nil => exact .nil
  | cons char text ih =>
      rw [List.all_cons, Bool.and_eq_true] at h
      exact .plain h.1 (ih h.2)

theorem IsWhole.toDigits (number : Nat) : IsWhole (Nat.toDigits 10 number) := by
  rcases Nat.eq_zero_or_pos number with rfl | hpos
  · exact .zero
  · obtain ⟨first, digits, hdigits⟩ := List.exists_cons_of_ne_nil (Nat.toDigits_ne_nil (n := number) (b := 10))
    have hall : Digits (first :: digits) := by
      rw [← hdigits]
      exact fun char hchar => (isDigit_eq char).symm.trans (isDigit_of_mem_toDigits number hchar)
    have hfirst : digitValue first ≠ 0 := head_toDigits number (Nat.ne_of_gt hpos) _ (by rw [hdigits]; rfl)
    rw [hdigits]
    refine .positive (hall first (.head _)) ?_ fun char hchar => hall char (.tail _ hchar)
    rintro rfl
    exact hfirst rfl

theorem IsWhole.head {text : List Char} (h : IsWhole text) :
    ∃ first digits, text = first :: digits ∧ Json.isDigit first = true ∧ Digits digits := by
  cases h with
  | zero => exact ⟨'0', [], rfl, rfl, by simp [Digits]⟩
  | @positive first digits hfirst _ hdigits => exact ⟨first, digits, rfl, (isDigit_eq first).trans hfirst, hdigits⟩

-- A value starts with a character that is neither blank nor the end of a list.
theorem IsJson.head {text : List Char} (h : IsJson .value text) :
    ∃ char rest, text = char :: rest ∧ isBlank char = false ∧ char ≠ ']' := by
  cases h with
  | word hword =>
      have hwords : ∀ word ∈ words, word.head?.any (fun char => !isBlank char && char != ']') = true := by decide
      have hhead := hwords text hword
      cases text with
      | nil => cases hhead
      | cons char rest => exact ⟨char, rest, rfl, by simpa using hhead⟩
  | number hnumber =>
      cases hnumber with
      | @parts sign whole fraction exponent hsign hwhole =>
          obtain ⟨first, digits, rfl, hfirst, -⟩ := hwhole.head
          simp only [List.mem_cons, List.not_mem_nil, or_false] at hsign
          rcases hsign with rfl | rfl
          · exact ⟨first, _, rfl, isBlank_eq_false hfirst, ne_of_isDigit hfirst rfl⟩
          · exact ⟨'-', _, rfl, rfl, by decide⟩
  | text => exact ⟨_, _, rfl, rfl, by decide⟩
  | emptyList | list => exact ⟨_, _, rfl, rfl, by decide⟩
  | emptyObject | object => exact ⟨_, _, rfl, rfl, by decide⟩

end DeadlineQueue.Json
