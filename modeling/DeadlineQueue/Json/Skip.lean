import DeadlineQueue.Json.Text

namespace DeadlineQueue.Json

inductive Nest where
  | list
  | object
  deriving DecidableEq

def Nest.whole : Nest → Whole
  | list => .list
  | object => .object

def Nest.comma : Nest → Cause
  | list => .expectedListComma
  | object => .expectedObjectComma

-- Where a reader stands that passes over a value of no interest.
inductive Mode where
  | value
  | firstValue
  | firstKey
  | key
  | colon
  | done
  | word (letters : List Char)
  | sign
  | zero
  | digits
  | point
  | fraction
  | exponent
  | exponentSign
  | exponentDigits
  | text (key : Bool)
  | escape (key : Bool)
  | hex (key : Bool) (seen : Nat)

-- What one character does: it belongs to the value, it ends the value, it comes after the value,
-- or it is wrong, with so many of its bytes counted as read.
inductive Passage where
  | into (mode : Mode) (nests : List Nest)
  | last
  | beyond
  | wrong (cause : Cause) (bytes : Nat)

-- After a value: a comma, the end of the enclosing one, or nothing of concern.
def passDone (nests : List Nest) (char : Char) : Passage :=
  match nests with
  | [] => .beyond
  | nest :: outer =>
    if isBlank char then .into .done nests
    else if char = ',' then .into (match nest with | .list => .value | .object => .key) nests
    else if char = (match nest with | .list => ']' | .object => '\x7d') then
      (if outer.isEmpty then .last else .into .done outer)
    else .wrong nest.comma 1

def passValue (nests : List Nest) (char : Char) : Passage :=
  if isBlank char then .into .value nests
  else if char = 'n' then .into (.word ['u', 'l', 'l']) nests
  else if char = 't' then .into (.word ['r', 'u', 'e']) nests
  else if char = 'f' then .into (.word ['a', 'l', 's', 'e']) nests
  else if char = '-' then .into .sign nests
  else if char = '0' then .into .zero nests
  else if isDigit char then .into .digits nests
  else if char = '"' then .into (.text false) nests
  else if char = '[' then .into .firstValue (.list :: nests)
  else if char = '\x7b' then .into .firstKey (.object :: nests)
  else .wrong .expectedValue 1

def passKey (mode : Mode) (nests : List Nest) (char : Char) : Passage :=
  if isBlank char then .into mode nests
  else if char = '"' then .into (.text true) nests
  else .wrong .keyNotText 1

-- A text inside a value ends the value unless it is a key or something encloses it.
def closeText (key : Bool) (nests : List Nest) : Passage :=
  if key then .into .colon nests else if nests.isEmpty then .last else .into .done nests

def passExponent (nests : List Nest) (char : Char) : Passage :=
  if isDigit char then .into .exponentDigits nests else .wrong .invalidNumber 1

def pass (mode : Mode) (nests : List Nest) (char : Char) : Passage :=
  match mode with
  | .value => passValue nests char
  | .firstValue =>
    if isBlank char then .into .firstValue nests
    else if char = ']' then passDone nests char
    else passValue nests char
  | .firstKey => if char = '\x7d' then passDone nests char else passKey mode nests char
  | .key => passKey mode nests char
  | .colon =>
    if isBlank char then .into .colon nests
    else if char = ':' then .into .value nests
    else .wrong .expectedColon 1
  | .done => passDone nests char
  | .word [] => passDone nests char
  | .word (letter :: letters) =>
    if char = letter then
      (if letters.isEmpty && nests.isEmpty then .last
        else .into (if letters.isEmpty then .done else .word letters) nests)
    else .wrong .expectedWord 1
  | .sign =>
    if char = '0' then .into .zero nests
    else if isDigit char then .into .digits nests
    else .wrong .invalidNumber 1
  | .zero | .digits =>
    if isDigit char then
      (match mode with | .zero => .wrong .invalidNumber 1 | _ => .into .digits nests)
    else if char = '.' then .into .point nests
    else if char = 'e' || char = 'E' then .into .exponent nests
    else passDone nests char
  | .point => if isDigit char then .into .fraction nests else .wrong .invalidNumber 1
  | .fraction =>
    if isDigit char then .into .fraction nests
    else if char = 'e' || char = 'E' then .into .exponent nests
    else passDone nests char
  | .exponent => if char = '+' || char = '-' then .into .exponentSign nests else passExponent nests char
  | .exponentSign => passExponent nests char
  | .exponentDigits => if isDigit char then .into .exponentDigits nests else passDone nests char
  | .text key =>
    if char = '"' then closeText key nests
    else if char = '\\' then .into (.escape key) nests
    else if char.toNat < 32 then .wrong .controlCharacter 0
    else .into (.text key) nests
  | .escape key =>
    if char = 'u' then .into (.hex key 0) nests
    else if (simpleEscape? char).isSome then .into (.text key) nests
    else .wrong .invalidEscape 1
  | .hex key seen =>
    if (hexValue? char).isSome then .into (if seen < 3 then .hex key (seen + 1) else .text key) nests
    else .wrong .invalidEscape 0

-- The end of the whole text.
def passEnd (mode : Mode) (nests : List Nest) (offset : Nat) : Except Failure Cursor :=
  let unclosed : Except Failure Cursor :=
    match nests with
    | [] => .ok { rest := [], offset }
    | nest :: _ => .error { cause := .truncated nest.whole, offset }
  match mode with
  | .value | .word _ => .error { cause := .truncated .value, offset }
  | .firstValue | .firstKey | .done | .zero | .digits | .fraction | .exponentDigits => unclosed
  | .key | .colon => .error { cause := .truncated .object, offset }
  | .sign | .point | .exponent | .exponentSign => .error { cause := .invalidNumber, offset }
  | .text _ | .escape _ | .hex _ _ => .error { cause := .truncated .text, offset }

-- Where the value at the cursor ends. Halves of characters need not pair up in it.
def skip : Mode → List Nest → List Char → Nat → Except Failure Cursor
  | mode, nests, [], offset => passEnd mode nests offset
  | mode, nests, char :: rest, offset =>
    match pass mode nests char with
    | .into next nests => skip next nests rest (offset + char.utf8Size)
    | .last => .ok { rest, offset := offset + char.utf8Size }
    | .beyond => .ok { rest := char :: rest, offset }
    | .wrong cause bytes =>
      match mode with
      | .hex _ seen => .error (hexFault seen (char :: rest) offset)
      | _ => .error { cause, offset := offset + bytes }

def Cursor.skipValue (cursor : Cursor) : Except Failure Cursor :=
  skip .value [] cursor.rest cursor.offset

end DeadlineQueue.Json
