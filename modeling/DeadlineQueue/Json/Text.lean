import DeadlineQueue.Json.Cursor

namespace DeadlineQueue.Json

-- Where a reader stands inside a quoted text. A character beyond the first 65536 is written as
-- two halves, a leading and a trailing one.
inductive TextState where
  | plain
  | escape
  | hex (seen value : Nat) (leading : Option Nat)
  | pairMark (leading : Nat)
  | pairLetter (leading : Nat)

def simpleEscape? : Char → Option Char
  | '"' => some '"'
  | '\\' => some '\\'
  | '/' => some '/'
  | 'b' => some '\x08'
  | 'f' => some '\x0c'
  | 'n' => some '\n'
  | 'r' => some '\r'
  | 't' => some '\t'
  | _ => none

-- Four bytes are taken for a number before they are looked at.
def hexFault (seen : Nat) (rest : List Char) (offset : Nat) : Failure :=
  if byteCount rest < 4 - seen then { cause := .truncated .text, offset := offset + byteCount rest }
  else { cause := .invalidEscape, offset := offset + (4 - seen) }

def isLeading (unit : Nat) : Bool :=
  55296 ≤ unit && unit < 56320

def isTrailing (unit : Nat) : Bool :=
  56320 ≤ unit && unit < 57344

def joinPair (leading trailing : Nat) : Char :=
  Char.ofNat (65536 + (leading - 55296) * 1024 + (trailing - 56320))

-- The text up to its closing quote, of which the characters read so far are given in reverse.
def readText : TextState → List Char → List Char → Nat → Except Failure (String × Cursor)
  | _, _, [], offset => .error { cause := .truncated .text, offset }
  | .plain, read, char :: rest, offset =>
    if char = '"' then .ok (String.ofList read.reverse, { rest, offset := offset + 1 })
    else if char = '\\' then readText .escape read rest (offset + 1)
    else if char.toNat < 32 then .error { cause := .controlCharacter, offset := offset + 1 }
    else readText .plain (char :: read) rest (offset + char.utf8Size)
  | .escape, read, char :: rest, offset =>
    if char = 'u' then readText (.hex 0 0 none) read rest (offset + 1)
    else
      match simpleEscape? char with
      | some meant => readText .plain (meant :: read) rest (offset + 1)
      | none => .error { cause := .invalidEscape, offset := offset + 1 }
  | .hex seen value leading, read, char :: rest, offset =>
    match hexValue? char with
    | none => .error (hexFault seen (char :: rest) offset)
    | some digit =>
      let unit := value * 16 + digit
      if seen < 3 then readText (.hex (seen + 1) unit leading) read rest (offset + 1)
      else
        match leading with
        | none =>
          if isTrailing unit then .error { cause := .loneSurrogate, offset := offset + 1 }
          else if isLeading unit then readText (.pairMark unit) read rest (offset + 1)
          else readText .plain (Char.ofNat unit :: read) rest (offset + 1)
        | some first =>
          if isTrailing unit then readText .plain (joinPair first unit :: read) rest (offset + 1)
          else .error { cause := .loneSurrogate, offset := offset + 1 }
  | .pairMark leading, read, char :: rest, offset =>
    if char = '\\' then readText (.pairLetter leading) read rest (offset + 1)
    else .error { cause := .brokenSurrogatePair, offset := offset + 1 }
  | .pairLetter leading, read, char :: rest, offset =>
    if char = 'u' then readText (.hex 0 0 (some leading)) read rest (offset + 1)
    else .error { cause := .brokenSurrogatePair, offset := offset + 1 }

def Cursor.readText (cursor : Cursor) : Except Failure (String × Cursor) :=
  Json.readText .plain [] cursor.rest cursor.offset

end DeadlineQueue.Json
