import DeadlineQueue.Json.Failure

namespace DeadlineQueue.Json

-- The text that is left, and the number of bytes before it.
structure Cursor where
  rest : List Char
  offset : Nat

def isBlank (char : Char) : Bool :=
  char = ' ' || char = '\t' || char = '\n' || char = '\r'

def isDigit (char : Char) : Bool :=
  '0' ≤ char && char ≤ '9'

def digitValue (char : Char) : Nat :=
  char.toNat - 48

def hexValue? (char : Char) : Option Nat :=
  if isDigit char then some (digitValue char)
  else if 'a' ≤ char && char ≤ 'f' then some (char.toNat - 87)
  else if 'A' ≤ char && char ≤ 'F' then some (char.toNat - 55)
  else none

def byteCount (chars : List Char) : Nat :=
  chars.foldl (fun count char => count + char.utf8Size) 0

namespace Cursor

def ofText (text : String) : Cursor :=
  { rest := text.toList, offset := 0 }

def next (cursor : Cursor) : Cursor :=
  match cursor.rest with
  | [] => cursor
  | char :: rest => { rest, offset := cursor.offset + char.utf8Size }

-- Blanks are one byte each.
def skipBlank (cursor : Cursor) : Cursor :=
  { rest := cursor.rest.dropWhile isBlank
    offset := cursor.offset + (cursor.rest.takeWhile isBlank).length }

-- The run of digits at the cursor, and what follows it.
def digits (cursor : Cursor) : List Nat × Cursor :=
  let run := cursor.rest.takeWhile isDigit
  (run.map digitValue, { rest := cursor.rest.dropWhile isDigit, offset := cursor.offset + run.length })

-- A failure at the cursor.
def fault (cursor : Cursor) (cause : Cause) : Failure :=
  { cause, offset := cursor.offset }

-- A failure of what is just ahead. It is counted past its first byte, if there is one.
def faultAhead (cursor : Cursor) (cause : Cause) : Failure :=
  { cause, offset := cursor.offset + (if cursor.rest.isEmpty then 0 else 1) }

-- The letters of a word that is known from its first one.
def readWord : List Char → Cursor → Except Failure Cursor
  | [], cursor => .ok cursor
  | letter :: letters, cursor =>
    match cursor.rest with
    | [] => .error (cursor.fault (.truncated .value))
    | char :: _ =>
      if char = letter then readWord letters cursor.next
      else .error (cursor.faultAhead .expectedWord)

def readColon (cursor : Cursor) : Except Failure Cursor :=
  let cursor := cursor.skipBlank
  match cursor.rest with
  | [] => .error (cursor.faultAhead (.truncated .object))
  | ':' :: _ => .ok cursor.next
  | _ => .error (cursor.faultAhead .expectedColon)

-- Nothing but blanks may follow the value of a whole text.
def finish (cursor : Cursor) : Except Failure Unit :=
  let cursor := cursor.skipBlank
  match cursor.rest with
  | [] => .ok ()
  | _ => .error (cursor.faultAhead .trailingCharacters)

end Cursor

end DeadlineQueue.Json
