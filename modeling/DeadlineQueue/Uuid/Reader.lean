import DeadlineQueue.Json.Mismatch
import DeadlineQueue.Uuid.Basic

namespace DeadlineQueue

namespace Uuid

inductive Failure where
  | invalidCharacter (char : Char) (index : Nat)
  | invalidLength (found : Nat)
  | invalidGroupCount (found : Nat)
  | invalidGroupLength (group expected found : Nat)

def Failure.message : Failure → String
  | invalidCharacter char index =>
    "invalid character: found `" ++ String.singleton char ++ "` at " ++ toString index
  | invalidLength found => "invalid length: found " ++ toString found
  | invalidGroupCount found => "invalid group count: expected 5, found " ++ toString found
  | invalidGroupLength group expected found =>
    "invalid group length in group " ++ toString group ++ ": expected " ++ toString expected ++
      ", found " ++ toString found

def ofDigits? (digits : List Char) : Option Uuid :=
  if digits.length = 32 then
    (digits.mapM Json.hexValue?).map (fun values =>
      ⟨BitVec.ofNat 128 (values.foldl (fun value digit => value * 16 + digit) 0)⟩)
  else none

def ofHyphenated? (chars : List Char) : Option Uuid :=
  let digits := chars.filter (fun char => char ≠ '-')
  if chars = hyphenate digits groupSizes then ofDigits? digits else none

-- The name that may introduce an id, in either case.
def introduction : List Char :=
  "urn:uuid:".toList

-- The text inside braces or after the introduction, and how much comes before it.
def unwrap? (chars : List Char) : Option (List Char × Nat) :=
  match chars with
  | '\x7b' :: inner =>
    if inner.getLast? = some '\x7d' then some (inner.dropLast, 1) else none
  | _ =>
    if (chars.take introduction.length).map Char.toLower = introduction then
      some (chars.drop introduction.length, introduction.length)
    else none

-- Neither a hexadecimal digit nor a hyphen, at so many bytes from the start.
def findStray (offset : Nat) : List Char → Option (Char × Nat)
  | [] => none
  | char :: rest =>
    if char = '-' || (Json.hexValue? char).isSome then findStray (offset + char.utf8Size) rest
    else some (char, offset)

-- The lengths of the groups that hyphens separate.
def groupLengths (chars : List Char) : List Nat :=
  (chars.splitOn '-').map List.length

def wrongGroup : Nat → List Nat → List Nat → Option (Nat × Nat × Nat)
  | group, expected :: sizes, found :: lengths =>
    if expected = found then wrongGroup (group + 1) sizes lengths else some (group, expected, found)
  | _, _, _ => none

-- The part of a text in which digits are looked for, the position its first byte counts as, and
-- whether it has to be bare digits.
structure Body where
  chars : List Char
  start : Nat
  bare : Bool

-- A text as long as groups without a wrapping stands for itself, whatever it begins with.
-- Groups of the right length are counted from their own start, also when they are wrapped.
def Body.ofChars (chars : List Char) : Body :=
  if Json.byteCount chars = 36 then { chars, start := 0, bare := false }
  else
    match unwrap? chars with
    | none => { chars, start := 0, bare := true }
    | some (inner, start) =>
      { chars := inner, start := if Json.byteCount inner = 36 then 0 else start, bare := false }

-- The bytes of the longest written form, which is the one with an introduction.
def longest : Nat := 45

-- Why a text is no id. A text that is too long for any form is not looked into. The last group
-- is measured to the end of the whole text.
def diagnose (chars : List Char) : Failure :=
  let body := Body.ofChars chars
  if longest < Json.byteCount chars then .invalidLength (Json.byteCount chars)
  else
    match findStray body.start body.chars with
    | some (char, index) => .invalidCharacter char index
    | none =>
      let lengths := groupLengths body.chars
      if lengths.length = 1 && body.bare then .invalidLength (Json.byteCount chars)
      else if lengths.length ≠ 5 then .invalidGroupCount lengths.length
      else
        match wrongGroup 0 (groupSizes.take 4) lengths with
        | some (group, expected, found) => .invalidGroupLength group expected found
        | none => .invalidGroupLength 4 12 (chars.length - 24)

-- Hexadecimal digits in either case: bare, in hyphenated groups, or the latter in braces or
-- after the introduction.
def ofText? (text : String) : Except Failure Uuid :=
  let body := Body.ofChars text.toList
  match if body.bare then ofDigits? body.chars else ofHyphenated? body.chars with
  | some uuid => .ok uuid
  | none => .error (diagnose text.toList)

def ofJson? (text : String) : Except Json.Failure Uuid :=
  let cursor := (Json.Cursor.ofText text).skipBlank
  match cursor.rest with
  | [] => .error (cursor.faultAhead (.truncated .value))
  | '"' :: _ => do
    let (inner, after) ← cursor.next.readText
    match ofText? inner with
    | .error failure => throw (after.fault (.refused ("UUID parsing failed: " ++ failure.message)))
    | .ok uuid =>
      after.finish
      return uuid
  | _ => .error (cursor.mismatch "a formatted UUID string")

end Uuid

end DeadlineQueue
