import DeadlineQueue.Json.Cursor

namespace DeadlineQueue.Json

-- A negative integer is given by its size, which is not zero.
inductive Number where
  | natural (value : Nat)
  | negative (size : Nat)
  | real (signed : Bool) (magnitude : Magnitude)

def Number.found : Number → Found
  | natural value => .natural value
  | negative size => .negative size
  | real signed magnitude => .real signed magnitude

-- The first number that 64 bits do not hold.
def wordLimit : Nat := 18446744073709551616

-- Takes digits as long as the number fits 64 bits, and gives the digits that are left.
def absorb : Nat → List Nat → Nat × List Nat
  | significand, [] => (significand, [])
  | significand, digit :: digits =>
    if significand * 10 + digit < wordLimit then absorb (significand * 10 + digit) digits
    else (significand, digit :: digits)

-- A power of ten as binary64 holds it.
def powerOfTen (exponent : Nat) : Rat :=
  match Magnitude.nearest? (Nat.pow 10 exponent : Nat) with
  | none => 0
  | some magnitude => magnitude.value

-- Scales by a power of ten in one rounded step. Powers beyond the format are left to further
-- steps, or are too large for it.
def scale (magnitude : Magnitude) (exponent : Int) : Option Magnitude :=
  if exponent.natAbs ≤ 308 then
    if 0 ≤ exponent then Magnitude.nearest? (magnitude.value * powerOfTen exponent.natAbs)
    else Magnitude.nearest? (magnitude.value / powerOfTen exponent.natAbs)
  else if magnitude.significand = 0 then some magnitude
  else if 0 ≤ exponent then none
  else
    match Magnitude.nearest? (magnitude.value / powerOfTen 308) with
    | none => none
    | some smaller => scale smaller (exponent + 308)
termination_by exponent.natAbs

def readReal (negative : Bool) (significand : Nat) (exponent : Int) (cursor : Cursor) :
    Except Failure (Number × Cursor) :=
  match (Magnitude.nearest? significand).bind (fun magnitude => scale magnitude exponent) with
  | none => .error (cursor.fault .numberOutOfRange)
  | some magnitude => .ok (.real negative magnitude, cursor)

-- An exponent is held in 32 bits with a sign. Of one that is too large, only the number of
-- digits up to the one that made it so is given.
def readExponentDigits : Nat → Nat → List Nat → Except Nat Nat
  | exponent, _, [] => .ok exponent
  | exponent, count, digit :: digits =>
    if exponent * 10 + digit ≤ 2147483647 then readExponentDigits (exponent * 10 + digit) (count + 1) digits
    else .error (count + 1)

def clampExponent (exponent : Int) : Int :=
  max (-2147483648) (min 2147483647 exponent)

-- The part after the letter of the exponent.
def readExponent (negative : Bool) (significand : Nat) (exponent : Int) (cursor : Cursor) :
    Except Failure (Number × Cursor) :=
  let (shrinks, start) :=
    match cursor.rest with
    | '+' :: _ => (false, cursor.next)
    | '-' :: _ => (true, cursor.next)
    | _ => (false, cursor)
  let (digits, after) := start.digits
  if digits.isEmpty then
    .error (if start.rest.isEmpty then start.fault (.truncated .value) else start.faultAhead .invalidNumber)
  else
    match readExponentDigits 0 0 digits with
    | .error count =>
      if significand ≠ 0 && !shrinks then
        .error { cause := .numberOutOfRange, offset := start.offset + count }
      else .ok (.real negative { significand := 0, exponent := Magnitude.leastExponent }, after)
    | .ok shift =>
      let exponent := if shrinks then exponent - shift else exponent + shift
      readReal negative significand (clampExponent exponent) after

-- The part after the point.
def readFraction (negative : Bool) (significand : Nat) (exponent : Int) (cursor : Cursor) :
    Except Failure (Number × Cursor) :=
  let (digits, after) := cursor.digits
  if digits.isEmpty then
    .error (cursor.faultAhead (if cursor.rest.isEmpty then .truncated .value else .invalidNumber))
  else
    let (longer, left) := absorb significand digits
    let lower := exponent - (digits.length - left.length : Nat)
    match after.rest with
    | 'e' :: _ | 'E' :: _ => readExponent negative longer lower after.next
    | _ => readReal negative longer lower after

-- A whole number that 64 bits hold is exact. Minus zero and what a signed number does not hold
-- is real.
def wholeNumber (negative : Bool) (size : Nat) : Number :=
  if !negative then .natural size
  else if size = 0 || 9223372036854775808 < size then
    .real true ((Magnitude.nearest? size).getD { significand := 0, exponent := Magnitude.leastExponent })
  else .negative size

-- A number whose sign has been read.
def Cursor.readNumber (cursor : Cursor) (negative : Bool) : Except Failure (Number × Cursor) :=
  let (digits, after) := cursor.digits
  match digits with
  | [] =>
    .error
      (if cursor.rest.isEmpty then cursor.fault (.truncated .value)
      else cursor.faultAhead .invalidNumber)
  | first :: others =>
    if first = 0 && !others.isEmpty then .error { cause := .invalidNumber, offset := cursor.offset + 2 }
    else
      let (significand, left) := absorb 0 digits
      match after.rest with
      | '.' :: _ => readFraction negative significand left.length after.next
      | 'e' :: _ | 'E' :: _ => readExponent negative significand left.length after.next
      | _ =>
        if left.isEmpty then .ok (wholeNumber negative significand, after)
        else readReal negative significand left.length after

end DeadlineQueue.Json
