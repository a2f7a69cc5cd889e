import DeadlineQueue.Json.List
import DeadlineQueue.Json.Mismatch
import DeadlineQueue.Json.Object
import DeadlineQueue.Json.Skip
import DeadlineQueue.Limits

namespace DeadlineQueue

namespace Limits

inductive Field where
  | wait
  | processing
  deriving DecidableEq

def Field.name : Field → String
  | wait => "max_enqueue_wait"
  | processing => "max_processing_duration"

def Field.ofName? (name : String) : Option Field :=
  [wait, processing].find? (fun field => field.name = name)

-- A stored limit is a number of nanoseconds in 64 bits. A longer one is stored as the longest.
def storedLimit : Option Duration → String
  | none => "null"
  | some limit => toString (min limit (Json.wordLimit - 1))

def toJson (limits : Limits) : String :=
  "\x7b\"" ++ Field.wait.name ++ "\":" ++ storedLimit limits.wait ++ ",\"" ++
    Field.processing.name ++ "\":" ++ storedLimit limits.processing ++ "\x7d"

end Limits

namespace Json

-- Null or a number of nanoseconds.
def Cursor.readLimit (cursor : Cursor) : Except Failure (Option Duration × Cursor) :=
  let cursor := cursor.skipBlank
  let number (start : Cursor) (negative : Bool) : Except Failure (Option Duration × Cursor) :=
    match start.readNumber negative with
    | .error failure => .error failure
    | .ok (.natural value, after) => .ok (some value, after)
    | .ok (.negative size, after) => .error (after.fault (.wrongValue (.negative size) "u64"))
    | .ok (.real negative magnitude, after) =>
      .error (after.fault (.wrongType (.real negative magnitude) "u64"))
  match cursor.rest with
  | [] => .error (cursor.faultAhead (.truncated .value))
  | char :: _ =>
    if char = 'n' then (cursor.next.readWord ['u', 'l', 'l']).map (fun after => (none, after))
    else if char = '-' then number cursor.next true
    else if isDigit char then number cursor false
    else .error (cursor.mismatch "u64")

-- The limits that have been read, each at most once.
structure LimitsDraft where
  wait : Option (Option Duration) := none
  processing : Option (Option Duration) := none

namespace LimitsDraft

def get (draft : LimitsDraft) : Limits.Field → Option (Option Duration)
  | .wait => draft.wait
  | .processing => draft.processing

def set (draft : LimitsDraft) (limit : Option Duration) : Limits.Field → LimitsDraft
  | .wait => { draft with wait := some limit }
  | .processing => { draft with processing := some limit }

def limits (draft : LimitsDraft) : Limits :=
  { wait := draft.wait.getD none, processing := draft.processing.getD none }

end LimitsDraft

-- The members of an object. Each of them takes at least a character, which bounds their number.
def readMembers : Nat → Bool → LimitsDraft → Cursor → Except Failure (Limits × Cursor)
  | 0, _, _, cursor => .error (cursor.fault (.truncated .object))
  | bound + 1, first, draft, cursor => do
    match ← cursor.readKey first with
    | (none, after) => return (draft.limits, after)
    | (some name, after) =>
      match Limits.Field.ofName? name with
      | none => readMembers bound false draft (← (← after.readColon).skipValue)
      | some field =>
        if (draft.get field).isSome then throw (after.duplicate name)
        else
          let (limit, after) ← (← after.readColon).readLimit
          readMembers bound false (draft.set limit field) after

-- A limit, unless the list has ended.
def Cursor.readElement (cursor : Cursor) (first : Bool) : Except Failure (Option Duration × Cursor) := do
  match ← cursor.toElement first with
  | none => return (none, cursor)
  | some element => element.readLimit

-- The limits by name in an object, or in order in a list. A missing one is not set.
def Cursor.readLimits (cursor : Cursor) : Except Failure (Limits × Cursor) :=
  let cursor := cursor.skipBlank
  match cursor.rest with
  | [] => .error (cursor.faultAhead (.truncated .value))
  | '[' :: _ => do
    let (wait, afterWait) ← cursor.next.readElement true
    let (processing, afterProcessing) ← afterWait.readElement false
    return ({ wait, processing }, ← afterProcessing.closeList)
  | '\x7b' :: rest => readMembers (rest.length + 1) true {} cursor.next
  | _ => .error (cursor.mismatch "struct QueueOptions")

end Json

def Limits.ofJson? (text : String) : Except Json.Failure Limits := do
  let (limits, after) ← (Json.Cursor.ofText text).readLimits
  after.finish
  return limits

end DeadlineQueue
