import DeadlineQueue.Json.Mismatch
import DeadlineQueue.Outcome

namespace DeadlineQueue

def Outcome.toJson (outcome : Outcome) : String :=
  "\"" ++ outcome.variant ++ "\""

namespace Json

def Cursor.readVariant (cursor : Cursor) : Except Failure (Outcome × Cursor) := do
  let (name, after) ← cursor.next.readText
  match Outcome.ofVariant? name with
  | none => throw (after.fault (.unknownVariant name (Outcome.all.map Outcome.variant)))
  | some outcome => return (outcome, after)

def Cursor.readNull (cursor : Cursor) : Except Failure Cursor :=
  let cursor := cursor.skipBlank
  match cursor.rest with
  | [] => .error (cursor.faultAhead (.truncated .value))
  | 'n' :: _ => cursor.next.readWord ['u', 'l', 'l']
  | _ => .error (cursor.mismatch "unit")

-- The name of an outcome, or an object with that name as its one key and null as its value.
def Cursor.readOutcome (cursor : Cursor) : Except Failure (Outcome × Cursor) :=
  let cursor := cursor.skipBlank
  match cursor.rest with
  | [] => .error (cursor.faultAhead (.truncated .value))
  | '"' :: _ => cursor.readVariant
  | '\x7b' :: _ =>
    let cursor := cursor.next.skipBlank
    match cursor.rest with
    | [] => .error (cursor.faultAhead (.truncated .object))
    | '"' :: _ => do
      let (outcome, after) ← cursor.readVariant
      let after := (← (← after.readColon).readNull).skipBlank
      match after.rest with
      | [] => throw (after.fault (.truncated .object))
      | '\x7d' :: _ => return (outcome, after.next)
      | _ => throw (after.fault .expectedValue)
    | '\x7d' :: _ => .error (cursor.faultAhead .expectedValue)
    | _ => .error (cursor.faultAhead .keyNotText)
  | _ => .error (cursor.faultAhead .expectedValue)

end Json

def Outcome.ofJson? (text : String) : Except Json.Failure Outcome := do
  let (outcome, after) ← (Json.Cursor.ofText text).readOutcome
  after.finish
  return outcome

end DeadlineQueue
