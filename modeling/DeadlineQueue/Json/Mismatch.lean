import DeadlineQueue.Json.Number
import DeadlineQueue.Json.Text

namespace DeadlineQueue.Json

-- The failure for a value of the wrong kind. A single value is read to be shown, and its own
-- failure goes first; a list or an object is not.
def Cursor.mismatch (cursor : Cursor) (expected : String) : Failure :=
  let word (letters : List Char) (found : Found) : Failure :=
    match cursor.next.readWord letters with
    | .error failure => failure
    | .ok after => after.fault (.wrongType found expected)
  let number (start : Cursor) (negative : Bool) : Failure :=
    match start.readNumber negative with
    | .error failure => failure
    | .ok (number, after) => after.fault (.wrongType number.found expected)
  match cursor.rest with
  | [] => cursor.faultAhead .expectedValue
  | char :: _ =>
    if char = 'n' then word ['u', 'l', 'l'] .null
    else if char = 't' then word ['r', 'u', 'e'] (.boolean true)
    else if char = 'f' then word ['a', 'l', 's', 'e'] (.boolean false)
    else if char = '-' then number cursor.next true
    else if isDigit char then number cursor false
    else if char = '"' then
      match cursor.next.readText with
      | .error failure => failure
      | .ok (text, after) => after.fault (.wrongType (.text text) expected)
    else if char = '[' then cursor.fault (.wrongType .sequence expected)
    else if char = '\x7b' then cursor.fault (.wrongType .map expected)
    else cursor.faultAhead .expectedValue

end DeadlineQueue.Json
