import DeadlineQueue.Json.Text

namespace DeadlineQueue.Json

-- The key of the next member, or none at the end of the object.
def Cursor.readKey (cursor : Cursor) (first : Bool) : Except Failure (Option String × Cursor) :=
  let cursor := cursor.skipBlank
  let key (cursor : Cursor) : Except Failure (Option String × Cursor) :=
    match cursor.rest with
    | [] => .error (cursor.faultAhead (.truncated .value))
    | '"' :: _ => (cursor.next.readText).map (fun read => (some read.1, read.2))
    | '\x7d' :: _ => .error (cursor.faultAhead .trailingComma)
    | _ => .error (cursor.faultAhead .keyNotText)
  match cursor.rest with
  | [] => .error (cursor.faultAhead (.truncated .object))
  | char :: _ =>
    if char = '\x7d' then .ok (none, cursor.next)
    else if first then key cursor
    else if char = ',' then key cursor.next.skipBlank
    else .error (cursor.faultAhead .expectedObjectComma)

-- A field that comes twice is noticed before its value is read. The failure stands behind the
-- end of the object, if that is what follows.
def Cursor.duplicate (cursor : Cursor) (name : String) : Failure :=
  let after := cursor.skipBlank
  (if after.rest.head? = some '\x7d' then after.next else after).fault (.duplicateField name)

end DeadlineQueue.Json
