import DeadlineQueue.Json.Cursor

namespace DeadlineQueue.Json

-- Where the next element of a list starts, or none at its end.
def Cursor.toElement (cursor : Cursor) (first : Bool) : Except Failure (Option Cursor) :=
  let cursor := cursor.skipBlank
  match cursor.rest with
  | [] => .error (cursor.faultAhead (.truncated .list))
  | char :: _ =>
    if char = ']' then .ok none
    else if first then .ok (some cursor)
    else if char = ',' then
      let cursor := cursor.next.skipBlank
      match cursor.rest with
      | [] => .error (cursor.faultAhead (.truncated .value))
      | ']' :: _ => .error (cursor.faultAhead .trailingComma)
      | _ => .ok (some cursor)
    else .error (cursor.faultAhead .expectedListComma)

-- The end of a list of which no more elements are wanted.
def Cursor.closeList (cursor : Cursor) : Except Failure Cursor :=
  let cursor := cursor.skipBlank
  match cursor.rest with
  | [] => .error (cursor.faultAhead (.truncated .list))
  | ']' :: _ => .ok cursor.next
  | ',' :: _ =>
    let cursor := cursor.next.skipBlank
    .error (cursor.faultAhead (if cursor.rest.head? = some ']' then .trailingComma else .trailingCharacters))
  | _ => .error (cursor.faultAhead .trailingCharacters)

end DeadlineQueue.Json
