import DeadlineQueue.Decimal.Notation
import DeadlineQueue.Text.Quoted

namespace DeadlineQueue.Json

inductive Whole where
  | value
  | list
  | object
  | text
  deriving DecidableEq

def Whole.name : Whole → String
  | value => "a value"
  | list => "a list"
  | object => "an object"
  | text => "a string"

-- What stands in the place of a value that was expected to be of another kind.
inductive Found where
  | null
  | boolean (value : Bool)
  | natural (value : Nat)
  | negative (size : Nat)
  | real (signed : Bool) (magnitude : Magnitude)
  | text (value : String)
  | sequence
  | map

def Found.name : Found → String
  | null => "null"
  | boolean value => "boolean `" ++ toString value ++ "`"
  | natural value => "integer `" ++ toString value ++ "`"
  | negative size => "integer `-" ++ toString size ++ "`"
  | real signed magnitude => "floating point `" ++ Decimal.Style.plain.text signed magnitude ++ "`"
  | text value => "string " ++ Text.quoted value
  | sequence => "sequence"
  | map => "map"

inductive Cause where
  | truncated (whole : Whole)
  | expectedValue
  | expectedWord
  | expectedColon
  | expectedListComma
  | expectedObjectComma
  | trailingComma
  | trailingCharacters
  | keyNotText
  | invalidNumber
  | numberOutOfRange
  | invalidEscape
  | controlCharacter
  | loneSurrogate
  | brokenSurrogatePair
  | wrongType (found : Found) (expected : String)
  | wrongValue (found : Found) (expected : String)
  | duplicateField (name : String)
  | unknownVariant (name : String) (known : List String)
  | refused (text : String)

-- Text that is no JSON, JSON that is not what was asked for, and text that ends too early.
inductive Category where
  | malformed
  | unsuitable
  | truncated
  deriving DecidableEq

namespace Cause

def category : Cause → Category
  | truncated _ => .truncated
  | wrongType _ _ | wrongValue _ _ | duplicateField _ | unknownVariant _ _ | refused _ => .unsuitable
  | _ => .malformed

def message : Cause → String
  | truncated whole => "EOF while parsing " ++ whole.name
  | expectedValue => "expected value"
  | expectedWord => "expected ident"
  | expectedColon => "expected `:`"
  | expectedListComma => "expected `,` or `]`"
  | expectedObjectComma => "expected `,` or `\x7d`"
  | trailingComma => "trailing comma"
  | trailingCharacters => "trailing characters"
  | keyNotText => "key must be a string"
  | invalidNumber => "invalid number"
  | numberOutOfRange => "number out of range"
  | invalidEscape => "invalid escape"
  | controlCharacter => "control character (\\u0000-\\u001F) found while parsing a string"
  | loneSurrogate => "lone leading surrogate in hex escape"
  | brokenSurrogatePair => "unexpected end of hex escape"
  | wrongType found expected => "invalid type: " ++ found.name ++ ", expected " ++ expected
  | wrongValue found expected => "invalid value: " ++ found.name ++ ", expected " ++ expected
  | duplicateField name => "duplicate field `" ++ name ++ "`"
  | unknownVariant name known =>
    "unknown variant `" ++ name ++ "`, expected one of " ++
      String.intercalate ", " (known.map (fun variant => "`" ++ variant ++ "`"))
  | refused text => text

end Cause

-- A cause and the number of bytes before the place that is to blame.
structure Failure where
  cause : Cause
  offset : Nat

-- Lines count from one. Columns count the bytes of the line before the place.
structure Position where
  line : Nat
  column : Nat
  deriving DecidableEq

def Position.after (position : Position) : List Char → Nat → Position
  | [], _ => position
  | char :: rest, offset =>
    if offset < char.utf8Size then { position with column := position.column + offset }
    else if char = '\n' then after { line := position.line + 1, column := 0 } rest (offset - 1)
    else after { position with column := position.column + char.utf8Size } rest (offset - char.utf8Size)

def Failure.position (failure : Failure) (text : String) : Position :=
  Position.after { line := 1, column := 0 } text.toList failure.offset

def Failure.message (failure : Failure) (text : String) : String :=
  let position := failure.position text
  failure.cause.message ++ " at line " ++ toString position.line ++ " column " ++ toString position.column

end DeadlineQueue.Json
