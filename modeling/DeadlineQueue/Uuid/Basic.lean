namespace DeadlineQueue

-- A 128-bit id.
structure Uuid where
  value : BitVec 128
  deriving DecidableEq

namespace Uuid

def groupSizes : List Nat := [8, 4, 4, 4, 12]

-- All digits of a group size at a time, with a hyphen between the groups.
def hyphenate (digits : List Char) : List Nat → List Char
  | [] => digits
  | [_] => digits
  | size :: sizes => digits.take size ++ '-' :: hyphenate (digits.drop size) sizes

def digits (uuid : Uuid) : List Char :=
  let digits := Nat.toDigits 16 uuid.value.toNat
  List.replicate (32 - digits.length) '0' ++ digits

def text (uuid : Uuid) : String :=
  String.ofList (hyphenate uuid.digits groupSizes)

-- The text of an id as the id of a message.
def idText (uuid : Uuid) : String :=
  "MessageId(" ++ uuid.text ++ ")"

def toJson (uuid : Uuid) : String :=
  "\"" ++ uuid.text ++ "\""

-- The ids of version 4 leave 122 bits free: 48 before the version, 12 between it and the variant,
-- and 62 after that.
def ofSerial (serial : Nat) : Uuid :=
  let low := serial % 4611686018427387904
  let middle := serial / 4611686018427387904 % 4096
  let high := serial / 4611686018427387904 / 4096
  ⟨BitVec.ofNat 128 (((high * 16 + 4) * 4096 + middle) * 18446744073709551616 + 9223372036854775808 + low)⟩

-- So many ids, each another one.
def fresh (count : Nat) : List Uuid :=
  (List.range count).map ofSerial

-- Whether a text is the 36 characters of an id of version 4.
def isVersionFour (text : String) : Bool :=
  let chars := text.toList
  chars.length = 36 && chars[14]? = some '4' &&
    (chars[19]?.map (fun char => char = '8' || char = '9' || char = 'a' || char = 'b')).getD false

end Uuid

end DeadlineQueue
