import DeadlineQueue.Text.Extending
import DeadlineQueue.Text.Unprintable

namespace DeadlineQueue.Text

def hexDigits (n : Nat) : String :=
  String.ofList (Nat.toDigits 16 n)

-- A character as it stands between quotes. What cannot be seen on its own is written by its
-- number.
def escaped (char : Char) : String :=
  if char = '"' then "\\\""
  else if char = '\\' then "\\\\"
  else if char = '\n' then "\\n"
  else if char = '\r' then "\\r"
  else if char = '\t' then "\\t"
  else if char.toNat = 0 then "\\0"
  else if isPrintable char && !isExtending char then String.singleton char
  else "\\u\x7b" ++ hexDigits char.toNat ++ "\x7d"

def quoted (text : String) : String :=
  "\"" ++ String.join (text.toList.map escaped) ++ "\""

end DeadlineQueue.Text
