import DeadlineQueue.Decimal.Shortest

namespace DeadlineQueue.Decimal

-- Which powers of ten of the leading digit are written out, and how the others are.
structure Style where
  leastPlain : Int
  greatestPlain : Int
  mark : String
  plus : String

-- Positional from 10 ^ -5 up to 10 ^ 16, with a fraction in any case.
def Style.plain : Style :=
  { leastPlain := -5, greatestPlain := 15, mark := "e", plus := "+" }

def digitsText (n : Nat) : String :=
  String.ofList (Nat.toDigits 10 n)

-- Digits without trailing zeros. A digit is dropped at most as often as there are digits.
def trim : Nat → Scaled → Scaled
  | 0, scaled => scaled
  | count + 1, scaled =>
    if scaled.digits ≠ 0 && scaled.digits % 10 = 0 then
      trim count { digits := scaled.digits / 10, exponent := scaled.exponent + 1 }
    else scaled

def zeros (count : Nat) : String :=
  String.ofList (List.replicate count '0')

def positional (scaled : Scaled) : String :=
  if 0 ≤ scaled.exponent then digitsText scaled.digits ++ zeros scaled.exponent.toNat ++ ".0"
  else
    let places := (-scaled.exponent).toNat
    let digits := Nat.toDigits 10 scaled.digits
    let padded := List.replicate (places + 1 - digits.length) '0' ++ digits
    String.ofList (padded.take (padded.length - places)) ++ "." ++
      String.ofList (padded.drop (padded.length - places))

def exponential (style : Style) (scaled : Scaled) (leading : Int) : String :=
  let fraction := (Nat.toDigits 10 scaled.digits).drop 1
  String.ofList ((Nat.toDigits 10 scaled.digits).take 1) ++
    (if fraction.isEmpty then "" else "." ++ String.ofList fraction) ++ style.mark ++
    (if 0 ≤ leading then style.plus ++ digitsText leading.toNat else "-" ++ digitsText (-leading).toNat)

def Style.text (style : Style) (negative : Bool) (magnitude : Magnitude) : String :=
  (if negative then "-" else "") ++
  (if magnitude.significand = 0 then "0.0"
  else
    let scaled := trim 17 (shortest magnitude)
    let leading := scaled.exponent + digitCount scaled.digits - 1
    if style.leastPlain ≤ leading && leading ≤ style.greatestPlain then positional scaled
    else exponential style scaled leading)

end DeadlineQueue.Decimal
