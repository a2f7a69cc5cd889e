import DeadlineQueue.Binary64

namespace DeadlineQueue.Decimal

-- Digits and the power of ten of the last one.
structure Scaled where
  digits : Nat
  exponent : Int
  deriving DecidableEq

def Scaled.value (scaled : Scaled) : Rat :=
  scaled.digits * power 10 scaled.exponent

def digitCount (n : Nat) : Nat :=
  (Nat.toDigits 10 n).length

-- The power of ten of the leading digit of a positive rational. The lengths of numerator and
-- denominator leave two candidates.
def leadingExponent (value : Rat) : Int :=
  let guess : Int := (digitCount value.num.toNat : Int) - digitCount value.den
  if power 10 guess ≤ value then guess else guess - 1

-- Whether a rational rounds to the magnitude. The bounds are half-way to the neighbours, and
-- they belong to the magnitude if its significand is even; below a power of two the neighbour
-- is twice as near.
def rounds (magnitude : Magnitude) (value : Rat) : Bool :=
  let unit := power 2 magnitude.exponent
  let narrow := magnitude.significand = Magnitude.normal && Magnitude.leastExponent < magnitude.exponent
  let low := magnitude.value - (if narrow then unit / 4 else unit / 2)
  let high := magnitude.value + unit / 2
  if magnitude.significand % 2 = 0 then low ≤ value && value ≤ high else low < value && value < high

-- The nearest decimal with so many digits that reads back, if there is one. If any does, one of
-- the two around the magnitude does.
def withDigits? (magnitude : Magnitude) (count : Nat) : Option Scaled :=
  let exponent := leadingExponent magnitude.value + 1 - count
  let digits := (magnitude.value / power 10 exponent).floor.toNat
  let below : Scaled := { digits, exponent }
  let above : Scaled := { digits := digits + 1, exponent }
  match rounds magnitude below.value, rounds magnitude above.value with
  | false, false => none
  | true, false => some below
  | false, true => some above
  | true, true =>
    let past := magnitude.value - below.value
    let left := above.value - magnitude.value
    if past < left then some below else if left < past then some above
    else if digits % 2 = 0 then some below else some above

-- The decimal with the fewest digits that reads back as the magnitude. Seventeen always suffice.
def shortest (magnitude : Magnitude) : Scaled :=
  ((List.range 17).findSome? (fun count => withDigits? magnitude (count + 1))).getD
    { digits := 0, exponent := 0 }

end DeadlineQueue.Decimal
