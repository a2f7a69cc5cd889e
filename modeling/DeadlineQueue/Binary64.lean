import DeadlineQueue.Rounding

namespace DeadlineQueue

-- A magnitude of the binary64 format: a significand below 2 ^ 53 times a power of two.
structure Magnitude where
  significand : Nat
  exponent : Int
  deriving DecidableEq

namespace Magnitude

def value (magnitude : Magnitude) : Rat :=
  magnitude.significand * power 2 magnitude.exponent

-- 2 ^ 52, the least significand of a normal number.
def normal : Nat := 4503599627370496

def leastExponent : Int := -1074

def greatestExponent : Int := 971

-- The exponent at which the significand of a positive rational lies between 2 ^ 52 and 2 ^ 53,
-- or the least one if that is smaller. Numerator and denominator are known to within a factor of
-- two by their lengths, so one comparison decides.
def exponentOf (value : Rat) : Int :=
  let guess : Int := (Nat.log2 value.num.toNat : Int) - Nat.log2 value.den - 52
  let fitting := if value < normal * power 2 guess then guess - 1 else guess
  max leastExponent fitting

-- The magnitude nearest to a rational that is not negative, a half going to the even significand.
-- None stands for infinity.
def nearest? (value : Rat) : Option Magnitude :=
  let exponent := exponentOf value
  let significand := (roundHalfEven (value / power 2 exponent)).toNat
  let rounded : Magnitude :=
    if significand = 2 * normal then { significand := normal, exponent := exponent + 1 }
    else { significand, exponent }
  if rounded.exponent ≤ greatestExponent then some rounded else none

end Magnitude

inductive Binary64 where
  | finite (negative : Bool) (magnitude : Magnitude)
  | infinite (negative : Bool)
  | nan
  deriving DecidableEq

namespace Binary64

-- One bit of sign, eleven of exponent and 52 of fraction.
def ofBits (bits : UInt64) : Binary64 :=
  let negative := decide (9223372036854775808 ≤ bits.toNat)
  let exponent := bits.toNat / Magnitude.normal % 2048
  let fraction := bits.toNat % Magnitude.normal
  if exponent = 2047 then (if fraction = 0 then .infinite negative else .nan)
  else if exponent = 0 then .finite negative { significand := fraction, exponent := Magnitude.leastExponent }
  else .finite negative { significand := Magnitude.normal + fraction, exponent := (exponent : Int) - 1075 }

-- The exact value of a finite number.
def value? : Binary64 → Option Rat
  | finite negative magnitude => some (if negative then -magnitude.value else magnitude.value)
  | infinite _ | nan => none

end Binary64

end DeadlineQueue
