namespace DeadlineQueue

-- The integer nearest to a rational number, a half going to the even neighbour.
def roundHalfEven (value : Rat) : Int :=
  let below := value.floor
  let past := value - below
  if past < 1 / 2 then below
  else if 1 / 2 < past then below + 1
  else if below % 2 = 0 then below
  else below + 1

-- The power of a base with an integer exponent.
def power (base : Nat) (exponent : Int) : Rat :=
  if 0 ≤ exponent then (Nat.pow base exponent.toNat : Nat) else 1 / (Nat.pow base (-exponent).toNat : Nat)

end DeadlineQueue
