namespace DeadlineQueue.Text

-- A set of characters by the places at which a walk through all characters enters or leaves it.
def crossed (edges : List Nat) (char : Char) : Bool :=
  edges.countP (fun edge => edge ≤ char.toNat) % 2 = 1

end DeadlineQueue.Text
