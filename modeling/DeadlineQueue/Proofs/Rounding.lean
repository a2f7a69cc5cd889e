import DeadlineQueue.Rounding
import Mathlib.Algebra.Order.Floor.Ring
import Mathlib.Data.Rat.Floor
import Mathlib.Tactic.Linarith
import Mathlib.Tactic.Ring

namespace DeadlineQueue

-- The integer nearest to a number, and of two that are as near the even one.
structure Nearest (value : Rat) (whole : Int) : Prop where
  nearest : ∀ other : Int, |value - whole| ≤ |value - other|
  even : ∀ other : Int, other ≠ whole → |value - other| = |value - whole| → Even whole

namespace Nearest

variable {value greater : Rat} {whole other : Int}

-- Of two integers one is at least half way off, and if the other one is too, both are as near.
theorem of_distance_le (hhalf : |value - whole| ≤ 1 / 2) (heven : |value - whole| = 1 / 2 → Even whole) :
    Nearest value whole := by
  have hapart (other : Int) (hne : other ≠ whole) : 1 ≤ |value - other| + |value - whole| := by
    have hone : (1 : Rat) ≤ |(whole : Rat) - other| := by
      rw [← Int.cast_sub, ← Int.cast_abs]
      exact_mod_cast Int.one_le_abs (sub_ne_zero.mpr hne.symm)
    have htriangle := abs_sub_le (whole : Rat) value other
    rw [abs_sub_comm (whole : Rat) value] at htriangle
    linarith
  constructor
  · intro other
    by_cases hsame : other = whole
    · rw [hsame]
    · have hsum := hapart other hsame
      linarith
  · intro other hne hequal
    apply heven
    have hsum := hapart other hne
    linarith

theorem distance_le (h : Nearest value whole) : |value - whole| ≤ 1 / 2 := by
  have hbelow := sq_le_sq.mpr (h.nearest (whole - 1))
  have habove := sq_le_sq.mpr (h.nearest (whole + 1))
  push_cast at hbelow habove
  rw [abs_le]
  constructor <;> linarith

theorem mono (h : Nearest value whole) (hother : Nearest greater other) (hle : value ≤ greater) : whole ≤ other := by
  by_contra hless
  have hnext : other + 1 ≤ whole := Int.add_one_le_of_lt (Int.not_le.mp hless)
  have hcast : (other : Rat) + 1 ≤ whole := by exact_mod_cast hnext
  have hbelow := (abs_le.mp h.distance_le).1
  have habove := (abs_le.mp hother.distance_le).2
  -- Both numbers are half way between the two integers, which follow each other, so one of these is odd.
  have hvalue : value = other + 1 / 2 := by linarith
  have hgreater : greater = other + 1 / 2 := by linarith
  have hwhole : whole = other + 1 := by
    have hsame : (whole : Rat) = other + 1 := by linarith
    exact_mod_cast hsame
  rw [hvalue, hwhole] at h
  rw [hgreater] at hother
  have hleft : |(other : Rat) + 1 / 2 - other| = 1 / 2 := by
    rw [add_sub_cancel_left]
    norm_num
  have hright : |(other : Rat) + 1 / 2 - (other + 1 : Int)| = 1 / 2 := by
    push_cast
    rw [add_sub_add_left_eq_sub]
    norm_num
  have heven := h.even other (by omega) (hleft.trans hright.symm)
  have hodd := hother.even (other + 1) (by omega) (hright.trans hleft.symm)
  rw [Int.even_add_one] at heven
  exact heven hodd

theorem unique (h : Nearest value whole) (hother : Nearest value other) : whole = other :=
  le_antisymm (h.mono hother le_rfl) (hother.mono h le_rfl)

end Nearest

theorem nearest_roundHalfEven (value : Rat) : Nearest value (roundHalfEven value) := by
  have hfloor : (value.floor : Rat) ≤ value := Rat.floor_le value
  have hnext : value - 1 < value.floor := Rat.lt_floor
  have hdown (hhalf : value - value.floor ≤ 1 / 2) (heven : value - value.floor = 1 / 2 → Even value.floor) :
      Nearest value value.floor := by
    have hdistance : |value - value.floor| = value - value.floor := abs_of_nonneg (by linarith)
    apply Nearest.of_distance_le
    · rwa [hdistance]
    · rwa [hdistance]
  have hup (hhalf : 1 / 2 ≤ value - value.floor) (heven : value - value.floor = 1 / 2 → Even (value.floor + 1)) :
      Nearest value (value.floor + 1) := by
    have hdistance : |value - (value.floor + 1 : Int)| = 1 - (value - value.floor) := by
      push_cast
      rw [abs_of_nonpos (by linarith)]
      ring
    apply Nearest.of_distance_le
    · rw [hdistance]
      linarith
    · rw [hdistance]
      intro hhalf
      exact heven (by linarith)
  unfold roundHalfEven
  dsimp only
  split
  · rename_i hbefore
    exact hdown hbefore.le fun hhalf => absurd hhalf hbefore.ne
  · rename_i hnotBefore
    split
    · rename_i hafter
      exact hup hafter.le fun hhalf => absurd hhalf hafter.ne'
    · rename_i hnotAfter
      split
      · rename_i heven
        exact hdown (not_lt.mp hnotAfter) fun _ => Int.even_iff.mpr heven
      · rename_i hodd
        exact hup (not_lt.mp hnotBefore) fun _ => Int.even_add_one.mpr fun heven => hodd (Int.even_iff.mp heven)

end DeadlineQueue
