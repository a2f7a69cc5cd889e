import DeadlineQueue.Binary64
import Mathlib.Algebra.Order.Field.Power
import Mathlib.Data.Rat.Cast.Order
import Mathlib.Tactic.Linarith
import Mathlib.Tactic.NormNum
import Mathlib.Tactic.Ring

namespace DeadlineQueue

theorem power_eq_zpow (base : Nat) (exponent : Int) : power base exponent = (base : Rat) ^ exponent := by
  unfold power
  split
  · rename_i hpos
    rw [Nat.pow_eq, Nat.cast_pow, ← zpow_natCast, Int.toNat_of_nonneg hpos]
  · rename_i hneg
    rw [Nat.pow_eq, Nat.cast_pow, ← zpow_natCast, Int.toNat_of_nonneg (by omega), one_div, ← zpow_neg, neg_neg]

namespace Magnitude

theorem value_eq (magnitude : Magnitude) : magnitude.value = magnitude.significand * 2 ^ magnitude.exponent := by
  rw [value, power_eq_zpow]
  rfl

theorem value_nonneg (magnitude : Magnitude) : 0 ≤ magnitude.value := by
  rw [value_eq]
  positivity

-- Below 2 ^ 64 the numbers of the format are too far apart for one to come near to it.
theorem value_lt_iff {magnitude : Magnitude} (hsignificand : magnitude.significand < 2 ^ 53) :
    magnitude.value < 2 ^ 64 ↔ magnitude.value ≤ 2 ^ 64 - 1 := by
  refine ⟨fun hless => ?_, fun hle => by linarith⟩
  rw [value_eq] at hless ⊢
  rcases le_or_gt 0 magnitude.exponent with hpos | hneg
  · -- A whole number.
    obtain ⟨exponent, hexponent⟩ := Int.eq_ofNat_of_zero_le hpos
    rw [hexponent, zpow_natCast] at hless ⊢
    have hwhole : magnitude.significand * 2 ^ exponent < 2 ^ 64 := by exact_mod_cast hless
    have hle : magnitude.significand * 2 ^ exponent + 1 ≤ 2 ^ 64 := hwhole
    have hcast : (magnitude.significand : Rat) * 2 ^ exponent + 1 ≤ 2 ^ 64 := by exact_mod_cast hle
    linarith
  · have hpower : (2 : Rat) ^ magnitude.exponent ≤ 1 := zpow_le_one_of_nonpos₀ (by norm_num) hneg.le
    have hcast : (magnitude.significand : Rat) ≤ 2 ^ 53 := by exact_mod_cast hsignificand.le
    calc (magnitude.significand : Rat) * 2 ^ magnitude.exponent
      _ ≤ magnitude.significand * 1 := mul_le_mul_of_nonneg_left hpower (Nat.cast_nonneg _)
      _ ≤ 2 ^ 64 - 1 := by linarith

end Magnitude

namespace Binary64

-- The exact value of a finite number by its bits, of which 52 make a fraction of one. With the least
-- exponent the fraction stands alone, with the others behind a one. The greatest exponent is that of
-- infinities and of what is not a number.
def exactValue? (bits : UInt64) : Option Rat :=
  let sign : Nat := bits.toNat / 2 ^ 63
  let exponent : Nat := bits.toNat / 2 ^ 52 % 2 ^ 11
  let fraction : Rat := (bits.toNat % 2 ^ 52 : Nat) / 2 ^ 52
  if exponent = 2047 then none
  else if exponent = 0 then some ((-1) ^ sign * (fraction * 2 ^ (-1022 : Int)))
  else some ((-1) ^ sign * ((1 + fraction) * 2 ^ ((exponent : Int) - 1023)))

theorem value?_finite (bits : UInt64) (magnitude : Magnitude) :
    (finite (decide (9223372036854775808 ≤ bits.toNat)) magnitude).value? =
      some ((-1) ^ (bits.toNat / 2 ^ 63) * magnitude.value) := by
  have hbits : bits.toNat < 2 ^ 64 := bits.toNat_lt
  simp only [value?]
  by_cases hnegative : 9223372036854775808 ≤ bits.toNat
  · have hone : bits.toNat / 2 ^ 63 = 1 := by omega
    simp only [hone, hnegative, decide_true, if_true, pow_one, neg_one_mul]
  · have hzero : bits.toNat / 2 ^ 63 = 0 := by omega
    simp only [hzero, hnegative, decide_false, Bool.false_eq_true, if_false, pow_zero, one_mul]

-- Its significand counts the last places of the fraction.
theorem value?_ofBits (bits : UInt64) : (ofBits bits).value? = exactValue? bits := by
  have hplaces (exponent : Int) : (2 : Rat) ^ (exponent - 52) = 2 ^ exponent / 2 ^ 52 :=
    zpow_sub₀ two_ne_zero exponent 52
  have hexponent : bits.toNat / Magnitude.normal % 2048 = bits.toNat / 2 ^ 52 % 2 ^ 11 := rfl
  have hfraction : bits.toNat % Magnitude.normal = bits.toNat % 2 ^ 52 := rfl
  unfold ofBits exactValue?
  dsimp only
  rw [hexponent, hfraction]
  split
  · split
    · rfl
    · rfl
  · split
    · have hleast : Magnitude.leastExponent = -1022 - 52 := rfl
      rw [value?_finite, Magnitude.value_eq, hleast, hplaces]
      congr 2
      ring
    · generalize bits.toNat / 2 ^ 52 % 2 ^ 11 = exponent
      have hlast : (exponent : Int) - 1075 = exponent - 1023 - 52 := by omega
      have hnormal : ((Magnitude.normal : Nat) : Rat) = 2 ^ 52 := by norm_num [Magnitude.normal]
      rw [value?_finite, Magnitude.value_eq, hlast, hplaces, Nat.cast_add, hnormal]
      congr 2
      ring

theorem significand_ofBits {bits : UInt64} {negative : Bool} {magnitude : Magnitude}
    (h : ofBits bits = .finite negative magnitude) : magnitude.significand < 2 ^ 53 := by
  have hfraction : bits.toNat % Magnitude.normal < 2 ^ 52 := Nat.mod_lt _ (by decide)
  have hnormal : Magnitude.normal = 2 ^ 52 := rfl
  unfold ofBits at h
  dsimp only at h
  split at h
  · split at h <;> cases h
  · split at h
    · cases h
      dsimp only
      omega
    · cases h
      dsimp only
      omega

theorem exactValue?_lt_iff {bits : UInt64} {value : Rat} (h : exactValue? bits = some value) :
    value < 2 ^ 64 ↔ value ≤ 2 ^ 64 - 1 := by
  rw [← value?_ofBits] at h
  cases hbits : ofBits bits with
  | infinite negative =>
      rw [hbits] at h
      cases h
  | nan =>
      rw [hbits] at h
      cases h
  | finite negative magnitude =>
      rw [hbits] at h
      simp only [value?, Option.some.injEq] at h
      have hnonneg := magnitude.value_nonneg
      cases negative with
      | false =>
          rw [← h]
          exact Magnitude.value_lt_iff (significand_ofBits hbits)
      | true =>
          have hneg : value ≤ 0 := by
            rw [← h]
            simpa using hnonneg
          constructor
          · intro _
            linarith
          · intro _
            linarith

end Binary64

end DeadlineQueue
