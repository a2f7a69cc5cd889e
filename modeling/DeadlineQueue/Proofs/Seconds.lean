import DeadlineQueue.Proofs.Binary64
import DeadlineQueue.Proofs.Limits.Reload
import DeadlineQueue.Proofs.Rounding
import DeadlineQueue.Seconds

namespace DeadlineQueue

open Binary64

-- What a number of seconds is worth as a limit: nothing if it is no positive number, and otherwise the
-- nearest number of nanoseconds.
inductive Worth (bits : UInt64) : Option Duration → Prop where
  | nothing (hvalue : ∀ value ∈ exactValue? bits, value ≤ 0) : Worth bits none
  | rounded {value : Rat} {nanoseconds : Duration} (hvalue : value ∈ exactValue? bits) (hpos : 0 < value)
      (hnearest : Nearest (value * 1000000000) nanoseconds) : Worth bits (some nanoseconds)

namespace Worth

variable {bits others : UInt64} {worth other : Option Duration}

theorem exists_worth (bits : UInt64) : ∃ worth, Worth bits worth := by
  by_cases hpositive : ∃ value ∈ exactValue? bits, 0 < value
  · obtain ⟨value, hvalue, hpos⟩ := hpositive
    have hzero : Nearest 0 0 := .of_distance_le (by norm_num) (by norm_num)
    have hnearest := nearest_roundHalfEven (value * 1000000000)
    obtain ⟨nanoseconds, heq⟩ := Int.eq_ofNat_of_zero_le (hzero.mono hnearest (by positivity))
    rw [heq] at hnearest
    exact ⟨some nanoseconds, .rounded hvalue hpos hnearest⟩
  · exact ⟨none, .nothing fun value hvalue => not_lt.mp fun hpos => hpositive ⟨value, hvalue, hpos⟩⟩

-- The greater of two positive numbers is worth as much or more.
theorem mono (h : Worth bits worth) (hother : Worth others other) {value greater : Rat}
    (hvalue : value ∈ exactValue? bits) (hgreater : greater ∈ exactValue? others) (hpos : 0 < value)
    (hle : value ≤ greater) : ∃ less ∈ worth, ∃ more ∈ other, less ≤ more := by
  cases h with
  | nothing hnone => exact absurd hpos (not_lt.mpr (hnone value hvalue))
  | @rounded _ less hfirst _ hless =>
      cases hother with
      | nothing hnone => exact absurd (hpos.trans_le hle) (not_lt.mpr (hnone greater hgreater))
      | @rounded _ more hsecond _ hmore =>
          obtain rfl := Option.mem_unique hfirst hvalue
          obtain rfl := Option.mem_unique hsecond hgreater
          have hrounded := hless.mono hmore (mul_le_mul_of_nonneg_right hle (by norm_num))
          exact ⟨less, rfl, more, rfl, by exact_mod_cast hrounded⟩

theorem unique (h : Worth bits worth) (hother : Worth bits other) : worth = other := by
  cases h with
  | nothing hnone =>
      cases hother with
      | nothing _ => rfl
      | rounded hvalue hpos _ => exact absurd hpos (not_lt.mpr (hnone _ hvalue))
  | rounded hvalue hpos hnearest =>
      cases hother with
      | nothing hnone => exact absurd hpos (not_lt.mpr (hnone _ hvalue))
      | rounded hsame _ hother =>
          obtain rfl := Option.mem_unique hvalue hsame
          exact congrArg some (by exact_mod_cast hnearest.unique hother)

-- A half of a nanosecond is rounded down.
theorem exists_ne_zero_iff (h : Worth bits worth) :
    (∃ nanoseconds ∈ worth, nanoseconds ≠ 0) ↔ ∃ value ∈ exactValue? bits, 1 / 2000000000 < value := by
  cases h with
  | nothing hnone =>
      constructor
      · rintro ⟨nanoseconds, hsome, -⟩
        cases hsome
      · rintro ⟨value, hvalue, hlarge⟩
        have hneg := hnone value hvalue
        linarith
  | @rounded value nanoseconds hvalue hpos hnearest =>
      constructor
      · rintro ⟨_, ⟨⟩, hnonzero⟩
        refine ⟨value, hvalue, ?_⟩
        by_contra hsmall
        have hdistance : |value * 1000000000 - (0 : Int)| ≤ 1 / 2 := by
          rw [Int.cast_zero, sub_zero, abs_of_nonneg (by positivity)]
          linarith
        have hzero := Nearest.of_distance_le hdistance (by simp)
        exact hnonzero (by exact_mod_cast hnearest.unique hzero)
      · rintro ⟨other, hother, hlarge⟩
        obtain rfl := Option.mem_unique hvalue hother
        refine ⟨nanoseconds, rfl, ?_⟩
        rintro rfl
        have hdistance := (abs_le.mp hnearest.distance_le).2
        push_cast at hdistance
        linarith

-- No number of the format lies so little below 2 ^ 64 seconds that it would be rounded to as much.
theorem forall_lt_iff (h : Worth bits worth) :
    (∀ nanoseconds ∈ worth, nanoseconds < durationLimit) ↔ ∀ value ∈ exactValue? bits, value < 2 ^ 64 := by
  have hlimit : ((durationLimit : Nat) : Rat) = 2 ^ 64 * 1000000000 := by norm_num [durationLimit]
  cases h with
  | nothing hnone =>
      constructor
      · intro _ value hvalue
        have hneg := hnone value hvalue
        linarith
      · rintro _ nanoseconds hsome
        cases hsome
  | @rounded value nanoseconds hvalue hpos hnearest =>
      obtain ⟨hbelow, habove⟩ := abs_le.mp hnearest.distance_le
      push_cast at hbelow habove
      constructor
      · intro hfits other hother
        obtain rfl := Option.mem_unique hvalue hother
        have hless : nanoseconds + 1 ≤ durationLimit := hfits nanoseconds rfl
        have hcast : (nanoseconds : Rat) + 1 ≤ 2 ^ 64 * 1000000000 := by
          rw [← hlimit]
          exact_mod_cast hless
        linarith
      · rintro hless _ ⟨⟩
        have hclear := (exactValue?_lt_iff hvalue).mp (hless value hvalue)
        have hcast : (nanoseconds : Rat) < (durationLimit : Nat) := by
          rw [hlimit]
          linarith
        exact_mod_cast hcast

-- Seconds are converted to what they are worth, if a duration can hold that.
theorem limitOfSeconds_eq_ok_iff (h : Worth bits worth) (limit : Option Duration) :
    limitOfSeconds (ofBits bits) = .ok limit ↔
      limit = worth ∧ ∀ nanoseconds ∈ worth, nanoseconds < durationLimit := by
  unfold limitOfSeconds
  rw [value?_ofBits]
  cases h with
  | nothing hnone =>
      have hok : (.ok none : Except SecondsFailure (Option Duration)) = .ok limit ↔ limit = none := by
        rw [Except.ok.injEq, eq_comm]
      split
      · simpa using hok
      · rename_i value hvalue
        rw [if_neg (not_lt.mpr (hnone value hvalue))]
        simpa using hok
  | @rounded value nanoseconds hvalue hpos hnearest =>
      have hrounded : (roundHalfEven (value * 1000000000)).toNat = nanoseconds := by
        rw [(nearest_roundHalfEven _).unique hnearest, Int.toNat_natCast]
      rw [Option.mem_def.mp hvalue]
      dsimp only
      rw [if_pos hpos, hrounded]
      split
      · rename_i hfits
        simp [hfits, eq_comm]
      · rename_i hlong
        simp [hlong]

end Worth

namespace Limits

-- Limits of two numbers of seconds that are given by their bits.
def ofBits (seconds : Field → UInt64) : Except SecondsFailure Limits :=
  ofSeconds (.ofBits (seconds .wait)) (.ofBits (seconds .processing))

variable (seconds : Field → UInt64)

theorem ofBits_eq_ok_iff (limits : Limits) :
    ofBits seconds = .ok limits ↔ ∀ field, limitOfSeconds (.ofBits (seconds field)) = .ok (limits.get field) := by
  have hfields (P : Field → Prop) : (∀ field, P field) ↔ P .wait ∧ P .processing := by
    constructor
    · intro h
      exact ⟨h .wait, h .processing⟩
    · rintro ⟨hwait, hprocessing⟩ (_ | _)
      · exact hwait
      · exact hprocessing
  rw [hfields]
  unfold ofBits ofSeconds
  cases hwait : limitOfSeconds (.ofBits (seconds .wait)) with
  | error failure => simp
  | ok wait =>
      cases hprocessing : limitOfSeconds (.ofBits (seconds .processing)) with
      | error failure => simp
      | ok processing =>
          obtain ⟨_, _⟩ := limits
          simp [get]

theorem ofBits_eq_tooLong_iff :
    ofBits seconds = .error .tooLong ↔ ∀ limits, ofBits seconds ≠ .ok limits := by
  constructor
  · intro herror limits hok
    rw [herror] at hok
    cases hok
  · intro hnever
    cases hresult : ofBits seconds with
    | error failure =>
        cases failure
        rfl
    | ok limits => exact absurd hresult (hnever limits)

section worth

variable {worth : Field → Option Duration} (hworth : ∀ field, Worth (seconds field) (worth field))
include hworth

theorem ofBits_eq_ok_iff_of_worth (limits : Limits) :
    ofBits seconds = .ok limits ↔
      ∀ field, limits.get field = worth field ∧ ∀ nanoseconds ∈ worth field, nanoseconds < durationLimit := by
  rw [ofBits_eq_ok_iff]
  exact forall_congr' fun field => (hworth field).limitOfSeconds_eq_ok_iff _

-- Whether the result is limits depends on what the numbers are worth.
theorem exists_ofBits_eq_ok_iff :
    (∃ limits, ofBits seconds = .ok limits) ↔ ∀ field, ∀ nanoseconds ∈ worth field, nanoseconds < durationLimit := by
  constructor
  · rintro ⟨limits, hlimits⟩ field
    exact ((ofBits_eq_ok_iff_of_worth seconds hworth limits).mp hlimits field).2
  · intro hfits
    refine ⟨{ wait := worth .wait, processing := worth .processing },
      (ofBits_eq_ok_iff_of_worth seconds hworth _).mpr fun field => ⟨?_, hfits field⟩⟩
    cases field <;> rfl

end worth

theorem enforced_eq_none_iff (limit : Option Duration) : enforced limit = none ↔ ∀ duration ∈ limit, duration = 0 := by
  cases limit with
  | none => simp [enforced]
  | some duration =>
      by_cases hzero : duration = 0
      · simp [hzero, enforced]
      · simp [enforced_some hzero, hzero]

-- Limits are made of numbers of seconds by rounding them to nanoseconds, a half to the even one, and if a
-- duration cannot hold the outcome there is no result. What is no positive number sets no limit. A greater
-- number sets no smaller limit, and a deadline is missing if no limit is set or it is rounded to zero.
theorem ofBits_exact :
    ∃ worth : Field → Option Duration, (∀ field other, Worth (seconds field) other ↔ other = worth field) ∧
      ((∀ field, ∀ nanoseconds ∈ worth field, nanoseconds < 18446744073709551616 * 1000000000) →
        ∃ limits, ofBits seconds = .ok limits ∧ ∀ field, limits.get field = worth field ∧
          (limits.deadline field = none ↔ worth field = none ∨ worth field = some 0)) ∧
      ((∃ field, ∃ nanoseconds ∈ worth field, 18446744073709551616 * 1000000000 ≤ nanoseconds) →
        ofBits seconds = .error .tooLong) ∧
      ∀ others limits more, ofBits seconds = .ok limits → ofBits others = .ok more →
        ∀ field, ∀ value ∈ exactValue? (seconds field), ∀ greater ∈ exactValue? (others field), 0 < value →
          value ≤ greater → ∃ less ∈ limits.get field, ∃ larger ∈ more.get field, less ≤ larger := by
  choose worth hworth using fun field => Worth.exists_worth (seconds field)
  refine ⟨worth, fun field other => ?_, fun hfits => ?_, ?_, ?_⟩
  · constructor
    · exact fun hother => hother.unique (hworth field)
    · rintro rfl
      exact hworth field
  · obtain ⟨limits, hlimits⟩ := (exists_ofBits_eq_ok_iff seconds hworth).mpr hfits
    have hget := (ofBits_eq_ok_iff_of_worth seconds hworth limits).mp hlimits
    refine ⟨limits, hlimits, fun field => ⟨(hget field).1, ?_⟩⟩
    rw [deadline_eq, (hget field).1, enforced_eq_none_iff]
    cases worth field with
    | none => simp
    | some nanoseconds => simp
  · rintro ⟨field, nanoseconds, hsome, hlong⟩
    rw [ofBits_eq_tooLong_iff]
    intro limits hlimits
    have hfits := (exists_ofBits_eq_ok_iff seconds hworth).mp ⟨limits, hlimits⟩ field nanoseconds hsome
    exact absurd hfits (not_lt.mpr hlong)
  · intro others limits more hlimits hmore field value hvalue greater hgreater hpos hle
    choose other hother using fun field => Worth.exists_worth (others field)
    rw [((ofBits_eq_ok_iff_of_worth seconds hworth limits).mp hlimits field).1,
      ((ofBits_eq_ok_iff_of_worth others hother more).mp hmore field).1]
    exact (hworth field).mono (hother field) hvalue hgreater hpos hle

-- 2 ^ -10 seconds are half way between two numbers of nanoseconds, and 2 ^ 64 seconds are too long.
theorem ofBits_exact_halfway :
    let fraction : UInt64 := 0x3f50000000000000
    let huge : UInt64 := 0x43f0000000000000
    (∃ limits, ofBits (fun _ => fraction) = .ok limits ∧ ∀ field, limits.get field = some 976562) ∧
      ofBits (fun _ => huge) = .error .tooLong := by
  intro fraction huge
  obtain ⟨worth, hworth, hreturns, -⟩ := ofBits_exact (fun _ => fraction)
  obtain ⟨most, hmost, -, hlong, -⟩ := ofBits_exact (fun _ => huge)
  have hfraction : Worth fraction (some 976562) := by
    have hvalue : exactValue? fraction = some (1 / 1024) := by
      rw [← value?_ofBits]
      decide +kernel
    refine .rounded hvalue (by norm_num) (.of_distance_le ?_ fun _ => by decide)
    norm_num [abs_of_nonneg]
  have hhuge : Worth huge (some (2 ^ 64 * 1000000000)) := by
    have hvalue : exactValue? huge = some (2 ^ 64) := by
      rw [← value?_ofBits]
      decide +kernel
    refine .rounded hvalue (by norm_num) (.of_distance_le ?_ fun _ => by decide)
    norm_num
  have hsame (field : Field) : worth field = some 976562 := ((hworth field _).mp hfraction).symm
  constructor
  · obtain ⟨limits, hlimits, hget⟩ := hreturns fun field nanoseconds hsome => by
      rw [hsame field] at hsome
      cases hsome
      decide
    exact ⟨limits, hlimits, fun field => (hget field).1.trans (hsame field)⟩
  · exact hlong ⟨.wait, _, ((hmost .wait _).mp hhuge).symm, by decide⟩

-- Two numbers of seconds can be converted if both are below 2 ^ 64, and a deadline is then enforced if its
-- number is greater than half a nanosecond. So every positive number has its deadline, and none is in the
-- way of a result, if the positive ones lie between these bounds, and then only.
theorem ofBits_enables :
    ((∃ limits, ofBits seconds = .ok limits) ↔ ∀ field, ∀ value ∈ exactValue? (seconds field), value < 2 ^ 64) ∧
      (∀ limits, ofBits seconds = .ok limits → ∀ field,
        (limits.deadline field).isSome = true ↔ ∃ value ∈ exactValue? (seconds field), 1 / 2000000000 < value) ∧
      ((∃ limits, ofBits seconds = .ok limits ∧ ∀ field,
          (limits.deadline field).isSome = true ↔ ∃ value ∈ exactValue? (seconds field), 0 < value) ↔
        ∀ field, ∀ value ∈ exactValue? (seconds field), 0 < value → 1 / 2000000000 < value ∧ value < 2 ^ 64) := by
  choose worth hworth using fun field => Worth.exists_worth (seconds field)
  have hreturns : (∃ limits, ofBits seconds = .ok limits) ↔
      ∀ field, ∀ value ∈ exactValue? (seconds field), value < 2 ^ 64 :=
    (exists_ofBits_eq_ok_iff seconds hworth).trans (forall_congr' fun field => (hworth field).forall_lt_iff)
  have henabled (limits : Limits) (hlimits : ofBits seconds = .ok limits) (field : Field) :
      (limits.deadline field).isSome = true ↔ ∃ value ∈ exactValue? (seconds field), 1 / 2000000000 < value := by
    have hget := ((ofBits_eq_ok_iff_of_worth seconds hworth limits).mp hlimits field).1
    rw [← (hworth field).exists_ne_zero_iff, deadline_eq, hget, Option.isSome_iff_ne_none, Ne, enforced_eq_none_iff]
    simp
  refine ⟨hreturns, henabled, ?_⟩
  constructor
  · rintro ⟨limits, hlimits, hpositive⟩ field value hvalue hpos
    obtain ⟨other, hother, hlarge⟩ :=
      (henabled limits hlimits field).mp ((hpositive field).mpr ⟨value, hvalue, hpos⟩)
    obtain rfl := Option.mem_unique hvalue hother
    exact ⟨hlarge, hreturns.mp ⟨limits, hlimits⟩ field value hvalue⟩
  · intro hbetween
    have hless (field : Field) (value : Rat) (hvalue : value ∈ exactValue? (seconds field)) : value < 2 ^ 64 := by
      by_cases hpos : 0 < value
      · exact (hbetween field value hvalue hpos).2
      · exact (not_lt.mp hpos).trans_lt (by norm_num)
    obtain ⟨limits, hlimits⟩ := hreturns.mpr hless
    refine ⟨limits, hlimits, fun field => (henabled limits hlimits field).trans ?_⟩
    constructor
    · rintro ⟨value, hvalue, hlarge⟩
      exact ⟨value, hvalue, lt_trans (by norm_num) hlarge⟩
    · rintro ⟨value, hvalue, hpos⟩
      exact ⟨value, hvalue, (hbetween field value hvalue hpos).1⟩

theorem ofBits_enables_second :
    let second : UInt64 := 0x3ff0000000000000
    (∃ value ∈ exactValue? second, 0 < value) ∧
      ∃ limits, ofBits (fun _ => second) = .ok limits ∧ ∀ field, (limits.deadline field).isSome = true := by
  intro second
  have hvalue : exactValue? second = some 1 := by
    rw [← value?_ofBits]
    decide +kernel
  have hpositive : ∃ value ∈ exactValue? second, 0 < value := ⟨1, hvalue, by norm_num⟩
  obtain ⟨-, -, -, hbetween⟩ := ofBits_enables (fun _ => second)
  obtain ⟨limits, hlimits, henabled⟩ := hbetween fun field value hother _ => by
    obtain rfl := Option.mem_unique hvalue hother
    norm_num
  exact ⟨hpositive, limits, hlimits, fun field => (henabled field).mpr hpositive⟩

-- A ten-thousand-millionth of a second is rounded to zero, and 2 ^ 64 seconds cannot be converted.
theorem ofBits_enables_outside :
    let tiny : UInt64 := 0x3ddb7cdfd9d7bdbb
    let huge : UInt64 := 0x43f0000000000000
    (∃ value ∈ exactValue? tiny, 0 < value) ∧ ofBits (fun _ => tiny) = .ok { wait := some 0, processing := some 0 } ∧
      deadline { wait := some 0, processing := some 0 } .wait = none ∧
      (∃ value ∈ exactValue? huge, 0 < value) ∧ ofBits (fun _ => huge) = .error .tooLong := by
  intro tiny huge
  have htiny : ∃ value ∈ exactValue? tiny, 0 < value := by
    rw [← value?_ofBits]
    exact (Option.any_eq_true _ _).mp (by decide +kernel)
  have hhuge : ∃ value ∈ exactValue? huge, 0 < value := by
    rw [← value?_ofBits]
    exact ⟨2 ^ 64, by decide +kernel, by norm_num⟩
  exact ⟨htiny, by decide +kernel, rfl, hhuge, by decide +kernel⟩

end Limits

end DeadlineQueue
