import Mathlib.Algebra.Order.Group.Int
import Mathlib.Algebra.Order.Group.Unbundled.Abs

/-!
# Signed integers of 64 bits

`int64` of `datatypes.h` and `abs64` of `util.h`. A result that leaves the range has no defined
value in the source.
-/

set_option autoImplicit false

namespace Phoenixcoin.Program

/-- An `int64`, if the number is in its range. -/
def int64 (n : ℤ) : Option ℤ := if -2 ^ 63 ≤ n ∧ n < 2 ^ 63 then some n else none

def INT64_MAX : ℤ := 2 ^ 63 - 1

def INT64_MIN : ℤ := -2 ^ 63

variable {m n : ℤ}

theorem int64_eq_some (h : int64 n = some m) : m = n := by
  unfold int64 at h
  split at h
  · exact (Option.some.inj h).symm
  · cases h

theorem int64_of_fits (hlow : -2 ^ 63 ≤ n) (hhigh : n < 2 ^ 63) : int64 n = some n :=
  if_pos ⟨hlow, hhigh⟩

@[simp]
theorem isSome_int64 : (int64 n).isSome ↔ -2 ^ 63 ≤ n ∧ n < 2 ^ 63 := by
  simp [int64]

def abs64 (n : ℤ) : Option ℤ := if 0 ≤ n then some n else int64 (-n)

theorem abs64_eq_some (h : abs64 n = some m) : m = |n| := by
  unfold abs64 at h
  split at h
  · next hpos => rw [abs_of_nonneg hpos, Option.some.inj h]
  · next hneg => rw [abs_of_neg (not_le.mp hneg), int64_eq_some h]

/-- Only the least `int64` has no absolute value. -/
theorem isSome_abs64 (hlow : -2 ^ 63 ≤ n) : (abs64 n).isSome ↔ n ≠ INT64_MIN := by
  unfold abs64 INT64_MIN
  split
  · next hpos =>
    simp
    omega
  · next hneg =>
    rw [isSome_int64]
    omega

theorem abs64_of_ne (hlow : -2 ^ 63 ≤ n) (hne : n ≠ INT64_MIN) : abs64 n = some |n| := by
  obtain ⟨m, hm⟩ := Option.isSome_iff_exists.mp ((isSome_abs64 hlow).mpr hne)
  rw [hm, abs64_eq_some hm]

end Phoenixcoin.Program
