import Mathlib.Tactic.Ring

/-!
# Sums of non-negative 64-bit integers

Two's-complement addition of two non-negative `Int64`s: while the exact sum
stays below `2 ^ 63` the machine sum is that sum, from there it wraps to a
negative value.  A check that the machine sum is not negative therefore
decides the exact bound, though the overflow has happened by then.
-/

namespace Int64Sum

variable {a b : Int64}

private theorem cast_two_pow_64 : ((2 ^ 64 : Nat) : Int) = 2 ^ 64 := rfl

/-- The machine sum of two non-negative values, by the exact sum. -/
theorem toInt_add_of_nonneg (ha : 0 ≤ a.toInt) (hb : 0 ≤ b.toInt) :
    (a + b).toInt = if a.toInt + b.toInt < 2 ^ 63 then a.toInt + b.toInt else a.toInt + b.toInt - 2 ^ 64 := by
  have := Int64.toInt_lt a
  have := Int64.toInt_lt b
  -- the exact sum lies in `[0, 2 ^ 64)`, so the balanced residue is the sum or the sum less `2 ^ 64`
  rw [Int64.toInt_add, Int.bmod_def, cast_two_pow_64]
  split_ifs <;> omega

theorem toInt_add_of_lt (ha : 0 ≤ a.toInt) (hb : 0 ≤ b.toInt) (hs : a.toInt + b.toInt < 2 ^ 63) :
    (a + b).toInt = a.toInt + b.toInt := by
  rw [toInt_add_of_nonneg ha hb, if_pos hs]

/-- The machine sum is not negative exactly when the exact sum is below `2 ^ 63`. -/
theorem toInt_add_nonneg_iff (ha : 0 ≤ a.toInt) (hb : 0 ≤ b.toInt) :
    0 ≤ (a + b).toInt ↔ a.toInt + b.toInt < 2 ^ 63 := by
  have := Int64.toInt_lt a
  have := Int64.toInt_lt b
  rw [toInt_add_of_nonneg ha hb]
  split_ifs <;> omega

/-- An exact sum from `2 ^ 63` on can only come from two non-negative values, and
their machine sum is negative. -/
theorem toInt_add_neg_of_le (hs : 2 ^ 63 ≤ a.toInt + b.toInt) : (a + b).toInt < 0 := by
  have := Int64.toInt_lt a
  have := Int64.toInt_lt b
  have ha : 0 ≤ a.toInt := by omega
  have hb : 0 ≤ b.toInt := by omega
  have hneg := (toInt_add_nonneg_iff ha hb).not.mpr (by omega)
  omega

end Int64Sum
