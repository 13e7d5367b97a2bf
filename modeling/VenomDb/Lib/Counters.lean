import Mathlib.Data.UInt

/-!
# Counters of 32 bits

A counter goes up only while it is below its last value, so that it never wraps around.
-/

namespace Counter

variable {count : UInt32}

theorem toNat_succ (room : count.toNat + 1 < 2 ^ 32) : (count + 1).toNat = count.toNat + 1 := by
  rw [UInt32.toNat_add, UInt32.toNat_one]
  exact Nat.mod_eq_of_lt room

theorem toNat_pred (positive : count ≠ 0) : (count - 1).toNat = count.toNat - 1 := by
  refine UInt32.toNat_sub_of_le count 1 ?_
  rw [UInt32.le_iff_toNat_le, UInt32.toNat_one]
  exact Nat.one_le_iff_ne_zero.mpr fun zero => positive (UInt32.toNat.inj zero)

theorem succ_ne_zero (room : count.toNat + 1 < 2 ^ 32) : count + 1 ≠ 0 := by
  intro zero
  have next := toNat_succ room
  rw [zero, UInt32.toNat_zero] at next
  exact Nat.succ_ne_zero _ next.symm

/-- After a step down there is room for a step up. -/
theorem room_pred (positive : count ≠ 0) : (count - 1).toNat + 1 < 2 ^ 32 := by
  have bound := count.toNat_lt
  have first : count.toNat ≠ 0 := fun zero => positive (UInt32.toNat.inj zero)
  rw [toNat_pred positive]
  omega

end Counter
