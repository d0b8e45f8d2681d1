import Mathlib.Data.Nat.Bitwise
import Mathlib.Data.UInt
import Mathlib.Tactic.NormNum

/-! Clearing the low bits of a word rounds it down to a multiple of a power of two. -/
namespace Align

theorem clearLow_toNat {k : Nat} (word : k ≤ 64) {mask : UInt64} (high : mask.toNat = (2 ^ (64 - k) - 1) <<< k)
    (x : UInt64) : (x &&& mask).toNat = x.toNat / 2 ^ k * 2 ^ k := by
  have fits : x.toNat < 2 ^ 64 := x.toNat_lt
  have shifted : x.toNat / 2 ^ k * 2 ^ k = (x.toNat >>> k) <<< k := by
    rw [Nat.shiftRight_eq_div_pow, Nat.shiftLeft_eq]
  rw [UInt64.toNat_and, high, shifted]
  apply Nat.eq_of_testBit_eq
  intro i
  rw [Nat.testBit_and, Nat.testBit_shiftLeft, Nat.testBit_shiftLeft, Nat.testBit_two_pow_sub_one,
    Nat.testBit_shiftRight]
  by_cases low : k ≤ i
  · rw [show k + (i - k) = i by omega]
    by_cases inside : i - k < 64 - k
    · simp [low, inside]
    · have clear : x.toNat.testBit i = false :=
        Nat.testBit_lt_two_pow (lt_of_lt_of_le fits (Nat.pow_le_pow_right (by norm_num) (by omega)))
      simp [clear]
  · simp [low]

end Align
