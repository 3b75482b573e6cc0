import Mathlib.Tactic.Linarith
import Mathlib.Tactic.Ring

/-! # Newton's iteration for the inverse square root, in fixed point

A root stands for the fraction `root ^ 2 / scale`, and is the inverse square root of a count when
`count * root ^ 2 = scale`. A step of the iteration, rounded down, gives a root that is not above
it, wherever it starts.
-/

namespace HomaSird.InverseRoot

theorem mul_sq_le {t y : Nat} (hy : y ≤ 3 * t) : y * (3 * t - y) ^ 2 ≤ 4 * t ^ 3 := by
  zify [hy]
  have hlast : (0 : Int) ≤ 4 * t - y := by
    linarith
  have hnonneg := mul_nonneg (sq_nonneg ((t : Int) - y)) hlast
  linarith

theorem step_le {scale count root next : Nat}
    (hscale : 0 < scale) (hroot : count * root ^ 2 ≤ 3 * scale) (hnext :
    2 * scale * next ≤ root * (3 * scale - count * root ^ 2)) : count * next ^ 2 ≤ scale := by
  have hsq : (2 * scale * next) ^ 2 ≤ (root * (3 * scale - count * root ^ 2)) ^ 2 :=
    Nat.pow_le_pow_left hnext 2
  have hmost := mul_sq_le hroot
  have hbd : (4 * scale ^ 2) * (count * next ^ 2) ≤ (4 * scale ^ 2) * scale :=
    calc (4 * scale ^ 2) * (count * next ^ 2) = count * (2 * scale * next) ^ 2 := by ring
      _ ≤ count * (root * (3 * scale - count * root ^ 2)) ^ 2 := Nat.mul_le_mul_left count hsq
      _ = count * root ^ 2 * (3 * scale - count * root ^ 2) ^ 2 := by ring
      _ ≤ 4 * scale ^ 3 := hmost
      _ = (4 * scale ^ 2) * scale := by ring
  exact Nat.le_of_mul_le_mul_left hbd (by positivity)

theorem succ_le {scale count root : Nat} (hroot : count * root ^ 2 ≤ scale)
    (hone : root ^ 2 ≤ scale) : (count + 1) * root ^ 2 ≤ 2 * scale := by
  rw [Nat.succ_mul, Nat.two_mul]
  exact Nat.add_le_add hroot hone

end HomaSird.InverseRoot
