import Mathlib.Tactic.Ring
import Mathlib.Tactic.Linarith

/-! # Division by multiplication with a rounded reciprocal

A reciprocal of a divisor is rounded up from a scale. It divides exactly what is small against the
scale, and a product with it is brought back by the divisor, but for a small excess.
-/

namespace HomaSird.Data

structure Reciprocal (scale divisor inverse : Nat) : Prop where
  le : scale ≤ divisor * inverse
  lt : divisor * inverse < scale + divisor

namespace Reciprocal

variable {scale divisor inverse part high value : Nat}

theorem of_floor (hpos : 0 < divisor) :
    Reciprocal scale divisor
      (if divisor * (scale / divisor) = scale then scale / divisor else scale / divisor + 1) := by
  have hfloor := Nat.div_add_mod scale divisor
  have hless := Nat.mod_lt scale hpos
  split
  next hexact => exact ⟨by omega, by omega⟩
  next hinexact =>
    constructor
    · rw [Nat.mul_succ]
      omega
    · rw [Nat.mul_succ]
      omega

theorem excess (hrecip : Reciprocal scale divisor inverse) :
    ∃ excess, divisor * inverse = scale + excess ∧ excess < divisor := by
  obtain ⟨hle, hlt⟩ := hrecip
  exact ⟨divisor * inverse - scale, by omega, by omega⟩

theorem mul_div (hrecip : Reciprocal scale divisor inverse) (hscale : 0 < scale)
    (hsmall : value * divisor ≤ scale) : value * inverse / scale = value / divisor := by
  obtain ⟨excess, hinv, hexcess⟩ := hrecip.excess
  have hpos : 0 < divisor := Nat.lt_of_le_of_lt (Nat.zero_le _) hexcess
  have hquot := Nat.div_add_mod value divisor
  have hremainder := Nat.mod_lt value hpos
  generalize value / divisor = quotient at *
  generalize value % divisor = remainder at *
  have hprod : value * inverse * divisor = value * scale + value * excess := by
    rw [Nat.mul_assoc, Nat.mul_comm inverse, hinv, Nat.mul_add]
  apply Nat.div_eq_of_lt_le
  · refine Nat.le_of_mul_le_mul_right ?_ hpos
    calc quotient * scale * divisor = divisor * quotient * scale := by ring
      _ ≤ value * scale := Nat.mul_le_mul_right _ (by omega)
      _ ≤ value * inverse * divisor := by omega
  · refine Nat.lt_of_mul_lt_mul_right (a := divisor) ?_
    have hless : value * excess < scale := by
      rcases Nat.eq_zero_or_pos value with rfl | hsome
      · omega
      · exact Nat.lt_of_lt_of_le (Nat.mul_lt_mul_of_pos_left hexcess hsome) hsmall
    calc value * inverse * divisor < value * scale + scale := by omega
      _ = (value + 1) * scale := by ring
      _ ≤ (divisor * quotient + divisor) * scale := Nat.mul_le_mul_right _ (by omega)
      _ = (quotient + 1) * scale * divisor := by ring

theorem mul_mul_div (hrecip : Reciprocal (part * high) divisor inverse)
    (hsmall : value * divisor ≤ part) : value * divisor * inverse / part = value * high := by
  obtain ⟨excess, hinv, hexcess⟩ := hrecip.excess
  have hprod : value * divisor * inverse = part * (value * high) + value * excess := by
    rw [Nat.mul_assoc, hinv]
    ring
  rcases Nat.eq_zero_or_pos value with rfl | hsome
  · simp
  have hless : value * excess < part :=
    Nat.lt_of_lt_of_le (Nat.mul_lt_mul_of_pos_left hexcess hsome) hsmall
  rw [hprod, Nat.mul_add_div (Nat.lt_of_le_of_lt (Nat.zero_le _) hless),
    Nat.div_eq_of_lt hless, Nat.add_zero]

/-- What a quotient is brought back to is short by less than the divisor, and exceeds the value by
a part of it at most. -/
theorem mul_div_mul (hrecip : Reciprocal (part * high) divisor inverse) (hpart : 0 < part) :
    value * high < value * inverse / part * divisor + divisor ∧
      value * inverse / part * divisor * part ≤ value * high * part + value * divisor := by
  obtain ⟨excess, hinv, hexcess⟩ := hrecip.excess
  have hprod : value * inverse * divisor = value * high * part + value * excess := by
    rw [Nat.mul_assoc, Nat.mul_comm inverse, hinv]
    ring
  have hdivide := Nat.div_add_mod (value * inverse) part
  have hless := Nat.mod_lt (value * inverse) hpart
  generalize value * inverse / part = quotient at *
  generalize value * inverse % part = remainder at *
  constructor
  · refine Nat.lt_of_mul_lt_mul_right (a := part) ?_
    calc value * high * part ≤ value * inverse * divisor := by omega
      _ = (part * quotient + remainder) * divisor := by rw [hdivide]
      _ < (part * quotient + part) * divisor :=
          Nat.mul_lt_mul_of_pos_right (by omega) (Nat.lt_of_le_of_lt (Nat.zero_le _) hexcess)
      _ = (quotient * divisor + divisor) * part := by ring
  · calc quotient * divisor * part = part * quotient * divisor := by ring
      _ ≤ value * inverse * divisor := Nat.mul_le_mul_right _ (by omega)
      _ = value * high * part + value * excess := hprod
      _ ≤ value * high * part + value * divisor :=
          Nat.add_le_add_left (Nat.mul_le_mul_left _ hexcess.le) _

end Reciprocal

end HomaSird.Data
