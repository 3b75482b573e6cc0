import Mathlib.Data.Int.Log
import Mathlib.Data.Rat.Floor

/-! # Quotients in double precision

A nonnegative number is rounded to the nearest one with a significand of 53 bits, and to the even
one of two that are as near. Rounding a quotient of words does not move it over a whole number.
-/

namespace HomaSird.Double

def nearestEven (value : Rat) : Int :=
  let low := ⌊value⌋
  if value - low < 1 / 2 then low
  else if 1 / 2 < value - low then low + 1
  else low + low % 2

/-- The distance of the numbers of 53 bits around a number. -/
def spacing (value : Rat) : Rat := 2 ^ (Int.log 2 value - 52)

def round (value : Rat) : Rat := nearestEven (value / spacing value) * spacing value

theorem nearestEven_intCast (value : Int) : nearestEven value = value := by simp [nearestEven]

theorem nearestEven_error (value : Rat) : |(nearestEven value : Rat) - value| ≤ 1 / 2 := by
  have hlow := Int.floor_le value
  have hhigh := Int.lt_floor_add_one value
  have hmod : ⌊value⌋ % 2 = 0 ∨ ⌊value⌋ % 2 = 1 := by omega
  rw [nearestEven, abs_le]
  split
  · constructor <;> linarith
  split
  · push_cast
    constructor <;> linarith
  · rcases hmod with hmod | hmod
    · rw [hmod]
      push_cast
      constructor <;> linarith
    · rw [hmod]
      push_cast
      constructor <;> linarith

theorem spacing_pos (value : Rat) : 0 < spacing value := zpow_pos (by decide) _

theorem spacing_le {value : Rat} (hpos : 0 < value) : spacing value * 2 ^ 52 ≤ value := by
  have hlog := @Int.zpow_log_le_self Rat _ _ _ _ 2 _ (by decide) hpos
  rw [spacing, ← zpow_natCast, ← zpow_add₀ (by decide)]
  simpa using hlog

theorem round_error {value : Rat} (hpos : 0 < value) : |round value - value| * 2 ^ 53 ≤ value := by
  have hspacing := spacing_pos value
  have herror := nearestEven_error (value / spacing value)
  have hscaled : round value - value =
      (nearestEven (value / spacing value) - value / spacing value) * spacing value := by
    rw [round, sub_mul, div_mul_cancel₀ _ hspacing.ne']
  rw [hscaled, abs_mul, abs_of_pos hspacing]
  have hhalf := mul_le_mul_of_nonneg_right herror hspacing.le
  have hle := spacing_le hpos
  linarith

theorem round_natCast {value : Nat} (hval : value < 2 ^ 53) : round value = value := by
  rcases Nat.eq_zero_or_pos value with rfl | hpos
  · simp [round, nearestEven]
  have hlog : Int.log 2 (value : Rat) = Nat.log 2 value := Int.log_natCast 2 value
  have hsmall : Nat.log 2 value ≤ 52 := Nat.le_of_lt_succ (Nat.log_lt_of_lt_pow hpos.ne' hval)
  obtain ⟨bits, hbits⟩ := Nat.exists_eq_add_of_le hsmall
  have hspacing : spacing value * 2 ^ bits = 1 := by
    rw [spacing, hlog, ← zpow_natCast, ← zpow_add₀ (by decide),
      show ((Nat.log 2 value : Int) - 52 + (bits : Nat)) = 0 by omega, zpow_zero]
  have hscaled : (value : Rat) / spacing value = ((value * 2 ^ bits : Nat) : Int) := by
    rw [div_eq_iff (spacing_pos _).ne']
    push_cast
    rw [mul_assoc, mul_comm _ (spacing _), hspacing, mul_one]
  rw [round, hscaled, nearestEven_intCast, ← hscaled, div_mul_cancel₀ _ (spacing_pos _).ne']

theorem ceil_round_div {first second : Nat} (hfst : first < 2 ^ 53) (hsnd : 0 < second) :
    ⌈round ((first : Rat) / second)⌉ = ⌈(first : Rat) / second⌉ := by
  have hcast : (0 : Rat) < second := Nat.cast_pos.mpr hsnd
  rcases Nat.eq_zero_or_pos first with rfl | hpos
  · simp [round, nearestEven]
  obtain ⟨hlow, hhigh⟩ := Int.ceil_eq_iff.mp (rfl : ⌈(first : Rat) / second⌉ = _)
  generalize ⌈(first : Rat) / second⌉ = whole at hlow hhigh ⊢
  rw [lt_div_iff₀ hcast] at hlow
  rw [div_le_iff₀ hcast] at hhigh
  have hbelow : (whole - 1) * second < (first : Int) := by exact_mod_cast hlow
  have habove : (first : Int) ≤ whole * second := by exact_mod_cast hhigh
  rcases habove.eq_or_lt with hexact | hless
  · have hwhole : (first : Rat) / second = whole := by
      rw [div_eq_iff hcast.ne']
      exact_mod_cast hexact
    obtain ⟨value, rfl⟩ := Int.eq_ofNat_of_zero_le (show 0 ≤ whole by
      by_contra hneg
      have hmul := Int.mul_nonpos_of_nonpos_of_nonneg (show whole ≤ 0 by omega)
        (Int.natCast_nonneg second)
      omega)
    have hval : value ≤ first := by
      have hmul : first = value * second := by exact_mod_cast hexact
      rw [hmul]
      exact Nat.le_mul_of_pos_right _ hsnd
    rw [hwhole, Int.cast_natCast, round_natCast (lt_of_le_of_lt hval hfst)]
    exact Int.ceil_natCast value
  · -- the quotient is at least `1 / second` away from every whole number around it
    have hbelow' : ((whole - 1) * second + 1 : Rat) ≤ first := by exact_mod_cast hbelow
    have habove' : (first + 1 : Rat) ≤ whole * second := by exact_mod_cast hless
    have hfirst' : (first : Rat) < 2 ^ 53 := by exact_mod_cast hfst
    have herror := round_error (div_pos (Nat.cast_pos.mpr hpos) hcast)
    generalize hquotient : (first : Rat) / second = quotient at herror ⊢
    have hscaled : quotient * second = first := by
      rw [← hquotient, div_mul_cancel₀ _ hcast.ne']
    have hsmall : |round quotient - quotient| * second < 1 := by
      have hmul := mul_le_mul_of_nonneg_right herror hcast.le
      rw [hscaled] at hmul
      linarith
    have hsplit := abs_le.mp (le_refl |round quotient - quotient|)
    rw [Int.ceil_eq_iff]
    constructor
    · refine lt_of_mul_lt_mul_right ?_ hcast.le
      have hmul := mul_le_mul_of_nonneg_right hsplit.1 hcast.le
      linarith
    · refine le_of_mul_le_mul_right ?_ hcast
      have hmul := mul_le_mul_of_nonneg_right hsplit.2 hcast.le
      linarith

end HomaSird.Double
