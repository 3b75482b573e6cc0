import Mathlib.Tactic.Ring
import Mathlib.Tactic.Linarith
import HomaSird.Data.Word
import HomaSird.Data.Reciprocal

/-! # `int64x64_t` on native 128-bit integers

A value has 64 bits before and 64 bits after the point, and every operation wraps around. A product
is exact up to its last digit: the mask that is to test its high part is empty. The inverse of an
integer is rounded up.
-/

namespace HomaSird.Core

def uint128 (value : Nat) : Nat := value % 2 ^ 128

def uint128OfInt (value : Int) : Nat := (value % 2 ^ 128).toNat

def int128 (value : Int) : Int := (value + 2 ^ 127) % 2 ^ 128 - 2 ^ 127

def InInt128 (value : Int) : Prop := -2 ^ 127 ≤ value ∧ value < 2 ^ 127

instance (value : Int) : Decidable (InInt128 value) := inferInstanceAs (Decidable (_ ∧ _))

theorem inInt128_int128 (value : Int) : InInt128 (int128 value) := by
  rw [InInt128, int128]
  omega

theorem int128_of_inInt128 {value : Int} (hval : InInt128 value) : int128 value = value := by
  obtain ⟨hlow, hhigh⟩ := hval
  rw [int128]
  omega

theorem uint128_of_lt {value : Nat} (hval : value < 2 ^ 128) : uint128 value = value :=
  Nat.mod_eq_of_lt hval

inductive HighPrecFault
  | multiplicationOverflow
  | assertion
deriving DecidableEq

/-- `v` is the value times `2 ^ 64`. -/
structure Int64x64 where
  v : Int
  inRange : InInt128 v

namespace Int64x64

def int64 (value : Int) : Int := (value + 2 ^ 63) % 2 ^ 64 - 2 ^ 63

def InInt64 (value : Int) : Prop := -2 ^ 63 ≤ value ∧ value < 2 ^ 63

instance (value : Int) : Decidable (InInt64 value) := inferInstanceAs (Decidable (_ ∧ _))

theorem int64_of_inInt64 {value : Int} (hval : InInt64 value) : int64 value = value := by
  obtain ⟨hlow, hhigh⟩ := hval
  rw [int64]
  omega

def HP_MASK_LO : Nat := 0xffffffffffffffff

/-- The complement of `HP_MASK_LO`, in the 64 bits of its type. -/
def HP_MASK_HI : Nat := uint64 (HP_MASK_LO ^^^ 0xffffffffffffffff)

def ofInt128 (value : Int) : Int64x64 := ⟨int128 value, inInt128_int128 value⟩

def ofInt (value : Int) : Int64x64 := ofInt128 (value * 2 ^ 64)

def ofParts (hi : Int) (lo : Nat) : Int64x64 := ofInt128 (int64 hi * 2 ^ 64 + uint64 lo)

def getHigh (self : Int64x64) : Int := self.v / 2 ^ 64

def getInt (self : Int64x64) : Int :=
  let negative := decide (self.v < 0)
  let value := if negative then uint128OfInt (-self.v) else uint128OfInt self.v
  let retval := int64 (value >>> 64 : Nat)
  if negative then int64 (-retval) else retval

def neg (self : Int64x64) : Int64x64 := ofInt128 (-self.v)

def add (lhs rhs : Int64x64) : Int64x64 := ofInt128 (lhs.v + rhs.v)

def round (self : Int64x64) : Int :=
  let negative := decide (self.v < 0)
  let value := if negative then self.neg else self
  let half := ofParts 0 (2 ^ 63)
  let retval := (value.add half).getHigh
  if negative then int64 (-retval) else retval

def outputSign (sa sb : Int) : Nat × Nat × Bool :=
  let negA := decide (sa < 0)
  let negB := decide (sb < 0)
  (uint128OfInt (if negA then -sa else sa), uint128OfInt (if negB then -sb else sb),
    (negA && !negB) || (!negA && negB))

def umul (a b : Nat) : Except HighPrecFault Nat :=
  let aL := a &&& HP_MASK_LO
  let bL := b &&& HP_MASK_LO
  let aH := (a >>> 64) &&& HP_MASK_LO
  let bH := (b >>> 64) &&& HP_MASK_LO
  let loPart := uint128 (aL * bL)
  let midPart := uint128 (uint128 (aL * bH) + uint128 (aH * bL))
  let hiPart := uint128 (aH * bH)
  if hiPart &&& HP_MASK_HI ≠ 0 then .error .multiplicationOverflow
  else
    let result := uint128 (loPart >>> 64 + (midPart &&& HP_MASK_LO))
    let res1 := uint128 (midPart >>> 64 + (hiPart &&& HP_MASK_LO))
    .ok (uint128 (result + uint128 (res1 <<< 64)))

/-- `*=` -/
def mul (self o : Int64x64) : Except HighPrecFault Int64x64 := do
  let (a, b, negative) := outputSign self.v o.v
  let result ← umul a b
  return ofInt128 (if negative then -(result : Int) else result)

/-! ## Division

The loops are bounded by the number of digits that are needed. -/

def DIGITS : Nat := 64

def skipTrailing : Nat → Nat → Nat → Nat × Nat
  | 0, shift, den => (shift, den)
  | left + 1, shift, den =>
    if shift < DIGITS ∧ den &&& 1 = 0 then skipTrailing left (shift + 1) (den >>> 1)
    else (shift, den)

def skipLeading (digis : Nat) : Nat → Nat → Nat → Nat × Nat
  | 0, shift, rem => (shift, rem)
  | left + 1, shift, rem =>
    if digis + shift < DIGITS ∧ rem &&& 2 ^ 127 = 0 then
      skipLeading digis left (shift + 1) (uint128 (rem <<< 1))
    else (shift, rem)

def castOff (digis rem : Nat) : Nat → Nat → Nat → Nat × Nat
  | 0, shift, den => (shift, den)
  | left + 1, shift, den =>
    if digis + shift < DIGITS ∧ (den &&& 1 = 0 ∨ rem < den) then
      castOff digis rem left (shift + 1) (den >>> 1)
    else (shift, den)

/-- The digits of the fraction: a pass whose remainder is less than the divisor gains one. -/
def fraction : Nat → Nat → Nat → Nat → Nat → Nat → Nat × Nat
  | 0, digis, _, _, _, result => (digis, result)
  | left + 1, digis, shift, rem, den, result =>
    if digis < DIGITS ∧ rem ≠ 0 then
      let led := skipLeading digis DIGITS shift rem
      let cast := castOff digis led.2 DIGITS led.1 den
      fraction left (digis + cast.1) 0 (led.2 % cast.2) cast.2
        (uint128 (uint128 (result <<< cast.1) + led.2 / cast.2))
    else (digis, result)

def udiv (a b : Nat) : Nat :=
  let skipped := skipTrailing DIGITS 0 b
  let divided := fraction DIGITS 0 skipped.1 (a % b) skipped.2 (a / b)
  if divided.1 < DIGITS then uint128 (divided.2 <<< (DIGITS - divided.1)) else divided.2

def umulByInvert (a b : Nat) : Nat :=
  let ah := a >>> 64
  let bh := b >>> 64
  let al := a &&& HP_MASK_LO
  let bl := b &&& HP_MASK_LO
  let hi := uint128 (ah * bh)
  let mid := uint128 (uint128 (ah * bl) + uint128 (al * bh)) >>> 64
  uint128 (hi + mid)

def mulByInvert (self o : Int64x64) : Int64x64 :=
  let negResult := decide (self.v < 0)
  let a := uint128OfInt (if negResult then -self.v else self.v)
  let result := umulByInvert a (uint128OfInt o.v)
  ofInt128 (if negResult then -(result : Int) else result)

def invert (v : Nat) : Except HighPrecFault Int64x64 :=
  if v ≤ 1 then .error .assertion
  else
    let result := ofInt128 (udiv (2 ^ 64) v)
    let tmp := (ofParts v 0).mulByInvert result
    if tmp.getHigh ≠ 1 then .ok (ofInt128 (result.v + 1)) else .ok result

end Int64x64

namespace Int64x64

open Data

variable {a b : Int64x64}

@[simp] theorem ofInt128_v (value : Int) : (ofInt128 value).v = int128 value := rfl

/-! ## Multiplication -/

theorem and_mask (value : Nat) : value &&& HP_MASK_LO = value % 2 ^ 64 :=
  Nat.and_two_pow_sub_one_eq_mod value 64

theorem mask_hi : HP_MASK_HI = 0 := by decide

variable {value : Int}

theorem magnitude_eq (hval : InInt128 value) :
    uint128OfInt (if decide (value < 0) then -value else value) = value.natAbs := by
  obtain ⟨hlow, hhigh⟩ := hval
  rw [uint128OfInt]
  split
  next hneg =>
    have hless := of_decide_eq_true hneg
    omega
  next hpos =>
    have hge := mt decide_eq_true hpos
    omega

theorem natAbs_le (hval : InInt128 value) : value.natAbs ≤ 2 ^ 127 := by
  obtain ⟨hlow, hhigh⟩ := hval
  omega

theorem umul_eq {a b : Nat}
    (ha : a ≤ 2 ^ 127) (hb : b ≤ 2 ^ 127) : umul a b = .ok (uint128 (a * b / 2 ^ 64)) := by
  have hsplitA := Nat.div_add_mod a (2 ^ 64)
  have hsplitB := Nat.div_add_mod b (2 ^ 64)
  have hlowA := Nat.mod_lt a (Nat.two_pow_pos 64)
  have hlowB := Nat.mod_lt b (Nat.two_pow_pos 64)
  have hhighA : a / 2 ^ 64 ≤ 2 ^ 63 := by omega
  have hhighB : b / 2 ^ 64 ≤ 2 ^ 63 := by omega
  simp only [umul, and_mask, mask_hi, Nat.and_zero, ne_eq, not_true_eq_false, if_false,
    Nat.shiftRight_eq_div_pow, Nat.shiftLeft_eq,
    Nat.mod_eq_of_lt (lt_of_le_of_lt hhighA (by decide : 2 ^ 63 < 2 ^ 64)),
    Nat.mod_eq_of_lt (lt_of_le_of_lt hhighB (by decide : 2 ^ 63 < 2 ^ 64))]
  generalize a / 2 ^ 64 = aH at *
  generalize b / 2 ^ 64 = bH at *
  generalize a % 2 ^ 64 = aL at *
  generalize b % 2 ^ 64 = bL at *
  have hlow : aL * bL ≤ (2 ^ 64 - 1) * (2 ^ 64 - 1) := Nat.mul_le_mul (by omega) (by omega)
  have hprod : a * b = aH * bH * 2 ^ 128 + (aL * bH + aH * bL) * 2 ^ 64 + aL * bL := by
    rw [← hsplitA, ← hsplitB]
    ring
  rw [hprod]
  generalize aL * bL = low at *
  generalize aL * bH = first at *
  generalize aH * bL = second at *
  generalize aH * bH = high at *
  congr 1
  simp only [uint128]
  omega

theorem natCast_mul_tdiv (first second : Nat) :
    ((first : Int) * second).tdiv (2 ^ 64) = (first * second / 2 ^ 64 : Nat) := by
  rw [← Int.natCast_mul]
  exact (Int.ofNat_tdiv _ (2 ^ 64)).symm

theorem mul_tdiv (first second : Int) :
    (first * second).tdiv (2 ^ 64) = if (decide (first < 0) && !decide (second < 0)) ||
            (!decide (first < 0) && decide (second < 0)) then
        -((first.natAbs * second.natAbs / 2 ^ 64 : Nat) : Int)
      else (first.natAbs * second.natAbs / 2 ^ 64 : Nat) := by
  rw [← natCast_mul_tdiv]
  rcases lt_or_ge first 0 with hfst | hfst <;> rcases lt_or_ge second 0 with hsnd | hsnd
  · simp [hfst, hsnd, Int.ofNat_natAbs_of_nonpos hfst.le,
      Int.ofNat_natAbs_of_nonpos hsnd.le]
  · simp [hfst, not_lt.mpr hsnd, Int.ofNat_natAbs_of_nonpos hfst.le,
      abs_of_nonneg hsnd]
  · simp [not_lt.mpr hfst, hsnd, Int.natAbs_of_nonneg hfst,
      Int.ofNat_natAbs_of_nonpos hsnd.le]
  · simp [not_lt.mpr hfst, not_lt.mpr hsnd, Int.natAbs_of_nonneg hfst,
      Int.natAbs_of_nonneg hsnd]

theorem ofInt128_congr {first second : Int}
    (hsame : int128 first = int128 second) : ofInt128 first = ofInt128 second := by
  simp only [ofInt128, hsame]

theorem mul_eq (a b : Int64x64) : a.mul b = .ok (ofInt128 ((a.v * b.v).tdiv (2 ^ 64))) := by
  rw [mul, outputSign]
  dsimp only
  rw [magnitude_eq a.inRange, magnitude_eq b.inRange, umul_eq (natAbs_le a.inRange)
    (natAbs_le b.inRange), mul_tdiv]
  generalize a.v.natAbs * b.v.natAbs / 2 ^ 64 = product
  have hwrap : int128 (uint128 product) = int128 product ∧
      int128 (-(uint128 product : Nat)) = int128 (-product) := by
    simp only [int128, uint128]
    omega
  refine congrArg Except.ok (ofInt128_congr ?_)
  split
  · exact hwrap.2
  · exact hwrap.1

theorem sign_tdiv (hsome : value.tdiv (2 ^ 64) ≠ 0) : (value.tdiv (2 ^ 64)).sign = value.sign := by
  rcases lt_or_ge value 0 with hneg | hpos
  · have hless : 0 ≤ (-value).tdiv (2 ^ 64) := Int.tdiv_nonneg (by omega) (by decide)
    rw [Int.neg_tdiv] at hless
    rw [Int.sign_eq_neg_one_of_neg hneg, Int.sign_eq_neg_one_of_neg (by omega)]
  · have hge : 0 ≤ value.tdiv (2 ^ 64) := Int.tdiv_nonneg hpos (by decide)
    have hval : value ≠ 0 := fun hzero => hsome (by rw [hzero, Int.zero_tdiv])
    rw [Int.sign_eq_one_of_pos (by omega), Int.sign_eq_one_of_pos (by omega)]

/-- `*=` stops, or it leaves the exact product truncated toward zero, with its sign. -/
def MulExact (a b : Int64x64) : Prop :=
  (∃ fault, a.mul b = .error fault) ∨
    ∃ product, a.mul b = .ok product ∧ product.v = (a.v * b.v).tdiv (2 ^ 64) ∧
      (product.v ≠ 0 → product.v.sign = a.v.sign * b.v.sign)

/-- It never stops, and the product is exact if it is in the range. -/
theorem mulExact_iff (a b : Int64x64) : MulExact a b ↔ InInt128 ((a.v * b.v).tdiv (2 ^ 64)) := by
  rw [MulExact, mul_eq]
  constructor
  · rintro (⟨fault, hfault⟩ | ⟨product, hproduct, hexact, -⟩)
    · cases hfault
    · rw [← hexact]
      exact product.inRange
  · intro hrng
    have hexact := int128_of_inInt128 hrng
    refine .inr ⟨_, rfl, hexact, fun hsome => ?_⟩
    change int128 _ ≠ 0 at hsome
    change (int128 _).sign = _
    rw [hexact] at hsome ⊢
    rw [sign_tdiv hsome, Int.sign_mul]

/-- Twice a value of `2 ^ 62` is negative. -/
theorem not_mulExact_double :
    (ofInt (2 ^ 62)).mul (ofInt 2) = .ok (ofInt (-2 ^ 63)) ∧
      ¬ MulExact (ofInt (2 ^ 62)) (ofInt 2) := by
  refine ⟨?_, ?_⟩
  · rw [mul_eq]
    exact congrArg Except.ok (ofInt128_congr (by decide))
  · rw [mulExact_iff]
    decide

/-! ## The inverse of an integer -/

theorem skipTrailing_spec (left shift den : Nat) (hshift : shift ≤ DIGITS) :
    (skipTrailing left shift den).1 ≤ DIGITS ∧ shift ≤ (skipTrailing left shift den).1 ∧
    (skipTrailing left shift den).2 * 2 ^ (skipTrailing left shift den).1 = den * 2 ^ shift := by
  induction left generalizing shift den with
  | zero => exact ⟨hshift, le_rfl, rfl⟩
  | succ left ih =>
    rw [skipTrailing]
    split
    next hmore =>
      obtain ⟨hdigits, hle, hval⟩ := ih (shift + 1) (den >>> 1) hmore.1
      refine ⟨hdigits, Nat.le_of_succ_le hle, hval.trans ?_⟩
      have heven : den % 2 = 0 := by
        rw [← Nat.and_one_is_mod]
        exact hmore.2
      have hhalf := Nat.div_add_mod den 2
      rw [heven, add_zero] at hhalf
      rw [Nat.shiftRight_eq_div_pow, Nat.pow_one, pow_succ]
      calc den / 2 * (2 ^ shift * 2) = 2 * (den / 2) * 2 ^ shift := by ring
        _ = den * 2 ^ shift := by rw [hhalf]
    · exact ⟨hshift, le_rfl, rfl⟩

theorem and_highBit {value : Nat} (hval : value < 2 ^ 127) : value &&& 2 ^ 127 = 0 := by
  apply Nat.eq_of_testBit_eq
  intro place
  rw [Nat.testBit_and, Nat.testBit_two_pow, Nat.zero_testBit]
  by_cases hplace : 127 = place
  · rw [← hplace, Nat.testBit_lt_two_pow hval, Bool.false_and]
  · rw [decide_eq_false hplace, Bool.and_false]

theorem skipLeading_eq {left shift rem : Nat} (hleft : DIGITS ≤ shift + left)
    (hshift : shift ≤ DIGITS) (hrem : rem * 2 ^ (DIGITS - shift) < 2 ^ 127) :
    skipLeading 0 left shift rem = (DIGITS, rem * 2 ^ (DIGITS - shift)) := by
  induction left generalizing shift rem with
  | zero =>
    obtain rfl : shift = DIGITS := by omega
    rw [skipLeading, Nat.sub_self, Nat.pow_zero, Nat.mul_one]
  | succ left ih =>
    rw [skipLeading, Nat.zero_add]
    by_cases hmore : shift < DIGITS
    · have hpower : DIGITS - shift = DIGITS - (shift + 1) + 1 := by omega
      rw [hpower, Nat.pow_succ] at hrem
      have hdouble : rem * 2 * 2 ^ (DIGITS - (shift + 1)) < 2 ^ 127 := by
        calc rem * 2 * 2 ^ (DIGITS - (shift + 1))
            = rem * (2 ^ (DIGITS - (shift + 1)) * 2) := by ring
          _ < 2 ^ 127 := hrem
      have hword : rem * 2 < 2 ^ 127 :=
        Nat.lt_of_le_of_lt (Nat.le_mul_of_pos_right _ (Nat.two_pow_pos _)) hdouble
      rw [if_pos ⟨hmore, and_highBit (by omega)⟩, Nat.shiftLeft_eq, Nat.pow_one,
        uint128_of_lt (by omega), ih (by omega) hmore hdouble, hpower, Nat.pow_succ]
      congr 1
      ring
    · obtain rfl : shift = DIGITS := by omega
      rw [if_neg fun hboth => hmore hboth.1, Nat.sub_self, Nat.pow_zero, Nat.mul_one]

theorem castOff_digits (rem left den : Nat) : castOff 0 rem left DIGITS den = (DIGITS, den) := by
  cases left with
  | zero => rfl
  | succ left => rw [castOff, if_neg (fun hboth => absurd hboth.1 (by decide))]

theorem fraction_digits (left shift rem den result : Nat) :
    fraction left DIGITS shift rem den result = (DIGITS, result) := by
  cases left with
  | zero => rfl
  | succ left => rw [fraction, if_neg (fun hboth => absurd hboth.1 (by decide))]

theorem fraction_zero (left shift den result : Nat) :
    fraction left 0 shift 0 den result = (0, result) := by
  cases left with
  | zero => rfl
  | succ left => rw [fraction, if_neg (fun hboth => hboth.2 rfl)]

theorem fraction_once {left shift rem den result : Nat} (hshift : shift ≤ DIGITS) (hsome : rem ≠ 0)
    (hsmall : rem * 2 ^ (DIGITS - shift) < 2 ^ 127) :
    fraction (left + 1) 0 shift rem den result =
      (DIGITS, uint128 (uint128 (result <<< DIGITS) + rem * 2 ^ (DIGITS - shift) / den)) := by
  rw [fraction, if_pos ⟨by decide, hsome⟩, skipLeading_eq (Nat.le_add_left _ _) hshift hsmall]
  simp only [castOff_digits, Nat.zero_add, fraction_digits]

theorem udiv_one {v : Nat} (hlow : 1 < v) (hhigh : v < 2 ^ 63) : udiv (2 ^ 64) v = 2 ^ 128 / v := by
  have hdivide := Nat.div_add_mod (2 ^ 64) v
  have hrem := Nat.mod_lt (2 ^ 64) (Nat.zero_lt_of_lt hlow)
  have hquo : 2 ^ 64 / v < 2 ^ 64 := Nat.div_lt_self (by decide) hlow
  have hwhole : 2 ^ 128 / v = 2 ^ 64 / v * 2 ^ 64 + 2 ^ 64 % v * 2 ^ 64 / v := by
    have hsplit : 2 ^ 128 = v * (2 ^ 64 / v * 2 ^ 64) + 2 ^ 64 % v * 2 ^ 64 := by
      calc 2 ^ 128 = 2 ^ 64 * 2 ^ 64 := rfl
        _ = (v * (2 ^ 64 / v) + 2 ^ 64 % v) * 2 ^ 64 := by rw [hdivide]
        _ = v * (2 ^ 64 / v * 2 ^ 64) + 2 ^ 64 % v * 2 ^ 64 := by ring
    rw [hsplit, Nat.mul_add_div (Nat.zero_lt_of_lt hlow)]
  have hskipped := skipTrailing_spec DIGITS 0 v (Nat.zero_le _)
  rw [hwhole, udiv]
  generalize skipTrailing DIGITS 0 v = skipped at *
  obtain ⟨shift, den⟩ := skipped
  obtain ⟨hshift, -, hden⟩ := hskipped
  dsimp only at *
  rw [Nat.pow_zero, Nat.mul_one] at hden
  generalize 2 ^ 64 / v = quo at *
  generalize 2 ^ 64 % v = rem at *
  rcases Nat.eq_zero_or_pos rem with rfl | hsome
  · simp only [fraction_zero, Nat.zero_mul, Nat.zero_div, Nat.add_zero, DIGITS, Nat.sub_zero,
      Nat.shiftLeft_eq, Nat.ofNat_pos, if_true]
    exact uint128_of_lt (by omega)
  · have hpower : 2 ^ (DIGITS - shift) * 2 ^ shift = 2 ^ 64 := by
      rw [← Nat.pow_add, Nat.sub_add_cancel hshift, DIGITS]
    have hsmall : rem * 2 ^ (DIGITS - shift) < 2 ^ 127 := by
      calc rem * 2 ^ (DIGITS - shift) ≤ rem * 2 ^ 64 :=
            Nat.mul_le_mul_left _ (Nat.pow_le_pow_right (by decide) (Nat.sub_le _ _))
        _ < 2 ^ 127 := by omega
    have hdigits : rem * 2 ^ (DIGITS - shift) / den = rem * 2 ^ 64 / v := by
      rw [← hden, ← hpower, ← Nat.mul_assoc]
      exact (Nat.mul_div_mul_right _ _ (Nat.two_pow_pos _)).symm
    have hfraction : rem * 2 ^ 64 / v < 2 ^ 64 := by
      rw [Nat.div_lt_iff_lt_mul (Nat.zero_lt_of_lt hlow), Nat.mul_comm]
      exact Nat.mul_lt_mul_of_pos_left hrem (by decide)
    have honce : fraction DIGITS 0 shift rem den quo = _ :=
      @fraction_once 63 shift rem den quo hshift hsome.ne' hsmall
    rw [honce, hdigits, if_neg (Nat.lt_irrefl _), Nat.shiftLeft_eq]
    generalize rem * 2 ^ 64 / v = digits at *
    simp only [DIGITS, uint128]
    omega

theorem umulByInvert_eq {value inverse : Nat} (hval : value ≤ 2 ^ 63) (hinv : inverse < 2 ^ 127) :
    umulByInvert (value * 2 ^ 64) inverse = value * inverse / 2 ^ 64 := by
  have hsplit := Nat.div_add_mod inverse (2 ^ 64)
  have hlow := Nat.mod_lt inverse (Nat.two_pow_pos 64)
  simp only [umulByInvert, and_mask, Nat.shiftRight_eq_div_pow,
    Nat.mul_div_cancel value (Nat.two_pow_pos 64), Nat.mul_mod_left, zero_mul]
  generalize inverse / 2 ^ 64 = bh at *
  generalize inverse % 2 ^ 64 = bl at *
  have hfst : value * bh ≤ 2 ^ 63 * 2 ^ 63 := Nat.mul_le_mul hval (by omega)
  have hsnd : value * bl ≤ 2 ^ 63 * 2 ^ 64 := Nat.mul_le_mul hval (by omega)
  have hprod : value * inverse = value * bh * 2 ^ 64 + value * bl := by
    rw [← hsplit]
    ring
  rw [hprod]
  simp only [uint128]
  omega

def signed (value : Int) (magnitude : Nat) : Int :=
  if value < 0 then -(magnitude : Int) else magnitude

theorem mulByInvert_eq (hval : value.natAbs ≤ 2 ^ 63)
    {inverse : Nat} (hinv : inverse < 2 ^ 127) (ha : a.v = value * 2 ^ 64) (hb : b.v = inverse) :
    a.mulByInvert b = ofInt128 (signed value (value.natAbs * inverse / 2 ^ 64)) := by
  have hmagnitude : a.v.natAbs = value.natAbs * 2 ^ 64 := by
    rw [ha, Int.natAbs_mul]
    rfl
  have hsign : decide (a.v < 0) = decide (value < 0) := by
    rw [ha]
    exact decide_eq_decide.mpr (by omega)
  have hword : uint128OfInt (inverse : Int) = inverse := by
    rw [uint128OfInt]
    omega
  rw [mulByInvert, magnitude_eq a.inRange, hmagnitude, hb, hword, umulByInvert_eq hval hinv]
  simp only [hsign, signed, decide_eq_true_eq]

theorem invert_spec {v : Nat} (hlow : 2 < v) (hhigh : v < 2 ^ 63) :
    ∃ result inverse,
      invert v = .ok result ∧ result.v = (inverse : Nat) ∧ inverse < 2 ^ 127 ∧
        Reciprocal (2 ^ 64 * 2 ^ 64) v inverse := by
  have hpos : 0 < v := by omega
  have hfloor := Nat.mul_div_le (2 ^ 128) v
  have hrecip : Reciprocal (2 ^ 64 * 2 ^ 64) v _ := .of_floor hpos
  have hscale : 2 ^ 64 * 2 ^ 64 = 2 ^ 128 := rfl
  rw [hscale] at hrecip
  have hsmall : 2 ^ 128 / v < 2 ^ 127 - 1 := by
    rw [Nat.div_lt_iff_lt_mul hpos]
    omega
  rw [invert, if_neg (by omega), udiv_one (by omega) hhigh]
  generalize 2 ^ 128 / v = quotient at *
  have hquot : (ofInt128 quotient).v = (quotient : Nat) := int128_of_inInt128 ⟨by omega, by omega⟩
  have hv : (ofParts v 0).v = (v : Int) * 2 ^ 64 := by
    have hval : int64 v = v := int64_of_inInt64 ⟨by omega, by omega⟩
    have hzero : ((uint64 0 : Nat) : Int) = 0 := rfl
    rw [ofParts, hval, hzero, Int.add_zero]
    exact int128_of_inInt128 ⟨by omega, by omega⟩
  have htmp := @mulByInvert_eq (ofParts v 0) (ofInt128 quotient) v (by omega) quotient (by omega)
    hv hquot
  have hsigned : signed v (v * quotient / 2 ^ 64) = (v * quotient / 2 ^ 64 : Nat) :=
    if_neg (Int.not_lt.mpr (Int.natCast_nonneg v))
  rw [Int.natAbs_natCast, hsigned] at htmp
  have hhighPart : ((ofParts v 0).mulByInvert (ofInt128 quotient)).getHigh ≠ 1 ↔
      v * quotient ≠ 2 ^ 128 := by
    rw [htmp, getHigh]
    change int128 _ / _ ≠ 1 ↔ _
    rw [int128_of_inInt128 ⟨by omega, by omega⟩]
    omega
  dsimp only
  by_cases hexact : v * quotient = 2 ^ 128
  · rw [if_neg (mt hhighPart.mp (not_not.mpr hexact))]
    rw [if_pos hexact] at hrecip
    exact ⟨_, quotient, rfl, hquot, by omega, hrecip⟩
  · rw [if_pos (hhighPart.mpr hexact), hquot]
    rw [if_neg hexact] at hrecip
    refine ⟨_, quotient + 1, rfl, ?_, by omega, hrecip⟩
    exact int128_of_inInt128 ⟨by omega, by omega⟩

/-! ## Rounding -/

theorem ofInt_v (hval : InInt64 value) : (ofInt value).v = value * 2 ^ 64 := by
  obtain ⟨hlow, hhigh⟩ := hval
  exact int128_of_inInt128 ⟨by omega, by omega⟩

theorem round_signed (hval : InInt64 value) {magnitude : Nat}
    (hlow : value.natAbs * 2 ^ 64 ≤ magnitude + 2 ^ 63)
    (hhigh : magnitude < value.natAbs * 2 ^ 64 + 2 ^ 63) :
    (ofInt128 (signed value magnitude)).round = value := by
  obtain ⟨hbelow, habove⟩ := hval
  have hhalf : (ofParts 0 (2 ^ 63)).v = 2 ^ 63 := by decide
  rw [round]
  rcases lt_or_ge value 0 with hneg | hpos
  · simp only [ofInt128_v, signed, if_pos hneg]
    split
    next hsign =>
      have hless := of_decide_eq_true hsign
      simp only [getHigh, add, neg, hhalf, ofInt128_v, int128, int64] at hless ⊢
      omega
    next hsign =>
      have hge := mt decide_eq_true hsign
      simp only [getHigh, add, hhalf, ofInt128_v, int128] at hge ⊢
      omega
  · simp only [ofInt128_v, signed, if_neg (not_lt.mpr hpos)]
    have hsum : int128 magnitude = magnitude := int128_of_inInt128 ⟨by omega, by omega⟩
    have hge : ¬ decide ((magnitude : Int) < 0) = true :=
      mt of_decide_eq_true (Int.not_lt.mpr (Int.natCast_nonneg magnitude))
    simp only [hsum, if_neg hge, getHigh, add, hhalf, ofInt128_v]
    rw [int128_of_inInt128 ⟨by omega, by omega⟩]
    omega

end Int64x64

end HomaSird.Core
