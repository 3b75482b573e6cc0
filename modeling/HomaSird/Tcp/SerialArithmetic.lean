import Mathlib.Data.BitVec
import HomaSird.Tcp.SequenceNumber

/-! # Sequence numbers of any width under serial arithmetic

The comparisons and the difference look at how far one number is ahead of another around the
whole range. They agree, and do not notice when both numbers move, unless each number is as far
ahead of the other: then the comparison falls back on the numeric values, and the difference is
the one signed value that has no positive counterpart.
-/

namespace HomaSird.Tcp.SequenceNumber

variable {width : Nat}

/-- `operator+` with a signed amount. -/
def addSigned (number : SequenceNumber width) (delta : Int) : SequenceNumber width :=
  ⟨number.value + BitVec.ofInt width delta⟩

/-- How far a number is ahead of another, counted upwards around the range. -/
def ahead (number other : SequenceNumber width) : Nat := (number.value - other.value).toNat

def Antipodal (number other : SequenceNumber width) : Prop :=
  number.ahead other = 2 ^ (width - 1)

instance (number other : SequenceNumber width) : Decidable (Antipodal number other) :=
  inferInstanceAs (Decidable (_ = _))

def Trichotomous (a b : SequenceNumber width) : Prop :=
  (a.lt b = true ∧ a ≠ b ∧ a.gt b = false) ∨ (a.lt b = false ∧ a = b ∧ a.gt b = false) ∨
    (a.lt b = false ∧ a ≠ b ∧ a.gt b = true)

structure Serial (a b : SequenceNumber width) : Prop where
  trichotomous : Trichotomous a b
  lt_addSigned : ∀ delta, (a.addSigned delta).lt (b.addSigned delta) = a.lt b
  eq_addSigned : ∀ delta, a.addSigned delta = b.addSigned delta ↔ a = b
  gt_addSigned : ∀ delta, (a.addSigned delta).gt (b.addSigned delta) = a.gt b
  addSigned_sub : b.addSigned (a.sub b) = a
  sub_pos : 0 < a.sub b ↔ a.gt b = true

variable {a b : SequenceNumber width}

@[ext] theorem ext (hval : a.value = b.value) : a = b := by
  cases a
  cases b
  cases hval
  rfl

/-! ## Comparisons by the distance ahead -/

theorem ahead_addSigned (a b : SequenceNumber width)
    (delta : Int) : (a.addSigned delta).ahead (b.addSigned delta) = a.ahead b :=
  congrArg BitVec.toNat (add_sub_add_right_eq_sub a.value b.value (BitVec.ofInt width delta))

theorem ahead_eq_zero : a.ahead b = 0 ↔ a = b := by
  constructor
  · intro hzero
    apply ext
    have hval : a.value - b.value = 0 := BitVec.eq_of_toNat_eq hzero
    exact sub_eq_zero.mp hval
  · rintro rfl
    rw [ahead, BitVec.sub_self, BitVec.toNat_zero]

theorem ahead_cases (a b : SequenceNumber width) :
    (b.value.toNat ≤ a.value.toNat ∧ a.ahead b + b.value.toNat = a.value.toNat) ∨
    (a.value.toNat < b.value.toNat ∧ a.ahead b + b.value.toNat = a.value.toNat + 2 ^ width) := by
  rw [ahead, BitVec.toNat_sub]
  rcases Nat.lt_or_ge a.value.toNat b.value.toNat with hlt | hge
  · rw [Nat.mod_eq_of_lt (by omega)]
    omega
  · have hsum : 2 ^ width - b.value.toNat + a.value.toNat =
        (a.value.toNat - b.value.toNat) + 2 ^ width := by omega
    rw [hsum, Nat.add_mod_right, Nat.mod_eq_of_lt (by omega)]
    omega

theorem halves (width : Nat) :
    width = 0 ∨ 2 ^ width = 2 * 2 ^ (width - 1) ∧ halfMaxValue width + 1 = 2 ^ (width - 1) := by
  cases width with
  | zero => exact .inl rfl
  | succ width =>
    have hpos : 0 < 2 ^ width := Nat.two_pow_pos width
    have hdouble : 2 ^ (width + 1) = 2 * 2 ^ width := Nat.pow_succ'
    rw [halfMaxValue, maxValue, Nat.add_sub_cancel]
    exact .inr ⟨hdouble, by omega⟩

theorem gt_iff :
    a.gt b = true ↔ a ≠ b ∧ (a.ahead b < 2 ^ (width - 1) ∨ Antipodal a b ∧ a.value < b.value) := by
  have hab := ahead_cases a b
  have hba := ahead_cases b a
  have hzero : a ≠ b ↔ a.ahead b ≠ 0 := ahead_eq_zero.not.symm
  rw [hzero]
  rcases halves width with rfl | ⟨hdouble, hhalf⟩
  · simp only [gt, Antipodal, BitVec.lt_def, Bool.or_eq_true, Bool.and_eq_true, decide_eq_true_eq]
    omega
  · simp only [gt, Antipodal, BitVec.lt_def, Bool.or_eq_true, Bool.and_eq_true, decide_eq_true_eq]
    change _ ∧ a.ahead b ≤ _ ∨ _ ∧ _ < b.ahead a ↔ _
    omega

/-! ## The difference is the distance read as a signed value -/

theorem signed_neg_signed (value : Int) :
    signed width (-signed width value) = signed width (-value) := by
  have hzero := @Int.sub_bmod_bmod 0 value (2 ^ width)
  rwa [Int.zero_sub, Int.zero_sub] at hzero

theorem signed_add_range (value : Int) :
    signed width (value + (2 ^ width : Nat)) =
      signed width value := Int.add_bmod_right value (2 ^ width)

theorem sub_eq_signed (a b : SequenceNumber width) :
    a.sub b = signed width ((a.value.toNat : Int) - b.value.toNat) := by
  have hahead : ∀ first second : SequenceNumber width, signed width (first.ahead second) =
      signed width ((first.value.toNat : Int) - second.value.toNat) := by
    intro first second
    rcases ahead_cases first second with ⟨-, heq⟩ | ⟨-, heq⟩
    · exact congrArg _ (by omega)
    · rw [← signed_add_range ((first.value.toNat : Int) - second.value.toNat)]
      exact congrArg _ (by omega)
  have hback : ∀ first second : BitVec width,
      signed width (maxValue width - first.toNat + 1 + second.toNat : Nat) =
        signed width ((second.toNat : Int) - first.toNat) := by
    intro first second
    rw [← signed_add_range ((second.toNat : Int) - first.toNat), maxValue]
    exact congrArg _ (by omega)
  have hneg : -((b.value.toNat : Int) - a.value.toNat) = a.value.toNat - b.value.toNat :=
    Int.neg_sub _ _
  rw [sub]
  split
  · change (if a.ahead b < _ then signed width (a.ahead b) else _) = _
    split
    · exact hahead a b
    · change signed width (-signed width _) = _
      rw [hback, signed_neg_signed, hneg]
  · change (if b.ahead a < _ then signed width (-signed width (b.ahead a)) else _) = _
    split
    · rw [hahead, signed_neg_signed, hneg]
    · exact hback b.value a.value

theorem sub_eq_toInt (a b : SequenceNumber width) : a.sub b = (a.value - b.value).toInt := by
  rw [sub_eq_signed, BitVec.toInt_sub, BitVec.toInt_eq_toNat_bmod, BitVec.toInt_eq_toNat_bmod]
  exact Int.sub_bmod _ _ _

theorem addSigned_sub (a b : SequenceNumber width) : b.addSigned (a.sub b) = a := by
  apply ext
  rw [addSigned, sub_eq_toInt, BitVec.ofInt_toInt]
  exact add_sub_cancel _ _

theorem sub_cases (a b : SequenceNumber width) :
    a.sub b =
      if a.ahead b < 2 ^ (width - 1) then (a.ahead b : Int)
      else (a.ahead b : Int) - (2 ^ width : Nat) := by
  rw [sub_eq_toInt, BitVec.toInt_eq_toNat_cond]
  change (if 2 * a.ahead b < _ then (a.ahead b : Int) else (a.ahead b : Int) - _) = _
  rcases halves width with rfl | ⟨hdouble, -⟩
  · have hzero : a.ahead b = 0 := by
      have hlt : a.ahead b < 2 ^ 0 := BitVec.isLt _
      omega
    rw [hzero]
  · have hiff : 2 * a.ahead b < 2 ^ width ↔ a.ahead b < 2 ^ (width - 1) := by omega
    simp only [hiff]

/-! ## The laws, and where they end -/

theorem trichotomous (a b : SequenceNumber width) : Trichotomous a b := by
  simp only [Trichotomous, lt, Bool.and_eq_true, Bool.not_eq_true', bne_iff_ne, ne_eq,
    Bool.and_eq_false_iff, Bool.not_eq_false', bne_eq_false_iff_eq]
  by_cases heq : a = b
  · have hgt : a.gt b = false := by
      rw [← Bool.not_eq_true, gt_iff]
      exact fun hgt => hgt.1 heq
    exact .inr (.inl ⟨.inr heq, heq, hgt⟩)
  · cases hgt : a.gt b with
    | false => exact .inl ⟨⟨rfl, heq⟩, heq, rfl⟩
    | true => exact .inr (.inr ⟨.inl rfl, heq, rfl⟩)

theorem eq_addSigned (a b : SequenceNumber width)
    (delta : Int) : a.addSigned delta = b.addSigned delta ↔ a = b := by
  rw [← ahead_eq_zero, ahead_addSigned, ahead_eq_zero]

theorem antipodal_addSigned (a b : SequenceNumber width)
    (delta : Int) : Antipodal (a.addSigned delta) (b.addSigned delta) ↔ Antipodal a b := by
  rw [Antipodal, Antipodal, ahead_addSigned]

theorem gt_addSigned (hnot : ¬ Antipodal a b)
    (delta : Int) : (a.addSigned delta).gt (b.addSigned delta) = a.gt b := by
  rw [Bool.eq_iff_iff, gt_iff, gt_iff, ahead_addSigned, antipodal_addSigned, ne_eq, eq_addSigned]
  simp only [hnot, false_and]

theorem serial_of_not_antipodal (hnot : ¬ Antipodal a b) : Serial a b where
  trichotomous := trichotomous a b
  lt_addSigned delta := by
    have hne : (a.addSigned delta != b.addSigned delta) = (a != b) := by
      rw [Bool.eq_iff_iff, bne_iff_ne, bne_iff_ne]
      exact (eq_addSigned a b delta).not
    rw [lt, lt, gt_addSigned hnot, hne]
  eq_addSigned := eq_addSigned a b
  gt_addSigned := gt_addSigned hnot
  addSigned_sub := addSigned_sub a b
  sub_pos := by
    have hlt : a.ahead b < 2 ^ width := BitVec.isLt _
    have hne : a ≠ b ↔ a.ahead b ≠ 0 := ahead_eq_zero.not.symm
    rw [sub_cases, gt_iff, hne]
    simp only [hnot, false_and, or_false]
    split <;> omega

theorem sub_of_antipodal (hanti : Antipodal a b) : a.sub b = -2 ^ (width - 1) := by
  have hlt : a.ahead b < 2 ^ width := BitVec.isLt _
  rw [Antipodal] at hanti
  rw [sub_cases, if_neg (by omega), hanti]
  rcases halves width with rfl | ⟨hdouble, -⟩
  · omega
  · rw [hdouble]
    push_cast
    generalize (2 : Int) ^ (width - 1) = half
    omega

/-- The comparisons are serial arithmetic but for numbers half the range apart: there the smaller
one is the greater, and the difference is not positive either way. -/
theorem serial_arithmetic (a b : SequenceNumber width) :
    Trichotomous a b ∧ b.addSigned (a.sub b) = a ∧ (¬ Antipodal a b → Serial a b) ∧
      (Antipodal a b →
        (∀ delta, a.addSigned delta = b.addSigned delta ↔ a = b) ∧
          (a.gt b = true ↔ a.value < b.value) ∧ a.sub b = -2 ^ (width - 1)) := by
  refine ⟨trichotomous a b, addSigned_sub a b, serial_of_not_antipodal, fun hanti => ?_⟩
  refine ⟨eq_addSigned a b, ?_, sub_of_antipodal hanti⟩
  have hne : a ≠ b := by
    refine ahead_eq_zero.not.mp ?_
    rw [hanti]
    exact (Nat.two_pow_pos _).ne'
  have hnot : ¬ a.ahead b < 2 ^ (width - 1) := hanti.not_lt
  rw [gt_iff]
  simp only [hne, ne_eq, not_false_eq_true, hnot, hanti, true_and, false_or]

/-- Zero and the number half the range on. -/
theorem antipodal_not_serial :
    ¬ Serial (of 0 : SequenceNumber32) (of (2 ^ 31)) ∧
      (of 0 : SequenceNumber32).gt (of (2 ^ 31)) = true ∧
      (of 0 : SequenceNumber32).sub (of (2 ^ 31)) = -2 ^ 31 ∧
      ((of 0 : SequenceNumber32).addSigned (2 ^ 31)).gt ((of (2 ^ 31)).addSigned (2 ^ 31)) =
        false := by
  refine ⟨fun hserial => ?_, by decide, by decide, by decide⟩
  have hpos := hserial.sub_pos.mpr (by decide)
  exact absurd hpos (by decide)

end HomaSird.Tcp.SequenceNumber
