import HomaSird.Data.Word

/-! # Sequence numbers

A sequence number is a machine word that is expected to grow and to wrap around.
Comparison and subtraction decide by the shorter way round, so they agree with the
positions of two bytes of a stream while these are less than half the range apart.
-/

namespace HomaSird.Tcp

structure SequenceNumber (width : Nat) where
  value : BitVec width
deriving DecidableEq

abbrev SequenceNumber32 : Type := SequenceNumber 32

namespace SequenceNumber

variable {width : Nat}

def of (value : Nat) : SequenceNumber width := ⟨BitVec.ofNat width value⟩

instance : Add (SequenceNumber width) := ⟨fun first second => ⟨first.value + second.value⟩⟩

/-- `operator++` -/
def succ (number : SequenceNumber width) : SequenceNumber width := ⟨number.value + 1⟩

def maxValue (width : Nat) : Nat := 2 ^ width - 1

def halfMaxValue (width : Nat) : Nat := maxValue width / 2

def signed (width : Nat) (value : Int) : Int := value.bmod (2 ^ width)

/-- `operator-`: the signed distance, by the shorter way round. -/
def sub (number other : SequenceNumber width) : Int :=
  if other.value < number.value then
    let diff := (number.value - other.value).toNat
    if diff < halfMaxValue width then signed width diff
    else
      let back := maxValue width - number.value.toNat + 1 + other.value.toNat
      signed width (-signed width back)
  else
    let diff := (other.value - number.value).toNat
    if diff < halfMaxValue width then signed width (-signed width diff)
    else
      let ahead := maxValue width - other.value.toNat + 1 + number.value.toNat
      signed width ahead

/-- `operator>` -/
def gt (number other : SequenceNumber width) : Bool :=
  (other.value < number.value && (number.value - other.value).toNat ≤ halfMaxValue width) ||
    (number.value < other.value && halfMaxValue width < (other.value - number.value).toNat)

/-- `operator<=` -/
def le (number other : SequenceNumber width) : Bool := !number.gt other

/-- `operator>=` -/
def ge (number other : SequenceNumber width) : Bool := number.gt other || number == other

/-- `operator<` -/
def lt (number other : SequenceNumber width) : Bool := !number.gt other && number != other

theorem add_value (first second : SequenceNumber width) :
    (first + second).value = first.value + second.value := rfl

/-- The sequence number of the byte at a position of the stream that starts at `isn`. -/
def byte (isn : SequenceNumber width) (pos : Nat) : SequenceNumber width :=
  isn + of pos

theorem byte_add (isn : SequenceNumber width)
    (pos more : Nat) : isn.byte pos + of more = isn.byte (pos + more) := by
  simp only [byte, of, HAdd.hAdd, Add.add]
  congr 1
  exact (BitVec.add_assoc _ _ _).trans (congrArg _ (BitVec.ofNat_add _ _).symm)

theorem add_of (number : SequenceNumber width) (value : Nat) :
    number + of value = number.byte value := rfl

theorem byte_byte (isn : SequenceNumber width) (pos more : Nat) :
    (isn.byte pos).byte more = isn.byte (pos + more) := byte_add isn pos more

theorem byte_succ (isn : SequenceNumber width) (pos : Nat) :
    (isn.byte pos).succ = isn.byte (pos + 1) := byte_add isn pos 1

@[simp] theorem byte_zero (isn : SequenceNumber width) : isn.byte 0 = isn := by
  cases isn with
  | mk value => exact congrArg mk (BitVec.add_zero value)

end SequenceNumber

/-! ## Positions less than half the range apart -/

/-- Neither position is half the sequence space or more beyond the other. -/
def Near (first second : Nat) : Prop := first < second + 2 ^ 31 ∧ second < first + 2 ^ 31

theorem Near.symm {first second : Nat} (hnear : Near first second) : Near second first :=
  ⟨hnear.2, hnear.1⟩

namespace SequenceNumber

variable {isn : SequenceNumber32} {first second : Nat}

theorem toNat_byte (isn : SequenceNumber32)
    (pos : Nat) : (isn.byte pos).value.toNat = (isn.value.toNat + pos) % 2 ^ 32 := by
  simp [byte, of, add_value]

theorem gt_byte (hnear : Near first second) :
    (isn.byte first).gt (isn.byte second) = decide (second < first) := by
  obtain ⟨hfst, hsnd⟩ := hnear
  rw [Bool.eq_iff_iff]
  simp only [gt, halfMaxValue, maxValue, BitVec.lt_def, BitVec.toNat_sub, toNat_byte,
    Bool.or_eq_true, Bool.and_eq_true, decide_eq_true_eq]
  omega

theorem gt_byte_far (hfar : first + 2 ^ 31 < second) (hlt : second < first + 2 ^ 32) :
    (isn.byte first).gt (isn.byte second) = true ∧
      (isn.byte second).gt (isn.byte first) = false := by
  rw [← Bool.not_eq_true]
  simp only [gt, halfMaxValue, maxValue, BitVec.lt_def, BitVec.toNat_sub, toNat_byte,
    Bool.or_eq_true, Bool.and_eq_true, decide_eq_true_eq]
  omega

theorem byte_inj_of_lt (hfst : first < second + 2 ^ 32)
    (hsnd : second < first + 2 ^ 32) : isn.byte first = isn.byte second ↔ first = second := by
  refine ⟨fun heq => ?_, fun heq => heq ▸ rfl⟩
  have hval := congrArg (fun number : SequenceNumber32 => number.value.toNat) heq
  simp only [toNat_byte] at hval
  omega

theorem byte_inj (hnear : Near first second) : isn.byte first = isn.byte second ↔ first = second :=
  byte_inj_of_lt (by have := hnear.1; omega) (by have := hnear.2; omega)

theorem le_byte (hnear : Near first second) :
    (isn.byte first).le (isn.byte second) = decide (first ≤ second) := by
  rw [le, gt_byte hnear, ← decide_not]
  exact decide_eq_decide.mpr Nat.not_lt

theorem lt_byte (hnear : Near first second) :
    (isn.byte first).lt (isn.byte second) = decide (first < second) := by
  rw [Bool.eq_iff_iff]
  simp only [lt, gt_byte hnear, Bool.and_eq_true, Bool.not_eq_true', decide_eq_false_iff_not,
    bne_iff_ne, ne_eq, byte_inj hnear, decide_eq_true_eq]
  omega

theorem ge_byte (hnear : Near first second) :
    (isn.byte first).ge (isn.byte second) = decide (second ≤ first) := by
  rw [Bool.eq_iff_iff]
  simp only [ge, gt_byte hnear, Bool.or_eq_true, decide_eq_true_eq, beq_iff_eq, byte_inj hnear]
  omega

theorem exists_byte_of_between {number : SequenceNumber32}
    (hrng : first < second) (hnear : second < first + 2 ^ 31)
    (hbelow : number.lt (isn.byte second) = true) (hnot : number.lt (isn.byte first) = false) :
    ∃ pos, number = isn.byte pos ∧ first ≤ pos ∧ pos < second := by
  have hval : ∀ pos, number = isn.byte pos ↔
      number.value.toNat = (isn.value.toNat + pos) % 2 ^ 32 := by
    intro pos
    rw [← toNat_byte]
    exact ⟨fun heq => heq ▸ rfl, fun heq => congrArg mk (BitVec.eq_of_toNat_eq heq)⟩
  simp only [lt, Bool.and_eq_true, Bool.not_eq_true', bne_iff_ne, ne_eq, ← Bool.not_eq_true,
    hval] at hbelow hnot
  simp only [gt, halfMaxValue, maxValue, BitVec.lt_def, BitVec.toNat_sub, toNat_byte,
    Bool.or_eq_true, Bool.and_eq_true, decide_eq_true_eq] at hbelow hnot
  refine ⟨second - (isn.value.toNat + second + 2 ^ 32 - number.value.toNat) % 2 ^ 32,
    (hval _).mpr ?_, ?_, ?_⟩ <;> omega

theorem sub_byte (hnear : Near first second) :
    (isn.byte first).sub (isn.byte second) = (first : Int) - second := by
  obtain ⟨hfst, hsnd⟩ := hnear
  simp only [sub, signed, halfMaxValue, maxValue, BitVec.lt_def, BitVec.toNat_sub, toNat_byte,
    Int.bmod_def]
  split_ifs <;> omega

theorem uint32_sub_byte (hle : second ≤ first) (hlt : first < second + 2 ^ 32) :
    uint32OfInt ((isn.byte first).sub (isn.byte second)) = first - second := by
  simp only [sub, signed, halfMaxValue, maxValue, BitVec.lt_def, BitVec.toNat_sub, toNat_byte,
    Int.bmod_def, uint32OfInt]
  split_ifs <;> omega

theorem exists_byte (number other : SequenceNumber32) :
    ∃ pos, pos < 2 ^ 32 ∧ number = other.byte pos := by
  refine ⟨(number.value - other.value).toNat, BitVec.isLt _, ?_⟩
  have hval : number.value = other.value + (number.value - other.value) := by
    rw [BitVec.add_comm, BitVec.sub_add_cancel]
  rw [byte, of, BitVec.ofNat_toNat, BitVec.setWidth_eq]
  exact congrArg mk hval

theorem byte_sub (number other : SequenceNumber32) :
    other.byte (uint32OfInt (number.sub other)) = number := by
  obtain ⟨pos, hpos, rfl⟩ := number.exists_byte other
  have hsub := @uint32_sub_byte other pos 0 (Nat.zero_le _) (by omega)
  rw [byte_zero, Nat.sub_zero] at hsub
  rw [hsub]

theorem byte_add_space (isn : SequenceNumber32)
    (pos : Nat) : isn.byte (pos + 2 ^ 32) = isn.byte pos := by
  have hval : (isn.byte (pos + 2 ^ 32)).value = (isn.byte pos).value := by
    refine BitVec.eq_of_toNat_eq ?_
    rw [toNat_byte, toNat_byte]
    omega
  exact congrArg mk hval

theorem sub_bounds (number other : SequenceNumber32) :
    -2 ^ 31 ≤ number.sub other ∧ number.sub other < 2 ^ 31 := by
  have hbd : ∀ value : Int, -2 ^ 31 ≤ signed 32 value ∧ signed 32 value < 2 ^ 31 := by
    intro value
    simp only [signed, Int.bmod_def]
    split <;> omega
  unfold sub
  split
  · dsimp only; split <;> exact hbd _
  · dsimp only; split <;> exact hbd _

theorem exists_byte_sub (isn number : SequenceNumber32) {pos : Nat} (hpos : 2 ^ 31 ≤ pos) :
    ∃ other : Nat, number = isn.byte other ∧ (other : Int) = pos + number.sub (isn.byte pos) := by
  have hbounds := sub_bounds number (isn.byte pos)
  have hbyte := byte_sub number (isn.byte pos)
  generalize number.sub (isn.byte pos) = distance at hbounds hbyte
  refine ⟨(pos + distance).toNat, ?_, by omega⟩
  rw [← hbyte, byte_byte, uint32OfInt]
  by_cases hahead : 0 ≤ distance
  · congr 1
    omega
  · rw [← byte_add_space isn (pos + distance).toNat]
    congr 1
    omega

end SequenceNumber

end HomaSird.Tcp
