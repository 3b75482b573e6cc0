import Mathlib.Tactic.Ring

/-! # Unsigned machine words as natural numbers

A word is kept as its value; the conversions below are the implicit or explicit
casts of a program, applied wherever a value may leave the range of its type.
-/

namespace HomaSird

def uint8 (value : Nat) : Nat := value % 2 ^ 8

def uint16 (value : Nat) : Nat := value % 2 ^ 16

def uint32 (value : Nat) : Nat := value % 2 ^ 32

def uint64 (value : Nat) : Nat := value % 2 ^ 64

/-- The unsigned reading of a signed 32-bit result. -/
def uint32OfInt (value : Int) : Nat := (value % 2 ^ 32).toNat

/-- The unsigned reading of a signed 64-bit result. -/
def uint64OfInt (value : Int) : Nat := (value % 2 ^ 64).toNat

/-- The signed 32-bit value with the bits of a number. -/
def int32 (value : Int) : Int := (value + 2 ^ 31) % 2 ^ 32 - 2 ^ 31

def InInt32 (value : Int) : Prop := -2 ^ 31 ≤ value ∧ value < 2 ^ 31

instance (value : Int) : Decidable (InInt32 value) := inferInstanceAs (Decidable (_ ∧ _))

theorem int32_of_inInt32 {value : Int} (hval : InInt32 value) : int32 value = value := by
  obtain ⟨hlow, hhigh⟩ := hval
  unfold int32
  omega

/-- A signed value kept as an unsigned one is read back under any addition. -/
theorem int32_uint32OfInt_add (value more : Int) :
    int32 (uint32OfInt value + more) = int32 (value + more) := by
  unfold int32 uint32OfInt
  omega

theorem uint32OfInt_lt (value : Int) : uint32OfInt value < 2 ^ 32 := by
  rw [uint32OfInt]
  omega

theorem uint16_lt (value : Nat) : uint16 value < 2 ^ 16 := Nat.mod_lt _ (by decide)

variable {value : Nat}

theorem uint16_of_lt (hval : value < 2 ^ 16) : uint16 value = value :=
  Nat.mod_eq_of_lt hval

theorem uint32_of_lt (hval : value < 2 ^ 32) : uint32 value = value :=
  Nat.mod_eq_of_lt hval

theorem uint64_of_lt (hval : value < 2 ^ 64) : uint64 value = value :=
  Nat.mod_eq_of_lt hval

theorem uint32_add (value more : Nat) : uint32 (uint32 value + more) = uint32 (value + more) := by
  simp only [uint32]
  omega

theorem uint64_add (value more : Nat) : uint64 (uint64 value + more) = uint64 (value + more) := by
  simp only [uint64]
  omega

end HomaSird
