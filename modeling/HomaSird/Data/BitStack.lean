import Mathlib.Data.Nat.Digits.Lemmas

/-! # A stack of bit fields in one number

Fields are put on top of each other, and the one on top is read off at the height it was put at.
The number is kept in words of a fixed size, so a field may straddle two.
-/

namespace HomaSird.BitStack

open List

structure Field where
  value : Nat
  width : Nat
deriving DecidableEq

def Field.Fits (field : Field) : Prop := field.value < 2 ^ field.width

def height (fields : List Field) : Nat := (fields.map Field.width).sum

def bits : List Field → Nat
  | [] => 0
  | field :: rest => field.value + 2 ^ field.width * bits rest

def top (number height width : Nat) : Nat := number / 2 ^ (height - width) % 2 ^ width

variable {fields : List Field} {field : Field} {number words : Nat}

@[simp] theorem height_nil : height [] = 0 := rfl

@[simp] theorem height_append (first second : List Field) :
    height (first ++ second) = height first + height second := by
  simp [height]

@[simp] theorem height_singleton (field : Field) : height [field] = field.width := by
  simp [height]

theorem bits_append (first second : List Field) :
    bits (first ++ second) = bits first + 2 ^ height first * bits second := by
  induction first with
  | nil => simp [bits]
  | cons head rest ih =>
    simp only [cons_append, bits, ih, height, map_cons, sum_cons, pow_add]
    ring

@[simp] theorem bits_singleton (field : Field) : bits [field] = field.value := by
  simp [bits]

theorem bits_lt (hfits : ∀ field ∈ fields, field.Fits) : bits fields < 2 ^ height fields := by
  induction fields with
  | nil => simp [bits]
  | cons head rest ih =>
    have hhead : head.value < 2 ^ head.width := hfits head mem_cons_self
    have hrest := ih fun field hfield => hfits field (.tail _ hfield)
    simp only [bits, height, map_cons, sum_cons, pow_add] at hrest ⊢
    calc head.value + 2 ^ head.width * bits rest
        < 2 ^ head.width + 2 ^ head.width * bits rest := by omega
      _ = 2 ^ head.width * (bits rest + 1) := by ring
      _ ≤ 2 ^ head.width * 2 ^ (rest.map Field.width).sum := Nat.mul_le_mul_left _ hrest

theorem top_bits {front back : List Field}
    (hfront : ∀ field ∈ front, field.Fits) (hfits : field.Fits) :
    top (bits (front ++ field :: back)) (height (front ++ [field])) field.width = field.value := by
  have hlow := bits_lt hfront
  have hheight : height (front ++ [field]) - field.width = height front := by simp
  rw [top, hheight, bits_append, bits, Nat.add_mul_div_left _ _ (Nat.two_pow_pos _),
    Nat.div_eq_of_lt hlow, zero_add, Nat.add_mul_mod_self_left, Nat.mod_eq_of_lt hfits]

/-! ## Words -/

section Words

variable {size index word above width : Nat} {words : List Nat}

theorem word_eq (hwords : ∀ word ∈ words, word < 2 ^ size) (hword : words[index]? = some word) :
    Nat.ofDigits (2 ^ size) words / 2 ^ (size * index) % 2 ^ size = word := by
  obtain ⟨hidx, rfl⟩ := List.getElem?_eq_some_iff.mp hword
  rw [pow_mul, Nat.ofDigits_div_pow_eq_ofDigits_drop index (Nat.two_pow_pos size) words hwords,
    List.drop_eq_getElem_cons hidx, Nat.ofDigits_cons, Nat.add_mul_mod_self_left,
    Nat.mod_eq_of_lt (hwords _ (List.getElem_mem hidx))]

theorem word_mod (number : Nat) (hsz : width ≤ size) :
    number / 2 ^ (size * index) % 2 ^ size % 2 ^ width = number / 2 ^ (size * index) % 2 ^ width :=
  Nat.mod_mod_of_dvd _ (Nat.pow_dvd_pow 2 hsz)

/-- A field in one word: the bits of the word below its top, without those below the field. -/
theorem top_within (number : Nat) (hwidth : width ≤ above) (hsz : above ≤ size) :
    number / 2 ^ (size * index) % 2 ^ size % 2 ^ above / 2 ^ (above - width) =
      top number (size * index + above) width := by
  have hpow : 2 ^ above = 2 ^ (above - width) * 2 ^ width := by
    rw [← pow_add, Nat.sub_add_cancel hwidth]
  have hstart : size * index + above - width = size * index + (above - width) := by omega
  rw [word_mod number hsz, hpow, Nat.mod_mul_right_div_self, Nat.div_div_eq_div_mul, ← pow_add,
    top, hstart]

/-- A field in two words: the low bits of the upper one above the high bits of the lower one. -/
theorem top_across (number : Nat) (hacross : above ≤ width) (hlower : width - above ≤ size)
    (hsz : above ≤ size) :
    number / 2 ^ (size * (index + 1)) % 2 ^ size % 2 ^ above * 2 ^ (width - above) + number / 2 ^
      (size * index) % 2 ^ size / 2 ^ (size - (width - above)) =
      top number (size * (index + 1) + above) width := by
  have hwithin := @top_within size index size (width - above) number hlower le_rfl
  rw [Nat.mod_mod] at hwithin
  have hstart : size * (index + 1) + above - width = size * index + (size - (width - above)) := by
    rw [Nat.mul_succ]
    omega
  have hend : size * index + size - (width - above) = size * index + (size - (width - above)) := by
    omega
  have hnext : size * (index + 1) = size * index + (size - (width - above)) + (width - above) := by
    rw [Nat.mul_succ]
    omega
  have hpow : 2 ^ width = 2 ^ (width - above) * 2 ^ above := by
    rw [← pow_add, Nat.sub_add_cancel hacross]
  rw [hwithin, word_mod number hsz, top, top, hstart, hend, hpow, Nat.mod_mul, hnext, pow_add,
    ← Nat.div_div_eq_div_mul]
  ring

end Words

end HomaSird.BitStack
