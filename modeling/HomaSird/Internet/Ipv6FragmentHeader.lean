import HomaSird.Internet.Ipv6Fragmentation

/-! # The fragment header on the wire

What is written is read again, and an offset that is a multiple of eight leaves room for the flag.
-/

namespace HomaSird.Internet

open Transition

theorem word16_of_bytes (word : UInt16) :
    ((word >>> 8).toUInt8.toUInt16 <<< 8) ||| word.toUInt8.toUInt16 = word := by
  apply UInt16.toNat_inj.mp
  have hword := word.toNat_lt
  simp only [UInt16.toNat_or, UInt16.toNat_shiftLeft, UInt8.toNat_toUInt16, UInt16.toNat_toUInt8,
    UInt16.toNat_shiftRight]
  rw [show (8 : UInt16).toNat % 16 = 8 from rfl, Nat.shiftRight_eq_div_pow, Nat.shiftLeft_eq,
    Nat.mod_eq_of_lt (show word.toNat / 2 ^ 8 % 2 ^ 8 * 2 ^ 8 < 2 ^ 16 by omega),
    ← Nat.shiftLeft_eq, ← Nat.shiftLeft_add_eq_or_of_lt (by omega), Nat.shiftLeft_eq]
  omega

theorem word32_of_bytes (word : UInt32) :
    ((word >>> 24).toUInt8.toUInt32 <<< 24) ||| ((word >>> 16).toUInt8.toUInt32 <<< 16) |||
    ((word >>> 8).toUInt8.toUInt32 <<< 8) ||| word.toUInt8.toUInt32 = word := by
  apply UInt32.toNat_inj.mp
  have hword := word.toNat_lt
  simp only [UInt32.toNat_or, UInt32.toNat_shiftLeft, UInt8.toNat_toUInt32, UInt32.toNat_toUInt8,
    UInt32.toNat_shiftRight]
  rw [show (8 : UInt32).toNat % 32 = 8 from rfl, show (16 : UInt32).toNat % 32 = 16 from rfl,
    show (24 : UInt32).toNat % 32 = 24 from rfl]
  simp only [Nat.shiftRight_eq_div_pow]
  have hplace : ∀ place byte, byte < 2 ^ 8 → place ≤ 24 → byte <<< place < 2 ^ (8 + place) := by
    intro place byte hbyte _
    rw [Nat.shiftLeft_eq, Nat.pow_add]
    exact Nat.mul_lt_mul_of_pos_right hbyte (Nat.two_pow_pos place)
  have hfst := hplace 24 (word.toNat / 2 ^ 24 % 2 ^ 8) (by omega) (by decide)
  have hsnd := hplace 16 (word.toNat / 2 ^ 16 % 2 ^ 8) (by omega) (by decide)
  have hthird := hplace 8 (word.toNat / 2 ^ 8 % 2 ^ 8) (by omega) (by decide)
  rw [Nat.mod_eq_of_lt hfst, Nat.mod_eq_of_lt (Nat.lt_trans hsnd (by decide)),
    Nat.mod_eq_of_lt (Nat.lt_trans hthird (by decide)), Nat.or_assoc, Nat.or_assoc]
  -- the bytes do not overlap
  have hlow : word.toNat % 2 ^ 8 < 2 ^ 8 := by
    omega
  have hmiddle : (word.toNat / 2 ^ 8 % 2 ^ 8) <<< 8 + word.toNat % 2 ^ 8 < 2 ^ 16 := by
    rw [Nat.shiftLeft_eq]
    omega
  have hhigh : (word.toNat / 2 ^ 16 % 2 ^ 8) <<< 16 +
      ((word.toNat / 2 ^ 8 % 2 ^ 8) <<< 8 + word.toNat % 2 ^ 8) < 2 ^ 24 := by
    simp only [Nat.shiftLeft_eq]
    omega
  rw [← Nat.shiftLeft_add_eq_or_of_lt hlow, ← Nat.shiftLeft_add_eq_or_of_lt hmiddle,
    ← Nat.shiftLeft_add_eq_or_of_lt hhigh]
  simp only [Nat.shiftLeft_eq]
  omega

variable {offset : UInt16} {bit : Nat}

theorem low_bits (halign : offset.toNat % 8 = 0) (hbit : bit < 3) :
    offset.toBitVec.getLsbD bit = false := by
  have heq : offset.toNat = 2 ^ 3 * (offset.toNat / 8) := by
    omega
  change offset.toNat.testBit bit = false
  rw [heq, Nat.testBit_two_pow_mul, decide_eq_false (by omega), Bool.false_and]

theorem mask_seven (hbit : bit < 16) : (65528#16).getLsbD bit = decide (3 ≤ bit) := by
  revert bit
  decide

theorem mask_one (hbit : bit < 16) : (65534#16).getLsbD bit = decide (1 ≤ bit) := by
  revert bit
  decide

theorem aligned_masks (halign : offset.toNat % 8 = 0) :
    offset &&& ~~~7 = offset ∧ offset &&& ~~~1 = offset ∧ (offset ||| 1) &&& ~~~1 = offset := by
  have hlow : ∀ bit, bit < 3 → offset.toBitVec.getLsbD bit = false :=
    fun bit hbit => low_bits halign hbit
  refine ⟨?_, ?_, ?_⟩ <;> apply UInt16.toBitVec_inj.mp <;> apply BitVec.eq_of_getLsbD_eq <;>
    intro bit hbit
  · have hmasked : (offset &&& ~~~7).toBitVec.getLsbD bit =
        (offset.toBitVec.getLsbD bit && (65528#16).getLsbD bit) := by
      simp
    rw [hmasked, mask_seven hbit]
    by_cases hthree : 3 ≤ bit
    · rw [decide_eq_true hthree, Bool.and_true]
    · rw [hlow bit (Nat.lt_of_not_le hthree), Bool.false_and]
  · have hmasked : (offset &&& ~~~1).toBitVec.getLsbD bit =
        (offset.toBitVec.getLsbD bit && (65534#16).getLsbD bit) := by
      simp
    rw [hmasked, mask_one hbit]
    by_cases hone : 1 ≤ bit
    · rw [decide_eq_true hone, Bool.and_true]
    · rw [hlow bit (by omega), Bool.false_and]
  · have hmasked : ((offset ||| 1) &&& ~~~1).toBitVec.getLsbD bit =
        ((offset.toBitVec.getLsbD bit || decide (bit = 0)) && (65534#16).getLsbD bit) := by
      simp [hbit]
    rw [hmasked, mask_one hbit]
    by_cases hone : 1 ≤ bit
    · rw [decide_eq_true hone, Bool.and_true, decide_eq_false (by omega), Bool.or_false]
    · rw [hlow bit (by omega), decide_eq_false hone, Bool.and_false]

theorem aligned_flag (halign : offset.toNat % 8 = 0) :
    offset &&& 1 = 0 ∧ (offset ||| 1) &&& 1 = 1 := by
  constructor <;> apply UInt16.toNat_inj.mp
  · rw [UInt16.toNat_and]
    change offset.toNat &&& 1 = 0
    rw [Nat.and_one_is_mod]
    omega
  · rw [UInt16.toNat_and, UInt16.toNat_or]
    change (offset.toNat ||| 1) &&& 1 = 1
    rw [Nat.and_or_distrib_right, Nat.and_self, Nat.and_one_is_mod,
      show offset.toNat % 2 = 0 by omega]
    rfl

namespace Ipv6ExtensionFragmentHeader

theorem deserialize_serialize (header : Ipv6ExtensionFragmentHeader)
    (rest : List UInt8) : deserialize (header.serialize ++ rest) = .ok header := by
  have hread : deserialize (header.serialize ++ rest) = .ok ⟨header.nextHeader,
      ((header.offset >>> 8).toUInt8.toUInt16 <<< 8) ||| header.offset.toUInt8.toUInt16,
      ((header.identification >>> 24).toUInt8.toUInt32 <<< 24) |||
        ((header.identification >>> 16).toUInt8.toUInt32 <<< 16) |||
        ((header.identification >>> 8).toUInt8.toUInt32 <<< 8) |||
        header.identification.toUInt8.toUInt32⟩ := rfl
  rw [hread, word16_of_bytes, word32_of_bytes]

theorem fields_of_aligned (header : Ipv6ExtensionFragmentHeader) {offset : UInt16}
    (hfresh : header.offset = 0) (halign : offset.toNat % 8 = 0) (moreFragment : Bool) :
    ((header.setOffset offset).setMoreFragment moreFragment).getOffset = offset ∧
    ((header.setOffset offset).setMoreFragment moreFragment).getMoreFragment = moreFragment := by
  obtain ⟨hseven, hone, hset⟩ := aligned_masks halign
  obtain ⟨hclear, hflag⟩ := aligned_flag halign
  have hoff : (header.setOffset offset).offset = offset := by
    rw [setOffset, hfresh, hseven]
    exact UInt16.zero_or
  rw [getOffset, getMoreFragment, setMoreFragment, hoff]
  cases moreFragment with
  | false =>
    rw [if_neg Bool.false_ne_true, hone, hone, hclear]
    exact ⟨rfl, rfl⟩
  | true =>
    rw [if_pos rfl, hset, hflag]
    exact ⟨rfl, rfl⟩

end Ipv6ExtensionFragmentHeader

end HomaSird.Internet
