import HomaSird.Data.BitStack
import HomaSird.Data.Word
import HomaSird.Transition.Machine

/-! # Nix-vectors

The neighbor indices of a route are packed into words, the first in the lowest bits, and are
taken out again from the other end. A word is shifted by what is left free in it; a shift by the
whole width of a word is not defined, and happens when an index ends where a word does.
-/

namespace HomaSird.Network

open Transition BitStack List

inductive NixFault
  | cannotAdd
  | cannotExtract
  | tooManyBits
  | noBits
  | undefinedShift
  | outOfRange
deriving DecidableEq

/-- The constructor leaves one word in the vector, and none is ever taken out. -/
structure NixVector where
  nixVector : List Nat
  used : Nat
  currentVectorBitSize : Nat
  totalBitSize : Nat
  nonempty : nixVector ≠ []

namespace NixVector

/-- `<<` on 32-bit words. -/
def shiftLeft (value amount : Nat) : Except NixFault Nat :=
  if amount < 32 then .ok (uint32 (value <<< amount)) else .error .undefinedShift

/-- `>>` on 32-bit words. -/
def shiftRight (value amount : Nat) : Except NixFault Nat :=
  if amount < 32 then .ok (value >>> amount) else .error .undefinedShift

def create : NixVector where
  nixVector := [0]
  used := 0
  currentVectorBitSize := 0
  totalBitSize := 0
  nonempty := List.cons_ne_nil _ _

def back (self : NixVector) : Nat := self.nixVector.getLast self.nonempty

def setBack (self : NixVector) (word : Nat) : NixVector :=
  { self with
    nixVector := self.nixVector.dropLast ++ [word]
    nonempty := List.concat_ne_nil _ _ }

def pushBack (self : NixVector) (word : Nat) : NixVector :=
  { self with
    nixVector := self.nixVector ++ [word]
    nonempty := List.concat_ne_nil _ _ }

/-- `at`, which checks the index. -/
def wordAt (self : NixVector) (index : Nat) : Except NixFault Nat :=
  match self.nixVector[index]? with
  | some word => .ok word
  | none => .error .outOfRange

def getRemainingBits (self : NixVector) : Nat :=
  uint32OfInt ((self.totalBitSize : Int) - self.used)

def addNeighborIndex (self : NixVector) (newBits numberOfBits : Nat) :
    Except NixFault NixVector :=
  if numberOfBits > 32 then .error .cannotAdd
  else if self.currentVectorBitSize + numberOfBits > 32 then
    if self.currentVectorBitSize = 32 then
      .ok { self.pushBack newBits with
        currentVectorBitSize := numberOfBits
        totalBitSize := uint32 (self.totalBitSize + numberOfBits) }
    else do
      -- the word is filled up, and what is left of the new bits starts another
      let tempBits ← shiftLeft newBits self.currentVectorBitSize
      let newBits ← shiftRight newBits (32 - self.currentVectorBitSize)
      return { (self.setBack (tempBits ||| self.back)).pushBack newBits with
        currentVectorBitSize := numberOfBits - (32 - self.currentVectorBitSize)
        totalBitSize := uint32 (self.totalBitSize + numberOfBits) }
  else do
    let newBits ← shiftLeft newBits self.currentVectorBitSize
    return { self.setBack (newBits ||| self.back) with
      currentVectorBitSize := self.currentVectorBitSize + numberOfBits
      totalBitSize := uint32 (self.totalBitSize + numberOfBits) }

def extractNeighborIndex (self : NixVector) (numberOfBits : Nat) :
    Except NixFault (Nat × NixVector) :=
  let totalRemainingBits := self.getRemainingBits
  let vectorIndex := (totalRemainingBits - 1) / 32
  let extracted := { self with used := uint32 (self.used + numberOfBits) }
  if numberOfBits > 32 then .error .cannotExtract
  else if numberOfBits > totalRemainingBits then .error .tooManyBits
  else if numberOfBits = 0 then .error .noBits
  else if vectorIndex > 0 ∧ numberOfBits - 1 > (totalRemainingBits - 1) % 32 then do
    let upper ← shiftLeft (← self.wordAt vectorIndex) (32 - totalRemainingBits % 32)
    let upper ← shiftRight upper
      ((32 - totalRemainingBits % 32) - (numberOfBits - totalRemainingBits % 32))
    let lower ← shiftRight (← self.wordAt (vectorIndex - 1))
      (32 - (numberOfBits - totalRemainingBits % 32))
    return (upper ||| lower, extracted)
  else do
    let bits ← shiftLeft (← self.wordAt vectorIndex) (32 - totalRemainingBits % 32)
    let bits ← shiftRight bits (32 - numberOfBits)
    return (bits, extracted)

def addAll (self : NixVector) : List Field → Except NixFault NixVector
  | [] => .ok self
  | field :: rest => do (← self.addNeighborIndex field.value field.width).addAll rest

/-- The indices come out in this order, and before each what remains is their bits. -/
def Returns (self : NixVector) : List Field → Prop
  | [] => self.getRemainingBits = 0
  | field :: rest => self.getRemainingBits = height (field :: rest) ∧
      ∃ next, self.extractNeighborIndex field.width = .ok (field.value, next) ∧ next.Returns rest

/-- What is put into a vector comes out of it again, the last first. -/
def Unwinds (fields : List Field) : Prop :=
  ∃ vector, create.addAll fields = .ok vector ∧ vector.Returns fields.reverse

structure OffBoundaries (fields : List Field) : Prop where
  counted : height fields < 2 ^ 32
  ends : ∀ pos < fields.length, height (fields.take (pos + 1)) % 32 ≠ 0

instance (fields : List Field) : Decidable (OffBoundaries fields) :=
  decidable_of_iff (_ ∧ _) ⟨fun ⟨hcounted, hends⟩ => ⟨hcounted, hends⟩,
    fun ⟨hcounted, hends⟩ => ⟨hcounted, hends⟩⟩

variable {vector : NixVector} {fields front : List Field} {field : Field}

/-! ## Shifts -/

@[simp] theorem shiftLeft_of_lt {value amount : Nat}
    (hamount : amount < 32) : shiftLeft value amount = .ok (value * 2 ^ amount % 2 ^ 32) := by
  rw [shiftLeft, if_pos hamount, uint32, Nat.shiftLeft_eq]

@[simp] theorem shiftRight_of_lt {value amount : Nat}
    (hamount : amount < 32) : shiftRight value amount = .ok (value / 2 ^ amount) := by
  rw [shiftRight, if_pos hamount, Nat.shiftRight_eq_div_pow]

theorem shift_down (word : Nat) {above amount : Nat} (habove : above ≤ 32)
    (hamount : 32 - above ≤ amount) :
    word * 2 ^ (32 - above) % 2 ^ 32 / 2 ^ amount =
      word % 2 ^ above / 2 ^ (amount - (32 - above)) := by
  have hpow : 2 ^ 32 = 2 ^ (32 - above) * 2 ^ above := by
    rw [← pow_add, Nat.sub_add_cancel habove]
  have hsplit : 2 ^ amount = 2 ^ (32 - above) * 2 ^ (amount - (32 - above)) := by
    rw [← pow_add, Nat.add_sub_cancel' hamount]
  rw [hpow, mul_comm word, Nat.mul_mod_mul_left, hsplit,
    Nat.mul_div_mul_left _ _ (Nat.two_pow_pos _)]

theorem shift_partly (word : Nat) {above amount : Nat} (habove : above ≤ 32)
    (hamount : amount ≤ 32 - above) :
    word * 2 ^ (32 - above) % 2 ^ 32 / 2 ^ amount =
      word % 2 ^ above * 2 ^ (32 - above - amount) := by
  have hpow : 2 ^ 32 = 2 ^ above * 2 ^ (32 - above) := by
    rw [← pow_add, Nat.add_sub_cancel' habove]
  have hsplit : 2 ^ (32 - above) = 2 ^ (32 - above - amount) * 2 ^ amount := by
    rw [← pow_add, Nat.sub_add_cancel hamount]
  rw [hpow, Nat.mul_mod_mul_right]
  conv_lhs => rw [hsplit, ← mul_assoc]
  exact Nat.mul_div_cancel _ (Nat.two_pow_pos _)

/-! ## What a vector holds -/

structure Packed (vector : NixVector) (fields : List Field) : Prop where
  words : ∀ word ∈ vector.nixVector, word < 2 ^ 32
  bits : Nat.ofDigits (2 ^ 32) vector.nixVector = bits fields
  filled : height fields + 32 = 32 * vector.nixVector.length + vector.currentVectorBitSize
  withinWord : vector.currentVectorBitSize ≤ 32
  total : vector.totalBitSize = uint32 (height fields)

theorem create_packed : Packed create [] where
  words := by simp [create]
  bits := by simp [create, BitStack.bits]
  filled := rfl
  withinWord := Nat.zero_le _
  total := rfl

theorem back_lt (hpacked : Packed vector fields) (hfits : ∀ field ∈ fields, field.Fits) :
    vector.back < 2 ^ vector.currentVectorBitSize := by
  have hbits := hpacked.bits
  have hlt := bits_lt hfits
  rw [← dropLast_append_getLast vector.nonempty, Nat.ofDigits_append, Nat.ofDigits_singleton,
    length_dropLast] at hbits
  have hheight : height fields =
      32 * (vector.nixVector.length - 1) + vector.currentVectorBitSize := by
    have hfilled := hpacked.filled
    have hpos := length_pos_iff.mpr vector.nonempty
    omega
  rw [← hbits, hheight, pow_add, pow_mul] at hlt
  have hmul := (Nat.le_add_left _ _).trans_lt hlt
  exact lt_of_mul_lt_mul_left hmul (Nat.zero_le _)

theorem bits_eq (hpacked : Packed vector fields) :
    bits fields = Nat.ofDigits (2 ^ 32) vector.nixVector.dropLast + 2 ^
        (32 * vector.nixVector.dropLast.length) * vector.back ∧
      height fields = 32 * vector.nixVector.dropLast.length + vector.currentVectorBitSize := by
  have hbits := hpacked.bits
  have hfilled := hpacked.filled
  have hpos := length_pos_iff.mpr vector.nonempty
  rw [← dropLast_append_getLast vector.nonempty, Nat.ofDigits_append,
    Nat.ofDigits_singleton, ← pow_mul] at hbits
  rw [length_dropLast] at hbits ⊢
  exact ⟨hbits.symm, by omega⟩

theorem packed_concat {next : NixVector} {last : Nat} {more : List Nat}
    (hpacked : Packed vector fields)
    (hvector : next.nixVector = vector.nixVector.dropLast ++ last :: more)
    (htotal : next.totalBitSize = uint32 (vector.totalBitSize + field.width))
    (hlast : last < 2 ^ 32) (hmore : ∀ word ∈ more, word < 2 ^ 32)
    (hbits : last + 2 ^ 32 * Nat.ofDigits (2 ^ 32) more =
      vector.back + 2 ^ vector.currentVectorBitSize * field.value)
    (hcur :
      next.currentVectorBitSize + 32 * more.length = vector.currentVectorBitSize + field.width)
    (hword : next.currentVectorBitSize ≤ 32) :
    Packed next (fields ++ [field]) := by
  obtain ⟨hwhole, hheight⟩ := bits_eq hpacked
  refine ⟨fun word hmem => ?_, ?_, ?_, hword, ?_⟩
  · rw [hvector] at hmem
    rcases mem_append.mp hmem with hfront | hback
    · exact hpacked.words word (dropLast_subset _ hfront)
    · rcases mem_cons.mp hback with rfl | hrest
      · exact hlast
      · exact hmore word hrest
  · rw [hvector, Nat.ofDigits_append, Nat.ofDigits_cons, ← pow_mul, hbits, bits_append,
      bits_singleton, hwhole, hheight, pow_add]
    ring
  · rw [hvector]
    simp only [height_append, height_singleton, length_append, length_cons]
    omega
  · rw [height_append, height_singleton, htotal, hpacked.total]
    exact (Nat.mod_add_mod _ _ _)

theorem or_back {value current : Nat} (hback : vector.back < 2 ^ current) :
    value * 2 ^ current ||| vector.back = vector.back + 2 ^ current * value := by
  rw [← Nat.shiftLeft_eq, ← Nat.shiftLeft_add_eq_or_of_lt hback, Nat.shiftLeft_eq]
  ring

theorem shifted_eq (value : Nat) {current : Nat} (hcur : current ≤ 32) :
    value * 2 ^ current % 2 ^ 32 = value % 2 ^ (32 - current) * 2 ^ current := by
  have hpow : 2 ^ 32 = 2 ^ (32 - current) * 2 ^ current := by
    rw [← pow_add, Nat.sub_add_cancel hcur]
  rw [hpow, Nat.mul_mod_mul_right]

theorem add_lt {low value current width : Nat} (hlow : low < 2 ^ current) (hval :
    value < 2 ^ width) (hroom : current + width ≤ 32) : low + 2 ^ current * value < 2 ^ 32 := by
  calc low + 2 ^ current * value
      < 2 ^ current + 2 ^ current * value := by omega
    _ = 2 ^ current * (value + 1) := by ring
    _ ≤ 2 ^ current * 2 ^ width := Nat.mul_le_mul_left _ hval
    _ = 2 ^ (current + width) := (pow_add _ _ _).symm
    _ ≤ 2 ^ 32 := Nat.pow_le_pow_right (by decide) hroom

theorem add_packed (hpacked : Packed vector fields) (hfields : ∀ field ∈ fields, field.Fits)
    (hfits : field.Fits) (hpos : 1 ≤ field.width) (hwidth : field.width ≤ 32) :
    ∃ next, vector.addNeighborIndex field.value field.width = .ok next ∧
    Packed next (fields ++ [field]) ∧ next.used = vector.used := by
  have hback := back_lt hpacked hfields
  have hword := hpacked.withinWord
  have hval : field.value < 2 ^ 32 := hfits.trans_le (Nat.pow_le_pow_right (by decide) hwidth)
  rw [addNeighborIndex, if_neg (by omega)]
  split
  next hover =>
    split
    next hfull =>
      -- the last word is full, and the index starts another
      rw [hfull] at hback
      refine ⟨_, rfl, @packed_concat vector fields field _ vector.back [field.value] hpacked ?_ rfl
        hback (by simpa using hval) ?_ ?_ hwidth, rfl⟩
      · change vector.nixVector ++ [field.value] = _
        conv_lhs => rw [← dropLast_append_getLast vector.nonempty, append_assoc]
        rfl
      · rw [Nat.ofDigits_singleton, hfull]
      · simp only [length_singleton, hfull]
        omega
    next hpart =>
      -- the index straddles the last word and a new one
      have hroom : vector.currentVectorBitSize < 32 := by omega
      have hlow := Nat.mod_lt field.value (Nat.two_pow_pos (32 - vector.currentVectorBitSize))
      have hhigh : field.value / 2 ^ (32 - vector.currentVectorBitSize) < 2 ^ 32 :=
        (Nat.div_le_self _ _).trans_lt hval
      rw [shiftLeft_of_lt hroom, shiftRight_of_lt (by omega), shifted_eq _ hroom.le]
      refine ⟨_, rfl, @packed_concat vector fields field _
        (field.value % 2 ^ (32 - vector.currentVectorBitSize) *
          2 ^ vector.currentVectorBitSize ||| vector.back)
        [field.value / 2 ^ (32 - vector.currentVectorBitSize)] hpacked ?_ rfl ?_
        (by simpa using hhigh) ?_ ?_ ?_, rfl⟩
      · simp [pushBack, setBack]
      · rw [or_back hback]
        exact add_lt hback hlow (by omega)
      · have hpow : 2 ^ 32 = 2 ^ vector.currentVectorBitSize *
            2 ^ (32 - vector.currentVectorBitSize) := by
          rw [← pow_add, Nat.add_sub_cancel' hroom.le]
        rw [or_back hback, Nat.ofDigits_singleton, hpow, add_assoc, mul_assoc,
          ← mul_add, Nat.mod_add_div]
      · simp only [length_singleton]
        omega
      · simp only
        omega
  next hroom =>
    rw [shiftLeft_of_lt (by omega), shifted_eq _ hword,
      Nat.mod_eq_of_lt (hfits.trans_le (Nat.pow_le_pow_right (by decide) (by omega)))]
    refine ⟨_, rfl, @packed_concat vector fields field _
      (field.value * 2 ^ vector.currentVectorBitSize ||| vector.back) [] hpacked rfl rfl ?_
      (by simp) ?_ rfl (by simpa using hroom), rfl⟩
    · rw [or_back hback]
      exact add_lt hback hfits (by omega)
    · rw [or_back hback, Nat.ofDigits_nil, mul_zero, add_zero]

/-! ## Taking an index out -/

/-- A vector from which everything above some fields has been taken out. -/
structure Reading (vector : NixVector) (fields front : List Field) : Prop where
  packed : Packed vector fields
  counted : height fields < 2 ^ 32
  split : ∃ back, fields = front ++ back
  used : vector.used + height front = height fields

theorem remaining_eq (hread : Reading vector fields front) :
    vector.getRemainingBits = height front := by
  have hused := hread.used
  have hcnt := hread.counted
  rw [getRemainingBits, hread.packed.total, uint32_of_lt hcnt, uint32OfInt]
  omega

theorem wordAt_eq (hpacked : Packed vector fields) {index : Nat}
    (hidx : 32 * index < height fields) :
    vector.wordAt index = .ok (bits fields / 2 ^ (32 * index) % 2 ^ 32) := by
  have hlen : index < vector.nixVector.length := by
    have hfilled := hpacked.filled
    have hword := hpacked.withinWord
    omega
  have hget := getElem?_eq_getElem hlen
  rw [wordAt, hget]
  simp only
  rw [← word_eq hpacked.words hget, hpacked.bits]

theorem extract_eq (hreading : Reading vector fields (front ++ [field]))
    (hfields : ∀ field ∈ fields, field.Fits) (hpos : 1 ≤ field.width) (hwidth : field.width ≤ 32) :
    vector.extractNeighborIndex field.width =
      if height (front ++ [field]) % 32 = 0 then .error .undefinedShift
      else .ok (field.value, { vector with used := uint32 (vector.used + field.width) }) := by
  have hleft := remaining_eq hreading
  obtain ⟨back, hsplit⟩ := hreading.split
  have htop : top (bits fields) (height (front ++ [field])) field.width = field.value := by
    rw [hsplit, append_assoc]
    refine top_bits (fun other hother => hfields other ?_) (hfields field ?_)
    · rw [hsplit]
      exact mem_append_left _ (mem_append_left _ hother)
    · rw [hsplit]
      exact mem_append_left _ (mem_append_right _ mem_cons_self)
  have hbelow : height (front ++ [field]) ≤ height fields := by
    rw [hsplit, height_append (front ++ [field])]
    exact Nat.le_add_right _ _
  have henough : field.width ≤ height (front ++ [field]) := by
    rw [height_append, height_singleton]
    exact Nat.le_add_left _ _
  have hidx := Nat.div_add_mod (height (front ++ [field]) - 1) 32
  generalize height (front ++ [field]) = remaining at *
  simp only [extractNeighborIndex, hleft]
  rw [if_neg (by omega), if_neg (by omega), if_neg (by omega)]
  split
  next hspan =>
    -- the field straddles two words
    obtain ⟨hupper, hacross⟩ := hspan
    obtain ⟨index, hnext⟩ := Nat.exists_eq_add_of_lt hupper
    rw [Nat.zero_add] at hnext
    rw [hnext] at hidx
    have hmod : remaining % 32 = (remaining - 1) % 32 + 1 := by omega
    have hheight : 32 * (index + 1) + remaining % 32 = remaining := by omega
    have hlower : bits fields / 2 ^ (32 * index) % 2 ^ 32 /
        2 ^ (32 - (field.width - remaining % 32)) < 2 ^ (field.width - remaining % 32) := by
      refine Nat.div_lt_of_lt_mul ?_
      rw [← pow_add, Nat.sub_add_cancel (by omega)]
      exact Nat.mod_lt _ (Nat.two_pow_pos _)
    have hor := Nat.shiftLeft_add_eq_or_of_lt hlower
      (bits fields / 2 ^ (32 * (index + 1)) % 2 ^ 32 % 2 ^ (remaining % 32))
    have hread := @top_across 32 index (remaining % 32) field.width (bits fields) (by omega)
      (by omega) (by omega)
    rw [hheight, htop] at hread
    rw [Nat.shiftLeft_eq, hread] at hor
    have hamount : 32 - remaining % 32 - (field.width - remaining % 32) = 32 - field.width := by
      omega
    have hshift : 32 - remaining % 32 - (32 - field.width) = field.width - remaining % 32 := by
      omega
    rw [hnext, Nat.add_sub_cancel, wordAt_eq hreading.packed (by omega),
      wordAt_eq hreading.packed (by omega)]
    simp only [bind_ok, shiftLeft_of_lt (show 32 - remaining % 32 < 32 by omega), hamount,
      shiftRight_of_lt (show 32 - field.width < 32 by omega),
      shiftRight_of_lt (show 32 - (field.width - remaining % 32) < 32 by omega),
      shift_partly _ (show remaining % 32 ≤ 32 by omega)
        (show 32 - field.width ≤ 32 - remaining % 32 by omega), hshift, ← hor]
    rw [if_neg (by omega)]
    rfl
  next hwithin =>
    rw [wordAt_eq hreading.packed (by omega)]
    by_cases hboundary : remaining % 32 = 0
    · -- the word would be shifted by its whole width
      rw [if_pos hboundary, hboundary]
      rfl
    · have hmod : remaining % 32 = (remaining - 1) % 32 + 1 := by omega
      have hheight : 32 * ((remaining - 1) / 32) + remaining % 32 = remaining := by omega
      have hread := @top_within 32 ((remaining - 1) / 32) (remaining % 32) field.width
        (bits fields) (by omega) (by omega)
      rw [hheight, htop] at hread
      have hshift : 32 - field.width - (32 - remaining % 32) = remaining % 32 - field.width := by
        omega
      simp only [bind_ok, shiftLeft_of_lt (show 32 - remaining % 32 < 32 by omega),
        shiftRight_of_lt (show 32 - field.width < 32 by omega),
        shift_down _ (show remaining % 32 ≤ 32 by omega)
          (show 32 - remaining % 32 ≤ 32 - field.width by omega), hshift, hread]
      rw [if_neg hboundary]
      rfl

/-! ## All indices in and out -/

theorem addAll_packed (hpacked : Packed vector front) (hfront : ∀ field ∈ front, field.Fits)
    (hfits : ∀ field ∈ fields, field.Fits ∧ 1 ≤ field.width ∧ field.width ≤ 32) :
    ∃ final,
      vector.addAll fields = .ok final ∧ Packed final (front ++ fields) ∧
        final.used = vector.used := by
  induction fields generalizing vector front with
  | nil => exact ⟨vector, rfl, by rwa [append_nil], rfl⟩
  | cons field rest ih =>
    obtain ⟨hfield, hpos, hwidth⟩ := hfits field mem_cons_self
    obtain ⟨next, hadd, hnext, hused⟩ := add_packed hpacked hfront hfield hpos hwidth
    obtain ⟨final, hall, hfinal, hkept⟩ := ih hnext
      (fun other hother => by
        rcases mem_append.mp hother with hold | hnew
        · exact hfront other hold
        · rwa [mem_singleton.mp hnew])
      fun other hother => hfits other (.tail _ hother)
    refine ⟨final, ?_, by rwa [append_assoc] at hfinal, hkept.trans hused⟩
    rw [addAll, hadd]
    exact hall

theorem returns_iff (hread : Reading vector fields front)
    (hfits : ∀ field ∈ fields, field.Fits ∧ 1 ≤ field.width ∧ field.width ≤ 32) :
    vector.Returns front.reverse ↔
      ∀ below field above,
        front = below ++ field :: above → height (below ++ [field]) % 32 ≠ 0 := by
  induction front using reverseRecOn generalizing vector with
  | nil =>
    rw [reverse_nil, Returns, remaining_eq hread]
    exact iff_of_true rfl fun below field above hnil =>
      absurd hnil (append_ne_nil_of_right_ne_nil _ (cons_ne_nil _ _)).symm
  | append_singleton front field ih =>
    obtain ⟨back, hsplit⟩ := hread.split
    have hmem : field ∈ fields := by
      rw [hsplit]
      exact mem_append_left _ (mem_append_right _ mem_cons_self)
    obtain ⟨-, hpos, hwidth⟩ := hfits field hmem
    have hextr := extract_eq hread (fun other hother => (hfits other hother).1) hpos hwidth
    have hheight : height (field :: front.reverse) = height (front ++ [field]) := by
      simp [height, add_comm]
    rw [reverse_append, reverse_singleton, singleton_append, Returns,
      remaining_eq hread, hheight, hextr]
    split
    next hboundary =>
      refine iff_of_false (by simp) fun hends => ?_
      exact hends front field [] rfl hboundary
    next hin =>
      have hused := hread.used
      rw [height_append, height_singleton] at hused
      have hnext : Reading { vector with used := uint32 (vector.used + field.width) } fields
          front := by
        have hcnt := hread.counted
        refine ⟨{ hread.packed with }, hcnt, ⟨[field] ++ back, ?_⟩, ?_⟩
        · rw [hsplit, append_assoc]
        · simp only
          rw [uint32_of_lt (by omega)]
          omega
      constructor
      · rintro ⟨-, next, hok, hret⟩
        obtain rfl := (Prod.mk.inj (Except.ok.inj hok)).2
        have hends := (ih hnext).mp hret
        intro below other above hcut
        rcases eq_nil_or_concat above with rfl | ⟨above, last, rfl⟩
        · obtain ⟨rfl, hlast⟩ := append_inj' hcut rfl
          rwa [← hlast]
        · rw [concat_eq_append, ← cons_append, ← append_assoc] at hcut
          exact hends below other above (append_inj' hcut rfl).1
      · intro hends
        refine ⟨rfl, _, rfl, (ih hnext).mpr fun below other above hcut => ?_⟩
        refine hends below other (above ++ [field]) ?_
        rw [hcut, append_assoc, cons_append]

theorem ends_iff :
    (∀ pos < fields.length, height (fields.take (pos + 1)) % 32 ≠ 0) ↔
      ∀ below field above,
        fields = below ++ field :: above → height (below ++ [field]) % 32 ≠ 0 := by
  constructor
  · rintro hends below field above rfl
    have hend := hends below.length (by simp)
    rwa [take_append, take_of_length_le (Nat.le_succ _), Nat.add_sub_cancel_left,
      take_succ_cons, take_zero] at hend
  · intro hends pos hpos
    have hsplit := take_append_drop pos fields
    rw [drop_eq_getElem_cons hpos] at hsplit
    have hend := hends _ _ _ hsplit.symm
    rwa [← take_concat_get' fields pos hpos]

/-- It is a stack exactly while no index ends where a word does, and all bits can be counted. -/
theorem unwinds_iff (hfits : ∀ field ∈ fields, field.Fits ∧ 1 ≤ field.width ∧ field.width ≤ 32) :
    Unwinds fields ↔ OffBoundaries fields := by
  obtain ⟨vector, hadd, hpacked, hused⟩ := addAll_packed create_packed (by simp) hfits
  rw [List.nil_append] at hpacked
  have hunwinds : Unwinds fields ↔ vector.Returns fields.reverse := by
    refine ⟨?_, fun hreturns => ⟨vector, hadd, hreturns⟩⟩
    rintro ⟨other, hother, hreturns⟩
    rwa [Except.ok.inj (hadd.symm.trans hother)]
  have hremaining : vector.getRemainingBits = uint32 (height fields) := by
    rw [getRemainingBits, hpacked.total, hused]
    simp only [create, uint32OfInt, uint32]
    omega
  rw [hunwinds]
  constructor
  · intro hreturns
    have hcounted : height fields < 2 ^ 32 := by
      have hlt : uint32 (height fields) < 2 ^ 32 := Nat.mod_lt _ (by decide)
      have hreverse : height fields.reverse = height fields := by
        simp [height]
      cases hfields : fields.reverse with
      | nil =>
        rw [List.reverse_eq_nil_iff.mp hfields]
        decide
      | cons field rest =>
        rw [hfields] at hreturns
        have hheight := hreturns.1
        rw [← hfields, hreverse, hremaining] at hheight
        omega
    have hreading : Reading vector fields fields :=
      ⟨hpacked, hcounted, ⟨[], (List.append_nil _).symm⟩, by rw [hused]; exact Nat.zero_add _⟩
    exact ⟨hcounted, ends_iff.mpr ((returns_iff hreading hfits).mp hreturns)⟩
  · rintro ⟨hcounted, hends⟩
    have hreading : Reading vector fields fields :=
      ⟨hpacked, hcounted, ⟨[], (List.append_nil _).symm⟩, by rw [hused]; exact Nat.zero_add _⟩
    exact (returns_iff hreading hfits).mpr (ends_iff.mp hends)

theorem unwinds_straddling : Unwinds [⟨5, 3⟩, ⟨1000, 30⟩] ∧ Unwinds [⟨5, 3⟩] :=
  ⟨(unwinds_iff (by unfold Field.Fits; decide)).mpr (by decide),
    (unwinds_iff (by unfold Field.Fits; decide)).mpr (by decide)⟩

/-- A single index of 32 bits. -/
theorem not_unwinds_word :
    ¬ Unwinds [⟨5, 32⟩] ∧
      ((create.addAll [⟨5, 32⟩]).bind fun vector => vector.extractNeighborIndex 32).map Prod.fst =
        .error .undefinedShift := by
  refine ⟨?_, rfl⟩
  rintro ⟨vector, hadd, -, next, hextract, -⟩
  cases hadd
  cases hextract

end NixVector

end HomaSird.Network
