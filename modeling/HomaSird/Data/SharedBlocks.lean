import Mathlib.Data.List.Count
import HomaSird.Data.UnorderedMap
import HomaSird.Data.Word

/-! # Reference-counted blocks of memory

A block carries a 32-bit count of its owners. The owners are kept beside the blocks as a
list of pointers; each operation on a block goes with a change of that list.
-/

namespace HomaSird

open UnorderedMap List

universe u

structure Block (Content : Type u) where
  count : Nat
  content : Content
deriving DecidableEq

structure BlockHeap (Content : Type u) where
  blocks : UnorderedMap Nat (Block Content) := ∅
  fresh : Nat := 0

namespace BlockHeap

variable {Content : Type u}

def countOf (heap : BlockHeap Content) (address : Nat) : Nat :=
  ((heap.blocks.lookup address).map Block.count).getD 0

def contentOf (heap : BlockHeap Content) (address : Nat) : Option Content :=
  (heap.blocks.lookup address).map Block.content

def alloc (heap : BlockHeap Content) (content : Content) : BlockHeap Content where
  blocks := heap.blocks.insert heap.fresh ⟨1, content⟩
  fresh := heap.fresh + 1

def put (heap : BlockHeap Content) (address : Nat) (content : Content) : BlockHeap Content :=
  match heap.blocks.lookup address with
  | some block =>
    { heap with blocks := heap.blocks.insert address { block with content := content } }
  | none => heap

def recount (heap : BlockHeap Content) (address : Nat) (change : Nat → Nat) :
    BlockHeap Content :=
  match heap.blocks.lookup address with
  | some block =>
    { heap with blocks := heap.blocks.insert address { block with count := change block.count } }
  | none => heap

def retain (heap : BlockHeap Content) (address : Nat) : BlockHeap Content :=
  heap.recount address fun count => uint32 (count + 1)

/-- One owner less; a block without owners goes. -/
def release (heap : BlockHeap Content) (address : Nat) : BlockHeap Content :=
  let heap := heap.recount address fun count => uint32 (count + (2 ^ 32 - 1))
  if heap.countOf address = 0 then { heap with blocks := heap.blocks.erase address } else heap

structure Counted (heap : BlockHeap Content) (owners : List (Option Nat)) : Prop where
  counts : ∀ address, heap.countOf address = owners.count (some address)
  live : ∀ address ∈ heap.blocks, 0 < heap.countOf address ∧ address < heap.fresh

variable {heap : BlockHeap Content} {owners : List (Option Nat)} {address other : Nat}
  {block : Block Content} {content : Content}

theorem mem_blocks : address ∈ heap.blocks ↔ ∃ block, heap.blocks.lookup address = some block := by
  rw [← AList.lookup_isSome, Option.isSome_iff_exists]

theorem countOf_eq (hblock : heap.blocks.lookup address = some block) :
    heap.countOf address = block.count := by
  rw [countOf, hblock]
  rfl

theorem countOf_of_not_mem (hnot : address ∉ heap.blocks) : heap.countOf address = 0 := by
  rw [countOf, AList.lookup_eq_none.mpr hnot]
  rfl

theorem mem_of_contentOf (hcont : heap.contentOf address = some content) :
    address ∈ heap.blocks := by
  obtain ⟨block, hblock, -⟩ := Option.map_eq_some_iff.mp hcont
  exact mem_blocks.mpr ⟨block, hblock⟩

/-! ## Lookups after an operation -/

theorem contentOf_alloc (content : Content) (address : Nat) :
    (heap.alloc content).contentOf address =
      if address = heap.fresh then some content else heap.contentOf address := by
  rw [contentOf, alloc, lookup_insert, contentOf]
  split <;> rfl

theorem countOf_alloc (content : Content) (address : Nat) :
    (heap.alloc content).countOf address =
      if address = heap.fresh then 1 else heap.countOf address := by
  rw [countOf, alloc, lookup_insert, countOf]
  split <;> rfl

theorem contentOf_put (hmem : address ∈ heap.blocks) (content : Content) (other : Nat) :
    (heap.put address content).contentOf other =
      if other = address then some content else heap.contentOf other := by
  obtain ⟨block, hblock⟩ := mem_blocks.mp hmem
  simp only [contentOf, put, hblock]
  rw [lookup_insert]
  split <;> rfl

theorem countOf_put (address : Nat) (content : Content)
    (other : Nat) : (heap.put address content).countOf other = heap.countOf other := by
  rw [put]
  split
  next block hblock =>
    simp only [countOf]
    rw [lookup_insert]
    split
    next heq => rw [heq, hblock]; rfl
    · rfl
  · rfl

theorem contentOf_recount (address : Nat) (change : Nat → Nat)
    (other : Nat) : (heap.recount address change).contentOf other = heap.contentOf other := by
  rw [recount]
  split
  next block hblock =>
    simp only [contentOf]
    rw [lookup_insert]
    split
    next heq => rw [heq, hblock]; rfl
    · rfl
  · rfl

theorem countOf_recount (hmem : address ∈ heap.blocks) (change : Nat → Nat) (other : Nat) :
    (heap.recount address change).countOf other =
      if other = address then change (heap.countOf address) else heap.countOf other := by
  obtain ⟨block, hblock⟩ := mem_blocks.mp hmem
  rw [countOf_eq hblock]
  simp only [countOf, recount, hblock]
  rw [lookup_insert]
  split <;> rfl

theorem mem_put (address : Nat) (content : Content)
    (other : Nat) : other ∈ (heap.put address content).blocks ↔ other ∈ heap.blocks := by
  rw [put]
  split
  next block hblock =>
    refine (AList.mem_insert _).trans ⟨fun hor => ?_, .inr⟩
    rcases hor with rfl | hmem
    · exact mem_blocks.mpr ⟨block, hblock⟩
    · exact hmem
  · rfl

theorem mem_recount (address : Nat) (change : Nat → Nat)
    (other : Nat) : other ∈ (heap.recount address change).blocks ↔ other ∈ heap.blocks := by
  rw [recount]
  split
  next block hblock =>
    refine (AList.mem_insert _).trans ⟨fun hor => ?_, .inr⟩
    rcases hor with rfl | hmem
    · exact mem_blocks.mpr ⟨block, hblock⟩
    · exact hmem
  · rfl

@[simp] theorem fresh_put
    (address : Nat) (content : Content) : (heap.put address content).fresh = heap.fresh := by
  rw [put]
  split <;> rfl

@[simp] theorem fresh_recount
    (address : Nat) (change : Nat → Nat) : (heap.recount address change).fresh = heap.fresh := by
  rw [recount]
  split <;> rfl

/-! ## Owners -/

namespace Counted

theorem empty : (⟨∅, 0⟩ : BlockHeap Content).Counted [] :=
  ⟨fun _ => rfl, fun _ hmem => absurd hmem (AList.notMem_empty _)⟩

theorem perm (hcounted : heap.Counted owners)
    {same : List (Option Nat)} (hperm : owners.Perm same) : heap.Counted same :=
  ⟨fun address => (hcounted.counts address).trans (hperm.count_eq _), hcounted.live⟩

theorem none_cons (hcounted : heap.Counted owners) : heap.Counted (none :: owners) :=
  ⟨fun address => (hcounted.counts address).trans
    (count_cons_of_ne (by simp)).symm, hcounted.live⟩

theorem of_none_cons (hcounted : heap.Counted (none :: owners)) : heap.Counted owners :=
  ⟨fun address => (hcounted.counts address).trans (count_cons_of_ne (by simp)),
    hcounted.live⟩

section

variable (hcounted : heap.Counted owners)
include hcounted

theorem mem_of_owner (hmem : some address ∈ owners) : address ∈ heap.blocks := by
  by_contra hnot
  have hpos := count_pos_iff.mpr hmem
  rw [← hcounted.counts, countOf_of_not_mem hnot] at hpos
  exact lt_irrefl _ hpos

theorem fresh_not_mem : heap.fresh ∉ heap.blocks :=
  fun hmem => lt_irrefl _ (hcounted.live _ hmem).2

theorem ne_fresh (hmem : some address ∈ owners) : address ≠ heap.fresh :=
  ne_of_mem_of_not_mem (hcounted.mem_of_owner hmem) hcounted.fresh_not_mem

theorem count_le (address : Nat) : heap.countOf address ≤ owners.length :=
  (hcounted.counts address).trans_le count_le_length

end

theorem not_mem_of_one (hcounted : heap.Counted (some address :: owners))
    (hone : heap.countOf address = 1) : some address ∉ owners := by
  intro hmem
  have hpos := count_pos_iff.mpr hmem
  have hcnt := hcounted.counts address
  rw [count_cons_self] at hcnt
  omega

theorem alloc (hcounted : heap.Counted owners) (content : Content) :
    (heap.alloc content).Counted (some heap.fresh :: owners) where
  counts address := by
    rw [countOf_alloc]
    split
    next heq =>
      have hzero := hcounted.counts heap.fresh
      rw [countOf_of_not_mem hcounted.fresh_not_mem] at hzero
      rw [heq, count_cons_self, ← hzero]
    next hne =>
      rw [count_cons_of_ne (fun heq => hne (Option.some.inj heq).symm), hcounted.counts]
  live address hmem := by
    rw [countOf_alloc]
    change _ ∧ address < heap.fresh + 1
    rcases (AList.mem_insert _).mp hmem with rfl | hold
    · rw [if_pos rfl]
      exact ⟨Nat.one_pos, Nat.lt_succ_self _⟩
    · obtain ⟨hpos, hlt⟩ := hcounted.live address hold
      rw [if_neg (ne_of_lt hlt)]
      exact ⟨hpos, Nat.lt_succ_of_lt hlt⟩

theorem put (hcounted : heap.Counted owners) (address : Nat) (content : Content) :
    (heap.put address content).Counted owners where
  counts other := by rw [countOf_put, hcounted.counts]
  live other hmem := by
    rw [countOf_put, fresh_put]
    exact hcounted.live other ((mem_put _ _ _).mp hmem)

theorem retain (hcounted : heap.Counted owners) (hmem : some address ∈ owners) (hroom :
    owners.length + 1 < 2 ^ 32) : (heap.retain address).Counted (some address :: owners) := by
  have hblock := hcounted.mem_of_owner hmem
  have hle := hcounted.count_le address
  have hcnt : ∀ other, (heap.retain address).countOf other =
      if other = address then heap.countOf address + 1 else heap.countOf other := by
    intro other
    rw [BlockHeap.retain, countOf_recount hblock, uint32_of_lt (by omega)]
  constructor
  · intro other
    rw [hcnt]
    split
    next heq => rw [heq, count_cons_self, hcounted.counts]
    next hne =>
      rw [count_cons_of_ne (fun heq => hne (Option.some.inj heq).symm), hcounted.counts]
  · intro other hother
    obtain ⟨hpos, hlt⟩ := hcounted.live other ((mem_recount _ _ _).mp hother)
    rw [hcnt, BlockHeap.retain, fresh_recount]
    refine ⟨?_, hlt⟩
    split <;> omega

theorem release (hcounted : heap.Counted (some address :: owners))
    (hroom : owners.length + 1 < 2 ^ 32) :
    (heap.release address).Counted owners ∧
      ∀ other,
        some other ∈ owners → (heap.release address).contentOf other = heap.contentOf other := by
  have hblock := hcounted.mem_of_owner mem_cons_self
  have hle := hcounted.count_le address
  rw [length_cons] at hle
  have hown := hcounted.counts address
  rw [count_cons_self] at hown
  generalize hless : heap.recount address (fun count => uint32 (count + (2 ^ 32 - 1))) = less
  have hcnt : ∀ other, less.countOf other =
      if other = address then heap.countOf address - 1 else heap.countOf other := by
    intro other
    have hword : uint32 (heap.countOf address + (2 ^ 32 - 1)) = heap.countOf address - 1 := by
      simp only [uint32]
      omega
    rw [← hless, countOf_recount hblock, hword]
  have hrest : ∀ other, (if other = address then heap.countOf address - 1
      else heap.countOf other) = owners.count (some other) := by
    intro other
    split
    next heq =>
      rw [heq]
      omega
    next hne =>
      rw [hcounted.counts, count_cons_of_ne (fun heq => hne (Option.some.inj heq).symm)]
  have hcont : ∀ other, less.contentOf other = heap.contentOf other := by
    intro other
    rw [← hless, contentOf_recount]
  have hfresh : less.fresh = heap.fresh := by rw [← hless, fresh_recount]
  have hmem : ∀ other, other ∈ less.blocks ↔ other ∈ heap.blocks := by
    intro other
    rw [← hless, mem_recount]
  simp only [BlockHeap.release, hless]
  split
  next hzero =>
    rw [hcnt, if_pos rfl] at hzero
    have hnot : some address ∉ owners := by
      rw [← count_eq_zero]
      omega
    have hgone : ∀ other, (⟨less.blocks.erase address, less.fresh⟩ :
        BlockHeap Content).countOf other = if other = address then 0 else less.countOf other := by
      intro other
      rw [countOf, lookup_erase, countOf]
      split <;> rfl
    refine ⟨⟨fun other => ?_, fun other hother => ?_⟩, fun other hother => ?_⟩
    · rw [hgone, ← hrest, hcnt]
      split
      · omega
      · rfl
    · obtain ⟨hne, hold⟩ := AList.mem_erase.mp hother
      rw [hgone, if_neg hne, hcnt, if_neg hne]
      change _ ∧ other < less.fresh
      rw [hfresh]
      exact hcounted.live other ((hmem other).mp hold)
    · have hne : other ≠ address := fun heq => hnot (heq ▸ hother)
      rw [contentOf, lookup_erase, if_neg hne]
      exact hcont other
  next hzero =>
    rw [hcnt, if_pos rfl] at hzero
    refine ⟨⟨fun other => (hcnt other).trans (hrest other), fun other hother => ?_⟩,
      fun other _ => hcont other⟩
    obtain ⟨hother, hlt⟩ := hcounted.live other ((hmem other).mp hother)
    rw [hcnt, hfresh]
    refine ⟨?_, hlt⟩
    split <;> omega

end Counted

end BlockHeap

end HomaSird
