import Mathlib.Order.Bounds.Basic

/-! # The octets of marked blocks

A list of blocks whose octets share one mark stands for the list of those marks. A scan
over the blocks for the first one with some mark finds the first octet with it.
-/

namespace HomaSird.Data

open List

variable {Block Mark : Type} (size : Block → Nat) (mark : Block → Mark)

def spread (blocks : List Block) : List Mark :=
  blocks.flatMap fun block => List.replicate (size block) (mark block)

def placesBefore {Mark : Type} (wanted later : Mark → Bool) (marks : List Mark) : Set Nat :=
  {place | (∃ found ∈ marks[place]?, wanted found = true) ∧
    ∃ behind, place < behind ∧ ∃ found ∈ marks[behind]?, later found = true}

variable {size mark} {wanted later : Mark → Bool} {front back blocks : List Block} {block : Block}
  {place : Nat}

@[simp] theorem spread_cons (block : Block) (rest : List Block) :
    spread size mark (block :: rest) =
      replicate (size block) (mark block) ++ spread size mark rest := rfl

@[simp] theorem spread_append (front back : List Block) :
    spread size mark (front ++ back) = spread size mark front ++ spread size mark back :=
  flatMap_append

theorem exists_block_of_mem {found : Mark} (hfound : found ∈ (spread size mark blocks)[place]?) :
    ∃ block ∈ blocks, mark block = found := by
  obtain ⟨block, hblock, hmem⟩ := mem_flatMap.mp (mem_of_getElem? hfound)
  exact ⟨block, hblock, (eq_of_mem_replicate hmem).symm⟩

theorem exists_place_of_mem (hblock : block ∈ blocks) (hsz : 0 < size block) :
    ∃ place : Nat, mark block ∈ (spread size mark blocks)[place]? :=
  mem_iff_getElem?.mp (mem_flatMap.mpr
    ⟨block, hblock, mem_replicate.mpr ⟨ne_of_gt hsz, rfl⟩⟩)

theorem length_le_of_wanted (hfront : ∀ block ∈ front, wanted (mark block) = false)
    {found : Mark} (hfound : found ∈ (spread size mark (front ++ back))[place]?)
    (hwanted : wanted found = true) : (spread size mark front).length ≤ place := by
  by_contra hpre
  rw [spread_append, getElem?_append_left (Nat.lt_of_not_le hpre)] at hfound
  obtain ⟨block, hblock, rfl⟩ := exists_block_of_mem hfound
  rw [hfront block hblock] at hwanted
  cases hwanted

theorem exists_behind (hblock : later (mark block) = false)
    (hplace : (spread size mark front).length ≤ place) {found : Mark}
    (hfound : found ∈ (spread size mark (front ++ block :: back))[place]?)
    (hlater : later found = true) :
    ∃ other ∈ back, later (mark other) = true := by
  rw [spread_append, getElem?_append_right hplace, spread_cons,
    getElem?_append, length_replicate] at hfound
  split at hfound
  next hhere =>
    rw [getElem?_replicate_of_lt hhere, Option.mem_some_iff] at hfound
    rw [← hfound, hblock] at hlater
    cases hlater
  · obtain ⟨other, hother, rfl⟩ := exists_block_of_mem hfound
    exact ⟨other, hother, hlater⟩

theorem placesBefore_eq_empty (hnone : ∀ block ∈ blocks, wanted (mark block) = false) :
    placesBefore wanted later (spread size mark blocks) = ∅ := by
  refine Set.eq_empty_iff_forall_notMem.mpr ?_
  rintro place ⟨⟨found, hfound, hwanted⟩, -⟩
  obtain ⟨block, hblock, rfl⟩ := exists_block_of_mem hfound
  rw [hnone block hblock] at hwanted
  cases hwanted

section First

variable (hfront : ∀ block ∈ front, wanted (mark block) = false)
  (hblock : wanted (mark block) = true)
include hfront hblock

theorem placesBefore_eq_empty_of_first (hexclude : ∀ found, wanted found = true →
    later found = false) (hback : ∀ other ∈ back, later (mark other) = false) :
    placesBefore wanted later (spread size mark (front ++ block :: back)) = ∅ := by
  refine Set.eq_empty_iff_forall_notMem.mpr ?_
  rintro place ⟨⟨found, hfound, hwanted⟩, behind, hbehind, last, hlast, hlater⟩
  have hplace := length_le_of_wanted hfront hfound hwanted
  obtain ⟨other, hother, hmark⟩ :=
    exists_behind (hexclude _ hblock) (hplace.trans (le_of_lt hbehind)) hlast hlater
  rw [hback other hother] at hmark
  cases hmark

theorem isLeast_placesBefore (hsz : ∀ other ∈ block :: back, 0 < size other) {other : Block}
    (hother : other ∈ back) (hlater : later (mark other) = true) :
    IsLeast (placesBefore wanted later (spread size mark (front ++ block :: back)))
      (spread size mark front).length := by
  rw [forall_mem_cons] at hsz
  obtain ⟨place, hplace⟩ := @exists_place_of_mem _ _ _ mark _ _ hother (hsz.2 other hother)
  refine ⟨⟨⟨mark block, ?_, hblock⟩,
    (spread size mark front).length + (size block + place), by omega, mark other, ?_, hlater⟩, ?_⟩
  · rw [spread_append, getElem?_append_right (Nat.le_refl _), Nat.sub_self, spread_cons,
      getElem?_append_left (by simpa using hsz.1), getElem?_replicate_of_lt hsz.1]
    rfl
  · rw [spread_append, getElem?_append_right (Nat.le_add_right _ _), Nat.add_sub_cancel_left,
      spread_cons, getElem?_append_right (by simp), length_replicate,
      Nat.add_sub_cancel_left]
    exact hplace
  · rintro place ⟨⟨found, hfound, hwanted⟩, -⟩
    exact length_le_of_wanted hfront hfound hwanted

end First

end HomaSird.Data
