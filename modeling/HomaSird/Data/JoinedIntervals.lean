import HomaSird.Data.Interval
import Mathlib.Data.List.Pairwise

/-! # Joining intervals that touch

A list of intervals in no particular order. A new one comes to its front, joined again and again
with the first that ends where it starts or starts where it ends, until none does.
-/

namespace HomaSird.Interval

open List

def Touches (range other : Interval) : Prop := range.lo = other.hi ∨ range.hi = other.lo

def Disjoint (range other : Interval) : Prop :=
  ∀ pos, ¬ (range.Contains pos ∧ other.Contains pos)

/-- The first of the others that `new` touches, joined with it, and the rest of them. -/
def joinTouching (new : Interval) : List Interval → Option (Interval × List Interval)
  | [] => none
  | range :: rest =>
    if new.lo = range.hi then some (⟨range.lo, new.hi⟩, rest)
    else if new.hi = range.lo then some (⟨new.lo, range.hi⟩, rest)
    else (joinTouching new rest).map fun found => (found.1, range :: found.2)

def joinAll : Nat → Interval → List Interval → List Interval
  | 0, new, others => new :: others
  | rounds + 1, new, others =>
    match joinTouching new others with
    | none => new :: others
    | some (joined, rest) => joinAll rounds joined rest

variable {new joined range other : Interval} {others rest : List Interval} {rounds : Nat}

theorem Disjoint.symm (hdisj : Disjoint range other) : Disjoint other range :=
  fun pos hboth => hdisj pos hboth.symm

instance : Std.Symm Disjoint := ⟨fun _ _ => Disjoint.symm⟩

def Joined (new : Interval) (others : List Interval) (joined : Interval)
    (rest : List Interval) : Prop :=
  ∃ front range back, others = front ++ range :: back ∧ rest = front ++ back ∧
    (new.lo = range.hi ∧ joined = ⟨range.lo, new.hi⟩ ∨
      new.hi = range.lo ∧ joined = ⟨new.lo, range.hi⟩)

theorem joinTouching_none (hnone : joinTouching new others = none) :
    ∀ range ∈ others, ¬ new.Touches range := by
  induction others with
  | nil => simp
  | cons first later ih =>
    rw [joinTouching] at hnone
    split at hnone
    · cases hnone
    next hleft =>
      split at hnone
      · cases hnone
      next hright =>
        exact forall_mem_cons.mpr ⟨not_or.mpr ⟨hleft, hright⟩, ih (Option.map_eq_none_iff.mp hnone)⟩

theorem joinTouching_some (hsome : joinTouching new others = some (joined, rest)) :
    Joined new others joined rest := by
  induction others generalizing rest with
  | nil => cases hsome
  | cons first later ih =>
    rw [joinTouching] at hsome
    split at hsome
    next hleft =>
      cases hsome
      exact ⟨[], first, later, rfl, rfl, .inl ⟨hleft, rfl⟩⟩
    · split at hsome
      next hright =>
        cases hsome
        exact ⟨[], first, later, rfl, rfl, .inr ⟨hright, rfl⟩⟩
      · obtain ⟨⟨found, remaining⟩, hfound, heq⟩ := Option.map_eq_some_iff.mp hsome
        obtain ⟨rfl, rfl⟩ := Prod.mk.inj heq
        obtain ⟨front, range, back, rfl, rfl, htouch⟩ := ih hfound
        exact ⟨first :: front, range, back, rfl, rfl, htouch⟩

namespace Joined

section

variable (hjoined : Joined new others joined rest)
include hjoined

theorem sublist : rest.Sublist others := by
  obtain ⟨front, range, back, rfl, rfl, -⟩ := hjoined
  exact (List.Sublist.refl front).append (sublist_cons_self range back)

theorem length : rest.length + 1 = others.length := by
  obtain ⟨front, range, back, rfl, rfl, -⟩ := hjoined
  simp only [length_append, length_cons]
  omega

theorem bounds (hothers : ∀ range ∈ others, range.lo < range.hi) :
    joined.lo ≤ new.lo ∧ new.hi ≤ joined.hi := by
  obtain ⟨front, range, back, rfl, rfl, htouch⟩ := hjoined
  have hrng := hothers range (by simp)
  rcases htouch with ⟨hleft, rfl⟩ | ⟨hright, rfl⟩
  · exact ⟨by simp only; omega, le_rfl⟩
  · exact ⟨le_rfl, by simp only; omega⟩

theorem covers (hnew : new.lo < new.hi) (hothers : ∀ range ∈ others, range.lo < range.hi)
    (pos : Nat) : Covers (joined :: rest) pos ↔ Covers (new :: others) pos := by
  obtain ⟨front, range, back, rfl, rfl, htouch⟩ := hjoined
  have hrng := hothers range (by simp)
  have hone : joined.Contains pos ↔ new.Contains pos ∨ range.Contains pos := by
    simp only [Contains]
    rcases htouch with ⟨hleft, rfl⟩ | ⟨hright, rfl⟩
    · simp only
      omega
    · simp only
      omega
  simp only [Covers, mem_cons, mem_append, or_and_right, exists_or, exists_eq_left, hone]
  rw [or_assoc]
  exact or_congr_right or_left_comm

theorem disjoint (hothers : ∀ range ∈ others, range.lo < range.hi)
    (hdisj : (new :: others).Pairwise Disjoint) : (joined :: rest).Pairwise Disjoint := by
  obtain ⟨hfst, hpairs⟩ := pairwise_cons.mp hdisj
  refine pairwise_cons.mpr ⟨fun other hother pos ⟨hin, hout⟩ => ?_,
    hpairs.sublist hjoined.sublist⟩
  obtain ⟨front, range, back, rfl, rfl, htouch⟩ := hjoined
  have hone : new.Contains pos ∨ range.Contains pos := by
    obtain ⟨hlo, hhi⟩ := hin
    simp only [Contains]
    rcases htouch with ⟨hleft, rfl⟩ | ⟨hright, rfl⟩
    · simp only at hlo hhi
      omega
    · simp only at hlo hhi
      omega
  have hapart : Disjoint range other := by
    obtain ⟨-, hback, hcross⟩ := pairwise_append.mp hpairs
    rcases mem_append.mp hother with hmem | hmem
    · exact (hcross other hmem range mem_cons_self).symm
    · exact (pairwise_cons.mp hback).1 other hmem
  rcases hone with hhere | hthere
  · have hmem : other ∈ front ++ range :: back :=
      ((List.Sublist.refl front).append (sublist_cons_self range back)).subset hother
    exact hfst other hmem pos ⟨hhere, hout⟩
  · exact hapart pos ⟨hthere, hout⟩

end

end Joined

/-- The interval that contains the new one, in front of others that are left as they were. -/
structure JoinedAll (rounds : Nat) (new : Interval) (others : List Interval) (first : Interval)
    (rest : List Interval) : Prop where
  sublist : rest.Sublist others
  bounds : first.lo ≤ new.lo ∧ new.hi ≤ first.hi
  covers : ∀ pos, Covers (first :: rest) pos ↔ Covers (new :: others) pos
  done : others.length ≤ rounds → ∀ range ∈ rest, ¬ first.Touches range
  disjoint : (new :: others).Pairwise Disjoint → (first :: rest).Pairwise Disjoint
  /-- as many as before when the new one touches one of the others -/
  length : 0 < rounds → (∃ range ∈ others, new.Touches range) → rest.length < others.length

theorem joinAll_spec (rounds : Nat) (hnew : new.lo < new.hi)
    (hothers : ∀ range ∈ others, range.lo < range.hi) :
    ∃ first rest,
      joinAll rounds new others = first :: rest ∧ JoinedAll rounds new others first rest := by
  induction rounds generalizing new others with
  | zero =>
    refine ⟨new, others, rfl, List.Sublist.refl _, ⟨le_rfl, le_rfl⟩, fun _ => Iff.rfl,
      fun hnone => ?_, id, fun hpos => absurd hpos (lt_irrefl _)⟩
    rw [eq_nil_of_length_eq_zero (Nat.eq_zero_of_le_zero hnone)]
    simp
  | succ rounds ih =>
    rw [joinAll]
    cases hround : joinTouching new others with
    | none =>
      have hapart := joinTouching_none hround
      exact ⟨new, others, rfl, List.Sublist.refl _, ⟨le_rfl, le_rfl⟩, fun _ => Iff.rfl,
        fun _ => hapart, id, fun _ ⟨range, hmem, htouch⟩ => absurd htouch (hapart range hmem)⟩
    | some found =>
      obtain ⟨joined, remaining⟩ := found
      have hjoined := joinTouching_some hround
      have hbounds := hjoined.bounds hothers
      have hlen := hjoined.length
      have hleft : ∀ range ∈ remaining, range.lo < range.hi :=
        fun range hmem => hothers range (hjoined.sublist.subset hmem)
      obtain ⟨first, rest, heq, hall⟩ :=
        @ih joined remaining (hbounds.1.trans_lt (hnew.trans_le hbounds.2)) hleft
      have hless := hall.sublist.length_le
      exact ⟨first, rest, heq, hall.sublist.trans hjoined.sublist,
        ⟨hall.bounds.1.trans hbounds.1, hbounds.2.trans hall.bounds.2⟩,
        fun pos => (hall.covers pos).trans (hjoined.covers hnew hothers pos),
        fun hrounds => hall.done (by omega),
        fun hdisj => hall.disjoint (hjoined.disjoint hothers hdisj),
        fun _ _ => by omega⟩

namespace JoinedAll

variable {first : Interval}

theorem mem_rest_of_contains (hall : JoinedAll rounds new others first rest)
    (hdisj : others.Pairwise Disjoint) (hmem : range ∈ others) {pos : Nat}
    (hin : range.Contains pos) (hout : ¬ first.Contains pos) : range ∈ rest := by
  have hcov : Covers (new :: others) pos := ⟨range, mem_cons_of_mem _ hmem, hin⟩
  obtain ⟨other, hother, hthere⟩ := (hall.covers pos).mpr hcov
  have hrest : other ∈ rest := by
    rcases mem_cons.mp hother with rfl | hrest
    · exact absurd hthere hout
    · exact hrest
  by_contra hnot
  have hne : other ≠ range := fun hsame => hnot (hsame ▸ hrest)
  exact hdisj.forall (hall.sublist.subset hrest) hmem hne pos ⟨hthere, hin⟩

section

variable (hall : JoinedAll rounds new others first rest) (hrounds : others.length ≤ rounds)
  (hnew : new.lo < new.hi) (hothers : ∀ range ∈ others, range.lo < range.hi)
  (hdisj : (new :: others).Pairwise Disjoint)
include hall hrounds hnew hothers hdisj

/-- What does not touch and is disjoint ends in front of the joined interval or starts behind. -/
theorem apart (hmem : range ∈ rest) : range.hi < first.lo ∨ first.hi < range.lo := by
  have hbounds := hall.bounds
  have hsome := hothers range (hall.sublist.subset hmem)
  have htouch := not_or.mp (hall.done hrounds range hmem)
  have hapart := (pairwise_cons.mp (hall.disjoint hdisj)).1 range hmem
  by_contra hnear
  refine hapart (max first.lo range.lo) ⟨⟨le_max_left _ _, ?_⟩, ⟨le_max_right _ _, ?_⟩⟩ <;> omega

theorem contains_of_touches (hmem : range ∈ others) (htouch : new.Touches range)
    {pos : Nat} (hin : range.Contains pos) : first.Contains pos := by
  by_contra hout
  have hrest := hall.mem_rest_of_contains (pairwise_cons.mp hdisj).2 hmem hin hout
  have hbounds := hall.bounds
  rcases hall.apart hrounds hnew hothers hdisj hrest with hfront | hbehind
  · rcases htouch with hleft | hright
    · omega
    · have hsome := hothers range hmem
      omega
  · rcases htouch with hleft | hright
    · have hsome := hothers range hmem
      omega
    · omega

theorem not_covers_beside {pos : Nat} (hbeside : pos + 1 = first.lo ∨ pos = first.hi)
    : ¬ Covers (new :: others) pos := by
  intro hcov
  have hbounds := hall.bounds
  obtain ⟨range, hrng, hlo, hhi⟩ := (hall.covers pos).mpr hcov
  rcases mem_cons.mp hrng with rfl | hrest
  · omega
  · have hapart := hall.apart hrounds hnew hothers hdisj hrest
    omega

end

end JoinedAll

end HomaSird.Interval
