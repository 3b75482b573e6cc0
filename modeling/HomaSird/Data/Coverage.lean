import HomaSird.Data.Interval

/-! # How far ranges reach

Ranges in the order of where they start, which may overlap and contain one another. A scan keeps
the end of what is covered without a gap; a range that starts beyond it is behind a gap, and so is
all that follows.
-/

namespace HomaSird.Interval

open List

def Ordered (ranges : List Interval) : Prop :=
  ranges.Pairwise fun range other => range.lo ≤ other.lo

/-- Where the ranges that follow on from a position without a gap end. -/
def reach : Nat → List Interval → Nat
  | pos, [] => pos
  | pos, range :: rest =>
    reach (if range.lo ≤ pos then max pos range.hi else pos) rest

variable {ranges rest front back : List Interval} {range : Interval} {pos bound start : Nat}

theorem le_reach (start : Nat) (ranges : List Interval) : start ≤ reach start ranges := by
  induction ranges generalizing start with
  | nil => exact le_rfl
  | cons range rest ih =>
    refine le_trans ?_ (ih _)
    split
    · exact Nat.le_max_left _ _
    · exact le_rfl

theorem reach_le (hstart : start ≤ bound)
    (hrngs : ∀ range ∈ ranges, range.hi ≤ bound) : reach start ranges ≤ bound := by
  induction ranges generalizing start with
  | nil => exact hstart
  | cons range rest ih =>
    obtain ⟨hfst, hrest⟩ := forall_mem_cons.mp hrngs
    refine ih ?_ hrest
    split
    · exact Nat.max_le.mpr ⟨hstart, hfst⟩
    · exact hstart

theorem reach_singleton (hreach : range.lo ≤ start) : reach start [range] = max start range.hi := by
  rw [reach, if_pos hreach, reach]

theorem reach_of_gap (hgap : ∀ range ∈ ranges, start < range.lo) : reach start ranges = start := by
  induction ranges with
  | nil => rfl
  | cons range rest ih =>
    obtain ⟨hfst, hrest⟩ := forall_mem_cons.mp hgap
    rw [reach, if_neg (not_le.mpr hfst), ih hrest]

theorem Ordered.gap (hord : Ordered (range :: rest))
    (hgap : start < range.lo) : ∀ other ∈ range :: rest, start < other.lo :=
  forall_mem_cons.mpr ⟨hgap, fun _ hother =>
    lt_of_lt_of_le hgap ((pairwise_cons.mp hord).1 _ hother)⟩

theorem covers_of_lt_reach (hstart : start ≤ pos)
    (hpos : pos < reach start ranges) : Covers ranges pos := by
  induction ranges generalizing start with
  | nil => exact absurd hpos (not_lt.mpr hstart)
  | cons range rest ih =>
    rw [covers_cons]
    rw [reach] at hpos
    split at hpos
    next hle =>
      rcases Nat.lt_or_ge pos (max start range.hi) with hin | hout
      · exact .inl ⟨le_trans hle hstart, by omega⟩
      · exact .inr (ih hout hpos)
    · exact .inr (ih hstart hpos)

theorem hi_le_reach (hord : Ordered ranges) (hmem : range ∈ ranges)
    (hreach : range.lo ≤ reach start ranges) : range.hi ≤ reach start ranges := by
  induction ranges generalizing start with
  | nil => cases hmem
  | cons first rest ih =>
    obtain ⟨hfst, hrest⟩ := pairwise_cons.mp hord
    by_cases hle : first.lo ≤ start
    · rw [reach, if_pos hle] at hreach ⊢
      rcases mem_cons.mp hmem with rfl | hmem
      · exact le_trans (Nat.le_max_right _ _) (le_reach _ rest)
      · exact ih hrest hmem hreach
    · rw [reach_of_gap (hord.gap (not_le.mp hle))] at hreach
      have hgap := hord.gap (not_le.mp hle) range hmem
      omega

theorem not_covers_reach (hord : Ordered ranges) : ¬ Covers ranges (reach start ranges) := by
  rintro ⟨range, hmem, hlo, hhi⟩
  exact not_lt.mpr (hi_le_reach hord hmem hlo) hhi

theorem le_reach_of_covers (hord : Ordered ranges) (hcov : ∀ pos, start ≤ pos →
    pos < bound → Covers ranges pos) : bound ≤ reach start ranges := by
  by_contra hless
  exact not_covers_reach hord (hcov _ (le_reach _ _) (not_le.mp hless))

theorem reach_front (hord : Ordered (front ++ back)) (hbehind : ∀ range ∈ back, bound ≤ range.lo)
    (hcov : ∀ pos, start ≤ pos → pos < bound → Covers (front ++ back) pos) :
    bound ≤ reach start front := by
  refine le_reach_of_covers (pairwise_append.mp hord).1 fun pos hfrom hto => ?_
  obtain ⟨range, hmem, hin⟩ := hcov pos hfrom hto
  rcases mem_append.mp hmem with hmem | hmem
  · exact ⟨range, hmem, hin⟩
  · have hlo := hbehind range hmem
    have hle := hin.1
    omega

/-- Some range ends where the scan has come to, unless it has not moved. -/
theorem exists_hi_eq_reach (hmoved : start < reach start ranges) :
    ∃ range ∈ ranges, range.hi = reach start ranges := by
  induction ranges generalizing start with
  | nil => exact absurd hmoved (lt_irrefl _)
  | cons first rest ih =>
    rw [reach] at hmoved ⊢
    generalize hnext : (if first.lo ≤ start then max start first.hi else start) = next
      at hmoved ⊢
    rcases Nat.eq_or_lt_of_le (le_reach next rest) with hsame | hless
    · rw [← hsame] at hmoved ⊢
      refine ⟨first, mem_cons_self, ?_⟩
      split at hnext <;> omega
    · obtain ⟨range, hmem, hhi⟩ := ih hless
      exact ⟨range, mem_cons_of_mem _ hmem, hhi⟩

theorem exists_lt_reach_iff (hord : Ordered ranges)
    (hfilled : ∀ range ∈ ranges, range.lo ≤ range.hi) :
    (∃ front range back, ranges = front ++ range :: back ∧ range.hi < reach 0 front) ↔
      ∃ first second,
        [first, second].Sublist ranges ∧ second.hi < first.hi ∧
          ∀ pos < first.lo, Covers ranges pos := by
  constructor
  · rintro ⟨front, range, back, rfl, hless⟩
    obtain ⟨first, hfst, hhi⟩ :=
      exists_hi_eq_reach (Nat.lt_of_le_of_lt (Nat.zero_le range.hi) hless)
    have hlo : first.lo ≤ range.lo := (pairwise_append.mp hord).2.2 first hfst range mem_cons_self
    have hrng := hfilled range (mem_append_right _ mem_cons_self)
    refine ⟨first, range, ?_, by omega, fun pos hpos => ?_⟩
    · exact (singleton_sublist.mpr hfst).append
        (singleton_sublist.mpr mem_cons_self)
    · obtain ⟨other, hmem, hin⟩ := covers_of_lt_reach (Nat.zero_le pos)
        (show pos < reach 0 front by omega)
      exact ⟨other, mem_append_left _ hmem, hin⟩
  · rintro ⟨first, second, hsub, hless, hcov⟩
    obtain ⟨before, after, rfl, hpre, hafter⟩ :=
      append_sublist_iff.mp (show ([first] ++ [second]).Sublist ranges from hsub)
    obtain ⟨middle, back, rfl⟩ := append_of_mem (singleton_sublist.mp hafter)
    rw [← append_assoc] at hord hcov
    have hfst : first ∈ before ++ middle := mem_append_left _ (singleton_sublist.mp hpre)
    have hfront : first.lo ≤ reach 0 (before ++ middle) := reach_front hord
      (fun other hother => (pairwise_append.mp hord).2.2 first hfst other hother)
      fun pos _ hpos => hcov pos hpos
    refine ⟨before ++ middle, second, back, (append_assoc _ _ _).symm, ?_⟩
    exact Nat.lt_of_lt_of_le hless
      (hi_le_reach (pairwise_append.mp hord).1 hfst hfront)

end HomaSird.Interval
