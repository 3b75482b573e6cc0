import Mathlib.Order.MinMax
import Mathlib.Tactic.Ring

/-! # Sorted lists of disjoint intervals

Half-open intervals in increasing order without overlap. A new one is fitted between the old ones,
which trims it and drops those it swallows, and inserted; positions are consumed from the front.
-/

namespace HomaSird

open List

structure Interval where
  lo : Nat
  hi : Nat
deriving DecidableEq

namespace Interval

def Contains (range : Interval) (pos : Nat) : Prop :=
  range.lo ≤ pos ∧ pos < range.hi

def length (range : Interval) : Nat := range.hi - range.lo

/-- Nonempty, in increasing order from `start` on, and disjoint. -/
def Separated : Nat → List Interval → Prop
  | _, [] => True
  | start, range :: rest => start ≤ range.lo ∧ range.lo < range.hi ∧ Separated range.hi rest

def Covers (ranges : List Interval) (pos : Nat) : Prop :=
  ∃ range ∈ ranges, range.Contains pos

def total (ranges : List Interval) : Nat := (ranges.map length).sum

/-- Fit `[head, tail)` between the ranges: what is left of them and of it. -/
def fit (head tail : Nat) : List Interval → List Interval × Nat × Nat
  | [] => ([], head, tail)
  | range :: rest =>
    if range.lo ≤ tail then
      if head < range.hi then
        if head < range.lo ∧ range.hi < tail then fit head tail rest
        else
          let fitted := fit (if range.lo ≤ head then range.hi else head)
            (if tail ≤ range.hi then range.lo else tail) rest
          (range :: fitted.1, fitted.2)
      else
        let fitted := fit head tail rest
        (range :: fitted.1, fitted.2)
    else (range :: rest, head, tail)

def insert (new : Interval) : List Interval → List Interval
  | [] => [new]
  | range :: rest =>
    if new.lo < range.lo then new :: range :: rest else range :: insert new rest

/-- The end of the run of adjacent ranges that starts at `next`. -/
def advance (next : Nat) : List Interval → Nat
  | [] => next
  | range :: rest =>
    if range.lo < next then advance next rest
    else if next < range.lo then next
    else advance range.hi rest

/-- Remove the first `count` positions. -/
def consume (count : Nat) : List Interval → List Interval
  | [] => []
  | range :: rest =>
    if count = 0 then range :: rest
    else if range.length ≤ count then consume (count - range.length) rest
    else ⟨range.lo + count, range.hi⟩ :: rest

/-- Where the ranges start, or `next` when that comes first. -/
def lowest (next : Nat) : List Interval → Nat
  | [] => next
  | range :: _ => min range.lo next

/-- The positions of the ranges that start below `next`. -/
def totalBelow (next : Nat) (ranges : List Interval) : Nat :=
  total (ranges.filter fun range => range.lo < next)

/-! ## Order and coverage -/

@[simp] theorem not_covers_nil (pos : Nat) : ¬ Covers [] pos := by simp [Covers]

@[simp] theorem covers_cons (range : Interval) (rest : List Interval) (pos : Nat) :
    Covers (range :: rest) pos ↔ range.Contains pos ∨ Covers rest pos := by
  simp [Covers]

@[simp] theorem total_nil : total [] = 0 := by simp [total]

@[simp] theorem total_cons (range : Interval) (rest : List Interval) :
    total (range :: rest) = range.length + total rest := by simp [total]

section

variable {start : Nat} {ranges : List Interval} (hrngs : Separated start ranges)
include hrngs

theorem Separated.mono {earlier : Nat} (hearly : earlier ≤ start) : Separated earlier ranges := by
  cases ranges with
  | nil => trivial
  | cons range rest => exact ⟨hearly.trans hrngs.1, hrngs.2⟩

theorem Separated.of_mem
    {range : Interval} (hrng : range ∈ ranges) : start ≤ range.lo ∧ range.lo < range.hi := by
  induction ranges generalizing start with
  | nil => simp at hrng
  | cons first rest ih =>
    obtain ⟨hfst, hsome, hrest⟩ := hrngs
    rcases mem_cons.mp hrng with rfl | hlater
    · exact ⟨hfst, hsome⟩
    · have hbounds := ih hrest hlater
      omega

theorem Separated.start_le
    {pos : Nat} (hcov : Covers ranges pos) : start ≤ pos := by
  obtain ⟨range, hrng, hlo, -⟩ := hcov
  exact (hrngs.of_mem hrng).1.trans hlo

end

variable {ranges : List Interval} {start head tail : Nat} {range : Interval}

theorem hi_le_of_not_covers {pos : Nat} (hgap : ¬ Covers ranges pos)
    (hrng : range ∈ ranges) (hlo : range.lo < pos) : range.hi ≤ pos := by
  by_contra hhi
  exact hgap ⟨range, hrng, hlo.le, by omega⟩

theorem total_le {start bound : Nat} (hrngs : Separated start ranges)
    (hbd : ∀ range ∈ ranges, range.hi ≤ bound) (hstart : start ≤ bound) :
    start + total ranges ≤ bound := by
  induction ranges generalizing start with
  | nil => simpa using hstart
  | cons range rest ih =>
    obtain ⟨hlo, hsome, hrest⟩ := hrngs
    have hlater := ih hrest (fun other hother => hbd other (.tail _ hother))
      (hbd range mem_cons_self)
    simp only [total_cons, length]
    omega

/-! ## Fitting -/

theorem fit_of_lt (hrngs : Separated start ranges)
    (htail : tail < start) : fit head tail ranges = (ranges, head, tail) := by
  cases ranges with
  | nil => rfl
  | cons range rest =>
    have hlo : ¬ range.lo ≤ tail := by
      have hstart := hrngs.1
      omega
    rw [fit, if_neg hlo]

theorem fit_sublist (head tail : Nat) (ranges : List Interval) :
    (fit head tail ranges).1.Sublist ranges := by
  induction ranges generalizing head tail with
  | nil => exact List.Sublist.refl _
  | cons range rest ih =>
    rw [fit]
    split
    · split
      · split
        · exact (ih head tail).cons range
        · exact (ih _ _).cons_cons range
      · exact (ih head tail).cons_cons range
    · exact List.Sublist.refl _

theorem fit_bounds (head tail : Nat) (ranges : List Interval) :
    ((fit head tail ranges).2.1 = head ∨ ∃ range ∈ ranges, (fit head tail ranges).2.1 = range.hi) ∧
      ((fit head tail ranges).2.2 = tail ∨
        ∃ range ∈ ranges, (fit head tail ranges).2.2 = range.lo) := by
  induction ranges generalizing head tail with
  | nil => exact ⟨.inl rfl, .inl rfl⟩
  | cons range rest ih =>
    have hlift : ∀ {bound : Nat} {side : Interval → Nat},
        (∃ other ∈ rest, bound = side other) → ∃ other ∈ range :: rest, bound = side other :=
      fun ⟨other, hother, heq⟩ => ⟨other, mem_cons_of_mem _ hother, heq⟩
    rw [fit]
    split
    · split
      · split
        · exact ⟨(ih head tail).1.imp_right hlift, (ih head tail).2.imp_right hlift⟩
        · constructor
          · rcases (ih _ _).1 with hsame | hother
            · rw [hsame]
              split
              · exact .inr ⟨range, mem_cons_self, rfl⟩
              · exact .inl rfl
            · exact .inr (hlift hother)
          · rcases (ih _ _).2 with hsame | hother
            · rw [hsame]
              split
              · exact .inr ⟨range, mem_cons_self, rfl⟩
              · exact .inl rfl
            · exact .inr (hlift hother)
      · exact ⟨(ih head tail).1.imp_right hlift, (ih head tail).2.imp_right hlift⟩
    · exact ⟨.inl rfl, .inl rfl⟩

variable {start : Nat}

theorem Separated.sublist {ranges kept : List Interval}
    (hsub : kept.Sublist ranges) (hrngs : Separated start ranges) : Separated start kept := by
  induction hsub generalizing start with
  | slnil => trivial
  | cons range _ ih => exact ih (hrngs.2.2.mono (hrngs.1.trans hrngs.2.1.le))
  | cons_cons range _ ih => exact ⟨hrngs.1, hrngs.2.1, ih hrngs.2.2⟩

/-- What fitting `[head, tail)` to `[start, ∞)` ranges leaves of it, when something is left. -/
structure Fitted (ranges : List Interval) (head tail : Nat)
    (result : List Interval × Nat × Nat) : Prop where
  head_le : head ≤ result.2.1
  some : result.2.1 < result.2.2
  le_tail : result.2.2 ≤ tail
  apart : ∀ range ∈ result.1, range.hi ≤ result.2.1 ∨ result.2.2 ≤ range.lo
  covers : ∀ pos, Covers ranges pos →
    Covers result.1 pos ∨ (result.2.1 ≤ pos ∧ pos < result.2.2)

theorem fit_beyond (hrngs : Separated start ranges) (hhead : head < start) (hsome : head < tail) :
    Fitted ranges head tail (fit head tail ranges) ∧ (fit head tail ranges).2.1 = head ∧
      min start tail ≤ (fit head tail ranges).2.2 := by
  induction ranges generalizing start with
  | nil => exact ⟨⟨le_rfl, hsome, le_rfl, by simp [fit], by simp⟩, rfl, min_le_right _ _⟩
  | cons range rest ih =>
    obtain ⟨hlo, hne, hrest⟩ := hrngs
    by_cases hreach : range.lo ≤ tail
    · have hbeyond : head < range.lo := by omega
      by_cases hswallowed : range.hi < tail
      · -- the range lies inside and is dropped
        obtain ⟨hfitted, hkept, htail⟩ := ih hrest (by omega)
        have hmin : range.hi ≤ (fit head tail rest).2.2 := by omega
        rw [fit, if_pos hreach, if_pos (by omega), if_pos ⟨hbeyond, hswallowed⟩]
        refine ⟨{ hfitted with covers := ?_ }, hkept, by omega⟩
        intro pos hcov
        rcases (covers_cons _ _ _).mp hcov with hhere | hlater
        · exact .inr ⟨by rw [hkept]; exact hbeyond.le.trans hhere.1, hhere.2.trans_le hmin⟩
        · exact hfitted.covers pos hlater
      · -- the range cuts the tail, and everything after it is out of reach
        rw [fit, if_pos hreach, if_pos (by omega), if_neg (by omega), if_neg (by omega),
          if_pos (by omega), fit_of_lt hrest hne]
        refine ⟨⟨le_rfl, hbeyond, hreach, ?_, fun pos => .inl⟩, rfl, by simp; omega⟩
        intro other hother
        rcases mem_cons.mp hother with rfl | hlater
        · exact .inr le_rfl
        · have hbounds := hrest.of_mem hlater
          exact .inr (by simp only; omega)
    · rw [fit, if_neg hreach]
      refine ⟨⟨le_rfl, hsome, le_rfl, ?_, fun pos => .inl⟩, rfl, by simp⟩
      intro other hother
      rcases mem_cons.mp hother with rfl | hlater
      · exact .inr (by simp only; omega)
      · have hbounds := hrest.of_mem hlater
        exact .inr (by simp only; omega)

theorem fit_spec (hrngs : Separated start ranges) (hsome : head < tail) :
    ((fit head tail ranges).2.2 ≤ (fit head tail ranges).2.1 ∧ (fit head tail ranges).1 = ranges) ∨
      Fitted ranges head tail (fit head tail ranges) := by
  induction ranges generalizing start head with
  | nil => exact .inr ⟨le_rfl, hsome, le_rfl, by simp [fit], by simp⟩
  | cons range rest ih =>
    obtain ⟨hlo, hne, hrest⟩ := hrngs
    by_cases hbeyond : head < range.lo
    · have hrngs : Separated range.lo (range :: rest) := ⟨le_rfl, hne, hrest⟩
      exact .inr (fit_beyond hrngs hbeyond hsome).1
    · have hreach : range.lo ≤ tail := by omega
      by_cases hover : head < range.hi
      · by_cases hinside : tail ≤ range.hi
        · -- covered at both ends
          rw [fit, if_pos hreach, if_pos hover, if_neg (by omega), if_pos (by omega),
            if_pos hinside, fit_of_lt hrest hne]
          exact .inl ⟨hne.le, rfl⟩
        · -- the range covers the head, which moves to its end
          rw [fit, if_pos hreach, if_pos hover, if_neg (by omega), if_pos (by omega),
            if_neg hinside]
          dsimp only
          rcases ih hrest (show range.hi < tail by omega) with ⟨hdone, hsame⟩ | hfitted
          · exact .inl ⟨hdone, by rw [hsame]⟩
          · refine .inr ⟨by have := hfitted.head_le; simp only; omega, hfitted.some,
              hfitted.le_tail, ?_, ?_⟩
            · intro other hother
              rcases mem_cons.mp hother with rfl | hlater
              · exact .inl hfitted.head_le
              · exact hfitted.apart other hlater
            · intro pos hcov
              rcases (covers_cons _ _ _).mp hcov with hhere | hlater
              · exact .inl ((covers_cons _ _ _).mpr (.inl hhere))
              · exact (hfitted.covers pos hlater).imp_left
                  fun hkept => (covers_cons _ _ _).mpr (.inr hkept)
      · -- the range lies before the head
        rw [fit, if_pos hreach, if_neg hover]
        dsimp only
        rcases ih hrest hsome with ⟨hdone, hsame⟩ | hfitted
        · exact .inl ⟨hdone, by rw [hsame]⟩
        · refine .inr ⟨hfitted.head_le, hfitted.some, hfitted.le_tail, ?_, ?_⟩
          · intro other hother
            rcases mem_cons.mp hother with rfl | hlater
            · exact .inl (by have := hfitted.head_le; simp only; omega)
            · exact hfitted.apart other hlater
          · intro pos hcov
            rcases (covers_cons _ _ _).mp hcov with hhere | hlater
            · exact .inl ((covers_cons _ _ _).mpr (.inl hhere))
            · exact (hfitted.covers pos hlater).imp_left
                fun hkept => (covers_cons _ _ _).mpr (.inr hkept)

/-! ## Inserting -/

theorem mem_insert {new range : Interval} :
    range ∈ insert new ranges ↔ range = new ∨ range ∈ ranges := by
  induction ranges with
  | nil => simp [insert]
  | cons first rest ih =>
    rw [insert]
    split
    · exact mem_cons
    · simp only [mem_cons, ih]; tauto

variable {new : Interval}

theorem covers_insert {pos : Nat} :
    Covers (insert new ranges) pos ↔ new.Contains pos ∨ Covers ranges pos := by
  simp only [Covers, mem_insert, or_and_right, exists_or, exists_eq_left]

theorem total_insert (new : Interval) (ranges : List Interval) :
    total (insert new ranges) = new.length + total ranges := by
  induction ranges with
  | nil => simp [insert]
  | cons first rest ih =>
    rw [insert]
    split
    · simp
    · simp only [total_cons, ih]; omega

theorem insert_of_lt (hrngs : Separated start ranges)
    (hnew : new.lo < start) : insert new ranges = new :: ranges := by
  cases ranges with
  | nil => rfl
  | cons range rest => rw [insert, if_pos (hnew.trans_le hrngs.1)]

theorem Separated.insert (hrngs : Separated start ranges) (hstart : start ≤ new.lo)
    (hnew : new.lo < new.hi) (hapart : ∀ range ∈ ranges, range.hi ≤ new.lo ∨ new.hi ≤ range.lo) :
    Separated start (insert new ranges) := by
  induction ranges generalizing start with
  | nil => exact ⟨hstart, hnew, trivial⟩
  | cons first rest ih =>
    obtain ⟨hlo, hne, hrest⟩ := hrngs
    have hfst := hapart first mem_cons_self
    rw [Interval.insert]
    split
    · exact ⟨hstart, hnew, by omega, hne, hrest⟩
    · exact ⟨hlo, hne, ih hrest (by omega)
        fun range hrng => hapart range (.tail _ hrng)⟩

/-! ## Advancing -/

theorem le_advance (next : Nat)
    (hsome : ∀ range ∈ ranges, range.lo < range.hi) : next ≤ advance next ranges := by
  induction ranges generalizing next with
  | nil => exact le_rfl
  | cons range rest ih =>
    have hlater := fun other hother => hsome other (mem_cons_of_mem range hother)
    have hfst := hsome range mem_cons_self
    rw [advance]
    split
    · exact ih next hlater
    · split
      · exact le_rfl
      · have hmoved := ih range.hi hlater
        omega

theorem advance_spec {start next : Nat} (hrngs : Separated start ranges)
    (hnext : ∀ range ∈ ranges, range.lo < next → range.hi ≤ next) :
    next ≤ advance next ranges ∧ ¬ Covers ranges (advance next ranges) ∧
    ∀ pos, next ≤ pos → pos < advance next ranges → Covers ranges pos := by
  induction ranges generalizing start next with
  | nil => exact ⟨le_rfl, not_covers_nil _, fun pos hlo hhi => by simp [advance] at hhi; omega⟩
  | cons range rest ih =>
    obtain ⟨hlo, hne, hrest⟩ := hrngs
    have hlater := fun other hother => hnext other (mem_cons_of_mem range hother)
    rw [advance]
    split
    next hpre =>
      have hhi := hnext range mem_cons_self hpre
      obtain ⟨hle, hgap, hrun⟩ := ih hrest hlater
      refine ⟨hle, ?_, fun pos hge hlt =>
        (covers_cons _ _ _).mpr (.inr (hrun pos hge hlt))⟩
      rintro hcov
      rcases (covers_cons _ _ _).mp hcov with hhere | hthere
      · have hend := hhere.2
        omega
      · exact hgap hthere
    next hnot =>
      split
      next hgap =>
        refine ⟨le_rfl, ?_, fun pos hge hlt => by omega⟩
        intro hcov
        rcases (covers_cons _ _ _).mp hcov with hhere | hthere
        · exact absurd hhere.1 (by omega)
        · have hafter := hrest.start_le hthere
          omega
      next hadj =>
        have hbeyond : ∀ other ∈ rest, other.lo < range.hi → other.hi ≤ range.hi := by
          intro other hother hlt
          have hbounds := hrest.of_mem hother
          omega
        obtain ⟨hle, hgap, hrun⟩ := ih hrest hbeyond
        refine ⟨by omega, ?_, ?_⟩
        · intro hcov
          rcases (covers_cons _ _ _).mp hcov with hhere | hthere
          · exact absurd hhere.2 (by omega)
          · exact hgap hthere
        · intro pos hge hlt
          by_cases hin : pos < range.hi
          · exact (covers_cons _ _ _).mpr (.inl ⟨by omega, hin⟩)
          · exact (covers_cons _ _ _).mpr (.inr (hrun pos (by omega) hlt))

/-! ## Consuming -/

theorem hi_of_mem_consume {count : Nat}
    (hrng : range ∈ consume count ranges) : ∃ before ∈ ranges, before.hi = range.hi := by
  induction ranges generalizing count with
  | nil => simp [consume] at hrng
  | cons first rest ih =>
    rw [consume] at hrng
    split at hrng
    · exact ⟨range, hrng, rfl⟩
    · split at hrng
      · obtain ⟨before, hpre, heq⟩ := ih hrng
        exact ⟨before, mem_cons_of_mem _ hpre, heq⟩
      · rcases mem_cons.mp hrng with rfl | hlater
        · exact ⟨first, mem_cons_self, rfl⟩
        · exact ⟨range, mem_cons_of_mem _ hlater, rfl⟩

theorem Separated.lo_eq {rest : List Interval} (hrngs : Separated start (range :: rest))
    (hcov : Covers (range :: rest) start) : range.lo = start := by
  obtain ⟨hlo, hne, hrest⟩ := hrngs
  rcases (covers_cons _ _ _).mp hcov with hhere | hthere
  · exact le_antisymm hhere.1 hlo
  · have hafter := hrest.start_le hthere
    omega

theorem consume_spec {start count : Nat} (hrngs : Separated start ranges)
    (hfull : ∀ pos, start ≤ pos → pos < start + count → Covers ranges pos) :
    Separated (start + count) (consume count ranges) ∧
      total ranges = count + total (consume count ranges) ∧
      ∀ pos, Covers (consume count ranges) pos ↔ Covers ranges pos ∧ start + count ≤ pos := by
  induction ranges generalizing start count with
  | nil =>
    have hcnt : count = 0 := by
      by_contra hcnt
      exact not_covers_nil _ (hfull start le_rfl (by omega))
    exact ⟨trivial, by simp [consume, hcnt], by simp [consume]⟩
  | cons range rest ih =>
    rw [consume]
    split
    next hzero =>
      subst hzero
      refine ⟨hrngs, by simp, fun pos => ⟨fun hcov => ⟨hcov, ?_⟩, And.left⟩⟩
      exact hrngs.start_le hcov
    next hcnt =>
      have hfst := hrngs.lo_eq (hfull start le_rfl (by omega))
      have hlen : range.length = range.hi - range.lo := rfl
      obtain ⟨hlo, hne, hrest⟩ := hrngs
      split
      next hwhole =>
        -- the first range goes as a whole
        have hfullRest : ∀ pos, range.hi ≤ pos →
            pos < range.hi + (count - range.length) → Covers rest pos := by
          intro pos hge hlt
          rcases (covers_cons _ _ _).mp (hfull pos (by omega) (by omega)) with hhere | hthere
          · exact absurd hhere.2 (by omega)
          · exact hthere
        obtain ⟨hsep, htotal, hcov⟩ := ih hrest hfullRest
        have hend : range.hi + (count - range.length) = start + count := by omega
        rw [hend] at hsep hcov
        refine ⟨hsep, by rw [total_cons]; omega, fun pos => ?_⟩
        rw [hcov, covers_cons]
        constructor
        · exact fun ⟨hthere, hge⟩ => ⟨.inr hthere, hge⟩
        · rintro ⟨hhere | hthere, hge⟩
          · exact absurd hhere.2 (by omega)
          · exact ⟨hthere, hge⟩
      next hpart =>
        refine ⟨⟨by simp only; omega, by simp only; omega, hrest⟩,
          by simp only [total_cons, length]; omega, fun pos => ?_⟩
        rw [covers_cons, covers_cons]
        simp only [Contains]
        constructor
        · rintro (hhere | hthere)
          · exact ⟨.inl ⟨by omega, hhere.2⟩, by omega⟩
          · have hafter := hrest.start_le hthere
            exact ⟨.inr hthere, by omega⟩
        · rintro ⟨hhere | hthere, hge⟩
          · exact .inl ⟨by omega, hhere.2⟩
          · exact .inr hthere

/-! ## The part below a position -/

section Below

variable {start next head tail count pos : Nat} {range new : Interval}
  {ranges kept : List Interval}

@[simp] theorem totalBelow_nil : totalBelow next [] = 0 := rfl

@[simp] theorem totalBelow_cons :
    totalBelow next (range :: ranges) =
      (if range.lo < next then range.length else 0) + totalBelow next ranges := by
  unfold totalBelow
  rw [filter_cons]
  by_cases hbelow : range.lo < next
  · simp only [hbelow, decide_true, if_true, total_cons]
  · simp only [hbelow, decide_false, if_false, Bool.false_eq_true, Nat.zero_add]

theorem lowest_le (next : Nat) (ranges : List Interval) : lowest next ranges ≤ next := by
  cases ranges with
  | nil => exact le_rfl
  | cons range rest => exact min_le_right _ _

theorem le_lowest (hnext : start ≤ next) (hrngs : ∀ range ∈ ranges, start ≤ range.lo) :
    start ≤ lowest next ranges := by
  cases ranges with
  | nil => exact hnext
  | cons range rest => exact le_min (hrngs range mem_cons_self) hnext

theorem Separated.lowest (hrngs : Separated start ranges) (next : Nat) :
    Separated (lowest next ranges) ranges := by
  cases ranges with
  | nil => trivial
  | cons range rest => exact ⟨min_le_left _ _, hrngs.2⟩

theorem Separated.le_lowest (hrngs : Separated start ranges) (hnext : start ≤ next) :
    start ≤ Interval.lowest next ranges :=
  Interval.le_lowest hnext fun _ hrng => (hrngs.of_mem hrng).1

theorem totalBelow_le_total (next : Nat) (ranges : List Interval) :
    totalBelow next ranges ≤ total ranges := by
  induction ranges with
  | nil => exact le_rfl
  | cons range rest ih =>
    rw [totalBelow_cons, total_cons]
    split <;> omega

theorem lowest_add_totalBelow (hrngs : Separated start ranges) (hnext : ∀ range ∈ ranges,
    range.lo < next → range.hi ≤ next) : lowest next ranges + totalBelow next ranges ≤ next := by
  refine total_le ((hrngs.lowest next).sublist filter_sublist) (fun range hrng => ?_)
    (lowest_le next ranges)
  obtain ⟨hmem, hbelow⟩ := mem_filter.mp hrng
  exact hnext range hmem (of_decide_eq_true hbelow)

theorem totalBelow_of_le (hrngs : Separated start ranges) (hnext : next ≤ start) :
    totalBelow next ranges = 0 := by
  induction ranges generalizing start with
  | nil => rfl
  | cons range rest ih =>
    obtain ⟨hlo, hsome, hrest⟩ := hrngs
    rw [totalBelow_cons, if_neg (by omega), ih hrest (by omega)]

theorem totalBelow_insert (hnew : next ≤ new.lo) :
    totalBelow next (insert new ranges) = totalBelow next ranges := by
  induction ranges with
  | nil => rw [insert, totalBelow_cons, if_neg (by omega), Nat.zero_add]
  | cons range rest ih =>
    rw [insert]
    split
    · rw [totalBelow_cons, if_neg (by omega), Nat.zero_add]
    · rw [totalBelow_cons, totalBelow_cons, ih]

theorem totalBelow_advance (hrngs : Separated start ranges)
    (hnext : ∀ range ∈ ranges, range.lo < next → range.hi ≤ next) :
    totalBelow (advance next ranges) ranges =
      totalBelow next ranges + (advance next ranges - next) := by
  induction ranges generalizing start next with
  | nil => simp [advance]
  | cons range rest ih =>
    obtain ⟨hlo, hsome, hrest⟩ := hrngs
    have hlater := fun other hother => hnext other (mem_cons_of_mem range hother)
    have hsomeRest : ∀ other ∈ rest, other.lo < other.hi :=
      fun other hother => (hrest.of_mem hother).2
    have hlen : range.length = range.hi - range.lo := rfl
    rw [advance]
    split
    next hpre =>
      have hmoved := le_advance next hsomeRest
      rw [totalBelow_cons, totalBelow_cons, ih hrest hlater, if_pos (by omega), if_pos hpre]
      omega
    next hnot =>
      split
      next hgap => rw [Nat.sub_self, Nat.add_zero]
      next hadj =>
        -- the range starts at `next`, and the rest of the run at its end
        have hmoved := le_advance range.hi hsomeRest
        have hbeyond : ∀ other ∈ rest, other.lo < range.hi → other.hi ≤ range.hi := by
          intro other hother hlt
          have hbounds := hrest.of_mem hother
          omega
        rw [totalBelow_cons, totalBelow_cons, ih hrest hbeyond, if_pos (by omega), if_neg hnot,
          totalBelow_of_le hrest le_rfl, totalBelow_of_le hrest (by omega)]
        omega

/-! ## What fitting drops -/

theorem inside_of_dropped (hrng : range ∈ ranges)
    (hdrop : range ∉ (fit head tail ranges).1) : head < range.lo ∧ range.hi < tail := by
  induction ranges generalizing head tail with
  | nil => cases hrng
  | cons first rest ih =>
    rw [fit] at hdrop
    split at hdrop
    next hreach =>
      split at hdrop
      next hover =>
        split at hdrop
        next hswallowed =>
          rcases mem_cons.mp hrng with rfl | hlater
          · exact hswallowed
          · exact ih hlater hdrop
        · obtain ⟨hfst, hrest⟩ := not_or.mp (mt mem_cons.mpr hdrop)
          have hlater := (mem_cons.mp hrng).resolve_left hfst
          have hinside := ih hlater hrest
          constructor
          · have hlo := hinside.1
            split at hlo <;> omega
          · have hhi := hinside.2
            split at hhi <;> omega
      · obtain ⟨hfst, hrest⟩ := not_or.mp (mt mem_cons.mpr hdrop)
        exact ih ((mem_cons.mp hrng).resolve_left hfst) hrest
    · exact absurd hrng hdrop

theorem totalBelow_fit (hnext : next ≤ head) :
    totalBelow next (fit head tail ranges).1 = totalBelow next ranges := by
  induction ranges generalizing head tail with
  | nil => rfl
  | cons range rest ih =>
    rw [fit]
    split
    next hreach =>
      split
      next hover =>
        split
        next hswallowed =>
          rw [ih hnext, totalBelow_cons, if_neg (by omega), Nat.zero_add]
        · rw [totalBelow_cons, totalBelow_cons, ih (by split <;> omega)]
      · rw [totalBelow_cons, totalBelow_cons, ih hnext]
    · rfl

theorem not_covers_fit (hrngs : Separated start ranges) (hsome : head < tail)
    (hleft : (fit head tail ranges).2.1 < (fit head tail ranges).2.2) :
    ¬ Covers ranges (fit head tail ranges).2.1 := by
  induction ranges generalizing start head with
  | nil => exact not_covers_nil _
  | cons range rest ih =>
    obtain ⟨hlo, hne, hrest⟩ := hrngs
    by_cases hbeyond : head < range.lo
    · -- the head stays in front of all ranges
      have hrngs : Separated range.lo (range :: rest) := ⟨le_rfl, hne, hrest⟩
      rw [(fit_beyond hrngs hbeyond hsome).2.1]
      exact fun hcov => absurd (hrngs.start_le hcov) (by omega)
    · have hlater : ∀ {origin : Nat}, origin < tail → range.hi ≤ origin →
          (fit origin tail rest).2.1 < (fit origin tail rest).2.2 →
          ¬ Covers (range :: rest) (fit origin tail rest).2.1 := by
        intro origin hfrom hafter hleft hcov
        rcases (covers_cons _ _ _).mp hcov with hhere | hthere
        · rcases fit_spec hrest hfrom with hnone | hfitted
          · omega
          · have hle := hfitted.head_le
            have hin := hhere.2
            omega
        · exact ih hrest hfrom hleft hthere
      have hreach : range.lo ≤ tail := by omega
      by_cases hover : head < range.hi
      · rw [fit, if_pos hreach, if_pos hover, if_neg (by omega), if_pos (by omega)] at hleft ⊢
        by_cases hinside : tail ≤ range.hi
        · rw [if_pos hinside, fit_of_lt hrest hne] at hleft
          exact absurd hleft (by simp only; omega)
        · rw [if_neg hinside] at hleft ⊢
          exact hlater (by omega) le_rfl hleft
      · rw [fit, if_pos hreach, if_neg hover] at hleft ⊢
        exact hlater hsome (by omega) hleft

/-! ## Consuming from the front, over gaps too -/

theorem mem_consume (hrng : range ∈ consume count ranges) :
    ∃ before ∈ ranges, before.lo ≤ range.lo ∧ before.hi = range.hi := by
  induction ranges generalizing count with
  | nil => cases hrng
  | cons first rest ih =>
    have hlift : (∃ before ∈ rest, before.lo ≤ range.lo ∧ before.hi = range.hi) →
        ∃ before ∈ first :: rest, before.lo ≤ range.lo ∧ before.hi = range.hi :=
      fun ⟨before, hpre, hbounds⟩ => ⟨before, mem_cons_of_mem _ hpre, hbounds⟩
    rw [consume] at hrng
    split at hrng
    · exact ⟨range, hrng, le_rfl, rfl⟩
    · split at hrng
      · exact hlift (ih hrng)
      · rcases mem_cons.mp hrng with rfl | hlater
        · exact ⟨first, mem_cons_self, Nat.le_add_right _ _, rfl⟩
        · exact hlift ⟨range, hlater, le_rfl, rfl⟩

theorem covers_of_consume (hcov : Covers (consume count ranges) pos) :
    Covers ranges pos := by
  obtain ⟨range, hrng, hlo, hhi⟩ := hcov
  obtain ⟨before, hpre, hfrom, hto⟩ := mem_consume hrng
  exact ⟨before, hpre, hfrom.trans hlo, by omega⟩

theorem Separated.consume (hrngs : Separated start ranges) :
    Separated start (consume count ranges) := by
  induction ranges generalizing start count with
  | nil => trivial
  | cons range rest ih =>
    obtain ⟨hlo, hsome, hrest⟩ := hrngs
    have hlen : range.length = range.hi - range.lo := rfl
    rw [Interval.consume]
    split
    · exact ⟨hlo, hsome, hrest⟩
    · split
      · exact (ih hrest).mono (by omega)
      · exact ⟨by simp only; omega, by simp only; omega, hrest⟩

theorem total_consume (hcnt : count ≤ total ranges) :
    total (consume count ranges) + count = total ranges := by
  induction ranges generalizing count with
  | nil => simpa [consume] using hcnt
  | cons range rest ih =>
    rw [total_cons] at hcnt ⊢
    have hlen : range.length = range.hi - range.lo := rfl
    rw [consume]
    split
    next hzero => rw [hzero, Nat.add_zero, total_cons]
    · split
      · have hrest := @ih (count - range.length) (by omega)
        omega
      · simp only [total_cons, length]
        omega

theorem consume_below (hrngs : Separated start ranges)
    (hnext : ∀ range ∈ ranges, range.lo < next → range.hi ≤ next)
    (hcnt : count ≤ totalBelow next ranges) :
    totalBelow next (consume count ranges) + count = totalBelow next ranges ∧
      ∀ range ∈ ranges, next ≤ range.lo → range ∈ consume count ranges := by
  induction ranges generalizing start count with
  | nil => exact ⟨by simpa [consume] using hcnt, by simp⟩
  | cons range rest ih =>
    obtain ⟨hlo, hsome, hrest⟩ := hrngs
    have hlater := fun other hother => hnext other (mem_cons_of_mem range hother)
    have hlen : range.length = range.hi - range.lo := rfl
    rw [consume]
    split
    next hzero => exact ⟨by rw [hzero, Nat.add_zero], fun other hother _ => hother⟩
    next hcountPos =>
      have hbelow : range.lo < next := by
        by_contra hbeyond
        have hnone : totalBelow next (range :: rest) = 0 := totalBelow_of_le
          (show Separated range.lo (range :: rest) from ⟨le_rfl, hsome, hrest⟩) (by omega)
        omega
      have hhi := hnext range mem_cons_self hbelow
      rw [totalBelow_cons, if_pos hbelow] at hcnt ⊢
      split
      next hwhole =>
        obtain ⟨htotal, hkept⟩ := @ih range.hi (count - range.length) hrest hlater (by omega)
        refine ⟨by omega, fun other hother hbeyond => ?_⟩
        rcases mem_cons.mp hother with rfl | hmem
        · omega
        · exact hkept other hmem hbeyond
      next hpart =>
        refine ⟨?_, fun other hother hbeyond => ?_⟩
        · rw [totalBelow_cons, if_pos (by simp only; omega)]
          simp only [length]
          omega
        · rcases mem_cons.mp hother with rfl | hmem
          · omega
          · exact mem_cons_of_mem _ hmem

theorem le_totalBelow_of_full (hrngs : Separated start ranges) (hnext : start + count ≤ next)
    (hfull : ∀ pos, start ≤ pos → pos < start + count → Covers ranges pos) :
    count ≤ totalBelow next ranges := by
  induction ranges generalizing start count with
  | nil =>
    by_contra hcnt
    exact not_covers_nil _ (hfull start le_rfl (by simp at hcnt; omega))
  | cons range rest ih =>
    rcases Nat.eq_zero_or_pos count with rfl | hcnt
    · exact Nat.zero_le _
    · have hfst := hrngs.lo_eq (hfull start le_rfl (by omega))
      obtain ⟨hlo, hsome, hrest⟩ := hrngs
      have hlen : range.length = range.hi - range.lo := rfl
      rw [totalBelow_cons, if_pos (by omega)]
      by_cases hwhole : count ≤ range.length
      · omega
      · have hlater := @ih range.hi (count - range.length) hrest (by omega)
          fun pos hge hlt =>
            ((covers_cons _ _ _).mp (hfull pos (by omega) (by omega))).resolve_left
            fun hhere => absurd hhere.2 (by omega)
        omega

end Below

end Interval

end HomaSird
