import Mathlib.Algebra.Order.Field.Basic
import Mathlib.Tactic.Linarith
import Mathlib.Tactic.Ring

/-! # Additive increase, multiplicative decrease

An epoch of items after the other, a loop smooths the fraction of marked ones. A budget grows by a
fixed step when nothing was marked, shrinks by half the smoothed fraction otherwise, and stays
between one and a ceiling.
-/

namespace HomaSird.Control

variable {K : Type} [Field K] [LinearOrder K]

def smooth (gain average sample : K) : K := (1 - gain) * average + gain * sample

theorem smooth_mem [IsStrictOrderedRing K] {gain average sample : K} (hgain : 0 ≤ gain ∧ gain ≤ 1)
    (haverage : 0 ≤ average ∧ average ≤ 1) (hsample : 0 ≤ sample ∧ sample ≤ 1) :
    0 ≤ smooth gain average sample ∧ smooth gain average sample ≤ 1 := by
  have hrest : 0 ≤ 1 - gain := by linarith [hgain.2]
  have hkeep := mul_nonneg hrest haverage.1
  have hnew := mul_nonneg hgain.1 hsample.1
  have hkeep_le := mul_le_mul_of_nonneg_left haverage.2 hrest
  have hnew_le := mul_le_mul_of_nonneg_left hsample.2 hgain.1
  unfold smooth
  constructor
  · linarith
  · linarith

namespace Aimd

structure Params (K : Type) where
  gain : K
  increase : K
  ceiling : K
  epoch : Nat

structure Params.Valid (params : Params K) : Prop where
  gain_nonneg : 0 ≤ params.gain
  gain_le_one : params.gain ≤ 1
  one_le_ceiling : 1 ≤ params.ceiling
  epoch_pos : 0 < params.epoch

/-- The budget and the smoothed fraction, and the counters of the epoch under
way. -/
@[ext] structure Loop (K : Type) where
  budget : K
  alpha : K
  items : Nat
  marks : Nat

variable {params : Params K} {loop : Loop K}

def clamp (params : Params K) (budget : K) : K := max 1 (min params.ceiling budget)

def start (params : Params K) : Loop K where
  budget := params.ceiling
  alpha := 0
  items := 0
  marks := 0

def count (loop : Loop K) (marked : Bool) : Loop K :=
  { loop with items := loop.items + 1, marks := loop.marks + marked.toNat }

def nextAlpha (params : Params K) (loop : Loop K) : K :=
  smooth params.gain loop.alpha (loop.marks / loop.items)

def endEpoch (params : Params K) (loop : Loop K) : Loop K where
  budget := clamp params
    (if 0 < loop.marks then loop.budget * (1 - nextAlpha params loop / 2)
    else loop.budget + params.increase)
  alpha := nextAlpha params loop
  items := 0
  marks := 0

def observe (params : Params K) (loop : Loop K) (marked : Bool) : Loop K :=
  if params.epoch ≤ (count loop marked).items then endEpoch params (count loop marked)
  else count loop marked

def Ends (params : Params K) (loop : Loop K) : Prop := params.epoch ≤ loop.items + 1

theorem observe_of_ends {marked : Bool} (hends : Ends params loop) :
    observe params loop marked = endEpoch params (count loop marked) := if_pos hends

theorem observe_of_not_ends {marked : Bool} (hends : ¬ Ends params loop) :
    observe params loop marked = count loop marked := if_neg hends

theorem budget_endEpoch_unmarked (hmarks : loop.marks = 0) :
    (endEpoch params loop).budget = clamp params (loop.budget + params.increase) := by
  simp only [endEpoch, hmarks, lt_irrefl, if_false]

theorem budget_endEpoch_marked (hmarks : 0 < loop.marks) :
    (endEpoch params loop).budget =
      clamp params (loop.budget * (1 - nextAlpha params loop / 2)) := by
  simp only [endEpoch, hmarks, if_true]

/-! ## The bounds a loop keeps -/

structure Within (params : Params K) (loop : Loop K) : Prop where
  one_le_budget : 1 ≤ loop.budget
  budget_le : loop.budget ≤ params.ceiling
  alpha_nonneg : 0 ≤ loop.alpha
  alpha_le_one : loop.alpha ≤ 1
  marks_le : loop.marks ≤ loop.items
  items_lt : loop.items < params.epoch

theorem one_le_clamp (params : Params K) (budget : K) : 1 ≤ clamp params budget :=
  le_max_left _ _

theorem clamp_le (hvalid : params.Valid) (budget : K) : clamp params budget ≤ params.ceiling :=
  max_le hvalid.one_le_ceiling (min_le_left _ _)

theorem clamp_mono (params : Params K)
    {low high : K} (hle : low ≤ high) : clamp params low ≤ clamp params high :=
  max_le_max le_rfl (min_le_min le_rfl hle)

theorem clamp_eq_self {budget : K}
    (hone : 1 ≤ budget) (hle : budget ≤ params.ceiling) : clamp params budget = budget := by
  rw [clamp, min_eq_right hle, max_eq_right hone]

theorem within_start [IsStrictOrderedRing K] (hvalid : params.Valid) :
    Within params (start params) where
  one_le_budget := hvalid.one_le_ceiling
  budget_le := le_rfl
  alpha_nonneg := le_rfl
  alpha_le_one := zero_le_one
  marks_le := le_refl 0
  items_lt := hvalid.epoch_pos

omit [Field K] [LinearOrder K] in
theorem marks_count_le {marked : Bool} (hmarks : loop.marks ≤ loop.items) :
    (count loop marked).marks ≤ (count loop marked).items := by
  cases marked with
  | false => exact Nat.le_succ_of_le hmarks
  | true => exact Nat.succ_le_succ hmarks

section Ordered

variable [IsStrictOrderedRing K]

theorem fraction_mem (hmarks : loop.marks ≤ loop.items) :
    0 ≤ (loop.marks / loop.items : K) ∧ (loop.marks / loop.items : K) ≤ 1 := by
  have hcast : (loop.marks : K) ≤ loop.items := by exact_mod_cast hmarks
  exact ⟨div_nonneg (Nat.cast_nonneg _) (Nat.cast_nonneg _),
    div_le_one_of_le₀ hcast (Nat.cast_nonneg _)⟩

theorem nextAlpha_mem (hvalid : params.Valid) (hnonneg : 0 ≤ loop.alpha) (hle : loop.alpha ≤ 1)
    (hmarks : loop.marks ≤ loop.items) : 0 ≤ nextAlpha params loop ∧ nextAlpha params loop ≤ 1 :=
  smooth_mem ⟨hvalid.gain_nonneg, hvalid.gain_le_one⟩ ⟨hnonneg, hle⟩ (fraction_mem hmarks)

theorem nextAlpha_count_mem (hvalid : params.Valid) (hwithin : Within params loop) (marked : Bool) :
    0 ≤ nextAlpha params (count loop marked) ∧ nextAlpha params (count loop marked) ≤ 1 :=
  nextAlpha_mem hvalid hwithin.alpha_nonneg hwithin.alpha_le_one
    (marks_count_le hwithin.marks_le)

theorem within_observe (hvalid : params.Valid) (hwithin : Within params loop)
    (marked : Bool) : Within params (observe params loop marked) := by
  have hmarks : (count loop marked).marks ≤ (count loop marked).items :=
    marks_count_le hwithin.marks_le
  by_cases hends : Ends params loop
  · rw [observe_of_ends hends]
    obtain ⟨hnonneg, hle⟩ := nextAlpha_count_mem hvalid hwithin marked
    exact {
      one_le_budget := one_le_clamp _ _
      budget_le := clamp_le hvalid _
      alpha_nonneg := hnonneg
      alpha_le_one := hle
      marks_le := le_refl 0
      items_lt := hvalid.epoch_pos }
  · rw [observe_of_not_ends hends]
    exact {
      one_le_budget := hwithin.one_le_budget
      budget_le := hwithin.budget_le
      alpha_nonneg := hwithin.alpha_nonneg
      alpha_le_one := hwithin.alpha_le_one
      marks_le := hmarks
      items_lt := Nat.lt_of_not_le hends }

/-! ## How an epoch moves the budget -/

structure Moves (params : Params K) (loop next : Loop K) (marked : Bool) : Prop where
  idle : ¬ Ends params loop → next.budget = loop.budget
  unmarked : Ends params loop → (count loop marked).marks = 0 → loop.budget ≤ next.budget
  marked_le : Ends params loop → 0 < (count loop marked).marks → next.budget ≤ loop.budget
  half_le : Ends params loop → 0 < (count loop marked).marks →
    max 1 (loop.budget / 2) ≤ next.budget

theorem cut_mem {budget alpha : K} (hbudget : 0 ≤ budget) (hnonneg : 0 ≤ alpha) (hle : alpha ≤ 1) :
    budget / 2 ≤ budget * (1 - alpha / 2) ∧ budget * (1 - alpha / 2) ≤ budget := by
  have hlow := mul_nonneg hbudget (sub_nonneg.mpr hle)
  have hhigh := mul_nonneg hbudget hnonneg
  constructor
  · calc budget / 2 ≤ budget / 2 + budget * (1 - alpha) / 2 := by linarith
      _ = budget * (1 - alpha / 2) := by ring
  · calc budget * (1 - alpha / 2) = budget - budget * alpha / 2 := by ring
      _ ≤ budget := by linarith

theorem moves_observe (hvalid : params.Valid) (hincrease : 0 ≤ params.increase)
    (hwithin : Within params loop) (marked : Bool) :
    Moves params loop (observe params loop marked) marked := by
  have hsame : clamp params loop.budget = loop.budget :=
    clamp_eq_self hwithin.one_le_budget hwithin.budget_le
  have hbudget : 0 ≤ loop.budget := zero_le_one.trans hwithin.one_le_budget
  obtain ⟨hnonneg, hle⟩ := nextAlpha_count_mem hvalid hwithin marked
  obtain ⟨hhalf, hcut⟩ := cut_mem hbudget hnonneg hle
  refine ⟨?_, ?_, ?_, ?_⟩
  · intro hends
    rw [observe_of_not_ends hends]
    rfl
  · intro hends hmarks
    rw [observe_of_ends hends, budget_endEpoch_unmarked hmarks]
    calc loop.budget = clamp params loop.budget := hsame.symm
      _ ≤ clamp params (loop.budget + params.increase) := clamp_mono _ (by linarith)
  · intro hends hmarks
    rw [observe_of_ends hends, budget_endEpoch_marked hmarks]
    exact (clamp_mono params hcut).trans_eq hsame
  · intro hends hmarks
    rw [observe_of_ends hends, budget_endEpoch_marked hmarks]
    refine max_le (one_le_clamp _ _) ?_
    -- half of a budget below the ceiling is below the ceiling
    exact (le_min (by linarith [hwithin.budget_le]) hhalf).trans (le_max_right _ _)

/-! ## Two steps compared -/

/-- Within the bounds two steps of increase come to the same budget exactly when they are equal or
both reach the ceiling. -/
theorem clamp_add_eq_iff {budget first second : K} (hone : 1 ≤ budget)
    (hle : budget ≤ params.ceiling) (hfst : 0 ≤ first) (hsnd : 0 ≤ second) :
    clamp params (budget + first) = clamp params (budget + second) ↔
      first = second ∨ params.ceiling ≤ budget + min first second := by
  have hbig : ∀ {step : K}, 0 ≤ step →
      clamp params (budget + step) = min params.ceiling (budget + step) :=
    fun hstep => max_eq_right (le_min (hone.trans hle) (by linarith))
  rw [hbig hfst, hbig hsnd, ← min_add_add_left]
  constructor
  · intro heq
    by_cases hceiling : params.ceiling ≤ min (budget + first) (budget + second)
    · exact Or.inr hceiling
    · left
      rcases lt_or_ge (budget + first) params.ceiling with hlt | hge
      · rw [min_eq_right hlt.le] at heq
        have hsecond_lt : budget + second < params.ceiling := by
          by_contra hnot
          rw [min_eq_left (not_lt.mp hnot)] at heq
          exact hlt.ne heq
        rw [min_eq_right hsecond_lt.le] at heq
        exact add_left_cancel heq
      · rw [min_eq_left hge] at heq
        exact absurd (le_min hge (heq ▸ min_le_right _ _)) hceiling
  · intro heq
    rcases heq with rfl | hceiling
    · rfl
    · rw [min_eq_left (hceiling.trans (min_le_left _ _)),
        min_eq_left (hceiling.trans (min_le_right _ _))]

end Ordered

end Aimd

end HomaSird.Control
