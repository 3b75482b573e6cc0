import Mathlib.Algebra.BigOperators.Group.List.Basic
import Mathlib.Tactic.Linarith
import Mathlib.Tactic.Ring

/-! # Token buckets

A bucket fills with time up to its capacity. However a refill is rounded, as long as a rounding
adds at most a slack, what is taken in an interval is bounded by the capacity, the length of the
interval and how often something is taken.
-/

namespace HomaSird

open List

universe u

/-- `time` is the time of the last refill, and `taken` notes when how much was taken. -/
structure TokenBucket where
  time : Nat
  tokens : Nat
  taken : List (Nat × Nat)

namespace TokenBucket

def within (start stop : Nat) (taken : List (Nat × Nat)) : List Nat :=
  (taken.filter fun entry => start ≤ entry.1 ∧ entry.1 ≤ stop).map Prod.snd

theorem within_append (start stop : Nat) (first second : List (Nat × Nat)) :
    within start stop (first ++ second) = within start stop first ++ within start stop second := by
  rw [within, filter_append, map_append]
  rfl

theorem within_single (start stop now amount : Nat) :
    within start stop [(now, amount)] = if start ≤ now ∧ now ≤ stop then [amount] else [] := by
  by_cases hin : start ≤ now ∧ now ≤ stop
  · simp only [within, filter_cons, hin, and_self, decide_true, if_true, filter_nil,
      map_cons, map_nil]
  · simp only [within, filter_cons, decide_eq_true_eq, if_neg hin, filter_nil,
      map_nil]

theorem within_of_le {taken : List (Nat × Nat)} {start stop later : Nat} (hpast : ∀ entry ∈ taken,
    entry.1 ≤ stop) (hle : stop ≤ later) : within start later taken = within start stop taken := by
  refine congrArg (map Prod.snd) (filter_congr fun entry hmem => ?_)
  have hent := hpast entry hmem
  simp only [hent, le_trans hent hle]

theorem within_of_lt {taken : List (Nat × Nat)} {start stop time : Nat} (hpast :
    ∀ entry ∈ taken, entry.1 ≤ time) (hlt : time < start) : within start stop taken = [] := by
  rw [within, map_eq_nil_iff, filter_eq_nil_iff]
  intro entry hmem
  have hent := hpast entry hmem
  simp only [decide_eq_true_eq, not_and]
  omega

variable {K : Type u} [Field K] [LinearOrder K] [IsStrictOrderedRing K]
variable {capacity : Nat} {rate slack : K} {bucket after : TokenBucket} {now amount : Nat}

/-- The bound on what was taken, the tokens that are left included. -/
def Below (capacity : Nat) (rate slack : K) (start stop left : Nat) (amounts : List Nat) : Prop :=
  ((amounts.sum : Nat) : K) + left ≤
    capacity + rate * ((stop : K) - start) + slack * (amounts.length : Nat)

structure Takes (capacity : Nat) (rate slack : K) (bucket : TokenBucket) (now amount : Nat)
    (after : TokenBucket) : Prop where
  later : bucket.time ≤ now
  time : after.time = now
  taken : after.taken = bucket.taken ++ [(now, amount)]
  capped : after.tokens + amount ≤ capacity
  refilled : ((after.tokens + amount : Nat) : K) ≤
    bucket.tokens + rate * ((now : K) - bucket.time) + slack

structure Bounded (capacity : Nat) (rate slack : K) (bucket : TokenBucket) : Prop where
  tokens : bucket.tokens ≤ capacity
  past : ∀ entry ∈ bucket.taken, entry.1 ≤ bucket.time
  recent : ∀ start, within start bucket.time bucket.taken ≠ [] →
    Below capacity rate slack start bucket.time bucket.tokens
      (within start bucket.time bucket.taken)
  always : ∀ start stop, start ≤ stop →
    Below capacity rate slack start stop 0 (within start stop bucket.taken)

theorem Below.nil (hrate : 0 ≤ rate) {start stop : Nat} (hle : start ≤ stop) :
    Below capacity rate slack start stop 0 [] := by
  have hspan : (0 : K) ≤ (stop : K) - start := sub_nonneg.mpr (Nat.cast_le.mpr hle)
  have hfill := mul_nonneg hrate hspan
  simp only [Below, sum_nil, length_nil, Nat.cast_zero, mul_zero]
  linarith

theorem Bounded.initial (hrate : 0 ≤ rate) (time : Nat) :
    Bounded capacity rate slack ⟨time, capacity, []⟩ where
  tokens := le_rfl
  past := (fun _ hnone => nomatch hnone)
  recent _ hsome := absurd rfl hsome
  always _ _ hle := .nil hrate hle

theorem Bounded.recent_of_takes (hbd : Bounded capacity rate slack bucket)
    (hrate : 0 ≤ rate) (hslack : 0 ≤ slack)
    (htakes : Takes capacity rate slack bucket now amount after)
    {start : Nat} (hstart : start ≤ now) :
    Below capacity rate slack start now after.tokens (within start now after.taken) := by
  obtain ⟨hlater, htime, htaken, hcapped, hrefilled⟩ := htakes
  rw [htaken, within_append, within_single, if_pos ⟨hstart, le_rfl⟩,
    within_of_le hbd.past hlater]
  have hcapped' : ((after.tokens : Nat) : K) + amount ≤ capacity := by exact_mod_cast hcapped
  simp only [Below, sum_append, sum_singleton, length_append, length_singleton]
  simp only [Nat.cast_add, Nat.cast_one] at hrefilled ⊢
  rcases eq_or_ne (within start bucket.time bucket.taken) [] with hnone | hsome
  · -- the bucket was at most full before the first of them
    have hspan : (0 : K) ≤ (now : K) - start := sub_nonneg.mpr (Nat.cast_le.mpr hstart)
    have hfill := mul_nonneg hrate hspan
    rw [hnone]
    simp only [sum_nil, length_nil, Nat.cast_zero]
    linarith
  · have hrecent := hbd.recent start hsome
    simp only [Below] at hrecent
    have hsplit : rate * ((now : K) - start) =
        rate * ((now : K) - bucket.time) + rate * ((bucket.time : K) - start) := by
      ring
    rw [hsplit]
    linarith

theorem Below.mono {start stop later left : Nat} {amounts : List Nat} (hrate : 0 ≤ rate)
    (hbelow : Below capacity rate slack start stop left amounts) (hle : stop ≤ later) :
    Below capacity rate slack start later 0 amounts := by
  have hspan : (stop : K) ≤ later := Nat.cast_le.mpr hle
  have hfill := mul_le_mul_of_nonneg_left (sub_le_sub_right hspan (start : K)) hrate
  simp only [Below, Nat.cast_zero] at hbelow ⊢
  linarith

theorem Bounded.takes (hbd : Bounded capacity rate slack bucket) (hrate : 0 ≤ rate)
    (hslack : 0 ≤ slack) (htakes : Takes capacity rate slack bucket now amount after) :
    Bounded capacity rate slack after := by
  have hpast : ∀ entry ∈ after.taken, entry.1 ≤ after.time := by
    intro entry hmem
    rw [htakes.taken] at hmem
    rw [htakes.time]
    rcases mem_append.mp hmem with hold | hnew
    · exact Nat.le_trans (hbd.past entry hold) htakes.later
    · rw [mem_singleton.mp hnew]
  refine ⟨Nat.le_trans (Nat.le_add_right _ _) htakes.capped, hpast, fun start hsome => ?_,
    fun start stop hle => ?_⟩
  · rw [htakes.time] at hsome ⊢
    rcases Nat.lt_or_ge now start with hpre | hstart
    · exact absurd (within_of_lt hpast (htakes.time ▸ hpre)) hsome
    · exact hbd.recent_of_takes hrate hslack htakes hstart
  · rcases Nat.lt_or_ge stop now with hpre | hafter
    · rw [htakes.taken, within_append, within_single,
        if_neg fun hin => absurd hin.2 (Nat.not_le.mpr hpre), append_nil]
      exact hbd.always start stop hle
    · rcases Nat.lt_or_ge now start with hearly | hstart
      · rw [within_of_lt hpast (htakes.time ▸ hearly)]
        exact .nil hrate hle
      · rw [within_of_le (htakes.time ▸ hpast) hafter]
        exact (hbd.recent_of_takes hrate hslack htakes hstart).mono hrate hafter

end TokenBucket

end HomaSird
