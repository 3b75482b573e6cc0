import Mathlib.Data.List.Nodup

/-! # Round robin

The first key of a list has its turn and goes to the end, or leaves; others join at the end.
Between two turns of a key every other one that stays has one: the list says which of the two is
ahead.
-/

namespace HomaSird

open List

namespace RoundRobin

variable {Key : Type} [DecidableEq Key]

inductive Step : List Key → Option Key → List Key → Prop where
  | stays (keys : List Key) : Step keys none keys
  | joins (key : Key) (keys : List Key) : Step keys none (keys ++ [key])
  | leaves (key : Key) (keys : List Key) : Step (key :: keys) none keys
  | turn (key : Key) (keys : List Key) : Step (key :: keys) (some key) (keys ++ [key])

def ahead (keys : List Key) (first second : Key) : Int :=
  if keys.idxOf first < keys.idxOf second then 1 else 0

def taken (turn : Option Key) (key : Key) : Int :=
  if turn = some key then 1 else 0

variable {keys before after : List Key} {turn : Option Key} {key first second : Key}

theorem ahead_le_one (keys : List Key)
    (first second : Key) : 0 ≤ ahead keys first second ∧ ahead keys first second ≤ 1 := by
  unfold ahead
  split <;> decide

theorem ahead_concat (hfst : first ∈ keys)
    (hsnd : second ∈ keys) : ahead (keys ++ [key]) first second = ahead keys first second := by
  unfold ahead
  rw [idxOf_append_of_mem hfst, idxOf_append_of_mem hsnd]

theorem ahead_cons (hfst : key ≠ first)
    (hsnd : key ≠ second) : ahead (key :: keys) first second = ahead keys first second := by
  unfold ahead
  rw [idxOf_cons_ne keys hfst, idxOf_cons_ne keys hsnd]
  simp only [Nat.succ_lt_succ_iff]

theorem ahead_cons_self (hne : first ≠ second) :
    ahead (first :: keys) first second = 1 ∧ ahead (first :: keys) second first = 0 := by
  unfold ahead
  rw [idxOf_cons_self, idxOf_cons_ne keys hne]
  exact ⟨if_pos (Nat.succ_pos _), if_neg (Nat.not_lt_zero _)⟩

theorem ahead_concat_self (hfst : first ∉ keys) (hsnd : second ∈ keys) :
    ahead (keys ++ [first]) first second = 0 ∧ ahead (keys ++ [first]) second first = 1 := by
  have hlast : (keys ++ [first]).idxOf first = keys.length := by
    rw [idxOf_append_of_notMem hfst, idxOf_cons_self, Nat.add_zero]
  have hearly : (keys ++ [first]).idxOf second < keys.length := by
    rw [idxOf_append_of_mem hsnd]
    exact idxOf_lt_length_iff.mpr hsnd
  unfold ahead
  rw [hlast]
  exact ⟨if_neg (Nat.lt_asymm hearly), if_pos hearly⟩

/-- Of two keys that stay, the one that comes first gives up its lead by its turn. -/
theorem Step.ahead_eq (hstep : Step before turn after) (hnodup : before.Nodup)
    (hne : first ≠ second) (hfst : first ∈ before ∧ first ∈ after)
    (hsnd : second ∈ before ∧ second ∈ after) :
    taken turn first - taken turn second + ahead after first second =
      ahead before first second := by
  cases hstep with
  | stays => simp [taken]
  | joins key =>
    rw [ahead_concat hfst.1 hsnd.1]
    simp [taken]
  | leaves key keys =>
    have hkey := (nodup_cons.mp hnodup).1
    have hothers {other : Key} (hmem : other ∈ after) : key ≠ other := by
      rintro rfl
      exact hkey hmem
    rw [ahead_cons (hothers hfst.2) (hothers hsnd.2)]
    simp [taken]
  | turn key keys =>
    have hkey := (nodup_cons.mp hnodup).1
    by_cases hone : key = first
    · subst hone
      have hmem := (mem_cons.mp hsnd.1).resolve_left (Ne.symm hne)
      rw [(ahead_cons_self hne).1, (ahead_concat_self hkey hmem).1]
      simp [taken, hne]
    · have hmem := (mem_cons.mp hfst.1).resolve_left (Ne.symm hone)
      by_cases htwo : key = second
      · subst htwo
        rw [(ahead_cons_self hone).2, (ahead_concat_self hkey hmem).2]
        simp [taken, hone]
      · have hother := (mem_cons.mp hsnd.1).resolve_left (Ne.symm htwo)
        rw [ahead_cons hone htwo, ahead_concat hmem hother]
        simp [taken, hone, htwo]

end RoundRobin

end HomaSird
