import Mathlib.Data.List.MinMax

/-! # Choosing the earliest element of least rank

A waiting list keeps ranked elements in arrival order. The next element is the earliest one of
least rank; the lemmas say what a scan of the ranks, lowest first, finds.
-/

namespace HomaSird

open List

universe u v

variable {Elem : Type u} {Rank : Type v} [LinearOrder Rank]

def takeLeast (rank : Elem → Rank) : List Elem → Option (Elem × List Elem)
  | [] => none
  | elem :: rest =>
    match takeLeast rank rest with
    | none => some (elem, [])
    | some (least, others) =>
      if rank elem ≤ rank least then some (elem, rest) else some (least, elem :: others)

variable {rank : Elem → Rank}

theorem takeLeast_eq_none {waiting : List Elem} : takeLeast rank waiting = none ↔ waiting = [] := by
  cases waiting with
  | nil => simp [takeLeast]
  | cons elem rest =>
    simp only [takeLeast]
    split
    · simp
    · split <;> simp

variable {least : Elem}

theorem takeLeast_split {waiting others : List Elem}
    (htake : takeLeast rank waiting = some (least, others)) :
    ∃ before after,
      waiting = before ++ least :: after ∧ others = before ++ after ∧
        (∀ elem ∈ before, rank least < rank elem) ∧ ∀ elem ∈ after, rank least ≤ rank elem := by
  induction waiting generalizing least others with
  | nil => simp [takeLeast] at htake
  | cons elem rest ih =>
    simp only [takeLeast] at htake
    split at htake
    next hnone =>
      cases htake
      rw [takeLeast_eq_none.mp hnone]
      exact ⟨[], [], rfl, rfl, by simp, by simp⟩
    next later laterOthers hlater =>
      obtain ⟨before, after, rfl, rfl, hpre, hafter⟩ := ih hlater
      split at htake
      next hle =>
        cases htake
        refine ⟨[], before ++ later :: after, rfl, rfl, by simp, ?_⟩
        intro other hother
        rcases mem_append.mp hother with hmem | hmem
        · exact hle.trans (hpre other hmem).le
        · rcases mem_cons.mp hmem with rfl | hmem
          · exact hle
          · exact hle.trans (hafter other hmem)
      next hgt =>
        cases htake
        refine ⟨elem :: before, after, rfl, rfl, ?_, hafter⟩
        intro other hother
        rcases mem_cons.mp hother with rfl | hmem
        · exact lt_of_not_ge hgt
        · exact hpre other hmem

theorem takeLeast_perm {waiting others : List Elem}
    (htake : takeLeast rank waiting = some (least, others)) : waiting.Perm (least :: others) := by
  obtain ⟨before, after, rfl, rfl, -⟩ := takeLeast_split htake
  exact perm_middle

theorem takeLeast_of_scan [DecidableEq Rank] {waiting tail : List Elem} {lowest : Rank}
    (hlower : ∀ elem ∈ waiting, lowest ≤ rank elem)
    (hscan : waiting.filter (rank · = lowest) = least :: tail) :
    ∃ others,
      takeLeast rank waiting = some (least, others) ∧ others.filter (rank · = lowest) = tail ∧
        ∀ other,
          other ≠ lowest → others.filter (rank · = other) = waiting.filter (rank · = other) := by
  have hleast : rank least = lowest := by
    have hmem : least ∈ waiting.filter (rank · = lowest) := hscan ▸ mem_cons_self
    simpa using (mem_filter.mp hmem).2
  cases htake : takeLeast rank waiting with
  | none => simp [takeLeast_eq_none.mp htake] at hscan
  | some taken =>
    obtain ⟨found, others⟩ := taken
    obtain ⟨before, after, rfl, rfl, hpre, hafter⟩ := takeLeast_split htake
    -- the element found has the lowest rank, so nothing before it has
    have hfound : rank found = lowest := by
      apply le_antisymm
      · have hmem : least ∈ before ++ found :: after := (mem_filter.mp (hscan ▸ mem_cons_self)).1
        rcases mem_append.mp hmem with hmem | hmem
        · exact hleast ▸ (hpre least hmem).le
        · rcases mem_cons.mp hmem with rfl | hmem
          · exact hleast.le
          · exact hleast ▸ hafter least hmem
      · exact hlower found (by simp)
    have hnone : before.filter (rank · = lowest) = [] := by
      apply filter_eq_nil_iff.mpr
      intro elem helem
      simpa [← hfound] using (hpre elem helem).ne'
    rw [filter_append, hnone, nil_append, filter_cons_of_pos (by simpa using hfound)] at hscan
    obtain ⟨rfl, rfl⟩ := cons.inj hscan
    refine ⟨before ++ after, rfl, ?_, ?_⟩
    · rw [filter_append, hnone, nil_append]
    · intro other hother
      have hskip : ¬ rank found = other := fun heq => hother (heq.symm.trans hfound)
      simp [filter_append, hskip]

theorem argmin_eq_some_iff {waiting : List Elem} :
    waiting.argmin rank = some least ↔ ∃ before after, waiting = before ++ least :: after ∧
    (∀ elem ∈ before, rank least < rank elem) ∧ ∀ elem ∈ after, rank least ≤ rank elem := by
  constructor
  · induction waiting with
    | nil => simp
    | cons elem rest ih =>
      intro hargmin
      rw [argmin_cons] at hargmin
      cases hrest : rest.argmin rank with
      | none =>
        simp only [hrest] at hargmin
        cases hargmin
        rw [argmin_eq_none.mp hrest]
        exact ⟨[], [], rfl, by simp, by simp⟩
      | some later =>
        simp only [hrest] at hargmin
        split at hargmin
        next hlt =>
          cases hargmin
          obtain ⟨before, after, rfl, hpre, hafter⟩ := ih hrest
          exact ⟨elem :: before, after, rfl, forall_mem_cons.mpr ⟨hlt, hpre⟩, hafter⟩
        next hge =>
          cases hargmin
          refine ⟨[], rest, rfl, by simp, fun other hother => ?_⟩
          exact (not_lt.mp hge).trans (le_of_mem_argmin hother hrest)
  · rintro ⟨before, after, rfl, hpre, hafter⟩
    induction before with
    | nil =>
      rw [nil_append, argmin_cons]
      cases hlater : after.argmin rank with
      | none => rfl
      | some later => exact if_neg (not_lt.mpr (hafter later (argmin_mem hlater)))
    | cons elem before ih =>
      obtain ⟨helem, hrest⟩ := forall_mem_cons.mp hpre
      rw [cons_append, argmin_cons, ih hrest]
      exact if_pos helem

end HomaSird
