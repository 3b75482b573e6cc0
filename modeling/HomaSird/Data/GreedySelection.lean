import Mathlib.Data.List.Nodup

/-! # Greedy selection with a limit

A pass over a list takes every item that is eligible given what has been taken
so far, until the limit is reached.
-/

namespace HomaSird

open List

universe u

variable {Item : Type u} (limit : Nat) (eligible : List Item → Item → Bool)

/-- Whether a pass that has taken `chosen` takes the item. -/
def takes (chosen : List Item) (item : Item) : Bool :=
  decide (chosen.length < limit) && eligible chosen item

/-- What a pass that has taken `chosen` before the given items ends with. -/
def greedy : List Item → List Item → List Item
  | chosen, [] => chosen
  | chosen, item :: rest =>
    greedy (if takes limit eligible chosen item then chosen ++ [item] else chosen) rest

variable {limit eligible}

theorem greedy_append (chosen front back : List Item) :
    greedy limit eligible chosen (front ++ back) =
      greedy limit eligible (greedy limit eligible chosen front) back := by
  induction front generalizing chosen with
  | nil => rfl
  | cons item rest ih => exact ih _

theorem greedy_sublist (chosen items : List Item) :
    (greedy limit eligible chosen items).Sublist (chosen ++ items) := by
  induction items generalizing chosen with
  | nil => simp [greedy]
  | cons item rest ih =>
    rw [greedy]
    split
    · simpa using ih (chosen ++ [item])
    · exact (ih chosen).trans ((List.Sublist.refl chosen).append (sublist_cons_self _ _))

theorem prefix_greedy (chosen items : List Item) :
    chosen <+: greedy limit eligible chosen items := by
  induction items generalizing chosen with
  | nil => exact prefix_rfl
  | cons item rest ih =>
    rw [greedy]
    split
    · exact (prefix_append chosen [item]).trans (ih _)
    · exact ih chosen

theorem greedy_rule (holds : List Item → Prop) (hkeep : ∀ chosen item, holds chosen →
    takes limit eligible chosen item = true → holds (chosen ++ [item])) {chosen items : List Item}
    (hstart : holds chosen) : holds (greedy limit eligible chosen items) := by
  induction items generalizing chosen with
  | nil => exact hstart
  | cons item rest ih =>
    rw [greedy]
    split
    next htakes => exact ih (hkeep chosen item hstart htakes)
    · exact ih hstart

theorem length_greedy_le {items : List Item} : (greedy limit eligible [] items).length ≤ limit := by
  apply greedy_rule (fun chosen => chosen.length ≤ limit)
  · intro chosen item _ htakes
    rw [takes, Bool.and_eq_true, decide_eq_true_eq] at htakes
    rw [length_append]
    exact htakes.1
  · exact Nat.zero_le limit

/-- An item that occurs once is taken exactly when it is eligible and below the limit, given what
was taken before it. -/
theorem mem_greedy_iff {front back : List Item} {item : Item}
    (hnodup : (front ++ item :: back).Nodup) :
    item ∈ greedy limit eligible [] (front ++ item :: back) ↔
      takes limit eligible (greedy limit eligible [] front) item = true := by
  rw [greedy_append, greedy]
  have hpre : item ∉ greedy limit eligible [] front := by
    intro hmem
    have hfront := (greedy_sublist [] front).subset hmem
    exact (nodup_append.mp hnodup).2.2 _ hfront _ mem_cons_self rfl
  split
  next htakes =>
    have hprefix : greedy limit eligible [] front ++ [item] <+:
        greedy limit eligible (greedy limit eligible [] front ++ [item]) back :=
      prefix_greedy _ back
    exact ⟨fun _ => htakes, fun _ => hprefix.subset (by simp)⟩
  next hnot =>
    refine ⟨fun hmem => ?_, fun htakes => absurd htakes hnot⟩
    have hafter := (greedy_sublist (greedy limit eligible [] front) back).subset hmem
    rcases mem_append.mp hafter with hearly | hlate
    · exact absurd hearly hpre
    · have hback := (nodup_append.mp hnodup).2.1
      exact absurd hlate (nodup_cons.mp hback).1

end HomaSird
