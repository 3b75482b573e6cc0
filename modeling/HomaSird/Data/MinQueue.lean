import Mathlib.Data.List.Sort

/-! # Priority queues that hand out their least element

A queue is the ascending list of its elements, repetitions included, so its top
is the head of the list.
-/

namespace HomaSird

open List

universe u

structure MinQueue (Elem : Type u) [LinearOrder Elem] where
  items : List Elem
  sorted : items.Pairwise (· ≤ ·)

namespace MinQueue

variable {Elem : Type u} [LinearOrder Elem]

def top? (queue : MinQueue Elem) : Option Elem := queue.items.head?

def push (queue : MinQueue Elem) (elem : Elem) : MinQueue Elem where
  items := queue.items.orderedInsert (· ≤ ·) elem
  sorted := queue.sorted.orderedInsert elem _

def popWhileTop (queue : MinQueue Elem) (elem : Elem) : MinQueue Elem where
  items := queue.items.dropWhile (· = elem)
  sorted := queue.sorted.sublist (List.dropWhile_sublist _)

def empty (queue : MinQueue Elem) : Bool := queue.items.isEmpty

/-- A read of the top that is not guarded: behind an empty queue it finds whatever is there. -/
def top (stale : Elem) (queue : MinQueue Elem) : Elem := queue.top?.getD stale

def pop (queue : MinQueue Elem) : MinQueue Elem where
  items := queue.items.tail
  sorted := queue.sorted.sublist (List.tail_sublist _)

variable {queue : MinQueue Elem}

theorem length_pop_lt (hfull : queue.empty = false) :
    queue.pop.items.length < queue.items.length := by
  obtain ⟨items, hsort⟩ := queue
  cases items with
  | nil => cases hfull
  | cons head tail => exact Nat.lt_succ_self _

def count (queue : MinQueue Elem) (elem : Elem) : Nat := queue.items.count elem

theorem count_push (queue : MinQueue Elem) (elem other : Elem) :
    (queue.push elem).count other = queue.count other + if elem = other then 1 else 0 :=
  orderedInsert_count _ _ _ _

variable {elem : Elem}

theorem count_pos_of_top? (htop : queue.top? = some elem) : 0 < queue.count elem :=
  count_pos_iff.mpr (mem_of_mem_head? htop)

theorem top?_of_count_pos (hpos : 0 < queue.count elem) :
    ∃ top, queue.top? = some top ∧ top ≤ elem := by
  obtain ⟨items, hsort⟩ := queue
  have hmem := count_pos_iff.mp hpos
  cases items with
  | nil => cases hmem
  | cons head tail =>
    refine ⟨head, rfl, ?_⟩
    rcases mem_cons.mp hmem with rfl | hlater
    · exact le_rfl
    · exact (pairwise_cons.mp hsort).1 elem hlater

/-- Dropping the copies of the first element of an ascending list drops all of them. -/
theorem count_dropWhile_self {items : List Elem} (hsort : items.Pairwise (· ≤ ·))
    (hle : ∀ other ∈ items, elem ≤ other) : (items.dropWhile (· = elem)).count elem = 0 := by
  induction items with
  | nil => rfl
  | cons head tail ih =>
    obtain ⟨hhead, htail⟩ := pairwise_cons.mp hsort
    by_cases heq : head = elem
    · rw [dropWhile_cons_of_pos (by simpa using heq)]
      exact ih htail fun other hother => heq ▸ hhead other hother
    · rw [dropWhile_cons_of_neg (by simpa using heq), count_eq_zero]
      intro hmem
      rcases mem_cons.mp hmem with hsame | hlater
      · exact heq hsame.symm
      · exact heq (le_antisymm (hhead elem hlater) (hle head mem_cons_self))

theorem count_popWhileTop_self (htop : queue.top? = some elem) :
    (queue.popWhileTop elem).count elem = 0 := by
  apply count_dropWhile_self queue.sorted
  intro other hother
  obtain ⟨items, hsort⟩ := queue
  cases items with
  | nil => cases hother
  | cons head tail =>
    obtain rfl : head = elem := Option.some.inj htop
    rcases mem_cons.mp hother with rfl | hlater
    · exact le_rfl
    · exact (pairwise_cons.mp hsort).1 other hlater

theorem count_popWhileTop_of_ne (queue : MinQueue Elem) {elem other : Elem}
    (hne : other ≠ elem) : (queue.popWhileTop elem).count other = queue.count other := by
  obtain ⟨items, hsort⟩ := queue
  simp only [popWhileTop, count]
  clear hsort
  induction items with
  | nil => rfl
  | cons head tail ih =>
    by_cases heq : head = elem
    · subst heq
      rw [dropWhile_cons_of_pos (by simp), ih, count_cons_of_ne hne.symm]
    · rw [dropWhile_cons_of_neg (by simpa using heq)]

def range (bound : Nat) : MinQueue Nat where
  items := List.range bound
  sorted := (List.pairwise_lt_range (n := bound)).imp Nat.le_of_lt

theorem count_range (bound elem : Nat) :
    (range bound).count elem = if elem < bound then 1 else 0 := by
  unfold count range
  split
  next hlt => exact count_eq_one_of_mem nodup_range (mem_range.mpr hlt)
  next hge => exact count_eq_zero_of_not_mem fun hmem => hge (mem_range.mp hmem)

end MinQueue

end HomaSird
