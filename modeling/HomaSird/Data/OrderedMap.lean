import Mathlib.Order.Lattice
import Mathlib.Data.List.Pairwise

/-! # Maps as sorted lists of entries -/

namespace HomaSird.OrderedMap

open List

variable {Key Value : Type} [LinearOrder Key] {update : Option Value → Value} {key other : Key}
  {entries front : List (Key × Value)}

/-- `map[key] = update (map[key])`, where the key may be new. -/
def upsert (update : Option Value → Value) (key : Key) : List (Key × Value) → List (Key × Value)
  | [] => [(key, update none)]
  | entry :: rest =>
    if key < entry.1 then (key, update none) :: entry :: rest
    else if key = entry.1 then (key, update (some entry.2)) :: rest
    else entry :: upsert update key rest

def Sorted (entries : List (Key × Value)) : Prop :=
  entries.Pairwise fun entry later => entry.1 < later.1

theorem mem_keys_upsert :
    other ∈ (upsert update key entries).map Prod.fst ↔ other = key ∨ other ∈ entries.map Prod.fst
    := by
  induction entries with
  | nil => simp [upsert]
  | cons entry rest ih =>
    rw [upsert]
    split
    · simp
    · split
      next hkey => simp [hkey]
      · simp only [map_cons, mem_cons, ih, or_left_comm]

theorem Sorted.upsert (hsort : Sorted entries) : Sorted (upsert update key entries) := by
  induction entries with
  | nil => exact pairwise_singleton _ _
  | cons entry rest ih =>
    obtain ⟨hless, hrest⟩ := pairwise_cons.mp hsort
    rw [OrderedMap.upsert]
    split
    next hlt =>
      refine pairwise_cons.mpr ⟨fun later hlater => ?_, hsort⟩
      rcases mem_cons.mp hlater with rfl | hbehind
      · exact hlt
      · exact hlt.trans (hless later hbehind)
    next hge =>
      split
      next hkey =>
        subst hkey
        exact pairwise_cons.mpr ⟨hless, hrest⟩
      next hne =>
        refine pairwise_cons.mpr ⟨fun later hlater => ?_, ih hrest⟩
        rcases mem_keys_upsert.mp (mem_map_of_mem (f := Prod.fst) hlater) with hsame | hbehind
        · rw [hsame]
          exact lt_of_le_of_ne (not_lt.mp hge) (Ne.symm hne)
        · obtain ⟨kept, hkept, hsame⟩ := mem_map.mp hbehind
          exact hsame ▸ hless kept hkept

theorem upsert_append (hless : ∀ entry ∈ front, entry.1 < key) :
    upsert update key (front ++ entries) = front ++ upsert update key entries := by
  induction front with
  | nil => rfl
  | cons entry front ih =>
    obtain ⟨hent, hfront⟩ := forall_mem_cons.mp hless
    rw [cons_append, upsert, if_neg hent.not_gt, if_neg hent.ne', ih hfront]
    rfl

end HomaSird.OrderedMap
