import Mathlib.Data.List.AList
import Mathlib.Algebra.BigOperators.Fin

/-! # Finite maps with a default read and a total

A map is an association list without repeated keys. `getD` is a read that
supplies a default for a missing key, and `total` adds up a map of counters.
-/

namespace HomaSird

open List

universe u v

abbrev UnorderedMap (Key : Type u) (Value : Type v) : Type max u v :=
  AList (fun _ : Key => Value)

namespace UnorderedMap

variable {Key : Type u} {Value : Type v} [DecidableEq Key]

def getD (map : UnorderedMap Key Value) (key : Key) (default : Value) : Value :=
  (map.lookup key).getD default

@[simp] theorem getD_empty (key : Key) (default : Value) :
    getD (∅ : UnorderedMap Key Value) key default = default := rfl

@[simp] theorem getD_insert_self (map : UnorderedMap Key Value) (key : Key)
    (value default : Value) : getD (map.insert key value) key default = value := by
  simp [getD]

theorem getD_insert (map : UnorderedMap Key Value) (key other : Key) (value default : Value) :
    getD (map.insert key value) other default =
      if other = key then value else getD map other default := by
  unfold getD
  split
  next heq =>
    subst heq
    simp
  next hne => rw [AList.lookup_insert_ne hne]

theorem lookup_insert (map : UnorderedMap Key Value) (key other : Key) (value : Value) :
    (map.insert key value).lookup other = if other = key then some value else map.lookup other := by
  split
  next heq => rw [heq, AList.lookup_insert]
  next hne => rw [AList.lookup_insert_ne hne]

theorem lookup_erase (map : UnorderedMap Key Value) (key other : Key) :
    (map.erase key).lookup other = if other = key then none else map.lookup other := by
  split
  next heq => rw [heq, AList.lookup_erase]
  next hne => rw [AList.lookup_erase_ne hne]

theorem isSome_lookup_erase (map : UnorderedMap Key Value) (key other : Key) :
    ((map.erase key).lookup other).isSome = true ↔
      (map.lookup other).isSome = true ∧ other ≠ key := by
  rw [lookup_erase]
  split
  next heq => simp [heq]
  next hne => simp [hne]

theorem forall_insert {map : UnorderedMap Key Value} {holds : Value → Prop} {key : Key}
    {value : Value} (hmap : ∀ other stored, map.lookup other = some stored → holds stored)
    (hval : holds value) {other : Key} {stored : Value}
    (hlook : (map.insert key value).lookup other = some stored) : holds stored := by
  by_cases heq : other = key
  · subst heq
    rw [AList.lookup_insert] at hlook
    exact Option.some.inj hlook ▸ hval
  · rw [AList.lookup_insert_ne heq] at hlook
    exact hmap other stored hlook

theorem entries_perm {map : UnorderedMap Key Value} {key : Key} {value : Value} (hlook :
    map.lookup key = some value) : map.entries.Perm (⟨key, value⟩ :: (map.erase key).entries) := by
  have hmem : key ∈ map.entries.keys :=
    AList.mem_keys.mp (AList.lookup_isSome.mp (by rw [hlook]; rfl))
  obtain ⟨stored, before, behind, hnot, hents, herase⟩ := exists_of_kerase hmem
  have hstored : map.lookup key = some stored :=
    AList.mem_lookup_iff.mpr (by rw [hents]; exact mem_append_right _ mem_cons_self)
  obtain rfl := Option.some.inj (hlook.symm.trans hstored)
  rw [hents, show (map.erase key).entries = before ++ behind from herase]
  exact perm_middle

def total (map : UnorderedMap Key Nat) : Nat := (map.entries.map Sigma.snd).sum

omit [DecidableEq Key] in
@[simp] theorem total_empty : total (∅ : UnorderedMap Key Nat) = 0 := rfl

theorem sum_kerase (entries : List (Sigma fun _ : Key => Nat)) (key : Key) :
    ((entries.kerase key).map Sigma.snd).sum + (entries.dlookup key).getD 0 =
      (entries.map Sigma.snd).sum := by
  induction entries with
  | nil => rfl
  | cons entry rest ih =>
    by_cases heq : key = entry.1
    · obtain ⟨stored, value⟩ := entry
      obtain rfl : key = stored := heq
      simp [add_comm]
    · rw [kerase_cons_ne heq, dlookup_cons_ne _ _ heq, map_cons, sum_cons,
        map_cons, sum_cons, ← ih, add_assoc]

theorem total_insert (map : UnorderedMap Key Nat) (key : Key)
    (value : Nat) : total (map.insert key value) + getD map key 0 = total map + value := by
  have herase := sum_kerase map.entries key
  simp only [total, getD, AList.lookup, AList.entries_insert, map_cons, sum_cons] at *
  omega

theorem getD_le_total (map : UnorderedMap Key Nat) (key : Key) : getD map key 0 ≤ total map := by
  have herase := sum_kerase map.entries key
  simp only [total, getD, AList.lookup]
  omega

theorem total_eq_zero {map : UnorderedMap Key Nat}
    (hmap : ∀ key, getD map key 0 = 0) : total map = 0 := by
  apply sum_eq_zero
  intro value hval
  obtain ⟨entry, hent, rfl⟩ := mem_map.mp hval
  have hlook : map.lookup entry.1 = some entry.2 := AList.mem_lookup_iff.mpr hent
  have hzero := hmap entry.1
  rwa [getD, hlook, Option.getD_some] at hzero

end UnorderedMap

end HomaSird
