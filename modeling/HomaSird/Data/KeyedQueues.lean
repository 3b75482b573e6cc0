import Mathlib.Data.List.Basic

/-! # Queues that share items by a key

Items arrive, wait in one of several queues and are handed out from any of them. As long as the
items of a key wait in one queue at a time, they are handed out in the order of arrival, however
the queues are served and whatever they lose.
-/

namespace HomaSird

open List

universe u v

variable {Item : Type u} {Key : Type v} [DecidableEq Key]

def ofKey (key : Item → Key) (wanted : Key) (items : List Item) : List Item :=
  items.filter fun item => decide (key item = wanted)

def Together (key : Item → Key) (queues : List (List Item)) : Prop :=
  ∀ (i j : Nat) (first second : List Item), queues[i]? = some first → queues[j]? = some second →
    ∀ item ∈ first, ∀ other ∈ second, key item = key other → i = j

structure KeyedOrder (key : Item → Key) (arrived handed : List Item)
    (queues : List (List Item)) : Prop where
  together : Together key queues
  order : ∀ wanted, (ofKey key wanted (handed ++ queues.flatten)).Sublist
    (ofKey key wanted arrived)

section OfKey

variable {key : Item → Key} {wanted : Key}

@[simp] theorem ofKey_append (first second : List Item) :
    ofKey key wanted (first ++ second) = ofKey key wanted first ++ ofKey key wanted second :=
  filter_append ..

theorem ofKey_eq_nil {items : List Item}
    (hnone : ∀ item ∈ items, key item ≠ wanted) : ofKey key wanted items = [] := by
  apply filter_eq_nil_iff.mpr
  intro item hitem
  simpa using hnone item hitem

theorem ofKey_singleton (item : Item) :
    ofKey key wanted [item] = if key item = wanted then [item] else [] := by
  by_cases hkey : key item = wanted <;> simp [ofKey, hkey]

theorem ofKey_sublist {first second : List Item} (hsub : first.Sublist second) :
    (ofKey key wanted first).Sublist (ofKey key wanted second) := hsub.filter _

end OfKey

theorem ofKey_others {key : Item → Key} {wanted : Key} {before behind : List (List Item)}
    {queue : List Item}
    (hplace : ∀ (j : Nat) (other : List Item), (before ++ queue :: behind)[j]? = some other →
      ∀ item ∈ other, key item = wanted → j = before.length) :
    ofKey key wanted before.flatten = [] ∧ ofKey key wanted behind.flatten = [] := by
  constructor
  · apply ofKey_eq_nil
    intro item hitem hkey
    obtain ⟨other, hother, hmem⟩ := mem_flatten.mp hitem
    obtain ⟨j, hj, hget⟩ := mem_iff_getElem.mp hother
    have hplaced := hplace j other (by
      rw [getElem?_append_left hj, getElem?_eq_getElem hj, hget]) item hmem hkey
    omega
  · apply ofKey_eq_nil
    intro item hitem hkey
    obtain ⟨other, hother, hmem⟩ := mem_flatten.mp hitem
    obtain ⟨j, hj, hget⟩ := mem_iff_getElem.mp hother
    have hplaced := hplace (before.length + 1 + j) other (by
      rw [getElem?_append_right (by omega), show before.length + 1 + j - before.length = j + 1
        by omega, getElem?_cons_succ, getElem?_eq_getElem hj, hget]) item hmem hkey
    omega

theorem set_around {Value : Type u} {values : List Value} {i : Nat} {value : Value}
    (hval : values[i]? = some value) :
    ∃ before behind,
      values = before ++ value :: behind ∧ before.length = i ∧
        ∀ other, values.set i other = before ++ other :: behind := by
  obtain ⟨hi, hget⟩ := List.getElem?_eq_some_iff.mp hval
  refine ⟨values.take i, values.drop (i + 1), ?_, by simp; omega, fun other => ?_⟩
  · rw [← hget]
    simp
  · rw [set_eq_take_append_cons_drop, if_pos hi]

theorem getElem?_concat_iff {Value : Type u} {values : List Value} {last value : Value} {i : Nat} :
    (values ++ [last])[i]? = some value ↔
      values[i]? = some value ∨ i = values.length ∧ last = value := by
  rcases Nat.lt_trichotomy i values.length with hlt | rfl | hgt
  · rw [getElem?_append_left hlt]
    exact ⟨.inl, fun hval => hval.resolve_right fun heq => by omega⟩
  · rw [getElem?_concat_length, getElem?_eq_none (Nat.le_refl _)]
    simp
  · rw [getElem?_eq_none (by simp; omega), getElem?_eq_none (by omega)]
    simp only [reduceCtorEq, false_or, false_iff, not_and]
    intro heq
    omega

namespace KeyedOrder

variable {key : Item → Key} {arrived handed : List Item} {queues : List (List Item)}

theorem empty (key : Item → Key) : KeyedOrder key [] [] [] where
  together _ _ _ _ hfst := nomatch hfst
  order _ := .refl _

theorem addQueue (horder : KeyedOrder key arrived handed queues) :
    KeyedOrder key arrived handed (queues ++ [[]]) where
  together := by
    intro i j first second hfst hsnd item hitem other hother hkey
    have hold (n : Nat) (queue : List Item) (hget : (queues ++ [[]])[n]? = some queue)
        (hne : queue ≠ []) : queues[n]? = some queue :=
      (getElem?_concat_iff.mp hget).resolve_right fun hnew => hne hnew.2.symm
    apply horder.together i j first second (hold i first hfst (ne_nil_of_mem hitem))
      (hold j second hsnd (ne_nil_of_mem hother)) item hitem other hother hkey
  order wanted := by simpa using horder.order wanted

variable {i : Nat} {queue : List Item}

theorem append (horder : KeyedOrder key arrived handed queues) (hq : queues[i]? = some queue)
    {item : Item} (hplace : ∀ (j : Nat) (other : List Item), queues[j]? = some other →
    ∀ waiting ∈ other, key waiting = key item → j = i) :
    KeyedOrder key (arrived ++ [item]) handed (queues.set i (queue ++ [item])) where
  together := by
    -- what waits is an old item in its place or the new one at `i`
    have hcases (n : Nat) (found : List Item)
        (hget : (queues.set i (queue ++ [item]))[n]? = some found) (waiting : Item)
        (hwait : waiting ∈ found) : waiting = item ∧ n = i ∨
          ∃ old, queues[n]? = some old ∧ waiting ∈ old := by
      rw [getElem?_set] at hget
      split at hget
      next heq =>
        subst heq
        split at hget
        · cases hget
          rcases mem_append.mp hwait with hold | hnew
          · exact .inr ⟨queue, hq, hold⟩
          · exact .inl ⟨mem_singleton.mp hnew, rfl⟩
        · cases hget
      · exact .inr ⟨found, hget, hwait⟩
    intro n m first second hfst hsnd waiting hwait other hother hkey
    rcases hcases n first hfst waiting hwait with ⟨rfl, rfl⟩ | ⟨old, hold, hmem⟩
    · rcases hcases m second hsnd other hother with ⟨rfl, rfl⟩ | ⟨old, hold, hmem⟩
      · rfl
      · exact (hplace m old hold other hmem hkey.symm).symm
    · rcases hcases m second hsnd other hother with ⟨rfl, rfl⟩ | ⟨later, hlater, hin⟩
      · exact hplace n old hold waiting hmem hkey
      · exact horder.together n m old later hold hlater waiting hmem other hin hkey
  order wanted := by
    obtain ⟨before, behind, hqs, hlen, hset⟩ := set_around hq
    have hold := horder.order wanted
    rw [hset, flatten_append, flatten_cons]
    rw [hqs, flatten_append, flatten_cons] at hold
    simp only [ofKey_append, ofKey_singleton] at hold ⊢
    by_cases hkey : key item = wanted
    · have hnone := @ofKey_others _ _ _ key wanted before behind queue (by
        intro j other hget waiting hmem hsame
        rw [← hqs] at hget
        exact (hplace j other hget waiting hmem (hsame.trans hkey.symm)).trans hlen.symm)
      rw [hnone.1, hnone.2] at hold ⊢
      simp only [nil_append, append_nil, if_pos hkey] at hold ⊢
      rw [← append_assoc]
      exact hold.append_right _
    · simpa only [if_neg hkey, append_nil] using hold

theorem remove (horder : KeyedOrder key arrived handed queues) (hq : queues[i]? = some queue)
    {taken after : List Item} (hsub : (taken ++ after).Sublist queue) :
    KeyedOrder key arrived (handed ++ taken) (queues.set i after) where
  together := by
    have hcases (n : Nat) (found : List Item) (hget : (queues.set i after)[n]? = some found) :
        ∃ old, queues[n]? = some old ∧ ∀ waiting ∈ found, waiting ∈ old := by
      rw [getElem?_set] at hget
      split at hget
      next heq =>
        subst heq
        split at hget
        · cases hget
          exact ⟨queue, hq, fun waiting hmem => hsub.subset (mem_append_right _ hmem)⟩
        · cases hget
      · exact ⟨found, hget, fun _ hmem => hmem⟩
    intro n m first second hfst hsnd waiting hwait other hother hkey
    obtain ⟨old, hold, hin⟩ := hcases n first hfst
    obtain ⟨later, hlater, hinLater⟩ := hcases m second hsnd
    exact horder.together n m old later hold hlater waiting (hin _ hwait) other
      (hinLater _ hother) hkey
  order wanted := by
    obtain ⟨before, behind, hqs, -, hset⟩ := set_around hq
    have hold := horder.order wanted
    have htogether := hqs ▸ horder.together
    rw [hset, flatten_append, flatten_cons]
    rw [hqs, flatten_append, flatten_cons] at hold
    simp only [ofKey_append, append_assoc] at hold ⊢
    refine List.Sublist.trans ?_ hold
    apply List.Sublist.append_left
    have hkept : (ofKey key wanted (taken ++ after)).Sublist (ofKey key wanted queue) :=
      ofKey_sublist hsub
    rw [ofKey_append] at hkept
    by_cases hsome : ∃ item ∈ queue, key item = wanted
    · obtain ⟨item, hitem, hkey⟩ := hsome
      obtain ⟨hpre, hbehind⟩ := @ofKey_others _ _ _ key wanted before behind queue (by
        intro j other hget waiting hmem hsame
        exact htogether j _ other queue hget (by simp) waiting hmem item hitem
          (hsame.trans hkey.symm))
      simpa only [hpre, hbehind, nil_append, append_nil] using hkept
    · have hnone : ofKey key wanted queue = [] :=
        ofKey_eq_nil fun item hitem hkey => hsome ⟨item, hitem, hkey⟩
      rw [hnone, sublist_nil, append_eq_nil_iff] at hkept
      simp [hkept.1, hkept.2, hnone]

end KeyedOrder

end HomaSird
