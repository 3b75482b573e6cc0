import Mathlib.Data.List.Nodup
import Mathlib.Data.List.Perm.Basic

/-! # The order of arrival of what is present

An observer of a changing collection remembers the order in which its members
came: those that are gone are struck out, and new ones join at the end.
-/

namespace HomaSird

universe u

variable {Key : Type u} [DecidableEq Key]

/-- The members in their order of arrival, given the order before. -/
def arrivalOrder (arrivals present : List Key) : List Key :=
  arrivals.filter (· ∈ present) ++ present.filter (· ∉ arrivals)

variable {arrivals present : List Key}

theorem filter_present (hsub : present.Sublist arrivals)
    (hnodup : arrivals.Nodup) : arrivals.filter (· ∈ present) = present := by
  have hself : present.filter (· ∈ present) = present := by simp
  have hin : present.Sublist (arrivals.filter (· ∈ present)) := by
    have hfilter := hsub.filter fun key => decide (key ∈ present)
    rwa [hself] at hfilter
  have hperm : present.Perm (arrivals.filter (· ∈ present)) := by
    apply (List.perm_ext_iff_of_nodup (hnodup.sublist hsub) (hnodup.filter _)).mpr
    intro key
    simpa using fun hkey => hsub.subset hkey
  exact (hin.eq_of_length hperm.length_eq).symm

theorem arrivalOrder_of_sublist (hsub : present.Sublist arrivals)
    (hnodup : arrivals.Nodup) : arrivalOrder arrivals present = present := by
  have hnone : present.filter (· ∉ arrivals) = [] := by
    simpa using fun key hkey => hsub.subset hkey
  rw [arrivalOrder, filter_present hsub hnodup, hnone, List.append_nil]

theorem arrivalOrder_concat {arrivals : List Key} {key : Key} (hnew : key ∉ arrivals) :
    arrivalOrder arrivals (arrivals ++ [key]) = arrivals ++ [key] := by
  have hold : arrivals.filter (· ∈ arrivals ++ [key]) = arrivals := by
    simpa using fun other hother => Or.inl hother
  have hjoin : (arrivals ++ [key]).filter (· ∉ arrivals) = [key] := by
    simp [List.filter_append, hnew]
  rw [arrivalOrder, hold, hjoin]

/-- Members that only change places keep their order of arrival. -/
theorem arrivalOrder_of_perm (hperm : present.Perm arrivals) :
    arrivalOrder arrivals present = arrivals := by
  have hold : arrivals.filter (· ∈ present) = arrivals := by
    simpa using fun key hkey => hperm.mem_iff.mpr hkey
  have hnone : present.filter (· ∉ arrivals) = [] := by
    simpa using fun key hkey => hperm.mem_iff.mp hkey
  rw [arrivalOrder, hold, hnone, List.append_nil]

omit [DecidableEq Key] in
/-- Moving one entry to the end changes nothing exactly when it stands there. -/
theorem eraseIdx_concat_eq_iff {entries : List Key} {index : Nat} {key : Key}
    (hnodup : entries.Nodup) (hkey : entries[index]? = some key) :
    entries.eraseIdx index ++ [key] = entries ↔ index + 1 = entries.length := by
  obtain ⟨hlt, hget⟩ := List.getElem?_eq_some_iff.mp hkey
  constructor
  · intro heq
    have hlast : entries[entries.length - 1]? = some key := by
      have hlen : (entries.eraseIdx index).length = entries.length - 1 :=
        List.length_eraseIdx_of_lt hlt
      have hend : (entries.eraseIdx index ++ [key])[entries.length - 1]? = some key := by
        rw [← hlen]
        exact List.getElem?_concat_length
      rwa [heq] at hend
    have hsame : index = entries.length - 1 :=
      (List.getElem?_inj hlt hnodup).mp (hkey.trans hlast.symm)
    omega
  · intro hlast
    have hidx : index = entries.length - 1 := by omega
    have hne : entries ≠ [] := List.ne_nil_of_length_pos (by omega)
    subst hidx
    rw [List.eraseIdx_length_sub_one, ← hget, ← List.getLast_eq_getElem hne]
    exact List.dropLast_concat_getLast hne

end HomaSird
