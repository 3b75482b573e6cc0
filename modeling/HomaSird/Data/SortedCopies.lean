import Mathlib.Data.List.Count
import Mathlib.Data.List.Induction
import Mathlib.Data.List.Perm.Basic

/-! # Sorted lists with copies

Insertion in front of the first entry with a greater key keeps the copies of an item together: the
list holds as many copies as have arrived. Entries with equal keys stay in the order of arrival.
-/

namespace HomaSird.SortedCopies

open List

universe u v

variable {α : Type u} {β : Type v}

def insertSorted (key : β → Nat) (entry : β) : List β → List β
  | [] => [entry]
  | first :: rest =>
    if key first > key entry then entry :: first :: rest
    else first :: insertSorted key entry rest

def copies [DecidableEq α] (entryOf : α → β) (seen items : List α) : List β :=
  items.flatMap fun item => List.replicate (seen.count item) (entryOf item)

section Insert

variable {key : β → Nat} {entry : β} {before after : List β}

theorem insertSorted_append (hpre : ∀ other ∈ before, key other ≤ key entry) :
    insertSorted key entry (before ++ after) = before ++ insertSorted key entry after := by
  induction before with
  | nil => rfl
  | cons first rest ih =>
    obtain ⟨hfst, hrest⟩ := forall_mem_cons.mp hpre
    rw [cons_append, insertSorted, if_neg (Nat.not_lt.mpr hfst), ih hrest, cons_append]

theorem insertSorted_before (hafter : ∀ other ∈ after, key entry < key other) :
    insertSorted key entry after = entry :: after := by
  cases after with
  | nil => rfl
  | cons first rest => exact if_pos (hafter first mem_cons_self)

end Insert

section Copies

variable [DecidableEq α] {entryOf : α → β} {key : β → Nat} {seen items front back : List α}
  {item : α}

theorem copies_nil (items : List α) : copies entryOf [] items = [] := by
  rw [copies, flatMap_eq_nil_iff]
  intro item _
  rw [count_nil, replicate_zero]

theorem copies_cons (seen : List α) (item : α) (rest : List α) :
    copies entryOf seen (item :: rest) =
      replicate (seen.count item) (entryOf item) ++ copies entryOf seen rest := rfl

theorem mem_copies {entry : β} :
    entry ∈ copies entryOf seen items ↔ ∃ item ∈ items, item ∈ seen ∧ entry = entryOf item := by
  simp only [copies, mem_flatMap, mem_replicate, ne_eq, count_eq_zero, not_not]

theorem copies_of_not_mem (hnot : item ∉ items) :
    copies entryOf (item :: seen) items = copies entryOf seen items := by
  rw [copies, copies]
  refine flatMap_congr fun other hother => ?_
  have hne : item ≠ other := fun heq => hnot (heq ▸ hother)
  rw [count_cons_of_ne hne]

theorem insertSorted_copies
    (hsort : items.Pairwise fun item other => key (entryOf item) < key (entryOf other))
    (hmem : item ∈ items) :
    insertSorted key (entryOf item) (copies entryOf seen items) =
      copies entryOf (item :: seen) items := by
  obtain ⟨front, back, rfl⟩ := append_of_mem hmem
  obtain ⟨-, hback, hcross⟩ := pairwise_append.mp hsort
  obtain ⟨hlast, -⟩ := pairwise_cons.mp hback
  have hnotFront : item ∉ front := fun hin =>
    Nat.lt_irrefl _ (hcross item hin item mem_cons_self)
  have hnotBack : item ∉ back := fun hin => Nat.lt_irrefl _ (hlast item hin)
  have hsplit : ∀ seen, copies entryOf seen (front ++ item :: back) =
      copies entryOf seen front ++ (replicate (seen.count item) (entryOf item) ++
        copies entryOf seen back) := fun seen => flatMap_append
  rw [hsplit, hsplit, copies_of_not_mem hnotFront, copies_of_not_mem hnotBack,
    insertSorted_append, insertSorted_append, insertSorted_before, count_cons_self,
    replicate_succ', append_assoc]
  · rfl
  · intro other hother
    obtain ⟨behind, hbehind, -, rfl⟩ := mem_copies.mp hother
    exact hlast behind hbehind
  · intro other hother
    exact Nat.le_of_eq (congrArg key (eq_of_mem_replicate hother))
  · intro other hother
    obtain ⟨ahead, hahead, -, rfl⟩ := mem_copies.mp hother
    exact Nat.le_of_lt (hcross ahead hahead item mem_cons_self)

theorem copies_of_once (honce : ∀ item ∈ items, seen.count item = 1) :
    copies entryOf seen items = items.map entryOf := by
  induction items with
  | nil => rfl
  | cons item rest ih =>
    obtain ⟨hfst, hrest⟩ := forall_mem_cons.mp honce
    rw [copies_cons, ih hrest, hfst]
    rfl

end Copies

section Order

variable {key : β → Nat} {entry other first second : β} {entries arrivals : List β}

theorem pair_sublist_cons :
    [first, second].Sublist (entry :: entries) ↔
      [first, second].Sublist entries ∨ first = entry ∧ second ∈ entries := by
  rw [sublist_cons_iff]
  refine or_congr_right ⟨?_, ?_⟩
  · rintro ⟨rest, hrest, hsub⟩
    obtain ⟨rfl, rfl⟩ := cons.inj hrest
    exact ⟨rfl, singleton_sublist.mp hsub⟩
  · rintro ⟨rfl, hmem⟩
    exact ⟨[second], rfl, singleton_sublist.mpr hmem⟩

theorem pair_sublist_concat :
    [first, second].Sublist (entries ++ [entry]) ↔
      [first, second].Sublist entries ∨ first ∈ entries ∧ second = entry := by
  induction entries with
  | nil => simp
  | cons head rest ih =>
    simp only [cons_append, pair_sublist_cons, ih, mem_append, mem_cons, not_mem_nil, or_false]
    tauto

theorem pair_sublist_map {items : List α} {entryOf : α → β} :
    [first, second].Sublist (items.map entryOf) ↔
      ∃ ahead behind,
        [ahead, behind].Sublist items ∧ entryOf ahead = first ∧ entryOf behind = second := by
  constructor
  · intro hsub
    obtain ⟨pair, hsub, hpair⟩ := sublist_map_iff.mp hsub
    obtain ⟨ahead, rest, rfl, rfl, hrest⟩ := map_eq_cons_iff.mp hpair.symm
    obtain ⟨behind, rest, rfl, rfl, hnil⟩ := map_eq_cons_iff.mp hrest
    obtain rfl := map_eq_nil_iff.mp hnil
    exact ⟨ahead, behind, hsub, rfl, rfl⟩
  · rintro ⟨ahead, behind, hsub, rfl, rfl⟩
    exact hsub.map entryOf

theorem mem_insertSorted :
    other ∈ insertSorted key entry entries ↔ other = entry ∨ other ∈ entries := by
  induction entries with
  | nil => simp [insertSorted]
  | cons head rest ih =>
    rw [insertSorted]
    split
    · rw [mem_cons]
    · rw [mem_cons, ih, mem_cons]
      exact or_left_comm

theorem insertSorted_sorted (hsort : entries.Pairwise fun entry other => key entry ≤ key other) :
    (insertSorted key entry entries).Pairwise fun entry other => key entry ≤ key other := by
  induction entries with
  | nil => exact pairwise_singleton _ _
  | cons head rest ih =>
    obtain ⟨hhead, hrest⟩ := pairwise_cons.mp hsort
    rw [insertSorted]
    split
    next hgreater =>
      refine pairwise_cons.mpr ⟨forall_mem_cons.mpr ⟨?_, fun behind hbehind => ?_⟩, hsort⟩
      · exact Nat.le_of_lt hgreater
      · exact Nat.le_trans (Nat.le_of_lt hgreater) (hhead behind hbehind)
    next hle =>
      refine pairwise_cons.mpr ⟨fun behind hbehind => ?_, ih hrest⟩
      rcases mem_insertSorted.mp hbehind with rfl | hbehind
      · exact Nat.not_lt.mp hle
      · exact hhead behind hbehind

theorem pair_sublist_insertSorted
    (hsort : entries.Pairwise fun entry other => key entry ≤ key other) :
    [first, second].Sublist (insertSorted key entry entries) ↔
      [first, second].Sublist entries ∨
        (first = entry ∧ second ∈ entries ∧ key entry < key second) ∨
        (second = entry ∧ first ∈ entries ∧ key first ≤ key entry) := by
  induction entries with
  | nil => simp [insertSorted]
  | cons head rest ih =>
    obtain ⟨hhead, hrest⟩ := pairwise_cons.mp hsort
    rw [insertSorted]
    split
    next hgreater =>
      -- all entries have greater keys
      have hall : ∀ behind ∈ head :: rest, key entry < key behind :=
        forall_mem_cons.mpr ⟨hgreater, fun behind hbehind =>
          Nat.lt_of_lt_of_le hgreater (hhead behind hbehind)⟩
      rw [pair_sublist_cons]
      refine or_congr_right ⟨fun hfst => .inl ⟨hfst.1, hfst.2, hall _ hfst.2⟩, ?_⟩
      rintro (⟨hfst, hmem, -⟩ | ⟨-, hmem, hle⟩)
      · exact ⟨hfst, hmem⟩
      · exact absurd hle (Nat.not_le.mpr (hall _ hmem))
    next hle =>
      have hent : key head ≤ key entry := Nat.not_lt.mp hle
      rw [pair_sublist_cons, pair_sublist_cons, ih hrest, mem_insertSorted]
      constructor
      · rintro ((hold | ⟨hfst, hmem, hless⟩ | ⟨hsnd, hmem, hkey⟩) | ⟨hfst, hsnd | hmem⟩)
        · exact .inl (.inl hold)
        · exact .inr (.inl ⟨hfst, mem_cons_of_mem _ hmem, hless⟩)
        · exact .inr (.inr ⟨hsnd, mem_cons_of_mem _ hmem, hkey⟩)
        · exact .inr (.inr ⟨hsnd, hfst ▸ mem_cons_self, hfst ▸ hent⟩)
        · exact .inl (.inr ⟨hfst, hmem⟩)
      · rintro ((hold | ⟨hfst, hmem⟩) | ⟨hfst, hmem, hless⟩ | ⟨hsnd, hmem, hkey⟩)
        · exact .inl (.inl hold)
        · exact .inr ⟨hfst, .inr hmem⟩
        · rcases mem_cons.mp hmem with rfl | hmem
          · exact absurd hless (Nat.not_lt.mpr hent)
          · exact .inl (.inr (.inl ⟨hfst, hmem, hless⟩))
        · rcases mem_cons.mp hmem with rfl | hmem
          · exact .inr ⟨rfl, .inl hsnd⟩
          · exact .inl (.inr (.inr ⟨hsnd, hmem, hkey⟩))

def sortArrivals (key : β → Nat) (arrivals : List β) : List β :=
  arrivals.foldl (fun entries entry => insertSorted key entry entries) []

theorem sortArrivals_concat (arrivals : List β) (entry : β) :
    sortArrivals key (arrivals ++ [entry]) =
      insertSorted key entry (sortArrivals key arrivals) := by
  rw [sortArrivals, foldl_concat]
  rfl

theorem sortArrivals_sorted (arrivals : List β) :
    (sortArrivals key arrivals).Pairwise fun entry other => key entry ≤ key other := by
  induction arrivals using reverseRecOn with
  | nil => exact .nil
  | append_singleton arrivals entry ih =>
    rw [sortArrivals_concat]
    exact insertSorted_sorted ih

theorem mem_sortArrivals : other ∈ sortArrivals key arrivals ↔ other ∈ arrivals := by
  induction arrivals using reverseRecOn with
  | nil => rfl
  | append_singleton arrivals entry ih =>
    rw [sortArrivals_concat, mem_insertSorted, ih, mem_append, mem_singleton, or_comm]

/-- An entry is before another if its key is less, or equal and it has arrived before. -/
theorem pair_sublist_sortArrivals :
    [first, second].Sublist (sortArrivals key arrivals) ↔
      (first ∈ arrivals ∧ second ∈ arrivals ∧ key first < key second) ∨
        (key first = key second ∧ [first, second].Sublist arrivals) := by
  induction arrivals using reverseRecOn with
  | nil => simp [sortArrivals]
  | append_singleton arrivals entry ih =>
    rw [sortArrivals_concat, pair_sublist_insertSorted (sortArrivals_sorted arrivals), ih,
      mem_sortArrivals, mem_sortArrivals, pair_sublist_concat, mem_append, mem_append,
      mem_singleton, mem_singleton]
    constructor
    · rintro ((⟨hfst, hsnd, hless⟩ | ⟨hkey, hsub⟩) | ⟨rfl, hsnd, hless⟩ |
        ⟨rfl, hfst, hle⟩)
      · exact .inl ⟨.inl hfst, .inl hsnd, hless⟩
      · exact .inr ⟨hkey, .inl hsub⟩
      · exact .inl ⟨.inr rfl, .inl hsnd, hless⟩
      · rcases Nat.eq_or_lt_of_le hle with hkey | hless
        · exact .inr ⟨hkey, .inr ⟨hfst, rfl⟩⟩
        · exact .inl ⟨.inl hfst, .inr rfl, hless⟩
    · rintro (⟨hfst | rfl, hsnd | rfl, hless⟩ | ⟨hkey, hsub | ⟨hfst, rfl⟩⟩)
      · exact .inl (.inl ⟨hfst, hsnd, hless⟩)
      · exact .inr (.inr ⟨rfl, hfst, Nat.le_of_lt hless⟩)
      · exact .inr (.inl ⟨rfl, hsnd, hless⟩)
      · exact absurd hless (Nat.lt_irrefl _)
      · exact .inl (.inr ⟨hkey, hsub⟩)
      · exact .inr (.inr ⟨rfl, hfst, Nat.le_of_eq hkey⟩)

end Order

end HomaSird.SortedCopies
