import HomaSird.Data.SharedCells

/-! # The lists of a shared store, and what an edit of one of them does

An edit happens behind a walk, which is private to one head. Each rule gives the new list of that
head; the lists of all other heads stay what they are.
-/

namespace HomaSird.SharedCells

open List

universe u v

variable {Root : Type u} {Payload : Type v}

inductive Linked (store : SharedCells Root Payload) :
    Option Nat → List (Nat × Payload) → Prop where
  | nil : Linked store none []
  | cons {address : Nat} {cell : Cell Payload} {path : List (Nat × Payload)}
      (hcell : store.cells.lookup address = some cell) (hrest : Linked store cell.next path) :
      Linked store (some address) ((address, cell.payload) :: path)

section Linked

variable {store after : SharedCells Root Payload} {address : Nat} {target : Option Nat}
  {path rest : List (Nat × Payload)}

namespace Linked

section

variable (hlnk : store.Linked target path)
include hlnk

theorem unique (hother : store.Linked target rest) : path = rest := by
  induction hlnk generalizing rest with
  | nil => cases hother; rfl
  | cons hcell _ ih =>
    cases hother with
    | cons hsame hrest =>
      obtain rfl := Option.some.inj (hcell.symm.trans hsame)
      rw [ih hrest]

theorem frame (hsame : ∀ entry ∈ path, ∀ cell, store.cells.lookup entry.1 = some cell → ∃ kept,
    after.cells.lookup entry.1 = some kept ∧ kept.next = cell.next ∧ kept.payload = cell.payload) :
    after.Linked target path := by
  induction hlnk with
  | nil => exact .nil
  | @cons address cell path hcell hrest ih =>
    obtain ⟨kept, hkept, hnext, hload⟩ := hsame _ mem_cons_self cell hcell
    rw [← hload]
    refine .cons hkept ?_
    rw [hnext]
    exact ih fun entry hent => hsame entry (.tail _ hent)

theorem suffix (hmem : address ∈ path.map Prod.fst) :
    ∃ rest, store.Linked (some address) rest ∧ rest.length ≤ path.length := by
  induction hlnk with
  | nil => exact absurd hmem not_mem_nil
  | @cons first cell path hcell hrest ih =>
    rcases mem_cons.mp hmem with rfl | hlater
    · exact ⟨_, .cons hcell hrest, le_rfl⟩
    · obtain ⟨rest, hfound, hle⟩ := ih hlater
      exact ⟨rest, hfound, Nat.le_succ_of_le hle⟩

theorem nodup : (path.map Prod.fst).Nodup := by
  induction hlnk with
  | nil => exact nodup_nil
  | @cons first cell path hcell hrest ih =>
    refine nodup_cons.mpr ⟨fun hmem => ?_, ih⟩
    obtain ⟨again, hagain, hle⟩ := hrest.suffix hmem
    have hsame := (cons hcell hrest).unique hagain
    rw [← hsame, length_cons] at hle
    exact Nat.not_succ_le_self _ hle

end

theorem first_mem (hlnk : store.Linked (some address) path) :
    ∃ entry ∈ path, entry.1 = address := by
  cases hlnk with
  | cons _ _ => exact ⟨_, mem_cons_self, rfl⟩

theorem allocated (hlnk : store.Linked target path) :
    ∀ entry ∈ path, ∃ cell, store.cells.lookup entry.1 = some cell := by
  induction hlnk with
  | nil => exact fun _ hent => absurd hent not_mem_nil
  | cons hcell _ ih => exact forall_mem_cons.mpr ⟨⟨_, hcell⟩, ih⟩

theorem length_le (hlnk : store.Linked target path) : path.length ≤ store.cells.keys.card := by
  have hsub : (path.map Prod.fst).toFinset ⊆ store.cells.keys := by
    intro address hmem
    obtain ⟨entry, hent, rfl⟩ := mem_map.mp (mem_toFinset.mp hmem)
    obtain ⟨cell, hcell⟩ := hlnk.allocated entry hent
    exact Finmap.mem_keys.mpr (Finmap.mem_of_lookup_eq_some hcell)
  have hcard := Finset.card_le_card hsub
  rwa [toFinset_card_of_nodup hlnk.nodup, length_map] at hcard

end Linked

def SameLinks (store after : SharedCells Root Payload) (outside : List Nat) : Prop :=
  ∀ address ∉ outside, ∀ cell, store.cells.lookup address = some cell →
    ∃ kept, after.cells.lookup address = some kept ∧ kept.next = cell.next ∧
      kept.payload = cell.payload

namespace SameLinks

variable {outside : List Nat}

theorem trans {final : SharedCells Root Payload} (hfst : SameLinks store after outside)
    (hsnd : SameLinks after final outside) : SameLinks store final outside := by
  intro address hout cell hcell
  obtain ⟨kept, hkept, hnext, hload⟩ := hfst address hout cell hcell
  obtain ⟨last, hlast, hnextLast, hpayloadLast⟩ := hsnd address hout kept hkept
  exact ⟨last, hlast, hnextLast.trans hnext, hpayloadLast.trans hload⟩

theorem linked (hsame : SameLinks store after outside) (hlnk : store.Linked target path)
    (hout : ∀ entry ∈ path, entry.1 ∉ outside) : after.Linked target path :=
  hlnk.frame fun entry hent => hsame entry.1 (hout entry hent)

end SameLinks

end Linked

variable [DecidableEq Root]

inductive Walk (store : SharedCells Root Payload) :
    Slot Root → List (Nat × Payload) → Slot Root → Prop where
  | nil (slot : Slot Root) : Walk store slot [] slot
  | cons {slot last : Slot Root} {address : Nat} {cell : Cell Payload}
      {path : List (Nat × Payload)} (hslot : store.get slot = some (some address))
      (hcell : store.cells.lookup address = some cell) (howned : cell.count = 1)
      (hrest : Walk store (.next address) path last) :
      Walk store slot ((address, cell.payload) :: path) last

/-- Every count is the number of references, and no cell outlives the last of them. -/
structure Counted (store : SharedCells Root Payload) : Prop where
  counts : ∀ address, store.countOf address = store.refs address
  live : ∀ address ∈ store.cells, 0 < store.countOf address ∧ address < store.fresh

structure Rewrites (store after : SharedCells Root Payload) (root : Root)
    (path : List (Nat × Payload)) : Prop where
  counted : after.Counted
  own : ∃ target, after.heads.lookup root = some target ∧ after.Linked target path
  heads : ∀ other, other ≠ root → after.heads.lookup other = store.heads.lookup other
  others : ∀ other target kept, other ≠ root → store.heads.lookup other = some target →
    store.Linked target kept → after.Linked target kept

variable {store after final : SharedCells Root Payload} {address : Nat} {cell : Cell Payload}
  {slot holder start last : Slot Root} {target : Option Nat} {root : Root} {payload : Payload}
  {path done rest : List (Nat × Payload)}

theorem Rewrites.refl (hcnt : store.Counted)
    (hown : ∃ target, store.heads.lookup root = some target ∧ store.Linked target path) :
    Rewrites store store root path :=
  ⟨hcnt, hown, fun _ _ => rfl, fun _ _ _ _ _ hkept => hkept⟩

theorem Rewrites.trans (hfst : Rewrites store after root path)
    (hsnd : Rewrites after final root rest) : Rewrites store final root rest where
  counted := hsnd.counted
  own := hsnd.own
  heads other hne := (hsnd.heads other hne).trans (hfst.heads other hne)
  others other target kept hne hhead hlnk :=
    hsnd.others other target kept hne ((hfst.heads other hne).trans hhead)
      (hfst.others other target kept hne hhead hlnk)

namespace Walk

section

variable (hwalk : store.Walk start done last)
include hwalk

theorem snoc (hslot : store.get last = some (some address))
    (hcell : store.cells.lookup address = some cell) (howned : cell.count = 1) :
    store.Walk start (done ++ [(address, cell.payload)]) (.next address) := by
  induction hwalk with
  | nil slot => exact .cons hslot hcell howned (.nil _)
  | cons hfst hpassed hone _ ih => exact .cons hfst hpassed hone (ih hslot)

theorem linked (hslot : store.get last = some target) (hlnk : store.Linked target rest) :
    ∃ first, store.get start = some first ∧ store.Linked first (done ++ rest) := by
  induction hwalk with
  | nil slot => exact ⟨target, hslot, hlnk⟩
  | @cons slot last address cell path hfst hcell _ _ ih =>
    obtain ⟨first, hget, hrest⟩ := ih hslot
    obtain rfl : cell.next = first := by
      rw [get, hcell] at hget
      exact Option.some.inj hget
    exact ⟨some address, hfst, .cons hcell hrest⟩

theorem last_eq : last = start ∨ ∃ passed ∈ done.map Prod.fst, last = .next passed := by
  induction hwalk with
  | nil slot => exact .inl rfl
  | @cons slot last address cell path _ _ _ _ ih =>
    rcases ih with rfl | ⟨passed, hmem, rfl⟩
    · exact .inr ⟨address, mem_cons_self, rfl⟩
    · exact .inr ⟨passed, mem_cons_of_mem _ hmem, rfl⟩

theorem cell_of_mem (hmem : address ∈ done.map Prod.fst) :
    ∃ cell, store.cells.lookup address = some cell ∧ cell.count = 1 := by
  induction hwalk with
  | nil slot => exact absurd hmem not_mem_nil
  | cons _ hcell howned _ ih =>
    rcases mem_cons.mp hmem with rfl | hlater
    · exact ⟨_, hcell, howned⟩
    · exact ih hlater

theorem holder_of_mem (hmem : address ∈ done.map Prod.fst) :
    ∃ holder,
      store.get holder = some (some address) ∧
        (holder = start ∨ ∃ passed ∈ done.map Prod.fst, holder = .next passed) := by
  induction hwalk with
  | nil slot => exact absurd hmem not_mem_nil
  | @cons slot last first cell path hslot _ _ _ ih =>
    rcases mem_cons.mp hmem with rfl | hlater
    · exact ⟨slot, hslot, .inl rfl⟩
    · obtain ⟨holder, hholder, rfl | ⟨passed, hpassed, rfl⟩⟩ := ih hlater
      · exact ⟨_, hholder, .inr ⟨first, mem_cons_self, rfl⟩⟩
      · exact ⟨_, hholder, .inr ⟨passed, mem_cons_of_mem _ hpassed, rfl⟩⟩

end

theorem private_of_counted (hcounted : store.Counted) (hwalk : store.Walk start done last)
    (hmem : address ∈ done.map Prod.fst) (hslot : store.get slot = some (some address)) :
    slot = start ∨ ∃ passed ∈ done.map Prod.fst, slot = .next passed := by
  obtain ⟨holder, hholder, hinside⟩ := hwalk.holder_of_mem hmem
  obtain ⟨cell, hcell, howned⟩ := hwalk.cell_of_mem hmem
  by_cases hsame : slot = holder
  · exact hsame ▸ hinside
  · have htwo := two_le_refs hholder hslot hsame
    have hcnt := hcounted.counts address
    rw [countOf_eq hcell, howned] at hcnt
    omega

theorem avoids (holder : Slot Root) (hcnt : store.Counted)
    (hwalk : store.Walk (.head root) done last) (hlnk : store.Linked target path)
    (hholder : store.get holder = some target) (hne : holder ≠ .head root)
    (hout : ∀ passed ∈ done.map Prod.fst, holder ≠ .next passed) :
    ∀ entry ∈ path, entry.1 ∉ done.map Prod.fst := by
  induction hlnk generalizing holder with
  | nil => exact fun _ hent => absurd hent not_mem_nil
  | @cons first cell path hcell hrest ih =>
    have hfst : first ∉ done.map Prod.fst := by
      intro hmem
      rcases hwalk.private_of_counted hcnt hmem hholder with hstart | ⟨passed, hin, heq⟩
      · exact hne hstart
      · exact hout passed hin heq
    refine forall_mem_cons.mpr ⟨hfst, ?_⟩
    refine ih (.next first) (by rw [get, hcell]; rfl) (fun heq => nomatch heq) ?_
    intro passed hpassed heq
    exact hfst (Slot.next.inj heq ▸ hpassed)

theorem keep (target : Option Nat) (hwalk : store.Walk start done last)
    (hnodup : (done.map Prod.fst).Nodup)
    (hstart : ∀ passed ∈ done.map Prod.fst, start ≠ .next passed)
    (hget : after.get start = (store.set last target).get start)
    (hcells : ∀ passed ∈ done.map Prod.fst,
      after.cells.lookup passed = (store.set last target).cells.lookup passed) :
    after.Walk start done last := by
  induction hwalk with
  | nil slot => exact .nil slot
  | @cons slot last first cell path hslot hcell howned hrest ih =>
    obtain ⟨hnot, hlater⟩ := nodup_cons.mp hnodup
    obtain ⟨hfst, hothers⟩ := forall_mem_cons.mp hcells
    have hne : slot ≠ last := by
      rcases hrest.last_eq with rfl | ⟨passed, hmem, rfl⟩
      · exact hstart first mem_cons_self
      · exact hstart passed (.tail _ hmem)
    rw [get_set_ne hne] at hget
    obtain ⟨kept, hkept, hcnt, hload⟩ : ∃ kept, after.cells.lookup first = some kept ∧
        kept.count = 1 ∧ kept.payload = cell.payload := by
      rw [hfst, cells_set, hcell]
      split
      · exact ⟨_, rfl, howned, rfl⟩
      · exact ⟨_, rfl, howned, rfl⟩
    rw [← hload]
    refine .cons (hget.trans hslot) hkept hcnt (ih hlater ?_ ?_ hothers)
    · exact fun passed hmem heq => hnot (Slot.next.inj heq ▸ hmem)
    · rw [get, get, hfst]

end Walk

/-! ## Edits -/

namespace SameLinks

variable {outside : List Nat}

theorem of_set (hslot : ∀ address, slot = .next address → address ∈ outside)
    (target : Option Nat) : SameLinks store (store.set slot target) outside := by
  intro address hout cell hcell
  refine ⟨cell, ?_, rfl, rfl⟩
  rw [cells_set, if_neg (fun heq => hout (hslot address heq)), hcell]

omit [DecidableEq Root]

theorem of_adjust (changed : Nat) (change : Nat → Nat) :
    SameLinks store (store.adjust changed change) outside := by
  intro address _ cell hcell
  rw [cells_adjust, hcell]
  split
  · exact ⟨_, rfl, rfl, rfl⟩
  · exact ⟨_, rfl, rfl, rfl⟩

theorem of_adjustTarget (target : Option Nat) (change : Nat → Nat) :
    SameLinks store (store.adjustTarget target change) outside := by
  cases target with
  | none => exact fun _ _ cell hcell => ⟨cell, hcell, rfl, rfl⟩
  | some changed => exact of_adjust changed change

theorem of_alloc (hfresh : store.fresh ∉ store.cells) (cell : Cell Payload) :
    SameLinks store (store.alloc cell) outside := by
  intro address _ kept hkept
  have hne : address ≠ store.fresh := by
    rintro rfl
    exact hfresh (mem_cells.mpr ⟨kept, hkept⟩)
  refine ⟨kept, ?_, rfl, rfl⟩
  rw [cells_alloc, if_neg hne, hkept]

theorem of_free (hmem : address ∈ outside) : SameLinks store (store.free address) outside := by
  intro other hout cell hcell
  refine ⟨cell, ?_, rfl, rfl⟩
  rw [cells_free, if_neg (ne_of_mem_of_not_mem hmem hout).symm, hcell]

theorem of_overwrite (hmem : address ∈ outside) (payload : Payload) :
    SameLinks store (store.overwrite address payload) outside := by
  intro other hout cell hcell
  refine ⟨cell, ?_, rfl, rfl⟩
  rw [cells_overwrite, if_neg (ne_of_mem_of_not_mem hmem hout).symm, hcell]

end SameLinks

theorem Walk.kept {old : Option Nat} (hwalk : store.Walk (.head root) done slot)
    (hslot : store.get slot = some old) (hlist : store.Linked old rest)
    (hheads : ∀ root, after.heads.lookup root = (store.set slot target).heads.lookup root)
    (hcells : ∀ passed ∈ done.map Prod.fst,
      after.cells.lookup passed = (store.set slot target).cells.lookup passed) :
    after.Walk (.head root) done slot ∧ after.get slot = some target := by
  obtain ⟨first, -, hwhole⟩ := hwalk.linked hslot hlist
  have hnodup := hwhole.nodup
  rw [map_append] at hnodup
  refine ⟨hwalk.keep target (nodup_append.mp hnodup).1
    (fun _ _ heq => nomatch heq) (hheads root) hcells, ?_⟩
  have hset := get_set_self hslot target
  rcases hwalk.last_eq with rfl | ⟨passed, hmem, rfl⟩
  · exact (hheads root).trans hset
  · rw [get, hcells passed hmem]
    exact hset

theorem Rewrites.of_walk {owned : List (Nat × Payload)} {old : Option Nat} (target : Option Nat)
    (hcnt : store.Counted) (hwalk : store.Walk (.head root) done slot)
    (hslot : store.get slot = some old) (hlist : store.Linked old rest)
    (howned : store.Walk (.head root) owned last) (hafter : after.Counted)
    (hheads : ∀ root, after.heads.lookup root = (store.set slot target).heads.lookup root)
    (hcells : ∀ passed ∈ done.map Prod.fst,
      after.cells.lookup passed = (store.set slot target).cells.lookup passed)
    (hsame : SameLinks store after (owned.map Prod.fst)) (hpath : after.Linked target path) :
    Rewrites store after root (done ++ path) where
  counted := hafter
  own := by
    obtain ⟨hkept, hget⟩ := hwalk.kept hslot hlist hheads hcells
    exact hkept.linked hget hpath
  heads other hne := by
    rw [hheads, heads_set]
    rcases hwalk.last_eq with rfl | ⟨passed, _, rfl⟩
    · exact if_neg fun heq => hne (Slot.head.inj heq).symm
    · exact if_neg fun heq => nomatch heq
  others other target kept hne hhead hlnk := by
    refine hsame.linked hlnk (howned.avoids (.head other) hcnt hlnk hhead ?_ ?_)
    · exact fun heq => hne (Slot.head.inj heq)
    · exact fun _ _ heq => nomatch heq

theorem Rewrites.of_head {old : Option Nat} (target : Option Nat) (hcnt : store.Counted)
    (hhead : store.heads.lookup root = some old) (hlist : store.Linked old rest)
    (hafter : after.Counted)
    (hheads :
      ∀ other, after.heads.lookup other = (store.set (.head root) target).heads.lookup other)
    (hsame : SameLinks store after []) (hpath : after.Linked target path) :
    Rewrites store after root path :=
  Rewrites.of_walk target hcnt (.nil _) hhead hlist (.nil _) hafter hheads
    (fun _ hmem => absurd hmem not_mem_nil) hsame hpath

end HomaSird.SharedCells
