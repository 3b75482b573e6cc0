import HomaSird.Data.SharedLists

/-! # The edits of a shared list

One rule for each way a list changes: a cell is unlinked, copied or written over behind a walk, a
cell is put before the list, a head takes a reference to another list or lets its list go.
-/

namespace HomaSird.SharedCells

open SameLinks List

universe u v

variable {Root : Type u} {Payload : Type v} [DecidableEq Root]
variable {store : SharedCells Root Payload} {address : Nat} {cell : Cell Payload}
  {slot : Slot Root} {target : Option Nat} {root : Root} {payload : Payload}
  {path done rest : List (Nat × Payload)}

omit [DecidableEq Root] in
theorem Counted.fresh_not_mem (hcounted : store.Counted) : store.fresh ∉ store.cells :=
  fun hmem => lt_irrefl _ (hcounted.live _ hmem).2

omit [DecidableEq Root] in
theorem Counted.refs_fresh (hcounted : store.Counted) : store.refs store.fresh = 0 := by
  rw [← hcounted.counts, countOf, Finmap.lookup_eq_none.mpr hcounted.fresh_not_mem]
  rfl

omit [DecidableEq Root] in
theorem Linked.mem_of_target (hlnk : store.Linked target path) :
    ∀ address, target = some address → address ∈ store.cells := by
  rintro address rfl
  obtain ⟨entry, hent, rfl⟩ := hlnk.first_mem
  exact mem_cells.mpr (hlnk.allocated entry hent)

omit [DecidableEq Root] in
theorem Linked.target_ne {outside : List Nat}
    (hlnk : store.Linked target path) (hout : ∀ entry ∈ path, entry.1 ∉ outside)
    (hmem : address ∈ outside) : ∀ held, target = some held → address ≠ held := by
  rintro held rfl rfl
  obtain ⟨entry, hent, rfl⟩ := hlnk.first_mem
  exact hout entry hent hmem

section

variable (hwalk : store.Walk (.head root) done slot)
include hwalk

theorem Walk.apart (hslot : store.get slot = some (some address))
    (hcell : store.cells.lookup address = some cell) (hlnk : store.Linked cell.next rest) :
    address ∉ done.map Prod.fst ∧
      ∀ entry ∈ rest, entry.1 ∉ done.map Prod.fst ∧ entry.1 ≠ address := by
  obtain ⟨first, -, hwhole⟩ := hwalk.linked hslot (.cons hcell hlnk)
  have hnodup := hwhole.nodup
  rw [map_append, nodup_append] at hnodup
  obtain ⟨-, hbehind, hdisj⟩ := hnodup
  obtain ⟨hnot, -⟩ := nodup_cons.mp hbehind
  refine ⟨fun hmem => hdisj _ hmem _ mem_cons_self rfl, fun entry hent => ?_⟩
  have hmem := mem_map_of_mem (f := Prod.fst) hent
  refine ⟨fun hdone => hdisj _ hdone _ (.tail _ hmem) rfl, ?_⟩
  rintro rfl
  exact hnot hmem

theorem Walk.slot_ne (hnot : address ∉ done.map Prod.fst) : slot ≠ .next address := by
  rcases hwalk.last_eq with rfl | ⟨passed, hmem, rfl⟩
  · exact fun heq => nomatch heq
  · exact fun heq => hnot (Slot.next.inj heq ▸ hmem)

theorem Walk.slot_mem : ∀ address, slot = .next address → address ∈ done.map Prod.fst := by
  rintro address rfl
  rcases hwalk.last_eq with heq | ⟨passed, hmem, heq⟩
  · exact nomatch heq
  · exact Slot.next.inj heq ▸ hmem

end

section Behind

variable (hcounted : store.Counted) (hwalk : store.Walk (.head root) done slot)
  (hslot : store.get slot = some (some address))
  (hcell : store.cells.lookup address = some cell) (hlnk : store.Linked cell.next rest)
include hcounted hwalk hslot hcell hlnk

theorem unlink_owned (howned : cell.count = 1) :
    Rewrites store ((store.set slot cell.next).free address) root (done ++ rest) := by
  obtain ⟨hnot, hapart⟩ := hwalk.apart hslot hcell hlnk
  have hkept : (store.set slot cell.next).cells.lookup address = some cell := by
    rw [cells_set, if_neg (hwalk.slot_ne hnot), hcell]
  have hsnoc := hwalk.snoc hslot hcell howned
  have hsame : SameLinks store ((store.set slot cell.next).free address)
      ((done ++ [(address, cell.payload)]).map Prod.fst) := by
    refine (of_set (fun other heq => ?_) cell.next).trans (of_free ?_)
    · rw [map_append]
      exact mem_append_left _ (hwalk.slot_mem other heq)
    · simp
  refine Rewrites.of_walk cell.next hcounted hwalk hslot (.cons hcell hlnk) hsnoc
    ?_ (fun _ => rfl) ?_ hsame (hsame.linked hlnk ?_)
  · constructor
    · intro other
      have hset := refs_set hslot cell.next other
      have hfree := refs_free hkept other
      have hcounts := hcounted.counts other
      rw [countOf_free, countOf_set]
      rw [hits_some] at hset
      split
      next heq =>
        rw [heq, countOf_eq hcell] at hcounts
        rw [heq, if_pos rfl] at hset
        rw [heq] at hfree
        rw [heq]
        omega
      next hne =>
        rw [if_neg hne] at hset
        omega
    · intro other hmem
      obtain ⟨hne, hold⟩ := (mem_free _ _).mp hmem
      have hlive := hcounted.live other ((mem_set _ _ _).mp hold)
      rwa [countOf_free, if_neg hne, countOf_set, fresh_free, fresh_set]
  · intro passed hmem
    rw [cells_free, if_neg (ne_of_mem_of_not_mem hmem hnot)]
  · intro entry hent
    obtain ⟨hdone, hne⟩ := hapart entry hent
    simp only [map_append, map_cons, map_nil, mem_append, mem_singleton, not_or]
    exact ⟨hdone, hne⟩

theorem unlink_shared (hshared : 1 < cell.count) :
    Rewrites store
      (((store.set slot cell.next).adjust address (· - 1)).adjustTarget cell.next (· + 1)) root
      (done ++ rest) := by
  obtain ⟨hnot, hapart⟩ := hwalk.apart hslot hcell hlnk
  have hkept : (store.set slot cell.next).cells.lookup address = some cell := by
    rw [cells_set, if_neg (hwalk.slot_ne hnot), hcell]
  have hsame : SameLinks store (((store.set slot cell.next).adjust address (· - 1)).adjustTarget
      cell.next (· + 1)) (done.map Prod.fst) :=
    ((of_set hwalk.slot_mem cell.next).trans (.of_adjust _ _)).trans
      (.of_adjustTarget _ _)
  have hnext : ∀ other, cell.next = some other →
      other ∈ ((store.set slot cell.next).adjust address (· - 1)).cells := by
    intro other heq
    rw [mem_adjust, mem_set]
    exact hlnk.mem_of_target other heq
  refine Rewrites.of_walk cell.next hcounted hwalk hslot (.cons hcell hlnk) hwalk
    ?_ (fun _ => ?_) ?_ hsame (hsame.linked hlnk fun entry hent => (hapart entry hent).1)
  · have hcnt : ∀ other, (((store.set slot cell.next).adjust address (· - 1)).adjustTarget
        cell.next (· + 1)).countOf other =
        (if other = address then cell.count - 1 else store.countOf other) +
          hits cell.next other := by
      intro other
      rw [countOf_retain hnext, countOf_adjust hkept, countOf_set]
    constructor
    · intro other
      have hset := refs_set hslot cell.next other
      have hcounts := hcounted.counts other
      rw [hcnt, refs_adjustTarget, refs_adjust]
      rw [hits_some] at hset
      split
      next heq =>
        rw [heq, countOf_eq hcell] at hcounts
        rw [heq, if_pos rfl] at hset
        rw [heq]
        omega
      next hne =>
        rw [if_neg hne] at hset
        omega
    · intro other hmem
      rw [mem_adjustTarget, mem_adjust, mem_set] at hmem
      obtain ⟨hpos, hlt⟩ := hcounted.live other hmem
      rw [hcnt, fresh_adjustTarget, fresh_adjust, fresh_set]
      refine ⟨?_, hlt⟩
      split <;> omega
  · rw [heads_adjustTarget, heads_adjust]
  · intro passed hmem
    have hne := hlnk.target_ne (fun entry hent => (hapart entry hent).1) hmem
    rw [cells_adjustTarget_of_ne hne, cells_adjust, if_neg (ne_of_mem_of_not_mem hmem hnot)]

/-- A shared cell gives way to a copy that may say something else; the walk goes on to the copy. -/
theorem copy_shared (hshared : 1 < cell.count) (payload : Payload) :
    let after := (((store.adjust address (· - 1)).alloc ⟨cell.next, 1, payload⟩).adjustTarget
      cell.next (· + 1)).set slot (some store.fresh)
    Rewrites store after root (done ++ (store.fresh, payload) :: rest) ∧
      after.Walk (.head root) (done ++ [(store.fresh, payload)]) (.next store.fresh) ∧
      after.get (.next store.fresh) = some cell.next ∧ after.Linked cell.next rest ∧
      ∀ other, other ≠ store.fresh → after.countOf other =
        (if other = address then cell.count - 1 else store.countOf other) +
          hits cell.next other := by
  intro after
  obtain ⟨hnot, hapart⟩ := hwalk.apart hslot hcell hlnk
  have hfresh := hcounted.fresh_not_mem
  have hmem := mem_cells.mpr ⟨cell, hcell⟩
  -- the pointer retained by the copy is to a cell that is there, and not to the copy
  have hnext : ∀ other, cell.next = some other →
      other ∈ ((store.adjust address (· - 1)).alloc ⟨cell.next, 1, payload⟩).cells := by
    intro other heq
    rw [mem_alloc, mem_adjust]
    exact .inr (hlnk.mem_of_target other heq)
  have hnextNe : ∀ other, cell.next = some other → store.fresh ≠ other := by
    rintro other heq rfl
    exact hfresh (hlnk.mem_of_target _ heq)
  have hdone : ∀ passed ∈ done.map Prod.fst, passed ≠ store.fresh := by
    rintro passed hpassed rfl
    obtain ⟨kept, hkept, -⟩ := hwalk.cell_of_mem hpassed
    exact hfresh (mem_cells.mpr ⟨kept, hkept⟩)
  have hcnt : ∀ other, after.countOf other =
      (if other = store.fresh then 1
        else if other = address then cell.count - 1 else store.countOf other) +
          hits cell.next other := by
    intro other
    rw [countOf_set, countOf_retain hnext, countOf_alloc, fresh_adjust, countOf_adjust hcell]
  have hsame : SameLinks store after (done.map Prod.fst) := by
    refine (((of_adjust address _).trans (.of_alloc ?_ _)).trans
      (.of_adjustTarget _ _)).trans (.of_set hwalk.slot_mem _)
    rwa [fresh_adjust, mem_adjust]
  have hbehind := hsame.linked hlnk fun entry hent => (hapart entry hent).1
  -- what the walk went through is as if only its last pointer had been set
  have hcells : ∀ passed ∈ done.map Prod.fst,
      after.cells.lookup passed = (store.set slot (some store.fresh)).cells.lookup passed := by
    intro passed hpassed
    have hne := hlnk.target_ne (fun entry hent => (hapart entry hent).1) hpassed
    rw [cells_set, cells_adjustTarget_of_ne hne, cells_alloc, fresh_adjust,
      if_neg (hdone passed hpassed), cells_adjust, if_neg (ne_of_mem_of_not_mem hpassed hnot),
      cells_set]
  have hcopy : after.cells.lookup store.fresh = some ⟨cell.next, 1, payload⟩ := by
    have hslotNe := hwalk.slot_ne fun hin => hdone _ hin rfl
    rw [cells_set, if_neg hslotNe, cells_adjustTarget_of_ne hnextNe, cells_alloc, fresh_adjust,
      if_pos rfl]
  have hheads : ∀ root, after.heads.lookup root =
      (store.set slot (some store.fresh)).heads.lookup root := by
    intro root
    rw [heads_set, heads_set, heads_adjustTarget]
    exact congrArg _ (congrArg _ (heads_adjust _ _))
  have hheld : (((store.adjust address (· - 1)).alloc ⟨cell.next, 1, payload⟩).adjustTarget
      cell.next (· + 1)).get slot = some (some address) := by
    rcases hwalk.last_eq with rfl | ⟨passed, hpassed, rfl⟩
    · rw [get, heads_adjustTarget]
      exact (congrArg _ (heads_adjust _ _)).trans hslot
    · have hne := hlnk.target_ne (fun entry hent => (hapart entry hent).1) hpassed
      rw [get, cells_adjustTarget_of_ne hne, cells_alloc, fresh_adjust,
        if_neg (hdone passed hpassed), cells_adjust, if_neg (ne_of_mem_of_not_mem hpassed hnot)]
      exact hslot
  have hwrites : Rewrites store after root (done ++ (store.fresh, payload) :: rest) := by
    refine Rewrites.of_walk (some store.fresh) hcounted hwalk hslot
      (.cons hcell hlnk) hwalk ?_ hheads hcells hsame (.cons hcopy hbehind)
    have hfreshNone : (store.adjust address (· - 1)).cells.lookup store.fresh = none := by
      rwa [Finmap.lookup_eq_none, mem_adjust]
    constructor
    · intro other
      have hcounts := hcounted.counts other
      have halloc : ((store.adjust address (· - 1)).alloc ⟨cell.next, 1, payload⟩).refs other =
          store.refs other + hits cell.next other := by
        rw [refs_alloc (by rwa [fresh_adjust]), refs_adjust]
      -- the copy takes over the pointer of the walk; the old cell loses it, the next gains one
      have hset := refs_set hheld (some store.fresh) other
      rw [refs_adjustTarget, halloc, hits_some, hits_some] at hset
      rw [hcnt]
      change _ = (SharedCells.set _ slot (some store.fresh)).refs other
      by_cases hnew : other = store.fresh
      · have hrefs := hcounted.refs_fresh
        have hne : store.fresh ≠ address := fun heq => hfresh (heq ▸ hmem)
        rw [hnew, if_pos rfl, if_neg hne] at hset
        rw [hnew, if_pos rfl]
        omega
      · rw [if_neg hnew] at hset ⊢
        by_cases heq : other = address
        · rw [heq, if_pos rfl] at hset ⊢
          rw [heq, countOf_eq hcell] at hcounts
          omega
        · rw [if_neg heq] at hset ⊢
          omega
    · intro other hother
      rw [mem_set, mem_adjustTarget, mem_alloc, fresh_adjust, mem_adjust] at hother
      rw [hcnt, fresh_set, fresh_adjustTarget]
      change _ ∧ other < (store.adjust address (· - 1)).fresh + 1
      rw [fresh_adjust]
      rcases hother with rfl | hold
      · rw [if_pos rfl]
        omega
      · obtain ⟨hpos, hlt⟩ := hcounted.live other hold
        rw [if_neg (ne_of_lt hlt)]
        refine ⟨?_, Nat.lt_succ_of_lt hlt⟩
        split <;> omega
  refine ⟨hwrites, ?_, ?_, hbehind, ?_⟩
  · obtain ⟨hkept, hget⟩ := hwalk.kept hslot (.cons hcell hlnk) hheads hcells
    exact hkept.snoc hget hcopy rfl
  · rw [get, hcopy]
    rfl
  · intro other hne
    rw [hcnt, if_neg hne]

theorem overwrite_owned (howned : cell.count = 1) (payload : Payload) :
    Rewrites store (store.overwrite address payload) root (done ++ (address, payload) :: rest) := by
  obtain ⟨hnot, hapart⟩ := hwalk.apart hslot hcell hlnk
  have hsnoc := hwalk.snoc hslot hcell howned
  have hsame : SameLinks store (store.overwrite address payload)
      ((done ++ [(address, cell.payload)]).map Prod.fst) := .of_overwrite (by simp) payload
  have hbehind := hsame.linked hlnk (fun entry hent => by
    obtain ⟨hdone, hne⟩ := hapart entry hent
    simp only [map_append, map_cons, map_nil, mem_append, mem_singleton, not_or]
    exact ⟨hdone, hne⟩)
  have hself : (store.overwrite address payload).cells.lookup address =
      some { cell with payload := payload } := by
    rw [cells_overwrite, if_pos rfl, hcell]
    rfl
  refine Rewrites.of_walk (some address) hcounted hwalk hslot (.cons hcell hlnk) hsnoc
    ⟨fun other => ?_, fun other hmem => ?_⟩ (fun other => ?_) (fun passed hpassed => ?_) hsame
    (.cons hself hbehind)
  · rw [countOf_overwrite, refs_overwrite, hcounted.counts]
  · rw [countOf_overwrite, fresh_overwrite]
    exact hcounted.live other ((mem_overwrite _ _ _).mp hmem)
  · rw [heads_overwrite, heads_set_same hslot]
  · rw [cells_overwrite, if_neg (ne_of_mem_of_not_mem hpassed hnot), cells_set_same hslot]

end Behind

theorem push (hcounted : store.Counted) (hhead : store.heads.lookup root = some target)
    (hlnk : store.Linked target path) (payload : Payload) :
    Rewrites store ((store.alloc ⟨target, 1, payload⟩).set (.head root) (some store.fresh)) root
      ((store.fresh, payload) :: path) := by
  have hfresh := hcounted.fresh_not_mem
  have hsame : SameLinks store ((store.alloc ⟨target, 1, payload⟩).set (.head root)
      (some store.fresh)) [] :=
    (of_alloc hfresh _).trans (.of_set (fun _ heq => by cases heq) _)
  have hself : ((store.alloc ⟨target, 1, payload⟩).set (.head root) (some store.fresh)).cells.lookup
      store.fresh = some ⟨target, 1, payload⟩ := by
    rw [cells_set, if_neg (fun heq => nomatch heq), cells_alloc, if_pos rfl]
  refine Rewrites.of_head (some store.fresh) hcounted hhead hlnk
    ⟨fun other => ?_, fun other hmem => ?_⟩ (fun other => ?_) hsame
    (.cons hself (hsame.linked hlnk fun _ _ => not_mem_nil))
  · have hcounts := hcounted.counts other
    have hheld : (store.alloc ⟨target, 1, payload⟩).get (.head root) = some target := hhead
    have hset := refs_set hheld (some store.fresh) other
    have halloc : (store.alloc ⟨target, 1, payload⟩).refs other =
        store.refs other + hits target other :=
      refs_alloc (Finmap.lookup_eq_none.mpr hfresh) _ _
    rw [halloc, hits_some] at hset
    rw [countOf_set, countOf_alloc]
    split
    next heq =>
      have hrefs := hcounted.refs_fresh
      rw [heq, if_pos rfl] at hset
      rw [heq]
      change 1 = _
      omega
    next hne =>
      rw [if_neg hne] at hset
      omega
  · rw [mem_set, mem_alloc] at hmem
    rw [countOf_set, countOf_alloc, fresh_set]
    change _ ∧ other < store.fresh + 1
    rcases hmem with rfl | hold
    · rw [if_pos rfl]
      exact ⟨Nat.one_pos, Nat.lt_succ_self _⟩
    · obtain ⟨hpos, hlt⟩ := hcounted.live other hold
      rw [if_neg (ne_of_lt hlt)]
      exact ⟨hpos, Nat.lt_succ_of_lt hlt⟩
  · rw [heads_set, heads_set]
    rfl

theorem share (hcounted : store.Counted)
    (hroot : (store.heads.lookup root).join = none) (hlnk : store.Linked target path) :
    Rewrites store ((store.set (.head root) target).adjustTarget target (· + 1)) root path := by
  have hsame : SameLinks store ((store.set (.head root) target).adjustTarget target (· + 1)) [] :=
    (of_set (fun _ heq => by cases heq) _).trans (.of_adjustTarget _ _)
  have hlist := hsame.linked hlnk fun _ _ => not_mem_nil
  have hheads : ∀ other, ((store.set (.head root) target).adjustTarget target
      (· + 1)).heads.lookup other =
        if root = other then some target else store.heads.lookup other := by
    intro other
    rw [heads_adjustTarget, heads_set]
    simp only [Slot.head.injEq]
  have hcnt : ∀ other, ((store.set (.head root) target).adjustTarget target
      (· + 1)).countOf other = store.countOf other + hits target other := by
    intro other
    rw [countOf_retain (fun held heq => (mem_set _ _ _).mpr (hlnk.mem_of_target held heq)),
      countOf_set]
  refine ⟨⟨fun other => ?_, fun other hmem => ?_⟩, ⟨target, ?_, hlist⟩, fun other hne => ?_,
    fun other held kept hne _ hkept => hsame.linked hkept fun _ _ => not_mem_nil⟩
  · have hcounts := hcounted.counts other
    rw [hcnt, refs_adjustTarget]
    cases hold : store.heads.lookup root with
    | none =>
      rw [refs_set_new hold]
      omega
    | some old =>
      rw [hold] at hroot
      obtain rfl : old = none := hroot
      have hheld : store.get (.head root) = some none := hold
      have hset := refs_set hheld target other
      rw [hits_none] at hset
      omega
  · rw [mem_adjustTarget, mem_set] at hmem
    obtain ⟨hpos, hlt⟩ := hcounted.live other hmem
    rw [hcnt, fresh_adjustTarget, fresh_set]
    omega
  · rw [hheads, if_pos rfl]
  · rw [hheads, if_neg (Ne.symm hne)]

/-- A head lets go of a list that others still hold. -/
theorem release_shared (hcounted : store.Counted) (hhead :
    store.heads.lookup root = some (some address)) (hcell : store.cells.lookup address = some cell)
    (hlnk : store.Linked cell.next rest) (hshared : 1 < cell.count) :
    Rewrites store ((store.adjust address (· - 1)).set (.head root) none) root [] := by
  have hsame : SameLinks store ((store.adjust address (· - 1)).set (.head root) none) [] :=
    (of_adjust _ _).trans (.of_set (fun _ heq => by cases heq) _)
  have hheads : (store.adjust address (· - 1)).get (.head root) = some (some address) :=
    (congrArg _ (heads_adjust _ _)).trans hhead
  refine Rewrites.of_head none hcounted hhead (.cons hcell hlnk)
    ⟨fun other => ?_, fun other hmem => ?_⟩ (fun other => ?_) hsame .nil
  · have hcounts := hcounted.counts other
    have hset := refs_set hheads none other
    rw [refs_adjust, hits_some, hits_none] at hset
    rw [countOf_set, countOf_adjust hcell]
    split
    next heq =>
      rw [heq, countOf_eq hcell] at hcounts
      rw [heq, if_pos rfl] at hset
      rw [heq]
      omega
    next hne =>
      rw [if_neg hne] at hset
      omega
  · rw [mem_set, mem_adjust] at hmem
    obtain ⟨hpos, hlt⟩ := hcounted.live other hmem
    rw [countOf_set, countOf_adjust hcell, fresh_set, fresh_adjust]
    refine ⟨?_, hlt⟩
    split <;> omega
  · rw [heads_set, heads_set, heads_adjust]

/-- A head without a list is dropped. -/
def forget (store : SharedCells Root Payload) (root : Root) : SharedCells Root Payload :=
  { store with heads := store.heads.erase root }

theorem Counted.forget (hcounted : store.Counted) (hroot : store.heads.lookup root = some none) :
    (store.forget root).Counted where
  counts other := by
    have htally := tally_erase (fun target => target == some other) store.heads root
    rw [hroot] at htally
    exact (hcounted.counts other).trans (congrArg (· + _) htally.symm)
  live := hcounted.live

end HomaSird.SharedCells
