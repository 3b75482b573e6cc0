import HomaSird.Network.PacketTagList

/-! # What the loops along a tag list do

Each loop ends on a list that ends, and the copying loop leaves every other list alone.
-/

namespace HomaSird.Network.PacketTagList

open HomaSird.Transition SharedCells List

variable {TypeId Tag : Type} [DecidableEq TypeId]
variable {store : TagStore TypeId} {address cur : Nat} {data : TagData TypeId}
  {prevNext start : Slot ListId} {target : Option Nat} {list : ListId} {tid : TypeId} {fuel : Nat}
  {path done rest : List (Nat × TagContent TypeId)}

omit [DecidableEq TypeId] in
theorem deref_eq (hcell : store.cells.lookup address = some data) :
    deref store address = .ok data := by
  rw [deref, hcell]

omit [DecidableEq TypeId] in
theorem mNext_eq (hhead : store.heads.lookup list = some target) :
    mNext store list = .ok target := by
  rw [mNext, hhead]

omit [DecidableEq TypeId] in
theorem setPointer_eq (hslot : store.get prevNext = some target) (next : Option Nat) :
    setPointer store prevNext next = .ok (store.set prevNext next) := by
  rw [setPointer, hslot]

omit [DecidableEq TypeId] in
theorem increment_eq (hmem : address ∈ store.cells) (hroom : store.countOf address < 2 ^ 32 - 1) :
    increment store address = .ok (store.adjust address (· + 1)) := by
  obtain ⟨data, hcell⟩ := mem_cells.mp hmem
  rw [countOf_eq hcell] at hroom
  rw [increment, deref_eq hcell]
  refine congrArg Except.ok (adjust_congr hcell ?_)
  exact uint32_of_lt (by omega)

omit [DecidableEq TypeId] in
theorem decrement_eq (hcell : store.cells.lookup address = some data) (hpos : 0 < data.count)
    (hlt : data.count < 2 ^ 32) : decrement store address = .ok (store.adjust address (· - 1)) := by
  rw [decrement, deref_eq hcell]
  refine congrArg Except.ok (adjust_congr hcell ?_)
  simp only [uint32]
  omega

omit [DecidableEq TypeId] in
theorem incrementNonNull_eq (store : TagStore TypeId) (target : Option Nat)
    (hmem : ∀ address, target = some address → address ∈ store.cells)
    (hroom : ∀ address, target = some address → store.countOf address < 2 ^ 32 - 1) :
    incrementNonNull store target = .ok (store.adjustTarget target (· + 1)) := by
  cases target with
  | none => rfl
  | some address => exact increment_eq (hmem address rfl) (hroom address rfl)

omit [DecidableEq TypeId] in
theorem length_lt_loopFuel (hlnk : store.Linked target path) :
    path.length < loopFuel store := Nat.lt_succ_of_le hlnk.length_le

theorem findLoop_eq (tid : TypeId) (hlnk : store.Linked target path)
    (hfuel : path.length < fuel) :
    findLoop store tid fuel target = .ok ((path.map Prod.snd).find? fun content =>
      decide (content.tid = tid)) := by
  induction hlnk generalizing fuel with
  | nil =>
    obtain ⟨fuel, rfl⟩ := Nat.exists_eq_succ_of_ne_zero (ne_of_gt hfuel)
    rfl
  | @cons address data path hcell hrest ih =>
    obtain ⟨fuel, rfl⟩ := Nat.exists_eq_succ_of_ne_zero (Nat.ne_zero_of_lt hfuel)
    rw [findLoop, deref_eq hcell, map_cons]
    by_cases htid : data.payload.tid = tid
    · rw [find?_cons_of_pos (by simpa using htid)]
      exact if_pos htid
    · rw [find?_cons_of_neg (by simpa using htid)]
      exact (if_neg htid).trans (ih (Nat.lt_of_succ_lt_succ hfuel))

structure Stops (store : TagStore TypeId) (tid : TypeId) (start : Slot ListId)
    (path : List (Nat × TagContent TypeId)) (prevNext : Slot ListId) (stop : Option Nat)
    (found : Bool) : Prop where
  at_end : stop = none →
    (path.map Prod.snd).find? (fun content => decide (content.tid = tid)) = none
  at_node : ∀ cur, stop = some cur → ∃ done rest data,
    path = done ++ (cur, data.payload) :: rest ∧ (∀ entry ∈ done, entry.2.tid ≠ tid) ∧
      store.Walk start done prevNext ∧ store.get prevNext = some (some cur) ∧
      store.cells.lookup cur = some data ∧
      store.Linked data.next rest ∧
      if found then data.count = 1 ∧ data.payload.tid = tid else 1 < data.count

theorem searchLoop_spec (tid : TypeId) (start : Slot ListId) (hcnt : store.Counted)
    (hlnk : store.Linked target path) (hslot : store.get start = some target)
    (hfuel : path.length < fuel) :
    ∃ prevNext stop found,
      searchLoop store tid fuel start target = .ok (prevNext, stop, found) ∧
        Stops store tid start path prevNext stop found := by
  induction hlnk generalizing fuel start with
  | nil =>
    obtain ⟨fuel, rfl⟩ := Nat.exists_eq_succ_of_ne_zero (ne_of_gt hfuel)
    exact ⟨start, none, false, rfl, fun _ => rfl, fun _ hstop => nomatch hstop⟩
  | @cons address data path hcell hrest ih =>
    obtain ⟨fuel, rfl⟩ := Nat.exists_eq_succ_of_ne_zero (Nat.ne_zero_of_lt hfuel)
    rw [searchLoop, deref_eq hcell]
    simp only [bind, Except.bind, pure, Except.pure]
    have hlive := (hcnt.live address (mem_cells.mpr ⟨data, hcell⟩)).1
    rw [countOf_eq hcell] at hlive
    have hhere : ∀ found, (if found = true then data.count = 1 ∧ data.payload.tid = tid
        else 1 < data.count) → Stops store tid start ((address, data.payload) :: path) start
          (some address) found := by
      intro found hfound
      refine ⟨fun hstop => (nomatch hstop), fun cur hstop => ?_⟩
      cases hstop
      exact ⟨[], path, data, rfl, fun _ hmem => absurd hmem not_mem_nil, .nil _, hslot,
        hcell, hrest, hfound⟩
    by_cases hmerge : data.count > 1
    · rw [if_pos hmerge]
      exact ⟨start, some address, false, rfl, hhere false hmerge⟩
    · rw [if_neg hmerge]
      have howned : data.count = 1 := by omega
      by_cases htid : data.payload.tid = tid
      · rw [if_pos htid]
        exact ⟨start, some address, true, rfl, hhere true ⟨howned, htid⟩⟩
      · rw [if_neg htid]
        have hget : store.get (.next address) = some data.next := by
          rw [SharedCells.get, hcell]
          rfl
        obtain ⟨prevNext, stop, found, hsearch, hstops⟩ :=
          ih (.next address) hget (Nat.lt_of_succ_lt_succ hfuel)
        refine ⟨prevNext, stop, found, hsearch, fun hstop => ?_, fun cur hstop => ?_⟩
        · rw [map_cons, find?_cons_of_neg (by simpa using htid)]
          exact hstops.at_end hstop
        · obtain ⟨done, rest, node, rfl, hpassed, hwalk, hstop⟩ := hstops.at_node cur hstop
          exact ⟨_, rest, node, rfl, forall_mem_cons.mpr ⟨htid, hpassed⟩,
            .cons hslot hcell howned hwalk, hstop⟩

structure Merge (store : TagStore TypeId) (list : ListId) (prevNext : Slot ListId) (cur : Nat)
    (done : List (Nat × TagContent TypeId)) (data : TagData TypeId)
    (rest : List (Nat × TagContent TypeId)) : Prop where
  counted : store.Counted
  walk : store.Walk (.head list) done prevNext
  slot : store.get prevNext = some (some cur)
  cell : store.cells.lookup cur = some data
  linked : store.Linked data.next rest
  shared : 1 < data.count
  small : ∀ entry ∈ (cur, data.payload) :: rest, entry.2.data.length < 2 ^ 32 - 1
  room : ∀ other, other ≠ cur → store.countOf other < 2 ^ 32 - 1
  room_cur : data.count < 2 ^ 32

section

variable (hmerge : Merge store list prevNext cur done data rest)
include hmerge

omit [DecidableEq TypeId] in
theorem Merge.rewrites : Rewrites store store list (done ++ (cur, data.payload) :: rest) :=
  .refl hmerge.counted (hmerge.walk.linked hmerge.slot (.cons hmerge.cell hmerge.linked))

omit [DecidableEq TypeId] in
theorem Merge.room_alloc {copy : TagData TypeId} (hcopy : copy.count = 1)
    (other : Nat) : ((store.adjust cur (· - 1)).alloc copy).countOf other < 2 ^ 32 - 1 := by
  rw [countOf_alloc, countOf_adjust hmerge.cell, hcopy]
  have hcur := hmerge.room_cur
  have hroom := hmerge.room other
  split
  · decide
  · split
    · omega
    next hne => exact hroom hne

omit [DecidableEq TypeId] in
theorem Merge.held (copy : TagData TypeId) (target : Option Nat) :
    ∃ held, (((store.adjust cur (· - 1)).alloc copy).adjustTarget target (· + 1)).get prevNext =
        some held := by
  refine exists_get hmerge.slot ?_ fun other hmem => ?_
  · rw [heads_adjustTarget]
    exact heads_adjust _ _
  · rw [mem_adjustTarget, mem_alloc, mem_adjust]
    exact .inr hmem

omit [DecidableEq TypeId] in
theorem Merge.copy {next : Nat} (hnext : data.next = some next) :
    ∃ after node behind,
      after = (((store.adjust cur (· - 1)).alloc ⟨some next, 1, data.payload⟩).adjust next
          (· + 1)).set prevNext (some store.fresh) ∧
        rest = (next, node.payload) :: behind ∧
        Merge after list (.next store.fresh) next (done ++ [(store.fresh, data.payload)]) node
          behind ∧
        Rewrites store after list (done ++ (store.fresh, data.payload) :: rest) := by
  have hcopy := copy_shared hmerge.counted hmerge.walk hmerge.slot hmerge.cell hmerge.linked
    hmerge.shared data.payload
  rw [hnext] at hcopy
  obtain ⟨hwrites, hwalk, hslot, hlnk, hcnt⟩ := hcopy
  generalize hafter : SharedCells.set _ prevNext (some store.fresh) = after at *
  cases hlnk with
  | @cons _ node behind hnode hbehind =>
    have hcur := hmerge.room_cur
    have hshared := hmerge.shared
    have hnextMem : next ∈ store.cells := hmerge.linked.mem_of_target next hnext
    have hnextFresh : next ≠ store.fresh :=
      ne_of_mem_of_not_mem hnextMem hmerge.counted.fresh_not_mem
    have hnextLive := (hmerge.counted.live next hnextMem).1
    have hnode' := countOf_eq hnode
    rw [hcnt next hnextFresh, hits_some, if_pos rfl] at hnode'
    refine ⟨after, node, behind, hafter.symm, rfl, ?_, hwrites⟩
    refine ⟨hwrites.counted, hwalk, hslot, hnode, hbehind, ?_, ?_, fun other hne => ?_, ?_⟩
    · split at hnode' <;> omega
    · exact fun entry hent => hmerge.small entry (.tail _ hent)
    · by_cases hfresh : other = store.fresh
      · subst hfresh
        obtain ⟨copied, hcopied, hone⟩ := hwalk.cell_of_mem
          (mem_map_of_mem (mem_append_right done mem_cons_self))
        rw [countOf_eq hcopied, hone]
        decide
      · rw [hcnt other hfresh, hits_some, if_neg hne]
        split
        · omega
        next hother => exact hmerge.room other hother
    · split at hnode'
      · omega
      next hother =>
        have hroom := hmerge.room next hother
        omega

theorem copyLoop_spec (htid : ∃ entry ∈ (cur, data.payload) :: rest, entry.2.tid = tid)
    (hfuel : rest.length < fuel) :
    ∃ after prevNext' cur' done' data' rest',
      copyLoop tid fuel store prevNext cur = .ok (after, prevNext', cur') ∧
        Merge after list prevNext' cur' done' data' rest' ∧ data'.payload.tid = tid ∧
        (done' ++ (cur', data'.payload) :: rest').map Prod.snd =
          (done ++ (cur, data.payload) :: rest).map Prod.snd ∧
        Rewrites store after list (done' ++ (cur', data'.payload) :: rest') := by
  induction fuel generalizing store prevNext cur done data rest with
  | zero => exact absurd hfuel (Nat.not_lt_zero _)
  | succ fuel ih =>
    have hcell := hmerge.cell
    rw [copyLoop, deref_eq hcell]
    by_cases hfound : data.payload.tid = tid
    · refine ⟨store, prevNext, cur, done, data, rest, if_pos hfound, hmerge, hfound, rfl, ?_⟩
      exact hmerge.rewrites
    · obtain ⟨entry, hent, heq⟩ := htid
      have hrest : entry ∈ rest := by
        rcases mem_cons.mp hent with rfl | hrest
        · exact absurd heq hfound
        · exact hrest
      -- the tag is further on, so there is a next node
      obtain ⟨next, hnext⟩ : ∃ next, data.next = some next := by
        have hlnk := hmerge.linked
        cases hnext : data.next with
        | none =>
          rw [hnext] at hlnk
          cases hlnk
          exact nomatch hrest
        | some next => exact ⟨next, rfl⟩
      obtain ⟨after, node, behind, hafter, rfl, hmoved, hwrites⟩ := hmerge.copy hnext
      obtain ⟨final, prevNext', cur', done', data', rest', hloop, hlast, hend, hsame, hall⟩ :=
        ih hmoved ⟨entry, hrest, heq⟩ (Nat.lt_of_succ_lt_succ hfuel)
      refine ⟨final, prevNext', cur', done', data', rest', ?_, hlast, hend, ?_, hwrites.trans hall⟩
      · have hshared := hmerge.shared
        have hcreate : createTagData (store.adjust cur (· - 1)) ⟨some next, 1, data.payload⟩ =
            .ok (store.fresh,
              (store.adjust cur (· - 1)).alloc ⟨some next, 1, data.payload⟩) := by
          have hsmall := hmerge.small _ mem_cons_self
          rw [createTagData, if_pos hsmall, fresh_adjust]
        have hmem : next ∈ ((store.adjust cur (· - 1)).alloc
            ⟨some next, 1, data.payload⟩).cells := by
          rw [mem_alloc, mem_adjust]
          exact .inr (hmerge.linked.mem_of_target next hnext)
        obtain ⟨held, hheld⟩ := hmerge.held ⟨some next, 1, data.payload⟩ (some next)
        simp only [bind, Except.bind, if_neg hfound, if_neg (Nat.not_le.mpr hshared), hnext,
          decrement_eq hcell (Nat.zero_lt_of_lt hshared) hmerge.room_cur, hcreate,
          increment_eq hmem (hmerge.room_alloc rfl next)]
        rw [adjustTarget] at hheld
        simp only [setPointer_eq hheld]
        rw [hafter] at hloop
        exact hloop
      · rw [hsame]
        simp only [map_append, map_cons, append_assoc, cons_append, nil_append]

end

end HomaSird.Network.PacketTagList
