import HomaSird.Network.TagTraversal

/-! # What the operations on one tag list do to it

A list holds the entries of a map, node by node and in their order.
-/

namespace HomaSird.Network.PacketTagList

open HomaSird.Transition SharedCells

variable {TypeId Tag : Type} [DecidableEq TypeId]

structure Holds (format : TagFormat TypeId Tag) (content : TagContent TypeId)
    (entry : Sigma fun _ : TypeId => Tag) : Prop where
  tid : content.tid = entry.1
  typeId : format.typeId entry.2 = entry.1
  written : format.serialize entry.2 <+: content.data
  small : content.data.length < 2 ^ 32 - 1

def Tags (format : TagFormat TypeId Tag) (store : TagStore TypeId) (target : Option Nat)
    (map : TagMap TypeId Tag) : Prop :=
  ∃ path, store.Linked target path ∧
    List.Forall₂ (Holds format) (path.map Prod.snd) map.entries

variable {format : TagFormat TypeId Tag} {store after : TagStore TypeId} {cur : Nat}
  {data : TagData TypeId} {prevNext : Slot ListId} {target : Option Nat} {list : ListId}
  {tid : TypeId} {tag : Tag} {content : TagContent TypeId}
  {contents front back : List (TagContent TypeId)} {entries : List (Sigma fun _ : TypeId => Tag)}
  {entry : Sigma fun _ : TypeId => Tag} {map : TagMap TypeId Tag}
  {path done rest : List (Nat × TagContent TypeId)}

/-! ## Entries of the map -/

def decode (format : TagFormat TypeId Tag) (content : TagContent TypeId) : Tag :=
  format.deserialize content.tid content.data

omit [DecidableEq TypeId] in
theorem Holds.decode_eq (hholds : Holds format content entry) :
    decode format content = entry.2 := by
  obtain ⟨behind, hbehind⟩ := hholds.written
  rw [decode, ← hbehind, hholds.tid, ← hholds.typeId, format.deserialize_serialize]

omit [DecidableEq TypeId] in
theorem holds_new (format : TagFormat TypeId Tag) (tag : Tag) :
    Holds format ⟨format.typeId tag, format.serialize tag⟩ ⟨format.typeId tag, tag⟩ :=
  ⟨rfl, rfl, List.prefix_rfl, format.size_lt tag⟩

section

variable (hholds : List.Forall₂ (Holds format) contents entries)
include hholds

theorem find_eq (tid : TypeId) :
    (contents.find? fun content => decide (content.tid = tid)).map (decode format) =
      entries.dlookup tid := by
  induction hholds with
  | nil => rfl
  | @cons content entry contents entries hhead _ ih =>
    by_cases htid : content.tid = tid
    · rw [List.find?_cons_of_pos (by simpa using htid), Option.map_some, hhead.decode_eq]
      obtain ⟨stored, tag⟩ := entry
      obtain rfl : tid = stored := htid.symm.trans hhead.tid
      rw [List.dlookup_cons_eq]
    · rw [List.find?_cons_of_neg (by simpa using htid), ih,
        List.dlookup_cons_ne _ _ (fun heq => htid (hhead.tid.trans heq.symm))]

omit [DecidableEq TypeId] in
theorem small_of_holds : ∀ content ∈ contents, content.data.length < 2 ^ 32 - 1 := by
  induction hholds with
  | nil => exact fun _ hmem => absurd hmem List.not_mem_nil
  | cons hhead _ ih => exact List.forall_mem_cons.mpr ⟨hhead.small, ih⟩

omit [DecidableEq TypeId] in
theorem mem_keys_of_holds (hmem : content ∈ contents) : content.tid ∈ entries.keys := by
  induction hholds with
  | nil => exact absurd hmem List.not_mem_nil
  | cons hhead _ ih =>
    rw [List.keys_cons]
    rcases List.mem_cons.mp hmem with rfl | hlater
    · exact hhead.tid ▸ List.mem_cons_self
    · exact List.mem_cons_of_mem _ (ih hlater)

end

section

variable (hholds : List.Forall₂ (Holds format) (front ++ content :: back) entries) (hnodup :
  entries.NodupKeys)
include hholds hnodup

theorem holds_lookup : entries.dlookup content.tid = some (decode format content) := by
  induction front generalizing entries with
  | nil =>
    cases hholds with
    | @cons _ entry _ entries hhead hbehind =>
      rw [hhead.decode_eq, hhead.tid, List.dlookup_cons_eq]
  | cons first front ih =>
    cases hholds with
    | @cons _ entry _ entries hhead hbehind =>
      obtain ⟨hnot, hlater⟩ := List.nodupKeys_cons.mp hnodup
      have hmem : content.tid ∈ entries.keys := mem_keys_of_holds hbehind (by simp)
      rw [List.dlookup_cons_ne _ _ (fun heq => hnot (heq ▸ hmem))]
      exact ih hbehind hlater

theorem holds_erase : List.Forall₂ (Holds format) (front ++ back) (entries.kerase content.tid) := by
  induction front generalizing entries with
  | nil =>
    cases hholds with
    | @cons _ entry _ entries hhead hbehind =>
      rw [List.kerase_cons_eq hhead.tid]
      exact hbehind
  | cons first front ih =>
    cases hholds with
    | @cons _ entry _ entries hhead hbehind =>
      obtain ⟨hnot, hlater⟩ := List.nodupKeys_cons.mp hnodup
      have hmem : content.tid ∈ entries.keys := mem_keys_of_holds hbehind (by simp)
      rw [List.kerase_cons_ne (fun heq => hnot (heq ▸ hmem))]
      exact .cons hhead (ih hbehind hlater)

end

theorem kreplace_cons_eq (htid : tid = entry.1) :
    (entry :: entries).kreplace tid tag = ⟨tid, tag⟩ :: entries := by
  rw [List.kreplace, List.lookmap_cons_some]
  exact if_pos htid

theorem kreplace_cons_ne (htid : tid ≠ entry.1) :
    (entry :: entries).kreplace tid tag = entry :: entries.kreplace tid tag := by
  refine List.lookmap_cons_none _ _ ?_
  exact if_neg htid

theorem holds_replace {new : TagContent TypeId} (hnew : Holds format new ⟨content.tid, tag⟩)
    (hholds : List.Forall₂ (Holds format) (front ++ content :: back) entries)
    (hnodup : entries.NodupKeys) :
    List.Forall₂ (Holds format) (front ++ new :: back) (entries.kreplace content.tid tag) := by
  induction front generalizing entries with
  | nil =>
    cases hholds with
    | @cons _ entry _ entries hhead hbehind =>
      rw [kreplace_cons_eq hhead.tid]
      exact .cons hnew hbehind
  | cons first front ih =>
    cases hholds with
    | @cons _ entry _ entries hhead hbehind =>
      obtain ⟨hnot, hlater⟩ := List.nodupKeys_cons.mp hnodup
      have hmem : content.tid ∈ entries.keys := mem_keys_of_holds hbehind (by simp)
      rw [kreplace_cons_ne (fun heq => hnot (heq ▸ hmem))]
      exact .cons hhead (ih hbehind hlater)

/-! ## Traversals -/

/-- The type is not there, is found before a merge, or the nodes from the merge on have been copied
up to it. -/
inductive Traverses (store : TagStore TypeId) (list : ListId) (tid : TypeId)
    (path : List (Nat × TagContent TypeId)) : Prop where
  | absent (hfind : (path.map Prod.snd).find? (fun content => decide (content.tid = tid)) = none)
      (hcode : ∀ {Result : Type} (writer : TagStore TypeId → Bool → Nat → Slot ListId →
        Except TagFault (Result × TagStore TypeId)),
        cowTraverse tid writer store list = .ok (none, store))
  | owned (done rest : List (Nat × TagContent TypeId)) (data : TagData TypeId) (cur : Nat)
      (prevNext : Slot ListId) (hpath : path = done ++ (cur, data.payload) :: rest)
      (hwalk : store.Walk (.head list) done prevNext)
      (hslot : store.get prevNext = some (some cur))
      (hcell : store.cells.lookup cur = some data) (hlnk : store.Linked data.next rest)
      (howned : data.count = 1) (htid : data.payload.tid = tid)
      (hinPlace : inPlace store list tid = some data.payload)
      (hcode : ∀ {Result : Type} (writer : TagStore TypeId → Bool → Nat → Slot ListId →
        Except TagFault (Result × TagStore TypeId)),
        cowTraverse tid writer store list =
          (writer store true cur prevNext).map fun result => (some result.1, result.2))
  | copied (after : TagStore TypeId) (done rest : List (Nat × TagContent TypeId))
      (data : TagData TypeId) (cur : Nat) (prevNext : Slot ListId)
      (hpath : path.map Prod.snd = (done ++ (cur, data.payload) :: rest).map Prod.snd)
      (hmerge : Merge after list prevNext cur done data rest) (htid : data.payload.tid = tid)
      (hrewrites : Rewrites store after list (done ++ (cur, data.payload) :: rest))
      (hcode : ∀ {Result : Type} (writer : TagStore TypeId → Bool → Nat → Slot ListId →
        Except TagFault (Result × TagStore TypeId)),
        cowTraverse tid writer store list =
          (writer after false cur prevNext).map fun result => (some result.1, result.2))

theorem traverses (hcnt : store.Counted) (hhead : store.heads.lookup list = some target)
    (hlnk : store.Linked target path) (hsmall : ∀ entry ∈ path, entry.2.data.length < 2 ^ 32 - 1)
    (hroom : ∀ address, store.countOf address < 2 ^ 32 - 1)
    (tid : TypeId) : Traverses store list tid path := by
  obtain ⟨prevNext, stop, found, hsearch, hstops⟩ :=
    searchLoop_spec tid (.head list) hcnt hlnk hhead (length_lt_loopFuel hlnk)
  cases stop with
  | none =>
    refine .absent (hstops.at_end rfl) fun writer => ?_
    rw [cowTraverse, mNext_eq hhead]
    simp only [bind, Except.bind, hsearch]
    rfl
  | some cur =>
    obtain ⟨done, rest, data, rfl, hpassed, hwalk, hslot, hcell, hrest, hfound⟩ :=
      hstops.at_node cur rfl
    have hcells : store.Linked (some cur) ((cur, data.payload) :: rest) := .cons hcell hrest
    cases found with
    -- found before any shared node: the writer works in place
    | true =>
      obtain ⟨howned, htid⟩ := hfound
      refine .owned done rest data cur prevNext rfl hwalk hslot hcell hrest howned htid ?_
        fun writer => ?_
      · rw [inPlace, mNext_eq hhead]
        simp only [hsearch, hcell, Option.map_some]
      · rw [cowTraverse, mNext_eq hhead]
        simp only [bind, Except.bind, hsearch]
        cases writer store true cur prevNext <;> rfl
    | false =>
      have hloop := findLoop_eq tid hcells (length_lt_loopFuel hcells)
      cases hfind : (((cur, data.payload) :: rest).map Prod.snd).find? fun content =>
          decide (content.tid = tid) with
      | none =>
        refine .absent ?_ fun writer => ?_
        · rw [List.map_append, List.find?_append, hfind, Option.or_none,
            List.find?_eq_none]
          intro content hmem
          obtain ⟨entry, hent, rfl⟩ := List.mem_map.mp hmem
          simpa using hpassed entry hent
        · rw [hfind] at hloop
          rw [cowTraverse, mNext_eq hhead]
          simp only [bind, Except.bind, hsearch, hloop]
          rfl
      -- found behind a shared node: the way to it is copied
      | some content =>
        have hmerge : Merge store list prevNext cur done data rest :=
          ⟨hcnt, hwalk, hslot, hcell, hrest, hfound,
            fun entry hent => hsmall entry (List.mem_append_right _ hent),
            fun other _ => hroom other, by
              have hcur := hroom cur
              rw [countOf_eq hcell] at hcur
              omega⟩
        have hthere : ∃ entry ∈ (cur, data.payload) :: rest, entry.2.tid = tid := by
          obtain ⟨entry, hent, heq⟩ := List.mem_map.mp (List.mem_of_find?_eq_some hfind)
          refine ⟨entry, hent, ?_⟩
          rw [heq]
          simpa using List.find?_some hfind
        obtain ⟨after, prevNext', cur', done', data', rest', hcopy, hlast, htid, hsame,
          hwrites⟩ := copyLoop_spec hmerge hthere
            (Nat.lt_of_succ_lt (length_lt_loopFuel hcells))
        refine .copied after done' rest' data' cur' prevNext' hsame.symm hlast htid hwrites
          fun writer => ?_
        rw [hfind] at hloop
        rw [cowTraverse, mNext_eq hhead]
        simp only [bind, Except.bind, hsearch, hloop, hcopy]
        cases writer after false cur' prevNext' <;> rfl

/-! ## Writers -/

omit [DecidableEq TypeId] in
theorem removeWriter_owned (hslot : store.get prevNext = some target)
    (hcell : store.cells.lookup cur = some data) :
    removeWriter format store true cur prevNext =
      .ok (decode format data.payload, (store.set prevNext data.next).free cur) := by
  rw [removeWriter, deref_eq hcell]
  simp only [bind, Except.bind, setPointer_eq hslot]
  rfl

omit [DecidableEq TypeId] in
theorem removeWriter_shared (hmerge : Merge store list prevNext cur done data rest) :
    removeWriter format store false cur prevNext = .ok (decode format data.payload,
    ((store.set prevNext data.next).adjust cur (· - 1)).adjustTarget data.next (· + 1)) := by
  have hapart := hmerge.walk.apart hmerge.slot hmerge.cell hmerge.linked
  have hcell : (store.set prevNext data.next).cells.lookup cur = some data := by
    rw [cells_set, if_neg (hmerge.walk.slot_ne hapart.1), hmerge.cell]
  have hshared := hmerge.shared
  have hcur := hmerge.room_cur
  have hincrement := incrementNonNull_eq ((store.set prevNext data.next).adjust cur (· - 1))
    data.next
    (fun address heq => by
      rw [mem_adjust, mem_set]
      exact hmerge.linked.mem_of_target address heq)
    (fun address _ => by
      rw [countOf_adjust hcell, countOf_set]
      split
      · omega
      next hne => exact hmerge.room address hne)
  rw [removeWriter, deref_eq hmerge.cell]
  simp only [bind, Except.bind, setPointer_eq hmerge.slot,
    decrement_eq hcell (Nat.zero_lt_of_lt hshared) hcur, hincrement]
  rfl

omit [DecidableEq TypeId] in
theorem replaceWriter_owned (hcell : store.cells.lookup cur = some data)
    (hfits : (format.serialize tag).length ≤ data.payload.data.length) :
    replaceWriter format tag store true cur prevNext = .ok ((),
          store.overwrite cur ⟨data.payload.tid,
              format.serialize tag ++ data.payload.data.drop (format.serialize tag).length⟩) := by
  rw [replaceWriter, deref_eq hcell]
  simp only [bind, Except.bind, serializeInto, if_pos hfits]
  rfl

omit [DecidableEq TypeId] in
theorem replaceWriter_shared (hmerge : Merge store list prevNext cur done data rest) :
    replaceWriter format tag store false cur prevNext = .ok ((),
          (((store.adjust cur (· - 1)).alloc
            ⟨data.next, 1, format.typeId tag, format.serialize tag⟩).adjustTarget data.next
            (· + 1)).set prevNext (some store.fresh)) := by
  have hshared := hmerge.shared
  have hcreate : createTagData (store.adjust cur (· - 1))
      ⟨data.next, 1, format.typeId tag, format.serialize tag⟩ =
        .ok (store.fresh, (store.adjust cur (· - 1)).alloc
          ⟨data.next, 1, format.typeId tag, format.serialize tag⟩) := by
    have hsmall := format.size_lt tag
    rw [createTagData, if_pos hsmall, fresh_adjust]
  have hincrement := incrementNonNull_eq ((store.adjust cur (· - 1)).alloc
      ⟨data.next, 1, format.typeId tag, format.serialize tag⟩) data.next
    (fun address heq => by
      rw [mem_alloc, mem_adjust]
      exact .inr (hmerge.linked.mem_of_target address heq))
    (fun address _ => hmerge.room_alloc rfl address)
  obtain ⟨held, hheld⟩ := hmerge.held
    ⟨data.next, 1, format.typeId tag, format.serialize tag⟩ data.next
  rw [replaceWriter, deref_eq hmerge.cell]
  simp only [bind, Except.bind, decrement_eq hmerge.cell (Nat.zero_lt_of_lt hshared)
    hmerge.room_cur, hcreate, hincrement, setPointer_eq hheld]
  rfl

/-! ## Operations -/

section OneList

variable (hcnt : store.Counted) (hhead : store.heads.lookup list = some target)
  (hlnk : store.Linked target path)
  (hholds : List.Forall₂ (Holds format) (path.map Prod.snd) map.entries)
  (hroom : ∀ address, store.countOf address < 2 ^ 32 - 1)
include hcnt hhead hlnk hholds

omit hcnt in
theorem peek_spec (tid : TypeId) : peek format tid store list = .ok (map.lookup tid) := by
  rw [peek, mNext_eq hhead]
  simp only [bind, Except.bind, findLoop_eq tid hlnk (length_lt_loopFuel hlnk)]
  exact congrArg Except.ok (find_eq hholds tid)

theorem add_spec (tag : Tag) (habsent : map.lookup (format.typeId tag) = none) :
    ∃ after new,
      add format tag store list = .ok after ∧ Rewrites store after list new ∧
        List.Forall₂ (Holds format) (new.map Prod.snd)
          (map.insert (format.typeId tag) tag).entries := by
  have hpush := push hcnt hhead hlnk
    (⟨format.typeId tag, format.serialize tag⟩ : TagContent TypeId)
  refine ⟨_, _, ?_, hpush, ?_⟩
  · have hfind := (find_eq hholds (format.typeId tag)).trans habsent
    rw [Option.map_eq_none_iff] at hfind
    have hloop := findLoop_eq (format.typeId tag) hlnk (length_lt_loopFuel hlnk)
    rw [hfind] at hloop
    rw [add, mNext_eq hhead]
    simp only [bind, Except.bind, hloop, createTagData, if_pos (format.size_lt tag)]
    have hheld : (store.alloc (⟨target, 1, format.typeId tag, format.serialize tag⟩ :
        TagData TypeId)).get (.head list) = some target := hhead
    exact setPointer_eq hheld _
  · rw [AList.entries_insert_of_notMem (AList.lookup_eq_none.mp habsent)]
    exact .cons (holds_new format tag) hholds

include hroom

theorem remove_spec (tid : TypeId) :
    ∃ after new,
      remove format tid store list = .ok (map.lookup tid, after) ∧ Rewrites store after list new ∧
        List.Forall₂ (Holds format) (new.map Prod.snd) (map.erase tid).entries := by
  have hfind := find_eq hholds tid
  have hsmall : ∀ entry ∈ path, entry.2.data.length < 2 ^ 32 - 1 := fun entry hent =>
    small_of_holds hholds _ (List.mem_map_of_mem hent)
  rcases traverses hcnt hhead hlnk hsmall hroom tid with
    ⟨habsent, hcode⟩ |
    ⟨done, rest, data, cur, prevNext, rfl, hwalk, hslot, hcell, hrest, howned, rfl, -, hcode⟩ |
    ⟨middle, done, rest, data, cur, prevNext, hpath, hmerge, rfl, hwrites, hcode⟩
  · rw [habsent] at hfind
    refine ⟨store, path, ?_, .refl hcnt ⟨target, hhead, hlnk⟩, ?_⟩
    · rw [remove, hcode]
      exact congrArg (fun tag => Except.ok (tag, store)) hfind
    · change List.Forall₂ _ _ (map.entries.kerase tid)
      rwa [List.kerase_of_notMem_keys (AList.lookup_eq_none.mp hfind.symm)]
  · refine ⟨_, _, ?_, unlink_owned hcnt hwalk hslot hcell hrest howned, ?_⟩
    · rw [List.map_append, List.map_cons] at hholds
      have hlook : map.lookup data.payload.tid = _ := holds_lookup hholds map.nodupKeys
      rw [remove, hcode, removeWriter_owned hslot hcell, hlook]
      rfl
    · rw [List.map_append, List.map_cons] at hholds
      rw [List.map_append]
      exact holds_erase hholds map.nodupKeys
  · have hunlink := unlink_shared hmerge.counted hmerge.walk hmerge.slot hmerge.cell
      hmerge.linked hmerge.shared
    rw [hpath, List.map_append, List.map_cons] at hholds
    refine ⟨_, _, ?_, hwrites.trans hunlink, ?_⟩
    · have hlook : map.lookup data.payload.tid = _ := holds_lookup hholds map.nodupKeys
      rw [remove, hcode, removeWriter_shared hmerge, hlook]
      rfl
    · rw [List.map_append]
      exact holds_erase hholds map.nodupKeys

theorem replace_spec (tag : Tag)
    (hfits : ∀ content,
      inPlace store list (format.typeId tag) = some content →
        (format.serialize tag).length ≤ content.data.length) :
    ∃ after new,
      replace format tag store list = .ok ((map.lookup (format.typeId tag)).isSome, after) ∧
        Rewrites store after list new ∧
        List.Forall₂ (Holds format) (new.map Prod.snd)
          (if (map.lookup (format.typeId tag)).isSome then
            map.replace (format.typeId tag) tag
          else map.insert (format.typeId tag) tag).entries := by
  have hfind := find_eq hholds (format.typeId tag)
  have hsmall : ∀ entry ∈ path, entry.2.data.length < 2 ^ 32 - 1 := fun entry hent =>
    small_of_holds hholds _ (List.mem_map_of_mem hent)
  have htraverse := traverses hcnt hhead hlnk hsmall hroom (format.typeId tag)
  generalize htid : format.typeId tag = tid at *
  rcases htraverse with
    ⟨habsent, hcode⟩ |
    ⟨done, rest, data, cur, prevNext, rfl, hwalk, hslot, hcell, hrest, howned, rfl, hin, hcode⟩ |
    ⟨middle, done, rest, data, cur, prevNext, hpath, hmerge, rfl, hwrites, hcode⟩
  -- not there: the source falls back on adding the tag
  · rw [habsent] at hfind
    have hnone : map.lookup tid = none := hfind.symm
    subst htid
    obtain ⟨after, new, hadd, hnew⟩ := add_spec hcnt hhead hlnk hholds tag hnone
    refine ⟨after, new, ?_, hnew.1, ?_⟩
    · rw [replace, hcode]
      simp only [bind, Except.bind, hadd, hnone]
      rfl
    · rw [hnone]
      exact hnew.2
  · rw [List.map_append, List.map_cons] at hholds
    -- in a node of its own the bytes are written over, the rest of the old ones stays
    have hlook : map.lookup data.payload.tid = _ := holds_lookup hholds map.nodupKeys
    have hnew : Holds format ⟨data.payload.tid, format.serialize tag ++
        data.payload.data.drop (format.serialize tag).length⟩ ⟨data.payload.tid, tag⟩ := by
      refine ⟨rfl, htid, List.prefix_append _ _, ?_⟩
      have hold := small_of_holds hholds data.payload (by simp)
      have hle := hfits _ hin
      rw [List.length_append, List.length_drop]
      omega
    refine ⟨_, _, ?_, overwrite_owned hcnt hwalk hslot hcell hrest howned
      ⟨data.payload.tid, format.serialize tag ++
        data.payload.data.drop (format.serialize tag).length⟩, ?_⟩
    · rw [replace, htid, hcode, replaceWriter_owned hcell (hfits _ hin), hlook]
      rfl
    · rw [hlook, List.map_append, List.map_cons]
      exact holds_replace hnew hholds map.nodupKeys
  · rw [hpath, List.map_append, List.map_cons] at hholds
    have hlook : map.lookup data.payload.tid = _ := holds_lookup hholds map.nodupKeys
    have hnew : Holds format ⟨format.typeId tag, format.serialize tag⟩
        ⟨data.payload.tid, tag⟩ := htid ▸ holds_new format tag
    obtain ⟨hcopy, -⟩ := copy_shared hmerge.counted hmerge.walk hmerge.slot hmerge.cell
      hmerge.linked hmerge.shared
        (⟨format.typeId tag, format.serialize tag⟩ : TagContent TypeId)
    refine ⟨_, _, ?_, hwrites.trans hcopy, ?_⟩
    · rw [replace, htid, hcode, replaceWriter_shared hmerge, hlook, htid]
      rfl
    · rw [hlook, List.map_append, List.map_cons]
      exact holds_replace hnew hholds map.nodupKeys

end OneList

end HomaSird.Network.PacketTagList
