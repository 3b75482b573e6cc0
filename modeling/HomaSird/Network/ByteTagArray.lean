import HomaSird.Network.ByteTagList

/-! # What the shared arrays hold

Each list owns the front of an array. Adding a tag writes behind it, in place only where
no other list has anything.
-/

namespace HomaSird.Network.ByteTagList

open HomaSird.Transition BlockHeap List ByteTagHeap

/-- An owner of an array whose first `used` bytes are the ones given. -/
inductive Holds (heap : ByteTagHeap) : Option Nat → Nat → List UInt8 → Prop where
  | empty : Holds heap none 0 []
  | front {address used : Nat} {content : ByteTagListData}
      (hcontent : heap.memory.contentOf address = some content) (hused : used ≤ content.dirty)
      (hdirty : content.dirty ≤ content.data.length) :
      Holds heap (some address) used (content.data.take used)

structure Shared (heap : ByteTagHeap) (lists : List ByteTagList) : Prop where
  counted : heap.memory.Counted (lists.map ByteTagList.data)
  holds : ∀ list ∈ lists, ∃ bytes, Holds heap list.data list.used bytes

def Keeps (heap after : ByteTagHeap) (lists : List ByteTagList) : Prop :=
  ∀ list ∈ lists, ∀ bytes, Holds heap list.data list.used bytes →
    Holds after list.data list.used bytes

variable {heap after final : ByteTagHeap} {list o : ByteTagList} {lists others : List ByteTagList}
  {address used pos : Nat} {target : Option Nat} {content : ByteTagListData}
  {bytes data : List UInt8}

/-! ## Bytes of an array -/

theorem length_overwriteAt (hle : pos + bytes.length ≤ data.length) :
    (overwriteAt data pos bytes).length = data.length := by
  rw [overwriteAt, length_append, length_append, length_take, length_drop]
  omega

theorem take_overwriteAt (hle : pos ≤ data.length) :
    (overwriteAt data pos bytes).take (pos + bytes.length) = data.take pos ++ bytes := by
  rw [overwriteAt, take_append_of_le_length, take_of_length_le]
  · rw [length_append, length_take]
    omega
  · rw [length_append, length_take]
    omega

theorem take_overwriteAt_of_le {count : Nat} (hle : pos ≤ data.length) (hcnt :
    count ≤ pos) : (overwriteAt data pos bytes).take count = data.take count := by
  rw [overwriteAt, append_assoc, take_append_of_le_length, take_take, Nat.min_eq_left hcnt]
  rw [length_take]
  omega

theorem take_overwriteAt_twice {behind : List UInt8}
    (hle : pos + bytes.length + behind.length ≤ data.length) :
    (overwriteAt (overwriteAt data pos bytes) (pos + bytes.length) behind).take
      (pos + bytes.length + behind.length) = data.take pos ++ (bytes ++ behind) := by
  have hlen : (overwriteAt data pos bytes).length = data.length :=
    length_overwriteAt (by omega)
  rw [take_overwriteAt (by omega), take_overwriteAt (by omega), append_assoc]

/-! ## Holding on -/

theorem Holds.congr (hholds : Holds heap target used bytes)
    (hsame : ∀ address,
      target = some address → after.memory.contentOf address = heap.memory.contentOf address) :
    Holds after target used bytes := by
  cases hholds with
  | empty => exact .empty
  | front hcont hused hdirty => exact .front ((hsame _ rfl).trans hcont) hused hdirty

theorem Keeps.trans (hfst : Keeps heap after lists)
    (hsnd : Keeps after final lists) : Keeps heap final lists :=
  fun list hmem bytes hholds => hsnd list hmem bytes (hfst list hmem bytes hholds)

theorem Keeps.refl (heap : ByteTagHeap) (lists : List ByteTagList) : Keeps heap heap lists :=
  fun _ _ _ hholds => hholds

theorem Keeps.tail (hkeeps : Keeps heap after (list :: lists)) : Keeps heap after lists :=
  fun o hmem => hkeeps o (.tail _ hmem)

theorem Keeps.of_same (hsame : ∀ address, some address ∈ lists.map ByteTagList.data →
    after.memory.contentOf address = heap.memory.contentOf address) : Keeps heap after lists :=
  fun _ hmem _ hholds => hholds.congr fun address hdata =>
    hsame address (hdata ▸ mem_map_of_mem hmem)

theorem Shared.tail (hshared : Shared heap (list :: lists)) :
    ∀ o ∈ lists, ∃ bytes, Holds heap o.data o.used bytes :=
  fun o hmem => hshared.holds o (.tail _ hmem)

theorem Shared.perm (hshared : Shared heap lists)
    (hperm : lists.Perm others) : Shared heap others :=
  ⟨hshared.counted.perm (hperm.map _), fun list hmem => hshared.holds list (hperm.mem_iff.mpr hmem)⟩

theorem owner_mem (hmem : list ∈ lists) (hdata : list.data = some address) :
    some address ∈ lists.map ByteTagList.data := hdata ▸ mem_map_of_mem hmem

/-! ## Arrays come and go -/

theorem takeFree_length (size : Nat) (free : List (List UInt8)) :
    ∀ data, (takeFree size free).1 = some data → size ≤ data.length := by
  induction free with
  | nil => exact fun _ hnone => nomatch hnone
  | cons first rest ih =>
    intro data hfound
    rw [takeFree] at hfound
    split at hfound
    next hle =>
      rw [← Option.some.inj hfound]
      exact hle
    · exact ih data hfound

theorem allocate_spec (heap : ByteTagHeap) (size : Nat) :
    ∃ data after,
      heap.allocate size = (heap.memory.fresh, after) ∧ after.memory = heap.memory.alloc ⟨data, 0⟩ ∧
        size ≤ data.length := by
  refine ⟨_, _, rfl, rfl, ?_⟩
  cases hfound : (takeFree size heap.freeList).1 with
  | none =>
    rw [Option.getD_none, length_replicate]
  | some data => exact takeFree_length size heap.freeList data hfound

theorem deallocate_spec {owners : List (Option Nat)}
    (hcnt : heap.memory.Counted (target :: owners)) (hroom : owners.length + 1 < 2 ^ 32) :
    (heap.deallocate target).memory.Counted owners ∧ ∀ other, some other ∈ owners →
    (heap.deallocate target).memory.contentOf other = heap.memory.contentOf other := by
  cases target with
  | none => exact ⟨hcnt.of_none_cons, fun _ _ => rfl⟩
  | some address =>
    have hmem := hcnt.mem_of_owner mem_cons_self
    obtain ⟨block, hblock⟩ := mem_blocks.mp hmem
    have hcont : heap.memory.contentOf address = some block.content := by
      rw [contentOf, hblock]
      rfl
    have hmemory : (heap.deallocate (some address)).memory = heap.memory.release address := by
      rw [deallocate, hcont]
    rw [hmemory]
    exact hcnt.release hroom

theorem copy_spec (hcnt : heap.memory.Counted (lists.map ByteTagList.data)) (hmem : list ∈ lists)
    (hroom : lists.length + 1 < 2 ^ 32) :
    (copy heap list).2 = list ∧
      (copy heap list).1.memory.Counted ((list :: lists).map ByteTagList.data) ∧
      Keeps heap (copy heap list).1 (list :: lists) := by
  rw [map_cons]
  cases hdata : list.data with
  | none =>
    simp only [copy, hdata]
    exact ⟨trivial, hcnt.none_cons, Keeps.refl heap _⟩
  | some address =>
    simp only [copy, hdata]
    refine ⟨trivial, hcnt.retain (owner_mem hmem hdata) (by rwa [length_map]),
      fun o _ bytes hholds => hholds.congr fun other _ => ?_⟩
    exact contentOf_recount _ _ _

/-! ## Adding a tag -/

theorem deref_eq {block : Block ByteTagListData}
    (hblock : heap.memory.blocks.lookup address = some block) : heap.deref address = .ok block := by
  rw [deref, hblock]

structure Writable (heap : ByteTagHeap) (address used spaceNeeded : Nat) (bytes : List UInt8)
    (content : ByteTagListData) (others : List ByteTagList) : Prop where
  content_eq : heap.memory.contentOf address = some content
  room : spaceNeeded ≤ content.data.length
  front : content.data.take used = bytes
  mine : ∀ o ∈ others, o.data = some address → o.used ≤ used

theorem write_spec (hcont : heap.memory.contentOf address = some content) {stop : Nat}
    (hstop : pos + bytes.length ≤ stop) (hroom : stop ≤ content.data.length) :
    TagBuffer.write heap ⟨address, pos, stop⟩ bytes =
      .ok (⟨heap.memory.put address ⟨overwriteAt content.data pos bytes, content.dirty⟩,
          heap.freeList, heap.maxSize⟩, ⟨address, pos + bytes.length, stop⟩) := by
  obtain ⟨block, hblock, rfl⟩ := Option.map_eq_some_iff.mp hcont
  simp only [TagBuffer.write, if_pos hstop, deref_eq hblock, bind, Except.bind,
    if_pos (le_trans hstop hroom)]
  rfl

theorem unshare_spec (hshared : Shared heap (list :: others))
    (hholds : Holds heap list.data list.used bytes) {spaceNeeded : Nat}
    (hspace : list.used ≤ spaceNeeded) (hroom : others.length + 2 < 2 ^ 32) :
    ∃ address after content, unshare heap list spaceNeeded =
        .ok (address, after, { list with data := some address }) ∧
      after.memory.Counted (some address :: others.map ByteTagList.data) ∧
      Keeps heap after others ∧
      Writable after address list.used spaceNeeded bytes content others := by
  have hcnt := hshared.counted
  obtain ⟨data, middle, hallocate, hmemory, hlen⟩ := allocate_spec heap spaceNeeded
  have hnew : ∀ owners, heap.memory.Counted owners →
      middle.memory.Counted (some heap.memory.fresh :: owners) := by
    intro owners howners
    rw [hmemory]
    exact howners.alloc _
  -- the array made for a copy belongs to no list yet
  have hfresh : middle.memory.contentOf heap.memory.fresh = some ⟨data, 0⟩ := by
    rw [hmemory, contentOf_alloc, if_pos rfl]
  have hnotMine : ∀ o ∈ others, o.data ≠ some heap.memory.fresh := by
    intro o ho hdata
    exact hcnt.ne_fresh (owner_mem (.tail _ ho) hdata) rfl
  have hsame : ∀ other, some other ∈ (list :: others).map ByteTagList.data →
      middle.memory.contentOf other = heap.memory.contentOf other := by
    intro other hother
    rw [hmemory, contentOf_alloc, if_neg (hcnt.ne_fresh hother)]
  cases hdata : list.data with
  | none =>
    rw [hdata] at hholds
    generalize hused : list.used = used at *
    cases hholds
    refine ⟨heap.memory.fresh, middle, ⟨data, 0⟩, ?_, hnew _ ?_, (Keeps.of_same hsame).tail,
      hfresh, hlen, take_zero, fun o ho hmine => absurd hmine (hnotMine o ho)⟩
    · simp only [unshare, hdata, hallocate]
    · rw [map_cons, hdata] at hcnt
      exact hcnt.of_none_cons
  | some address =>
    rw [map_cons, hdata] at hcnt
    have hhere : Holds heap (some address) list.used bytes := hdata ▸ hholds
    cases hhere with
    | @front _ _ content hcont hused hdirty =>
      obtain ⟨block, hblock, rfl⟩ := Option.map_eq_some_iff.mp hcont
      have hfront : (block.content.data.take list.used).length = list.used :=
        length_take_of_le (Nat.le_trans hused hdirty)
      -- the source copies when the array is too short, or shared and written behind the list
      by_cases hcopy : block.content.data.length < spaceNeeded ∨
          block.count ≠ 1 ∧ block.content.dirty ≠ list.used
      · have hwrite := @write_spec middle heap.memory.fresh 0 ⟨data, 0⟩
          (block.content.data.take list.used) hfresh spaceNeeded (by omega) hlen
        generalize hwrote : (⟨middle.memory.put _ _, _, _⟩ : ByteTagHeap) = written at hwrite
        have hcountedWritten : written.memory.Counted
            (some address :: some heap.memory.fresh :: others.map ByteTagList.data) := by
          rw [← hwrote]
          exact ((hnew _ hcnt).perm (.swap _ _ _)).put _ _
        obtain ⟨hafter, hkept⟩ := deallocate_spec hcountedWritten
          (by simpa using hroom)
        -- the written copy apart, all arrays say what they said
        have hput : ∀ other, written.memory.contentOf other =
            if other = heap.memory.fresh then
              some ⟨overwriteAt data 0 (block.content.data.take list.used), 0⟩
            else middle.memory.contentOf other := by
          intro other
          rw [← hwrote]
          exact contentOf_put (mem_of_contentOf hfresh) _ _
        refine ⟨heap.memory.fresh, written.deallocate (some address), _, ?_, hafter, ?_,
          (hkept _ mem_cons_self).trans ((hput _).trans (if_pos rfl)), ?_, ?_,
          fun o ho hmine => absurd hmine (hnotMine o ho)⟩
        · simp only [unshare, hdata, deref_eq hblock, bind, Except.bind, if_pos hcopy,
            hallocate, hwrite]
          rfl
        · refine Keeps.of_same fun other hother => ?_
          have hold := mem_cons_of_mem (some address) hother
          rw [hkept other (.tail _ hother), hput,
            if_neg (hcnt.ne_fresh hold), hsame other (.tail _ hother)]
        · rw [length_overwriteAt (by omega)]
          exact hlen
        · have htake := @take_overwriteAt 0 (block.content.data.take list.used) data
            (Nat.zero_le _)
          rwa [hfront, Nat.zero_add, take_zero, nil_append] at htake
      · refine ⟨address, heap, block.content, ?_, hcnt, Keeps.refl heap others, hcont,
          ?_, rfl, fun o ho hmine => ?_⟩
        · simp only [unshare, hdata, deref_eq hblock, bind, Except.bind, if_neg hcopy]
          rw [← hdata]
          rfl
        · omega
        -- kept in place: the list is alone, or the others on the array end before the mark
        · by_cases hone : block.count = 1
          · rw [← countOf_eq hblock] at hone
            exact absurd (hmine ▸ mem_map_of_mem ho) (hcnt.not_mem_of_one hone)
          · obtain ⟨held, hheld⟩ := hshared.tail o ho
            rw [hmine] at hheld
            generalize o.used = usedThere at hheld ⊢
            cases hheld with
            | front hother hle _ =>
              rw [hcont] at hother
              cases hother
              omega

structure TagEntry where
  start : Int
  stop : Int
  tag : ByteTag

def encode (entry : TagEntry) : List UInt8 :=
  entryHeader entry.tag.tid entry.tag.data.length entry.start entry.stop ++ entry.tag.data

@[simp] theorem length_entryHeader (tid : UInt16) (bufferSize : Nat) (start stop : Int) :
    (entryHeader tid bufferSize start stop).length = 16 := rfl

theorem length_encode (entry : TagEntry) : (encode entry).length = 16 + entry.tag.data.length := by
  rw [encode, length_append, length_entryHeader]

theorem Writable.fill {middle : ByteTagHeap} {spaceNeeded : Nat} {header body : List UInt8}
    (hwritable : Writable middle address used spaceNeeded bytes content others)
    (hcnt : middle.memory.Counted (some address :: others.map ByteTagList.data))
    (hneed : used + header.length + body.length = spaceNeeded) :
    ∃ first last block,
      TagBuffer.write middle ⟨address, used, spaceNeeded⟩ header =
        .ok (first, ⟨address, used + header.length, spaceNeeded⟩) ∧
        first.memory.blocks.lookup address = some block ∧
        TagBuffer.write ⟨first.memory.put address ⟨block.content.data, spaceNeeded⟩, first.freeList,
            first.maxSize⟩ ⟨address, used + header.length, spaceNeeded⟩ body =
          .ok (last, ⟨address, spaceNeeded, spaceNeeded⟩) ∧
        last.memory.Counted (some address :: others.map ByteTagList.data) ∧
        Keeps middle last others ∧
        Holds last (some address) spaceNeeded (bytes ++ (header ++ body)) := by
  have hlen := hwritable.room
  have hmem := mem_of_contentOf hwritable.content_eq
  have hfst := @write_spec middle address used content header hwritable.content_eq
    spaceNeeded (by omega) hlen
  generalize hwrote : overwriteAt content.data used header = written at hfst
  have hwrittenLength : spaceNeeded ≤ written.length := by
    rw [← hwrote, length_overwriteAt (by omega)]
    exact hlen
  generalize hheap : (⟨middle.memory.put _ _, _, _⟩ : ByteTagHeap) = first at hfst
  have hfirstContent : first.memory.contentOf address = some ⟨written, content.dirty⟩ := by
    rw [← hheap]
    exact (contentOf_put hmem _ _).trans (if_pos rfl)
  obtain ⟨block, hblock, hblockContent⟩ := Option.map_eq_some_iff.mp hfirstContent
  have hmemFirst := mem_of_contentOf hfirstContent
  have hmarked : (first.memory.put address ⟨written, spaceNeeded⟩).contentOf address =
      some ⟨written, spaceNeeded⟩ := (contentOf_put hmemFirst _ _).trans (if_pos rfl)
  have hsnd := @write_spec ⟨first.memory.put address ⟨written, spaceNeeded⟩, first.freeList,
    first.maxSize⟩ address (used + header.length) ⟨written, spaceNeeded⟩ body hmarked spaceNeeded
    (le_of_eq hneed) hwrittenLength
  rw [hneed] at hsnd
  generalize hlast : overwriteAt written (used + header.length) body = filled at hsnd
  have hfilledLength : spaceNeeded ≤ filled.length := by
    rw [← hlast, length_overwriteAt (by omega)]
    exact hwrittenLength
  -- both writes together put header and body behind the old bytes
  have hfront : filled.take spaceNeeded = bytes ++ (header ++ body) := by
    have htwice := @take_overwriteAt_twice used header content.data body (by omega)
    rwa [hneed, hwrote, hlast, hwritable.front] at htwice
  have hfinal : ∀ other, ((first.memory.put address ⟨written, spaceNeeded⟩).put address
      ⟨filled, spaceNeeded⟩).contentOf other =
        if other = address then some ⟨filled, spaceNeeded⟩
        else middle.memory.contentOf other := by
    intro other
    rw [contentOf_put (mem_of_contentOf hmarked),
      contentOf_put hmemFirst, ← hheap, contentOf_put hmem]
    split <;> rfl
  refine ⟨first, ⟨(first.memory.put address ⟨written, spaceNeeded⟩).put address
    ⟨filled, spaceNeeded⟩, first.freeList, first.maxSize⟩, block, hfst, hblock, ?_, ?_, ?_, ?_⟩
  · rw [hblockContent]
    exact hsnd
  · rw [← hheap]
    exact ((hcnt.put _ _).put _ _).put _ _
  -- a list on the same array only reads the part in front of what was written
  · intro o ho held hheld
    by_cases hsame : o.data = some address
    · have hused := hwritable.mine o ho hsame
      rw [hsame] at hheld ⊢
      generalize o.used = usedThere at hheld hused ⊢
      cases hheld with
      | front hcont _ _ =>
        rw [hwritable.content_eq] at hcont
        cases hcont
        have hkept : content.data.take usedThere = filled.take usedThere := by
          rw [← hlast, take_overwriteAt_of_le (by omega) (by omega), ← hwrote,
            take_overwriteAt_of_le (by omega) hused]
        rw [hkept]
        refine @Holds.front _ _ _ ⟨filled, spaceNeeded⟩ ((hfinal address).trans (if_pos rfl)) ?_
          hfilledLength
        change usedThere ≤ spaceNeeded
        omega
    · refine hheld.congr fun other hother => (hfinal other).trans (if_neg ?_)
      rintro rfl
      exact hsame hother
  · rw [← hfront]
    exact @Holds.front _ _ _ ⟨filled, spaceNeeded⟩ ((hfinal address).trans (if_pos rfl))
      (le_rfl) hfilledLength

theorem addTag_spec (hshared : Shared heap (list :: others))
    (hholds : Holds heap list.data list.used bytes) (hroom : others.length + 2 < 2 ^ 32)
    {tag : ByteTag} {start stop : Int} (hspace : list.used + 16 + tag.data.length < 2 ^ 32)
    (hstart : InInt32 (start - list.adjustment)) (hstop : InInt32 (stop - list.adjustment)) :
    ∃ after new,
      addTag heap list tag start stop = .ok (after, new) ∧ Shared after (new :: others) ∧
        Keeps heap after others ∧
        Holds after new.data new.used
          (bytes ++ encode ⟨start - list.adjustment, stop - list.adjustment, tag⟩) ∧
        new.adjustment = list.adjustment ∧ new.used = list.used + 16 + tag.data.length ∧
        new.minStart = min (start - list.adjustment) list.minStart ∧
        new.maxEnd = max (stop - list.adjustment) list.maxEnd := by
  have hspaceEq : uint32 (list.used + tag.data.length + 4 + 4 + 4 + 4) =
      list.used + 16 + tag.data.length := by
    rw [uint32_of_lt (by omega)]
    omega
  obtain ⟨address, middle, content, hunshare, hcnt, hkeeps, hwritable⟩ :=
    @unshare_spec _ _ _ _ hshared hholds (list.used + 16 + tag.data.length) (by omega) hroom
  obtain ⟨first, last, block, hfst, hblock, hsnd, hafter, hkeepsLast, hlast⟩ :=
    @Writable.fill _ _ _ _ _ _ _ (entryHeader tag.tid tag.data.length (start - list.adjustment)
      (stop - list.adjustment)) tag.data hwritable hcnt (by rw [length_entryHeader])
  have hkept := hkeeps.trans hkeepsLast
  refine ⟨last, ⟨min (start - list.adjustment) list.minStart, max (stop - list.adjustment)
    list.maxEnd, list.adjustment, list.used + 16 + tag.data.length, some address⟩, ?_,
    ⟨hafter, forall_mem_cons.mpr ⟨⟨_, hlast⟩, fun o ho => ?_⟩⟩, hkept, hlast, rfl, rfl, rfl,
    rfl⟩
  · simp only [addTag, add, hspaceEq, hunshare, bind, Except.bind, signed, if_pos hstart,
      if_pos hstop, hfst, deref_eq hblock, if_pos (show list.used ≤ list.used + 16 +
        tag.data.length by omega)]
    simp only [pure, Except.pure, hsnd]
  · obtain ⟨held, hheld⟩ := hshared.tail o ho
    exact ⟨held, hkept o ho held hheld⟩

end HomaSird.Network.ByteTagList
