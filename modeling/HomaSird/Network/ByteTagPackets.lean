import HomaSird.Network.ByteTagBytes
import HomaSird.Network.PacketByteTags

/-! # One packet and the tags of its bytes

Each operation on a packet does to its list what it does to the tags of the bytes, and
leaves what other lists hold.
-/

/-! ## The offsets of byte tags are 32-bit integers -/

namespace HomaSird.Network

open HomaSird.Transition

namespace ByteTagList

def decodeEntry (bytes : List UInt8) : Option (TagEntry × List UInt8) := do
  let (tid, bytes) ← readU32 bytes
  let (size, bytes) ← readU32 bytes
  let (start, bytes) ← readU32 bytes
  let (stop, bytes) ← readU32 bytes
  return (⟨int32 start, int32 stop, ⟨UInt16.ofNat tid, bytes.take size⟩⟩, bytes.drop size)

def decode : Nat → List UInt8 → List TagEntry
  | 0, _ => []
  | fuel + 1, bytes =>
    match decodeEntry bytes with
    | none => []
    | some (entry, rest) => entry :: decode fuel rest

def entriesOf (heap : ByteTagHeap) (list : ByteTagList) : List TagEntry :=
  match list.data with
  | none => []
  | some address =>
    match heap.memory.contentOf address with
    | none => []
    | some content => decode list.used (content.data.take list.used)

def Movable (heap : ByteTagHeap) (list : ByteTagList) (adjustment : Int) : Prop :=
  InInt32 (list.adjustment + adjustment) ∧ ∀ entry ∈ list.entriesOf heap,
    InInt32 (entry.start + list.adjustment + adjustment) ∧
      InInt32 (entry.stop + list.adjustment + adjustment)

instance (heap : ByteTagHeap) (list : ByteTagList) (adjustment : Int) :
    Decidable (Movable heap list adjustment) := inferInstanceAs (Decidable (_ ∧ _))

def Addable (list : ByteTagList) (tag : ByteTag) (start stop : Int) : Prop :=
  list.used + 16 + tag.data.length < 2 ^ 32 ∧ (InInt32 start ∧ InInt32 stop) ∧
    InInt32 (start - list.adjustment) ∧ InInt32 (stop - list.adjustment)

instance (list : ByteTagList) (tag : ByteTag) (start stop : Int) :
    Decidable (list.Addable tag start stop) := inferInstanceAs (Decidable (_ ∧ _ ∧ _))

/-- The tags of a list fit behind those of another, moved to the end of its packet. -/
def Appendable (heap : ByteTagHeap) (list : ByteTagList) (size : Int) (o : ByteTagList) : Prop :=
  list.used + o.used < 2 ^ 32 ∧ InInt32 (size - list.adjustment) ∧ InInt32 (-o.adjustment) ∧
    o.Movable heap size ∧ ∀ entry ∈ o.entriesOf heap,
      entry.stop + o.adjustment + size - list.adjustment < 2 ^ 31

instance (heap : ByteTagHeap) (list : ByteTagList) (size : Int) (o : ByteTagList) :
    Decidable (list.Appendable heap size o) := inferInstanceAs (Decidable (_ ∧ _ ∧ _ ∧ _ ∧ _))

variable {heap : ByteTagHeap} {list : ByteTagList} {entries : List TagEntry}

theorem int32_uint32OfInt {value : Int} (hval : InInt32 value) :
    int32 (uint32OfInt value) = value := by
  have hsum := int32_uint32OfInt_add value 0
  rwa [Int.add_zero, Int.add_zero, int32_of_inInt32 hval] at hsum

theorem decodeEntry_encode {entry : TagEntry} (hsz : entry.tag.data.length < 2 ^ 32)
    (hstored : InInt32 entry.start ∧ InInt32 entry.stop) (rest : List UInt8) :
    decodeEntry (encode entry ++ rest) = some (entry, rest) := by
  have htid : entry.tag.tid.toNat < 2 ^ 32 := by
    have hlt := entry.tag.tid.toNat_lt
    omega
  have hbytes : encode entry ++ rest = u32Bytes entry.tag.tid.toNat ++
      (u32Bytes entry.tag.data.length ++ (u32Bytes (uint32OfInt entry.start) ++
        (u32Bytes (uint32OfInt entry.stop) ++ (entry.tag.data ++ rest)))) := by
    rw [encode, entryHeader]
    simp only [List.append_assoc]
  simp only [decodeEntry, hbytes, readU32_u32Bytes htid, readU32_u32Bytes hsz,
    readU32_u32Bytes (uint32OfInt_lt _), Option.bind_eq_bind, Option.bind_some,
    int32_uint32OfInt hstored.1, int32_uint32OfInt hstored.2, UInt16.ofNat_toNat, List.take_left,
    List.drop_left]
  rfl

theorem decode_encodeAll {fuel : Nat} (hsz : (encodeAll entries).length < 2 ^ 32)
    (hstored : ∀ entry ∈ entries, InInt32 entry.start ∧ InInt32 entry.stop)
    (hfuel : entries.length ≤ fuel) : decode fuel (encodeAll entries) = entries := by
  induction entries generalizing fuel with
  | nil =>
    cases fuel with
    | zero => rfl
    | succ fuel => rfl
  | cons entry rest ih =>
    obtain ⟨fuel, rfl⟩ := Nat.exists_eq_succ_of_ne_zero (Nat.ne_zero_of_lt hfuel)
    rw [encodeAll_cons, List.length_append, length_encode] at hsz
    rw [encodeAll_cons, decode, decodeEntry_encode (by omega)
      (hstored entry List.mem_cons_self)]
    exact congrArg (entry :: ·) (ih (by omega)
      (fun other hmem => hstored other (.tail _ hmem))
      (Nat.le_of_succ_le_succ hfuel))

theorem entriesOf_eq (hstores : Stores heap list entries) : list.entriesOf heap = entries := by
  have hholds := hstores.holds
  have hlen := hholds.length
  have hused := hstores.used_lt
  have hle := length_le_encodeAll entries
  rw [entriesOf]
  generalize hbytes : encodeAll entries = bytes at *
  generalize list.data = target at *
  generalize list.used = used at *
  cases hholds with
  | empty => exact (List.length_eq_zero_iff.mp (Nat.le_zero.mp hle)).symm
  | front hcont _ _ =>
    simp only [hcont]
    rw [← hbytes] at hlen hle ⊢
    exact decode_encodeAll (hlen ▸ hused) hstores.stored (hlen ▸ hle)

end ByteTagList

namespace PacketCall

def packetOf (store : PacketStore) (packet : PacketId) : TaggedPacket :=
  store.packets.getD packet {}

/-- No offset of a tag that is stored, moved or joined leaves its type, nor do the bytes used, nor
the number of lists. -/
def Fits (store : PacketStore) (call : PacketCall) : Prop :=
  store.packets.entries.length + 4 < 2 ^ 32 ∧
    match call with
    | create _ _ | copy _ _ | destroy _ | removeTrailer _ _ | removeAtEnd _ _ => True
    | addByteTag packet tag =>
      (packetOf store packet).byteTagList.Addable tag 0 (packetOf store packet).size
    | addByteTagRange packet tag start stop =>
      (packetOf store packet).byteTagList.Addable tag start stop
    | addHeader packet size => (packetOf store packet).byteTagList.Movable store.heap size ∧
        InInt32 (-(packetOf store packet).byteTagList.adjustment)
    | addTrailer packet _ | addPaddingAtEnd packet _ =>
      InInt32 ((packetOf store packet).size - (packetOf store packet).byteTagList.adjustment)
    | addAtEnd packet o => (packetOf store packet).byteTagList.Appendable store.heap
        (packetOf store packet).size (packetOf store o).byteTagList
    | removeHeader packet size | removeAtStart packet size =>
      (packetOf store packet).byteTagList.Movable store.heap (-size)
    | createFragment _ packet start _ =>
      (packetOf store packet).byteTagList.Movable store.heap (-start)

instance (store : PacketStore) (call : PacketCall) : Decidable (call.Fits store) :=
  match call with
  | create _ _ | copy _ _ | destroy _ | removeTrailer _ _ | removeAtEnd _ _ | addByteTag _ _ |
    addByteTagRange _ _ _ _ | addTrailer _ _ | addPaddingAtEnd _ _ | addAtEnd _ _ |
    removeHeader _ _ | removeAtStart _ _ | createFragment _ _ _ _ =>
      inferInstanceAs (Decidable (_ ∧ _))
  | addHeader _ _ => inferInstanceAs (Decidable (_ ∧ _ ∧ _))

end PacketCall

open ByteTagList List TaggedPacket

structure Tagged (heap : ByteTagHeap) (packet : TaggedPacket) (bytes : TaggedBytes) : Prop where
  size : packet.size = bytes.size
  small : bytes.size < 2 ^ 31
  tags : ∃ entries, Stores heap packet.byteTagList entries ∧ ∀ byte : Nat, byte < bytes.size →
    tagsAt entries packet.byteTagList.adjustment byte = bytes.tags byte

/-- A heap with a packet that stands for some bytes, where other lists hold what they held. -/
structure Yields (heap after : ByteTagHeap) (packet : TaggedPacket) (bytes : TaggedBytes)
    (others : List ByteTagList) : Prop where
  shared : Shared after (packet.byteTagList :: others)
  keeps : Keeps heap after others
  tagged : Tagged after packet bytes

variable {heap after : ByteTagHeap} {list o : ByteTagList} {packet : TaggedPacket}
  {bytes otherBytes : TaggedBytes} {others lists : List ByteTagList} {entries : List TagEntry}

theorem Tagged.keeps (htagged : Tagged heap packet bytes) (hkeeps : Keeps heap after lists)
    (hmem : packet.byteTagList ∈ lists) : Tagged after packet bytes := by
  obtain ⟨entries, hstores, htags⟩ := htagged.tags
  exact { htagged with tags := ⟨entries, hstores.keeps hkeeps hmem, htags⟩ }

variable {size : Nat}

theorem int32_of_lt (hlt : size < 2 ^ 31) : int32 size = size :=
  int32_of_inInt32 (by unfold InInt32; omega)

theorem int32_neg_of_lt (hlt : size < 2 ^ 31) : int32 (-size) = -size :=
  int32_of_inInt32 (by unfold InInt32; omega)

section

variable (hshared : Shared heap (packet.byteTagList :: others)) (htagged : Tagged heap packet bytes)
include hshared htagged

theorem addTag_yields {tag : ByteTag} {start stop : Nat} (hroom : others.length + 2 < 2 ^ 32)
    (hord : start ≤ stop) (hfits : packet.byteTagList.Addable tag start stop) :
    ∃ after list,
      packet.byteTagList.addTag heap tag start stop = .ok (after, list) ∧
        Yields heap after { packet with byteTagList := list } (bytes.addByteTag tag start stop)
          others := by
  obtain ⟨entries, hstores, htags⟩ := htagged.tags
  obtain ⟨hspace, hplaced, hstored⟩ := hfits
  obtain ⟨after, list, hadd, hafter, hkeeps, hnew, hadj, -⟩ :=
    addTag_stores tag start stop hshared hstores hroom hspace (by omega) hplaced hstored
  refine ⟨after, list, hadd, hafter, hkeeps, htagged.size, htagged.small, _, hnew,
    fun byte hbyte => ?_⟩
  rw [hadj, tagsAt_append, htags byte hbyte, TaggedBytes.addByteTag, tagsAt]
  dsimp only
  split
  next hin =>
    rw [filter_cons_of_pos]
    · rfl
    · refine decide_eq_true ?_
      unfold Covers
      dsimp only
      omega
  next hout =>
    rw [filter_cons_of_neg]
    · exact append_nil _
    · refine fun hcov => hout ?_
      have hthere := of_decide_eq_true hcov
      unfold Covers at hthere
      dsimp only at hthere
      omega

theorem addHeader_yields {size : Nat} (hroom : others.length + 4 < 2 ^ 32)
    (hsz : bytes.size + size < 2 ^ 31) (hfits : packet.byteTagList.Movable heap size)
    (hbd : InInt32 (-packet.byteTagList.adjustment)) :
    ∃ after new,
      packet.addHeader heap size = .ok (after, new) ∧
        Yields heap after new (bytes.addAtStart size) others := by
  obtain ⟨entries, hstores, htags⟩ := htagged.tags
  obtain ⟨hadj, hplaced⟩ := hfits
  rw [entriesOf_eq hstores] at hplaced
  obtain ⟨hadjust, hmoved⟩ := adjust_spec hstores hadj hplaced
  have hdist : (size : Int) - (packet.byteTagList.adjustment + size) =
      -packet.byteTagList.adjustment := by omega
  obtain ⟨after, new, rest, hadd, hafter, hkeeps, hnew, -, hbehind, hpre⟩ :=
    addAtStart_spec (hshared.adjust _) hmoved hroom (Int.natCast_nonneg size)
      (by rwa [hdist])
  refine ⟨after, ⟨packet.size + size, new⟩, ?_, hafter, hkeeps, ?_, hsz, rest, hnew,
    fun byte hbyte => ?_⟩
  · rw [addHeader, int32_of_lt (by omega), hadjust]
    simp only [bind, Except.bind, hadd]
    rfl
  · exact congrArg (· + size) htagged.size
  · rw [TaggedBytes.addAtStart] at hbyte ⊢
    dsimp only at hbyte ⊢
    split
    next hheader =>
      refine tagsAt_eq_nil fun entry hmem hcov => ?_
      have hstart := hpre entry hmem
      unfold Covers at hcov
      omega
    next hthere =>
      rw [hbehind byte (by omega) (by unfold offsetMax; omega), tagsAt_adjust,
        ← htags (byte - size) (by omega)]
      congr 1
      omega

theorem removeAtStart_yields {size : Nat} (hsz : size < 2 ^ 31)
    (hfits : packet.byteTagList.Movable heap (-size)) :
    ∃ new,
      packet.removeAtStart size = .ok new ∧
        Yields heap heap new (bytes.removeAtStart size) others := by
  obtain ⟨entries, hstores, htags⟩ := htagged.tags
  obtain ⟨hadj, hplaced⟩ := hfits
  rw [entriesOf_eq hstores] at hplaced
  obtain ⟨hadjust, hmoved⟩ := adjust_spec hstores hadj hplaced
  have hsmall := htagged.small
  refine ⟨⟨packet.size - size, { packet.byteTagList with
    adjustment := packet.byteTagList.adjustment + -size }⟩, ?_, hshared.adjust _, Keeps.refl _ _,
    ?_, ?_, entries, hmoved, fun byte hbyte => ?_⟩
  · rw [removeAtStart, int32_neg_of_lt hsz, hadjust]
    rfl
  · exact congrArg (· - size) htagged.size
  · change bytes.size - size < 2 ^ 31
    omega
  · change byte < bytes.size - size at hbyte
    change _ = bytes.tags (byte + size)
    rw [tagsAt_adjust, ← htags (byte + size) (by omega)]
    congr 1
    omega

end

theorem removeAtEnd_yields (size : Nat)
    (hshared : Shared heap (packet.byteTagList :: others)) (htagged : Tagged heap packet bytes) :
    Yields heap heap (packet.removeAtEnd size) (bytes.removeAtEnd size) others := by
  obtain ⟨entries, hstores, htags⟩ := htagged.tags
  refine ⟨hshared, Keeps.refl _ _, congrArg (· - size) htagged.size,
    lt_of_le_of_lt (Nat.sub_le _ _) htagged.small, entries, hstores, fun byte hbyte => ?_⟩
  exact htags byte (lt_of_lt_of_le hbyte (Nat.sub_le _ _))

theorem addPaddingAtEnd_yields (hshared : Shared heap (packet.byteTagList :: others))
    (htagged : Tagged heap packet bytes) (hroom : others.length + 4 < 2 ^ 32)
    (hsz : bytes.size + size < 2 ^ 31)
    (hfits : InInt32 (packet.size - packet.byteTagList.adjustment)) :
    ∃ after new,
      packet.addPaddingAtEnd heap size = .ok (after, new) ∧
        Yields heap after new (bytes.append ⟨size, fun _ => []⟩) others := by
  obtain ⟨entries, hstores, htags⟩ := htagged.tags
  have hsame := htagged.size
  have hsmall : packet.size < 2 ^ 31 := hsame ▸ htagged.small
  obtain ⟨after, new, rest, hadd, hafter, hkeeps, hnew, -, hpre, hbehind⟩ :=
    addAtEnd_spec hshared hstores hroom (Int.ofNat_lt.mpr hsmall) hfits
  refine ⟨after, ⟨packet.size + size, new⟩, ?_, hafter, hkeeps, congrArg (· + size) hsame, hsz,
    rest, hnew, fun byte hbyte => ?_⟩
  · rw [addPaddingAtEnd, int32_of_lt hsmall]
    simp only [bind, Except.bind, hadd]
    rfl
  · rw [TaggedBytes.append]
    dsimp only
    split
    next hin => rw [hpre byte (by omega) (by omega), htags byte hin]
    next hout => exact hbehind byte (by omega)

theorem copy_yields (hshared : Shared heap others) (hmem : packet.byteTagList ∈ others)
    (htagged : Tagged heap packet bytes) (hroom : others.length + 1 < 2 ^ 32) :
    (packet.byteTagList.copy heap).2 = packet.byteTagList ∧
      Yields heap (packet.byteTagList.copy heap).1 packet bytes others := by
  obtain ⟨hcopy, hcnt, hkeeps⟩ := copy_spec hshared.counted hmem hroom
  refine ⟨hcopy, ⟨hcnt, fun o ho => ?_⟩, hkeeps.tail, htagged.keeps hkeeps mem_cons_self⟩
  obtain ⟨held, hheld⟩ := hshared.holds o (by
    rcases mem_cons.mp ho with rfl | hother
    · exact hmem
    · exact hother)
  exact ⟨held, hkeeps o ho held hheld⟩

theorem deallocate_keeps (hshared : Shared heap (list :: others))
    (hroom : others.length + 1 < 2 ^ 32) :
    Shared (heap.deallocate list.data) others ∧ Keeps heap (heap.deallocate list.data) others := by
  obtain ⟨hcnt, hsame⟩ := @deallocate_spec heap list.data (others.map ByteTagList.data)
    hshared.counted (by rwa [length_map])
  have hkeeps : Keeps heap (heap.deallocate list.data) others := Keeps.of_same hsame
  refine ⟨⟨hcnt, fun o ho => ?_⟩, hkeeps⟩
  obtain ⟨held, hheld⟩ := hshared.tail o ho
  exact ⟨held, hkeeps o ho held hheld⟩

theorem handOver_yields (htagged : Tagged heap packet bytes)
    (hshared : Shared heap (packet.byteTagList :: others)) (hroom : others.length + 2 < 2 ^ 32) :
    (packet.byteTagList.copy heap).2 = packet.byteTagList ∧
      Yields heap ((packet.byteTagList.copy heap).1.deallocate packet.byteTagList.data) packet bytes
        others := by
  obtain ⟨hcopy, hcopied⟩ := copy_yields hshared mem_cons_self htagged hroom
  obtain ⟨hfreed, hkeeps⟩ := deallocate_keeps hcopied.shared hroom
  exact ⟨hcopy, hfreed, hcopied.keeps.tail.trans hkeeps.tail,
    hcopied.tagged.keeps hkeeps mem_cons_self⟩

theorem createFragment_yields {start length : Nat} (hshared : Shared heap others)
    (hmem : packet.byteTagList ∈ others) (htagged : Tagged heap packet bytes)
    (hroom : others.length + 2 < 2 ^ 32) (hinside : start + length ≤ bytes.size)
    (hfits : packet.byteTagList.Movable heap (-start)) :
    ∃ after new, packet.createFragment heap start length = .ok (after, new) ∧
      Yields heap after new { bytes.removeAtStart start with size := length } others := by
  obtain ⟨hcopy, hcopied⟩ := copy_yields hshared hmem htagged (by omega)
  obtain ⟨entries, hstores, htags⟩ := htagged.tags
  obtain ⟨hadj, hplaced⟩ := hfits
  rw [entriesOf_eq hstores] at hplaced
  have hsmall := htagged.small
  obtain ⟨hadjust, hmoved⟩ := adjust_spec (hstores.keeps hcopied.keeps hmem) hadj hplaced
  have hfrag : Tagged (packet.byteTagList.copy heap).1 ⟨length, { packet.byteTagList with
      adjustment := packet.byteTagList.adjustment + -start }⟩
      { bytes.removeAtStart start with size := length } := by
    refine ⟨rfl, (show length < 2 ^ 31 by omega), entries, hmoved, fun byte hbyte => ?_⟩
    change byte < length at hbyte
    change _ = bytes.tags (byte + start)
    rw [tagsAt_adjust, ← htags (byte + start) (by omega)]
    congr 1
    omega
  obtain ⟨hlist, hyields⟩ := handOver_yields hfrag (hcopied.shared.adjust _) hroom
  refine ⟨_, _, ?_, hyields.shared, hcopied.keeps.trans hyields.keeps, hyields.tagged⟩
  rw [createFragment, int32_neg_of_lt (by omega)]
  simp only [hcopy, hadjust, bind, Except.bind, if_pos (htagged.size ▸ hinside), hlist]
  rfl

/-! ## Appending a packet -/

structure Joins (list : ByteTagList) (size : Int) (o : ByteTagList) (entries : List TagEntry) :
    Prop where
  used : list.used + o.used < 2 ^ 32
  base : InInt32 (size - list.adjustment)
  origin : InInt32 (-o.adjustment)
  moved : InInt32 (o.adjustment + size)
  stop : ∀ entry ∈ entries, entry.stop + o.adjustment + size < 2 ^ 31 ∧
    entry.stop + o.adjustment + size - list.adjustment < 2 ^ 31

theorem Joins.cut {size : Int} {new cut : ByteTagList} {mine more rest : List TagEntry}
    (hjoins : Joins list size o more) (hpos : 0 ≤ size) (hlt : size < 2 ^ 31) (hnew :
    Within list entries new mine) (hcut : Within o more cut rest) : Joins new size cut rest := by
  obtain ⟨hused, hbase, horigin, hmoved, hstop⟩ := hjoins
  unfold InInt32 at *
  have hnewUsed := hnew.used
  have hcutUsed := hcut.used
  have hnewAdjustment := hnew.adjustment
  have hcutAdjustment := hcut.adjustment
  refine ⟨by omega, ?_, ?_, ?_, fun entry hmem => ?_⟩
  · unfold InInt32
    omega
  · unfold InInt32
    omega
  · unfold InInt32
    omega
  · obtain ⟨old, hold, hle⟩ := hcut.stop entry hmem
    have holdStop := hstop old hold
    omega

theorem appendTags_spec {mine more : List TagEntry}
    (hshared : Shared heap (packet.byteTagList :: others)) (hmem : o ∈ packet.byteTagList :: others)
    (hstores : Stores heap packet.byteTagList mine) (hmore : Stores heap o more)
    (hroom : others.length + 5 < 2 ^ 32) (hsz : packet.size < 2 ^ 31)
    (hjoins : Joins packet.byteTagList packet.size o more)
    (hend :
      ∀ byte : Int, packet.size ≤ byte → tagsAt mine packet.byteTagList.adjustment byte = []) :
    ∃ after list rest,
      packet.appendTags heap o = .ok (after, list) ∧ Shared after (list :: others) ∧
        Keeps heap after others ∧ Stores after list rest ∧
        ∀ byte : Nat,
          byte < 2 ^ 31 - 1 →
            tagsAt rest list.adjustment byte =
              if byte < packet.size then tagsAt mine packet.byteTagList.adjustment byte
              else tagsAt more o.adjustment ((byte - packet.size : Nat) : Int) := by
  obtain ⟨hcopy, hcnt, hkeepsCopy⟩ := copy_spec hshared.counted hmem
    (by rw [length_cons]; omega)
  have hcopied : Shared (o.copy heap).1 (o :: packet.byteTagList :: others) := by
    refine ⟨hcnt, forall_mem_cons.mpr ⟨⟨_, hkeepsCopy o mem_cons_self _ hmore.holds⟩,
      fun other hother => ?_⟩⟩
    obtain ⟨held, hheld⟩ := hshared.holds other hother
    exact ⟨held, hkeepsCopy other (.tail _ hother) held hheld⟩
  obtain ⟨cutHeap, cut, rest, hcut, hcutShared, hkeepsCut, hcutStores, hwithin, hcutTags, hfst⟩ :=
    addAtStart_spec hcopied (hmore.keeps hkeepsCopy mem_cons_self)
      (by rw [length_cons]; omega) (Int.le_refl 0) (by simpa using hjoins.origin)
  have hjoinsCut := hjoins.cut (Int.natCast_nonneg _) (by omega) (.refl _ mine) hwithin
  have hbase := hjoinsCut.base
  unfold InInt32 at hbase
  -- moved behind the packet the offsets of the other list still fit
  have hplaced : ∀ entry ∈ rest, InInt32 (entry.start + cut.adjustment + packet.size) ∧
      InInt32 (entry.stop + cut.adjustment + packet.size) := by
    intro entry hent
    have hstart := hfst entry hent
    have hord := hcutStores.ordered entry hent
    have hstop := hjoinsCut.stop entry hent
    unfold InInt32
    omega
  obtain ⟨hadjust, hmoved⟩ := adjust_spec hcutStores hjoinsCut.moved hplaced
  obtain ⟨sumHeap, sum, all, hsum, hsumShared, hkeepsSum, hsumStores, hsumTags⟩ :=
    addList_spec ((hcutShared.adjust _).perm (.swap _ _ _)) mem_cons_self
      ((hstores.keeps hkeepsCopy (mem_cons_of_mem _ mem_cons_self)).keeps hkeepsCut
        mem_cons_self) hmoved (by rw [length_cons]; omega) hjoinsCut.used
      (fun entry hent => by
        have hstart := hfst entry hent
        have hord := hcutStores.ordered entry hent
        have hstop := hjoinsCut.stop entry hent
        dsimp only
        unfold InInt32
        omega)
  obtain ⟨hfreed, hkeepsFreed⟩ := deallocate_keeps (hsumShared.perm (.swap _ _ _))
    (by rw [length_cons]; omega)
  refine ⟨_, sum, all, ?_, hfreed, ((hkeepsCopy.tail.trans hkeepsCut).tail.trans
    hkeepsSum.tail).trans hkeepsFreed.tail, hsumStores.keeps hkeepsFreed mem_cons_self,
    fun byte hbyte => ?_⟩
  · rw [appendTags, int32_of_lt hsz]
    simp only [hcopy, hcut, hadjust, hsum, bind, Except.bind]
    rfl
  · rw [hsumTags byte (by omega) (by unfold offsetMax; omega)]
    dsimp only
    split
    next hin =>
      -- the appended list only names bytes from the old end on
      have hnone : tagsAt rest (cut.adjustment + packet.size) byte = [] := by
        refine tagsAt_eq_nil fun entry hent hcov => ?_
        have hstart := hfst entry hent
        unfold Covers at hcov
        omega
      rw [hnone, append_nil]
    next hout =>
      have hdist : (byte : Int) - packet.size = ((byte - packet.size : Nat) : Int) := by omega
      rw [hend byte (by omega), nil_append, tagsAt_adjust, hdist,
        hcutTags _ (by omega) (by unfold offsetMax; omega)]

end HomaSird.Network
