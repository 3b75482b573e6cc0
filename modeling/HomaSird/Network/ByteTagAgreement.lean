import HomaSird.Network.ByteTagPackets

/-! # Byte tags stay on their bytes

While no offset of a tag leaves its type, reading the byte tags of any packet gives each of
its bytes the tags that the reference has for it, in their order.
-/

namespace HomaSird.Network

open HomaSird.Transition ByteTagList PacketCall UnorderedMap

def listsOf (packets : UnorderedMap PacketId TaggedPacket) : List ByteTagList :=
  packets.entries.map fun entry => entry.2.byteTagList

variable {store : PacketStore} {reference : TaggedReference} {id other : PacketId}
  {packets : UnorderedMap PacketId TaggedPacket} {packet o : TaggedPacket} {bytes : TaggedBytes}
  {after : ByteTagHeap}

theorem listsOf_insert (packets : UnorderedMap PacketId TaggedPacket)
    (id : PacketId) (packet : TaggedPacket) :
    listsOf (packets.insert id packet) = packet.byteTagList :: listsOf (packets.erase id) := by
  rw [listsOf, AList.entries_insert, List.map_cons]
  rfl

theorem listsOf_perm (hlook : packets.lookup id = some packet) :
    (listsOf packets).Perm (packet.byteTagList :: listsOf (packets.erase id)) :=
  (entries_perm hlook).map _

theorem mem_listsOf (hlook : packets.lookup id = some packet) :
    packet.byteTagList ∈ listsOf packets :=
  (listsOf_perm hlook).mem_iff.mpr List.mem_cons_self

theorem length_listsOf_erase (packets : UnorderedMap PacketId TaggedPacket)
    (id : PacketId) : (listsOf (packets.erase id)).length ≤ packets.entries.length := by
  rw [listsOf, List.length_map]
  exact (List.kerase_sublist id packets.entries).length_le

theorem erase_of_not_mem (hnot : id ∉ packets) : packets.erase id = packets :=
  AList.ext (List.kerase_of_notMem_keys hnot)

structure Agrees (store : PacketStore) (reference : TaggedReference) : Prop where
  shared : Shared store.heap (listsOf store.packets)
  same : ∀ id, (store.packets.lookup id).isSome = (reference.lookup id).isSome
  tagged : ∀ id packet bytes, store.packets.lookup id = some packet →
    reference.lookup id = some bytes → Tagged store.heap packet bytes

namespace Agrees

theorem of_mem (hagrees : Agrees store reference) (hmem : id ∈ reference) :
    ∃ packet,
      store.packets.lookup id = some packet ∧ Tagged store.heap packet (bytesOf reference id) ∧
        Shared store.heap (packet.byteTagList :: listsOf (store.packets.erase id)) := by
  obtain ⟨bytes, hbytes⟩ := Option.isSome_iff_exists.mp (AList.lookup_isSome.mpr hmem)
  have hsome := hagrees.same id
  rw [hbytes, Option.isSome_some] at hsome
  obtain ⟨packet, hpkt⟩ := Option.isSome_iff_exists.mp hsome
  refine ⟨packet, hpkt, ?_, hagrees.shared.perm (listsOf_perm hpkt)⟩
  rw [bytesOf, getD, hbytes, Option.getD_some]
  exact hagrees.tagged id packet bytes hpkt hbytes

theorem not_mem (hagrees : Agrees store reference)
    (hnot : id ∉ reference) : store.packets.erase id = store.packets := by
  refine erase_of_not_mem fun hmem => hnot ?_
  rw [← AList.lookup_isSome, ← hagrees.same id]
  exact AList.lookup_isSome.mpr hmem

theorem put (hagrees : Agrees store reference)
    (hyields : Yields store.heap after packet bytes (listsOf (store.packets.erase id))) :
    Agrees (store.put id (after, packet)) (reference.insert id bytes) where
  shared := by
    rw [PacketStore.put, listsOf_insert]
    exact hyields.shared
  same other := by
    rw [PacketStore.put, lookup_insert, lookup_insert]
    split
    · rfl
    · exact hagrees.same other
  tagged other stored kept hstored hkept := by
    rw [PacketStore.put, lookup_insert] at hstored
    rw [lookup_insert] at hkept
    split at hstored
    next heq =>
      rw [if_pos heq] at hkept
      cases hstored
      cases hkept
      exact hyields.tagged
    next hne =>
      rw [if_neg hne] at hkept
      have hthere : (store.packets.erase id).lookup other = some stored := by
        rw [AList.lookup_erase_ne hne]
        exact hstored
      exact (hagrees.tagged other stored kept hstored hkept).keeps hyields.keeps
        (mem_listsOf hthere)

theorem destroy (hagrees : Agrees store reference) (hpkt : store.packets.lookup id = some packet)
    (hroom : store.packets.entries.length + 1 < 2 ^ 32) :
    Agrees ⟨store.heap.deallocate packet.byteTagList.data, store.packets.erase id⟩
      (reference.erase id) := by
  have hlen := length_listsOf_erase store.packets id
  obtain ⟨hshared, hkeeps⟩ := deallocate_keeps (hagrees.shared.perm (listsOf_perm hpkt))
    (by omega)
  refine ⟨hshared, fun other => ?_, fun other stored kept hstored hkept => ?_⟩
  · rw [lookup_erase, lookup_erase]
    split
    · rfl
    · exact hagrees.same other
  · have hthere := mem_listsOf hstored
    rw [lookup_erase] at hstored hkept
    split at hstored
    · exact nomatch hstored
    next hne =>
      rw [if_neg hne] at hkept
      exact (hagrees.tagged other stored kept hstored hkept).keeps hkeeps hthere

theorem find_eq (hlook : store.packets.lookup id = some packet) : store.find id = .ok packet := by
  rw [PacketStore.find, hlook]

theorem packetOf_eq (hlook : store.packets.lookup id = some packet) :
    packetOf store id = packet := by
  rw [packetOf, getD, hlook, Option.getD_some]

theorem addAtEnd (hagrees : Agrees store reference) (hmem : id ∈ reference)
    (hother : other ∈ reference) (hroom : store.packets.entries.length + 4 < 2 ^ 32)
    (hsz : (bytesOf reference id).size + (bytesOf reference other).size < 2 ^ 31)
    (hfits : (packetOf store id).byteTagList.Appendable store.heap (packetOf store id).size
      (packetOf store other).byteTagList) :
    ∃ after,
      store.addAtEnd id other = .ok after ∧
        Agrees after
          (reference.insert id ((bytesOf reference id).append (bytesOf reference other))) := by
  obtain ⟨packet, hpkt, htagged, hshared⟩ := hagrees.of_mem hmem
  obtain ⟨o, ho, hoTagged, hoShared⟩ := hagrees.of_mem hother
  obtain ⟨entries, hstores, htags⟩ := htagged.tags
  obtain ⟨more, hmore, hmoreTags⟩ := hoTagged.tags
  rw [packetOf_eq hpkt, packetOf_eq ho] at hfits
  obtain ⟨hused, hbase, horigin, ⟨hmoved, hplaced⟩, hstop⟩ := hfits
  rw [entriesOf_eq hmore] at hplaced hstop
  have hlen := (listsOf_perm hpkt).length_eq
  rw [listsOf, List.length_map, List.length_cons] at hlen
  have hsmall : packet.size < 2 ^ 31 := htagged.size ▸ htagged.small
  obtain ⟨middle, new, mine, hend, hmiddle, hkeeps, hnew, hwithin, hpre, hbehind⟩ :=
    addAtEnd_spec hshared hstores (by omega) (Int.ofNat_lt.mpr hsmall) hbase
  have hjoins : Joins packet.byteTagList packet.size o.byteTagList more :=
    ⟨hused, hbase, horigin, hmoved, fun entry hent =>
      ⟨(hplaced entry hent).2.2, hstop entry hent⟩⟩
  -- the other list as it is when it is copied: it has been cut if it is the same one
  obtain ⟨o', more', hfind, hmem', hmore', hcut, hsize', htags'⟩ :
      ∃ (o' : TaggedPacket) (more' : List TagEntry),
        (store.packets.insert id { packet with byteTagList := new }).lookup other = some o' ∧
        o'.byteTagList ∈ new :: listsOf (store.packets.erase id) ∧
        Stores middle o'.byteTagList more' ∧
        Within o.byteTagList more o'.byteTagList more' ∧ o'.size = o.size ∧
        ∀ byte : Nat, byte < (bytesOf reference other).size →
          tagsAt more' o'.byteTagList.adjustment byte =
            (bytesOf reference other).tags byte := by
    by_cases hsame : other = id
    · subst hsame
      obtain rfl := Option.some.inj (hpkt.symm.trans ho)
      obtain rfl := (entriesOf_eq hstores).symm.trans (entriesOf_eq hmore)
      refine ⟨_, mine, AList.lookup_insert _, List.mem_cons_self, hnew, hwithin, rfl,
        fun byte hbyte => ?_⟩
      rw [← htagged.size] at hbyte
      rw [hpre byte (by omega) (by omega), htags byte (htagged.size ▸ hbyte)]
    · have hthere : (store.packets.erase id).lookup other = some o := by
        rw [AList.lookup_erase_ne hsame, ho]
      refine ⟨o, more, ?_, List.mem_cons_of_mem _ (mem_listsOf hthere),
        hmore.keeps hkeeps (mem_listsOf hthere), .refl _ _, rfl, hmoreTags⟩
      rw [AList.lookup_insert_ne hsame, ho]
  obtain ⟨after, list, all, happend, hafter, hkeepsAfter, hall, hallTags⟩ :=
    @appendTags_spec middle o'.byteTagList ⟨packet.size, new⟩ _ mine more' hmiddle hmem' hnew
      hmore' (by omega) hsmall (hjoins.cut (Int.natCast_nonneg _) (Int.ofNat_lt.mpr hsmall)
        hwithin hcut) (fun byte hbyte => hbehind byte hbyte)
  refine ⟨store.put id (after, ⟨packet.size + o'.size, list⟩), ?_, hagrees.put ⟨hafter,
    hkeeps.trans hkeepsAfter, ?_, hsz, all, hall, fun byte hbyte => ?_⟩⟩
  · rw [PacketStore.addAtEnd]
    refine bind_eq_ok.mpr ⟨packet, find_eq hpkt, bind_eq_ok.mpr ⟨(middle, new),
      by rw [int32_of_lt hsmall, hend], bind_eq_ok.mpr ⟨o', find_eq hfind,
        bind_eq_ok.mpr ⟨(after, list), happend, ?_⟩⟩⟩⟩
    simp only [PacketStore.put, AList.insert_insert]
    rfl
  · rw [hsize', htagged.size, hoTagged.size]
    rfl
  · rw [TaggedBytes.append] at hbyte ⊢
    dsimp only at hbyte ⊢
    rw [hallTags byte (by omega), htagged.size]
    split
    next hin => rw [hpre byte (by omega) (by have := htagged.size; omega), htags byte hin]
    next hout => exact htags' _ (by omega)

theorem create (hagrees : Agrees store reference)
    (hnot : id ∉ reference) {size : Nat} (hsz : size < 2 ^ 31) :
    Agrees (store.put id (store.heap, ⟨size, {}⟩)) (reference.insert id ⟨size, fun _ => []⟩) := by
  refine hagrees.put ⟨⟨?_, List.forall_mem_cons.mpr ⟨⟨[], .empty⟩, ?_⟩⟩, Keeps.refl _ _, rfl, hsz,
    [], .empty _, fun _ _ => rfl⟩
  · rw [hagrees.not_mem hnot]
    exact hagrees.shared.counted.none_cons
  · rw [hagrees.not_mem hnot]
    exact hagrees.shared.holds

theorem perform (hagrees : Agrees store reference)
    (call : PacketCall) (hoffer : call.Offered reference) (hfits : call.Fits store) :
    ∃ after, call.perform store = .ok after ∧ Agrees after (call.expect reference) := by
  obtain ⟨hroom, hfits⟩ := hfits
  have hlen := length_listsOf_erase store.packets
  have hall : (listsOf store.packets).length = store.packets.entries.length := List.length_map _
  cases call with
  | create id size => exact ⟨_, rfl, hagrees.create hoffer.1 hoffer.2⟩
  | copy id other =>
    obtain ⟨o, ho, hoTagged, -⟩ := hagrees.of_mem hoffer.2
    -- copying counts one more pointer to the array and leaves its bytes alone
    obtain ⟨hcopy, hyields⟩ := copy_yields hagrees.shared (mem_listsOf ho) hoTagged (by omega)
    refine ⟨store.put id ((o.byteTagList.copy store.heap).1, o),
      bind_eq_ok.mpr ⟨o, find_eq ho, ?_⟩, hagrees.put ?_⟩
    · change Except.ok (store.put id ((o.byteTagList.copy store.heap).1,
        ⟨o.size, (o.byteTagList.copy store.heap).2⟩)) = _
      rw [hcopy]
    · rw [hagrees.not_mem hoffer.1]
      exact hyields
  | destroy id =>
    obtain ⟨packet, hpkt, -, -⟩ := hagrees.of_mem hoffer
    exact ⟨_, bind_eq_ok.mpr ⟨packet, find_eq hpkt, rfl⟩, hagrees.destroy hpkt (by omega)⟩
  | addByteTag id tag =>
    obtain ⟨packet, hpkt, htagged, hshared⟩ := hagrees.of_mem hoffer
    have hsmall : packet.size < 2 ^ 31 := htagged.size ▸ htagged.small
    dsimp only at hfits
    rw [packetOf_eq hpkt] at hfits
    -- AddByteTag names the whole packet, `0` to its size
    have hwhole : packet.byteTagList.Addable tag ((0 : Nat) : Int) packet.size := hfits
    obtain ⟨after, list, hadd, hyields⟩ := addTag_yields hshared htagged
      (Nat.lt_of_le_of_lt (Nat.add_le_add_right (hlen id) 2) (by omega)) (Nat.zero_le _)
      hwhole
    refine ⟨_, bind_eq_ok.mpr ⟨packet, find_eq hpkt, bind_eq_ok.mpr ⟨(after, _),
      bind_eq_ok.mpr ⟨(after, list), ?_, rfl⟩, rfl⟩⟩, hagrees.put ?_⟩
    · rw [int32_of_lt hsmall]
      exact hadd
    · rw [← htagged.size]
      exact hyields
  | addByteTagRange id tag start stop =>
    obtain ⟨packet, hpkt, htagged, hshared⟩ := hagrees.of_mem hoffer.1
    dsimp only at hfits
    rw [packetOf_eq hpkt] at hfits
    obtain ⟨after, list, hadd, hyields⟩ := addTag_yields hshared htagged
      (Nat.lt_of_le_of_lt (Nat.add_le_add_right (hlen id) 2) (by omega)) hoffer.2 hfits
    refine ⟨_, bind_eq_ok.mpr ⟨packet, find_eq hpkt, bind_eq_ok.mpr ⟨(after, _), ?_, rfl⟩⟩,
      hagrees.put hyields⟩
    rw [TaggedPacket.addByteTagRange, if_neg (Nat.not_lt.mpr hoffer.2),
      int32_of_inInt32 hfits.2.1.1, int32_of_inInt32 hfits.2.1.2, hadd]
    rfl
  | addHeader id size =>
    obtain ⟨packet, hpkt, htagged, hshared⟩ := hagrees.of_mem hoffer.1
    dsimp only at hfits
    rw [packetOf_eq hpkt] at hfits
    obtain ⟨after, new, hadd, hyields⟩ := addHeader_yields hshared htagged
      (Nat.lt_of_le_of_lt (Nat.add_le_add_right (hlen id) 4) hroom) hoffer.2 hfits.1 hfits.2
    exact ⟨_, bind_eq_ok.mpr ⟨packet, find_eq hpkt, bind_eq_ok.mpr ⟨_, hadd, rfl⟩⟩,
      hagrees.put hyields⟩
  | removeHeader id size =>
    obtain ⟨packet, hpkt, htagged, hshared⟩ := hagrees.of_mem hoffer.1
    dsimp only at hfits
    rw [packetOf_eq hpkt] at hfits
    obtain ⟨new, hremove, hyields⟩ := removeAtStart_yields hshared htagged
      (Nat.lt_of_le_of_lt hoffer.2 htagged.small) hfits
    exact ⟨_, bind_eq_ok.mpr ⟨packet, find_eq hpkt, bind_eq_ok.mpr ⟨_, hremove, rfl⟩⟩,
      hagrees.put hyields⟩
  | removeAtStart id size =>
    obtain ⟨packet, hpkt, htagged, hshared⟩ := hagrees.of_mem hoffer.1
    dsimp only at hfits
    rw [packetOf_eq hpkt] at hfits
    obtain ⟨new, hremove, hyields⟩ := removeAtStart_yields hshared htagged hoffer.2 hfits
    exact ⟨_, bind_eq_ok.mpr ⟨packet, find_eq hpkt, bind_eq_ok.mpr ⟨_, hremove, rfl⟩⟩,
      hagrees.put hyields⟩
  | addTrailer id size | addPaddingAtEnd id size =>
    obtain ⟨packet, hpkt, htagged, hshared⟩ := hagrees.of_mem hoffer.1
    dsimp only at hfits
    rw [packetOf_eq hpkt] at hfits
    obtain ⟨after, new, hadd, hyields⟩ := addPaddingAtEnd_yields hshared htagged
      (Nat.lt_of_le_of_lt (Nat.add_le_add_right (hlen id) 4) hroom) hoffer.2 hfits
    exact ⟨_, bind_eq_ok.mpr ⟨packet, find_eq hpkt, bind_eq_ok.mpr ⟨_, hadd, rfl⟩⟩,
      hagrees.put hyields⟩
  | removeTrailer id size | removeAtEnd id size =>
    obtain ⟨packet, hpkt, htagged, hshared⟩ := hagrees.of_mem hoffer.1
    exact ⟨_, bind_eq_ok.mpr ⟨packet, find_eq hpkt, rfl⟩,
      hagrees.put (removeAtEnd_yields size hshared htagged)⟩
  | addAtEnd id other =>
    exact hagrees.addAtEnd hoffer.1 hoffer.2.1 hroom hoffer.2.2 hfits
  | createFragment fragment id start length =>
    obtain ⟨packet, hpkt, htagged, -⟩ := hagrees.of_mem hoffer.2.1
    dsimp only at hfits
    rw [packetOf_eq hpkt] at hfits
    obtain ⟨after, new, hcreate, hyields⟩ := createFragment_yields hagrees.shared
      (mem_listsOf hpkt) htagged (by omega) hoffer.2.2 hfits
    refine ⟨_, bind_eq_ok.mpr ⟨packet, find_eq hpkt, bind_eq_ok.mpr ⟨_, hcreate, rfl⟩⟩,
      hagrees.put ?_⟩
    rw [hagrees.not_mem hoffer.1]
    exact hyields

end Agrees

namespace TaggedPackets

/-- Reading the byte tags gives each byte the tags it owns, in order and within the packet, and no
call fails that is offered and fits. -/
structure TagsStay (world : TaggedPackets) : Prop where
  packets : ∀ id, id ∈ world.store.packets ↔ id ∈ world.reference
  tags : ∀ id packet bytes, world.store.packets.lookup id = some packet →
    world.reference.lookup id = some bytes → packet.size = bytes.size ∧
      ∃ items, packet.byteTags world.store.heap = .ok items ∧
        (∀ item ∈ items, 0 ≤ item.start ∧ item.stop ≤ packet.size) ∧
        ∀ byte : Nat, byte < bytes.size →
          (items.filter fun item => item.start ≤ (byte : Int) ∧ (byte : Int) < item.stop).map
            Item.tag = bytes.tags byte
  answers : ∀ call : PacketCall, call.Offered world.reference → call.Fits world.store →
    ∃ after, call.perform world.store = .ok after

theorem TagsStay.of_agrees {world : TaggedPackets}
    (hagrees : Agrees world.store world.reference) : TagsStay world where
  packets id := by
    rw [← AList.lookup_isSome, ← AList.lookup_isSome, hagrees.same id]
  tags id packet bytes hpkt hbytes := by
    have htagged := hagrees.tagged id packet bytes hpkt hbytes
    obtain ⟨entries, hstores, htags⟩ := htagged.tags
    have hsz := htagged.size
    have hsmall := htagged.small
    obtain ⟨items, hitems, hinside, hbyte⟩ := items_spec hstores packet.size
    refine ⟨hsz, items, ?_, hinside, fun byte hlt => ?_⟩
    · rw [TaggedPacket.byteTags, int32_of_lt (by omega)]
      exact hitems
    · rw [hbyte byte (by omega) (by omega), htags byte hlt]
  answers call hoffer hfits := by
    obtain ⟨after, hperform, -⟩ := hagrees.perform call hoffer hfits
    exact ⟨after, hperform⟩

/-- While no offset leaves its type, byte tags stay on their bytes. -/
theorem tagsStay_of_fits {world : TaggedPackets}
    (hreach : machine.ReachableUnder
      (fun world call => call.Offered world.reference ∧ call.Fits world.store) world) :
    TagsStay world := by
  refine .of_agrees (@Machine.ReachableUnder.invariant _ _ _ machine _
    (fun world => Agrees world.store world.reference) ?_ ?_ world hreach)
  · exact ⟨⟨.empty, fun _ hmem => absurd hmem List.not_mem_nil⟩, fun _ => rfl,
      fun _ _ _ hlook => nomatch hlook⟩
  · intro world call next hagrees hallowed hstep
    obtain ⟨after, hperform, hafter⟩ := hagrees.perform call hallowed.1 hallowed.2
    have hstepped : step world call = .ok ⟨after, call.expect world.reference⟩ := by
      rw [step, hperform]
      rfl
    obtain rfl := Except.ok.inj (hstepped.symm.trans hstep)
    exact hafter

def fits (world : TaggedPackets) (call : PacketCall) : Bool :=
  decide (call.Offered world.reference ∧ call.Fits world.store)

theorem tagsStay_of_fits_copy :
    let world := machine.after fits [.create 0 3, .addByteTag 0 ⟨7, [1]⟩, .removeAtEnd 0 2,
      .copy 1 0, .addPaddingAtEnd 0 1, .addHeader 0 1, .addByteTagRange 1 ⟨8, []⟩ 0 1] {}
    TagsStay world ∧
      (PacketCall.packetOf world.store 0).byteTags world.store.heap =
        .ok [⟨⟨7, [1]⟩, 1, 2⟩] ∧
      (PacketCall.packetOf world.store 1).byteTags world.store.heap =
        .ok [⟨⟨7, [1]⟩, 0, 1⟩, ⟨⟨8, []⟩, 0, 1⟩] :=
  ⟨tagsStay_of_fits (Machine.ReachableUnder.after (fun _ _ hfits => of_decide_eq_true hfits) _
    .init), by decide +kernel, by decide +kernel⟩

def offers (world : TaggedPackets) (call : PacketCall) : Bool :=
  decide (call.Offered world.reference)

/-- An appended byte loses its tag: the end of the bytes with that tag is out of range, though they
have long been taken off. -/
theorem appended_tag_lost :
    ∃ world,
      machine.ReachableUnder (fun world call => call.Offered world.reference) world ∧
        2 ^ 30 < (PacketCall.bytesOf world.reference 1).size ∧
        (PacketCall.bytesOf world.reference 1).tags (2 ^ 30) = [⟨7, [1]⟩] ∧
        (PacketCall.packetOf world.store 1).byteTags world.store.heap = .ok [] := by
  refine ⟨machine.after offers [.create 0 (2 ^ 30), .addByteTag 0 ⟨7, [1]⟩,
    .removeAtEnd 0 (2 ^ 30 - 1), .create 1 (2 ^ 30), .addAtEnd 1 0] {}, ?_, ?_, ?_, ?_⟩
  · exact Machine.ReachableUnder.after (fun _ _ hoffers => of_decide_eq_true hoffers) _ .init
  · decide +kernel
  · decide +kernel
  · decide +kernel

end TaggedPackets

end HomaSird.Network
