import HomaSird.Homa.InboundSound
import HomaSird.Homa.MsgHistory
import Mathlib.Algebra.Order.BigOperators.Group.Finset
import Mathlib.Algebra.Group.Action.Defs

/-! # Reassembly

An inbound message that is fed the packets of one outbound message, in any order and with
repetitions, holds what has arrived, and is the original message once every offset has.
-/

namespace HomaSird.Homa

open HomaOutboundMsg List

def missingOffsets (numPkts : Nat) (arrived : List Nat) : Finset Nat :=
  (Finset.range numPkts).filter (· ∉ arrived)

variable {numPkts pktOffset : Nat} {arrived : List Nat}

theorem mem_missingOffsets :
    pktOffset ∈ missingOffsets numPkts arrived ↔ pktOffset < numPkts ∧ pktOffset ∉ arrived := by
  simp [missingOffsets]

theorem missingOffsets_concat_of_mem (hmem : pktOffset ∈ arrived) :
    missingOffsets numPkts (arrived ++ [pktOffset]) = missingOffsets numPkts arrived := by
  ext other
  simp only [mem_missingOffsets, mem_append, mem_singleton, not_or]
  constructor
  · rintro ⟨hlt, hnot, -⟩
    exact ⟨hlt, hnot⟩
  · rintro ⟨hlt, hnot⟩
    exact ⟨hlt, hnot, fun heq => hnot (heq ▸ hmem)⟩

theorem missingOffsets_concat :
    missingOffsets numPkts (arrived ++ [pktOffset]) =
      (missingOffsets numPkts arrived).erase pktOffset := by
  ext other
  simp only [mem_missingOffsets, Finset.mem_erase, mem_append, mem_singleton, not_or]
  tauto

def slots {Entry : Type} (numPkts : Nat) (arrived : List Nat) (empty : Entry)
    (carried : Nat → Entry) : List Entry :=
  (List.range numPkts).map fun pktOffset => if pktOffset ∈ arrived then carried pktOffset else empty

section Slots

variable {Entry : Type} {numPkts pktOffset : Nat} {arrived : List Nat} {empty : Entry}
  {carried : Nat → Entry}

theorem slots_nil : slots numPkts [] empty carried = replicate numPkts empty := by
  simp [slots, map_const']

theorem slots_congr {others : List Nat} (hsame : ∀ offset, offset ∈ others ↔ offset ∈ arrived) :
    slots numPkts others empty carried = slots numPkts arrived empty carried := by
  simp [slots, hsame]

theorem set_slots :
    (slots numPkts arrived empty carried).set pktOffset (carried pktOffset) =
      slots numPkts (arrived ++ [pktOffset]) empty carried := by
  apply ext_getElem
  · simp [slots]
  · intro index hleft hright
    rw [getElem_set]
    simp only [slots, getElem_map, getElem_range, mem_append, mem_singleton]
    split
    next heq => simp [heq]
    next hne => simp [Ne.symm hne]

theorem slots_of_all (hall : ∀ offset < numPkts, offset ∈ arrived) :
    slots numPkts arrived empty carried = (range numPkts).map carried := by
  apply map_congr_left
  intro offset hmem
  rw [if_pos (hall offset (mem_range.mp hmem))]

theorem getElem?_slots (hlt : pktOffset < numPkts) :
    (slots numPkts arrived empty carried)[pktOffset]? =
      some (if pktOffset ∈ arrived then carried pktOffset else empty) := by
  simp [slots, hlt]

end Slots

namespace HomaOutboundMsg

variable {cfg : Config} {message : Payload} {saddr daddr : Ipv4Address}
  {sport dport origin : Nat} {outMsg : HomaOutboundMsg}

section

variable (hcreate : create cfg message saddr daddr sport dport origin = .ok outMsg)
include hcreate

theorem fragment_of_create {pktOffset : Nat} (hlt : pktOffset < (fragments cfg message).length) :
    outMsg.fragment cfg pktOffset =
      if cfg.memIsOptimized then replicate ((fragments cfg message)[pktOffset]).length 0
      else (fragments cfg message)[pktOffset] := by
  have hfresh := fresh_of_create hcreate
  unfold fragment
  split
  next hmode =>
    rw [hfresh.pktSizes_eq, if_pos hmode]
    simp [hlt]
  next hmode =>
    rw [hfresh.packets_eq, if_neg hmode]
    simp [hlt]

theorem length_fragment_of_create {pktOffset : Nat}
    (hlt : pktOffset < (fragments cfg message).length) :
    (outMsg.fragment cfg pktOffset).length = ((fragments cfg message)[pktOffset]).length := by
  rw [fragment_of_create hcreate hlt]
  split
  · exact length_replicate
  · rfl

theorem sum_length_fragment :
    ∑ pktOffset ∈ Finset.range outMsg.getMsgSizePkts,
      (outMsg.fragment cfg pktOffset).length = message.length := by
  have hfresh := fresh_of_create hcreate
  have hsizes : (range (fragments cfg message).length).map
      (fun pktOffset => (outMsg.fragment cfg pktOffset).length) =
        (fragments cfg message).map length := by
    apply ext_getElem
    · simp
    · intro index hleft hright
      have hlt : index < (fragments cfg message).length := by simpa using hright
      simpa using length_fragment_of_create hcreate hlt
  calc ∑ pktOffset ∈ Finset.range outMsg.getMsgSizePkts, (outMsg.fragment cfg pktOffset).length
      = ((range (fragments cfg message).length).map
          fun pktOffset => (outMsg.fragment cfg pktOffset).length).sum := by
        rw [hfresh.getMsgSizePkts_eq]
        rfl
    _ = (fragments cfg message).flatten.length := by rw [hsizes, length_flatten]
    _ = message.length := by rw [flatten_fragments]

theorem length_lt_of_create : message.length < 2 ^ 32 := by
  have hcnt := (fresh_of_create hcreate).length_lt
  have hmax := cfg.maxPayloadSize_lt
  have hcut : ((fragments cfg message).map length).sum ≤
      ((fragments cfg message).map length).length • cfg.maxPayloadSize := by
    apply sum_le_card_nsmul
    intro size hsz
    obtain ⟨fragment, hmem, rfl⟩ := mem_map.mp hsz
    exact (mem_fragments hmem).2
  rw [← length_flatten, flatten_fragments, length_map, smul_eq_mul] at hcut
  calc message.length
      ≤ (fragments cfg message).length * cfg.maxPayloadSize := hcut
    _ ≤ (2 ^ 16 - 1) * (2 ^ 16 - 1) := Nat.mul_le_mul (by omega) (by omega)
    _ < 2 ^ 32 := by decide

end

end HomaOutboundMsg

namespace HomaInboundMsg

variable {cfg : Config} {outMsg : HomaOutboundMsg} {arrived : List Nat}
  {msg next : HomaInboundMsg} {packet : Packet}

def IsArrival (cfg : Config) (outMsg : HomaOutboundMsg) (packet : Packet) : Prop :=
  packet.homaHeader.msgSizeBytes = outMsg.msgSizeBytes ∧
    (packet.payload = [] ∨ packet.homaHeader.pktOffset < outMsg.getMsgSizePkts ∧
      packet.payload = outMsg.fragment cfg packet.homaHeader.pktOffset)

def offsetsOf (packet : Packet) : List Nat :=
  if packet.payload = [] then [] else [packet.homaHeader.pktOffset]

structure SameBuffer (msg next : HomaInboundMsg) : Prop where
  msgSizePkts_eq : next.msgSizePkts = msg.msgSizePkts
  packets_eq : next.packets = msg.packets
  pktSizes_eq : next.pktSizes = msg.pktSizes
  receivedPackets_eq : next.receivedPackets = msg.receivedPackets
  remainingBytes_eq : next.remainingBytes = msg.remainingBytes

theorem sameBuffer_openWindow (msg : HomaInboundMsg) : msg.SameBuffer msg.openWindow := by
  unfold openWindow
  split
  · exact ⟨rfl, rfl, rfl, rfl, rfl⟩
  · exact ⟨rfl, rfl, rfl, rfl, rfl⟩

/-- An inbound message that has taken packets of the given offsets, between any other operations.
-/
inductive Fed (cfg : Config) (outMsg : HomaOutboundMsg) : List Nat → HomaInboundMsg → Prop where
  | created {packet : Packet} {msg : HomaInboundMsg} (harrival : IsArrival cfg outMsg packet)
      (hcreate : create cfg packet = .ok msg) : Fed cfg outMsg (offsetsOf packet) msg
  | received {arrived : List Nat} {msg next : HomaInboundMsg} {packet : Packet}
      (hfed : Fed cfg outMsg arrived msg) (harrival : IsArrival cfg outMsg packet)
      (hreceive : msg.receiveDataPacket cfg packet.payload packet.homaHeader.pktOffset =
        .ok next) :
      Fed cfg outMsg (arrived ++ offsetsOf packet) next
  | other {arrived : List Nat} {msg next : HomaInboundMsg} (hfed : Fed cfg outMsg arrived msg)
      (hsame : msg.SameBuffer next) : Fed cfg outMsg arrived next

structure Buffered (cfg : Config) (outMsg : HomaOutboundMsg) (arrived : List Nat)
    (msg : HomaInboundMsg) : Prop where
  msgSizePkts_eq : msg.msgSizePkts = outMsg.getMsgSizePkts
  packets_eq : msg.packets = if cfg.memIsOptimized then []
    else slots outMsg.getMsgSizePkts arrived [] (outMsg.fragment cfg)
  pktSizes_eq : msg.pktSizes =
    if cfg.memIsOptimized then
      slots outMsg.getMsgSizePkts arrived 0 fun offset => (outMsg.fragment cfg offset).length
    else []
  receivedPackets_eq : msg.receivedPackets =
    slots outMsg.getMsgSizePkts arrived false fun _ => true
  remainingBytes_eq : msg.remainingBytes =
    ∑ offset ∈ missingOffsets outMsg.getMsgSizePkts arrived,
      (outMsg.fragment cfg offset).length

theorem Buffered.of_same (hbuf : Buffered cfg outMsg arrived msg)
    (hsame : msg.SameBuffer next) : Buffered cfg outMsg arrived next where
  msgSizePkts_eq := hsame.msgSizePkts_eq.trans hbuf.msgSizePkts_eq
  packets_eq := hsame.packets_eq.trans hbuf.packets_eq
  pktSizes_eq := hsame.pktSizes_eq.trans hbuf.pktSizes_eq
  receivedPackets_eq := hsame.receivedPackets_eq.trans hbuf.receivedPackets_eq
  remainingBytes_eq := hsame.remainingBytes_eq.trans hbuf.remainingBytes_eq

theorem Buffered.again (hbuf : Buffered cfg outMsg arrived msg) {pktOffset : Nat}
    (hmem : pktOffset ∈ arrived) : Buffered cfg outMsg (arrived ++ [pktOffset]) msg := by
  have hsame : ∀ offset, offset ∈ arrived ++ [pktOffset] ↔ offset ∈ arrived := by
    intro offset
    simp only [mem_append, mem_singleton, or_iff_left_iff_imp]
    rintro rfl
    exact hmem
  refine ⟨hbuf.msgSizePkts_eq, ?_, ?_, ?_, ?_⟩
  · rw [slots_congr hsame]
    exact hbuf.packets_eq
  · rw [slots_congr hsame]
    exact hbuf.pktSizes_eq
  · rw [slots_congr hsame]
    exact hbuf.receivedPackets_eq
  · rw [missingOffsets_concat_of_mem hmem]
    exact hbuf.remainingBytes_eq

theorem Buffered.store (hbuf : Buffered cfg outMsg arrived msg) {pktOffset : Nat}
    (hmiss : pktOffset ∈ missingOffsets outMsg.getMsgSizePkts arrived)
    (hsmall : msg.remainingBytes < 2 ^ 32) :
    Buffered cfg outMsg (arrived ++ [pktOffset])
      (msg.store cfg pktOffset (outMsg.fragment cfg pktOffset)) := by
  refine ⟨hbuf.msgSizePkts_eq, ?_, ?_, ?_, ?_⟩
  · simp only [HomaInboundMsg.store, hbuf.packets_eq]
    split
    · rfl
    · exact set_slots
  · simp only [HomaInboundMsg.store, hbuf.pktSizes_eq]
    split
    · exact set_slots
    · rfl
  · simp only [HomaInboundMsg.store, hbuf.receivedPackets_eq]
    exact set_slots
  · have hsum := Finset.add_sum_erase _ (fun offset => (outMsg.fragment cfg offset).length)
      hmiss
    rw [← hbuf.remainingBytes_eq] at hsum
    rw [missingOffsets_concat, HomaInboundMsg.store]
    simp only [uint32OfInt]
    omega

section Fed

variable {message : Payload} {saddr daddr : Ipv4Address} {sport dport origin : Nat}

section

variable (hcreate : HomaOutboundMsg.create cfg message saddr daddr sport dport origin = .ok outMsg)
include hcreate

theorem buffered_blank (hsz : packet.homaHeader.msgSizeBytes = outMsg.msgSizeBytes) :
    Buffered cfg outMsg [] (blank cfg packet) := by
  have hmade := HomaOutboundMsg.create_eq_ok hcreate
  have hcnt : packetCount packet.homaHeader.msgSizeBytes cfg.maxPayloadSize =
      outMsg.getMsgSizePkts := by
    rw [hsz, hmade.sound.getMsgSizePkts_eq]
  have hmiss : missingOffsets outMsg.getMsgSizePkts [] =
      Finset.range outMsg.getMsgSizePkts := by
    ext offset
    simp [mem_missingOffsets]
  refine ⟨hcnt, ?_, ?_, ?_, ?_⟩
  · rw [slots_nil]
    simp only [blank, hcnt]
  · rw [slots_nil]
    simp only [blank, hcnt]
  · rw [slots_nil]
    simp only [blank, hcnt]
  · rw [hmiss, HomaOutboundMsg.sum_length_fragment hcreate]
    exact hsz.trans hmade.msgSizeBytes_eq

omit hcreate in
theorem Buffered.remainingBytes_lt (hbuf : Buffered cfg outMsg arrived msg)
    (hcreate : HomaOutboundMsg.create cfg message saddr daddr sport dport origin = .ok outMsg) :
    msg.remainingBytes < 2 ^ 32 := by
  have hlt := HomaOutboundMsg.length_lt_of_create hcreate
  rw [← HomaOutboundMsg.sum_length_fragment hcreate] at hlt
  rw [hbuf.remainingBytes_eq]
  exact lt_of_le_of_lt (Finset.sum_le_sum_of_subset (Finset.filter_subset _ _)) hlt

theorem create_isOk (harrival : IsArrival cfg outMsg packet) :
    ∃ msg, create cfg packet = .ok msg := by
  have hblank := buffered_blank hcreate harrival.1
  rw [create]
  split
  · exact ⟨_, rfl⟩
  next hload =>
    obtain ⟨hlt, -⟩ := harrival.2.resolve_left (by simpa using hload)
    rw [if_pos (by simpa [hblank.receivedPackets_eq, slots] using hlt)]
    exact ⟨_, rfl⟩

omit hcreate in
theorem Buffered.receive_isOk (hbuf : Buffered cfg outMsg arrived msg)
    (harrival : IsArrival cfg outMsg packet) :
    ∃ next, msg.receiveDataPacket cfg packet.payload packet.homaHeader.pktOffset = .ok next := by
  rw [receiveDataPacket]
  split
  · exact ⟨msg, rfl⟩
  next hload =>
    obtain ⟨hlt, -⟩ := harrival.2.resolve_left (by simpa using hload)
    rw [hbuf.receivedPackets_eq, getElem?_slots hlt]
    split
    next hnone => cases hnone
    · exact ⟨msg, rfl⟩
    · exact ⟨_, rfl⟩

theorem buffered_of_fed (hfed : Fed cfg outMsg arrived msg) :
    Buffered cfg outMsg arrived msg := by
  induction hfed with
  | @created packet msg harrival hin =>
    have hblank := buffered_blank hcreate harrival.1
    rcases create_eq_ok hin with ⟨hempty, rfl⟩ | ⟨hload, -, rfl⟩
    · rw [offsetsOf, if_pos hempty]
      exact hblank
    · obtain ⟨hlt, hfrag⟩ := harrival.2.resolve_left hload
      rw [offsetsOf, if_neg hload, hfrag]
      exact hblank.store (mem_missingOffsets.mpr ⟨hlt, not_mem_nil⟩)
        (hblank.remainingBytes_lt hcreate)
  | @received arrived msg next packet _ harrival hrecv ih =>
    by_cases hempty : packet.payload = []
    · rw [receiveDataPacket, if_pos (by simp [hempty])] at hrecv
      cases hrecv
      rw [offsetsOf, if_pos hempty, append_nil]
      exact ih
    · obtain ⟨hlt, hfrag⟩ := harrival.2.resolve_left hempty
      rw [offsetsOf, if_neg hempty]
      rcases receiveDataPacket_eq_ok hrecv with ⟨rfl, hold⟩ | ⟨rfl, -, hnew⟩
      · have hseen := hold.resolve_left hempty
        rw [ih.receivedPackets_eq, getElem?_slots hlt] at hseen
        exact ih.again (by simpa using hseen)
      · rw [ih.receivedPackets_eq, getElem?_slots hlt] at hnew
        have hmiss := mem_missingOffsets.mpr ⟨hlt, by simpa using hnew⟩
        rw [hfrag]
        exact (ih.store hmiss (ih.remainingBytes_lt hcreate)).of_same
          (sameBuffer_openWindow _)
  | other _ hsame ih => exact ih.of_same hsame

end

theorem Buffered.isFullyReceived_iff (hbuf : Buffered cfg outMsg arrived msg) :
    msg.isFullyReceived = true ↔ ∀ offset < outMsg.getMsgSizePkts, offset ∈ arrived := by
  rw [isFullyReceived, hbuf.receivedPackets_eq, slots, all_map, all_eq_true]
  simp

section

variable (hbuf : Buffered cfg outMsg arrived msg)
  (hcreate : HomaOutboundMsg.create cfg message saddr daddr sport dport origin = .ok outMsg)
include hbuf hcreate

theorem Buffered.remainingBytes_eq_zero_iff :
    msg.remainingBytes = 0 ↔ ∀ offset < outMsg.getMsgSizePkts, offset ∈ arrived := by
  have hran : HomaOutboundMsg.Ran cfg 0 [] outMsg := .accepted hcreate
  rw [hbuf.remainingBytes_eq, Finset.sum_eq_zero_iff]
  constructor
  · intro hzero offset hlt
    by_contra hmiss
    have hnil := length_eq_zero_iff.mp (hzero offset (mem_missingOffsets.mpr ⟨hlt, hmiss⟩))
    exact hran.fragment_ne_nil hlt hnil
  · intro hall offset hmiss
    obtain ⟨hlt, hnot⟩ := mem_missingOffsets.mp hmiss
    exact absurd (hall offset hlt) hnot

theorem Buffered.getReassembledMsg_eq (hall : ∀ offset < outMsg.getMsgSizePkts, offset ∈ arrived) :
    msg.getReassembledMsg cfg =
      if cfg.memIsOptimized then replicate message.length 0 else message := by
  have hfresh := fresh_of_create hcreate
  unfold getReassembledMsg
  split
  next hmode =>
    rw [hbuf.pktSizes_eq, if_pos hmode, slots_of_all hall]
    have hsum : ((range outMsg.getMsgSizePkts).map fun offset =>
        (outMsg.fragment cfg offset).length).sum = message.length :=
      sum_length_fragment hcreate
    rw [hsum, uint32_of_lt (length_lt_of_create hcreate)]
  next hmode =>
    rw [hbuf.packets_eq, if_neg hmode, slots_of_all hall]
    have hsame : (range outMsg.getMsgSizePkts).map (outMsg.fragment cfg) =
        fragments cfg message := by
      rw [hfresh.getMsgSizePkts_eq]
      apply ext_getElem
      · simp
      · intro index hleft hright
        simpa [hmode] using fragment_of_create hcreate hright
    rw [hsame, flatten_fragments]

end

end Fed

end HomaInboundMsg

end HomaSird.Homa
