import HomaSird.Homa.SenderStep

/-! # Message ids

Every id of a sender is free or names one stored message. An id is released when its message is
acknowledged, and would be when the message expired, in a scan or on a control packet.
-/

namespace HomaSird.Homa.HomaSendScheduler

open Transition Transition.Machine HomaOutboundMsg List

variable {cfg : Config} {sched next : HomaSendScheduler}

def InUse (sched : HomaSendScheduler) (txMsgId : Nat) : Prop :=
  (sched.outboundMsgs.lookup txMsgId).isSome = true

/-- The ids below `MAX_N_MSG` are free, once each, or in use. -/
structure Partition (sched : HomaSendScheduler) : Prop where
  free_nodup : sched.txMsgIdFreeList.Nodup
  disjoint : ∀ txMsgId ∈ sched.txMsgIdFreeList, ¬ sched.InUse txMsgId
  covers : ∀ txMsgId, txMsgId < maxNMsg ↔
    txMsgId ∈ sched.txMsgIdFreeList ∨ sched.InUse txMsgId

theorem not_inUse_initial (txMsgId : Nat) : ¬ initial.InUse txMsgId := by rintro ⟨⟩

theorem txMsgIdFreeList_initial : initial.txMsgIdFreeList = range maxNMsg := by
  rw [initial]

theorem partition_initial : initial.Partition where
  free_nodup := by
    rw [txMsgIdFreeList_initial]
    exact nodup_range
  disjoint txMsgId _ := not_inUse_initial txMsgId
  covers txMsgId := by
    rw [or_iff_left (not_inUse_initial txMsgId), txMsgIdFreeList_initial, mem_range]

theorem Partition.of_same (hpart : sched.Partition)
    (hfree : next.txMsgIdFreeList = sched.txMsgIdFreeList)
    (hinUse : ∀ txMsgId, next.InUse txMsgId ↔ sched.InUse txMsgId) : next.Partition where
  free_nodup := hfree ▸ hpart.free_nodup
  disjoint txMsgId hmem := by
    rw [hinUse]
    exact hpart.disjoint txMsgId (hfree ▸ hmem)
  covers txMsgId := by
    rw [hfree, hinUse]
    exact hpart.covers txMsgId

theorem Partition.insert (hpart : sched.Partition) {txMsgId : Nat} (hinUse : sched.InUse txMsgId)
    (msg : HomaOutboundMsg) (hfree : next.txMsgIdFreeList = sched.txMsgIdFreeList)
    (hmsgs : next.outboundMsgs = sched.outboundMsgs.insert txMsgId msg) : next.Partition := by
  apply hpart.of_same hfree
  intro other
  rw [InUse, hmsgs, UnorderedMap.lookup_insert]
  split
  next heq => simp [heq, hinUse]
  · rfl

theorem inUse_clearStateForMsg {txMsgId other : Nat} :
    (sched.clearStateForMsg txMsgId).InUse other ↔ other ≠ txMsgId ∧ sched.InUse other := by
  simp only [InUse, clearStateForMsg, UnorderedMap.lookup_erase]
  split
  next heq => simp [heq]
  next hne => simp [hne]

theorem Partition.clearStateForMsg (hpart : sched.Partition) {txMsgId : Nat} (hinUse :
    sched.InUse txMsgId) : (sched.clearStateForMsg txMsgId).Partition where
  free_nodup := by
    have hused : txMsgId ∉ sched.txMsgIdFreeList := fun hmem =>
      hpart.disjoint txMsgId hmem hinUse
    simp only [HomaSendScheduler.clearStateForMsg, nodup_append]
    refine ⟨hpart.free_nodup, nodup_singleton _, ?_⟩
    rintro other hother last hlast rfl
    exact hused (mem_singleton.mp hlast ▸ hother)
  disjoint other hmem := by
    rw [inUse_clearStateForMsg]
    rintro ⟨hne, hother⟩
    rcases mem_append.mp hmem with hold | hlast
    · exact hpart.disjoint other hold hother
    · exact hne (mem_singleton.mp hlast)
  covers other := by
    rw [hpart.covers, inUse_clearStateForMsg]
    simp only [HomaSendScheduler.clearStateForMsg, mem_append, mem_singleton]
    by_cases heq : other = txMsgId
    · simp [heq, hinUse]
    · simp [heq]

theorem Partition.foldl_clearStateForMsg {expired : List Nat} (hpart : sched.Partition)
    (hnodup : expired.Nodup) (hinUse : ∀ txMsgId ∈ expired, sched.InUse txMsgId) :
    (expired.foldl HomaSendScheduler.clearStateForMsg sched).Partition := by
  induction expired generalizing sched with
  | nil => exact hpart
  | cons first rest ih =>
    obtain ⟨hfst, hrest⟩ := nodup_cons.mp hnodup
    apply ih (hpart.clearStateForMsg (hinUse first mem_cons_self)) hrest
    intro txMsgId hmem
    rw [inUse_clearStateForMsg]
    exact ⟨fun heq => hfst (heq ▸ hmem), hinUse txMsgId (.tail _ hmem)⟩

variable {order : List Nat}

theorem nodup_of_isTraversal (horder : sched.isTraversal order = true) : order.Nodup := by
  have hperm : order.Perm sched.outboundMsgs.keys := by simpa [isTraversal] using horder
  exact hperm.nodup_iff.mpr sched.outboundMsgs.keys_nodup

theorem map_fst_entriesIn_sublist (sched : HomaSendScheduler)
    (order : List Nat) : ((sched.entriesIn order).map Prod.fst).Sublist order := by
  induction order with
  | nil => exact List.Sublist.refl []
  | cons txMsgId rest ih =>
    cases hlook : sched.outboundMsgs.lookup txMsgId with
    | none =>
      have hskip : sched.entriesIn (txMsgId :: rest) = sched.entriesIn rest := by
        simp [entriesIn, hlook]
      rw [hskip]
      exact ih.cons txMsgId
    | some msg =>
      have hvisit : sched.entriesIn (txMsgId :: rest) =
          (txMsgId, msg) :: sched.entriesIn rest := by
        simp [entriesIn, hlook]
      rw [hvisit]
      exact ih.cons_cons txMsgId

theorem Partition.getNextMsgId (hpart : sched.Partition)
    (hnodup : order.Nodup) : (sched.getNextMsgId order).1.Partition := by
  apply hpart.foldl_clearStateForMsg
  · have hvisit := map_fst_entriesIn_sublist sched order
    exact ((filter_sublist.map Prod.fst).trans hvisit).nodup hnodup
  · intro txMsgId hmem
    obtain ⟨⟨visited, stored⟩, hent, rfl⟩ := mem_map.mp hmem
    have hlook := (mem_entriesIn.mp (mem_filter.mp hent).1).2
    rw [InUse, hlook]
    rfl

/-! ## What the events of a sender do to the ids -/

theorem Partition.scheduleNewMsg (hpart : sched.Partition)
    (outMsg : HomaOutboundMsg) : (sched.scheduleNewMsg outMsg).1.Partition := by
  cases hfree : sched.txMsgIdFreeList with
  | nil =>
    rw [HomaSendScheduler.scheduleNewMsg, hfree]
    exact hpart
  | cons txMsgId rest =>
    have hnodup := hpart.free_nodup
    rw [hfree] at hnodup
    obtain ⟨hfresh, hrest⟩ := nodup_cons.mp hnodup
    rw [HomaSendScheduler.scheduleNewMsg, hfree]
    refine ⟨hrest, ?_, ?_⟩
    · intro other hother
      have hne : other ≠ txMsgId := fun heq => hfresh (heq ▸ hother)
      have hunused := hpart.disjoint other (hfree ▸ mem_cons_of_mem _ hother)
      rwa [InUse, UnorderedMap.lookup_insert, if_neg hne]
    · intro other
      rw [hpart.covers, hfree, mem_cons, InUse, InUse, UnorderedMap.lookup_insert]
      by_cases heq : other = txMsgId
      · simp [heq]
      · simp [heq]

theorem Partition.scheduleNewMsg_none (hpart : sched.Partition) (outMsg : HomaOutboundMsg) :
    (sched.scheduleNewMsg outMsg).2 = none ↔ ∀ txMsgId < maxNMsg, sched.InUse txMsgId := by
  cases hfree : sched.txMsgIdFreeList with
  | nil =>
    have hnone : (sched.scheduleNewMsg outMsg).2 = none := by
      rw [HomaSendScheduler.scheduleNewMsg, hfree]
    refine iff_of_true hnone fun txMsgId hlt => ?_
    rcases (hpart.covers txMsgId).mp hlt with hmem | hinUse
    · rw [hfree] at hmem
      cases hmem
    · exact hinUse
  | cons txMsgId rest =>
    have hsome : (sched.scheduleNewMsg outMsg).2 = some txMsgId := by
      rw [HomaSendScheduler.scheduleNewMsg, hfree]
    have hmem : txMsgId ∈ sched.txMsgIdFreeList := hfree ▸ mem_cons_self
    rw [hsome]
    refine iff_of_false (by rintro ⟨⟩) fun hall => ?_
    have hlt := (hpart.covers txMsgId).mpr (.inl hmem)
    exact hpart.disjoint txMsgId hmem (hall txMsgId hlt)

theorem scheduleNewMsg_of_none {outMsg : HomaOutboundMsg}
    (hnone : (sched.scheduleNewMsg outMsg).2 = none) : (sched.scheduleNewMsg outMsg).1 = sched := by
  cases hfree : sched.txMsgIdFreeList with
  | nil => rw [scheduleNewMsg, hfree]
  | cons txMsgId rest =>
    rw [scheduleNewMsg, hfree] at hnone
    cases hnone

theorem partition_send (hpart : sched.Partition) {message : Payload} {saddr daddr : Ipv4Address}
    {sport dport origin : Nat} {events : List Event}
    (hsend : sched.send cfg message saddr daddr sport dport origin = .ok (next, events)) :
    next.Partition := by
  obtain ⟨outMsg, _, hschedule⟩ := bind_eq_ok.mp hsend
  have hsched := hpart.scheduleNewMsg outMsg
  split at hschedule
  next refused heq =>
    obtain ⟨rfl, -⟩ := Prod.mk.inj (Except.ok.inj hschedule)
    rwa [heq] at hsched
  next scheduled txMsgId heq =>
    obtain ⟨rfl, -⟩ := Prod.mk.inj (Except.ok.inj hschedule)
    rwa [heq] at hsched

theorem partition_txDataPacket (hpart : sched.Partition)
    {drained : Bool} (hnodup : order.Nodup) {packet? : Option Packet}
    (htx : sched.txDataPacket cfg drained order = .ok (next, packet?)) : next.Partition := by
  have hscanned := hpart.getNextMsgId hnodup
  unfold txDataPacket at htx
  split at htx
  · split at htx
    next cleared hselect =>
      obtain ⟨rfl, -⟩ := Prod.mk.inj (Except.ok.inj htx)
      rw [hselect] at hscanned
      exact hscanned.of_same rfl fun _ => Iff.rfl
    next cleared txMsgId hselect =>
      rw [hselect] at hscanned
      obtain ⟨⟨sent, packet⟩, hpkt, hnext⟩ := bind_eq_ok.mp htx
      cases packet with
      | none => cases hnext
      | some packet =>
        obtain ⟨rfl, -⟩ := Prod.mk.inj (Except.ok.inj hnext)
        obtain ⟨msg, updated, hlook, -, rfl⟩ := getNextPktOfMsg_eq_ok hpkt
        exact hscanned.insert (Option.isSome_of_eq_some hlook) updated rfl rfl
  · obtain ⟨rfl, -⟩ := Prod.mk.inj (Except.ok.inj htx)
    exact hpart.of_same rfl fun _ => Iff.rfl

theorem partition_applyCtrlPkt (hpart : sched.Partition)
    {platform : Platform} (hnodup : platform.order.Nodup) {msg : HomaOutboundMsg}
    {header : HomaHeader} (hinUse : sched.InUse header.txMsgId) {busy? : Option Packet} (happly :
    sched.applyCtrlPkt cfg platform msg header = .ok (next, busy?)) : next.Partition := by
  unfold applyCtrlPkt at happly
  split at happly
  · obtain ⟨granted, -, hnext⟩ := bind_eq_ok.mp happly
    obtain ⟨rfl, -⟩ := Prod.mk.inj (Except.ok.inj hnext)
    exact hpart.insert hinUse granted rfl rfl
  · split at happly
    · obtain ⟨granted, -, hq⟩ := bind_eq_ok.mp happly
      obtain ⟨queued, -, hnext⟩ := bind_eq_ok.mp hq
      obtain ⟨rfl, -⟩ := Prod.mk.inj (Except.ok.inj hnext)
      -- the message is stored before the scan that may clear expired ones
      let updated := { sched with
        outboundMsgs := sched.outboundMsgs.insert header.txMsgId queued }
      have hupd : updated.Partition := hpart.insert hinUse queued rfl rfl
      exact (hupd.getNextMsgId hnodup).of_same rfl fun _ => Iff.rfl
    · split at happly
      · obtain ⟨acked, -, hnext⟩ := bind_eq_ok.mp happly
        obtain ⟨rfl, -⟩ := Prod.mk.inj (Except.ok.inj hnext)
        let updated := { sched with
          outboundMsgs := sched.outboundMsgs.insert header.txMsgId acked }
        have hupd : updated.Partition := hpart.insert hinUse acked rfl rfl
        have hstored : updated.InUse header.txMsgId := by
          rw [InUse, AList.lookup_insert]
          rfl
        exact (hupd.clearStateForMsg hstored).of_same rfl fun _ => Iff.rfl
      · obtain ⟨rfl, -⟩ := Prod.mk.inj (Except.ok.inj happly)
        exact hpart

theorem partition_ctrlPktRecvd (hpart : sched.Partition)
    {platform : Platform} (hnodup : platform.order.Nodup) {packet : Packet} {busy? : Option Packet}
    (hrecv : sched.ctrlPktRecvdForOutboundMsg cfg platform packet = .ok (next, busy?)) :
    next.Partition := by
  unfold ctrlPktRecvdForOutboundMsg at hrecv
  dsimp only at hrecv
  split at hrecv
  · obtain ⟨rfl, -⟩ := Prod.mk.inj (Except.ok.inj hrecv)
    exact hpart
  next msg hlook =>
    have hinUse : sched.InUse packet.homaHeader.txMsgId := Option.isSome_of_eq_some hlook
    split at hrecv
    · obtain ⟨rfl, -⟩ := Prod.mk.inj (Except.ok.inj hrecv)
      exact hpart.clearStateForMsg hinUse
    · split at hrecv
      · exact partition_applyCtrlPkt hpart hnodup hinUse hrecv
      · cases hrecv

theorem partition_handle (hpart : sched.Partition) {input : SendInput} {events : List Event}
    (hhandle : sched.handle cfg input = .ok (next, events)) : next.Partition := by
  cases input with
  | send message saddr daddr sport dport origin => exact partition_send hpart hhandle
  | ctrlPkt packet platform =>
    obtain ⟨busy, horder, hrecv, -⟩ := handle_ctrlPkt hhandle
    exact partition_ctrlPktRecvd hpart (nodup_of_isTraversal horder) hrecv
  | txDataPacket drained order =>
    obtain ⟨packet, horder, htx, -⟩ := handle_txDataPacket hhandle
    exact partition_txDataPacket hpart (nodup_of_isTraversal horder) htx

theorem partition_of_reachable (hreach : (machine cfg).Reachable sched) : sched.Partition := by
  refine hreach.invariant partition_initial ?_
  intro state input next hpart _ hstep
  obtain ⟨⟨moved, events⟩, hhandle, hnext⟩ := bind_eq_ok.mp hstep
  obtain rfl : moved = next := Except.ok.inj hnext
  exact partition_handle hpart hhandle

/-! ## Lookups that insert on a miss -/

theorem create_ne_unknownMsg {message : Payload} {saddr daddr : Ipv4Address} {sport dport origin :
    Nat} : create cfg message saddr daddr sport dport origin ≠ .error .unknownMsg := by
  let numPkts := uint16 (packetize cfg.maxPayloadSize message.length
    message).length
  by_cases hcnt : numPkts = message.length / cfg.maxPayloadSize +
      if message.length % cfg.maxPayloadSize ≠ 0 then 1 else 0
  · rw [create, if_pos hcnt]
    rintro ⟨⟩
  · rw [create, if_neg hcnt]
    rintro ⟨⟩

theorem txDataPacket_ne_unknownMsg (drained : Bool)
    (order : List Nat) : sched.txDataPacket cfg drained order ≠ .error .unknownMsg := by
  unfold txDataPacket
  split
  · split
    · rintro ⟨⟩
    next cleared txMsgId hselect =>
      have hselected : (sched.getNextMsgId order).2 = some txMsgId := by rw [hselect]
      obtain ⟨msg, hlook, hlive, hsel⟩ := getNextMsgId_some hselected
      have hstored := lookup_getNextMsgId order hlook hlive
      rw [hselect] at hstored
      simp only [isSelectable, Bool.and_eq_true] at hsel
      obtain ⟨_, sent, packet, hpkt, -⟩ := getNextPktOfMsg_of_isSendable cfg hstored hsel.2
      rw [hpkt]
      rintro ⟨⟩
  · rintro ⟨⟩

theorem handleGrantOffset_ne_unknownMsg (msg : HomaOutboundMsg)
    (header : HomaHeader) : msg.handleGrantOffset cfg header ≠ .error .unknownMsg := by
  unfold handleGrantOffset
  dsimp only
  split
  · rintro ⟨⟩
  · rintro ⟨⟩

theorem applyCtrlPkt_ne_unknownMsg (platform : Platform) (msg : HomaOutboundMsg)
    (header : HomaHeader) : sched.applyCtrlPkt cfg platform msg header ≠ .error .unknownMsg := by
  intro happly
  unfold applyCtrlPkt at happly
  split at happly
  · exact handleGrantOffset_ne_unknownMsg msg header (bind_eq_error (by simp) happly)
  · split at happly
    · cases hgrant : msg.handleGrantOffset cfg header with
      | error fault =>
        rw [hgrant] at happly
        obtain rfl : fault = .unknownMsg := Except.error.inj happly
        exact handleGrantOffset_ne_unknownMsg msg header hgrant
      | ok granted =>
        rw [hgrant] at happly
        have hresend : granted.handleResend header = .error .unknownMsg :=
          bind_eq_error (by simp) happly
        simp only [handleResend] at hresend
        split at hresend <;> cases hresend
    · split at happly
      · have hack : msg.handleAck header = .error .unknownMsg := bind_eq_error (by simp) happly
        simp only [handleAck] at hack
        split at hack <;> cases hack
      · cases happly

theorem handle_ne_unknownMsg (input : SendInput) :
    sched.handle cfg input ≠ .error .unknownMsg := by
  intro hhandle
  cases input with
  | send message saddr daddr sport dport origin =>
    refine create_ne_unknownMsg (bind_eq_error ?_ hhandle)
    intro outMsg
    split
    · exact ⟨_, rfl⟩
    · exact ⟨_, rfl⟩
  | ctrlPkt packet platform =>
    simp only [handle] at hhandle
    split at hhandle
    · split at hhandle
      · have hrecv : sched.ctrlPktRecvdForOutboundMsg cfg platform packet =
            .error .unknownMsg := bind_eq_error (by simp) hhandle
        unfold ctrlPktRecvdForOutboundMsg at hrecv
        dsimp only at hrecv
        split at hrecv
        · cases hrecv
        · split at hrecv
          · cases hrecv
          · split at hrecv
            · exact applyCtrlPkt_ne_unknownMsg _ _ _ hrecv
            · cases hrecv
      · cases hhandle
    · cases hhandle
  | txDataPacket drained order =>
    simp only [handle] at hhandle
    split at hhandle
    · split at hhandle
      · exact txDataPacket_ne_unknownMsg drained order (bind_eq_error (by simp) hhandle)
      · cases hhandle
    · cases hhandle

/-- The free ids are distinct, name no message, and with the ids in use are exactly those below
`MAX_N_MSG`; no lookup misses, so none stores a null message; and `ScheduleNewMsg` fails exactly
when every id is in use, and changes nothing then. -/
theorem txMsgIds_partition (hreachable : (machine cfg).Reachable sched) :
    sched.Partition ∧ (∀ input, sched.handle cfg input ≠ .error .unknownMsg) ∧
      ∀ outMsg : HomaOutboundMsg,
        ((sched.scheduleNewMsg outMsg).2 = none ↔ ∀ txMsgId < maxNMsg, sched.InUse txMsgId) ∧
          ((sched.scheduleNewMsg outMsg).2 = none → (sched.scheduleNewMsg outMsg).1 = sched) := by
  have hpartition := partition_of_reachable hreachable
  refine ⟨hpartition, handle_ne_unknownMsg, fun outMsg => ⟨?_, scheduleNewMsg_of_none⟩⟩
  exact hpartition.scheduleNewMsg_none outMsg

def sampleAck : Packet where
  ipv4Header := { source := 2, destination := 1, ecn := .notECT }
  homaHeader := {
    srcPort := 6
    dstPort := 5
    flags := Flag.ack.mask
    pktOffset := 1 }
  payload := []
  origin := 0

/-- Of two messages the first has been sent and acknowledged: its id is free again. -/
theorem txMsgIds_partition_acked :
    let sched := (machine Config.oneByte).after (fun _ _ => true)
      [.send [7] 1 2 5 6 0, .txDataPacket true [0], .send [8] 1 3 5 6 1,
        .ctrlPkt sampleAck ⟨[0, 1], 0⟩] initial
    0 ∈ sched.txMsgIdFreeList ∧ sched.InUse 1 ∧ 1 ∉ sched.txMsgIdFreeList := by
  intro sched
  have hreachable : (machine Config.oneByte).Reachable sched :=
    ReachableUnder.after (fun _ _ _ => trivial) _ .init
  have hinUse : ¬ sched.InUse 0 ∧ sched.InUse 1 := by
    unfold InUse
    decide +kernel
  have hpartition := (txMsgIds_partition hreachable).1
  have hfree : 0 ∈ sched.txMsgIdFreeList :=
    ((hpartition.covers 0).mp (by decide)).resolve_right hinUse.1
  exact ⟨hfree, hinUse.2, fun hone => hpartition.disjoint 1 hone hinUse.2⟩

end HomaSird.Homa.HomaSendScheduler
