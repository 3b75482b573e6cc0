import HomaSird.Homa.SendScheduler

/-! # No transmission is forgotten

A `TxDataPacket` event is pending whenever there is a message to transmit for,
and a message that is selected has a packet to transmit.
-/

namespace HomaSird.Homa

open Transition Transition.Machine

namespace HomaOutboundMsg

/-- What a transmission takes from a message: the credit request it owes, or the granted packet at
the head of its queue, whose offset leaves the queue with all its copies. -/
inductive Taken (cfg : Config) (msg sent : HomaOutboundMsg) (packet : Packet) : Prop where
  | request (hwait : msg.waitForFirstGrant = true)
      (howed : msg.initialCreditRequestSent = false)
      (hoff : packet.homaHeader.pktOffset = 0) (hload : packet.payload = [])
      (hsent : sent = { msg with initialCreditRequestSent := true })
  | queued {pktOffset : Nat} (hopen : msg.waitForFirstGrant = false)
      (htop : msg.pktTxQ.top? = some pktOffset) (hgrant : pktOffset ≤ msg.maxGrantedIdx)
      (hoff : packet.homaHeader.pktOffset = pktOffset)
      (hload : packet.payload =
        if cfg.memIsOptimized then List.replicate (msg.pktSizes.getD pktOffset 0) 0
        else msg.packets.getD pktOffset [])
      (hcnt : ∀ other, sent.pktTxQ.count other =
        if other = pktOffset then 0 else msg.pktTxQ.count other)

/-- The packet is a DATA packet of the message and takes from it what it carries. -/
structure PacketOf (cfg : Config) (txMsgId : Nat) (msg sent : HomaOutboundMsg)
    (packet : Packet) : Prop where
  data : packet.hasFlag .data = true
  key_eq : packet.key = msg.key txMsgId
  origin_eq : packet.origin = msg.origin
  size_eq : packet.homaHeader.msgSizeBytes = msg.msgSizeBytes
  taken : Taken cfg msg sent packet

variable {cfg : Config} {msg : HomaOutboundMsg} {txMsgId pktOffset : Nat}

theorem hasFlag_data {packet : Packet} (hflags : packet.homaHeader.flags = Flag.data.mask) :
    packet.hasFlag .data = true :=
  HomaHeader.hasFlag_mask hflags .data

theorem packetOf_request (hreq : msg.needsInitialCreditRequest = true) :
    PacketOf cfg txMsgId msg msg.markInitialCreditRequestSent
      (msg.generateInitialCreditRequest txMsgId) where
  data := hasFlag_data rfl
  key_eq := rfl
  origin_eq := rfl
  size_eq := rfl
  taken := by
    rw [needsInitialCreditRequest, Bool.and_eq_true, Bool.not_eq_true'] at hreq
    exact .request hreq.1 hreq.2 rfl rfl rfl

theorem pktTxQ_consumeSenderCredit (msg : HomaOutboundMsg) :
    msg.consumeSenderCredit.pktTxQ = msg.pktTxQ := by
  unfold consumeSenderCredit
  split
  · rfl
  · rfl

theorem count_popWhileTop {queue : MinQueue Nat} (htop : queue.top? = some pktOffset)
    (other : Nat) :
    (queue.popWhileTop pktOffset).count other =
      if other = pktOffset then 0 else queue.count other := by
  split
  next hsame =>
    rw [hsame]
    exact MinQueue.count_popWhileTop_self htop
  next hne => exact MinQueue.count_popWhileTop_of_ne queue hne

end HomaOutboundMsg

namespace HomaSendScheduler

open HomaOutboundMsg

/-- `GetNextMsgId` may select the message. -/
def isSelectable (msg : HomaOutboundMsg) : Bool :=
  !msg.isExpired && decide (msg.remainingBytes < 2 ^ 32 - 1) && isSendable msg

/-! ## What `GetNextMsgId` selects -/

variable {txMsgId : Nat} {msg : HomaOutboundMsg} {order : List Nat} {sched : HomaSendScheduler}
  {cfg : Config}

theorem selectMsg_some {entries : List (Nat × HomaOutboundMsg)} {minRemainingBytes : Nat}
    {selected : Option Nat}
    (hselect : selectMsg entries minRemainingBytes selected = some txMsgId) :
    selected = some txMsgId ∨
      ∃ msg,
        (txMsgId, msg) ∈ entries ∧ msg.isExpired = false ∧ msg.remainingBytes < minRemainingBytes ∧
          isSendable msg = true := by
  induction entries generalizing minRemainingBytes selected with
  | nil => exact Or.inl hselect
  | cons entry rest ih =>
    obtain ⟨entryId, entryMsg⟩ := entry
    rw [selectMsg] at hselect
    split at hselect
    next haccept =>
      simp only [Bool.and_eq_true, Bool.not_eq_true', decide_eq_true_eq] at haccept
      obtain ⟨⟨hlive, hless⟩, hsend⟩ := haccept
      right
      rcases ih hselect with hhere | ⟨msg, hmem, hlater⟩
      · obtain rfl : entryId = txMsgId := Option.some.inj hhere
        exact ⟨entryMsg, List.mem_cons_self, hlive, hless, hsend⟩
      · have hbelow := hlater.2.1.trans hless
        exact ⟨msg, List.mem_cons_of_mem _ hmem, hlater.1, hbelow, hlater.2.2⟩
    · rcases ih hselect with hpre | ⟨msg, hmem, hlater⟩
      · exact Or.inl hpre
      · exact Or.inr ⟨msg, List.mem_cons_of_mem _ hmem, hlater⟩

theorem selectMsg_of_some (entries : List (Nat × HomaOutboundMsg)) (minRemainingBytes : Nat)
    (txMsgId : Nat) : (selectMsg entries minRemainingBytes (some txMsgId)).isSome := by
  induction entries generalizing minRemainingBytes txMsgId with
  | nil => rfl
  | cons entry rest ih =>
    rw [selectMsg]
    split
    · exact ih _ _
    · exact ih _ _

theorem selectMsg_none {entries : List (Nat × HomaOutboundMsg)} {minRemainingBytes : Nat}
    (hselect : selectMsg entries minRemainingBytes none = none) :
    ∀ entry ∈ entries, (!entry.2.isExpired && decide (entry.2.remainingBytes < minRemainingBytes) &&
        isSendable entry.2) = false := by
  induction entries with
  | nil => simp
  | cons entry rest ih =>
    intro other hother
    rw [selectMsg] at hselect
    split at hselect
    · have hsome := selectMsg_of_some rest entry.2.remainingBytes entry.1
      rw [hselect] at hsome
      cases hsome
    next hreject =>
      rcases List.mem_cons.mp hother with rfl | hlater
      · simpa using hreject
      · exact ih hselect other hlater

theorem mem_entriesIn :
    (txMsgId, msg) ∈ sched.entriesIn order ↔
      txMsgId ∈ order ∧ sched.outboundMsgs.lookup txMsgId = some msg := by
  simp only [entriesIn, List.mem_filterMap, Option.map_eq_some_iff, Prod.mk.injEq]
  constructor
  · rintro ⟨visited, hvisit, stored, hlook, rfl, rfl⟩
    exact ⟨hvisit, hlook⟩
  · rintro ⟨hvisit, hlook⟩
    exact ⟨txMsgId, hvisit, msg, hlook, rfl, rfl⟩

theorem mem_of_isTraversal (horder : sched.isTraversal order = true)
    (hlook : sched.outboundMsgs.lookup txMsgId = some msg) : txMsgId ∈ order := by
  have hperm : order.Perm sched.outboundMsgs.keys := by simpa [isTraversal] using horder
  have hkey : txMsgId ∈ sched.outboundMsgs := by
    rw [← AList.lookup_isSome, hlook]
    rfl
  exact hperm.mem_iff.mpr (AList.mem_keys.mpr hkey)

/-! ## Clearing messages -/

theorem lookup_foldl_clearStateForMsg (expired : List Nat) (sched : HomaSendScheduler)
    (txMsgId : Nat) :
    (expired.foldl clearStateForMsg sched).outboundMsgs.lookup txMsgId =
      if txMsgId ∈ expired then none else sched.outboundMsgs.lookup txMsgId := by
  induction expired generalizing sched with
  | nil => simp
  | cons first rest ih =>
    rw [List.foldl_cons, ih]
    by_cases hrest : txMsgId ∈ rest
    · simp [hrest]
    · by_cases hfst : txMsgId = first
      · subst hfst
        simp [clearStateForMsg]
      · simp [hrest, hfst, clearStateForMsg, AList.lookup_erase_ne hfst]

theorem txEventPending_foldl_clearStateForMsg (expired : List Nat) (sched : HomaSendScheduler) :
    (expired.foldl clearStateForMsg sched).txEventPending = sched.txEventPending := by
  induction expired generalizing sched with
  | nil => rfl
  | cons first rest ih => exact ih _

theorem lookup_getNextMsgId (order : List Nat) {msg : HomaOutboundMsg}
    (hlook : sched.outboundMsgs.lookup txMsgId = some msg) (hlive : msg.isExpired = false) :
    (sched.getNextMsgId order).1.outboundMsgs.lookup txMsgId = some msg := by
  rw [getNextMsgId, lookup_foldl_clearStateForMsg, if_neg, hlook]
  intro hexp
  obtain ⟨⟨visited, stored⟩, hmem, rfl⟩ := List.mem_map.mp hexp
  obtain ⟨hent, hstored⟩ := List.mem_filter.mp hmem
  rw [(mem_entriesIn.mp hent).2] at hlook
  obtain rfl : stored = msg := Option.some.inj hlook
  rw [hlive] at hstored
  cases hstored

theorem lookup_of_getNextMsgId
    (hlook : (sched.getNextMsgId order).1.outboundMsgs.lookup txMsgId = some msg) :
    sched.outboundMsgs.lookup txMsgId = some msg := by
  rw [getNextMsgId, lookup_foldl_clearStateForMsg] at hlook
  split at hlook
  · cases hlook
  · exact hlook

theorem getNextMsgId_some (hselect : (sched.getNextMsgId order).2 = some txMsgId) :
    ∃ msg, sched.outboundMsgs.lookup txMsgId = some msg ∧
    msg.isExpired = false ∧ isSelectable msg = true := by
  rcases selectMsg_some hselect with hnone | ⟨msg, hmem, hlive, hless, hsend⟩
  · cases hnone
  · refine ⟨msg, (mem_entriesIn.mp hmem).2, hlive, ?_⟩
    rw [isSelectable, hlive, hsend, decide_eq_true hless]
    rfl

theorem not_isSelectable_of_getNextMsgId_none (horder : sched.isTraversal order = true)
    (hselect : (sched.getNextMsgId order).2 = none)
    (hlook : sched.outboundMsgs.lookup txMsgId = some msg) : isSelectable msg = false := by
  have hvisit := mem_of_isTraversal horder hlook
  exact selectMsg_none hselect (txMsgId, msg) (mem_entriesIn.mpr ⟨hvisit, hlook⟩)

/-! ## The packet of a selected message -/

theorem getNextPktOffset_eq_some {pktOffset : Nat} (hnext : msg.getNextPktOffset = some pktOffset) :
    msg.waitForFirstGrant = false ∧ msg.pktTxQ.top? = some pktOffset ∧
    pktOffset ≤ msg.maxGrantedIdx ∧ pktOffset < msg.getMsgSizePkts := by
  unfold HomaOutboundMsg.getNextPktOffset at hnext
  split at hnext
  · cases hnext
  next hopen =>
    split at hnext
    · cases hnext
    next top htop =>
      split at hnext
      next hgrant =>
        obtain rfl : top = pktOffset := Option.some.inj hnext
        exact ⟨by simpa using hopen, htop, hgrant⟩
      · cases hnext

theorem getNextPktOfMsg_of_isSendable (cfg : Config)
    (hlook : sched.outboundMsgs.lookup txMsgId = some msg) (hsend : isSendable msg = true) :
    ∃ sent next packet,
      sched.getNextPktOfMsg cfg txMsgId = .ok (next, some packet) ∧
      PacketOf cfg txMsgId msg sent packet ∧
      next.outboundMsgs.lookup txMsgId = some sent := by
  rw [getNextPktOfMsg, hlook]
  by_cases hreq : msg.needsInitialCreditRequest
  · refine ⟨msg.markInitialCreditRequestSent, _, _, if_pos hreq, packetOf_request hreq, ?_⟩
    exact AList.lookup_insert _
  · obtain ⟨pktOffset, hnext⟩ : ∃ pktOffset, msg.getNextPktOffset = some pktOffset := by
      simpa [isSendable, hreq, Option.isSome_iff_exists] using hsend
    obtain ⟨hopen, htop, hgrant, -⟩ := getNextPktOffset_eq_some hnext
    simp only [hreq, if_false, hnext, HomaOutboundMsg.removeNextPktFromTxQ, htop, if_true, bind,
      Except.bind, Bool.false_eq_true]
    refine ⟨_, _, _, rfl, ⟨hasFlag_data rfl, rfl, rfl, rfl, ?_⟩,
      AList.lookup_insert _⟩
    refine .queued hopen htop hgrant rfl rfl fun other => ?_
    have hqueue : (if cfg.sirdEnabled then consumeSenderCredit
        { msg with pktTxQ := msg.pktTxQ.popWhileTop pktOffset }
        else { msg with pktTxQ := msg.pktTxQ.popWhileTop pktOffset }).pktTxQ =
        msg.pktTxQ.popWhileTop pktOffset := by
      split
      · exact pktTxQ_consumeSenderCredit _
      · rfl
    rw [hqueue]
    exact count_popWhileTop htop other

/-! ## The wakeup invariant -/

/-- Whenever a message may be selected, a `TxDataPacket` event is pending. -/
def Awake (sched : HomaSendScheduler) : Prop :=
  ∀ txMsgId msg, sched.outboundMsgs.lookup txMsgId = some msg → isSelectable msg = true →
    sched.txEventPending = true

theorem awake_of_pending (hpend : sched.txEventPending = true) : sched.Awake := fun _ _ _ _ => hpend

variable {sched next : HomaSendScheduler}

theorem awake_send {events : List Event} {message : Payload} {saddr daddr : Ipv4Address}
    {sport dport origin : Nat} (hawake : sched.Awake)
    (hsend : sched.send cfg message saddr daddr sport dport origin = .ok (next, events)) :
    next.Awake := by
  obtain ⟨outMsg, _, hsend⟩ := bind_eq_ok.mp hsend
  cases hfree : sched.txMsgIdFreeList with
  | nil =>
    obtain ⟨rfl, -⟩ : sched = next ∧ [] = events := by simpa [scheduleNewMsg, hfree] using hsend
    exact hawake
  | cons txMsgId rest =>
    simp only [scheduleNewMsg, hfree, Except.ok.injEq, Prod.mk.injEq] at hsend
    obtain ⟨rfl, -⟩ := hsend
    exact awake_of_pending rfl

theorem applyCtrlPkt_pending {platform : Platform} {header : HomaHeader} {busy? : Option Packet}
    (happly : sched.applyCtrlPkt cfg platform msg header = .ok (next, busy?)) :
    next = sched ∨ next.txEventPending = true := by
  unfold applyCtrlPkt at happly
  split at happly
  · obtain ⟨granted, _, hnext⟩ := bind_eq_ok.mp happly
    obtain ⟨rfl, -⟩ := Prod.mk.inj (Except.ok.inj hnext)
    exact Or.inr rfl
  · split at happly
    · obtain ⟨granted, _, hq⟩ := bind_eq_ok.mp happly
      obtain ⟨queued, _, hnext⟩ := bind_eq_ok.mp hq
      obtain ⟨rfl, -⟩ := Prod.mk.inj (Except.ok.inj hnext)
      exact Or.inr rfl
    · split at happly
      · obtain ⟨acked, _, hnext⟩ := bind_eq_ok.mp happly
        obtain ⟨rfl, -⟩ := Prod.mk.inj (Except.ok.inj hnext)
        exact Or.inr rfl
      · obtain ⟨rfl, -⟩ := Prod.mk.inj (Except.ok.inj happly)
        exact Or.inl rfl

theorem awake_ctrlPktRecvd {platform : Platform}
    {packet : Packet} {busy? : Option Packet} (hawake : sched.Awake) (hrecv :
    sched.ctrlPktRecvdForOutboundMsg cfg platform packet = .ok (next, busy?)) : next.Awake := by
  unfold ctrlPktRecvdForOutboundMsg at hrecv
  dsimp only at hrecv
  split at hrecv
  · obtain ⟨rfl, -⟩ := Prod.mk.inj (Except.ok.inj hrecv)
    exact hawake
  next msg hlook =>
    split at hrecv
    · -- the expired message is gone, and every other one is as it was
      obtain ⟨rfl, -⟩ := Prod.mk.inj (Except.ok.inj hrecv)
      intro txMsgId other hother hsel
      refine hawake txMsgId other ?_ hsel
      by_cases hsame : txMsgId = packet.homaHeader.txMsgId
      · subst hsame
        simp [clearStateForMsg] at hother
      · simpa [clearStateForMsg, AList.lookup_erase_ne hsame] using hother
    · split at hrecv
      · rcases applyCtrlPkt_pending hrecv with rfl | hpend
        · exact hawake
        · exact awake_of_pending hpend
      · cases hrecv

theorem awake_txDataPacket {drained : Bool} {packet? : Option Packet}
    (horder : sched.isTraversal order = true)
    (htx : sched.txDataPacket cfg drained order = .ok (next, packet?)) :
    next.Awake := by
  unfold txDataPacket at htx
  split at htx
  · split at htx
    next cleared hselect =>
      obtain ⟨rfl, -⟩ := Prod.mk.inj (Except.ok.inj htx)
      have hnone : (sched.getNextMsgId order).2 = none := by rw [hselect]
      intro txMsgId msg hlook hsel
      have hclear : (sched.getNextMsgId order).1.outboundMsgs.lookup txMsgId = some msg := by
        rw [hselect]
        exact hlook
      have hstored := lookup_of_getNextMsgId hclear
      rw [not_isSelectable_of_getNextMsgId_none horder hnone hstored] at hsel
      cases hsel
    next cleared txMsgId _ =>
      obtain ⟨⟨sent, packet⟩, _, hnext⟩ := bind_eq_ok.mp htx
      cases packet with
      | none => cases hnext
      | some packet =>
        obtain ⟨rfl, -⟩ := Prod.mk.inj (Except.ok.inj hnext)
        exact awake_of_pending rfl
  · obtain ⟨rfl, -⟩ := Prod.mk.inj (Except.ok.inj htx)
    exact awake_of_pending rfl

variable {events : List Event}

theorem handle_ctrlPkt {packet : Packet} {platform : Platform}
    (hhandle : sched.handle cfg (.ctrlPkt packet platform) = .ok (next, events)) :
    ∃ busy,
      sched.isTraversal platform.order = true ∧
        sched.ctrlPktRecvdForOutboundMsg cfg platform packet = .ok (next, busy) ∧
        events = sentEvents busy := by
  simp only [handle] at hhandle
  split at hhandle
  · split at hhandle
    next horder =>
      obtain ⟨⟨received, busy⟩, hrecv, hnext⟩ := bind_eq_ok.mp hhandle
      cases hnext
      exact ⟨busy, horder, hrecv, rfl⟩
    · cases hhandle
  · cases hhandle

theorem handle_txDataPacket {drained : Bool}
    (hhandle : sched.handle cfg (.txDataPacket drained order) = .ok (next, events)) :
    ∃ packet,
      sched.isTraversal order = true ∧ sched.txDataPacket cfg drained order = .ok (next, packet) ∧
        events = sentEvents packet := by
  simp only [handle] at hhandle
  split at hhandle
  · split at hhandle
    next horder =>
      obtain ⟨⟨sent, packet⟩, htx, hnext⟩ := bind_eq_ok.mp hhandle
      cases hnext
      exact ⟨packet, horder, htx, rfl⟩
    · cases hhandle
  · cases hhandle

theorem awake_handle {input : SendInput} (hawake : sched.Awake)
    (hhandle : sched.handle cfg input = .ok (next, events)) : next.Awake := by
  cases input with
  | send message saddr daddr sport dport origin => exact awake_send hawake hhandle
  | ctrlPkt packet platform =>
    obtain ⟨busy, -, hrecv, -⟩ := handle_ctrlPkt hhandle
    exact awake_ctrlPktRecvd hawake hrecv
  | txDataPacket drained order =>
    obtain ⟨packet, horder, htx, -⟩ := handle_txDataPacket hhandle
    exact awake_txDataPacket horder htx

theorem awake_of_reachable (hreach : (machine cfg).Reachable sched) : sched.Awake := by
  refine hreach.invariant ?_ ?_
  · intro txMsgId msg hlook
    cases hlook
  · intro state input next hawake _ hstep
    obtain ⟨⟨moved, events⟩, hhandle, hnext⟩ := bind_eq_ok.mp hstep
    obtain rfl : moved = next := Except.ok.inj hnext
    exact awake_handle hawake hhandle

/-- In every reachable state and for every order in which the messages may be visited, when a
message would be selected a `TxDataPacket` event is pending, and running it sends a packet of that
message. -/
theorem tx_pending_of_selected {cfg : Config} {sched : HomaSendScheduler}
    (hreachable : (machine cfg).Reachable sched) {order : List Nat} {txMsgId : Nat}
    (hselect : (sched.getNextMsgId order).2 = some txMsgId) :
    sched.txEventPending = true ∧
      ∃ msg sent next packet,
        sched.outboundMsgs.lookup txMsgId = some msg ∧
        (sched.getNextMsgId order).1.getNextPktOfMsg cfg txMsgId = .ok (next, some packet) ∧
        PacketOf cfg txMsgId msg sent packet ∧
        next.outboundMsgs.lookup txMsgId = some sent ∧
        sched.txDataPacket cfg true order =
          .ok ({ next with txEventPending := true }, some packet) := by
  obtain ⟨msg, hlook, hlive, hselectable⟩ := getNextMsgId_some hselect
  have hsend : isSendable msg = true := by
    simp only [isSelectable, Bool.and_eq_true] at hselectable
    exact hselectable.2
  have hcleared := lookup_getNextMsgId order hlook hlive
  obtain ⟨sent, next, packet, hpkt, hof, hstored⟩ :=
    getNextPktOfMsg_of_isSendable cfg hcleared hsend
  refine ⟨awake_of_reachable hreachable txMsgId msg hlook hselectable, ?_⟩
  refine ⟨msg, sent, next, packet, hlook, hpkt, hof, hstored, ?_⟩
  have hpair : sched.getNextMsgId order = ((sched.getNextMsgId order).1, some txMsgId) := by
    rw [← hselect]
  simp only [txDataPacket, if_true]
  rw [hpair]
  simp [hpkt, bind, Except.bind]

/-- Behind a message of two bytes, one byte for another host goes first. -/
theorem tx_pending_of_selected_oneByte :
    let cfg : Config := { Config.oneByte with memIsOptimized := false }
    let sched := (machine cfg).after (fun _ _ => true)
      [.send [7, 8] 1 2 5 6 0, .txDataPacket true [0], .send [9] 1 3 5 6 1] initial
    (sched.getNextMsgId [0, 1]).2 = some 1 ∧
      sched.txEventPending = true ∧
      ∃ next packet,
        sched.txDataPacket cfg true [0, 1] = .ok (next, some packet) ∧
        packet.key = ⟨1, 3, 5, 6, 1⟩ ∧
        packet.payload = [9] := by
  intro cfg sched
  have hreachable : (machine cfg).Reachable sched :=
    ReachableUnder.after (fun _ _ _ => trivial) _ .init
  have hselect : (sched.getNextMsgId [0, 1]).2 = some 1 := by decide +kernel
  obtain ⟨hpend, msg, sent, next, packet, hlook, -, hof, -, htx⟩ :=
    tx_pending_of_selected hreachable hselect
  have hmsg : (sched.outboundMsgs.lookup 1).map (fun msg => (msg.key 1, msg.packets,
      msg.waitForFirstGrant, msg.pktTxQ.top?)) = some (⟨1, 3, 5, 6, 1⟩, [[9]], false, some 0) := by
    decide +kernel
  rw [hlook, Option.map_some, Option.some.injEq] at hmsg
  simp only [Prod.mk.injEq] at hmsg
  obtain ⟨hkey, hpkts, hopen, htop⟩ := hmsg
  refine ⟨hselect, hpend, _, packet, htx, hof.key_eq.trans hkey, ?_⟩
  cases hof.taken with
  | request hwait => cases hopen.symm.trans hwait
  | queued _ hfirst _ _ hload =>
    obtain rfl := Option.some.inj (htop.symm.trans hfirst)
    rw [hload, hpkts]
    rfl

end HomaSendScheduler

end HomaSird.Homa
