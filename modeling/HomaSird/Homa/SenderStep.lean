import HomaSird.Homa.TxWakeup

/-! # What one event does to a sender

Inversion lemmas for `ScheduleNewMsg`, `TxDataPacket` and
`CtrlPktRecvdForOutboundMsg`: which message an event changes, how, and which
packet it sends.
-/

namespace HomaSird.Homa

open Transition Transition.Machine UnorderedMap List

namespace HomaOutboundMsg

variable {cfg : Config} {msg next : HomaOutboundMsg}

structure SameMsg (msg next : HomaOutboundMsg) : Prop where
  key_eq : ∀ txMsgId, next.key txMsgId = msg.key txMsgId
  origin_eq : next.origin = msg.origin
  msgSizeBytes_eq : next.msgSizeBytes = msg.msgSizeBytes
  maxPayloadSize_eq : next.maxPayloadSize = msg.maxPayloadSize
  isExpired_eq : next.isExpired = msg.isExpired

theorem SameMsg.refl (msg : HomaOutboundMsg) : msg.SameMsg msg :=
  ⟨fun _ => rfl, rfl, rfl, rfl, rfl⟩

theorem SameMsg.trans {first second third : HomaOutboundMsg} (hfst : first.SameMsg second)
    (hsnd : second.SameMsg third) : first.SameMsg third where
  key_eq txMsgId := (hsnd.key_eq txMsgId).trans (hfst.key_eq txMsgId)
  origin_eq := hsnd.origin_eq.trans hfst.origin_eq
  msgSizeBytes_eq := hsnd.msgSizeBytes_eq.trans hfst.msgSizeBytes_eq
  maxPayloadSize_eq := hsnd.maxPayloadSize_eq.trans hfst.maxPayloadSize_eq
  isExpired_eq := hsnd.isExpired_eq.trans hfst.isExpired_eq

theorem SameMsg.getMsgSizePkts_eq (hsame : msg.SameMsg next) :
    next.getMsgSizePkts = msg.getMsgSizePkts := by
  rw [getMsgSizePkts, hsame.msgSizeBytes_eq, hsame.maxPayloadSize_eq, getMsgSizePkts]

/-- Every message of a sender has not expired, its packets are cut for the link, and only one with
packets waits for a GRANT. -/
structure Sound (cfg : Config) (msg : HomaOutboundMsg) : Prop where
  unexpired : msg.isExpired = false
  maxPayloadSize_eq : msg.maxPayloadSize = cfg.maxPayloadSize
  waiting_pos : msg.waitForFirstGrant = true → 0 < msg.getMsgSizePkts

theorem Sound.getMsgSizePkts_eq (hsound : msg.Sound cfg) :
    msg.getMsgSizePkts = packetCount msg.msgSizeBytes cfg.maxPayloadSize := by
  rw [getMsgSizePkts, hsound.maxPayloadSize_eq]

theorem Sound.of_same (hsound : msg.Sound cfg) (hsame : msg.SameMsg next)
    (hwait : next.waitForFirstGrant = true → msg.waitForFirstGrant = true) : next.Sound cfg where
  unexpired := hsame.isExpired_eq.trans hsound.unexpired
  maxPayloadSize_eq := hsame.maxPayloadSize_eq.trans hsound.maxPayloadSize_eq
  waiting_pos hwaiting := hsame.getMsgSizePkts_eq ▸ hsound.waiting_pos (hwait hwaiting)

structure Created (cfg : Config) (message : Payload) (saddr daddr : Ipv4Address)
    (sport dport origin : Nat) (msg : HomaOutboundMsg) : Prop where
  key_eq : ∀ txMsgId, msg.key txMsgId = ⟨saddr, daddr, sport, dport, txMsgId⟩
  origin_eq : msg.origin = origin
  msgSizeBytes_eq : msg.msgSizeBytes = message.length
  pktTxQ_eq : msg.pktTxQ = MinQueue.range msg.getMsgSizePkts
  sound : msg.Sound cfg

theorem create_eq_ok {message : Payload} {saddr daddr : Ipv4Address} {sport dport origin : Nat}
    (hcreate : create cfg message saddr daddr sport dport origin = .ok msg) :
    Created cfg message saddr daddr sport dport origin msg := by
  let numPkts := uint16 (packetize cfg.maxPayloadSize message.length message).length
  have hlt : numPkts < 2 ^ 16 := uint16_lt _
  by_cases hcnt : numPkts = message.length / cfg.maxPayloadSize +
      if message.length % cfg.maxPayloadSize ≠ 0 then 1 else 0
  · rw [create, if_pos hcnt] at hcreate
    cases hcreate
    have hsz : packetCount message.length cfg.maxPayloadSize = numPkts := by
      rw [packetCount, ← hcnt, uint16_of_lt hlt]
    refine ⟨fun _ => rfl, rfl, rfl, congrArg MinQueue.range hsz.symm, rfl, rfl, ?_⟩
    intro hwait
    rw [getMsgSizePkts, hsz, Nat.pos_iff_ne_zero]
    intro hzero
    have hwin : (initialWindow cfg numPkts).2 = true := hwait
    rw [initialWindow, if_pos hzero] at hwin
    cases hwin
  · rw [create, if_neg hcnt] at hcreate
    cases hcreate

/-! ## GRANTs and RESENDs -/

theorem sameMsg_raiseGrant (cfg : Config) (msg : HomaOutboundMsg) (header : HomaHeader) :
    msg.SameMsg (msg.raiseGrant cfg header) ∧ (msg.raiseGrant cfg header).pktTxQ = msg.pktTxQ ∧
      ((msg.raiseGrant cfg header).waitForFirstGrant = true → msg.waitForFirstGrant = true) := by
  unfold raiseGrant
  dsimp only
  split
  · exact ⟨⟨fun _ => rfl, rfl, rfl, rfl, rfl⟩, rfl, fun hwait => (Bool.and_eq_true_iff.mp hwait).1⟩
  · split
    · exact ⟨⟨fun _ => rfl, rfl, rfl, rfl, rfl⟩, rfl,
        fun hwait => (Bool.and_eq_true_iff.mp hwait).1⟩
    · exact ⟨⟨fun _ => rfl, rfl, rfl, rfl, rfl⟩, rfl,
        fun hwait => (Bool.and_eq_true_iff.mp hwait).1⟩

variable {header : HomaHeader}

theorem handleGrantOffset_eq_ok (hgrant : msg.handleGrantOffset cfg header = .ok next) :
    msg.SameMsg next ∧
    next.pktTxQ = msg.pktTxQ ∧ (next.waitForFirstGrant = true → msg.waitForFirstGrant = true) := by
  have hraise := sameMsg_raiseGrant cfg msg header
  simp only [handleGrantOffset] at hgrant
  split at hgrant
  · cases hgrant
    obtain ⟨hsame, hq, hwait⟩ := hraise
    split
    · exact ⟨⟨hsame.key_eq, hsame.origin_eq, hsame.msgSizeBytes_eq, hsame.maxPayloadSize_eq,
        hsame.isExpired_eq⟩, hq, hwait⟩
    · exact ⟨hsame, hq, hwait⟩
  · cases hgrant

theorem handleResend_eq_ok (hresend : msg.handleResend header = .ok next) :
    msg.SameMsg next ∧ next.pktTxQ = msg.pktTxQ.push header.pktOffset ∧
    next.waitForFirstGrant = msg.waitForFirstGrant := by
  simp only [handleResend] at hresend
  split at hresend
  · cases hresend
    split
    · exact ⟨⟨fun _ => rfl, rfl, rfl, rfl, rfl⟩, rfl, rfl⟩
    · exact ⟨⟨fun _ => rfl, rfl, rfl, rfl, rfl⟩, rfl, rfl⟩
  · cases hresend

inductive Controlled (cfg : Config) (header : HomaHeader) (msg next : HomaOutboundMsg) :
    Prop where
  | grant (hflag : header.hasFlag .grant = true)
      (hgrant : msg.handleGrantOffset cfg header = .ok next)
  | resend {granted : HomaOutboundMsg} (hflag : header.hasFlag .resend = true)
      (hgrant : msg.handleGrantOffset cfg header = .ok granted)
      (hresend : granted.handleResend header = .ok next)

theorem Controlled.sameMsg (hctrl : Controlled cfg header msg next) :
    msg.SameMsg next ∧ (next.waitForFirstGrant = true → msg.waitForFirstGrant = true) := by
  cases hctrl with
  | grant _ hgrant =>
    obtain ⟨hsame, -, hwait⟩ := handleGrantOffset_eq_ok hgrant
    exact ⟨hsame, hwait⟩
  | resend _ hgrant hresend =>
    obtain ⟨hgranted, -, hwait⟩ := handleGrantOffset_eq_ok hgrant
    obtain ⟨hqueued, -, hstill⟩ := handleResend_eq_ok hresend
    exact ⟨hgranted.trans hqueued, fun hwaiting => hwait (hstill ▸ hwaiting)⟩

/-! ## Transmissions -/

inductive Transmitted (cfg : Config) (txMsgId : Nat) (msg : HomaOutboundMsg) :
    HomaOutboundMsg → Packet → Prop where
  | request (hrequest : msg.needsInitialCreditRequest = true) :
      Transmitted cfg txMsgId msg msg.markInitialCreditRequestSent
        (msg.generateInitialCreditRequest txMsgId)
  | data {removed next : HomaOutboundMsg} {pktOffset : Nat} {payload : Payload} {csn : Bool}
      (hoff : msg.getNextPktOffset = some pktOffset)
      (hremoved : removed = { msg with pktTxQ := msg.pktTxQ.popWhileTop pktOffset })
      (hnext : next = if cfg.sirdEnabled then removed.consumeSenderCredit else removed) :
      Transmitted cfg txMsgId msg next
        (HomaSendScheduler.dataPacket cfg removed txMsgId pktOffset payload csn)

theorem consumeSenderCredit_eq (msg : HomaOutboundMsg) :
    ∃ senderHeldCreditPkts, msg.consumeSenderCredit = { msg with senderHeldCreditPkts } := by
  unfold consumeSenderCredit
  split
  · exact ⟨_, rfl⟩
  · exact ⟨msg.senderHeldCreditPkts, rfl⟩

theorem spent_eq (cfg : Config) (msg : HomaOutboundMsg) :
    ∃ senderHeldCreditPkts, (if cfg.sirdEnabled then msg.consumeSenderCredit else msg) =
    { msg with senderHeldCreditPkts } := by
  split
  · exact consumeSenderCredit_eq msg
  · exact ⟨msg.senderHeldCreditPkts, rfl⟩

theorem Transmitted.sameMsg {txMsgId : Nat} {packet : Packet}
    (hsent : Transmitted cfg txMsgId msg next packet) :
    msg.SameMsg next ∧ next.waitForFirstGrant = msg.waitForFirstGrant := by
  cases hsent with
  | request => exact ⟨⟨fun _ => rfl, rfl, rfl, rfl, rfl⟩, rfl⟩
  | data _ hrem hnext =>
    obtain ⟨held, hspent⟩ := spent_eq cfg { msg with pktTxQ := msg.pktTxQ.popWhileTop _ }
    rw [hrem] at hnext
    rw [hnext, hspent]
    exact ⟨⟨fun _ => rfl, rfl, rfl, rfl, rfl⟩, rfl⟩

end HomaOutboundMsg

namespace HomaSendScheduler

open HomaOutboundMsg

variable {cfg : Config} {sched next : HomaSendScheduler} {events : List Event}

/-- Every message is sound, and the free ids are distinct and belong to no message. -/
structure WellFormed (cfg : Config) (sched : HomaSendScheduler) : Prop where
  sound : ∀ txMsgId msg, sched.outboundMsgs.lookup txMsgId = some msg → msg.Sound cfg
  free_nodup : sched.txMsgIdFreeList.Nodup
  free_unused : ∀ txMsgId ∈ sched.txMsgIdFreeList, sched.outboundMsgs.lookup txMsgId = none

theorem getNextMsgId_eq (hsound : ∀ txMsgId msg, sched.outboundMsgs.lookup txMsgId = some msg →
    msg.Sound cfg) (order : List Nat) : (sched.getNextMsgId order).1 = sched := by
  have hnone : (sched.entriesIn order).filter (fun entry => entry.2.isExpired) = [] := by
    rw [filter_eq_nil_iff]
    rintro ⟨txMsgId, msg⟩ hent
    have hlive := (hsound txMsgId msg (mem_entriesIn.mp hent).2).unexpired
    simp [hlive]
  rw [getNextMsgId, hnone]
  rfl

inductive Outcome (cfg : Config) (sched next : HomaSendScheduler) (events : List Event) :
    SendInput → Prop where
  | idle {input : SendInput} (hmsgs : next.outboundMsgs = sched.outboundMsgs)
      (hfree : next.txMsgIdFreeList = sched.txMsgIdFreeList) (hevs : events = []) :
      Outcome cfg sched next events input
  | accepted {message : Payload} {saddr daddr : Ipv4Address} {sport dport origin : Nat}
      {msg : HomaOutboundMsg} {txMsgId : Nat}
      (hfree : sched.txMsgIdFreeList = txMsgId :: next.txMsgIdFreeList)
      (hcreated : Created cfg message saddr daddr sport dport origin msg)
      (hmsgs : next.outboundMsgs = sched.outboundMsgs.insert txMsgId msg)
      (hevs : events = [.msgBegin (msg.key txMsgId) origin msg.msgSizeBytes]) :
      Outcome cfg sched next events (.send message saddr daddr sport dport origin)
  | transmitted {drained : Bool} {order : List Nat} {txMsgId : Nat} {msg sent : HomaOutboundMsg}
      {packet : Packet} (hlook : sched.outboundMsgs.lookup txMsgId = some msg)
      (htransmitted : Transmitted cfg txMsgId msg sent packet)
      (hmsgs : next.outboundMsgs = sched.outboundMsgs.insert txMsgId sent)
      (hfree : next.txMsgIdFreeList = sched.txMsgIdFreeList)
      (hevs : events = [.sendDown packet]) :
      Outcome cfg sched next events (.txDataPacket drained order)
  | controlled {packet : Packet} {platform : Platform} {msg updated : HomaOutboundMsg}
      (hlook : sched.outboundMsgs.lookup packet.homaHeader.txMsgId = some msg)
      (hkey : msg.key packet.homaHeader.txMsgId = packet.ctrlKey)
      (hcontrolled : Controlled cfg packet.homaHeader msg updated)
      (hmsgs : next.outboundMsgs =
        sched.outboundMsgs.insert packet.homaHeader.txMsgId updated)
      (hfree : next.txMsgIdFreeList = sched.txMsgIdFreeList)
      (hevs : events = [] ∨
        ∃ nextTxMsgId, events = [.sendDown (updated.generateBusy nextTxMsgId)]) :
      Outcome cfg sched next events (.ctrlPkt packet platform)
  | acked {packet : Packet} {platform : Platform} {msg : HomaOutboundMsg}
      (hlook : sched.outboundMsgs.lookup packet.homaHeader.txMsgId = some msg)
      (hmsgs : ∀ txMsgId, next.outboundMsgs.lookup txMsgId =
        if txMsgId = packet.homaHeader.txMsgId then none else sched.outboundMsgs.lookup txMsgId)
      (hfree : next.txMsgIdFreeList =
        sched.txMsgIdFreeList ++ [packet.homaHeader.txMsgId])
      (hevs : events = []) :
      Outcome cfg sched next events (.ctrlPkt packet platform)

theorem send_outcome {message : Payload} {saddr daddr : Ipv4Address} {sport dport origin : Nat}
    (hsend : sched.send cfg message saddr daddr sport dport origin = .ok (next, events)) :
    Outcome cfg sched next events (.send message saddr daddr sport dport origin) := by
  obtain ⟨msg, hcreate, hsend⟩ := bind_eq_ok.mp hsend
  cases hfree : sched.txMsgIdFreeList with
  | nil =>
    obtain ⟨rfl, rfl⟩ : sched = next ∧ [] = events := by simpa [scheduleNewMsg, hfree] using hsend
    exact .idle rfl rfl rfl
  | cons txMsgId rest =>
    simp only [scheduleNewMsg, hfree, Except.ok.injEq, Prod.mk.injEq] at hsend
    obtain ⟨rfl, rfl⟩ := hsend
    exact .accepted hfree (create_eq_ok hcreate) rfl rfl

variable {packet : Packet}

theorem getNextPktOfMsg_eq_ok {txMsgId : Nat}
    (hpkt : sched.getNextPktOfMsg cfg txMsgId = .ok (next, some packet)) :
    ∃ msg sent,
      sched.outboundMsgs.lookup txMsgId = some msg ∧ Transmitted cfg txMsgId msg sent packet ∧
        next = { sched with outboundMsgs := sched.outboundMsgs.insert txMsgId sent } := by
  unfold getNextPktOfMsg at hpkt
  split at hpkt
  · cases hpkt
  next msg hlook =>
    split at hpkt
    next hreq =>
      obtain ⟨rfl, heq⟩ := Prod.mk.inj (Except.ok.inj hpkt)
      cases heq
      exact ⟨msg, _, hlook, .request hreq, rfl⟩
    · split at hpkt
      · cases hpkt
      next pktOffset hoff =>
        obtain ⟨⟨payload, removed⟩, hremove, hok⟩ := bind_eq_ok.mp hpkt
        obtain ⟨rfl, heq⟩ := Prod.mk.inj (Except.ok.inj hok)
        cases heq
        have htop := (getNextPktOffset_eq_some hoff).2.1
        rw [removeNextPktFromTxQ, if_pos htop] at hremove
        obtain ⟨-, hrem⟩ := Prod.mk.inj (Except.ok.inj hremove)
        exact ⟨msg, _, hlook, .data hoff hrem.symm rfl, rfl⟩

theorem txDataPacket_outcome (hwf : sched.WellFormed cfg) {drained : Bool} {order : List Nat}
    {packet? : Option Packet} (htx : sched.txDataPacket cfg drained order = .ok (next, packet?))
    : Outcome cfg sched next (sentEvents packet?) (.txDataPacket drained order) := by
  unfold txDataPacket at htx
  split at htx
  · have hclears := getNextMsgId_eq hwf.sound order
    split at htx
    next cleared hselect =>
      cases htx
      obtain rfl : cleared = sched := by rw [← hclears, hselect]
      exact .idle rfl rfl rfl
    next cleared txMsgId hselect =>
      obtain rfl : cleared = sched := by rw [← hclears, hselect]
      obtain ⟨⟨sent, found⟩, hpkt, hok⟩ := bind_eq_ok.mp htx
      cases found with
      | none => cases hok
      | some packet =>
        cases hok
        obtain ⟨msg, moved, hlook, hsent, rfl⟩ := getNextPktOfMsg_eq_ok hpkt
        exact .transmitted hlook hsent rfl rfl rfl
  · cases htx
    exact .idle rfl rfl rfl

theorem applyCtrlPkt_controlled (hwf : sched.WellFormed cfg) {platform : Platform}
    {header : HomaHeader} {msg : HomaOutboundMsg} {busy? : Option Packet}
    (hlook : sched.outboundMsgs.lookup header.txMsgId = some msg)
    (hflag : header.hasFlag .grant = true ∨ header.hasFlag .resend = true)
    (happly : sched.applyCtrlPkt cfg platform msg header = .ok (next, busy?)) :
    ∃ updated,
      Controlled cfg header msg updated ∧
        next.outboundMsgs = sched.outboundMsgs.insert header.txMsgId updated ∧
        next.txMsgIdFreeList = sched.txMsgIdFreeList ∧
        (busy? = none ∨ ∃ nextTxMsgId, busy? = some (updated.generateBusy nextTxMsgId)) := by
  unfold applyCtrlPkt at happly
  split at happly
  next hgrantFlag =>
    obtain ⟨granted, hgrant, hok⟩ := bind_eq_ok.mp happly
    cases hok
    exact ⟨granted, .grant hgrantFlag hgrant, rfl, rfl, Or.inl rfl⟩
  next hgrantFlag =>
    have hresendFlag := hflag.resolve_left hgrantFlag
    rw [if_pos hresendFlag] at happly
    obtain ⟨granted, hgrant, hq⟩ := bind_eq_ok.mp happly
    obtain ⟨queued, hresend, hok⟩ := bind_eq_ok.mp hq
    cases hok
    have hctrl : Controlled cfg header msg queued := .resend hresendFlag hgrant hresend
    obtain ⟨hsame, hwait⟩ := hctrl.sameMsg
    -- the selection that decides about the BUSY packet clears nothing
    let updated := { sched with
      outboundMsgs := sched.outboundMsgs.insert header.txMsgId queued }
    have hupd : ∀ txMsgId msg, updated.outboundMsgs.lookup txMsgId = some msg →
        msg.Sound cfg := fun _ _ =>
      forall_insert hwf.sound ((hwf.sound _ msg hlook).of_same hsame hwait)
    have hclears := getNextMsgId_eq hupd platform.order
    have hmsgs := congrArg HomaSendScheduler.outboundMsgs hclears
    have hfree := congrArg HomaSendScheduler.txMsgIdFreeList hclears
    refine ⟨queued, hctrl, hmsgs, hfree, ?_⟩
    split
    · exact Or.inl rfl
    · exact Or.inr ⟨_, rfl⟩

theorem ctrlPkt_outcome (hwf : sched.WellFormed cfg) {platform : Platform} {busy? : Option Packet}
    (hrecv : sched.ctrlPktRecvdForOutboundMsg cfg platform packet = .ok (next, busy?)) :
    Outcome cfg sched next (sentEvents busy?) (.ctrlPkt packet platform) := by
  unfold ctrlPktRecvdForOutboundMsg at hrecv
  dsimp only at hrecv
  split at hrecv
  · cases hrecv
    exact .idle rfl rfl rfl
  next msg hlook =>
    rw [if_neg (by simp [(hwf.sound _ msg hlook).unexpired])] at hrecv
    split at hrecv
    next hkey =>
      by_cases hflag : packet.homaHeader.hasFlag .grant = true ∨
          packet.homaHeader.hasFlag .resend = true
      · obtain ⟨updated, hctrl, hmsgs, hfree, hbusy⟩ :=
          applyCtrlPkt_controlled hwf hlook hflag hrecv
        refine .controlled hlook hkey hctrl hmsgs hfree ?_
        rcases hbusy with rfl | ⟨nextTxMsgId, rfl⟩
        · exact Or.inl rfl
        · exact Or.inr ⟨nextTxMsgId, rfl⟩
      · obtain ⟨hgrant, hresend⟩ := not_or.mp hflag
        rw [applyCtrlPkt, if_neg hgrant, if_neg hresend] at hrecv
        split at hrecv
        · obtain ⟨acked, _, hok⟩ := bind_eq_ok.mp hrecv
          cases hok
          refine .acked hlook (fun txMsgId => ?_) rfl rfl
          simp only [clearStateForMsg, lookup_erase, lookup_insert]
          split
          · rfl
          · rfl
        · cases hrecv
          exact .idle rfl rfl rfl
    · cases hrecv

variable {input : SendInput}

theorem handle_outcome (hwf : sched.WellFormed cfg) (hhandle :
    sched.handle cfg input = .ok (next, events)) : Outcome cfg sched next events input := by
  cases input with
  | send message saddr daddr sport dport origin => exact send_outcome hhandle
  | ctrlPkt packet platform =>
    obtain ⟨busy, -, hrecv, rfl⟩ := handle_ctrlPkt hhandle
    exact ctrlPkt_outcome hwf hrecv
  | txDataPacket drained order =>
    obtain ⟨packet, -, htx, rfl⟩ := handle_txDataPacket hhandle
    exact txDataPacket_outcome hwf htx

theorem wellFormed_initial (cfg : Config) : initial.WellFormed cfg := by
  refine ⟨?_, ?_, ?_⟩
  · intro txMsgId msg hlook
    cases hlook
  · simpa [initial] using nodup_range
  · intro txMsgId _
    rfl

theorem WellFormed.insert (hwf : sched.WellFormed cfg) {txMsgId : Nat}
    {msg updated : HomaOutboundMsg} (hlook : sched.outboundMsgs.lookup txMsgId = some msg)
    (hsame : msg.SameMsg updated)
    (hwait : updated.waitForFirstGrant = true → msg.waitForFirstGrant = true)
    (hmsgs : next.outboundMsgs = sched.outboundMsgs.insert txMsgId updated)
    (hfree : next.txMsgIdFreeList = sched.txMsgIdFreeList) :
    next.WellFormed cfg where
  sound other stored hstored := by
    rw [hmsgs] at hstored
    exact forall_insert hwf.sound ((hwf.sound _ _ hlook).of_same hsame hwait) hstored
  free_nodup := hfree ▸ hwf.free_nodup
  free_unused other hother := by
    have hunused := hwf.free_unused other (hfree ▸ hother)
    rw [hmsgs, lookup_insert, if_neg, hunused]
    rintro rfl
    rw [hunused] at hlook
    cases hlook

theorem wellFormed_handle (hwf : sched.WellFormed cfg)
    (hhandle : sched.handle cfg input = .ok (next, events)) : next.WellFormed cfg := by
  cases handle_outcome hwf hhandle with
  | idle hmsgs hfree =>
    exact ⟨hmsgs ▸ hwf.sound, hfree ▸ hwf.free_nodup, hmsgs ▸ hfree ▸ hwf.free_unused⟩
  | @accepted _ _ _ _ _ _ msg txMsgId hfree hmade hmsgs =>
    have hnodup := hwf.free_nodup
    rw [hfree, nodup_cons] at hnodup
    refine ⟨fun other stored hstored => ?_, hnodup.2, fun other hother => ?_⟩
    · rw [hmsgs] at hstored
      exact forall_insert hwf.sound hmade.sound hstored
    · have hne : other ≠ txMsgId := fun heq => hnodup.1 (heq ▸ hother)
      rw [hmsgs, lookup_insert, if_neg hne]
      exact hwf.free_unused other (hfree ▸ mem_cons_of_mem _ hother)
  | transmitted hlook hsent hmsgs hfree =>
    obtain ⟨hsame, hwait⟩ := hsent.sameMsg
    exact hwf.insert hlook hsame (fun hwaiting => hwait ▸ hwaiting) hmsgs hfree
  | controlled hlook _ hctrl hmsgs hfree =>
    obtain ⟨hsame, hwait⟩ := hctrl.sameMsg
    exact hwf.insert hlook hsame hwait hmsgs hfree
  | @acked packet _ msg hlook hmsgs hfree =>
    have hlive : packet.homaHeader.txMsgId ∉ sched.txMsgIdFreeList := by
      intro hmem
      rw [hwf.free_unused _ hmem] at hlook
      cases hlook
    refine ⟨fun other stored hstored => ?_, ?_, fun other hother => ?_⟩
    · rw [hmsgs] at hstored
      split at hstored
      · cases hstored
      · exact hwf.sound other stored hstored
    · rw [hfree, nodup_append]
      refine ⟨hwf.free_nodup, nodup_singleton _, fun used hused last hlast => ?_⟩
      rw [mem_singleton.mp hlast]
      exact fun heq => hlive (heq ▸ hused)
    · rw [hmsgs]
      split
      · rfl
      next hne =>
        rw [hfree, mem_append, mem_singleton] at hother
        exact hwf.free_unused other (hother.resolve_right hne)

theorem wellFormed_of_reachable (hreach : (machine cfg).Reachable sched) :
    sched.WellFormed cfg := by
  refine hreach.invariant ?_ ?_
  · exact wellFormed_initial cfg
  · intro state input next hwf _ hstep
    obtain ⟨⟨moved, events⟩, hhandle, hok⟩ := bind_eq_ok.mp hstep
    obtain rfl : moved = next := Except.ok.inj hok
    exact wellFormed_handle hwf hhandle

theorem hasFlag_of_transmitted {txMsgId : Nat}
    {msg sent : HomaOutboundMsg} (hsent : Transmitted cfg txMsgId msg sent packet)
    (flag : Flag) : packet.hasFlag flag = decide (Flag.data = flag) := by
  cases hsent with
  | request => exact HomaHeader.hasFlag_mask rfl flag
  | data => exact HomaHeader.hasFlag_mask rfl flag

theorem begun_of_handle {next : HomaSendScheduler} {events : List Event}
    (hwf : sched.WellFormed cfg) (hhandle : sched.handle cfg input = .ok (next, events))
    {key : MsgKey} {origin msgSizeBytes : Nat} (hmem : .msgBegin key origin msgSizeBytes ∈ events) :
    (∃ message, input = .send message key.saddr key.daddr key.sport key.dport origin ∧
      msgSizeBytes = message.length) ∧ (∃ rest, sched.txMsgIdFreeList = key.txMsgId :: rest) ∧
    events = [.msgBegin key origin msgSizeBytes] := by
  cases handle_outcome hwf hhandle with
  | idle _ _ hevs =>
    subst hevs
    cases hmem
  | @accepted message _ _ _ _ _ msg txMsgId hfree hmade _ hevs =>
    subst hevs
    obtain ⟨rfl, rfl, rfl⟩ : key = _ ∧ origin = _ ∧ msgSizeBytes = _ := by simpa using hmem
    refine ⟨⟨message, ?_, hmade.msgSizeBytes_eq⟩, ⟨next.txMsgIdFreeList, ?_⟩, rfl⟩
    · rw [hmade.key_eq]
    · rw [hmade.key_eq, hfree]
  | transmitted _ _ _ _ hevs =>
    subst hevs
    simp at hmem
  | controlled _ _ _ _ _ hevs =>
    rcases hevs with rfl | ⟨_, rfl⟩
    · cases hmem
    · simp at hmem
  | acked _ _ _ hevs =>
    subst hevs
    cases hmem

end HomaSendScheduler

theorem HomaOutboundMsg.hasFlag_generateBusy (msg : HomaOutboundMsg) (txMsgId : Nat)
    (flag : Flag) : (msg.generateBusy txMsgId).hasFlag flag = decide (Flag.busy = flag) :=
  HomaHeader.hasFlag_mask rfl flag

end HomaSird.Homa
