import HomaSird.Homa.MsgSelection
import HomaSird.Homa.ReceiverStep

/-! # The answer to a RESEND

After a RESEND the sender looks for the message to send next. It answers with a BUSY
when that is another message, and with whatever an uninitialised variable makes of it
when there is none.
-/

namespace HomaSird.Homa

open Transition Transition.Machine

namespace HomaOutboundMsg

variable {cfg : Config} {msg : HomaOutboundMsg}

theorem remainingEstimate_eq_iff (hmtu : cfg.mtu ≤ 9000)
    (hsized : msg.Sized cfg) {grantOffset : Nat} (hlt : grantOffset < msg.getMsgSizePkts) :
    msg.remainingEstimate cfg grantOffset = 2 ^ 32 - 1 ↔ cfg.rttPackets = 0 ∧ grantOffset +
    1 = msg.getMsgSizePkts ∧ msg.msgSizeBytes + 1 = msg.getMsgSizePkts * cfg.maxPayloadSize := by
  have hroom := hsized.room hmtu
  rw [remainingEstimate, hsized.maxPayloadSize_eq, uint32OfInt]
  rcases Nat.eq_zero_or_pos cfg.rttPackets with hzero | hpos
  · have hbelow := numPackets_mul_lt cfg msg.msgSizeBytes
    have hmax := cfg.maxPayloadSize_lt
    rw [← hsized.getMsgSizePkts_eq] at hbelow
    rw [hzero] at hroom ⊢
    have hgrant : ((grantOffset : Int) + 1 - (0 : Nat)) * cfg.maxPayloadSize =
        ((grantOffset + 1) * cfg.maxPayloadSize : Nat) := by
      push_cast
      rw [Int.sub_zero]
    rw [hgrant]
    by_cases hlast : grantOffset + 1 = msg.getMsgSizePkts
    · rw [hlast]
      omega
    · -- an offset before the last one leaves at least one byte
      have hearly : (grantOffset + 1) * cfg.maxPayloadSize ≤
          (msg.getMsgSizePkts - 1) * cfg.maxPayloadSize :=
        Nat.mul_le_mul_right _ (by omega)
      rw [Nat.sub_one_mul] at hearly
      omega
  · have hestimate := @estimate_bounds cfg msg hpos hsized grantOffset hlt
    omega

end HomaOutboundMsg

namespace HomaSendScheduler

open HomaOutboundMsg

variable {cfg : Config} {sched next : HomaSendScheduler} {events : List Event}
  {msg : HomaOutboundMsg} {header : HomaHeader} {packet busy : Packet}

/-! ## The call inside the handler -/

/-- What `GetNextMsgId` returns in `CtrlPktRecvdForOutboundMsg` after a RESEND. -/
def resendSelection (cfg : Config) (sched : HomaSendScheduler) (order : List Nat)
    (msg : HomaOutboundMsg) (header : HomaHeader) : Except Fault (Option Nat) := do
  let granted ← msg.handleGrantOffset cfg header
  let queued ← granted.handleResend header
  let updated := { sched with outboundMsgs := sched.outboundMsgs.insert header.txMsgId queued }
  .ok (updated.getNextMsgId order).2

variable {platform : Platform}

theorem applyCtrlPkt_resend {busy? : Option Packet} (hgrant : header.hasFlag .grant = false)
    (hresend : header.hasFlag .resend = true)
    (happly : sched.applyCtrlPkt cfg platform msg header = .ok (next, busy?)) :
    ∃ queued selected,
      Controlled cfg header msg queued ∧
        sched.resendSelection cfg platform.order msg header = .ok selected ∧
        busy? =
          if selected.getD platform.uninitialised = header.txMsgId then none
          else some (queued.generateBusy (selected.getD platform.uninitialised)) := by
  rw [applyCtrlPkt, if_neg (by simp [hgrant]), if_pos hresend] at happly
  obtain ⟨granted, hgranted, hq⟩ := bind_eq_ok.mp happly
  obtain ⟨queued, hqueued, hok⟩ := bind_eq_ok.mp hq
  obtain ⟨-, rfl⟩ := Prod.mk.inj (Except.ok.inj hok)
  refine ⟨queued, _, .resend hresend hgranted hqueued, ?_, rfl⟩
  exact bind_eq_ok.mpr ⟨_, hgranted, bind_eq_ok.mpr ⟨_, hqueued, rfl⟩⟩

/-! ## A BUSY names another message -/

structure AnswersFor (sched : HomaSendScheduler) (resend busy : Packet) : Prop where
  key_eq : busy.key = resend.ctrlKey
  msgSizeBytes_eq : ∀ msg, sched.outboundMsgs.lookup resend.homaHeader.txMsgId = some msg →
    busy.homaHeader.msgSizeBytes = msg.msgSizeBytes

theorem busy_of_ctrlPkt (hwf : sched.WellFormed cfg)
    (hrecv : sched.ctrlPktRecvdForOutboundMsg cfg platform packet = .ok (next, some busy)) :
    ∃ msg nextTxMsgId, sched.outboundMsgs.lookup packet.homaHeader.txMsgId = some msg ∧
    nextTxMsgId ≠ packet.homaHeader.txMsgId ∧
    busy.key = { packet.ctrlKey with txMsgId := nextTxMsgId } ∧
      busy.homaHeader.msgSizeBytes = msg.msgSizeBytes := by
  unfold ctrlPktRecvdForOutboundMsg at hrecv
  dsimp only at hrecv
  split at hrecv
  · cases (Prod.mk.inj (Except.ok.inj hrecv)).2
  next msg hlook =>
    rw [if_neg (by simp [(hwf.sound _ msg hlook).unexpired])] at hrecv
    split at hrecv
    next hkey =>
      by_cases hgrant : packet.homaHeader.hasFlag .grant = true
      · rw [applyCtrlPkt, if_pos hgrant] at hrecv
        obtain ⟨granted, -, hok⟩ := bind_eq_ok.mp hrecv
        cases (Prod.mk.inj (Except.ok.inj hok)).2
      · by_cases hresend : packet.homaHeader.hasFlag .resend = true
        · obtain ⟨queued, selected, hctrl, -, hbusy⟩ :=
            applyCtrlPkt_resend (by simpa using hgrant) hresend hrecv
          split at hbusy
          · cases hbusy
          next hne =>
            cases hbusy
            have hsame := hctrl.sameMsg.1
            refine ⟨msg, _, hlook, hne, ?_, hsame.msgSizeBytes_eq⟩
            rw [← hkey, ← hsame.key_eq]
            rfl
        · rw [applyCtrlPkt, if_neg hgrant, if_neg hresend] at hrecv
          split at hrecv
          · obtain ⟨acked, -, hok⟩ := bind_eq_ok.mp hrecv
            cases (Prod.mk.inj (Except.ok.inj hok)).2
          · cases (Prod.mk.inj (Except.ok.inj hrecv)).2
    · cases hrecv

theorem busy_of_handle (hreach : (machine cfg).Reachable sched)
    (hhandle : sched.handle cfg (.ctrlPkt packet platform) = .ok (next, events))
    (hbusy : .sendDown busy ∈ events) :
    ∃ msg nextTxMsgId,
      sched.outboundMsgs.lookup packet.homaHeader.txMsgId = some msg ∧
        nextTxMsgId ≠ packet.homaHeader.txMsgId ∧
        busy.key = { packet.ctrlKey with txMsgId := nextTxMsgId } ∧
        busy.homaHeader.msgSizeBytes = msg.msgSizeBytes := by
  obtain ⟨busy?, -, hrecv, rfl⟩ := handle_ctrlPkt hhandle
  cases busy? with
  | none => cases hbusy
  | some answer =>
    obtain rfl : busy = answer := by simpa [sentEvents] using hbusy
    exact busy_of_ctrlPkt (wellFormed_of_reachable hreach) hrecv

/-- No BUSY answers for the message of the RESEND: its 4-tuple and size are right, the id is always
another message's. -/
theorem not_answersFor (hreachable : (machine cfg).Reachable sched) {platform : Platform}
    (hhandle : sched.handle cfg (.ctrlPkt packet platform) = .ok (next, events))
    (hbusy : .sendDown busy ∈ events) :
    ¬ sched.AnswersFor packet busy ∧
      { busy.key with txMsgId := packet.homaHeader.txMsgId } = packet.ctrlKey ∧
      ∃ msg, sched.outboundMsgs.lookup packet.homaHeader.txMsgId = some msg ∧
        busy.homaHeader.msgSizeBytes = msg.msgSizeBytes := by
  obtain ⟨msg, nextTxMsgId, hlook, hne, hkey, hsz⟩ := busy_of_handle hreachable hhandle hbusy
  refine ⟨?_, ?_, msg, hlook, hsz⟩
  · intro hanswers
    rw [hanswers.key_eq] at hkey
    exact hne (congrArg MsgKey.txMsgId hkey).symm
  · rw [hkey]
    rfl

def twoMessages : HomaSendScheduler :=
  (machine Config.oneByte).after (fun _ _ => true)
    [.send [7] 1 2 5 6 0, .send [7, 8] 1 2 5 6 1] initial

def sampleResend (txMsgId grantOffset : Nat) : Packet where
  ipv4Header := { source := 2, destination := 1, ecn := .notECT }
  homaHeader := {
    srcPort := 6
    dstPort := 5
    txMsgId
    flags := Flag.resend.mask
    grantOffset }
  payload := []
  origin := 0

theorem reachable_twoMessages : (machine Config.oneByte).Reachable twoMessages :=
  ReachableUnder.after (fun _ _ _ => trivial) _ .init

def sentIds (outcome : Except Fault (HomaSendScheduler × List Event)) :
    Option (List (Option Nat)) :=
  outcome.toOption.map fun handled => handled.2.map fun
    | .sendDown packet => some packet.homaHeader.txMsgId
    | _ => none

variable {txMsgId : Nat}

theorem exists_of_sentIds {outcome : Except Fault (HomaSendScheduler × List Event)}
    (hids : sentIds outcome = some [some txMsgId]) :
    ∃ next busy, outcome = .ok (next, [.sendDown busy]) ∧ busy.homaHeader.txMsgId = txMsgId := by
  cases outcome with
  | error => cases hids
  | ok handled =>
    obtain ⟨next, events⟩ := handled
    have hevs := Option.some.inj hids
    obtain ⟨event, rfl, hev⟩ := List.map_eq_singleton_iff.mp hevs
    cases event with
    | sendDown busy => exact ⟨next, busy, rfl, Option.some.inj hev⟩
    | _ => cases hev

theorem handle_twoMessages :
    ∃ next busy,
      twoMessages.handle Config.oneByte (.ctrlPkt (sampleResend 1 1) ⟨[1, 0], 0⟩) =
        .ok (next, [.sendDown busy]) ∧
        busy.homaHeader.txMsgId = 0 :=
  exists_of_sentIds (by decide +kernel)

theorem not_answersFor_longer :
    ∃ next busy,
      twoMessages.handle Config.oneByte (.ctrlPkt (sampleResend 1 1) ⟨[1, 0], 0⟩) =
        .ok (next, [.sendDown busy]) ∧
        ¬ twoMessages.AnswersFor (sampleResend 1 1) busy := by
  obtain ⟨next, busy, hhandle, -⟩ := handle_twoMessages
  have hbusy : Event.sendDown busy ∈ [Event.sendDown busy] := List.mem_singleton_self _
  exact ⟨next, busy, hhandle, (not_answersFor reachable_twoMessages hhandle hbusy).1⟩

theorem busy_for_longer_names_shorter :
    (machine Config.oneByte).Reachable twoMessages ∧
      ∃ next busy,
        twoMessages.handle Config.oneByte (.ctrlPkt (sampleResend 1 1) ⟨[1, 0], 0⟩) =
          .ok (next, [.sendDown busy]) ∧
          busy.homaHeader.txMsgId = 0 ∧ ¬ twoMessages.AnswersFor (sampleResend 1 1) busy := by
  obtain ⟨next, busy, hhandle, hid⟩ := handle_twoMessages
  refine ⟨reachable_twoMessages, next, busy, hhandle, hid, fun hanswers => ?_⟩
  have hsame := congrArg MsgKey.txMsgId hanswers.key_eq
  exact absurd (hid.symm.trans hsame) (by decide)

/-! ## The selection after a RESEND -/

/-- The estimate that a RESEND leaves to its message is the bound of the scan. -/
def Unseen (cfg : Config) (msg : HomaOutboundMsg) (grantOffset : Nat) : Prop :=
  if msg.maxGrantedIdx < grantOffset then
    cfg.rttPackets = 0 ∧ grantOffset + 1 = msg.getMsgSizePkts ∧
      msg.msgSizeBytes + 1 = msg.getMsgSizePkts * cfg.maxPayloadSize
  else msg.remainingBytes = 2 ^ 32 - 1

theorem resent_of_handleResend (hmtu : cfg.mtu ≤ 9000) {history : List MsgEvent}
    {granted queued : HomaOutboundMsg} (hran : Ran cfg txMsgId history msg)
    (hresend : header.hasFlag .resend = true) (hwithin : header.pktOffset < header.grantOffset)
    (hgrant : msg.handleGrantOffset cfg header = .ok granted)
    (hqueued : granted.handleResend header = .ok queued) :
    queued.Eligible ∧ (queued.remainingBytes = 2 ^ 32 - 1 ↔ Unseen cfg msg header.grantOffset) := by
  have hctrl : Controlled cfg header msg queued := .resend hresend hgrant hqueued
  have hnext : Ran cfg txMsgId (history ++ [.received header]) queued := .received hran hctrl
  have hlt := hctrl.grantOffset_lt
  constructor
  · refine ⟨hnext.unexpired, .inr ⟨?_, header.pktOffset, ?_, ?_, ?_⟩⟩
    · -- the RESEND counts as the first GRANT if that has not arrived
      rw [hnext.waitForFirstGrant_eq]
      simp [MsgEvent.isSent]
    · rw [(handleResend_eq_ok hqueued).2.1, MinQueue.count_push]
      simp
    · rw [hctrl.raised.maxGrantedIdx_eq]
      exact hwithin.le.trans (le_max_right _ _)
    · rw [hctrl.sameMsg.1.getMsgSizePkts_eq]
      exact hwithin.trans hlt
  · rw [hctrl.remainingBytes, Unseen]
    split
    · exact remainingEstimate_eq_iff hmtu hran.sized hlt
    · rfl

/-- The handler runs, `GetNextMsgId` returns true in it, and the uninitialised variable does not
matter. -/
structure ReadsSelection (cfg : Config) (sched : HomaSendScheduler) (order : List Nat)
    (msg : HomaOutboundMsg) (resend : Packet) : Prop where
  selects : ∃ txMsgId, sched.resendSelection cfg order msg resend.homaHeader =
    .ok (some txMsgId)
  determined : ∃ outcome, ∀ uninitialised,
    sched.ctrlPktRecvdForOutboundMsg cfg ⟨order, uninitialised⟩ resend = .ok outcome

theorem readsSelection_of_selects {order : List Nat}
    (hlook : sched.outboundMsgs.lookup packet.homaHeader.txMsgId = some msg) (hlive :
    msg.isExpired = false) (hkey : msg.key packet.homaHeader.txMsgId = packet.ctrlKey) (hgrant :
    packet.homaHeader.hasFlag .grant = false) (hresend : packet.homaHeader.hasFlag .resend = true)
    (hselects : sched.resendSelection cfg order msg packet.homaHeader = .ok (some txMsgId)) :
    sched.ReadsSelection cfg order msg packet := by
  refine ⟨⟨txMsgId, hselects⟩, ?_⟩
  obtain ⟨granted, hgranted, hq⟩ := bind_eq_ok.mp hselects
  obtain ⟨queued, hqueued, hok⟩ := bind_eq_ok.mp hq
  let updated := { sched with
    outboundMsgs := sched.outboundMsgs.insert packet.homaHeader.txMsgId queued }
  have hsel : (updated.getNextMsgId order).2 = some txMsgId := Except.ok.inj hok
  refine ⟨({ (updated.getNextMsgId order).1 with txEventPending := true },
    if txMsgId = packet.homaHeader.txMsgId then none else some (queued.generateBusy txMsgId)),
    fun uninitialised => ?_⟩
  rw [ctrlPktRecvdForOutboundMsg]
  dsimp only
  rw [hlook]
  dsimp only
  rw [if_neg (by simp [hlive]), if_pos hkey, applyCtrlPkt, if_neg (by simp [hgrant]),
    if_pos hresend]
  refine bind_eq_ok.mpr ⟨_, hgranted, bind_eq_ok.mpr ⟨_, hqueued, ?_⟩⟩
  dsimp only
  rw [show (HomaSendScheduler.getNextMsgId _ order).2 = some txMsgId from hsel]
  rfl

theorem mem_generateResends {inbound : HomaInboundMsg} {maxRsndPktOffset : Nat}
    (hmem : packet ∈ inbound.generateResends maxRsndPktOffset) :
    ∃ pktOffset < inbound.maxGrantedIdx,
      packet = inbound.ctrlPacket .resend pktOffset inbound.maxGrantedIdx inbound.prio := by
  unfold HomaInboundMsg.generateResends at hmem
  split at hmem
  · obtain ⟨pktOffset, hoff, rfl⟩ := List.mem_map.mp hmem
    have hrng := List.mem_range.mp (List.mem_filter.mp hoff).1
    exact ⟨pktOffset, by omega, rfl⟩
  · cases hmem

theorem resendSelection_isSome_iff (hmtu : cfg.mtu ≤ 9000) (hreach : (machine cfg).Reachable sched)
    {order : List Nat} (horder : sched.isTraversal order = true)
    (hlook : sched.outboundMsgs.lookup header.txMsgId = some msg)
    (hresend : header.hasFlag .resend = true) (hwithin : header.pktOffset < header.grantOffset)
    (hlt : header.grantOffset < msg.getMsgSizePkts) :
    (∃ txMsgId, sched.resendSelection cfg order msg header = .ok (some txMsgId)) ↔
      ¬ (Unseen cfg msg header.grantOffset ∧
          ∀ otherId other,
            otherId ≠ header.txMsgId → sched.outboundMsgs.lookup otherId = some other →
              other.Eligible → other.remainingBytes = 2 ^ 32 - 1) := by
  obtain ⟨history, hran⟩ := ran_of_reachable hreach hlook
  obtain ⟨granted, hgrant⟩ : ∃ granted, msg.handleGrantOffset cfg header = .ok granted := by
    rw [handleGrantOffset, if_pos hlt]
    exact ⟨_, rfl⟩
  obtain ⟨queued, hqueued⟩ : ∃ queued, granted.handleResend header = .ok queued := by
    have hcnt := (handleGrantOffset_eq_ok hgrant).1.getMsgSizePkts_eq
    dsimp only [handleResend]
    rw [if_pos (hcnt ▸ hlt)]
    exact ⟨_, rfl⟩
  obtain ⟨helig, hunseen⟩ := resent_of_handleResend hmtu hran hresend hwithin hgrant hqueued
  have hword := (hran.received (.resend hresend hgrant hqueued)).remainingBytes_lt
  let updated := { sched with outboundMsgs := sched.outboundMsgs.insert header.txMsgId queued }
  have hselection : sched.resendSelection cfg order msg header =
      .ok (updated.getNextMsgId order).2 :=
    bind_eq_ok.mpr ⟨_, hgrant, bind_eq_ok.mpr ⟨_, hqueued, rfl⟩⟩
  -- the messages of the scan: the one that has just changed, and the others
  have hstored : ∀ txMsgId stored, updated.outboundMsgs.lookup txMsgId = some stored ↔
      (txMsgId = header.txMsgId ∧ stored = queued) ∨
        (txMsgId ≠ header.txMsgId ∧ sched.outboundMsgs.lookup txMsgId = some stored) := by
    intro txMsgId stored
    rw [UnorderedMap.lookup_insert]
    by_cases hsame : txMsgId = header.txMsgId
    · simp [hsame, eq_comm]
    · simp [hsame]
  have hcov : ∀ txMsgId stored, updated.outboundMsgs.lookup txMsgId = some stored →
      txMsgId ∈ order := by
    intro txMsgId stored hlater
    rcases (hstored txMsgId stored).mp hlater with ⟨rfl, -⟩ | ⟨-, hpre⟩
    · exact mem_of_isTraversal horder hlook
    · exact mem_of_isTraversal horder hpre
  have hwords : ∀ txMsgId stored, updated.outboundMsgs.lookup txMsgId = some stored →
      stored.remainingBytes < 2 ^ 32 := by
    intro txMsgId stored hlater
    rcases (hstored txMsgId stored).mp hlater with ⟨-, rfl⟩ | ⟨-, hpre⟩
    · exact hword
    · obtain ⟨_, hother⟩ := ran_of_reachable hreach hpre
      exact hother.remainingBytes_lt
  have hscan := getNextMsgId_isSome_iff hcov hwords
  rw [hselection]
  constructor
  · rintro ⟨txMsgId, hsel⟩ ⟨hblind, hothers⟩
    obtain ⟨found, stored, hfound, hsendable, hne⟩ := hscan.mp (by rw [Except.ok.inj hsel]; rfl)
    rcases (hstored found stored).mp hfound with ⟨-, rfl⟩ | ⟨hother, hpre⟩
    · exact hne (hunseen.mpr hblind)
    · exact hne (hothers found stored hother hpre hsendable)
  · intro hseen
    have hsome : (updated.getNextMsgId order).2.isSome = true := by
      rw [hscan]
      by_cases hblind : Unseen cfg msg header.grantOffset
      · obtain ⟨otherId, hother⟩ := not_forall.mp fun hothers => hseen ⟨hblind, hothers⟩
        push Not at hother
        obtain ⟨other, hne, hpre, hsendable, hbd⟩ := hother
        exact ⟨otherId, other, (hstored _ _).mpr (.inr ⟨hne, hpre⟩), hsendable, hbd⟩
      · exact ⟨_, queued, (hstored _ _).mpr (.inl ⟨rfl, rfl⟩), helig, mt hunseen.mp hblind⟩
    obtain ⟨txMsgId, hsel⟩ := Option.isSome_iff_exists.mp hsome
    exact ⟨txMsgId, congrArg Except.ok hsel⟩

/-- For a RESEND that a reachable receiver generates for a stored message, `GetNextMsgId` returns
true in the handler exactly when some estimate it may select is not the bound of the scan, as
always for a positive BDP. -/
theorem readsSelection_iff {peer : Config} (hmtu : cfg.mtu ≤ 9000) (hlink : peer.mtu = cfg.mtu)
    (hreachable : (machine cfg).Reachable sched) {order : List Nat}
    (horder : sched.isTraversal order = true) {receiver : Receiver}
    (hreceiver : (Receiver.machine peer).Reachable receiver) {inbound : HomaInboundMsg}
    (hpending : inbound ∈ receiver.sched.inboundMsgs) {maxRsndPktOffset : Nat} {resend : Packet}
    (hresend : resend ∈ inbound.generateResends maxRsndPktOffset)
    (hlook : sched.outboundMsgs.lookup inbound.txMsgId = some msg)
    (hkey : msg.key inbound.txMsgId = inbound.key) (hsz : msg.msgSizeBytes = inbound.msgSizeBytes) :
    (sched.ReadsSelection cfg order msg resend ↔
      ¬ (Unseen cfg msg resend.homaHeader.grantOffset ∧
          ∀ otherId other,
            otherId ≠ inbound.txMsgId → sched.outboundMsgs.lookup otherId = some other →
              other.Eligible → other.remainingBytes = 2 ^ 32 - 1)) ∧
      (1 ≤ cfg.rttPackets → sched.ReadsSelection cfg order msg resend) := by
  obtain ⟨history, hran⟩ := ran_of_reachable hreachable hlook
  obtain ⟨pktOffset, hwithin, rfl⟩ := mem_generateResends hresend
  have hsound := (Receiver.wellFormed_of_reachable hreceiver).sound inbound hpending
  have hpayload : peer.maxPayloadSize = cfg.maxPayloadSize := by
    rw [Config.maxPayloadSize, hlink, Config.maxPayloadSize]
  have hcnt : inbound.msgSizePkts = msg.getMsgSizePkts := by
    rw [hsound.size_eq, hpayload, getMsgSizePkts, hsz, hran.sized.maxPayloadSize_eq]
  have hflag := inbound.hasFlag_ctrlPacket .resend pktOffset inbound.maxGrantedIdx inbound.prio
  have hscan := @resendSelection_isSome_iff cfg sched msg
    (inbound.ctrlPacket .resend pktOffset inbound.maxGrantedIdx inbound.prio).homaHeader hmtu
    hreachable order horder hlook (hflag .resend) hwithin (hcnt ▸ hsound.granted_lt)
  have hread : (sched.ReadsSelection cfg order msg
      (inbound.ctrlPacket .resend pktOffset inbound.maxGrantedIdx inbound.prio)) ↔ _ :=
    ⟨fun hreads => hscan.mp hreads.selects, fun hseen => by
      obtain ⟨txMsgId, hselects⟩ := hscan.mpr hseen
      exact readsSelection_of_selects hlook hran.unexpired hkey (hflag .grant) (hflag .resend)
        hselects⟩
  refine ⟨hread, fun hrtt => hread.mpr ?_⟩
  rintro ⟨hblind, -⟩
  have hle := hran.remainingBytes_le hrtt
  have hroom := hran.sized.room hmtu
  unfold Unseen at hblind
  split at hblind
  · omega
  · omega

def shortMessage : Packet :=
  { samplePacket 1 0 [7] with
    homaHeader := { (samplePacket 1 0 [7]).homaHeader with txMsgId := 1 } }

/-- Two packets of a long message are granted, none of which has arrived; the payload of a short
one gives the first credit back. -/
def twoGranted (cfg : Config) (msgSizeBytes : Nat) : Receiver :=
  (Receiver.machine cfg).after (fun _ _ => true)
    [.packet (samplePacket msgSizeBytes 0 []), .creditTick, .packet shortMessage, .creditTick]
    (Receiver.machine cfg).init

theorem reachable_twoGranted (cfg : Config)
    (msgSizeBytes : Nat) : (Receiver.machine cfg).Reachable (twoGranted cfg msgSizeBytes) :=
  ReachableUnder.after (fun _ _ _ => trivial) _ .init

/-- The RESEND that `twoGranted` generates for the first packet. -/
def firstMissing (msgSizeBytes : Nat) : Packet where
  ipv4Header := { source := 2, destination := 1, ecn := .notECT }
  homaHeader := {
    srcPort := 6
    dstPort := 5
    flags := Flag.resend.mask
    prio := 2
    msgSizeBytes
    grantOffset := 1 }
  payload := []
  origin := 0

/-- `twoGranted` has one message pending, and it asks for its first packet. -/
def asksForFirst (cfg : Config) (msgSizeBytes : Nat) : Bool :=
  (twoGranted cfg msgSizeBytes).sched.inboundMsgs.any fun inbound =>
    decide (inbound.key = ⟨1, 2, 5, 6, 0⟩) && decide (inbound.msgSizeBytes = msgSizeBytes) &&
      decide (firstMissing msgSizeBytes ∈ inbound.generateResends 2)

theorem exists_inbound {msgSizeBytes : Nat} (hasks : asksForFirst cfg msgSizeBytes = true) :
    ∃ inbound ∈ (twoGranted cfg msgSizeBytes).sched.inboundMsgs, inbound.key = ⟨1, 2, 5, 6, 0⟩ ∧
    inbound.msgSizeBytes = msgSizeBytes ∧
    firstMissing msgSizeBytes ∈ inbound.generateResends 2 := by
  obtain ⟨inbound, hmem, hin⟩ := List.any_eq_true.mp hasks
  simp only [Bool.and_eq_true, decide_eq_true_eq] at hin
  exact ⟨inbound, hmem, hin.1.1, hin.1.2, hin.2⟩

def sentOnly (cfg : Config) (message : Payload) : HomaSendScheduler :=
  (machine cfg).after (fun _ _ => true) [.send message 1 2 5 6 0] initial

theorem readsSelection_overtaking :
    ∃ msg,
      (sentOnly Config.oneByteSird [7, 8]).outboundMsgs.lookup 0 = some msg ∧
        (sentOnly Config.oneByteSird [7, 8]).ReadsSelection Config.oneByteSird [0] msg
          (firstMissing 2) := by
  obtain ⟨inbound, hpending, hkey, hsz, hresend⟩ :=
    @exists_inbound Config.oneByteSird 2 (by decide +kernel)
  have hid : inbound.txMsgId = 0 := congrArg MsgKey.txMsgId hkey
  have hstored : ((sentOnly Config.oneByteSird [7, 8]).outboundMsgs.lookup 0).any (fun msg =>
      decide (msg.key 0 = ⟨1, 2, 5, 6, 0⟩) && decide (msg.msgSizeBytes = 2)) = true := by
    decide +kernel
  obtain ⟨msg, hlook, hmsg⟩ := (Option.any_eq_true _ _).mp hstored
  simp only [Bool.and_eq_true, decide_eq_true_eq] at hmsg
  refine ⟨msg, hlook, (readsSelection_iff (by decide) rfl ?_ (by decide +kernel)
    (reachable_twoGranted _ _) hpending hresend ?_ ?_ ?_).2 (by decide)⟩
  · exact ReachableUnder.after (fun _ _ _ => trivial) _ .init
  · rw [hid]
    exact hlook
  · rw [hid, hkey]
    exact hmsg.1
  · exact hmsg.2.trans hsz.symm

/-- With a BDP of zero the RESEND leaves the largest word as the estimate, and the uninitialised
variable decides about the BUSY. -/
theorem reads_uninitialised :
    (machine zeroBdp).Reachable (sentOnly zeroBdp [7, 8, 9]) ∧
      (Receiver.machine zeroBdp).Reachable (twoGranted zeroBdp 3) ∧
      ∃ inbound ∈ (twoGranted zeroBdp 3).sched.inboundMsgs,
        firstMissing 3 ∈ inbound.generateResends 2 ∧ inbound.key = ⟨1, 2, 5, 6, 0⟩ ∧
          inbound.msgSizeBytes = 3 ∧
          ∃ msg,
            (sentOnly zeroBdp [7, 8, 9]).outboundMsgs.lookup 0 = some msg ∧
              msg.key 0 = ⟨1, 2, 5, 6, 0⟩ ∧ msg.msgSizeBytes = 3 ∧
              (sentOnly zeroBdp [7, 8, 9]).resendSelection zeroBdp [0] msg
                (firstMissing 3).homaHeader = .ok none ∧
              ¬ (sentOnly zeroBdp [7, 8, 9]).ReadsSelection zeroBdp [0] msg (firstMissing 3) := by
  obtain ⟨inbound, hpending, hkey, hsz, hresend⟩ := @exists_inbound zeroBdp 3 (by decide +kernel)
  have hstored : ((sentOnly zeroBdp [7, 8, 9]).outboundMsgs.lookup 0).any (fun msg =>
      decide (msg.key 0 = ⟨1, 2, 5, 6, 0⟩) && decide (msg.msgSizeBytes = 3) &&
        decide (((sentOnly zeroBdp [7, 8, 9]).resendSelection zeroBdp [0] msg
          (firstMissing 3).homaHeader).toOption = some none)) = true := by
    decide +kernel
  obtain ⟨msg, hlook, hmsg⟩ := (Option.any_eq_true _ _).mp hstored
  simp only [Bool.and_eq_true, decide_eq_true_eq] at hmsg
  have hnone : (sentOnly zeroBdp [7, 8, 9]).resendSelection zeroBdp [0] msg
      (firstMissing 3).homaHeader = .ok none := by
    revert hmsg
    generalize (sentOnly zeroBdp [7, 8, 9]).resendSelection zeroBdp [0] msg _ = outcome
    rintro ⟨-, houtcome⟩
    cases outcome with
    | error => cases houtcome
    | ok selected => exact congrArg Except.ok (Option.some.inj houtcome)
  refine ⟨ReachableUnder.after (fun _ _ _ => trivial) _ .init, reachable_twoGranted _ _, inbound,
    hpending, hresend, hkey, hsz, msg, hlook, hmsg.1.1, hmsg.1.2, hnone, ?_⟩
  rintro ⟨⟨txMsgId, hselects⟩, -⟩
  rw [hnone] at hselects
  cases hselects

end HomaSendScheduler

end HomaSird.Homa
