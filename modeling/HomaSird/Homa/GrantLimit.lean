import HomaSird.Homa.MsgHistory

/-! # No transmission beyond the grants

A sender with a recorder that keeps, for every stored message, what has happened
to it since it was accepted.
-/

namespace HomaSird.Homa

open Transition Transition.Machine HomaOutboundMsg HomaSendScheduler

structure RecordedSender where
  sched : HomaSendScheduler
  history : Nat → List MsgEvent

namespace RecordedSender

def initial : RecordedSender where
  sched := .initial
  history := fun _ => []

def note (history : Nat → List MsgEvent) : HomaSendScheduler.SendInput → List Event →
    Nat → List MsgEvent
  | .send .., [.msgBegin key _ _] => Function.update history key.txMsgId []
  | .txDataPacket .., [.sendDown packet] =>
    Function.update history packet.homaHeader.txMsgId
      (history packet.homaHeader.txMsgId ++ [.sent packet])
  | .ctrlPkt packet _, _ =>
    if packet.hasFlag .grant || packet.hasFlag .resend then
      Function.update history packet.homaHeader.txMsgId
        (history packet.homaHeader.txMsgId ++ [.received packet.homaHeader])
    else history
  | _, _ => history

/-- A sender that gets arbitrary control packets and runs its events in any order, with its
recorder. -/
def machine (cfg : Config) : Transition.Machine RecordedSender SendInput Fault where
  init := initial
  step recorded input := do
    let (sched, events) ← recorded.sched.handle cfg input
    .ok { sched, history := note recorded.history input events }

variable {cfg : Config} {recorded : RecordedSender}

theorem step_eq_ok {next : RecordedSender} {input : SendInput}
    (hstep : (machine cfg).step recorded input = .ok next) :
    ∃ events,
      recorded.sched.handle cfg input = .ok (next.sched, events) ∧
        next.history = note recorded.history input events := by
  obtain ⟨⟨sched, events⟩, hhandle, hok⟩ := bind_eq_ok.mp hstep
  cases hok
  exact ⟨events, hhandle, rfl⟩

theorem wellFormed_of_reachable (hreach : (machine cfg).Reachable recorded) :
    recorded.sched.WellFormed cfg := by
  induction hreach with
  | init => exact wellFormed_initial cfg
  | step _ _ hstep ih =>
    obtain ⟨events, hhandle, -⟩ := step_eq_ok hstep
    exact wellFormed_handle ih hhandle

/-! ## What one event does to a message and its history -/

inductive Advanced (cfg : Config) (sched : HomaSendScheduler) (history : List MsgEvent)
    (txMsgId : Nat) : SendInput → HomaOutboundMsg → List MsgEvent → Prop where
  | kept {input : SendInput} {msg : HomaOutboundMsg}
      (hlook : sched.outboundMsgs.lookup txMsgId = some msg) :
      Advanced cfg sched history txMsgId input msg history
  | created {message : Payload} {saddr daddr : Ipv4Address} {sport dport origin : Nat}
      {msg : HomaOutboundMsg} (hunused : sched.outboundMsgs.lookup txMsgId = none)
      (hcreate : create cfg message saddr daddr sport dport origin = .ok msg) :
      Advanced cfg sched history txMsgId (.send message saddr daddr sport dport origin) msg []
  | transmitted {order : List Nat} {prior msg : HomaOutboundMsg} {packet : Packet}
      (hselect : (sched.getNextMsgId order).2 = some txMsgId)
      (hlook : sched.outboundMsgs.lookup txMsgId = some prior)
      (htransmitted : Transmitted cfg txMsgId prior msg packet)
      (hpayload : packet.payload = if prior.needsInitialCreditRequest then []
        else prior.fragment cfg packet.homaHeader.pktOffset) :
      Advanced cfg sched history txMsgId (.txDataPacket true order) msg
        (history ++ [.sent packet])
  | controlled {packet : Packet} {platform : Platform} {prior msg : HomaOutboundMsg}
      (hid : packet.homaHeader.txMsgId = txMsgId)
      (hlook : sched.outboundMsgs.lookup txMsgId = some prior)
      (hcontrolled : Controlled cfg packet.homaHeader prior msg) :
      Advanced cfg sched history txMsgId (.ctrlPkt packet platform) msg
        (history ++ [.received packet.homaHeader])

section Advanced

variable {sched next : HomaSendScheduler} {events : List Event} {txMsgId : Nat}
  {msg : HomaOutboundMsg}

theorem advanced_send (hwf : sched.WellFormed cfg) {message : Payload} {saddr daddr : Ipv4Address}
    {sport dport origin : Nat}
    (hsend : sched.send cfg message saddr daddr sport dport origin = .ok (next, events))
    (hstored : next.outboundMsgs.lookup txMsgId = some msg) (history : Nat → List MsgEvent) :
    Advanced cfg sched (history txMsgId) txMsgId (.send message saddr daddr sport dport origin) msg
      (note history (.send message saddr daddr sport dport origin) events txMsgId) := by
  obtain ⟨outMsg, hcreate, hsched⟩ := bind_eq_ok.mp hsend
  cases hfree : sched.txMsgIdFreeList with
  | nil =>
    simp only [scheduleNewMsg, hfree] at hsched
    cases hsched
    exact .kept hstored
  | cons first rest =>
    simp only [scheduleNewMsg, hfree] at hsched
    cases hsched
    rw [UnorderedMap.lookup_insert] at hstored
    change Advanced cfg sched (history txMsgId) txMsgId _ msg
      (Function.update history first [] txMsgId)
    split at hstored
    next heq =>
      cases hstored
      subst heq
      rw [Function.update_self]
      exact .created (hwf.free_unused _ (hfree ▸ List.mem_cons_self)) hcreate
    next hne =>
      rw [Function.update_of_ne hne]
      exact .kept hstored

theorem payload_of_getNextPktOfMsg {packet : Packet}
    (hlook : sched.outboundMsgs.lookup txMsgId = some msg)
    (hpkt : sched.getNextPktOfMsg cfg txMsgId = .ok (next, some packet)) :
    packet.homaHeader.txMsgId = txMsgId ∧
      packet.payload =
        if msg.needsInitialCreditRequest then []
        else msg.fragment cfg packet.homaHeader.pktOffset := by
  rw [getNextPktOfMsg, hlook] at hpkt
  dsimp only at hpkt
  split at hpkt
  next hreq =>
    obtain ⟨-, heq⟩ := Prod.mk.inj (Except.ok.inj hpkt)
    cases heq
    rw [if_pos hreq]
    exact ⟨rfl, rfl⟩
  next hreq =>
    split at hpkt
    · cases hpkt
    next pktOffset hoff =>
      obtain ⟨⟨payload, removed⟩, hremove, hok⟩ := bind_eq_ok.mp hpkt
      obtain ⟨-, heq⟩ := Prod.mk.inj (Except.ok.inj hok)
      cases heq
      rw [removeNextPktFromTxQ, if_pos (getNextPktOffset_eq_some hoff).2.1] at hremove
      obtain ⟨rfl, -⟩ := Prod.mk.inj (Except.ok.inj hremove)
      rw [if_neg hreq]
      exact ⟨rfl, rfl⟩

theorem advanced_txDataPacket (hwf : sched.WellFormed cfg) {drained : Bool} {order : List Nat}
    {packet? : Option Packet} (htx : sched.txDataPacket cfg drained order = .ok (next, packet?))
    (hstored : next.outboundMsgs.lookup txMsgId = some msg) (history : Nat → List MsgEvent) :
    Advanced cfg sched (history txMsgId) txMsgId (.txDataPacket drained order) msg
      (note history (.txDataPacket drained order) (sentEvents packet?) txMsgId) := by
  cases packet? with
  | none =>
    cases txDataPacket_outcome hwf htx with
    | idle hmsgs => exact .kept (hmsgs ▸ hstored)
    | transmitted _ _ _ _ hevs => cases hevs
  | some packet =>
    cases drained with
    | false =>
      rw [txDataPacket, if_neg (by simp)] at htx
      cases (Prod.mk.inj (Except.ok.inj htx)).2
    | true =>
      have hclears := getNextMsgId_eq hwf.sound order
      rw [txDataPacket, if_pos rfl] at htx
      split at htx
      · cases (Prod.mk.inj (Except.ok.inj htx)).2
      next cleared selected hselect =>
        obtain rfl : cleared = sched := by rw [← hclears, hselect]
        obtain ⟨⟨sent, found⟩, hpkt, hok⟩ := bind_eq_ok.mp htx
        cases found with
        | none => cases hok
        | some found =>
          obtain ⟨rfl, heq⟩ := Prod.mk.inj (Except.ok.inj hok)
          cases heq
          obtain ⟨prior, updated, hlook, hsent, rfl⟩ := getNextPktOfMsg_eq_ok hpkt
          obtain ⟨rfl, hload⟩ := payload_of_getNextPktOfMsg hlook hpkt
          rw [UnorderedMap.lookup_insert] at hstored
          change Advanced cfg cleared (history txMsgId) txMsgId _ msg
            (Function.update history _ _ txMsgId)
          split at hstored
          next heq =>
            cases hstored
            subst heq
            rw [Function.update_self]
            exact .transmitted (congrArg Prod.snd hselect) hlook hsent hload
          next hne =>
            rw [Function.update_of_ne hne]
            exact .kept hstored

theorem advanced_ctrlPkt (hwf : sched.WellFormed cfg) {packet : Packet} {platform : Platform}
    {busy? : Option Packet}
    (hrecv : sched.ctrlPktRecvdForOutboundMsg cfg platform packet = .ok (next, busy?))
    (hstored : next.outboundMsgs.lookup txMsgId = some msg) (history : Nat → List MsgEvent) :
    Advanced cfg sched (history txMsgId) txMsgId (.ctrlPkt packet platform) msg
      (note history (.ctrlPkt packet platform) (sentEvents busy?) txMsgId) := by
  by_cases hflag : packet.homaHeader.hasFlag .grant = true ∨
      packet.homaHeader.hasFlag .resend = true
  · have hnote : note history (.ctrlPkt packet platform) (sentEvents busy?) =
        Function.update history packet.homaHeader.txMsgId
          (history packet.homaHeader.txMsgId ++ [.received packet.homaHeader]) := by
      rw [note, if_pos (by simpa [Packet.hasFlag] using hflag)]
    rw [hnote]
    unfold ctrlPktRecvdForOutboundMsg at hrecv
    dsimp only at hrecv
    split at hrecv
    next hunk =>
      -- a packet for an unknown id is noted, but there is no message to note it for
      obtain ⟨rfl, -⟩ := Prod.mk.inj (Except.ok.inj hrecv)
      have hne : txMsgId ≠ packet.homaHeader.txMsgId := by
        rintro rfl
        rw [hunk] at hstored
        cases hstored
      rw [Function.update_of_ne hne]
      exact .kept hstored
    next prior hlook =>
      rw [if_neg (by simp [(hwf.sound _ prior hlook).unexpired])] at hrecv
      split at hrecv
      · obtain ⟨updated, hctrl, hmsgs, -⟩ := applyCtrlPkt_controlled hwf hlook hflag hrecv
        rw [hmsgs, UnorderedMap.lookup_insert] at hstored
        split at hstored
        next heq =>
          cases hstored
          subst heq
          rw [Function.update_self]
          exact .controlled rfl hlook hctrl
        next hne =>
          rw [Function.update_of_ne hne]
          exact .kept hstored
      · cases hrecv
  · have hnote : note history (.ctrlPkt packet platform) (sentEvents busy?) = history := by
      rw [note, if_neg (by simpa [Packet.hasFlag] using hflag)]
    rw [hnote]
    cases ctrlPkt_outcome hwf hrecv with
    | idle hmsgs => exact .kept (hmsgs ▸ hstored)
    | controlled _ _ hctrl =>
      cases hctrl with
      | grant hgrant => exact absurd (Or.inl hgrant) hflag
      | resend hresend => exact absurd (Or.inr hresend) hflag
    | acked _ hmsgs =>
      rw [hmsgs] at hstored
      split at hstored
      · cases hstored
      · exact .kept hstored

theorem advanced_of_handle (hwf : sched.WellFormed cfg) {input : SendInput}
    (hhandle : sched.handle cfg input = .ok (next, events))
    (hstored : next.outboundMsgs.lookup txMsgId = some msg) (history : Nat → List MsgEvent) :
    Advanced cfg sched (history txMsgId) txMsgId input msg (note history input events txMsgId) := by
  cases input with
  | send message saddr daddr sport dport origin =>
    exact advanced_send hwf hhandle hstored history
  | ctrlPkt packet platform =>
    obtain ⟨busy, -, hrecv, rfl⟩ := handle_ctrlPkt hhandle
    exact advanced_ctrlPkt hwf hrecv hstored history
  | txDataPacket drained order =>
    obtain ⟨packet, -, htx, rfl⟩ := handle_txDataPacket hhandle
    exact advanced_txDataPacket hwf htx hstored history

end Advanced

def Faithful (cfg : Config) (recorded : RecordedSender) : Prop :=
  ∀ txMsgId msg, recorded.sched.outboundMsgs.lookup txMsgId = some msg →
    Ran cfg txMsgId (recorded.history txMsgId) msg

theorem faithful_of_reachable (hreach : (machine cfg).Reachable recorded) :
    recorded.Faithful cfg := by
  induction hreach with
  | init =>
    intro txMsgId msg hlook
    cases hlook
  | @step state next input hprior _ hstep ih =>
    obtain ⟨events, hhandle, hhistory⟩ := step_eq_ok hstep
    intro txMsgId msg hstored
    rw [hhistory]
    have hadv := advanced_of_handle (wellFormed_of_reachable hprior) hhandle hstored state.history
    generalize note state.history input events txMsgId = later at hadv ⊢
    cases hadv with
    | kept hlook => exact ih txMsgId msg hlook
    | created _ hcreate => exact .accepted hcreate
    | transmitted _ hlook hsent hload =>
      exact .sent (ih txMsgId _ hlook) hsent hload
    | controlled _ hlook hctrl => exact .received (ih txMsgId _ hlook) hctrl

theorem maxGrantedIdx_le {sched next : HomaSendScheduler} {events : List Event}
    (hwf : sched.WellFormed cfg) {input : SendInput}
    (hhandle : sched.handle cfg input = .ok (next, events)) {txMsgId : Nat}
    {msg updated : HomaOutboundMsg} (hlook : sched.outboundMsgs.lookup txMsgId = some msg)
    (hupd : next.outboundMsgs.lookup txMsgId = some updated) :
    msg.maxGrantedIdx ≤ updated.maxGrantedIdx := by
  have hadv := advanced_of_handle hwf hhandle hupd fun _ => []
  generalize note _ input events txMsgId = later at hadv
  cases hadv with
  | kept hpre =>
    obtain rfl := Option.some.inj (hlook.symm.trans hpre)
    exact le_rfl
  | created hunused => cases hlook.symm.trans hunused
  | transmitted _ hpre hsent =>
    obtain rfl := Option.some.inj (hlook.symm.trans hpre)
    exact hsent.window.2.2.ge
  | controlled _ hpre hctrl =>
    obtain rfl := Option.some.inj (hlook.symm.trans hpre)
    rw [hctrl.raised.maxGrantedIdx_eq]
    exact le_max_left _ _

theorem initialWindow_le (hrtt : 1 ≤ cfg.rttPackets) (numPkts : Nat) :
    (initialWindow cfg numPkts).1 ≤ cfg.rttPackets - 1 := by
  have hlast := cfg.lastUnscheduledIdx_of_pos hrtt
  unfold initialWindow
  split
  · exact Nat.zero_le _
  · split
    · split
      · exact Nat.zero_le _
      · exact hlast ▸ min_le_left _ _
    · exact hlast ▸ min_le_left _ _

theorem initialWindow_of_long (hsird : cfg.sirdEnabled = true) {numPkts : Nat}
    (hlong : cfg.unschThresholdPkts < numPkts) : (initialWindow cfg numPkts).2 = true := by
  have hne : numPkts ≠ 0 := by omega
  rw [initialWindow, if_neg hne, if_pos hsird, if_pos hlong]

/-- Each payload lies inside the message and inside its initial window or the largest offset
granted before; a long SIRD message sends one credit request, if anything before its first GRANT or
RESEND, and never another; the granted offset does not decrease; and an offset that no RESEND has
named is sent at most once. -/
theorem sent_within_grants (hrtt : 1 ≤ cfg.rttPackets)
    (hreachable : (machine cfg).Reachable recorded) {txMsgId : Nat} {msg : HomaOutboundMsg}
    (hlook : recorded.sched.outboundMsgs.lookup txMsgId = some msg) :
    let history := recorded.history txMsgId
    let initialLimit := (initialWindow cfg msg.getMsgSizePkts).1
    (initialLimit ≤ cfg.rttPackets - 1 ∧
      ∀ earlier packet, earlier ++ [.sent packet] <+: history → packet.payload ≠ [] →
        packet.homaHeader.pktOffset < msg.getMsgSizePkts ∧
          packet.homaHeader.pktOffset ≤ max initialLimit (largestGrant earlier)) ∧
      (cfg.sirdEnabled = true → cfg.unschThresholdPkts < msg.getMsgSizePkts →
        (∀ event ∈ beforeGrant history, event.isRequest = true) ∧
          history.countP MsgEvent.isRequest = (beforeGrant history).length ∧
          history.countP MsgEvent.isRequest ≤ 1 ∧
          (history = [] → msg.needsInitialCreditRequest = true)) ∧
      (∀ input next events, recorded.sched.handle cfg input = .ok (next, events) →
        ∀ updated, next.outboundMsgs.lookup txMsgId = some updated →
          msg.maxGrantedIdx ≤ updated.maxGrantedIdx) ∧
      ∀ pktOffset, ¬ namedByResend history pktOffset →
        history.countP (MsgEvent.isDataAt pktOffset) ≤ 1 := by
  intro history initialLimit
  have hran := faithful_of_reachable hreachable txMsgId msg hlook
  refine ⟨⟨initialWindow_le hrtt _, fun earlier packet => hran.sent_within⟩, ?_, ?_, ?_⟩
  · intro hsird hlong
    have hwin := initialWindow_of_long hsird hlong
    have hrequests := hran.beforeGrant_isRequest hwin
    have hcnt := hran.countP_isRequest_eq
    refine ⟨hrequests.1, hrequests.2, ?_, fun hnil => ?_⟩
    · rw [hcnt]
      split <;> omega
    · have hunsent : msg.initialCreditRequestSent = false := by
        simpa [show recorded.history txMsgId = [] from hnil] using hcnt
      have hwait : msg.waitForFirstGrant = true := by
        rw [hran.waitForFirstGrant_eq, hwin, show recorded.history txMsgId = [] from hnil]
        rfl
      rw [needsInitialCreditRequest, hwait, hunsent]
      rfl
  · intro input next events hhandle updated hupdated
    exact maxGrantedIdx_le (wellFormed_of_reachable hreachable) hhandle hlook hupdated
  · intro pktOffset hnamed
    have hsplit := hran.count_add_countP_isDataAt hnamed
    calc history.countP (MsgEvent.isDataAt pktOffset)
        ≤ msg.pktTxQ.count pktOffset + history.countP (MsgEvent.isDataAt pktOffset) :=
          Nat.le_add_left _ _
      _ = if pktOffset < msg.getMsgSizePkts then 1 else 0 := hsplit
      _ ≤ 1 := by split <;> simp

def sampleGrant : Packet where
  ipv4Header := { source := 2, destination := 1, ecn := .notECT }
  homaHeader := {
    srcPort := 6
    dstPort := 5
    flags := Flag.grant.mask
    grantOffset := 1 }
  payload := []
  origin := 0

theorem sent_within_grants_request :
    let recorded := (machine Config.oneByteSird).after (fun _ _ => true)
      [.send [7, 8] 1 2 5 6 0, .txDataPacket true [0], .ctrlPkt sampleGrant ⟨[0], 0⟩,
        .txDataPacket true [0]] initial
    (recorded.history 0).map MsgEvent.isRequest = [true, false, false] ∧
      (recorded.history 0).countP (MsgEvent.isDataAt 0) ≤ 1 := by
  intro recorded
  have hreachable : (machine Config.oneByteSird).Reachable recorded :=
    ReachableUnder.after (fun _ _ _ => trivial) _ .init
  have hstored : (recorded.sched.outboundMsgs.lookup 0).isSome = true := by decide +kernel
  obtain ⟨msg, hlook⟩ := Option.isSome_iff_exists.mp hstored
  have hhistory : (recorded.history 0).map MsgEvent.isRequest = [true, false, false] := by
    decide +kernel
  have hunnamed : ¬ namedByResend (recorded.history 0) 0 := by
    have hflags : (recorded.history 0).all fun event => event.casesOn (fun _ => true)
        fun header => !header.hasFlag .resend := by decide +kernel
    rintro ⟨header, hmem, hresend, -⟩
    have hflag := List.all_eq_true.mp hflags _ hmem
    simp [hresend] at hflag
  have hbounds := sent_within_grants (by decide) hreachable hlook
  exact ⟨hhistory, hbounds.2.2.2 0 hunnamed⟩

theorem grant_overtakes_request :
    let recorded := (machine Config.oneByteSird).after (fun _ _ => true)
      [.send [7, 8] 1 2 5 6 0, .ctrlPkt sampleGrant ⟨[0], 0⟩, .txDataPacket true [0],
        .txDataPacket true [0]] initial
    (machine Config.oneByteSird).Reachable recorded ∧
      Config.oneByteSird.unschThresholdPkts < packetCount 2 Config.oneByteSird.maxPayloadSize ∧
      (recorded.history 0).countP (MsgEvent.isDataAt 0) = 1 ∧
      (recorded.history 0).countP (MsgEvent.isDataAt 1) = 1 ∧
      (recorded.history 0).countP MsgEvent.isRequest = 0 ∧
      (recorded.sched.outboundMsgs.lookup 0).map needsInitialCreditRequest = some false := by
  intro recorded
  have hreachable : (machine Config.oneByteSird).Reachable recorded :=
    ReachableUnder.after (fun _ _ _ => trivial) _ .init
  refine ⟨hreachable, ?_, ?_, ?_, ?_, ?_⟩ <;> decide +kernel

end RecordedSender

end HomaSird.Homa
