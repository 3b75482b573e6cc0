import HomaSird.Homa.Provenance

/-! # A message is handed up at most once

The receiver forgets a message that it has handed up, and late packets may start it over. Its last
packet keeps it from completing again: no RESEND names it, so it is transmitted once, and every
delivery uses it up.
-/

namespace HomaSird.Homa

open Transition Transition.Machine List HomaRecvScheduler

/-- The packet brings the payload of the last of `numPkts` packets of a message. -/
def Packet.carriesLast (key : MsgKey) (numPkts : Nat) (packet : Packet) : Bool :=
  packet.hasFlag .data && decide (packet.key = key) && !packet.payload.isEmpty &&
    decide (packet.homaHeader.pktOffset + 1 = numPkts)

def HomaInboundMsg.holdsLast (key : MsgKey) (numPkts : Nat) (msg : HomaInboundMsg) : Bool :=
  decide (msg.key = key) && decide (msg.receivedPackets[numPkts - 1]? = some true)

def Event.isForwardUp (key : MsgKey) : Event → Bool
  | .forwardUp delivered _ _ => decide (delivered = key)
  | _ => false

def Event.isMsgBegin (key : MsgKey) : Event → Bool
  | .msgBegin begun _ _ => decide (begun = key)
  | _ => false

open Event Packet HomaInboundMsg

variable {key : MsgKey} {numPkts : Nat} {cfg : Config} {known : BegunMsg → Prop}

theorem carriesLast_iff {packet : Packet} :
    packet.carriesLast key numPkts = true ↔ packet.hasFlag .data = true ∧
    packet.key = key ∧ packet.payload ≠ [] ∧ packet.homaHeader.pktOffset + 1 = numPkts := by
  simp [carriesLast, and_assoc]

theorem carriesLast_of_not_data {packet : Packet}
    (hdata : packet.hasFlag .data = false) : packet.carriesLast key numPkts = false := by
  simp [carriesLast, hdata]

/-! ## The sender -/

namespace HomaSendScheduler

open HomaOutboundMsg

variable {sched next : HomaSendScheduler} {events : List Event}

def queuedLast (key : MsgKey) (numPkts : Nat) (sched : HomaSendScheduler) : Nat :=
  match sched.outboundMsgs.lookup key.txMsgId with
  | none => 0
  | some msg => if msg.key key.txMsgId = key then msg.pktTxQ.count (numPkts - 1) else 0

theorem queuedLast_congr
    (hmsgs : next.outboundMsgs.lookup key.txMsgId = sched.outboundMsgs.lookup key.txMsgId) :
    next.queuedLast key numPkts = sched.queuedLast key numPkts := by
  rw [queuedLast, hmsgs, queuedLast]

variable {msg : HomaOutboundMsg}

theorem queuedLast_of_some (hlook : sched.outboundMsgs.lookup key.txMsgId = some msg) :
    sched.queuedLast key numPkts =
      if msg.key key.txMsgId = key then msg.pktTxQ.count (numPkts - 1) else 0 := by
  rw [queuedLast, hlook]

theorem queuedLast_insert_of_ne {txMsgId : Nat} (hne : key.txMsgId ≠ txMsgId)
    (hmsgs : next.outboundMsgs = sched.outboundMsgs.insert txMsgId msg) :
    next.queuedLast key numPkts = sched.queuedLast key numPkts := by
  apply queuedLast_congr
  rw [hmsgs, UnorderedMap.lookup_insert, if_neg hne]

theorem queuedLast_insert_self
    (hmsgs : next.outboundMsgs = sched.outboundMsgs.insert key.txMsgId msg) :
    next.queuedLast key numPkts =
      if msg.key key.txMsgId = key then msg.pktTxQ.count (numPkts - 1) else 0 := by
  apply queuedLast_of_some
  rw [hmsgs, AList.lookup_insert]

theorem queuedLast_transmitted {txMsgId : Nat} {msg sent : HomaOutboundMsg} {packet : Packet}
    (hlook : sched.outboundMsgs.lookup txMsgId = some msg)
    (hsent : Transmitted cfg txMsgId msg sent packet)
    (hmsgs : next.outboundMsgs = sched.outboundMsgs.insert txMsgId sent) :
    next.queuedLast key numPkts + (if packet.carriesLast key numPkts then 1 else 0) ≤
      sched.queuedLast key numPkts := by
  have hkey : packet.carriesLast key numPkts = true → msg.key txMsgId = key := by
    intro hcarry
    have hpkt := (carriesLast_iff.mp hcarry).2.1
    cases hsent with
    | request => exact hpkt
    | data _ hrem =>
      subst hrem
      exact hpkt
  by_cases hid : key.txMsgId = txMsgId
  · subst hid
    have hsame : sent.key key.txMsgId = msg.key key.txMsgId := hsent.sameMsg.1.key_eq _
    rw [queuedLast_insert_self hmsgs, queuedLast_of_some hlook, hsame]
    by_cases hmatch : msg.key key.txMsgId = key
    · rw [if_pos hmatch, if_pos hmatch]
      cases hsent with
      | request => simp [carriesLast, generateInitialCreditRequest, markInitialCreditRequestSent]
      | @data removed _ pktOffset payload csn hoffset hrem hnext =>
        have htop := (getNextPktOffset_eq_some hoffset).2.1
        have hq : sent.pktTxQ = msg.pktTxQ.popWhileTop pktOffset := by
          obtain ⟨held, hspent⟩ := spent_eq cfg removed
          rw [hnext, hspent, hrem]
        rw [hq]
        by_cases hlast : pktOffset = numPkts - 1
        · -- every queued copy of the last packet goes with the one sent
          subst hlast
          have hpos := MinQueue.count_pos_of_top? htop
          rw [MinQueue.count_popWhileTop_self htop]
          split <;> omega
        · have hother : (dataPacket cfg removed key.txMsgId pktOffset payload csn).carriesLast
              key numPkts = false := by
            rw [Bool.eq_false_iff]
            intro hcarry
            have hoff : pktOffset + 1 = numPkts := (carriesLast_iff.mp hcarry).2.2.2
            omega
          rw [MinQueue.count_popWhileTop_of_ne _ (Ne.symm hlast), hother]
          exact Nat.le_refl _
    · rw [if_neg hmatch, if_neg fun hcarry => hmatch (hkey hcarry)]
      exact Nat.zero_le _
  · rw [queuedLast_insert_of_ne hid hmsgs, if_neg]
    · exact Nat.le_refl _
    · intro hcarry
      exact hid (congrArg MsgKey.txMsgId (hkey hcarry)).symm

theorem queuedLast_controlled {packet : Packet} {msg updated : HomaOutboundMsg}
    (hpkt : packet.Attributed known cfg.maxPayloadSize)
    (hsz : ∀ begun,
      known begun → begun.key = key → packetCount begun.msgSizeBytes cfg.maxPayloadSize = numPkts)
    (hlook : sched.outboundMsgs.lookup packet.homaHeader.txMsgId = some msg)
    (hkey : msg.key packet.homaHeader.txMsgId = packet.ctrlKey)
    (hctrl : Controlled cfg packet.homaHeader msg updated)
    (hmsgs : next.outboundMsgs = sched.outboundMsgs.insert packet.homaHeader.txMsgId updated) :
    next.queuedLast key numPkts = sched.queuedLast key numPkts := by
  by_cases hid : key.txMsgId = packet.homaHeader.txMsgId
  · rw [← hid] at hmsgs hlook hkey
    have hsame : updated.key key.txMsgId = msg.key key.txMsgId := hctrl.sameMsg.1.key_eq _
    rw [queuedLast_insert_self hmsgs, queuedLast_of_some hlook, hsame]
    by_cases hmatch : msg.key key.txMsgId = key
    · rw [if_pos hmatch, if_pos hmatch]
      cases hctrl with
      | grant _ hgrant => rw [(handleGrantOffset_eq_ok hgrant).2.1]
      | resend hflag hgrant hresend =>
        rw [(handleResend_eq_ok hresend).2.1, (handleGrantOffset_eq_ok hgrant).2.1,
          MinQueue.count_push, if_neg, add_zero]
        obtain ⟨hknown, hoffset, hgranted⟩ := hpkt.of_resend hflag
        have hnum := hsz _ hknown (hkey.symm.trans hmatch)
        have hbelow : packet.homaHeader.grantOffset < numPkts := hnum ▸ hgranted
        omega
    · rw [if_neg hmatch, if_neg hmatch]
  · exact queuedLast_insert_of_ne hid hmsgs

theorem queuedLast_handle (hwf : sched.WellFormed cfg) {input : SendInput}
    (hctrl : ∀ packet platform,
      input = .ctrlPkt packet platform → packet.Attributed known cfg.maxPayloadSize)
    (hsz : ∀ begun,
      known begun → begun.key = key → packetCount begun.msgSizeBytes cfg.maxPayloadSize = numPkts)
    (hhandle : sched.handle cfg input = .ok (next, events)) :
    next.queuedLast key numPkts + (Network.sentPackets events).countP (carriesLast key numPkts) ≤
      sched.queuedLast key numPkts + events.countP (isMsgBegin key) := by
  cases handle_outcome hwf hhandle with
  | idle hmsgs _ hevs =>
    subst hevs
    have hsame : next.outboundMsgs.lookup key.txMsgId =
        sched.outboundMsgs.lookup key.txMsgId := by rw [hmsgs]
    rw [queuedLast_congr hsame]
    exact Nat.le_refl _
  | @accepted _ _ _ _ _ _ msg txMsgId _ hmade hmsgs hevs =>
    subst hevs
    by_cases hid : key.txMsgId = txMsgId
    · subst hid
      rw [queuedLast_insert_self hmsgs]
      by_cases hmatch : msg.key key.txMsgId = key
      -- a new message queues its last packet once
      · have hone : msg.pktTxQ.count (numPkts - 1) ≤ 1 := by
          rw [hmade.pktTxQ_eq, MinQueue.count_range]
          split <;> omega
        simpa [Network.sentPackets, isMsgBegin, hmatch] using Nat.le_add_left_of_le hone
      · simp [Network.sentPackets, hmatch]
    · rw [queuedLast_insert_of_ne hid hmsgs]
      exact Nat.le_add_right _ _
  | @transmitted _ _ _ _ _ packet hlook hsent hmsgs _ hevs =>
    subst hevs
    have hqueued := @queuedLast_transmitted key numPkts cfg sched next _ _ _ _ hlook
      hsent hmsgs
    simpa [Network.sentPackets, isMsgBegin, countP_cons] using hqueued
  | @controlled packet platform _ updated hlook hkey hcontrolled hmsgs _ hevs =>
    rw [queuedLast_controlled (hctrl packet platform rfl) hsz hlook hkey hcontrolled hmsgs]
    have hnone : (Network.sentPackets events).countP (carriesLast key numPkts) = 0 := by
      rcases hevs with rfl | ⟨nextTxMsgId, rfl⟩
      · rfl
      · have hbusy : (updated.generateBusy nextTxMsgId).carriesLast key numPkts = false :=
          carriesLast_of_not_data (hasFlag_generateBusy updated nextTxMsgId .data)
        simp [Network.sentPackets, hbusy]
    rw [hnone]
    exact Nat.le_add_right _ _
  | @acked packet _ _ _ hmsgs _ hevs =>
    subst hevs
    by_cases hid : key.txMsgId = packet.homaHeader.txMsgId
    · rw [queuedLast, hmsgs, if_pos hid]
      exact Nat.zero_le _
    · rw [queuedLast_congr ((hmsgs _).trans (if_neg hid))]
      exact Nat.le_refl _

end HomaSendScheduler

/-! ## The receiver -/

namespace HomaRecvScheduler

variable {sched next : HomaRecvScheduler} {events : List Event}

theorem holdsLast_iff {msg : HomaInboundMsg} :
    msg.holdsLast key numPkts = true ↔
      msg.key = key ∧ msg.receivedPackets[numPkts - 1]? = some true := by
  simp [holdsLast]

variable {packet : Packet}

theorem holdsLast_receive {msg received : HomaInboundMsg} (hdata : packet.hasFlag .data = true)
    (hkey : msg.key = packet.key)
    (hoffset : packet.key = key → packet.homaHeader.pktOffset < numPkts)
    (hrecv : msg.receiveDataPacket cfg packet.payload packet.homaHeader.pktOffset = .ok received)
    (hholds : received.holdsLast key numPkts = true) :
    msg.holdsLast key numPkts = true ∨ packet.carriesLast key numPkts = true := by
  rcases HomaInboundMsg.receiveDataPacket_eq_ok hrecv with ⟨rfl, _⟩ | ⟨rfl, hload, _⟩
  · exact Or.inl hholds
  · obtain ⟨hmatch, hlast⟩ := holdsLast_iff.mp hholds
    have hframe := (receiveDataPacket_frame hrecv).1
    have hpkts : (msg.store cfg packet.homaHeader.pktOffset
        packet.payload).openWindow.receivedPackets =
        msg.receivedPackets.set packet.homaHeader.pktOffset true := by
      unfold openWindow
      split
      · rfl
      · rfl
    have hpacketKey : packet.key = key := (hframe.trans hkey).symm.trans hmatch
    have hbelow := hoffset hpacketKey
    by_cases hsame : packet.homaHeader.pktOffset = numPkts - 1
    · exact Or.inr (carriesLast_iff.mpr ⟨hdata, hpacketKey, hload, by omega⟩)
    · rw [hpkts, getElem?_set_ne hsame] at hlast
      exact Or.inl (holdsLast_iff.mpr ⟨hframe.symm.trans hmatch, hlast⟩)

theorem holdsLast_create {created : HomaInboundMsg} (hdata : packet.hasFlag .data = true)
    (hoffset : packet.key = key → packet.homaHeader.pktOffset < numPkts)
    (hcreate : create cfg packet = .ok created)
    (hholds : created.holdsLast key numPkts = true) : packet.carriesLast key numPkts = true := by
  obtain ⟨hmatch, hlast⟩ := holdsLast_iff.mp hholds
  have hblank : ∀ index : Nat, (blank cfg packet).receivedPackets[index]? ≠ some true := by
    intro index hget
    exact absurd (eq_of_mem_replicate (mem_of_getElem? hget)) (by decide)
  rcases create_eq_ok hcreate with ⟨_, rfl⟩ | ⟨hload, _, rfl⟩
  · exact (hblank _ hlast).elim
  · have hpacketKey : packet.key = key := hmatch
    have hbelow := hoffset hpacketKey
    by_cases hsame : packet.homaHeader.pktOffset = numPkts - 1
    · exact carriesLast_iff.mpr ⟨hdata, hpacketKey, hload, by omega⟩
    · rw [store, getElem?_set_ne hsame] at hlast
      exact (hblank _ hlast).elim

theorem holdsLast_taken {inboundMsg : HomaInboundMsg} {others : List HomaInboundMsg}
    (hdata : packet.hasFlag .data = true)
    (hoffset : packet.key = key → packet.homaHeader.pktOffset < numPkts)
    (htaken : Taken cfg sched packet inboundMsg others) :
    (inboundMsg :: others).countP (holdsLast key numPkts) ≤
      sched.inboundMsgs.countP (holdsLast key numPkts) +
        if packet.carriesLast key numPkts then 1 else 0 := by
  cases htaken with
  | @pending msg hperm hkey hrecv =>
    have hholds := @holdsLast_receive key numPkts cfg _ _ _ hdata hkey hoffset hrecv
    rw [hperm.countP_eq, countP_cons, countP_cons]
    split
    next hnow =>
      rcases hholds hnow with hpre | hcarry
      · rw [if_pos hpre]
        omega
      · rw [if_pos hcarry]
        omega
    · omega
  | @fresh created hothers _ hcreate hmsg =>
    have hholds := @holdsLast_create key numPkts cfg _ _ hdata hoffset hcreate
    rw [countP_cons, hothers]
    split
    next hnow =>
      have hmade : created.holdsLast key numPkts = true := by
        rw [hmsg] at hnow
        exact hnow
      rw [if_pos (hholds hmade)]
    · omega

theorem holdsLast_settled {inboundMsg : HomaInboundMsg} {others msgs : List HomaInboundMsg}
    (hlength : inboundMsg.key = key → inboundMsg.receivedPackets.length = numPkts ∧ 0 < numPkts)
    (hset : Settled cfg inboundMsg others msgs events) :
    msgs.countP (holdsLast key numPkts) + events.countP (isForwardUp key) ≤
      (inboundMsg :: others).countP (holdsLast key numPkts) := by
  cases hset with
  | complete hfull hmsgs hevs =>
    subst hmsgs hevs
    by_cases hmatch : inboundMsg.key = key
    · obtain ⟨hlen, hpos⟩ := hlength hmatch
      have hlt : numPkts - 1 < inboundMsg.receivedPackets.length := by omega
      have hlast : inboundMsg.receivedPackets[numPkts - 1] = true :=
        all_eq_true.mp hfull _ (getElem_mem hlt)
      have hholds : inboundMsg.holdsLast key numPkts = true :=
        holdsLast_iff.mpr ⟨hmatch, List.getElem?_eq_some_iff.mpr ⟨hlt, hlast⟩⟩
      simp [isForwardUp, hmatch, hholds]
    · simp [isForwardUp, hmatch, countP_cons]
  | waiting _ hmsgs hevs =>
    subst hevs
    rw [hmsgs.countP_eq]
    exact le_rfl

theorem visit_holdsLast {busySenders : Finset Ipv4Address}
    (before : GrantRound) (prior : HomaInboundMsg) (after : GrantRound)
    (msg : HomaInboundMsg) (hvisit : GrantRound.Visit cfg busySenders before prior after msg) :
    msg.holdsLast key numPkts = prior.holdsLast key numPkts := by
  obtain ⟨_, _, _, _, _, rfl⟩ := visit_frame hvisit
  rfl

theorem countP_eq_of_map {msgs others : List HomaInboundMsg} {test : HomaInboundMsg → Bool}
    (hmap : msgs.map test = others.map test) : msgs.countP test = others.countP test := by
  have hcnt := congrArg (countP id) hmap
  rwa [countP_map, countP_map] at hcnt

theorem countP_isForwardUp_sent (packets : List Packet) :
    (packets.map Event.sendDown).countP (isForwardUp key) = 0 := by
  rw [countP_map, countP_eq_zero]
  intro packet _
  exact Bool.false_ne_true

def lastArrivals (key : MsgKey) (numPkts : Nat) : RecvInput → Nat
  | .packet packet => if packet.carriesLast key numPkts then 1 else 0
  | .creditTick => 0
  | .rtxExpire _ => 0

theorem holdsLast_handle (hwf : sched.WellFormed cfg) {addr : Ipv4Address}
    (hattr : sched.Attributed known addr) {input : RecvInput}
    (hinp : ∀ packet, input = .packet packet → packet.Attributed known cfg.maxPayloadSize)
    (hsz : ∀ begun,
      known begun → begun.key = key → packetCount begun.msgSizeBytes cfg.maxPayloadSize = numPkts)
    (hhandle : sched.handle cfg input = .ok (next, events)) :
    next.inboundMsgs.countP (holdsLast key numPkts) + events.countP (isForwardUp key) ≤
      sched.inboundMsgs.countP (holdsLast key numPkts) + lastArrivals key numPkts input := by
  cases handled hwf hhandle with
  | @data packet _ inboundMsg others hdata hgot =>
    obtain ⟨before, hset, rfl⟩ := hgot.settled
    obtain ⟨hpkt, hbelow⟩ := (hinp packet rfl).of_data hdata
    obtain ⟨hknown, hlen⟩ := attributed_taken hwf hattr hpkt hgot.taken
    have hoffset : packet.key = key → packet.homaHeader.pktOffset < numPkts := by
      intro hmatch
      rw [← hsz _ hpkt hmatch]
      exact hbelow
    -- the packet stays within its message, found or created
    have hmatches : inboundMsg.key = packet.key := by
      cases hgot.taken with
      | pending _ hkey hmove => exact (receiveDataPacket_frame hmove).1.trans hkey
      | fresh _ _ hcreate hmsg =>
        subst hmsg
        exact congrArg BegunMsg.key (begunMsg_create hcreate)
    have hlength : inboundMsg.key = key →
        inboundMsg.receivedPackets.length = numPkts ∧ 0 < numPkts := by
      intro hmatch
      have hbelow := hoffset (hmatches.symm.trans hmatch)
      exact ⟨hlen.trans (hsz _ hknown hmatch), by omega⟩
    have htaken := holdsLast_taken hdata hoffset hgot.taken
    have hafter := holdsLast_settled hlength hset
    have hlast : [Event.dataRecv packet].countP (isForwardUp key) = 0 := rfl
    rw [countP_append, hlast, lastArrivals]
    omega
  | control _ hmsgs =>
    rw [hmsgs]
    exact Nat.le_add_right _ _
  | creditTick hnext =>
    subst hnext
    rw [creditTick_inboundMsgs, countP_eq_of_map (loop_map_eq visit_holdsLast _ _),
      countP_isForwardUp_sent]
    exact Nat.le_refl _
  | rtxExpire hexpired =>
    cases hexpired with
    | dropped _ _ hnext hevs =>
      subst hnext hevs
      exact List.Sublist.countP_le (eraseIdx_sublist _ _)
    | @rearmed msg _ hmsg _ _ hnext hevs =>
      subst hnext hevs
      have hsame : (rearmRtx msg).holdsLast key numPkts = msg.holdsLast key numPkts := rfl
      rw [countP_isForwardUp_sent, countP_eq_of_map (map_set_eq hmsg hsame)]
      exact Nat.le_refl _

end HomaRecvScheduler

/-! ## The network -/

namespace Network

variable {setting : Setting} {net next : Network}

def begins (key : MsgKey) (net : Network) : Nat :=
  net.log.countP fun entry => isMsgBegin key entry.2

def deliveries (key : MsgKey) (net : Network) : Nat :=
  net.log.countP fun entry => isForwardUp key entry.2

/-- The copies of a last packet: queued at the sender, under way, held by the
receiver, and used up by deliveries. -/
def copies (key : MsgKey) (numPkts : Nat) (net : Network) : Nat :=
  (net.hosts key.saddr).sendScheduler.queuedLast key numPkts +
    net.inFlight.countP (carriesLast key numPkts) +
    (net.hosts key.daddr).recvScheduler.inboundMsgs.countP (holdsLast key numPkts) +
    net.deliveries key

def Begun (log : List (Ipv4Address × Event)) (msg : BegunMsg) : Prop :=
  ∃ addr, (addr, .msgBegin msg.key msg.origin msg.msgSizeBytes) ∈ log

theorem countP_log_update (test : Event → Bool) (net : Network) (addr : Ipv4Address)
    (moved : HomaL4Protocol × List Event) :
    (net.update addr moved).log.countP (fun entry => test entry.2) =
      net.log.countP (fun entry => test entry.2) + moved.2.countP test := by
  rw [update, countP_append, countP_map]
  rfl

theorem Stepped.log_subset {action : Action}
    (hmove : Stepped setting net action next) : net.log ⊆ next.log := by
  rw [hmove.log_eq]
  exact subset_append_left _ _

variable {addr : Ipv4Address}

theorem queuedLast_eq_zero {sched : HomaSendScheduler} (hattr : sched.Attributed known addr)
    (hne : key.saddr ≠ addr) : sched.queuedLast key numPkts = 0 := by
  unfold HomaSendScheduler.queuedLast
  split
  · rfl
  next msg hlook =>
    rw [if_neg]
    intro hmatch
    exact hne ((congrArg MsgKey.saddr hmatch).symm.trans (hattr _ _ hlook).1)

variable {events : List Event}

theorem countP_isForwardUp_eq_zero (hnone : events.filter isReceiverEvent = []) :
    events.countP (isForwardUp key) = 0 := by
  rw [countP_eq_zero]
  intro event hev hforward
  have hkind := filter_eq_nil_iff.mp hnone event hev
  cases event with
  | forwardUp => exact hkind rfl
  | sendDown | msgBegin | dataRecv | rtxLimit => cases hforward

theorem copies_sender {host : HomaL4Protocol} {input : HomaSendScheduler.SendInput}
    (hrecv : host.recvScheduler = (net.hosts addr).recvScheduler)
    (hwf : (net.hosts addr).sendScheduler.WellFormed (setting.config addr))
    (hattr : (net.hosts addr).sendScheduler.Attributed known addr)
    (hctrl : ∀ packet platform,
      input = .ctrlPkt packet platform →
        packet.Attributed known (setting.config addr).maxPayloadSize)
    (hsz : ∀ begun,
      known begun → begun.key = key →
        packetCount begun.msgSizeBytes (setting.config addr).maxPayloadSize = numPkts)
    (hhandle : (net.hosts addr).sendScheduler.handle (setting.config addr) input =
      .ok (host.sendScheduler, events)) :
    (net.update addr (host, events)).copies key numPkts ≤
      net.copies key numPkts + events.countP (isMsgBegin key) := by
  have hqueued := HomaSendScheduler.queuedLast_handle hwf hctrl hsz hhandle
  have hforward : events.countP (isForwardUp key) = 0 :=
    countP_isForwardUp_eq_zero (filter_sender hwf hhandle)
  have hin : ((net.update addr (host, events)).hosts key.daddr).recvScheduler =
      (net.hosts key.daddr).recvScheduler := by
    by_cases hsame : key.daddr = addr
    · rw [hsame, hosts_update_self]
      exact hrecv
    · rw [hosts_update_of_ne _ hsame]
  have hflight : (net.update addr (host, events)).inFlight.countP (carriesLast key numPkts) =
      net.inFlight.countP (carriesLast key numPkts) +
        (sentPackets events).countP (carriesLast key numPkts) := countP_append
  have hdeliv := countP_log_update (isForwardUp key) net addr (host, events)
  unfold copies deliveries
  rw [hin, hflight, hdeliv]
  dsimp only
  by_cases hsame : key.saddr = addr
  · subst hsame
    rw [hosts_update_self]
    dsimp only
    omega
  · -- another host neither queues nor sends packets of the message
    rw [hosts_update_of_ne _ hsame]
    rw [queuedLast_eq_zero hattr hsame] at hqueued
    omega

theorem copies_receiver {host : HomaL4Protocol} {input : HomaRecvScheduler.RecvInput}
    (hsend : host.sendScheduler = (net.hosts addr).sendScheduler)
    (hwf : (net.hosts addr).recvScheduler.WellFormed (setting.config addr))
    (hattr : (net.hosts addr).recvScheduler.Attributed known addr)
    (hinp : ∀ packet,
      input = .packet packet →
        packet.ipv4Header.destination = addr ∧
          packet.Attributed known (setting.config addr).maxPayloadSize)
    (hsz : ∀ begun,
      known begun → begun.key = key →
        packetCount begun.msgSizeBytes (setting.config addr).maxPayloadSize = numPkts)
    (hhandle : (net.hosts addr).recvScheduler.handle (setting.config addr) input =
      .ok (host.recvScheduler, events)) :
    (net.update addr (host, events)).copies key numPkts ≤
      net.copies key numPkts + lastArrivals key numPkts input := by
  have hheld := holdsLast_handle hwf hattr
    (fun packet heq => (hinp packet heq).2) hsz hhandle
  have houtbound : ((net.update addr (host, events)).hosts key.saddr).sendScheduler =
      (net.hosts key.saddr).sendScheduler := by
    by_cases hsame : key.saddr = addr
    · rw [hsame, hosts_update_self]
      exact hsend
    · rw [hosts_update_of_ne _ hsame]
  have hnone : (sentPackets events).countP (carriesLast key numPkts) = 0 := by
    rw [countP_eq_zero]
    intro packet hpkt hcarry
    have hsent := mem_sentPackets.mp hpkt
    have hkind := filter_eq_self.mp (filter_receiver hwf hhandle) _ hsent
    simp only [isReceiverEvent, (carriesLast_iff.mp hcarry).1, Bool.not_true,
      Bool.false_and] at hkind
    cases hkind
  have hflight : (net.update addr (host, events)).inFlight.countP (carriesLast key numPkts) =
      net.inFlight.countP (carriesLast key numPkts) +
        (sentPackets events).countP (carriesLast key numPkts) := countP_append
  have hdeliv := countP_log_update (isForwardUp key) net addr (host, events)
  unfold copies deliveries
  rw [houtbound, hflight, hdeliv, hnone]
  dsimp only
  by_cases hsame : key.daddr = addr
  · subst hsame
    rw [hosts_update_self]
    dsimp only
    omega
  · -- another host neither holds nor hands up the message
    have hzero : (net.hosts addr).recvScheduler.inboundMsgs.countP (holdsLast key numPkts) = 0 := by
      rw [countP_eq_zero]
      intro msg hmem hholds
      have hmatch := (holdsLast_iff.mp hholds).1
      exact hsame ((congrArg MsgKey.daddr hmatch).symm.trans (hattr msg hmem).1)
    have harr : lastArrivals key numPkts input = 0 := by
      cases input with
      | packet packet =>
        apply if_neg
        intro hcarry
        have hmatch := (carriesLast_iff.mp hcarry).2.1
        exact hsame ((congrArg MsgKey.daddr hmatch).symm.trans (hinp packet rfl).1)
      | creditTick => rfl
      | rtxExpire timer => rfl
    rw [hosts_update_of_ne _ hsame]
    omega

theorem copies_taking {arrived : List Packet} (hbase : net.Taking arrived next) :
    next.copies key numPkts + arrived.countP (carriesLast key numPkts) =
      net.copies key numPkts := by
  have hflight := hbase.perm.countP_eq (carriesLast key numPkts)
  rw [countP_append] at hflight
  unfold copies deliveries
  rw [hbase.hosts_eq, hbase.log_eq]
  omega

def Conserved (setting : Setting) (net : Network) : Prop :=
  ∀ key numPkts,
    (∀ begun, Begun net.log begun → begun.key = key →
      packetCount begun.msgSizeBytes setting.maxPayloadSize = numPkts) →
    net.copies key numPkts ≤ net.begins key

theorem conserved_stepped {action : Action} (hwf : net.WellFormed setting)
    (hattr : net.Attributed setting (Begun net.log)) (hcons : net.Conserved setting)
    (hmove : Stepped setting net action next) : next.Conserved setting := by
  intro key numPkts hsz
  have hpre : ∀ begun, Begun net.log begun → begun.key = key →
      packetCount begun.msgSizeBytes setting.maxPayloadSize = numPkts := by
    rintro begun ⟨addr, hmem⟩ hkey
    exact hsz begun ⟨addr, hmove.log_subset hmem⟩ hkey
  have hcopies := hcons key numPkts hpre
  -- all hosts cut messages to the payload size of the link
  have hlink : ∀ addr, ∀ begun, Begun net.log begun → begun.key = key →
      packetCount begun.msgSizeBytes (setting.config addr).maxPayloadSize = numPkts := by
    intro addr
    rw [setting.config_maxPayloadSize]
    exact hpre
  have hpkts : ∀ addr, ∀ packet ∈ net.inFlight,
      packet.Attributed (Begun net.log) (setting.config addr).maxPayloadSize := by
    intro addr
    rw [setting.config_maxPayloadSize]
    exact hattr.inFlight
  -- only what a sender begins raises the right-hand side
  have hsteps : ∀ {base : Network} {arrived : List Packet} (_ : net.Taking arrived base)
      (addr : Ipv4Address) (moved : HomaL4Protocol × List Event),
      (base.update addr moved).begins key = net.begins key + moved.2.countP (isMsgBegin key) := by
    intro base arrived hbase addr moved
    rw [begins, countP_log_update, hbase.log_eq, begins]
  cases hmove with
  | @sender base arrived addr input host events hbase hnext hhandle hrecv _ hctrl =>
    have htaken := @copies_taking key numPkts _ _ _ hbase
    have hstep := @copies_sender key numPkts _ setting base addr events host input
      (hbase.hosts_eq ▸ hrecv) (hbase.hosts_eq ▸ hwf.sender addr)
      (hbase.hosts_eq ▸ hattr.outbound addr)
      (fun packet platform hinp => by
        obtain ⟨congested, sent, hsent, rfl⟩ := hctrl packet platform hinp
        exact (hpkts addr sent (hbase.perm.mem_iff.mpr (mem_append_left _ hsent))).mark congested)
      (hlink addr) (hbase.hosts_eq ▸ hhandle)
    rw [hnext, hsteps hbase]
    dsimp only
    omega
  | @receiver base arrived addr input host events hbase hnext hhandle hsame hinp =>
    have htaken := @copies_taking key numPkts _ _ _ hbase
    have hstep := @copies_receiver key numPkts _ setting base addr events host input
      (hbase.hosts_eq ▸ hsame) (hbase.hosts_eq ▸ hwf.receiver addr)
      (hbase.hosts_eq ▸ hattr.inbound addr)
      (fun packet heq => by
        obtain ⟨congested, sent, rfl, rfl, haddr⟩ := hinp packet heq
        have hmem := hbase.perm.mem_iff.mpr mem_cons_self
        exact ⟨(sent.mark_destination congested).trans haddr,
          (hpkts addr sent hmem).mark congested⟩)
      (hlink addr) (hbase.hosts_eq ▸ hhandle)
    -- the packet that the host looks at is off the wire
    have hlast : lastArrivals key numPkts input ≤ arrived.countP (carriesLast key numPkts) := by
      cases input with
      | packet packet =>
        obtain ⟨congested, sent, rfl, rfl, -⟩ := hinp packet rfl
        simp [lastArrivals, carriesLast, countP_cons]
      | creditTick => exact Nat.zero_le _
      | rtxExpire timer => exact Nat.zero_le _
    rw [hnext, hsteps hbase]
    dsimp only
    omega
  | discard hbase =>
    have htaken := @copies_taking key numPkts _ _ _ hbase
    rw [begins, hbase.log_eq, ← begins]
    omega

theorem begun_of_reachable (hreach : (machine setting).Reachable net) :
    net.Attributed setting (Begun net.log) ∧ net.Conserved setting := by
  apply hreach.invariant_of fun _ hst => hst
  · refine ⟨attributed_initial setting _, ?_⟩
    intro key numPkts _
    exact le_rfl
  · rintro state action next hprior ⟨hattr, hcons⟩ - hstep
    have hmove := step_eq_ok hstep
    have hwf := wellFormed_of_reachable hprior
    refine ⟨?_, conserved_stepped hwf hattr hcons hmove⟩
    have hwider := hattr.mono fun begun (hbegun : Begun state.log begun) =>
      hbegun.imp fun _ hmem => hmove.log_subset hmem
    apply attributed_stepped hwf hwider hmove
    intro addr key origin msgSizeBytes hmem
    exact ⟨addr, mem_of_mem_drop hmem⟩

/-- Every packet under way is of one kind. It belongs to a message that was begun, as do all stored
and pending messages, and its offsets lie in that message. -/
theorem attributed_of_reachable (hreach : (machine setting).Reachable net) :
    net.Attributed setting (Begun net.log) :=
  (begun_of_reachable hreach).1

theorem attributed_of_reachable_asked :
    let net := (machine (.uniform twoCredits)).after (fun _ _ => true) askedAgain initial
    net.inFlight.map (fun packet => (packet.hasFlag .resend, packet.homaHeader.pktOffset)) =
        [(true, 0)] ∧
      (net.hosts 2).recvScheduler.inboundMsgs.length = 1 ∧
      net.Attributed (.uniform twoCredits) (Begun net.log) :=
  ⟨by decide +kernel, by decide +kernel,
    attributed_of_reachable (ReachableUnder.after (fun _ _ _ => trivial) _ .init)⟩

theorem begun_eq {key : MsgKey} (hone : net.begins key ≤ 1) {first second : BegunMsg}
    (hfst : Begun net.log first) (hsnd : Begun net.log second) (hkey : first.key = key)
    (hsame : second.key = key) : first = second := by
  have hmem : ∀ addr (begun : BegunMsg),
      (addr, .msgBegin begun.key begun.origin begun.msgSizeBytes) ∈ net.log → begun.key = key →
      (addr, .msgBegin begun.key begun.origin begun.msgSizeBytes) ∈
        net.log.filter fun entry => isMsgBegin key entry.2 :=
    fun _ _ hbegun hmatch => mem_filter.mpr ⟨hbegun, decide_eq_true hmatch⟩
  obtain ⟨_, hfst⟩ := hfst
  obtain ⟨_, hsnd⟩ := hsnd
  have hhere := hmem _ _ hfst hkey
  have hthere := hmem _ _ hsnd hsame
  rw [begins, countP_eq_length_filter] at hone
  generalize net.log.filter _ = entries at hone hhere hthere
  match entries with
  | [] => cases hhere
  | [entry] =>
    have hent := (mem_singleton.mp hhere).trans (mem_singleton.mp hthere).symm
    injection hent with _ hev
    injection hev with hkeys horigins hsizes
    obtain ⟨_, _, _⟩ := first
    obtain ⟨_, _, _⟩ := second
    rw [BegunMsg.mk.injEq]
    exact ⟨hkeys, horigins, hsizes⟩
  | _ :: _ :: _ => simp at hone

theorem begun_unique {key : MsgKey} (hone : net.begins key = 1) {first second : BegunMsg}
    (hfst : Begun net.log first) (hsnd : Begun net.log second) (hkey : first.key = key)
    (hsame : second.key = key) : first.msgSizeBytes = second.msgSizeBytes :=
  congrArg BegunMsg.msgSizeBytes (begun_eq hone.le hfst hsnd hkey hsame)

/-- A message whose key the sender assigned once is handed up at most once, whatever is delayed,
reordered, lost or dropped by its receiver. -/
theorem forwardUp_at_most_once (hreachable : (machine setting).Reachable net)
    {key : MsgKey} (hone : net.begins key = 1) : net.deliveries key ≤ 1 := by
  obtain ⟨-, hconserved⟩ := begun_of_reachable hreachable
  -- the one message of the key fixes the number of packets
  have hsz : ∃ numPkts, ∀ begun, Begun net.log begun → begun.key = key →
      packetCount begun.msgSizeBytes setting.maxPayloadSize = numPkts := by
    by_cases hbegun : ∃ begun, Begun net.log begun ∧ begun.key = key
    · obtain ⟨first, hfst, hmatch⟩ := hbegun
      refine ⟨packetCount first.msgSizeBytes setting.maxPayloadSize, fun begun hbegun hkey => ?_⟩
      rw [begun_unique hone hbegun hfst hkey hmatch]
    · exact ⟨0, fun begun hbegins hkey => (hbegun ⟨begun, hbegins, hkey⟩).elim⟩
  obtain ⟨numPkts, hsz⟩ := hsz
  have hcopies := hconserved key numPkts hsz
  rw [hone] at hcopies
  exact (Nat.le_add_left _ _).trans hcopies

theorem forwardUp_at_most_once_resent :
    let net := (machine (.uniform twoCredits)).after (fun _ _ => true) sentAgain
      (machine (.uniform twoCredits)).init
    0 < net.deliveries ⟨1, 2, 5, 6, 0⟩ ∧ net.deliveries ⟨1, 2, 5, 6, 0⟩ ≤ 1 := by
  intro net
  have hreachable : (machine (.uniform twoCredits)).Reachable net :=
    ReachableUnder.after (fun _ _ _ => trivial) _ .init
  exact ⟨by decide +kernel, forwardUp_at_most_once hreachable (by decide +kernel)⟩

end Network

end HomaSird.Homa
