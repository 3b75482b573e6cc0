import HomaSird.Homa.Provenance

/-! # Message ids and their reuse

A sender hands its message ids out again, and the packets of an earlier message differ from those
of a later one in nothing but the 4-tuple. As long as nothing of the earlier one is left by then,
every packet reaches the message it was made for.
-/

namespace HomaSird.Homa

open Transition Transition.Machine HomaSendScheduler HomaL4Protocol

abbrev Owner := Ipv4Address → Nat → Option BegunMsg

def Owned (owner : Owner) (msg : BegunMsg) : Prop :=
  owner msg.key.saddr msg.key.txMsgId = some msg

variable {owner : Owner} {known : BegunMsg → Prop} {cfg : Config}

theorem Owned.unique {first second : BegunMsg} (hfst : Owned owner first)
    (hsnd : Owned owner second) (hsaddr : first.key.saddr = second.key.saddr)
    (hid : first.key.txMsgId = second.key.txMsgId) : first = second := by
  rw [Owned, hsaddr, hid, hsnd] at hfst
  exact (Option.some.inj hfst).symm

def assign (owner : Owner) (msg : BegunMsg) : Owner :=
  Function.update owner msg.key.saddr
    (Function.update (owner msg.key.saddr) msg.key.txMsgId (some msg))

theorem owned_assign_self (owner : Owner) (msg : BegunMsg) : Owned (assign owner msg) msg := by
  rw [Owned, assign, Function.update_self, Function.update_self]

theorem owned_assign_of_ne {msg other : BegunMsg} (howned : Owned owner other)
    (hne : other.key.saddr = msg.key.saddr → other.key.txMsgId ≠ msg.key.txMsgId) :
    Owned (assign owner msg) other := by
  rw [Owned, assign]
  by_cases hsaddr : other.key.saddr = msg.key.saddr
  · rw [hsaddr, Function.update_self, Function.update_of_ne (hne hsaddr), ← hsaddr]
    exact howned
  · rw [Function.update_of_ne hsaddr]
    exact howned

/-! ## Packets that reach their message are applied -/

namespace HomaSendScheduler

open HomaOutboundMsg

variable {sched : HomaSendScheduler}

theorem ctrlPktRecvd_isOk (hwf : sched.WellFormed cfg) {packet : Packet} (platform : Platform)
    (hpkt : packet.Attributed known cfg.maxPayloadSize)
    (hmatch : ∀ msg, sched.outboundMsgs.lookup packet.homaHeader.txMsgId = some msg →
      msg.begunMsg packet.homaHeader.txMsgId = packet.ctrlMsg) :
    ∃ outcome, sched.ctrlPktRecvdForOutboundMsg cfg platform packet = .ok outcome := by
  unfold ctrlPktRecvdForOutboundMsg
  dsimp only
  split
  · exact ⟨_, rfl⟩
  next msg hlook =>
    have hsound := hwf.sound _ msg hlook
    have hbegun := hmatch msg hlook
    have hkey : msg.key packet.homaHeader.txMsgId = packet.ctrlKey := congrArg BegunMsg.key hbegun
    have hsz : msg.getMsgSizePkts =
        packetCount packet.homaHeader.msgSizeBytes cfg.maxPayloadSize := by
      rw [hsound.getMsgSizePkts_eq]
      exact congrArg (fun begun => packetCount begun.msgSizeBytes cfg.maxPayloadSize) hbegun
    have hgrants : packet.homaHeader.grantOffset < msg.getMsgSizePkts →
        ∃ granted, msg.handleGrantOffset cfg packet.homaHeader = .ok granted := by
      intro hgrant
      rw [handleGrantOffset, if_pos hgrant]
      exact ⟨_, rfl⟩
    rw [if_neg (by simp [hsound.unexpired]), if_pos hkey]
    unfold applyCtrlPkt
    have hflags : ∀ flag, packet.homaHeader.hasFlag flag = packet.hasFlag flag := fun _ => rfl
    cases hpkt with
    | data hflag => simp [hflags, hflag]
    | grant hflag _ hgrant =>
      obtain ⟨granted, hok⟩ := hgrants (hsz ▸ hgrant)
      simp [hflags, hflag, hok, bind, Except.bind]
    | resend hflag _ _ hgrant =>
      obtain ⟨granted, hok⟩ := hgrants (hsz ▸ hgrant)
      have hbelow : packet.homaHeader.grantOffset < granted.getMsgSizePkts := by
        rw [(handleGrantOffset_eq_ok hok).1.getMsgSizePkts_eq, hsz]
        exact hgrant
      simp [hflags, hflag, hok, handleResend, hbelow, bind, Except.bind]
    | ack hflag _ hoff =>
      simp [hflags, hflag, handleAck, hsz, hoff, bind, Except.bind]
    | busy hflag => simp [hflags, hflag]

end HomaSendScheduler

namespace HomaRecvScheduler

open HomaInboundMsg

variable {sched : HomaRecvScheduler}

theorem receiveDataPacket_isOk {msg : HomaInboundMsg} (payload : Payload) {pktOffset : Nat}
    (hoff : pktOffset < msg.receivedPackets.length) :
    ∃ received, msg.receiveDataPacket cfg payload pktOffset = .ok received := by
  unfold HomaInboundMsg.receiveDataPacket
  rw [List.getElem?_eq_getElem hoff]
  split
  · exact ⟨_, rfl⟩
  · cases msg.receivedPackets[pktOffset] with
    | true => exact ⟨_, rfl⟩
    | false => exact ⟨_, rfl⟩

theorem takeData_isOk {packet : Packet}
    (hpend : ∀ msg ∈ sched.inboundMsgs,
      msg.key = packet.key → packet.homaHeader.pktOffset < msg.receivedPackets.length)
    (hfresh :
      packet.homaHeader.pktOffset < packetCount packet.homaHeader.msgSizeBytes cfg.maxPayloadSize) :
    ∃ outcome, sched.takeData cfg packet = .ok outcome := by
  unfold takeData
  split
  next msgIdx hfound =>
    obtain ⟨hlt, hkey, _⟩ := List.findIdx?_eq_some_iff_getElem.mp hfound
    have hmem := List.getElem_mem hlt
    obtain ⟨received, hok⟩ := @receiveDataPacket_isOk cfg _ packet.payload _
      (hpend _ hmem (by simpa using hkey))
    rw [List.getElem?_eq_getElem hlt]
    simp [hok, bind, Except.bind]
  · have hcreate : ∃ created, HomaInboundMsg.create cfg packet = .ok created := by
      have hlen : (blank cfg packet).receivedPackets.length =
          packetCount packet.homaHeader.msgSizeBytes cfg.maxPayloadSize := List.length_replicate
      unfold HomaInboundMsg.create
      dsimp only
      have hoff : packet.homaHeader.pktOffset < (blank cfg packet).receivedPackets.length :=
        hlen ▸ hfresh
      rw [if_pos hoff]
      split
      · exact ⟨_, rfl⟩
      · exact ⟨_, rfl⟩
    obtain ⟨created, hok⟩ := hcreate
    simp [hok, bind, Except.bind]

theorem receivePacket_isOk {packet : Packet}
    (hpend : packet.hasFlag .data = true →
      ∀ msg ∈ sched.inboundMsgs,
        msg.key = packet.key → packet.homaHeader.pktOffset < msg.receivedPackets.length)
    (hfresh : packet.hasFlag .data = true →
      packet.homaHeader.pktOffset < packetCount packet.homaHeader.msgSizeBytes cfg.maxPayloadSize) :
    ∃ outcome, sched.receivePacket cfg packet = .ok outcome := by
  unfold receivePacket
  dsimp only
  split
  next hdata =>
    rw [with_fedSird]
    obtain ⟨outcome, hok⟩ := @takeData_isOk cfg
      { sched with sird := sched.fedSird cfg packet } packet (hpend hdata) (hfresh hdata)
    simp [receiveDataPacket, hok, bind, Except.bind]
  · split
    · exact ⟨_, rfl⟩
    · exact ⟨_, rfl⟩

end HomaRecvScheduler

/-! ## The network -/

namespace Network

variable {setting : Setting} {net next : Network}

/-- Nothing is left under an id of a sender: no packet under way but BUSY, no pending inbound
message. -/
structure IdUnused (net : Network) (addr : Ipv4Address) (txMsgId : Nat) : Prop where
  inFlight : ∀ packet ∈ net.inFlight, packet.hasFlag .busy = false →
    packet.msgKey.saddr = addr → packet.msgKey.txMsgId ≠ txMsgId
  inbound : ∀ host, ∀ msg ∈ (net.hosts host).recvScheduler.inboundMsgs,
    msg.key.saddr = addr → msg.key.txMsgId ≠ txMsgId

/-- A sender is asked to send only when nothing is left of the last message with the id at the head
of its list. -/
def IdsFresh (net : Network) : Action → Prop
  | .host addr (.send ..) =>
    ∀ txMsgId ∈ (net.hosts addr).sendScheduler.txMsgIdFreeList.head?,
      net.IdUnused addr txMsgId
  | _ => True

theorem attributed_assign {begun : BegunMsg} (hattr : net.Attributed setting (Owned owner))
    (hwf : (net.hosts begun.key.saddr).sendScheduler.WellFormed (setting.config begun.key.saddr))
    (hfree : begun.key.txMsgId ∈ (net.hosts begun.key.saddr).sendScheduler.txMsgIdFreeList)
    (hunused : net.IdUnused begun.key.saddr begun.key.txMsgId) :
    net.Attributed setting (Owned (assign owner begun)) := by
  refine ⟨fun addr txMsgId msg hlook => ?_, fun addr msg hmem => ?_, fun packet hmem => ?_⟩
  · obtain ⟨hsaddr, howned⟩ := hattr.outbound addr txMsgId msg hlook
    refine ⟨hsaddr, owned_assign_of_ne howned fun hsame hid => ?_⟩
    -- a stored message has an id that is not free
    have haddr : begun.key.saddr = addr := hsame.symm.trans hsaddr
    have hid : txMsgId = begun.key.txMsgId := hid
    rw [haddr, ← hid] at hfree
    have hnone := (haddr ▸ hwf).free_unused txMsgId hfree
    rw [hlook] at hnone
    cases hnone
  · obtain ⟨hdaddr, howned⟩ := hattr.inbound addr msg hmem
    exact ⟨hdaddr, owned_assign_of_ne howned (hunused.inbound addr msg hmem)⟩
  · apply (hattr.inFlight packet hmem).keep
    intro hbusy msg hkey howned
    exact owned_assign_of_ne howned (hkey ▸ hunused.inFlight packet hmem hbusy)

theorem owned_of_reachable (hreach : (machine setting).ReachableUnder IdsFresh net) :
    ∃ owner, net.Attributed setting (Owned owner) := by
  apply hreach.invariant_of fun _ hst => hst
  · exact ⟨fun _ _ => none, attributed_initial setting _⟩
  · rintro state action next hprior ⟨owner, hattr⟩ hfresh hstep
    have hmove := step_eq_ok hstep
    have hwf := wellFormed_of_reachable hprior
    by_cases hbegun : ∃ addr key origin msgSizeBytes,
        (addr, .msgBegin key origin msgSizeBytes) ∈ next.log.drop state.log.length
    · obtain ⟨addr, key, origin, msgSizeBytes, hmem⟩ := hbegun
      obtain ⟨⟨_, _, _, _, rfl⟩, rfl, ⟨rest, hfree⟩, hdrop⟩ :=
        begun_of_stepped hwf hmove hmem
      have hunused := hfresh key.txMsgId (by rw [hfree]; rfl)
      refine ⟨assign owner ⟨key, origin, msgSizeBytes⟩, ?_⟩
      have hassigned := @attributed_assign owner setting state
        ⟨key, origin, msgSizeBytes⟩ hattr (hwf.sender _) (hfree ▸ List.mem_cons_self) hunused
      apply attributed_stepped hwf hassigned hmove
      intro other otherKey otherOrigin otherSize hother
      rw [hdrop, List.mem_singleton] at hother
      obtain ⟨-, hev⟩ := Prod.mk.inj hother
      injection hev with hkey horigin hsz
      subst hkey horigin hsz
      exact owned_assign_self owner _
    · refine ⟨owner, attributed_stepped hwf hattr hmove ?_⟩
      intro addr key origin msgSizeBytes hmem
      exact (hbegun ⟨addr, key, origin, msgSizeBytes, hmem⟩).elim

variable {packet : Packet}

theorem begunMsg_of_lookup (hattr : net.Attributed setting (Owned owner))
    (hctrl : Owned owner packet.ctrlMsg) {msg : HomaOutboundMsg}
    (hlook :
      (net.hosts packet.ipv4Header.destination).sendScheduler.outboundMsgs.lookup
        packet.homaHeader.txMsgId = some msg) :
    msg.begunMsg packet.homaHeader.txMsgId = packet.ctrlMsg := by
  obtain ⟨hsaddr, howned⟩ := hattr.outbound _ _ _ hlook
  exact howned.unique hctrl hsaddr rfl

theorem begunMsg_of_pending (hattr : net.Attributed setting (Owned owner))
    (hdata : Owned owner packet.dataMsg) {addr : Ipv4Address}
    {msg : HomaInboundMsg} (hmem : msg ∈ (net.hosts addr).recvScheduler.inboundMsgs)
    (hkey : msg.key = packet.key) : msg.begunMsg = packet.dataMsg :=
  (hattr.inbound addr msg hmem).2.unique hdata (congrArg MsgKey.saddr hkey)
    (congrArg MsgKey.txMsgId hkey)

theorem known_ctrlMsg {maxPayloadSize : Nat}
    (hattr : packet.Attributed known maxPayloadSize) (hdata : packet.hasFlag .data = false)
    (hbusy : packet.hasFlag .busy = false) : known packet.ctrlMsg := by
  cases hattr with
  | data hflag => simp [hflag] at hdata
  | grant _ hknown => exact hknown
  | resend _ hknown => exact hknown
  | ack _ hknown => exact hknown
  | busy hflag => simp [hflag] at hbusy

theorem pktOffset_lt_of_pending (hattr : net.Attributed setting (Owned owner))
    (hrecvs : ∀ addr, (net.hosts addr).recvScheduler.WellFormed (setting.config addr))
    (hpkt : packet.Attributed (Owned owner) setting.maxPayloadSize)
    (hdata : packet.hasFlag .data = true) {addr : Ipv4Address} {msg : HomaInboundMsg}
    (hmem : msg ∈ (net.hosts addr).recvScheduler.inboundMsgs) (hkey : msg.key = packet.key) :
    packet.homaHeader.pktOffset < msg.msgSizePkts := by
  obtain ⟨howned, hoff⟩ := hpkt.of_data hdata
  have hbegun := begunMsg_of_pending hattr howned hmem hkey
  have hbytes : msg.msgSizeBytes = packet.homaHeader.msgSizeBytes :=
    congrArg BegunMsg.msgSizeBytes hbegun
  rw [((hrecvs addr).sound msg hmem).size_eq, setting.config_maxPayloadSize, hbytes]
  exact hoff

theorem deliver_fault (hattr : net.Attributed setting (Owned owner))
    (hsend : ∀ addr, (net.hosts addr).sendScheduler.WellFormed (setting.config addr))
    (hrecvs : ∀ addr, (net.hosts addr).recvScheduler.WellFormed (setting.config addr)) {index : Nat}
    {congested : Bool} {platform : Platform} {fault : Fault}
    (hfail : step setting net (.deliver index congested platform) = .error fault) :
    fault = .notPending ∨ fault = .traversal ∨ fault = .payloadSize := by
  simp only [step] at hfail
  split at hfail
  · exact Or.inl (Except.error.inj hfail).symm
  next packet hpkt =>
    have hmem := List.mem_of_getElem? hpkt
    have hpacketAttr := hattr.inFlight packet hmem
    have hmark : (packet.mark congested).Attributed (Owned owner)
        (setting.config packet.ipv4Header.destination).maxPayloadSize := by
      rw [setting.config_maxPayloadSize]
      exact hpacketAttr.mark congested
    have hreceive := bind_eq_error (fun _ => ⟨_, rfl⟩) hfail
    simp only [receive, Packet.mark_hasFlag] at hreceive
    split at hreceive
    · have hhandle := bind_eq_error (fun _ => ⟨_, rfl⟩) hreceive
      simp only [HomaRecvScheduler.handle] at hhandle
      split at hhandle
      · -- the packet stays inside the buffer of its message
        obtain ⟨outcome, hok⟩ := @HomaRecvScheduler.receivePacket_isOk
          (setting.config packet.ipv4Header.destination)
          (net.hosts packet.ipv4Header.destination).recvScheduler (packet.mark congested)
          (fun hdata msg hmem hkey => by
            rw [((hrecvs _).sound msg hmem).length_eq, Packet.mark_homaHeader]
            exact pktOffset_lt_of_pending hattr hrecvs hpacketAttr
              (by simpa using hdata) hmem (by simpa using hkey))
          (fun hdata => (hmark.of_data hdata).2)
        rw [hok] at hhandle
        cases hhandle
      · exact Or.inr (Or.inr (Except.error.inj hhandle).symm)
    next hnone =>
      obtain ⟨hdata, hbusy⟩ := Bool.or_eq_false_iff.mp (Bool.eq_false_iff.mpr hnone)
      split at hreceive
      · have hhandle := bind_eq_error (fun _ => ⟨_, rfl⟩) hreceive
        simp only [handle] at hhandle
        split at hhandle
        · split at hhandle
          · have hrecv := bind_eq_error (fun _ => ⟨_, rfl⟩) hhandle
            obtain ⟨outcome, hok⟩ := ctrlPktRecvd_isOk (hsend _) platform
              hmark fun msg hlook => by
                have howned := known_ctrlMsg hpacketAttr hdata hbusy
                rw [Packet.mark_homaHeader] at hlook ⊢
                have hbegun := begunMsg_of_lookup hattr howned hlook
                have hctrl : (packet.mark congested).ctrlMsg = packet.ctrlMsg := by
                  simp [Packet.ctrlMsg]
                rw [hctrl]
                exact hbegun
            rw [hok] at hrecv
            cases hrecv
          · exact Or.inr (Or.inl (Except.error.inj hhandle).symm)
        · exact Or.inr (Or.inr (Except.error.inj hhandle).symm)
      · cases hreceive

def isSend : Action → Bool
  | .host _ (.send ..) => true
  | _ => false

theorem idsFresh_after (first : Action) (inputs : List Action) :
    (machine setting).ReachableUnder IdsFresh
      ((machine setting).after (fun _ action => !isSend action) inputs
        ((machine setting).after (fun _ _ => true) [first] (machine setting).init)) := by
  have hfst : IdsFresh initial first := by
    cases first with
    | host _ input =>
      cases input with
      | send => exact fun _ _ => ⟨by rintro _ ⟨⟩, by rintro _ _ ⟨⟩⟩
      | _ => trivial
    | _ => trivial
  apply ReachableUnder.after
  · intro state action hcheck
    cases action with
    | host _ input =>
      cases input with
      | send => cases hcheck
      | _ => trivial
    | _ => trivial
  · simp only [Machine.after, if_true]
    split
    next _ hstep => exact .step .init hfst hstep
    · exact .init

def shortWindow : Config :=
  { Config.oneByte with rttPackets := 2, rttPackets_lt := (by decide : 2 < 65536) }

def sendGranted : Action := .host 1 (.send [1, 2, 3, 4] 2 5 6)

def granting : List Action :=
  [.host 1 (.txDataPacket true [0]), .host 1 (.txDataPacket true [0]),
    .deliver 0 false ⟨[], 0⟩, .host 2 .creditTick, .deliver 0 false ⟨[], 0⟩, .host 2 .creditTick]

/-- In a run of fresh ids, a GRANT, RESEND or ACK that finds a message under its id finds its own
4-tuple, serial number and packet count; DATA of a pending key finds its message and lies inside
it; and no delivery fails an assertion about them. -/
theorem applied_to_own_message (hreachable : (machine setting).ReachableUnder IdsFresh net) :
    (∀ packet ∈ net.inFlight,
      packet.hasFlag .data = false → packet.hasFlag .busy = false →
        ∀ msg,
          (net.hosts packet.ipv4Header.destination).sendScheduler.outboundMsgs.lookup
            packet.homaHeader.txMsgId = some msg →
            msg.key packet.homaHeader.txMsgId = packet.ctrlKey ∧ msg.origin = packet.origin ∧
              msg.getMsgSizePkts =
                packetCount packet.homaHeader.msgSizeBytes setting.maxPayloadSize) ∧
      (∀ packet ∈ net.inFlight,
        packet.hasFlag .data = true →
          ∀ msg ∈ (net.hosts packet.ipv4Header.destination).recvScheduler.inboundMsgs,
            msg.key = packet.key →
              msg.origin = packet.origin ∧ packet.homaHeader.pktOffset < msg.msgSizePkts) ∧
      ∀ index congested platform fault,
        step setting net (.deliver index congested platform) = .error fault →
          fault = .notPending ∨ fault = .traversal ∨ fault = .payloadSize := by
  obtain ⟨owner, hattr⟩ := owned_of_reachable hreachable
  have hsenders := fun addr => sender_wellFormed addr hreachable
  have hreceivers := fun addr => receiver_wellFormed addr hreachable
  refine ⟨?_, ?_, ?_⟩
  · intro packet hmem hdata hbusy msg hlook
    have howned := known_ctrlMsg (hattr.inFlight packet hmem) hdata hbusy
    have hbegun := begunMsg_of_lookup hattr howned hlook
    have hbytes : msg.msgSizeBytes = packet.homaHeader.msgSizeBytes :=
      congrArg BegunMsg.msgSizeBytes hbegun
    refine ⟨congrArg BegunMsg.key hbegun, congrArg BegunMsg.origin hbegun, ?_⟩
    rw [((hsenders _).sound _ _ hlook).getMsgSizePkts_eq, setting.config_maxPayloadSize, hbytes]
  · intro packet hmem hdata msg hpending hkey
    have hpkt := hattr.inFlight packet hmem
    have hbegun := begunMsg_of_pending hattr (hpkt.of_data hdata).1 hpending hkey
    exact ⟨congrArg BegunMsg.origin hbegun,
      pktOffset_lt_of_pending hattr hreceivers hpkt hdata hpending hkey⟩
  · intro index congested platform fault hfail
    exact deliver_fault hattr hsenders hreceivers hfail

theorem applied_to_own_message_granted :
    let net := (machine (.uniform shortWindow)).after (fun _ action => !isSend action) granting
      ((machine (.uniform shortWindow)).after (fun _ _ => true) [sendGranted]
        (machine (.uniform shortWindow)).init)
    net.inFlight.countP (fun packet => packet.hasFlag .grant &&
      ((net.hosts packet.ipv4Header.destination).sendScheduler.outboundMsgs.lookup
        packet.homaHeader.txMsgId).isSome) = 2 ∧
    ∀ packet ∈ net.inFlight, packet.hasFlag .data = false → packet.hasFlag .busy = false →
      ∀ msg, (net.hosts packet.ipv4Header.destination).sendScheduler.outboundMsgs.lookup
        packet.homaHeader.txMsgId = some msg →
        msg.key packet.homaHeader.txMsgId = packet.ctrlKey := by
  intro net
  refine ⟨by decide +kernel, fun packet hmem hdata hbusy msg hlook => ?_⟩
  have hreachable : (machine (.uniform shortWindow)).ReachableUnder IdsFresh net :=
    idsFresh_after sendGranted granting
  obtain ⟨hctrl, -⟩ := applied_to_own_message hreachable
  exact (hctrl packet hmem hdata hbusy msg hlook).1

/-! ## An id that is handed out again too early -/

def completing : List Action :=
  [.deliver 1 false ⟨[0], 0⟩, .host 1 (.txDataPacket true [0]), .host 1 (.txDataPacket true [0]),
    .deliver 1 false ⟨[], 0⟩, .deliver 1 false ⟨[], 0⟩, .deliver 1 false ⟨[0], 0⟩]

def staleGrant : Network :=
  (machine (.uniform shortWindow)).after
    (fun _ action => match action with
      | .lose _ => false
      | _ => true)
    (sendGranted :: granting ++ completing) (machine (.uniform shortWindow)).init

theorem lossless_staleGrant :
    (machine (.uniform shortWindow)).ReachableUnder Lossless staleGrant := by
  apply ReachableUnder.after _ _ .init
  rintro state action hcheck index rfl
  cases hcheck

theorem send_byte {txMsgId : Nat} {rest : List Nat}
    (hnet : (machine (.uniform shortWindow)).ReachableUnder Lossless net)
    (hfree : (net.hosts 1).sendScheduler.txMsgIdFreeList = txMsgId :: rest) :
    ∃ next msg,
      (machine (.uniform shortWindow)).ReachableUnder Lossless next ∧ next.inFlight = net.inFlight ∧
        (next.hosts 1).sendScheduler.txMsgIdFreeList = rest ∧
        (next.hosts 1).sendScheduler.outboundMsgs.lookup txMsgId = some msg ∧
        msg.isExpired = false ∧ msg.key txMsgId = ⟨1, 2, 5, 7, txMsgId⟩ := by
  obtain ⟨msg, hcreate⟩ : ∃ msg,
      HomaOutboundMsg.create shortWindow [9] 1 2 5 7 (net.hosts 1).nextOrigin = .ok msg := ⟨_, rfl⟩
  have hmade := HomaOutboundMsg.create_eq_ok hcreate
  have hsend : ∃ sched events, (net.hosts 1).sendScheduler.handle shortWindow
      (.send [9] 1 2 5 7 (net.hosts 1).nextOrigin) = .ok (sched, events) ∧
      sentPackets events = [] ∧ sched.txMsgIdFreeList = rest ∧
      sched.outboundMsgs.lookup txMsgId = some msg := by
    simp [handle, send, hcreate, scheduleNewMsg, hfree, sentPackets, bind, Except.bind]
  obtain ⟨sched, events, hhandle, hsent, hrest, hlook⟩ := hsend
  let next := net.update 1
    (⟨sched, (net.hosts 1).recvScheduler, (net.hosts 1).nextOrigin + 1⟩, events)
  have hstep : (machine (.uniform shortWindow)).step net (.host 1 (.send [9] 2 5 7)) =
      .ok next := by
    have hcfg : (Setting.uniform shortWindow).config 1 = shortWindow := rfl
    simp [machine, step, act, runSender, hcfg, hhandle, next, bind, Except.bind]
  refine ⟨next, msg, hnet.step (by rintro _ ⟨⟩) hstep, ?_, ?_, ?_, hmade.sound.unexpired,
    hmade.key_eq txMsgId⟩
  · simp [next, update, hsent]
  · simpa [next] using hrest
  · simpa [next] using hlook

theorem send_bytes (ids : List Nat) {rest : List Nat}
    (hnet : (machine (.uniform shortWindow)).ReachableUnder Lossless net)
    (hfree : (net.hosts 1).sendScheduler.txMsgIdFreeList = ids ++ rest) :
    ∃ next,
      (machine (.uniform shortWindow)).ReachableUnder Lossless next ∧ next.inFlight = net.inFlight ∧
        (next.hosts 1).sendScheduler.txMsgIdFreeList = rest := by
  induction ids generalizing net with
  | nil => exact ⟨net, hnet, rfl, hfree⟩
  | cons txMsgId ids ih =>
    obtain ⟨next, _, hnext, hinFlight, hrest, -⟩ := send_byte hnet hfree
    obtain ⟨last, hlast, hsame, hleft⟩ := ih hnext hrest
    exact ⟨last, hlast, hsame.trans hinFlight, hleft⟩

theorem deliver_fourTuple {msg : HomaOutboundMsg} (hpkt : net.inFlight[0]? = some packet)
    (hgrant : packet.homaHeader.flags = Flag.grant.mask)
    (hload : packet.payload.length = packet.homaHeader.payloadSize)
    (hlook :
      (net.hosts packet.ipv4Header.destination).sendScheduler.outboundMsgs.lookup
        packet.homaHeader.txMsgId = some msg) (hlive : msg.isExpired = false)
    (hkey : msg.key packet.homaHeader.txMsgId ≠ packet.ctrlKey) :
    ∃ platform, step setting net (.deliver 0 false platform) = .error .fourTuple := by
  let sched := (net.hosts packet.ipv4Header.destination).sendScheduler
  let platform : Platform := ⟨sched.outboundMsgs.keys, 0⟩
  have hflags : ∀ flag, packet.hasFlag flag = decide (flag = .grant) := by
    intro flag
    rw [Packet.hasFlag, HomaHeader.hasFlag, hgrant]
    cases flag <;> decide
  have hrecv : sched.ctrlPktRecvdForOutboundMsg (setting.config packet.ipv4Header.destination)
      platform (packet.mark false) = .error .fourTuple := by
    have hfound : sched.outboundMsgs.lookup packet.homaHeader.txMsgId = some msg := hlook
    unfold ctrlPktRecvdForOutboundMsg
    rw [Packet.mark_homaHeader, Packet.mark_ctrlKey]
    dsimp only
    rw [hfound]
    simp [hlive, hkey]
  refine ⟨platform, ?_⟩
  simp [step, hpkt, receive, hflags, runSender,
    handle, hload, isTraversal, platform, hrecv, sched, bind,
    Except.bind]

theorem recycled_id_fails :
    ∃ net platform,
      (machine (.uniform shortWindow)).ReachableUnder Lossless net ∧
        step (.uniform shortWindow) net (.deliver 0 false platform) = .error .fourTuple := by
  have hlast : (staleGrant.hosts 1).sendScheduler.txMsgIdFreeList.getLast? = some 0 := by
    decide +kernel
  obtain ⟨ids, hfree⟩ := List.getLast?_eq_some_iff.mp hlast
  obtain ⟨used, hused, hsame, hzero⟩ := send_bytes ids lossless_staleGrant hfree
  obtain ⟨net, msg, hnet, hinFlight, -, hlook, hlive, hkey⟩ := send_byte hused hzero
  have hgrants : staleGrant.inFlight.map (fun packet => (packet.ipv4Header.destination,
      packet.homaHeader.flags, packet.homaHeader.payloadSize, packet.payload.length,
      packet.ctrlKey)) = [(1, Flag.grant.mask, 0, 0, ⟨1, 2, 5, 6, 0⟩)] := by
    decide +kernel
  rw [← hsame, ← hinFlight] at hgrants
  obtain ⟨packet, hpackets, hpkt⟩ := List.map_eq_singleton_iff.mp hgrants
  simp only [Prod.mk.injEq] at hpkt
  obtain ⟨hdestination, hflags, hsz, hpayload, hctrl⟩ := hpkt
  have hid : packet.homaHeader.txMsgId = 0 := congrArg MsgKey.txMsgId hctrl
  obtain ⟨platform, hfails⟩ := @deliver_fourTuple (.uniform shortWindow) net packet msg
    (by rw [hpackets]; rfl) hflags (hpayload.trans hsz.symm)
    (by rw [hdestination, hid]; exact hlook) hlive (by rw [hid, hkey, hctrl]; decide)
  exact ⟨net, platform, hnet, hfails⟩

end Network

end HomaSird.Homa
