import HomaSird.Homa.NetworkStep

/-! # Which message a packet belongs to

Every packet under way, every outbound and every inbound message goes back to a message that a
sender accepted: it has the key, the serial number and the size of that message, and its offsets
are offsets of it.
-/

namespace HomaSird.Homa

open Transition Transition.Machine List

structure BegunMsg where
  key : MsgKey
  origin : Nat
  msgSizeBytes : Nat

def HomaOutboundMsg.begunMsg (msg : HomaOutboundMsg) (txMsgId : Nat) : BegunMsg :=
  ⟨msg.key txMsgId, msg.origin, msg.msgSizeBytes⟩

def HomaInboundMsg.begunMsg (msg : HomaInboundMsg) : BegunMsg :=
  ⟨msg.key, msg.origin, msg.msgSizeBytes⟩

namespace Packet

def dataMsg (packet : Packet) : BegunMsg :=
  ⟨packet.key, packet.origin, packet.homaHeader.msgSizeBytes⟩

/-- The message a control packet of a receiver claims to speak about. -/
def ctrlMsg (packet : Packet) : BegunMsg :=
  ⟨packet.ctrlKey, packet.origin, packet.homaHeader.msgSizeBytes⟩

/-- A packet of one of the five kinds whose message is known, with offsets of that message. -/
inductive Attributed (known : BegunMsg → Prop) (maxPayloadSize : Nat) (packet : Packet) :
    Prop where
  | data (hflag : ∀ flag, packet.hasFlag flag = decide (Flag.data = flag))
      (hknown : known packet.dataMsg)
      (hoff : packet.homaHeader.pktOffset <
        packetCount packet.homaHeader.msgSizeBytes maxPayloadSize)
  | grant (hflag : ∀ flag, packet.hasFlag flag = decide (Flag.grant = flag))
      (hknown : known packet.ctrlMsg)
      (hgrant : packet.homaHeader.grantOffset <
        packetCount packet.homaHeader.msgSizeBytes maxPayloadSize)
  | resend (hflag : ∀ flag, packet.hasFlag flag = decide (Flag.resend = flag))
      (hknown : known packet.ctrlMsg)
      (hoff : packet.homaHeader.pktOffset < packet.homaHeader.grantOffset)
      (hgrant : packet.homaHeader.grantOffset <
        packetCount packet.homaHeader.msgSizeBytes maxPayloadSize)
  | ack (hflag : ∀ flag, packet.hasFlag flag = decide (Flag.ack = flag))
      (hknown : known packet.ctrlMsg)
      (hoff : packet.homaHeader.pktOffset =
        packetCount packet.homaHeader.msgSizeBytes maxPayloadSize)
  | busy (hflag : ∀ flag, packet.hasFlag flag = decide (Flag.busy = flag))

variable {known wider : BegunMsg → Prop} {maxPayloadSize : Nat} {packet : Packet}

def msgKey (packet : Packet) : MsgKey :=
  if packet.hasFlag .data then packet.key else packet.ctrlKey

section

variable (hattr : packet.Attributed known maxPayloadSize)
include hattr

theorem Attributed.keep (hkeep : packet.hasFlag .busy = false → ∀ msg, msg.key = packet.msgKey →
    known msg → wider msg) : packet.Attributed wider maxPayloadSize := by
  cases hattr with
  | data hflag hknown hoff =>
    have hkey : packet.dataMsg.key = packet.msgKey := by simp [msgKey, dataMsg, hflag]
    exact .data hflag (hkeep (by simp [hflag]) _ hkey hknown) hoff
  | grant hflag hknown hgrant =>
    have hkey : packet.ctrlMsg.key = packet.msgKey := by simp [msgKey, ctrlMsg, hflag]
    exact .grant hflag (hkeep (by simp [hflag]) _ hkey hknown) hgrant
  | resend hflag hknown hoff hgrant =>
    have hkey : packet.ctrlMsg.key = packet.msgKey := by simp [msgKey, ctrlMsg, hflag]
    exact .resend hflag (hkeep (by simp [hflag]) _ hkey hknown) hoff hgrant
  | ack hflag hknown hoff =>
    have hkey : packet.ctrlMsg.key = packet.msgKey := by simp [msgKey, ctrlMsg, hflag]
    exact .ack hflag (hkeep (by simp [hflag]) _ hkey hknown) hoff
  | busy hflag => exact .busy hflag

theorem Attributed.mark
    (congested : Bool) : (packet.mark congested).Attributed known maxPayloadSize := by
  have hdata : (packet.mark congested).dataMsg = packet.dataMsg := by simp [dataMsg]
  have hctrl : (packet.mark congested).ctrlMsg = packet.ctrlMsg := by simp [ctrlMsg]
  have hheader := packet.mark_homaHeader congested
  have hmark := packet.mark_hasFlag congested
  cases hattr with
  | data hflag hknown hoff =>
    exact .data (fun flag => (hmark flag).trans (hflag flag)) (hdata ▸ hknown) (hheader ▸ hoff)
  | grant hflag hknown hgrant =>
    exact .grant (fun flag => (hmark flag).trans (hflag flag)) (hctrl ▸ hknown) (hheader ▸ hgrant)
  | resend hflag hknown hoff hgrant =>
    exact .resend (fun flag => (hmark flag).trans (hflag flag)) (hctrl ▸ hknown)
      (hheader ▸ hoff) (hheader ▸ hgrant)
  | ack hflag hknown hoff =>
    exact .ack (fun flag => (hmark flag).trans (hflag flag)) (hctrl ▸ hknown)
      (hheader ▸ hoff)
  | busy hflag => exact .busy fun flag => (hmark flag).trans (hflag flag)

theorem Attributed.of_data (hdata : packet.hasFlag .data = true) :
    known packet.dataMsg ∧
      packet.homaHeader.pktOffset < packetCount packet.homaHeader.msgSizeBytes maxPayloadSize := by
  cases hattr with
  | data _ hknown hoff => exact ⟨hknown, hoff⟩
  | grant hflag => simp [hflag] at hdata
  | resend hflag => simp [hflag] at hdata
  | ack hflag => simp [hflag] at hdata
  | busy hflag => simp [hflag] at hdata

theorem Attributed.of_resend (hresend : packet.hasFlag .resend = true) :
    known packet.ctrlMsg ∧ packet.homaHeader.pktOffset < packet.homaHeader.grantOffset ∧
    packet.homaHeader.grantOffset < packetCount packet.homaHeader.msgSizeBytes maxPayloadSize := by
  cases hattr with
  | data hflag => simp [hflag] at hresend
  | grant hflag => simp [hflag] at hresend
  | resend _ hknown hoff hgrant => exact ⟨hknown, hoff, hgrant⟩
  | ack hflag => simp [hflag] at hresend
  | busy hflag => simp [hflag] at hresend

end

end Packet

variable {known : BegunMsg → Prop} {cfg : Config}

/-! ## Senders -/

namespace HomaSendScheduler

open HomaOutboundMsg

variable {sched next : HomaSendScheduler} {events : List Event}

def Attributed (known : BegunMsg → Prop) (addr : Ipv4Address) (sched : HomaSendScheduler) : Prop :=
  ∀ txMsgId msg, sched.outboundMsgs.lookup txMsgId = some msg →
    msg.saddr = addr ∧ known (msg.begunMsg txMsgId)

theorem begunMsg_of_same {msg updated : HomaOutboundMsg} (hsame : msg.SameMsg updated)
    (txMsgId : Nat) : updated.begunMsg txMsgId = msg.begunMsg txMsgId := by
  rw [HomaOutboundMsg.begunMsg, hsame.key_eq, hsame.origin_eq, hsame.msgSizeBytes_eq,
    HomaOutboundMsg.begunMsg]

variable {addr : Ipv4Address} {txMsgId : Nat}

theorem Attributed.insert (hattr : sched.Attributed known addr) {msg : HomaOutboundMsg}
    (hsource : msg.saddr = addr) (hknown : known (msg.begunMsg txMsgId)) (hmsgs :
    next.outboundMsgs = sched.outboundMsgs.insert txMsgId msg) : next.Attributed known addr := by
  intro other stored hlook
  rw [hmsgs, UnorderedMap.lookup_insert] at hlook
  split at hlook
  next heq =>
    subst heq
    cases hlook
    exact ⟨hsource, hknown⟩
  · exact hattr other stored hlook

theorem Attributed.update (hattr : sched.Attributed known addr) {msg updated : HomaOutboundMsg}
    (hlook : sched.outboundMsgs.lookup txMsgId = some msg) (hsame : msg.SameMsg updated)
    (hmsgs : next.outboundMsgs = sched.outboundMsgs.insert txMsgId updated) :
    next.Attributed known addr := by
  obtain ⟨hsource, hknown⟩ := hattr txMsgId msg hlook
  have hsaddr : updated.saddr = msg.saddr := congrArg MsgKey.saddr (hsame.key_eq txMsgId)
  exact hattr.insert (hsaddr.trans hsource) (begunMsg_of_same hsame txMsgId ▸ hknown) hmsgs

theorem attributed_transmitted {msg sent : HomaOutboundMsg} {packet : Packet}
    (hsound : msg.Sound cfg) (hknown : known (msg.begunMsg txMsgId))
    (hsent : Transmitted cfg txMsgId msg sent packet) :
    packet.Attributed known cfg.maxPayloadSize := by
  have hflag := hasFlag_of_transmitted hsent
  cases hsent with
  | request hreq =>
    have hwait : msg.waitForFirstGrant = true := (Bool.and_eq_true_iff.mp hreq).1
    exact .data hflag hknown (hsound.getMsgSizePkts_eq ▸ hsound.waiting_pos hwait)
  | data hoff hrem =>
    subst hrem
    have hlt := (getNextPktOffset_eq_some hoff).2.2.2
    exact .data hflag hknown (hsound.getMsgSizePkts_eq ▸ hlt)

theorem attributed_handle (hwf : sched.WellFormed cfg) (hattr : sched.Attributed known addr)
    {input : SendInput}
    (hown : ∀ message saddr daddr sport dport origin,
      input = .send message saddr daddr sport dport origin → saddr = addr)
    (hbegun : ∀ key origin msgSizeBytes,
      .msgBegin key origin msgSizeBytes ∈ events → known ⟨key, origin, msgSizeBytes⟩)
    (hhandle : sched.handle cfg input = .ok (next, events)) :
    next.Attributed known addr ∧
      ∀ packet, .sendDown packet ∈ events → packet.Attributed known cfg.maxPayloadSize := by
  cases handle_outcome hwf hhandle with
  | idle hmsgs _ hevs =>
    subst hevs
    refine ⟨fun txMsgId msg hlook => ?_, fun _ hsent => nomatch hsent⟩
    exact hattr txMsgId msg (hmsgs ▸ hlook)
  | @accepted _ _ _ _ _ origin msg txMsgId _ hmade hmsgs hevs =>
    subst hevs
    have hknown := hbegun _ _ _ mem_cons_self
    have hsaddr : msg.saddr = addr :=
      (congrArg MsgKey.saddr (hmade.key_eq txMsgId)).trans (hown _ _ _ _ _ _ rfl)
    -- the stored message is the one that the event announced
    have hmsg : msg.begunMsg txMsgId = ⟨msg.key txMsgId, origin, msg.msgSizeBytes⟩ := by
      rw [HomaOutboundMsg.begunMsg, hmade.origin_eq]
    exact ⟨hattr.insert hsaddr (hmsg ▸ hknown) hmsgs, fun _ hsent => by simp at hsent⟩
  | transmitted hlook htransmitted hmsgs _ hevs =>
    subst hevs
    refine ⟨hattr.update hlook htransmitted.sameMsg.1 hmsgs, fun packet hsent => ?_⟩
    obtain rfl : packet = _ := by simpa using hsent
    exact attributed_transmitted (hwf.sound _ _ hlook) (hattr _ _ hlook).2 htransmitted
  | controlled hlook _ hctrl hmsgs _ hevs =>
    refine ⟨hattr.update hlook hctrl.sameMsg.1 hmsgs, fun packet hsent => ?_⟩
    rcases hevs with rfl | ⟨nextTxMsgId, rfl⟩
    · cases hsent
    · obtain rfl : packet = _ := by simpa using hsent
      exact .busy (hasFlag_generateBusy _ _)
  | acked _ hmsgs _ hevs =>
    subst hevs
    refine ⟨fun txMsgId msg hlook => ?_, fun _ hsent => nomatch hsent⟩
    rw [hmsgs] at hlook
    split at hlook
    · cases hlook
    · exact hattr txMsgId msg hlook

end HomaSendScheduler

/-! ## Receivers -/

namespace HomaRecvScheduler

open HomaInboundMsg

variable {sched next : HomaRecvScheduler} {events : List Event}

def Attributed (known : BegunMsg → Prop) (addr : Ipv4Address) (sched : HomaRecvScheduler) : Prop :=
  ∀ msg ∈ sched.inboundMsgs, msg.key.daddr = addr ∧ known msg.begunMsg

theorem begunMsg_receiveDataPacket {msg received : HomaInboundMsg} {payload : Payload}
    {pktOffset : Nat} (hrecv : msg.receiveDataPacket cfg payload pktOffset = .ok received) :
    received.begunMsg = msg.begunMsg := by
  rcases HomaInboundMsg.receiveDataPacket_eq_ok hrecv with ⟨rfl, _⟩ | ⟨rfl, _, _⟩
  · rfl
  · unfold openWindow
    split
    · rfl
    · rfl

theorem begunMsg_moved {input : RecvInput} {prior msg : HomaInboundMsg}
    (hmoved : Moved cfg input prior msg) : msg.begunMsg = prior.begunMsg := by
  cases hmoved with
  | idle => rfl
  | receive _ _ _ hrecv => exact begunMsg_receiveDataPacket hrecv
  | visit _ hvisit =>
    obtain ⟨_, _, _, _, _, rfl⟩ := visit_frame hvisit
    rfl
  | rearm => rfl

theorem begunMsg_create {packet : Packet} {created : HomaInboundMsg}
    (hcreate : create cfg packet = .ok created) : created.begunMsg = packet.dataMsg := by
  rcases create_eq_ok hcreate with ⟨_, rfl⟩ | ⟨_, _, rfl⟩
  · rfl
  · rfl

theorem attributed_taken (hwf : sched.WellFormed cfg) {addr : Ipv4Address}
    (hattr : sched.Attributed known addr) {packet : Packet} (hpkt : known packet.dataMsg)
    {inboundMsg : HomaInboundMsg} {others : List HomaInboundMsg}
    (htaken : Taken cfg sched packet inboundMsg others) :
    known inboundMsg.begunMsg ∧
      inboundMsg.receivedPackets.length =
        packetCount inboundMsg.msgSizeBytes cfg.maxPayloadSize := by
  cases htaken with
  | @pending msg hperm _ hrecv =>
    have hmem := hperm.mem_iff.mpr mem_cons_self
    have hsound := sound_receiveDataPacket (hwf.sound msg hmem) hrecv
    exact ⟨begunMsg_receiveDataPacket hrecv ▸ (hattr msg hmem).2,
      hsound.length_eq.trans hsound.size_eq⟩
  | fresh _ _ hcreate hmsg =>
    subst hmsg
    refine ⟨(begunMsg_create hcreate).symm ▸ hpkt, ?_⟩
    rcases create_eq_ok hcreate with ⟨_, rfl⟩ | ⟨_, _, rfl⟩
    · exact length_replicate
    · exact length_set.trans length_replicate

theorem ackNo_of_complete {msg : HomaInboundMsg} (hfull : msg.isFullyReceived = true) :
    msg.ackNo = msg.receivedPackets.length := by
  apply idxOf_of_notMem
  intro hmiss
  have hall := all_eq_true.mp hfull false hmiss
  cases hall

theorem attributed_ctrlPacket {msg : HomaInboundMsg} (hknown : known msg.begunMsg) (flag : Flag)
    (pktOffset grantOffset prio : Nat) :
    known (msg.ctrlPacket flag pktOffset grantOffset prio).ctrlMsg := hknown

theorem attributed_handle (hwf : sched.WellFormed cfg) {addr : Ipv4Address}
    (hattr : sched.Attributed known addr) {input : RecvInput}
    (hinp : ∀ packet,
      input = .packet packet →
        packet.ipv4Header.destination = addr ∧ packet.Attributed known cfg.maxPayloadSize)
    (hhandle : sched.handle cfg input = .ok (next, events)) :
    next.Attributed known addr ∧
      ∀ packet, .sendDown packet ∈ events → packet.Attributed known cfg.maxPayloadSize := by
  constructor
  · intro msg hmem
    rcases handle_moved hwf hhandle hmem with ⟨prior, hprior, hmoved⟩ | hstart
    · exact ⟨moved_key hmoved ▸ (hattr prior hprior).1,
        begunMsg_moved hmoved ▸ (hattr prior hprior).2⟩
    · obtain ⟨packet, created, heq, hdata, hcreate, rfl⟩ := hstart.origin
      obtain ⟨haddr, hpkt⟩ := hinp packet heq
      have hbegun := begunMsg_create hcreate
      have hkey : created.key = packet.key := congrArg BegunMsg.key hbegun
      exact ⟨(congrArg MsgKey.daddr hkey).trans haddr, hbegun ▸ (hpkt.of_data hdata).1⟩
  · intro sent hsent
    cases emitted hwf hhandle hsent with
    | @ack packet _ _ hdata htaken hfull =>
      have hpkt := ((hinp packet rfl).2.of_data hdata).1
      obtain ⟨hknown, hlen⟩ := attributed_taken hwf hattr hpkt htaken
      exact .ack (hasFlag_ctrlPacket _ _ _ _ _) (attributed_ctrlPacket hknown _ _ _ _)
        ((ackNo_of_complete hfull).trans hlen)
    | @grant msg _ hmem hgrant =>
      obtain ⟨_, _, _, hlt, rfl⟩ := hgrant
      exact .grant (hasFlag_ctrlPacket _ _ _ _ _)
        (attributed_ctrlPacket (hattr msg hmem).2 _ _ _ _)
        ((hwf.sound msg hmem).size_eq ▸ hlt)
    | @resend msg _ _ hmem hoff =>
      have hsound := hwf.sound msg hmem
      exact .resend (hasFlag_ctrlPacket _ _ _ _ _)
        (attributed_ctrlPacket (hattr msg hmem).2 _ _ _ _) hoff
        (hsound.size_eq ▸ hsound.granted_lt)

end HomaRecvScheduler

/-! ## The network -/

namespace Network

variable {setting : Setting} {net next : Network}

structure Attributed (setting : Setting) (known : BegunMsg → Prop) (net : Network) : Prop where
  outbound : ∀ addr, (net.hosts addr).sendScheduler.Attributed known addr
  inbound : ∀ addr, (net.hosts addr).recvScheduler.Attributed known addr
  inFlight : ∀ packet ∈ net.inFlight, packet.Attributed known setting.maxPayloadSize

theorem attributed_initial (setting : Setting) (known : BegunMsg → Prop) :
    initial.Attributed setting known := by
  refine ⟨?_, ?_, ?_⟩
  · intro addr txMsgId msg hlook
    cases hlook
  · intro addr msg hmem
    cases hmem
  · intro packet hmem
    cases hmem

theorem Attributed.mono {wider : BegunMsg → Prop} (hattr : net.Attributed setting known)
    (hwider : ∀ msg, known msg → wider msg) : net.Attributed setting wider where
  outbound addr txMsgId msg hlook :=
    ⟨(hattr.outbound addr txMsgId msg hlook).1,
      hwider _ (hattr.outbound addr txMsgId msg hlook).2⟩
  inbound addr msg hmem :=
    ⟨(hattr.inbound addr msg hmem).1, hwider _ (hattr.inbound addr msg hmem).2⟩
  inFlight packet hmem := (hattr.inFlight packet hmem).keep fun _ msg _ => hwider msg

theorem mem_sentPackets {packet : Packet} {events : List Event} :
    packet ∈ sentPackets events ↔ .sendDown packet ∈ events := by
  rw [sentPackets, mem_filterMap]
  constructor
  · rintro ⟨event, hev, heq⟩
    cases event with
    | sendDown sent =>
      obtain rfl : sent = packet := by simpa using heq
      exact hev
    | msgBegin | forwardUp | dataRecv | rtxLimit => cases heq
  · intro hsent
    exact ⟨_, hsent, rfl⟩

theorem Attributed.taking {arrived : List Packet} (hattr : net.Attributed setting known)
    (hbase : net.Taking arrived next) : next.Attributed setting known where
  outbound addr := hbase.hosts_eq ▸ hattr.outbound addr
  inbound addr := hbase.hosts_eq ▸ hattr.inbound addr
  inFlight packet hmem := hattr.inFlight packet (hbase.perm.mem_iff.mpr (mem_append_right _ hmem))

theorem Attributed.update (hattr : net.Attributed setting known)
    {addr : Ipv4Address} {host : HomaL4Protocol} {events : List Event} (hsender :
    host.sendScheduler.Attributed known addr) (hrecv : host.recvScheduler.Attributed known addr)
    (hsent : ∀ packet, .sendDown packet ∈ events → packet.Attributed known setting.maxPayloadSize) :
    (net.update addr (host, events)).Attributed setting known := by
  refine ⟨fun other => ?_, fun other => ?_, fun packet hmem => ?_⟩
  · by_cases hsame : other = addr
    · subst hsame
      rw [hosts_update_self]
      exact hsender
    · rw [hosts_update_of_ne _ hsame]
      exact hattr.outbound other
  · by_cases hsame : other = addr
    · subst hsame
      rw [hosts_update_self]
      exact hrecv
    · rw [hosts_update_of_ne _ hsame]
      exact hattr.inbound other
  · rcases mem_append.mp hmem with hold | hnew
    · exact hattr.inFlight packet hold
    · exact hsent packet (mem_sentPackets.mp hnew)

theorem attributed_stepped {action : Action} (hwf : net.WellFormed setting)
    (hattr : net.Attributed setting known) (hmove : Stepped setting net action next)
    (hbegun : ∀ addr key origin msgSizeBytes,
      (addr, .msgBegin key origin msgSizeBytes) ∈ next.log.drop net.log.length →
        known ⟨key, origin, msgSizeBytes⟩) :
    next.Attributed setting known := by
  cases hmove with
  | @sender base _ addr input host events hbase hnext hhandle hrecv hask =>
    subst hnext
    obtain ⟨hsender, hsent⟩ := HomaSendScheduler.attributed_handle (hwf.sender addr)
      (hattr.outbound addr) (fun _ _ _ _ _ _ hinp => (hask _ _ _ _ _ _ hinp).1)
      (fun key origin msgSizeBytes hev => hbegun addr key origin msgSizeBytes <| by
        rw [← hbase.log_eq, drop_log_update]
        exact mem_map_of_mem hev) hhandle
    rw [setting.config_maxPayloadSize] at hsent
    exact (hattr.taking hbase).update hsender (hrecv ▸ hattr.inbound addr) hsent
  | @receiver base _ addr input host events hbase hnext hhandle hsame hinp =>
    subst hnext
    obtain ⟨hrecv, hsent⟩ := HomaRecvScheduler.attributed_handle (hwf.receiver addr)
      (hattr.inbound addr) (fun packet heq => by
        obtain ⟨congested, sent, rfl, rfl, haddr⟩ := hinp packet heq
        rw [setting.config_maxPayloadSize, Packet.mark_destination]
        have hmem := hbase.perm.mem_iff.mpr mem_cons_self
        exact ⟨haddr, (hattr.inFlight sent hmem).mark congested⟩) hhandle
    rw [setting.config_maxPayloadSize] at hsent
    exact (hattr.taking hbase).update (hsame ▸ hattr.outbound addr) hrecv hsent
  | discard hbase => exact hattr.taking hbase

end Network

end HomaSird.Homa
