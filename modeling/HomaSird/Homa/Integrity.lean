import HomaSird.Homa.AtMostOnce
import HomaSird.Homa.GrantLimit
import HomaSird.Homa.Reassembly
import Mathlib.Data.List.GetD

/-! # What is handed up is what was sent

Beside the network stands what each host was asked to send. The messages that are stored, their
packets and what has been collected of them are pieces of that, as long as a key is assigned once.
-/

namespace HomaSird.Homa

open Transition Transition.Machine List HomaOutboundMsg

/-- The host was asked to send the message with the given serial number. -/
def SentAs (asked : List HostInput) (origin : Nat) (sent : Payload) : Prop :=
  ∃ daddr sport dport, asked[origin]? = some (.send sent daddr sport dport)

variable {asked : List HostInput} {cfg : Config} {sent : Payload} {origin : Nat}

theorem SentAs.unique {other : Payload} (hsent : SentAs asked origin sent)
    (hother : SentAs asked origin other) : sent = other := by
  obtain ⟨_, _, _, hsent⟩ := hsent
  obtain ⟨_, _, _, hother⟩ := hother
  rw [hsent] at hother
  cases hother
  rfl

theorem getElem?_extend {request : HostInput} (hent : asked[origin]? = some request)
    (more : List HostInput) : (asked ++ more)[origin]? = some request := by
  obtain ⟨hlt, -⟩ := List.getElem?_eq_some_iff.mp hent
  rw [getElem?_append_left hlt, hent]

theorem SentAs.extend (hsent : SentAs asked origin sent) (more : List HostInput) :
    SentAs (asked ++ more) origin sent := by
  obtain ⟨daddr, sport, dport, hsent⟩ := hsent
  exact ⟨daddr, sport, dport, getElem?_extend hsent more⟩

/-- The payload of one offset, as the memory mode of the sender leaves it. -/
def piece (cfg : Config) (sent : Payload) (pktOffset : Nat) : Payload :=
  let fragment := (fragments cfg sent).getD pktOffset []
  if cfg.memIsOptimized then replicate fragment.length 0 else fragment

structure HomaOutboundMsg.CutFrom (cfg : Config) (sent : Payload) (msg : HomaOutboundMsg) :
    Prop where
  length_lt : (fragments cfg sent).length < 2 ^ 16
  fragment_eq : ∀ pktOffset, msg.fragment cfg pktOffset = piece cfg sent pktOffset

theorem HomaOutboundMsg.CutFrom.congr {msg next : HomaOutboundMsg} (hcut : msg.CutFrom cfg sent)
    (hpackets : next.packets = msg.packets) (hsizes : next.pktSizes = msg.pktSizes) :
    next.CutFrom cfg sent := by
  refine ⟨hcut.length_lt, fun pktOffset => ?_⟩
  rw [← hcut.fragment_eq, fragment, fragment, hpackets, hsizes]

theorem cutFrom_create {msg : HomaOutboundMsg} {saddr daddr : Ipv4Address} {sport dport : Nat}
    (hcreate : create cfg sent saddr daddr sport dport origin = .ok msg) :
    msg.CutFrom cfg sent := by
  have hfresh := fresh_of_create hcreate
  refine ⟨hfresh.length_lt, fun pktOffset => ?_⟩
  rw [fragment, piece, hfresh.packets_eq, hfresh.pktSizes_eq]
  split
  · exact congrArg (replicate · 0) (getD_map _ [] length)
  · rfl

/-- The packet requests credit or carries a piece of the message. -/
structure Packet.IsPiece (cfg : Config) (sent : Payload) (packet : Packet) : Prop where
  length_lt : (fragments cfg sent).length < 2 ^ 16
  payload_eq : packet.payload = [] ∨ packet.payload = piece cfg sent packet.homaHeader.pktOffset

theorem Packet.IsPiece.congr {packet : Packet} {other : Config}
    (hpiece : packet.IsPiece cfg sent) (hmax : other.maxPayloadSize = cfg.maxPayloadSize)
    (hmode : other.memIsOptimized = cfg.memIsOptimized) : packet.IsPiece other sent := by
  have hsame : fragments other sent = fragments cfg sent := by
    rw [fragments, fragments, hmax]
  refine ⟨hsame ▸ hpiece.length_lt, ?_⟩
  rw [piece, hsame, hmode]
  exact hpiece.payload_eq

theorem Packet.IsPiece.mark {packet : Packet} (hpiece : packet.IsPiece cfg sent)
    (congested : Bool) : (packet.mark congested).IsPiece cfg sent :=
  ⟨hpiece.length_lt, by simpa using hpiece.payload_eq⟩

/-! ## Senders -/

namespace HomaSendScheduler

variable {sched next : HomaSendScheduler} {input : SendInput} {events : List Event}

def Stores (cfg : Config) (asked : List HostInput) (sched : HomaSendScheduler) : Prop :=
  ∀ txMsgId msg, sched.outboundMsgs.lookup txMsgId = some msg →
    ∃ sent, SentAs asked msg.origin sent ∧ msg.CutFrom cfg sent

section

variable (hwf : sched.WellFormed cfg) (hstores : sched.Stores cfg asked)
  (hask : ∀ message saddr daddr sport dport origin,
    input = .send message saddr daddr sport dport origin → SentAs asked origin message)
  (hhandle : sched.handle cfg input = .ok (next, events))
include hwf hstores hhandle

include hask in
theorem stores_handle : next.Stores cfg asked := by
  intro txMsgId msg hlook
  have hadvanced := RecordedSender.advanced_of_handle hwf hhandle hlook fun _ => []
  generalize RecordedSender.note _ _ _ _ = history at hadvanced
  cases hadvanced with
  | kept hlook => exact hstores txMsgId msg hlook
  | created _ hcreate =>
    rw [(create_eq_ok hcreate).origin_eq]
    exact ⟨_, hask _ _ _ _ _ _ rfl, cutFrom_create hcreate⟩
  | transmitted _ hprior hsent =>
    obtain ⟨sent, hasked, hcut⟩ := hstores _ _ hprior
    rw [hsent.sameMsg.1.origin_eq]
    exact ⟨sent, hasked, hcut.congr hsent.window.1 hsent.window.2.1⟩
  | controlled _ hprior hctrl =>
    obtain ⟨sent, hasked, hcut⟩ := hstores _ _ hprior
    rw [hctrl.sameMsg.1.origin_eq]
    exact ⟨sent, hasked, hcut.congr hctrl.raised.packets_eq hctrl.raised.pktSizes_eq⟩

theorem isPiece_sent {known : BegunMsg → Prop} {addr : Ipv4Address}
    (hattr : sched.Attributed known addr) {packet : Packet} (hev : .sendDown packet ∈ events)
    (hdata : packet.hasFlag .data = true) :
    packet.ipv4Header.source = addr ∧
      ∃ sent, SentAs asked packet.origin sent ∧ packet.IsPiece cfg sent := by
  cases handle_outcome hwf hhandle with
  | idle _ _ hevs => simp [hevs] at hev
  | accepted _ _ _ hevs => simp [hevs] at hev
  | acked _ _ _ hevs => simp [hevs] at hev
  | controlled _ _ _ _ _ hevs =>
    rcases hevs with rfl | ⟨nextTxMsgId, rfl⟩
    · cases hev
    · obtain rfl : packet = _ := by simpa using hev
      simp [hasFlag_generateBusy] at hdata
  | @transmitted _ _ txMsgId msg moved _ hlook hsent hmsgs _ hevs =>
    subst hevs
    obtain rfl : packet = _ := by simpa using hev
    obtain ⟨hid, horigin, hsource⟩ : packet.homaHeader.txMsgId = txMsgId ∧
        packet.origin = msg.origin ∧ packet.ipv4Header.source = msg.saddr := by
      cases hsent with
      | request => exact ⟨rfl, rfl, rfl⟩
      | data _ hremoved =>
        subst hremoved
        exact ⟨rfl, rfl, rfl⟩
    obtain ⟨sent, hasked, hcut⟩ := hstores _ _ hlook
    refine ⟨hsource.trans (hattr _ _ hlook).1, sent, horigin ▸ hasked, hcut.length_lt, ?_⟩
    have hstored : next.outboundMsgs.lookup txMsgId = some moved := by
      rw [hmsgs, AList.lookup_insert]
    have hadvanced := RecordedSender.advanced_of_handle hwf hhandle hstored fun _ => []
    simp only [RecordedSender.note, hid, Function.update_self] at hadvanced
    generalize hhistory : [] ++ [MsgEvent.sent packet] = history at hadvanced
    cases hadvanced with
    | kept => cases hhistory
    | transmitted _ hprior _ hpayload =>
      cases hhistory
      rw [hlook] at hprior
      cases hprior
      rw [hpayload]
      split
      · exact Or.inl rfl
      · exact Or.inr (hcut.fragment_eq _)

end

end HomaSendScheduler

/-! ## Receivers -/

/-- The inbound message has taken nothing but packets of the given message. -/
def HomaInboundMsg.Collects (cfg : Config) (sent : Payload) (msg : HomaInboundMsg) : Prop :=
  ∃ saddr daddr sport dport origin outMsg arrived,
    HomaOutboundMsg.create cfg sent saddr daddr sport dport origin = .ok outMsg ∧
    msg.Fed cfg outMsg arrived

namespace HomaInboundMsg

variable {msg next : HomaInboundMsg} {packet : Packet}

theorem isArrival_of_isPiece {outMsg : HomaOutboundMsg} {saddr daddr : Ipv4Address}
    {sport dport : Nat} (hpiece : packet.IsPiece cfg sent)
    (hsz : packet.homaHeader.msgSizeBytes = sent.length)
    (hcreate : HomaOutboundMsg.create cfg sent saddr daddr sport dport origin = .ok outMsg) :
    IsArrival cfg outMsg packet := by
  refine ⟨hsz.trans (HomaOutboundMsg.create_eq_ok hcreate).msgSizeBytes_eq.symm, ?_⟩
  by_cases hlt : packet.homaHeader.pktOffset < outMsg.getMsgSizePkts
  · refine hpiece.payload_eq.imp_right fun hpayload => ⟨hlt, ?_⟩
    rw [hpayload, (cutFrom_create hcreate).fragment_eq]
  · rw [(fresh_of_create hcreate).getMsgSizePkts_eq, Nat.not_lt] at hlt
    refine Or.inl (hpiece.payload_eq.elim id fun hpayload => ?_)
    rw [hpayload, piece, getD_eq_default _ _ hlt]
    split <;> rfl

theorem Collects.same (hcollects : msg.Collects cfg sent) (hsame : msg.SameBuffer next) :
    next.Collects cfg sent := by
  obtain ⟨_, _, _, _, _, outMsg, arrived, hcreate, hfed⟩ := hcollects
  exact ⟨_, _, _, _, _, outMsg, arrived, hcreate, hfed.other hsame⟩

section

variable (hpiece : packet.IsPiece cfg sent)
  (hsz : packet.homaHeader.msgSizeBytes = sent.length)
include hpiece hsz

theorem Collects.receive (hcollects : msg.Collects cfg sent) (hreceive :
    msg.receiveDataPacket cfg packet.payload packet.homaHeader.pktOffset = .ok next) :
    next.Collects cfg sent := by
  obtain ⟨_, _, _, _, _, outMsg, arrived, hcreate, hfed⟩ := hcollects
  exact ⟨_, _, _, _, _, outMsg, _, hcreate,
    hfed.received (isArrival_of_isPiece hpiece hsz hcreate) hreceive⟩

theorem collects_create (hcreate : HomaInboundMsg.create cfg packet = .ok msg) :
    msg.Collects cfg sent := by
  obtain ⟨outMsg, hcut⟩ := @create_of_length_lt cfg sent 0 0 0 0 0 hpiece.length_lt
  exact ⟨0, 0, 0, 0, 0, outMsg, _, hcut,
    .created (isArrival_of_isPiece hpiece hsz hcut) hcreate⟩

end

theorem Collects.getReassembledMsg_eq (hcollects : msg.Collects cfg sent)
    (hfull : msg.isFullyReceived = true) :
    msg.getReassembledMsg cfg = if cfg.memIsOptimized then replicate sent.length 0 else sent := by
  obtain ⟨_, _, _, _, _, outMsg, arrived, hcreate, hfed⟩ := hcollects
  have hbuf := buffered_of_fed hcreate hfed
  exact hbuf.getReassembledMsg_eq hcreate (hbuf.isFullyReceived_iff.mp hfull)

end HomaInboundMsg

namespace HomaRecvScheduler

open HomaInboundMsg

variable {sched after : HomaRecvScheduler} {input : RecvInput} {events : List Event}
  {msg next : HomaInboundMsg} {packet : Packet} {relevant : MsgKey → Prop}
  {source : MsgKey → Payload → Prop}

def Gathers (cfg : Config) (relevant : MsgKey → Prop) (source : MsgKey → Payload → Prop)
    (sched : HomaRecvScheduler) : Prop :=
  ∀ msg ∈ sched.inboundMsgs, relevant msg.key → ∃ sent, source msg.key sent ∧
    msg.Collects cfg sent

section

variable (hunique : ∀ key, relevant key → ∀ sent other, source key sent → source key other →
    sent = other) (hgathers : sched.Gathers cfg relevant source)
  (hpkt : relevant packet.key → ∃ sent, source packet.key sent ∧ packet.IsPiece cfg sent ∧
    packet.homaHeader.msgSizeBytes = sent.length)
include hunique hgathers hpkt

theorem collects_receive (hmem : msg ∈ sched.inboundMsgs) (hkey : msg.key = packet.key)
    (hreceive : msg.receiveDataPacket cfg packet.payload packet.homaHeader.pktOffset =
      .ok next) (hrelevant : relevant next.key) :
    ∃ sent, source next.key sent ∧ next.Collects cfg sent := by
  rw [(receiveDataPacket_frame hreceive).1] at hrelevant ⊢
  obtain ⟨sent, hsource, hcollects⟩ := hgathers msg hmem hrelevant
  obtain ⟨other, hother, hpiece, hsz⟩ := hpkt (hkey ▸ hrelevant)
  obtain rfl := hunique _ hrelevant _ _ hsource (hkey ▸ hother)
  exact ⟨sent, hsource, hcollects.receive hpiece hsz hreceive⟩

omit hunique hgathers in
theorem collects_fresh {created : HomaInboundMsg} (hcreate : create cfg packet = .ok created)
    (hrelevant : relevant created.key) :
    ∃ sent, source created.key sent ∧ created.Collects cfg sent := by
  have hkey : created.key = packet.key := congrArg BegunMsg.key (begunMsg_create hcreate)
  obtain ⟨sent, hsource, hpiece, hsz⟩ := hpkt (hkey ▸ hrelevant)
  exact ⟨sent, hkey ▸ hsource, collects_create hpiece hsz hcreate⟩

end

theorem gathers_handle (hwf : sched.WellFormed cfg)
    (hunique : ∀ key, relevant key → ∀ sent other, source key sent → source key other →
      sent = other) (hgathers : sched.Gathers cfg relevant source)
    (hinp : ∀ packet, input = .packet packet → packet.hasFlag .data = true →
      relevant packet.key → ∃ sent, source packet.key sent ∧ packet.IsPiece cfg sent ∧
        packet.homaHeader.msgSizeBytes = sent.length)
    (hhandle : sched.handle cfg input = .ok (after, events)) :
    after.Gathers cfg relevant source ∧ ∀ key origin message,
      .forwardUp key origin message ∈ events → relevant key → ∃ sent, source key sent ∧
        message = if cfg.memIsOptimized then replicate sent.length 0 else sent := by
  refine ⟨fun msg hmem hrelevant => ?_, fun key origin message hev hrelevant => ?_⟩
  · rcases handle_moved hwf hhandle hmem with ⟨prior, hprior, hmoved⟩ | hstart
    · cases hmoved with
      | idle => exact hgathers msg hprior hrelevant
      | receive heq hdata hkey hreceive =>
        exact collects_receive hunique hgathers (hinp _ heq hdata) hprior hkey hreceive
          hrelevant
      | visit _ hvisit =>
        obtain ⟨_, _, _, _, _, rfl⟩ := visit_frame hvisit
        obtain ⟨sent, hsource, hcollects⟩ := hgathers prior hprior hrelevant
        exact ⟨sent, hsource, hcollects.same ⟨rfl, rfl, rfl, rfl, rfl⟩⟩
      | rearm =>
        obtain ⟨sent, hsource, hcollects⟩ := hgathers prior hprior hrelevant
        exact ⟨sent, hsource, hcollects.same ⟨rfl, rfl, rfl, rfl, rfl⟩⟩
    · obtain ⟨packet, created, heq, hdata, hcreate, rfl⟩ := hstart.origin
      obtain ⟨sent, hsource, hcollects⟩ :=
        collects_fresh (hinp packet heq hdata) hcreate hrelevant
      exact ⟨sent, hsource, hcollects.same ⟨rfl, rfl, rfl, rfl, rfl⟩⟩
  · generalize hup : Event.forwardUp key origin message = event at hev
    cases emitted hwf hhandle hev with
    | @forwardUp packet inboundMsg others hdata htaken hfull =>
      cases hup
      have hcollects : ∃ sent, source inboundMsg.key sent ∧ inboundMsg.Collects cfg sent := by
        cases htaken with
        | pending hperm hkey hreceive =>
          exact collects_receive hunique hgathers (hinp packet rfl hdata)
            (hperm.mem_iff.mpr mem_cons_self) hkey hreceive hrelevant
        | fresh _ _ hcreate hmsg =>
          subst hmsg
          obtain ⟨sent, hsource, hcollects⟩ :=
            collects_fresh (hinp packet rfl hdata) hcreate hrelevant
          exact ⟨sent, hsource, hcollects.same ⟨rfl, rfl, rfl, rfl, rfl⟩⟩
      obtain ⟨sent, hsource, hcollects⟩ := hcollects
      exact ⟨sent, hsource, hcollects.getReassembledMsg_eq hfull⟩
    | ack | dataRecv | grant | rtxLimit | resend => cases hup

theorem Gathers.mono {wider : MsgKey → Prop} {known : MsgKey → Payload → Prop}
    (hgathers : sched.Gathers cfg wider source) (hwider : ∀ key, relevant key → wider key)
    (hknown : ∀ key sent, source key sent → known key sent) :
    sched.Gathers cfg relevant known := by
  intro msg hmem hrelevant
  obtain ⟨sent, hsource, hcollects⟩ := hgathers msg hmem (hwider _ hrelevant)
  exact ⟨sent, hknown _ _ hsource, hcollects⟩

end HomaRecvScheduler

/-! ## The network -/

/-- The network, and what each host was asked to send, oldest first. -/
structure AskedNetwork where
  net : Network
  asked : Ipv4Address → List HostInput

namespace Network

theorem Stepped.nextOrigin_eq {setting : Setting} {net next : Network} {action : Action}
    (hmove : Stepped setting net action next) (addr : Ipv4Address) :
    (next.hosts addr).nextOrigin =
      (net.hosts addr).nextOrigin + (requests addr action).length := by
  cases hmove with
  | @sender base _ mover _ host events hbase hnext _ _ _ _ horigin hquiet =>
    subst hnext
    by_cases hsame : addr = mover
    · subst hsame
      rw [hosts_update_self, horigin]
    · rw [hosts_update_of_ne _ hsame, hbase.hosts_eq, hquiet addr hsame]
      rfl
  | @receiver base _ mover _ host events hbase hnext _ _ _ horigin hquiet =>
    subst hnext
    rw [hquiet]
    by_cases hsame : addr = mover
    · subst hsame
      rw [hosts_update_self, horigin]
      rfl
    · rw [hosts_update_of_ne _ hsame, hbase.hosts_eq]
      rfl
  | discard hbase hquiet => rw [hbase.hosts_eq, hquiet]; rfl

end Network

namespace AskedNetwork

open Network

def advance (state : AskedNetwork) (net : Network) (action : Action) : AskedNetwork where
  net := net
  asked := fun addr => state.asked addr ++ requests addr action

def machine (setting : Setting) : Transition.Machine AskedNetwork Action Fault where
  init := { net := initial, asked := fun _ => [] }
  step state action := do
    let net ← Network.step setting state.net action
    .ok (state.advance net action)

/-- The sender was asked to send the message under the key. -/
def Source (state : AskedNetwork) (key : MsgKey) (sent : Payload) : Prop :=
  ∃ origin, Begun state.net.log ⟨key, origin, sent.length⟩ ∧
    (state.asked key.saddr)[origin]? = some (.send sent key.daddr key.sport key.dport)

/-- The key was assigned at most once, and both ends of it keep payloads in the same way. -/
def Relevant (setting : Setting) (net : Network) (key : MsgKey) : Prop :=
  net.begins key ≤ 1 ∧
    (setting.config key.saddr).memIsOptimized = (setting.config key.daddr).memIsOptimized

variable {setting : Setting} {state : AskedNetwork} {net : Network} {action : Action}
  {key : MsgKey} {addr : Ipv4Address} {packet : Packet}

theorem source_unique (hrelevant : Relevant setting state.net key) (sent other : Payload)
    (hsent : state.Source key sent) (hother : state.Source key other) : sent = other := by
  obtain ⟨origin, hbegun, hsent⟩ := hsent
  obtain ⟨again, hagain, hother⟩ := hother
  obtain rfl := congrArg BegunMsg.origin (begun_eq hrelevant.1 hbegun hagain rfl rfl)
  rw [hsent] at hother
  cases hother
  rfl

structure Intact (setting : Setting) (state : AskedNetwork) : Prop where
  asked_length : ∀ addr, (state.asked addr).length = (state.net.hosts addr).nextOrigin
  begun : ∀ begun, Begun state.net.log begun → ∃ sent, begun.msgSizeBytes = sent.length ∧
    (state.asked begun.key.saddr)[begun.origin]? =
      some (.send sent begun.key.daddr begun.key.sport begun.key.dport)
  stores : ∀ addr, (state.net.hosts addr).sendScheduler.Stores (setting.config addr)
    (state.asked addr)
  inFlight : ∀ packet ∈ state.net.inFlight, packet.hasFlag .data = true → ∃ sent,
    SentAs (state.asked packet.ipv4Header.source) packet.origin sent ∧
      packet.IsPiece (setting.config packet.ipv4Header.source) sent
  gathers : ∀ addr, (state.net.hosts addr).recvScheduler.Gathers (setting.config addr)
    (Relevant setting state.net) fun key sent => key.daddr = addr ∧ state.Source key sent
  handedUp : ∀ addr key origin message, (addr, .forwardUp key origin message) ∈ state.net.log →
    Relevant setting state.net key → ∃ sent, (key.daddr = addr ∧ state.Source key sent) ∧
      message = if (setting.config addr).memIsOptimized then replicate sent.length 0 else sent

theorem intact_initial (setting : Setting) : (machine setting).init.Intact setting where
  asked_length _ := rfl
  begun := by rintro _ ⟨_, hmem⟩; cases hmem
  stores := by rintro _ _ _ hlook; cases hlook
  inFlight := by rintro _ hmem; cases hmem
  gathers := by rintro _ _ hmem; cases hmem
  handedUp := by rintro _ _ _ _ hmem; cases hmem

section

variable (hintact : state.Intact setting)
  (hattr : state.net.Attributed setting (Begun state.net.log))
include hintact hattr

theorem Intact.source_packet (hmem : packet ∈ state.net.inFlight)
    (hdata : packet.hasFlag .data = true) :
    ∃ sent,
      state.Source packet.key sent ∧ packet.IsPiece (setting.config packet.key.saddr) sent ∧
        packet.homaHeader.msgSizeBytes = sent.length := by
  have hbegun := ((hattr.inFlight packet hmem).of_data hdata).1
  obtain ⟨sent, hsz, hasked⟩ := hintact.begun _ hbegun
  obtain ⟨other, hother, hpiece⟩ := hintact.inFlight packet hmem hdata
  obtain rfl := hother.unique ⟨_, _, _, hasked⟩
  refine ⟨other, ⟨packet.origin, ?_, hasked⟩, hpiece, hsz⟩
  rw [← show packet.homaHeader.msgSizeBytes = other.length from hsz]
  exact hbegun

omit hattr in
theorem Intact.stores_extend (addr : Ipv4Address) (more : List HostInput) :
    (state.net.hosts addr).sendScheduler.Stores (setting.config addr)
      (state.asked addr ++ more) := by
  intro txMsgId msg hlook
  obtain ⟨sent, hasked, hcut⟩ := hintact.stores addr txMsgId msg hlook
  exact ⟨sent, hasked.extend _, hcut⟩

variable (hmove : Stepped setting state.net action net)
include hmove

omit hintact hattr in
theorem Source.advance {sent : Payload} (hsource : state.Source key sent) :
    (state.advance net action).Source key sent := by
  obtain ⟨origin, hbegun, hasked⟩ := hsource
  exact ⟨origin, hbegun.imp fun _ hmem => hmove.log_subset hmem, getElem?_extend hasked _⟩

omit hintact hattr in
theorem Relevant.prior (hrelevant : Relevant setting net key) :
    Relevant setting state.net key := by
  refine ⟨le_trans ?_ hrelevant.1, hrelevant.2⟩
  rw [begins, begins, hmove.log_eq, countP_append]
  exact Nat.le_add_right _ _

omit hattr in
theorem Intact.gathers_later (addr : Ipv4Address) :
    (state.net.hosts addr).recvScheduler.Gathers (setting.config addr) (Relevant setting net) fun
      key sent => key.daddr = addr ∧ (state.advance net action).Source key sent :=
  (hintact.gathers addr).mono (fun _ hrelevant => hrelevant.prior hmove)
    fun _ _ hsource => ⟨hsource.1, hsource.2.advance hmove⟩

omit hattr in
/-- What is left to show of a step is what the host did itself. -/
theorem Intact.advance {base : Network} {arrived : List Packet} {mover : Ipv4Address}
    {host : HomaL4Protocol} {events : List Event} (hbase : state.net.Taking arrived base)
    (hnext : net = base.update mover (host, events))
    (hbegun : ∀ key origin msgSizeBytes,
      .msgBegin key origin msgSizeBytes ∈ events →
        ∃ sent,
          msgSizeBytes = sent.length ∧
            ((state.advance net action).asked key.saddr)[origin]? =
              some (.send sent key.daddr key.sport key.dport))
    (hstores :
      host.sendScheduler.Stores (setting.config mover) ((state.advance net action).asked mover))
    (hsent : ∀ packet,
      .sendDown packet ∈ events → packet.hasFlag .data = true →
        ∃ sent,
          SentAs ((state.advance net action).asked packet.ipv4Header.source) packet.origin sent ∧
            packet.IsPiece (setting.config packet.ipv4Header.source) sent)
    (hgathers : host.recvScheduler.Gathers (setting.config mover) (Relevant setting net) fun key
      sent => key.daddr = mover ∧ (state.advance net action).Source key sent)
    (hup : ∀ key origin message,
      .forwardUp key origin message ∈ events → Relevant setting net key →
        ∃ sent,
          (key.daddr = mover ∧ (state.advance net action).Source key sent) ∧
            message =
              if (setting.config mover).memIsOptimized then replicate sent.length 0 else sent) :
    (state.advance net action).Intact setting := by
  have hlog : net.log = state.net.log ++ events.map (mover, ·) := by
    rw [hnext, ← hbase.log_eq]
    rfl
  have hkept : ∀ addr ≠ mover, net.hosts addr = state.net.hosts addr := by
    intro addr hne
    rw [hnext, hosts_update_of_ne _ hne, hbase.hosts_eq]
  have hmoved : net.hosts mover = host := by rw [hnext, hosts_update_self]
  refine ⟨fun addr => ?_, ?_, fun addr => ?_, fun packet hmem hdata => ?_, fun addr => ?_, ?_⟩
  · exact (length_append.trans (by rw [hintact.asked_length])).trans
      (hmove.nextOrigin_eq addr).symm
  · rintro begun ⟨addr, hmem⟩
    rcases mem_append.mp (hlog ▸ hmem) with hold | hnew
    · obtain ⟨sent, hsz, hasked⟩ := hintact.begun begun ⟨addr, hold⟩
      exact ⟨sent, hsz, getElem?_extend hasked _⟩
    · obtain ⟨_, hev, heq⟩ := mem_map.mp hnew
      cases heq
      exact hbegun _ _ _ hev
  · by_cases hsame : addr = mover
    · subst hsame
      exact hmoved ▸ hstores
    · rw [show (state.advance net action).net = net from rfl, hkept addr hsame]
      exact hintact.stores_extend addr _
  · have hinFlight : net.inFlight = base.inFlight ++ sentPackets events := by rw [hnext]; rfl
    rcases mem_append.mp (hinFlight ▸ hmem) with hold | hnew
    · obtain ⟨sent, hasked, hpiece⟩ := hintact.inFlight packet
        (hbase.perm.mem_iff.mpr (mem_append_right _ hold)) hdata
      exact ⟨sent, hasked.extend _, hpiece⟩
    · exact hsent packet (mem_sentPackets.mp hnew) hdata
  · by_cases hsame : addr = mover
    · subst hsame
      exact hmoved ▸ hgathers
    · rw [show (state.advance net action).net = net from rfl, hkept addr hsame]
      exact hintact.gathers_later hmove addr
  · intro addr key origin message hmem hrelevant
    rcases mem_append.mp (hlog ▸ hmem) with hold | hnew
    · obtain ⟨sent, ⟨haddr, hsource⟩, hmessage⟩ :=
        hintact.handedUp addr key origin message hold (hrelevant.prior hmove)
      exact ⟨sent, ⟨haddr, hsource.advance hmove⟩, hmessage⟩
    · obtain ⟨_, hev, heq⟩ := mem_map.mp hnew
      cases heq
      exact hup _ _ _ hev hrelevant

theorem intact_stepped (hwf : state.net.WellFormed setting) :
    (state.advance net action).Intact setting := by
  have hstores := fun addr => hintact.stores_extend addr (requests addr action)
  have hgathers := hintact.gathers_later hmove
  have hstep := hmove
  cases hstep with
  | @sender base _ addr input host events hbase hnext hhandle hrecv hask =>
    have hasked : ∀ message saddr daddr sport dport origin,
        input = .send message saddr daddr sport dport origin → saddr = addr ∧
          ((state.advance net action).asked addr)[origin]? =
            some (.send message daddr sport dport) := by
      intro message saddr daddr sport dport origin hinp
      obtain ⟨hsaddr, rfl, rfl⟩ := hask _ _ _ _ _ _ hinp
      refine ⟨hsaddr, ?_⟩
      rw [← hintact.asked_length]
      simp [AskedNetwork.advance, requests]
    refine hintact.advance hmove hbase hnext ?_ ?_ ?_ (hrecv ▸ hgathers addr) ?_
    · intro key origin msgSizeBytes hev
      obtain ⟨⟨message, hinp, hsz⟩, -⟩ :=
        HomaSendScheduler.begun_of_handle (hwf.sender addr) hhandle hev
      obtain ⟨hsaddr, hrequest⟩ := hasked _ _ _ _ _ _ hinp
      exact ⟨message, hsz, hsaddr ▸ hrequest⟩
    · exact HomaSendScheduler.stores_handle (hwf.sender addr) (hstores addr)
        (fun _ _ _ _ _ _ hinp => ⟨_, _, _, (hasked _ _ _ _ _ _ hinp).2⟩) hhandle
    · intro packet hev hdata
      obtain ⟨rfl, hpiece⟩ :=
        HomaSendScheduler.isPiece_sent (hwf.sender addr) (hstores addr) hhandle
          (hattr.outbound addr) hev hdata
      exact hpiece
    · intro key origin message hev
      have hnone := filter_eq_nil_iff.mp (filter_sender (hwf.sender addr) hhandle) _ hev
      exact absurd rfl hnone
  | @receiver base _ addr input host events hbase hnext hhandle hsame hinp =>
    have hgathered :=
      HomaRecvScheduler.gathers_handle (hwf.receiver addr) ?_ (hgathers addr) ?_ hhandle
    · refine hintact.advance hmove hbase hnext ?_ (hsame ▸ hstores addr) ?_ hgathered.1 hgathered.2
      · intro key origin msgSizeBytes hev
        have hkind := filter_eq_self.mp (filter_receiver (hwf.receiver addr) hhandle) _ hev
        cases hkind
      · intro packet hev hdata
        have hctrl :=
          control_of_receiver (hwf.receiver addr) hhandle packet (mem_sentPackets.mpr hev)
        rw [hctrl] at hdata
        cases hdata
    · intro key hrelevant sent other hsent hother
      exact @source_unique _ (state.advance net action) _ hrelevant _ _ hsent.2 hother.2
    · rintro packet hpkt hdata hrelevant
      obtain ⟨congested, arrived, rfl, rfl, rfl⟩ := hinp packet hpkt
      rw [Packet.mark_key] at hrelevant ⊢
      rw [Packet.mark_hasFlag] at hdata
      rw [Packet.mark_homaHeader]
      obtain ⟨sent, hsource, hpiece, hsz⟩ :=
        hintact.source_packet hattr (hbase.perm.mem_iff.mpr mem_cons_self) hdata
      have hmode := hrelevant.2.symm
      exact ⟨sent, ⟨rfl, hsource.advance hmove⟩,
        (hpiece.congr (by simp only [Setting.config_maxPayloadSize]) hmode).mark congested, hsz⟩
  | discard hbase =>
    exact hintact.advance hmove hbase (net.update_unchanged 0).symm (by simp)
      (hbase.hosts_eq ▸ hstores 0) (by simp) (hbase.hosts_eq ▸ hgathers 0) (by simp)

end

theorem net_reachable (hreach : (machine setting).Reachable state) :
    (Network.machine setting).Reachable state.net := by
  apply hreach.observed AskedNetwork.net rfl
  intro state action next hstep
  obtain ⟨net, hnet, hok⟩ := bind_eq_ok.mp hstep
  cases hok
  exact hnet

theorem intact_of_reachable (hreach : (machine setting).Reachable state) :
    state.Intact setting := by
  apply hreach.invariant_of fun _ hst => hst
  · exact intact_initial setting
  · rintro prior action next hprior hintact - hstep
    obtain ⟨net, hnet, hok⟩ := bind_eq_ok.mp hstep
    cases hok
    have hreachable := net_reachable hprior
    exact intact_stepped hintact (begun_of_reachable hreachable).1 (step_eq_ok hnet)
      (wellFormed_of_reachable hreachable)

/-- A message is handed up at the host it is for, as its sender was asked to send it, unless its
key was assigned again or the ends keep payloads differently. What fills an optimized memory is
zeros, and as many. -/
theorem forwardUp_intact (hreach : (machine setting).Reachable state) {origin : Nat}
    {message : Payload} (hup : (addr, .forwardUp key origin message) ∈ state.net.log)
    (hone : state.net.begins key ≤ 1) (hmode : (setting.config key.saddr).memIsOptimized =
      (setting.config key.daddr).memIsOptimized) :
    key.daddr = addr ∧ ∃ sent, .send sent addr key.sport key.dport ∈ state.asked key.saddr ∧
      message = if (setting.config addr).memIsOptimized then replicate sent.length 0 else sent := by
  obtain ⟨sent, ⟨haddr, _, -, hasked⟩, hmessage⟩ :=
    (intact_of_reachable hreach).handedUp addr key origin message hup ⟨hone, hmode⟩
  exact ⟨haddr, sent, haddr ▸ mem_of_getElem? hasked, hmessage⟩

theorem forwardUp_intact_resent :
    let state := (machine (.uniform Network.twoCredits)).after (fun _ _ => true) Network.sentAgain
      (machine (.uniform Network.twoCredits)).init
    (2, .forwardUp ⟨1, 2, 5, 6, 0⟩ 0 [7, 8]) ∈ state.net.log ∧
      .send [7, 8] 2 5 6 ∈ state.asked 1 := by
  intro state
  have hreachable : (machine (.uniform Network.twoCredits)).Reachable state :=
    ReachableUnder.after (fun _ _ _ => trivial) _ .init
  have hup : (2, .forwardUp ⟨1, 2, 5, 6, 0⟩ 0 [7, 8]) ∈ state.net.log := by decide +kernel
  have hone : state.net.begins ⟨1, 2, 5, 6, 0⟩ ≤ 1 := by decide +kernel
  clear_value state
  obtain ⟨-, sent, hasked, hmessage⟩ := forwardUp_intact hreachable hup hone rfl
  rw [if_neg (by decide)] at hmessage
  subst hmessage
  exact ⟨hup, hasked⟩

end AskedNetwork

end HomaSird.Homa
