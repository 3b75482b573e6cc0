import HomaSird.Homa.Network
import HomaSird.Homa.ReceiverStep
import HomaSird.Homa.SenderStep

/-! # What one step does to the network

A step runs one scheduler of one host, or drops a packet. So what is proved of a sender or a
receiver that is fed with anything holds of every host.
-/

namespace HomaSird.Homa

open Transition Transition.Machine HomaRecvScheduler List HomaL4Protocol

namespace Packet

@[simp] theorem mark_homaHeader (packet : Packet) (congested : Bool) :
    (packet.mark congested).homaHeader = packet.homaHeader := by
  unfold mark
  split <;> rfl

@[simp] theorem mark_payload (packet : Packet) (congested : Bool) :
    (packet.mark congested).payload = packet.payload := by
  unfold mark
  split <;> rfl

@[simp] theorem mark_origin (packet : Packet) (congested : Bool) :
    (packet.mark congested).origin = packet.origin := by
  unfold mark
  split <;> rfl

@[simp] theorem mark_source (packet : Packet) (congested : Bool) :
    (packet.mark congested).ipv4Header.source = packet.ipv4Header.source := by
  unfold mark
  split <;> rfl

@[simp] theorem mark_destination (packet : Packet) (congested : Bool) :
    (packet.mark congested).ipv4Header.destination = packet.ipv4Header.destination := by
  unfold mark
  split <;> rfl

@[simp] theorem mark_key (packet : Packet) (congested : Bool) :
    (packet.mark congested).key = packet.key := by
  simp [key]

@[simp] theorem mark_ctrlKey (packet : Packet) (congested : Bool) :
    (packet.mark congested).ctrlKey = packet.ctrlKey := by
  simp [ctrlKey]

@[simp] theorem mark_hasFlag (packet : Packet) (congested : Bool) (flag : Flag) :
    (packet.mark congested).hasFlag flag = packet.hasFlag flag := by
  simp [hasFlag]

end Packet

namespace HomaL4Protocol

variable {cfg : Config} {host next : HomaL4Protocol} {events : List Event}

theorem runSender_eq_ok {input : HomaSendScheduler.SendInput}
    (hrun : host.runSender cfg input = .ok (next, events)) :
    host.sendScheduler.handle cfg input = .ok (next.sendScheduler, events) ∧
      next = { host with sendScheduler := next.sendScheduler } := by
  obtain ⟨⟨sendScheduler, sent⟩, hhandle, hok⟩ := bind_eq_ok.mp hrun
  cases hok
  exact ⟨hhandle, rfl⟩

theorem runReceiver_eq_ok {input : HomaRecvScheduler.RecvInput}
    (hrun : host.runReceiver cfg input = .ok (next, events)) :
    host.recvScheduler.handle cfg input = .ok (next.recvScheduler, events) ∧
      next = { host with recvScheduler := next.recvScheduler } := by
  obtain ⟨⟨recvScheduler, sent⟩, hhandle, hok⟩ := bind_eq_ok.mp hrun
  cases hok
  exact ⟨hhandle, rfl⟩

end HomaL4Protocol

namespace Network

variable {setting : Setting} {net next : Network}

/-- What the action asks the host to send. -/
def requests (addr : Ipv4Address) : Action → List HostInput
  | .host mover (.send message daddr sport dport) =>
    if mover = addr then [.send message daddr sport dport] else []
  | _ => []

/-- The packets are off the wire, and the rest is as it was. -/
structure Taking (net : Network) (arrived : List Packet) (base : Network) : Prop where
  hosts_eq : base.hosts = net.hosts
  log_eq : base.log = net.log
  perm : net.inFlight.Perm (arrived ++ base.inFlight)

theorem taking_nil (net : Network) : net.Taking [] net := ⟨rfl, rfl, .rfl⟩

theorem taking_remove {index : Nat} {packet : Packet}
    (hpkt : net.inFlight[index]? = some packet) : net.Taking [packet] (net.remove index) := by
  obtain ⟨hlt, rfl⟩ := List.getElem?_eq_some_iff.mp hpkt
  exact ⟨rfl, rfl, (getElem_cons_eraseIdx_perm hlt).symm⟩

/-- One scheduler of one host has run, or a packet is gone. -/
inductive Stepped (setting : Setting) (net : Network) (action : Action) (next : Network) :
    Prop where
  | sender {base : Network} {arrived : List Packet} {addr : Ipv4Address}
      {input : HomaSendScheduler.SendInput} {host : HomaL4Protocol} {events : List Event}
      (hbase : net.Taking arrived base) (hnext : next = base.update addr (host, events))
      (hhandle : (net.hosts addr).sendScheduler.handle (setting.config addr) input =
        .ok (host.sendScheduler, events))
      (hrecv : host.recvScheduler = (net.hosts addr).recvScheduler)
      (hask : ∀ message saddr daddr sport dport origin,
        input = .send message saddr daddr sport dport origin → saddr = addr ∧
          origin = (net.hosts addr).nextOrigin ∧
          action = .host addr (.send message daddr sport dport))
      (hctrl : ∀ packet platform, input = .ctrlPkt packet platform → ∃ congested,
        ∃ sent ∈ arrived, packet = sent.mark congested)
      (horigin : host.nextOrigin =
        (net.hosts addr).nextOrigin + (requests addr action).length)
      (hquiet : ∀ other ≠ addr, requests other action = [])
  | receiver {base : Network} {arrived : List Packet} {addr : Ipv4Address}
      {input : HomaRecvScheduler.RecvInput} {host : HomaL4Protocol} {events : List Event}
      (hbase : net.Taking arrived base) (hnext : next = base.update addr (host, events))
      (hhandle : (net.hosts addr).recvScheduler.handle (setting.config addr) input =
        .ok (host.recvScheduler, events))
      (hsend : host.sendScheduler = (net.hosts addr).sendScheduler)
      (hinp : ∀ packet, input = .packet packet → ∃ congested sent,
        arrived = [sent] ∧ packet = sent.mark congested ∧ sent.ipv4Header.destination = addr)
      (horigin : host.nextOrigin = (net.hosts addr).nextOrigin)
      (hquiet : ∀ other, requests other action = [])
  | discard {arrived : List Packet} (hbase : net.Taking arrived next)
      (hquiet : ∀ other, requests other action = [])

@[simp] theorem hosts_update_self (net : Network) (addr : Ipv4Address)
    (moved : HomaL4Protocol × List Event) : (net.update addr moved).hosts addr = moved.1 :=
  Function.update_self _ _ _

theorem hosts_update_of_ne (net : Network) {addr other : Ipv4Address} (hne : other ≠ addr)
    (moved : HomaL4Protocol × List Event) : (net.update addr moved).hosts other = net.hosts other :=
  Function.update_of_ne hne _ _

theorem drop_log_update (net : Network) (addr : Ipv4Address) (moved : HomaL4Protocol × List Event) :
    (net.update addr moved).log.drop net.log.length = moved.2.map (addr, ·) :=
  drop_left

variable {action : Action}

theorem update_unchanged (net : Network) (addr : Ipv4Address) :
    net.update addr (net.hosts addr, []) = net := by
  simp [update, sentPackets]

theorem Stepped.log_eq (hmove : Stepped setting net action next) :
    next.log = net.log ++ next.log.drop net.log.length := by
  have hprefix : net.log <+: next.log := by
    cases hmove with
    | sender hbase hnext => exact hnext ▸ hbase.log_eq ▸ prefix_append _ _
    | receiver hbase hnext => exact hnext ▸ hbase.log_eq ▸ prefix_append _ _
    | discard hbase => exact hbase.log_eq ▸ prefix_rfl
  exact prefix_iff_eq_append.mp hprefix |>.symm

theorem step_eq_ok (hstep : step setting net action = .ok next) :
    Stepped setting net action next := by
  cases action with
  | host addr input =>
    obtain ⟨⟨moved, events⟩, hact, hok⟩ := bind_eq_ok.mp hstep
    cases hok
    cases input with
    | send message daddr sport dport =>
      obtain ⟨⟨sent, begun⟩, hrun, hsent⟩ := bind_eq_ok.mp hact
      cases hsent
      obtain ⟨hhandle, hframe⟩ := runSender_eq_ok hrun
      refine .sender net.taking_nil rfl hhandle (by rw [hframe]) ?_ (by rintro _ _ ⟨⟩)
        (by simp [requests]) (fun other hne => if_neg hne.symm)
      rintro _ _ _ _ _ _ ⟨⟩
      exact ⟨rfl, rfl, rfl⟩
    | txDataPacket drained order =>
      obtain ⟨hhandle, hframe⟩ := runSender_eq_ok hact
      exact .sender net.taking_nil rfl hhandle (by rw [hframe]) (by rintro _ _ _ _ _ _ ⟨⟩)
        (by rintro _ _ ⟨⟩) (by rw [hframe]; rfl) (fun _ _ => rfl)
    | creditTick =>
      obtain ⟨hhandle, hframe⟩ := runReceiver_eq_ok hact
      exact .receiver net.taking_nil rfl hhandle (by rw [hframe]) (by rintro _ ⟨⟩) (by rw [hframe])
        (fun _ => rfl)
    | rtxExpire timer =>
      obtain ⟨hhandle, hframe⟩ := runReceiver_eq_ok hact
      exact .receiver net.taking_nil rfl hhandle (by rw [hframe]) (by rintro _ ⟨⟩) (by rw [hframe])
        (fun _ => rfl)
  | deliver index congested platform =>
    simp only [step] at hstep
    split at hstep
    · cases hstep
    next packet hpkt =>
      obtain ⟨⟨moved, events⟩, hrecv, hok⟩ := bind_eq_ok.mp hstep
      cases hok
      simp only [receive, Packet.mark_hasFlag] at hrecv
      split at hrecv
      · obtain ⟨hhandle, hframe⟩ := runReceiver_eq_ok hrecv
        refine .receiver (taking_remove hpkt) rfl hhandle (by rw [hframe]) ?_ (by rw [hframe])
          (fun _ => rfl)
        rintro _ ⟨⟩
        exact ⟨congested, packet, rfl, rfl, rfl⟩
      · -- neither DATA nor BUSY: for the sender side, or for nobody
        split at hrecv
        · obtain ⟨hhandle, hframe⟩ := runSender_eq_ok hrecv
          refine .sender (taking_remove hpkt) rfl hhandle (by rw [hframe])
            (by rintro _ _ _ _ _ _ ⟨⟩) ?_ (by rw [hframe]; rfl) (fun _ _ => rfl)
          rintro _ _ ⟨⟩
          exact ⟨congested, packet, mem_cons_self, rfl⟩
        · cases hrecv
          have hsame : (net.remove index).update packet.ipv4Header.destination
              (net.hosts packet.ipv4Header.destination, []) = net.remove index :=
            (net.remove index).update_unchanged packet.ipv4Header.destination
          rw [hsame]
          exact .discard (taking_remove hpkt) fun _ => rfl
  | lose index =>
    simp only [step] at hstep
    split at hstep
    · cases hstep
    next hpkt =>
      cases hstep
      exact .discard (taking_remove hpkt) fun _ => rfl

/-! ## The machines of the hosts -/

theorem Stepped.runs_sender (hmove : Stepped setting net action next) (addr : Ipv4Address) :
    ∃ inputs, (HomaSendScheduler.machine (setting.config addr)).run inputs
        (net.hosts addr).sendScheduler = .ok (next.hosts addr).sendScheduler := by
  cases hmove with
  | @sender base _ mover input host events hbase hnext hhandle =>
    subst hnext
    by_cases hsame : addr = mover
    · subst hsame
      rw [hosts_update_self]
      refine ⟨[input], run_cons_ok.mpr ⟨host.sendScheduler, ?_, rfl⟩⟩
      exact bind_eq_ok.mpr ⟨_, hhandle, rfl⟩
    · rw [hosts_update_of_ne _ hsame, hbase.hosts_eq]
      exact ⟨[], rfl⟩
  | @receiver base _ mover _ host events hbase hnext _ hsend =>
    subst hnext
    refine ⟨[], congrArg Except.ok ?_⟩
    by_cases hsame : addr = mover
    · subst hsame
      rw [hosts_update_self, hsend]
    · rw [hosts_update_of_ne _ hsame, hbase.hosts_eq]
  | discard hbase => exact ⟨[], by rw [hbase.hosts_eq]; rfl⟩

section

variable {allowed : Network → Action → Prop} (addr : Ipv4Address)
  (hreach : (machine setting).ReachableUnder allowed net)
include hreach

theorem sender_reachable :
    (HomaSendScheduler.machine (setting.config addr)).Reachable (net.hosts addr).sendScheduler :=
  hreach.simulation (fun state => (state.hosts addr).sendScheduler) rfl
    fun _ _ _ _ _ _ hstep => (step_eq_ok hstep).runs_sender addr

theorem sender_wellFormed : (net.hosts addr).sendScheduler.WellFormed (setting.config addr) :=
  HomaSendScheduler.wellFormed_of_reachable (sender_reachable addr hreach)

end

def isReceiverEvent : Event → Bool
  | .sendDown packet => !packet.hasFlag .data && !packet.hasFlag .busy
  | .msgBegin .. => false
  | .forwardUp .. => true
  | .dataRecv _ => true
  | .rtxLimit .. => true

def receiverOf (net : Network) (addr : Ipv4Address) : Receiver where
  sched := (net.hosts addr).recvScheduler
  trace := (net.eventsOf addr).filter isReceiverEvent

theorem eventsOf_update (net : Network) (addr other : Ipv4Address)
    (moved : HomaL4Protocol × List Event) :
    (net.update addr moved).eventsOf other =
      net.eventsOf other ++ if other = addr then moved.2 else [] := by
  rw [eventsOf, update, filter_append, map_append, eventsOf, append_cancel_left_eq,
    filter_map, map_map]
  split
  next heq =>
    subst heq
    rw [filter_eq_self.mpr (by simp)]
    exact map_id _
  next hne =>
    rw [filter_eq_nil_iff.mpr (by simp [Ne.symm hne])]
    rfl

theorem isReceiverEvent_ctrlPacket {flag : Flag} (hdata : flag ≠ .data) (hbusy : flag ≠ .busy)
    (msg : HomaInboundMsg) (pktOffset grantOffset prio : Nat) :
    isReceiverEvent (.sendDown (msg.ctrlPacket flag pktOffset grantOffset prio)) = true := by
  simp [isReceiverEvent, HomaInboundMsg.hasFlag_ctrlPacket, hdata, hbusy]

section

variable {cfg : Config} {sched moved : HomaRecvScheduler} {input : HomaRecvScheduler.RecvInput}
  {events : List Event} (hwf : sched.WellFormed cfg)
  (hhandle : sched.handle cfg input = .ok (moved, events))
include hwf hhandle

theorem filter_receiver : events.filter isReceiverEvent = events := by
  rw [filter_eq_self]
  intro event hev
  cases emitted hwf hhandle hev with
  | forwardUp => rfl
  | ack => exact isReceiverEvent_ctrlPacket (by decide) (by decide) _ _ _ _
  | dataRecv => rfl
  | grant _ hgrant =>
    obtain ⟨_, _, _, -, rfl⟩ := hgrant
    exact isReceiverEvent_ctrlPacket (by decide) (by decide) _ _ _ _
  | rtxLimit => rfl
  | resend => exact isReceiverEvent_ctrlPacket (by decide) (by decide) _ _ _ _

omit hwf hhandle in
theorem filter_sender {cfg : Config} {sched moved : HomaSendScheduler} (hwf :
    sched.WellFormed cfg) {input : HomaSendScheduler.SendInput} {events : List Event} (hhandle :
    sched.handle cfg input = .ok (moved, events)) : events.filter isReceiverEvent = [] := by
  rw [List.filter_eq_nil_iff]
  intro event hev
  cases HomaSendScheduler.handle_outcome hwf hhandle with
  | idle _ _ hevs =>
    subst hevs
    cases hev
  | accepted _ _ _ hevs =>
    subst hevs
    rw [List.mem_singleton.mp hev]
    exact Bool.false_ne_true
  | transmitted _ htransmitted _ _ hevs =>
    subst hevs
    have hflag := HomaSendScheduler.hasFlag_of_transmitted htransmitted
    rw [List.mem_singleton.mp hev]
    simp [isReceiverEvent, hflag]
  | controlled _ _ _ _ _ hevs =>
    rcases hevs with rfl | ⟨txMsgId, rfl⟩
    · cases hev
    · rw [List.mem_singleton.mp hev]
      simp [isReceiverEvent, HomaOutboundMsg.hasFlag_generateBusy]
  | acked _ _ _ hevs =>
    subst hevs
    cases hev

theorem control_of_receiver : ∀ packet ∈ sentPackets events, packet.hasFlag .data = false := by
  intro packet hpkt
  obtain ⟨event, hev, hsent⟩ := mem_filterMap.mp hpkt
  have hkind := filter_eq_self.mp (filter_receiver hwf hhandle) event hev
  cases event with
  | sendDown sent =>
    cases hsent
    simp only [isReceiverEvent, Bool.and_eq_true, Bool.not_eq_true'] at hkind
    exact hkind.1
  | msgBegin => cases hsent
  | forwardUp => cases hsent
  | dataRecv => cases hsent
  | rtxLimit => cases hsent

end

theorem control_of_sender {cfg : Config} {sched moved : HomaSendScheduler}
    (hwf : sched.WellFormed cfg) {input : HomaSendScheduler.SendInput} {events : List Event}
    (hinp : ∀ drained order, input ≠ .txDataPacket drained order)
    (hhandle : sched.handle cfg input = .ok (moved, events)) :
    ∀ packet ∈ sentPackets events, packet.hasFlag .data = false := by
  cases HomaSendScheduler.handle_outcome hwf hhandle with
  | idle _ _ hevs => simp [hevs, sentPackets]
  | accepted _ _ _ hevs => simp [hevs, sentPackets]
  | transmitted => exact absurd rfl (hinp _ _)
  | controlled _ _ _ _ _ hevs =>
    rcases hevs with rfl | ⟨txMsgId, rfl⟩
    · simp [sentPackets]
    · simp [sentPackets, HomaOutboundMsg.hasFlag_generateBusy]
  | acked _ _ _ hevs => simp [hevs, sentPackets]

theorem receiverOf_update (net : Network) (addr : Ipv4Address) (host : HomaL4Protocol)
    (events : List Event) :
    (net.update addr (host, events)).receiverOf addr =
      { sched := host.recvScheduler
        trace := (net.receiverOf addr).trace ++ events.filter isReceiverEvent } := by
  rw [receiverOf, hosts_update_self, eventsOf_update, if_pos rfl, filter_append, receiverOf]

theorem receiverOf_update_of_ne (net : Network) {addr other : Ipv4Address} (hne : other ≠ addr)
    (moved : HomaL4Protocol × List Event) :
    (net.update addr moved).receiverOf other = net.receiverOf other := by
  rw [receiverOf, hosts_update_of_ne _ hne, eventsOf_update, if_neg hne, append_nil, receiverOf]

theorem Taking.receiverOf_eq {arrived : List Packet} {base : Network}
    (hbase : net.Taking arrived base) (addr : Ipv4Address) :
    base.receiverOf addr = net.receiverOf addr := by
  rw [receiverOf, receiverOf, eventsOf, eventsOf, hbase.hosts_eq, hbase.log_eq]

theorem Stepped.moves_receiver (hmove : Stepped setting net action next)
    (hsend : ∀ addr, (net.hosts addr).sendScheduler.WellFormed (setting.config addr))
    {addr : Ipv4Address} (hwf : (net.hosts addr).recvScheduler.WellFormed (setting.config addr)) :
    next.receiverOf addr = net.receiverOf addr ∨
      ∃ input, (Receiver.machine (setting.config addr)).step (net.receiverOf addr) input =
          .ok (next.receiverOf addr) := by
  cases hmove with
  | @sender base _ mover input host events hbase hnext hhandle hrecv =>
    -- a sender leaves the receiver of its host alone
    subst hnext
    left
    by_cases hsame : addr = mover
    · subst hsame
      rw [receiverOf_update, filter_sender (hsend _) hhandle, hrecv, hbase.receiverOf_eq,
        append_nil]
      rfl
    · rw [receiverOf_update_of_ne _ hsame, hbase.receiverOf_eq]
  | @receiver base _ mover input host events hbase hnext hhandle =>
    subst hnext
    by_cases hsame : addr = mover
    · subst hsame
      refine Or.inr ⟨input, bind_eq_ok.mpr ⟨_, hhandle, ?_⟩⟩
      rw [receiverOf_update, filter_receiver hwf hhandle, hbase.receiverOf_eq]
    · rw [receiverOf_update_of_ne _ hsame, hbase.receiverOf_eq]
      exact Or.inl rfl
  | discard hbase => exact Or.inl (hbase.receiverOf_eq addr)

section

variable {allowed : Network → Action → Prop} (addr : Ipv4Address)
  (hreach : (machine setting).ReachableUnder allowed net)
include hreach

theorem receiver_reachable :
    (Receiver.machine (setting.config addr)).Reachable (net.receiverOf addr) := by
  apply hreach.simulation (fun state => state.receiverOf addr) rfl
  intro state action next hprior hrecv _ hstep
  have hsend := fun other => sender_wellFormed other hprior
  rcases (step_eq_ok hstep).moves_receiver hsend (Receiver.wellFormed_of_reachable hrecv)
    with hsame | ⟨input, hmove⟩
  · exact ⟨[], congrArg Except.ok hsame.symm⟩
  · exact ⟨[input], run_cons_ok.mpr ⟨_, hmove, rfl⟩⟩

theorem receiver_wellFormed : (net.hosts addr).recvScheduler.WellFormed (setting.config addr) :=
  Receiver.wellFormed_of_reachable (receiver_reachable addr hreach)

end

structure WellFormed (setting : Setting) (net : Network) : Prop where
  sender : ∀ addr, (net.hosts addr).sendScheduler.WellFormed (setting.config addr)
  receiver : ∀ addr, (net.hosts addr).recvScheduler.WellFormed (setting.config addr)

theorem wellFormed_of_reachable {allowed : Network → Action → Prop}
    (hreach : (machine setting).ReachableUnder allowed net) : net.WellFormed setting :=
  ⟨fun addr => sender_wellFormed addr hreach, fun addr => receiver_wellFormed addr hreach⟩

/-- Whatever is delivered or lost, and in whatever order, both schedulers of a host are in states
of runs of their own, with the events they report. -/
theorem schedulers_run_alone {addr : Ipv4Address} (hreach : (machine setting).Reachable net) :
    (HomaSendScheduler.machine (setting.config addr)).Reachable (net.hosts addr).sendScheduler ∧
      (Receiver.machine (setting.config addr)).Reachable (net.receiverOf addr) :=
  ⟨sender_reachable addr hreach, receiver_reachable addr hreach⟩

theorem schedulers_run_alone_asked :
    let net := (machine (.uniform twoCredits)).after (fun _ _ => true) askedAgain initial
    ((net.hosts 1).sendScheduler.outboundMsgs.keys = [0] ∧
      (HomaSendScheduler.machine twoCredits).Reachable (net.hosts 1).sendScheduler) ∧
      (net.hosts 2).recvScheduler.inboundMsgs.length = 1 ∧
      (Receiver.machine twoCredits).Reachable (net.receiverOf 2) := by
  intro net
  have hreach : (machine (.uniform twoCredits)).Reachable net :=
    ReachableUnder.after (fun _ _ _ => trivial) _ .init
  have hkeys : (net.hosts 1).sendScheduler.outboundMsgs.keys = [0] := by decide +kernel
  have hpending : (net.hosts 2).recvScheduler.inboundMsgs.length = 1 := by decide +kernel
  clear_value net
  exact ⟨⟨hkeys, (@schedulers_run_alone (.uniform twoCredits) net 1 hreach).1⟩, hpending,
    (@schedulers_run_alone (.uniform twoCredits) net 2 hreach).2⟩

theorem begun_of_stepped (hwf : net.WellFormed setting) (hmove : Stepped setting net action next)
    {addr : Ipv4Address} {key : MsgKey} {origin msgSizeBytes : Nat}
    (hmem : (addr, .msgBegin key origin msgSizeBytes) ∈ next.log.drop net.log.length) :
    (∃ message daddr sport dport, action = .host addr (.send message daddr sport dport)) ∧
      key.saddr = addr ∧
      (∃ rest, (net.hosts addr).sendScheduler.txMsgIdFreeList = key.txMsgId :: rest) ∧
      next.log.drop net.log.length = [(addr, .msgBegin key origin msgSizeBytes)] := by
  cases hmove with
  | @sender base _ mover input host events hbase hnext hhandle _ hask =>
    have hdrop : next.log.drop net.log.length = events.map (mover, ·) :=
      hnext ▸ hbase.log_eq ▸ base.drop_log_update _ _
    rw [hdrop] at hmem
    obtain ⟨event, hev, heq⟩ := mem_map.mp hmem
    obtain ⟨rfl, rfl⟩ := Prod.mk.inj heq
    obtain ⟨⟨message, hinp, -⟩, hfree, rfl⟩ :=
      HomaSendScheduler.begun_of_handle (hwf.sender mover) hhandle hev
    obtain ⟨hsaddr, -, haction⟩ := hask _ _ _ _ _ _ hinp
    exact ⟨⟨_, _, _, _, haction⟩, hsaddr, hfree, hdrop⟩
  | @receiver base _ mover input host events hbase hnext hhandle =>
    -- receivers begin no messages
    have hdrop : next.log.drop net.log.length = events.map (mover, ·) :=
      hnext ▸ hbase.log_eq ▸ base.drop_log_update _ _
    rw [hdrop] at hmem
    obtain ⟨event, hev, heq⟩ := mem_map.mp hmem
    have hkind := filter_eq_self.mp (filter_receiver (hwf.receiver mover) hhandle) event hev
    obtain ⟨rfl, rfl⟩ := Prod.mk.inj heq
    cases hkind
  | discard hbase =>
    rw [hbase.log_eq, drop_length] at hmem
    cases hmem

end Network

end HomaSird.Homa
