import HomaSird.Homa.PathRtt
import HomaSird.Homa.IdReuse

/-! # Which samples are round trips

A message is sampled once at most, since its entry is erased with it. A sample is the delay of a
trigger and of a response if the packets that arrive are those on record. Nothing says so: the
trigger on record may have been lost, and a later one has arrived.
-/

namespace HomaSird.Homa

open Transition Transition.Machine HomaSendScheduler List UnorderedMap

/-! ## The messages of a host -/

namespace HomaSendScheduler

variable {cfg : Config} {sched next : HomaSendScheduler} {events : List Event}
  {key : MsgKey} {origin : Nat}

theorem holder_eq_some :
    sched.holder key = some origin ↔
      ∃ msg,
        sched.outboundMsgs.lookup key.txMsgId = some msg ∧ msg.key key.txMsgId = key ∧
          msg.origin = origin := by
  unfold holder
  cases sched.outboundMsgs.lookup key.txMsgId with
  | none => simp
  | some msg =>
    by_cases hkey : msg.key key.txMsgId = key
    · simp [hkey]
    · simp [hkey]

theorem mem_clearedKeys {after : HomaSendScheduler} :
    key ∈ sched.clearedKeys after ↔ after.outboundMsgs.lookup key.txMsgId = none ∧
    ∃ msg, sched.outboundMsgs.lookup key.txMsgId = some msg ∧ msg.key key.txMsgId = key := by
  rw [clearedKeys, mem_filterMap]
  constructor
  · rintro ⟨⟨txMsgId, msg⟩, hmem, hclear⟩
    split at hclear
    next hgone =>
      cases hclear
      exact ⟨Option.isNone_iff_eq_none.mp hgone, msg, AList.mem_lookup_iff.mpr hmem, rfl⟩
    · cases hclear
  · rintro ⟨hgone, msg, hlook, hkey⟩
    refine ⟨⟨key.txMsgId, msg⟩, AList.mem_lookup_iff.mp hlook, ?_⟩
    simp [hgone, hkey]

section

variable {input : SendInput} (hwf : sched.WellFormed cfg)
  (hhandle : sched.handle cfg input = .ok (next, events))
include hwf hhandle

theorem lookup_of_handle {txMsgId : Nat} {msg : HomaOutboundMsg}
    (hlook : next.outboundMsgs.lookup txMsgId = some msg) :
    (∃ prior, sched.outboundMsgs.lookup txMsgId = some prior ∧ prior.SameMsg msg) ∨
      sched.outboundMsgs.lookup txMsgId = none ∧
        ∃ message daddr sport dport,
          input = .send message msg.saddr daddr sport dport msg.origin := by
  have hupd : ∀ {changed : Nat} {prior updated : HomaOutboundMsg},
      sched.outboundMsgs.lookup changed = some prior → prior.SameMsg updated →
      next.outboundMsgs = sched.outboundMsgs.insert changed updated →
      ∃ prior, sched.outboundMsgs.lookup txMsgId = some prior ∧ prior.SameMsg msg := by
    intro changed prior updated hprior hsame hmsgs
    rw [hmsgs, lookup_insert] at hlook
    split at hlook
    next heq =>
      subst heq
      obtain rfl := Option.some.inj hlook
      exact ⟨prior, hprior, hsame⟩
    · exact ⟨msg, hlook, .refl msg⟩
  cases handle_outcome hwf hhandle with
  | idle hmsgs => exact .inl ⟨msg, hmsgs ▸ hlook, .refl msg⟩
  | @accepted message saddr daddr sport dport _ created accepted hfree hmade hmsgs =>
    rw [hmsgs, lookup_insert] at hlook
    split at hlook
    next heq =>
      subst heq
      obtain rfl := Option.some.inj hlook
      have hunused := hwf.free_unused txMsgId (hfree ▸ mem_cons_self)
      have hsaddr : created.saddr = saddr := congrArg MsgKey.saddr (hmade.key_eq txMsgId)
      exact .inr ⟨hunused, message, daddr, sport, dport, by rw [hsaddr, hmade.origin_eq]⟩
    · exact .inl ⟨msg, hlook, .refl msg⟩
  | transmitted hprior hsent hmsgs =>
    exact .inl (hupd hprior hsent.sameMsg.1 hmsgs)
  | controlled hprior _ hctrl hmsgs =>
    exact .inl (hupd hprior hctrl.sameMsg.1 hmsgs)
  | acked _ hmsgs =>
    rw [hmsgs] at hlook
    split at hlook
    · cases hlook
    · exact .inl ⟨msg, hlook, .refl msg⟩

theorem holder_of_sent {packet : Packet} (hsent : packet ∈ Network.sentPackets events)
    (hdata : packet.hasFlag .data = true) : ∃ origin, next.holder packet.key = some origin := by
  cases handle_outcome hwf hhandle with
  | @transmitted _ _ txMsgId msg sent _ hlook htransmitted hmsgs _ hevs =>
    subst hevs
    obtain rfl : packet = _ := by simpa [Network.sentPackets] using hsent
    have hattr := @attributed_transmitted (· = msg.begunMsg txMsgId) cfg txMsgId msg sent
      packet (hwf.sound _ _ hlook) rfl htransmitted
    have hpkt := hattr.of_data hdata
    have hkey : packet.key = msg.key txMsgId := congrArg BegunMsg.key hpkt.1
    have hid : packet.key.txMsgId = txMsgId := congrArg MsgKey.txMsgId hkey
    refine ⟨sent.origin, holder_eq_some.mpr ⟨sent, ?_, ?_, rfl⟩⟩
    · rw [hmsgs, hid, AList.lookup_insert]
    · rw [htransmitted.sameMsg.1.key_eq, hid, hkey]
  | idle _ _ hevs =>
    subst hevs
    cases hsent
  | accepted _ _ _ hevs =>
    subst hevs
    cases hsent
  | controlled _ _ _ _ _ hevs =>
    rcases hevs with rfl | ⟨nextTxMsgId, rfl⟩
    · cases hsent
    · obtain rfl : packet = _ := by simpa [Network.sentPackets] using hsent
      simp [HomaOutboundMsg.hasFlag_generateBusy] at hdata
  | acked _ _ _ hevs =>
    subst hevs
    cases hsent

end

end HomaSendScheduler

namespace HomaL4Protocol

variable {cfg : Config} {addr : Ipv4Address} {host moved : HomaL4Protocol}
  {events : List Event}

def Owns (addr : Ipv4Address) (host : HomaL4Protocol) : Prop :=
  ∀ txMsgId msg, host.sendScheduler.outboundMsgs.lookup txMsgId = some msg →
    msg.saddr = addr ∧ msg.origin < host.nextOrigin

/-- A message that is not cleared stays under its key, a new one has a new serial number, and what
goes down as DATA is of a message that is held. -/
structure Moved (addr : Ipv4Address) (host moved : HomaL4Protocol) (events : List Event) :
    Prop where
  owns : moved.Owns addr
  later : host.nextOrigin ≤ moved.nextOrigin
  keeps : ∀ key origin, host.sendScheduler.holder key = some origin →
    key ∉ host.sendScheduler.clearedKeys moved.sendScheduler →
      moved.sendScheduler.holder key = some origin
  fresh : ∀ key origin, moved.sendScheduler.holder key = some origin →
    host.sendScheduler.holder key = some origin ∨ host.nextOrigin ≤ origin
  gone : ∀ key ∈ host.sendScheduler.clearedKeys moved.sendScheduler,
    key.saddr = addr ∧ moved.sendScheduler.holder key = none
  sends : ∀ packet ∈ Network.sentPackets events, packet.hasFlag .data = true →
    packet.key.saddr = addr ∧ ∃ origin, moved.sendScheduler.holder packet.key = some origin

theorem moved_of_sender (howns : host.Owns addr) (hwf : host.sendScheduler.WellFormed cfg)
    {input : HomaSendScheduler.SendInput}
    (hhandle : host.sendScheduler.handle cfg input = .ok (moved.sendScheduler, events))
    (hlater : host.nextOrigin ≤ moved.nextOrigin)
    (hown : ∀ message saddr daddr sport dport origin,
      input = .send message saddr daddr sport dport origin →
        saddr = addr ∧ origin = host.nextOrigin ∧ origin < moved.nextOrigin) :
    Moved addr host moved events := by
  -- what is stored afterwards was stored before, or is the message just handed in
  have hmoved : moved.Owns addr := by
    intro txMsgId msg hlook
    rcases lookup_of_handle hwf hhandle hlook with
      ⟨prior, hprior, hsame⟩ | ⟨_, message, daddr, sport, dport, hinp⟩
    · obtain ⟨hsaddr, horigin⟩ := howns txMsgId prior hprior
      refine ⟨(congrArg MsgKey.saddr (hsame.key_eq txMsgId)).trans hsaddr, ?_⟩
      rw [hsame.origin_eq]
      exact horigin.trans_le hlater
    · obtain ⟨hsaddr, _, horigin⟩ := hown _ _ _ _ _ _ hinp
      exact ⟨hsaddr, horigin⟩
  refine ⟨hmoved, hlater, ?_, ?_, ?_, ?_⟩
  · intro key origin hholder hkept
    obtain ⟨msg, hlook, hkey, horigin⟩ := holder_eq_some.mp hholder
    cases hnext : moved.sendScheduler.outboundMsgs.lookup key.txMsgId with
    | none =>
      have hclear := mem_clearedKeys.mpr ⟨hnext, msg, hlook, hkey⟩
      exact absurd hclear hkept
    | some updated =>
      rcases lookup_of_handle hwf hhandle hnext with
        ⟨prior, hprior, hsame⟩ | ⟨hnone, _⟩
      · obtain rfl := Option.some.inj (hlook.symm.trans hprior)
        exact holder_eq_some.mpr ⟨updated, hnext,
          (hsame.key_eq _).trans hkey, hsame.origin_eq.trans horigin⟩
      · rw [hlook] at hnone
        cases hnone
  · intro key origin hholder
    obtain ⟨msg, hlook, hkey, horigin⟩ := holder_eq_some.mp hholder
    rcases lookup_of_handle hwf hhandle hlook with
      ⟨prior, hprior, hsame⟩ | ⟨_, message, daddr, sport, dport, hinp⟩
    · exact .inl (holder_eq_some.mpr ⟨prior, hprior,
        (hsame.key_eq _).symm.trans hkey, hsame.origin_eq.symm.trans horigin⟩)
    · obtain ⟨_, hnew, _⟩ := hown _ _ _ _ _ _ hinp
      exact .inr (horigin ▸ hnew.ge)
  · intro key hclear
    obtain ⟨hgone, msg, hlook, hkey⟩ := mem_clearedKeys.mp hclear
    refine ⟨?_, by rw [holder, hgone]⟩
    rw [← hkey]
    exact (howns _ msg hlook).1
  · intro packet hpkt hdata
    obtain ⟨origin, hholder⟩ := holder_of_sent hwf hhandle hpkt hdata
    obtain ⟨msg, hlook, hkey, _⟩ := holder_eq_some.mp hholder
    refine ⟨?_, origin, hholder⟩
    rw [← hkey]
    exact (hmoved _ msg hlook).1

theorem moved_of_frame (howns : host.Owns addr) (hsender : moved.sendScheduler = host.sendScheduler)
    (horigin : moved.nextOrigin = host.nextOrigin)
    (hcontrol : ∀ packet ∈ Network.sentPackets events, packet.hasFlag .data = false) :
    Moved addr host moved events := by
  refine ⟨?_, horigin.ge, ?_, ?_, ?_, ?_⟩
  · rw [Owns, hsender, horigin]
    exact howns
  · intro key origin hholder _
    rwa [hsender]
  · intro key origin hholder
    exact .inl (hsender ▸ hholder)
  · intro key hclear
    obtain ⟨hgone, msg, hlook, _⟩ := mem_clearedKeys.mp hclear
    rw [hsender, hlook] at hgone
    cases hgone
  · intro packet hpkt hdata
    rw [hcontrol packet hpkt] at hdata
    cases hdata

section

variable (howns : host.Owns addr) (hsender : host.sendScheduler.WellFormed cfg) (hreceiver :
  host.recvScheduler.WellFormed cfg)
include howns hsender hreceiver

theorem moved_of_act {input : HostInput}
    (hact : host.act cfg addr input = .ok (moved, events)) : Moved addr host moved events := by
  cases input with
  | send message daddr sport dport =>
    obtain ⟨⟨sent, begun⟩, hrun, hsent⟩ := bind_eq_ok.mp hact
    cases hsent
    obtain ⟨hhandle, hframe⟩ := runSender_eq_ok hrun
    apply @moved_of_sender _ _ _ { sent with nextOrigin := host.nextOrigin + 1 } _ howns hsender
      _ hhandle (Nat.le_succ _)
    rintro _ _ _ _ _ _ ⟨⟩
    exact ⟨rfl, rfl, Nat.lt_succ_self _⟩
  | txDataPacket drained order =>
    obtain ⟨hhandle, hframe⟩ := runSender_eq_ok hact
    apply moved_of_sender howns hsender hhandle (by rw [hframe])
    rintro _ _ _ _ _ _ ⟨⟩
  | creditTick =>
    obtain ⟨hhandle, hframe⟩ := runReceiver_eq_ok hact
    exact moved_of_frame howns (by rw [hframe]) (by rw [hframe])
      (Network.control_of_receiver hreceiver hhandle)
  | rtxExpire timer =>
    obtain ⟨hhandle, hframe⟩ := runReceiver_eq_ok hact
    exact moved_of_frame howns (by rw [hframe]) (by rw [hframe])
      (Network.control_of_receiver hreceiver hhandle)

theorem moved_of_receive {packet : Packet} {platform : Platform} (hrecv :
    host.receive cfg packet platform = .ok (moved, events)) : Moved addr host moved events := by
  unfold receive at hrecv
  split at hrecv
  · obtain ⟨hhandle, hframe⟩ := runReceiver_eq_ok hrecv
    exact moved_of_frame howns (by rw [hframe]) (by rw [hframe])
      (Network.control_of_receiver hreceiver hhandle)
  · split at hrecv
    · obtain ⟨hhandle, hframe⟩ := runSender_eq_ok hrecv
      apply moved_of_sender howns hsender hhandle (by rw [hframe])
      rintro _ _ _ _ _ _ ⟨⟩
    · cases hrecv
      exact moved_of_frame howns rfl rfl fun packet hpkt => (not_mem_nil hpkt).elim

end

end HomaL4Protocol

/-! ## The entries of the table -/

namespace PathRttFlowState

variable {first second third : PathRttFlowState}

structure Noted (before after : PathRttFlowState) : Prop where
  emitted_eq : after.sampleEmitted = before.sampleEmitted
  rx_eq : after.haveTriggerRx = before.haveTriggerRx
  rxTime_eq : after.triggerRxTime = before.triggerRxTime
  tx : before.haveTriggerTx = true →
    after.haveTriggerTx = true ∧ after.triggerTxTime = before.triggerTxTime

theorem Noted.refl (state : PathRttFlowState) : Noted state state :=
  ⟨rfl, rfl, rfl, fun htx => ⟨htx, rfl⟩⟩

theorem Noted.trans (hfst : Noted first second) (hsnd : Noted second third) :
    Noted first third where
  emitted_eq := hsnd.emitted_eq.trans hfst.emitted_eq
  rx_eq := hsnd.rx_eq.trans hfst.rx_eq
  rxTime_eq := hsnd.rxTime_eq.trans hfst.rxTime_eq
  tx htx := by
    obtain ⟨hmiddle, htime⟩ := hfst.tx htx
    exact ⟨(hsnd.tx hmiddle).1, (hsnd.tx hmiddle).2.trans htime⟩

theorem noted_triggerSent (now : Nat) (header : HomaHeader)
    (state : PathRttFlowState) : Noted state (state.triggerSent now header) := by
  unfold triggerSent
  split
  next hnew =>
    refine ⟨rfl, rfl, rfl, fun htx => ?_⟩
    rw [htx, Bool.not_true, Bool.and_false] at hnew
    cases hnew
  · exact .refl state

theorem responseSent_eq (now : Nat) (header : HomaHeader) (state : PathRttFlowState) :
    ∃ responseTxStates, state.responseSent now header = { state with responseTxStates } := by
  unfold responseSent
  split
  · exact ⟨_, rfl⟩
  · exact ⟨_, rfl⟩

theorem matching_eq_some {header : HomaHeader} {state : PathRttFlowState}
    {response : PathRttResponseTxState} (hmatch : state.matching header = some response) :
    state.sampleEmitted = false ∧ state.haveTriggerTx = true ∧ state.haveTriggerRx = true := by
  unfold matching at hmatch
  split at hmatch
  next hready =>
    simp only [Bool.and_eq_true, Bool.not_eq_true'] at hready
    exact ⟨hready.1.1, hready.1.2, hready.2⟩
  · cases hmatch

end PathRttFlowState

namespace PathRttFlowStates

open PathRttFlowState

variable {flows : PathRttFlowStates} {now : Nat} {packet : Packet}

theorem entry_insert (flows : PathRttFlowStates) (key other : MsgKey) (state : PathRttFlowState) :
    entry (flows.insert key state) other = if other = key then state else entry flows other :=
  getD_insert ..

theorem entry_of_lookup {key : MsgKey} {state : PathRttFlowState}
    (hlook : flows.lookup key = some state) : entry flows key = state := by
  rw [entry, UnorderedMap.getD, hlook, Option.getD_some]

theorem entry_clear (flows : PathRttFlowStates) (keys : List MsgKey)
    (key : MsgKey) : entry (flows.clear keys) key = if key ∈ keys then {} else entry flows key := by
  induction keys generalizing flows with
  | nil => rfl
  | cons first rest ih =>
    have herase : entry (flows.erase first) key =
        if key = first then {} else entry flows key := by
      rw [entry, UnorderedMap.getD, UnorderedMap.lookup_erase]
      split <;> rfl
    rw [clear, foldl_cons, ← clear, ih, herase]
    by_cases hfst : key = first
    · simp [hfst]
    · simp [hfst]

theorem entry_sendDown (now : Nat) (flows : PathRttFlowStates) (packet : Packet) (key : MsgKey) :
    Noted (entry flows key) (entry (flows.sendDown now packet) key) ∧
      ((entry (flows.sendDown now packet) key).haveTriggerTx = true →
        (entry flows key).haveTriggerTx = true ∨
          packet.hasFlag .data = true ∧ packet.key = key) := by
  have hsame : Noted (entry flows key) (entry flows key) ∧
      ((entry flows key).haveTriggerTx = true →
        (entry flows key).haveTriggerTx = true ∨
          packet.hasFlag .data = true ∧ packet.key = key) :=
    ⟨.refl _, Or.inl⟩
  unfold sendDown
  split
  next hdata =>
    split
    · rw [entry_insert]
      split
      next heq =>
        subst heq
        exact ⟨noted_triggerSent .., fun _ => .inr ⟨hdata, rfl⟩⟩
      · exact hsame
    · exact hsame
  · split
    · split
      next state hlook =>
        rw [entry_insert]
        split
        next heq =>
          subst heq
          rw [entry_of_lookup hlook]
          obtain ⟨responseTxStates, heq⟩ := responseSent_eq now packet.homaHeader state
          rw [heq]
          exact ⟨⟨rfl, rfl, rfl, fun htx => ⟨htx, rfl⟩⟩, Or.inl⟩
        · exact hsame
      · exact hsame
    · exact hsame

theorem entry_foldl_sendDown (now : Nat) (flows : PathRttFlowStates) (packets : List Packet)
    (key : MsgKey) :
    Noted (entry flows key) (entry (packets.foldl (sendDown now) flows) key) ∧
      ((entry (packets.foldl (sendDown now) flows) key).haveTriggerTx = true →
        (entry flows key).haveTriggerTx = true ∨
          ∃ packet ∈ packets, packet.hasFlag .data = true ∧ packet.key = key) := by
  induction packets generalizing flows with
  | nil => exact ⟨.refl _, Or.inl⟩
  | cons packet rest ih =>
    obtain ⟨hhead, hsent⟩ := entry_sendDown now flows packet key
    obtain ⟨htail, hlater⟩ := ih (flows.sendDown now packet)
    refine ⟨hhead.trans htail, fun htx => ?_⟩
    rcases hlater htx with hpre | ⟨other, hother, hdata⟩
    · rcases hsent hpre with hstored | hnew
      · exact .inl hstored
      · exact .inr ⟨packet, mem_cons_self, hnew⟩
    · exact .inr ⟨other, mem_cons_of_mem _ hother, hdata⟩

inductive Received (now : Nat) (flows : PathRttFlowStates) (packet : Packet) :
    PathRttFlowStates × Option PathRttSample → Prop where
  | trigger (hdata : packet.hasFlag .data = true)
      (htrigger : packet.homaHeader.isPathRttTriggerPacket = true) :
      Received now flows packet (flows.insert packet.key
        ((entry flows packet.key).triggerReceived now packet.homaHeader), none)
  | sampled {response : PathRttResponseTxState} {sample? : Option PathRttSample}
      (hdata : packet.hasFlag .data = false)
      (hresponse : packet.homaHeader.isPathRttResponsePacket = true)
      (hmatch : (entry flows packet.ctrlKey).matching packet.homaHeader = some response)
      (hsample : ∀ sample ∈ sample?, sample.key = packet.ctrlKey ∧
        sample.pathRtt = (entry flows packet.ctrlKey).pathRtt now response) :
      Received now flows packet
        (flows.insert packet.ctrlKey (entry flows packet.ctrlKey).sampled, sample?)
  | ignored : Received now flows packet (flows, none)

theorem received (now : Nat) (flows : PathRttFlowStates)
    (packet : Packet) : Received now flows packet (flows.receive now packet) := by
  unfold receive
  split
  next hdata =>
    split
    next htrig => exact .trigger hdata htrig
    · exact .ignored
  next hdata =>
    split
    next hresp =>
      split
      next state hlook =>
        rw [← entry_of_lookup hlook]
        split
        next response hmatch =>
          refine .sampled (by simpa using hdata) hresp hmatch ?_
          intro sample hsample
          split at hsample
          · cases hsample
            exact ⟨rfl, rfl⟩
          · cases hsample
        · exact .ignored
      · exact .ignored
    · exact .ignored

end PathRttFlowStates

/-! ## Runs -/

namespace RttNetwork

open PathRttFlowState PathRttFlowStates

variable {setting : Setting} {timed next : RttNetwork}

def Real (timed : RttNetwork) (sample : EmittedSample) : Prop :=
  ∃ origin, sample.origin = some origin ∧
    ∃ trigger ∈ timed.deliveries, ∃ response ∈ timed.deliveries,
      trigger.IsTriggerOf sample.key origin ∧ response.IsResponseTo sample.key origin ∧
      sample.pathRtt = trigger.delay + response.delay

/-- An arriving trigger whose time is taken is the one that was sent then, and its message is still
under the key. -/
def pairsTrigger (timed : RttNetwork) (packet : Packet) (sentAt : Nat) : Bool :=
  let state := timed.flows.entry packet.key
  state.sampleEmitted || state.haveTriggerRx ||
    (state.haveTriggerTx && decide (state.triggerTxTime = sentAt) &&
      decide (timed.net.holder packet.key = some packet.origin))

/-- A response that yields a sample is matched with its own record and was made for the message
under the key. -/
def pairsResponse (timed : RttNetwork) (packet : Packet) (sentAt : Nat) : Bool :=
  ((timed.flows.entry packet.ctrlKey).matching packet.homaHeader).all fun response =>
    decide (response.txTime = sentAt) &&
      decide (timed.net.holder packet.ctrlKey = some packet.origin)

def pairs (timed : RttNetwork) (packet : Packet) (sentAt : Nat) : Bool :=
  if packet.hasFlag .data then
    !packet.homaHeader.isPathRttTriggerPacket || timed.pairsTrigger packet sentAt
  else !packet.homaHeader.isPathRttResponsePacket || timed.pairsResponse packet sentAt

def traced (timed : RttNetwork) : RttAction → Bool
  | .act (.deliver index _ _) =>
    match timed.net.inFlight[index]?, timed.sentAt[index]? with
    | some packet, some sentAt => timed.pairs packet sentAt
    | _, _ => true
  | _ => true

/-! ### A message is sampled once -/

/-- The table and the samples so far agree with the messages that senders hold. -/
structure Once (timed : RttNetwork) : Prop where
  owns : ∀ addr, (timed.net.hosts addr).Owns addr
  held : ∀ key, (timed.flows.entry key).haveTriggerTx = true →
    ∃ origin, timed.net.holder key = some origin
  emitted : ∀ sample ∈ timed.samples, ∃ origin, sample.origin = some origin ∧
    origin < (timed.net.hosts sample.key.saddr).nextOrigin ∧
    (timed.net.holder sample.key = some origin →
      (timed.flows.entry sample.key).sampleEmitted = true)
  nodup : (timed.samples.map fun sample => (sample.key, sample.origin)).Nodup

section Settle

variable {addr : Ipv4Address} {moved : HomaL4Protocol} {events : List Event} {key : MsgKey}
  {origin : Nat}

theorem holder_settle_self (hsaddr : key.saddr = addr) :
    (timed.settle addr (moved, events)).net.holder key = moved.sendScheduler.holder key := by
  rw [Network.holder, hsaddr]
  exact congrArg (fun host => host.sendScheduler.holder key) (Network.hosts_update_self ..)

theorem holder_settle_of_ne (hsaddr : key.saddr ≠ addr) :
    (timed.settle addr (moved, events)).net.holder key = timed.net.holder key :=
  congrArg (fun host => host.sendScheduler.holder key) (Network.hosts_update_of_ne _ hsaddr _)

variable (hmoved : HomaL4Protocol.Moved addr (timed.net.hosts addr) moved events)
include hmoved

theorem holder_settle_keeps (hholder : timed.net.holder key = some origin)
    (hkept : key ∉ (timed.net.hosts addr).sendScheduler.clearedKeys moved.sendScheduler) :
    (timed.settle addr (moved, events)).net.holder key = some origin := by
  by_cases hsaddr : key.saddr = addr
  · rw [holder_settle_self hsaddr]
    rw [Network.holder, hsaddr] at hholder
    exact hmoved.keeps key origin hholder hkept
  · rw [holder_settle_of_ne hsaddr]
    exact hholder

theorem holder_settle_old
    (hholder : (timed.settle addr (moved, events)).net.holder key = some origin)
    (hold : origin < (timed.net.hosts key.saddr).nextOrigin) :
    timed.net.holder key = some origin ∧
      key ∉ (timed.net.hosts addr).sendScheduler.clearedKeys moved.sendScheduler := by
  by_cases hsaddr : key.saddr = addr
  · rw [holder_settle_self hsaddr] at hholder
    rw [Network.holder, hsaddr]
    refine ⟨(hmoved.fresh key origin hholder).resolve_right ?_, fun hclear => ?_⟩
    · exact not_le.mpr (hsaddr ▸ hold)
    · rw [(hmoved.gone key hclear).2] at hholder
      cases hholder
  · rw [holder_settle_of_ne hsaddr] at hholder
    exact ⟨hholder, fun hclear => hsaddr (hmoved.gone key hclear).1⟩

omit hmoved in
theorem entry_settle (hkept :
    key ∉ (timed.net.hosts addr).sendScheduler.clearedKeys moved.sendScheduler) :
    Noted (timed.flows.entry key) ((timed.settle addr (moved, events)).flows.entry key) := by
  have hnoted := (entry_foldl_sendDown timed.now (timed.flows.clear
    ((timed.net.hosts addr).sendScheduler.clearedKeys moved.sendScheduler))
    (Network.sentPackets events) key).1
  rwa [entry_clear, if_neg hkept] at hnoted

theorem Once.settle (honce : Once timed) : Once (timed.settle addr (moved, events)) := by
  have hsent := fun key => (entry_foldl_sendDown timed.now (timed.flows.clear
    ((timed.net.hosts addr).sendScheduler.clearedKeys moved.sendScheduler))
    (Network.sentPackets events) key).2
  refine ⟨fun other => ?_, fun key htx => ?_, fun sample hsample => ?_, honce.nodup⟩
  · by_cases hsame : other = addr
    · subst hsame
      simpa [RttNetwork.settle] using hmoved.owns
    · simpa [RttNetwork.settle, Network.hosts_update_of_ne _ hsame] using honce.owns other
  · rcases hsent key htx with hpre | ⟨packet, hpkt, hdata, rfl⟩
    · rw [entry_clear] at hpre
      split at hpre
      · cases hpre
      next hkept =>
        obtain ⟨origin, hholder⟩ := honce.held key hpre
        exact ⟨origin, holder_settle_keeps hmoved hholder hkept⟩
    · obtain ⟨hsaddr, origin, hholder⟩ := hmoved.sends packet hpkt hdata
      exact ⟨origin, (holder_settle_self hsaddr).trans hholder⟩
  · obtain ⟨origin, horigin, hold, hemit⟩ := honce.emitted sample hsample
    refine ⟨origin, horigin, ?_, fun hholder => ?_⟩
    · by_cases hsaddr : sample.key.saddr = addr
      · rw [hsaddr] at hold ⊢
        simpa [RttNetwork.settle] using hold.trans_le hmoved.later
      · simpa [RttNetwork.settle, Network.hosts_update_of_ne _ hsaddr] using hold
    · obtain ⟨hpre, hkept⟩ := holder_settle_old hmoved hholder hold
      rw [(entry_settle hkept).emitted_eq]
      exact hemit hpre

end Settle

theorem triggerReceived_frame (now : Nat) (header : HomaHeader) (state : PathRttFlowState) :
    (state.triggerReceived now header).haveTriggerTx = state.haveTriggerTx ∧
    (state.triggerReceived now header).triggerTxTime = state.triggerTxTime ∧
    (state.triggerReceived now header).sampleEmitted = state.sampleEmitted := by
  unfold triggerReceived
  split <;> exact ⟨rfl, rfl, rfl⟩

theorem entry_received {now : Nat} {flows : PathRttFlowStates} {packet : Packet}
    {outcome : PathRttFlowStates × Option PathRttSample} (hgot : Received now flows packet outcome)
    (key : MsgKey) :
    (outcome.1.entry key).haveTriggerTx = (flows.entry key).haveTriggerTx ∧
      (outcome.1.entry key).triggerTxTime = (flows.entry key).triggerTxTime ∧
      ((flows.entry key).sampleEmitted = true → (outcome.1.entry key).sampleEmitted = true) := by
  cases hgot with
  | trigger =>
    rw [entry_insert]
    split
    next heq =>
      subst heq
      obtain ⟨htx, htime, hemit⟩ := triggerReceived_frame now packet.homaHeader
        (flows.entry packet.key)
      exact ⟨htx, htime, fun hpre => hemit.trans hpre⟩
    · exact ⟨rfl, rfl, id⟩
  | sampled =>
    rw [entry_insert]
    split
    next heq =>
      subst heq
      exact ⟨rfl, rfl, fun _ => rfl⟩
    · exact ⟨rfl, rfl, id⟩
  | ignored => exact ⟨rfl, rfl, id⟩

theorem Once.arrive (honce : Once timed)
    (index : Nat) (packet : Packet) (sentAt : Nat) : Once (timed.arrive index packet sentAt) := by
  have hgot := received timed.now timed.flows packet
  have hent := entry_received hgot
  have hold : ∀ sample ∈ timed.samples, ∃ origin, sample.origin = some origin ∧
      origin < (timed.net.hosts sample.key.saddr).nextOrigin ∧
      (timed.net.holder sample.key = some origin →
        ((timed.arrive index packet sentAt).flows.entry sample.key).sampleEmitted = true) := by
    intro sample hsample
    obtain ⟨origin, horigin, hpast, hemit⟩ := honce.emitted sample hsample
    exact ⟨origin, horigin, hpast, fun hholder => (hent sample.key).2.2 (hemit hholder)⟩
  have hheld : ∀ key, ((timed.arrive index packet sentAt).flows.entry key).haveTriggerTx = true →
      ∃ origin, timed.net.holder key = some origin := by
    intro key htx
    exact honce.held key ((hent key).1.symm.trans htx)
  have hsame : (timed.flows.receive timed.now packet).2 = none →
      (timed.arrive index packet sentAt).samples = timed.samples := by
    intro hnone
    simp [RttNetwork.arrive, hnone]
  have hunchanged : (timed.flows.receive timed.now packet).2 = none →
      Once (timed.arrive index packet sentAt) := by
    intro hnone
    refine ⟨honce.owns, hheld, ?_, ?_⟩
    · rw [hsame hnone]
      exact hold
    · rw [hsame hnone]
      exact honce.nodup
  cases hsample : (timed.flows.receive timed.now packet).2 with
  | none => exact hunchanged hsample
  | some sample =>
    have hsamples : (timed.arrive index packet sentAt).samples = timed.samples ++
        [{ toPathRttSample := sample, origin := timed.net.holder sample.key }] := by
      simp [RttNetwork.arrive, hsample]
    have hflows : (timed.arrive index packet sentAt).flows =
        (timed.flows.receive timed.now packet).1 := rfl
    generalize hout : timed.flows.receive timed.now packet = outcome at *
    cases hgot with
    | trigger => cases hsample
    | ignored => cases hsample
    | @sampled response sample? _ _ hmatch hfields =>
      obtain ⟨hkey, -⟩ := hfields sample hsample
      obtain ⟨hfresh, htx, -⟩ := matching_eq_some hmatch
      obtain ⟨origin, hholder⟩ := honce.held packet.ctrlKey htx
      obtain ⟨msg, hlook, -, horigin⟩ := holder_eq_some.mp hholder
      refine ⟨honce.owns, hheld, ?_, ?_⟩
      · rw [hsamples]
        intro other hother
        rcases mem_append.mp hother with hpre | hlast
        · exact hold other hpre
        · rw [mem_singleton.mp hlast, hkey]
          refine ⟨origin, hholder, ?_, fun _ => ?_⟩
          · rw [← horigin]
            exact (honce.owns _ _ msg hlook).2
          · rw [hflows, entry_insert, if_pos rfl]
            rfl
      · rw [hsamples, map_append, map_singleton, nodup_append]
        refine ⟨honce.nodup, nodup_singleton _, ?_⟩
        rintro _ hpre _ hlast rfl
        -- an earlier sample of this message would have marked the entry
        obtain ⟨other, hother, heq⟩ := mem_map.mp hpre
        rw [mem_singleton] at hlast
        rw [hlast, hkey, hholder] at heq
        obtain ⟨hotherKey, hotherOrigin⟩ := Prod.mk.inj heq
        obtain ⟨past, hpast, -, hemit⟩ := honce.emitted other hother
        obtain rfl := Option.some.inj (hpast.symm.trans hotherOrigin)
        rw [hotherKey] at hemit
        rw [hemit hholder] at hfresh
        cases hfresh

theorem step_cases {action : RttAction} (hstep : step setting timed action = .ok next)
    (honce : Once timed)
    (hsend : ∀ addr, (timed.net.hosts addr).sendScheduler.WellFormed (setting.config addr))
    (hrecvs : ∀ addr, (timed.net.hosts addr).recvScheduler.WellFormed (setting.config addr)) :
    (∃ moment, timed.now ≤ moment ∧ next = { timed with now := moment }) ∨
    (∃ index, next =
      { timed with net := timed.net.remove index, sentAt := timed.sentAt.eraseIdx index }) ∨
    (∃ addr moved events, HomaL4Protocol.Moved addr (timed.net.hosts addr) moved events ∧
      next = timed.settle addr (moved, events)) ∨
    (∃ index congested platform packet sentAt addr moved events,
      action = .act (.deliver index congested platform) ∧
      timed.net.inFlight[index]? = some packet ∧ timed.sentAt[index]? = some sentAt ∧
      HomaL4Protocol.Moved addr ((timed.arrive index packet sentAt).net.hosts addr) moved events ∧
      next = (timed.arrive index packet sentAt).settle addr (moved, events)) := by
  cases action with
  | elapse moment =>
    simp only [step] at hstep
    split at hstep
    next hlater => exact .inl ⟨moment, hlater, (Except.ok.inj hstep).symm⟩
    · cases hstep
  | act action =>
    cases action with
    | host addr input =>
      obtain ⟨⟨moved, events⟩, hact, hok⟩ := bind_eq_ok.mp hstep
      have hmoved := HomaL4Protocol.moved_of_act (honce.owns addr) (hsend addr)
        (hrecvs addr) hact
      exact .inr (.inr (.inl ⟨addr, moved, events, hmoved, (Except.ok.inj hok).symm⟩))
    | deliver index congested platform =>
      simp only [step] at hstep
      split at hstep
      next packet sentAt hpkt hsent =>
        obtain ⟨⟨moved, events⟩, hrecv, hok⟩ := bind_eq_ok.mp hstep
        have hmoved := HomaL4Protocol.moved_of_receive (honce.owns _) (hsend _)
          (hrecvs _) hrecv
        exact .inr (.inr (.inr ⟨index, congested, platform, packet, sentAt, _, moved, events,
          rfl, hpkt, hsent, hmoved, (Except.ok.inj hok).symm⟩))
      · cases hstep
    | lose index =>
      simp only [step] at hstep
      split at hstep
      · exact .inr (.inl ⟨index, (Except.ok.inj hstep).symm⟩)
      · cases hstep

theorem once_of_reachable {allowed : RttNetwork → RttAction → Prop}
    (hreach : (machine setting).ReachableUnder allowed timed) : Once timed := by
  apply hreach.invariant_of (fun _ hst => net_reachable hst)
  · refine ⟨fun _ _ _ hlook => ?_, fun _ htx => ?_, fun _ hmem => ?_, nodup_nil⟩
    · cases hlook
    · cases htx
    · cases hmem
  · intro state action moved hnet honce _ hstep
    rcases step_cases hstep honce (fun addr => Network.sender_wellFormed addr hnet)
      (fun addr => Network.receiver_wellFormed addr hnet) with
      ⟨_, _, rfl⟩ | ⟨index, rfl⟩ | ⟨addr, host, events, hmoved, rfl⟩ |
        ⟨index, _, _, packet, sentAt, addr, host, events, _, _, _, hmoved, rfl⟩
    · exact ⟨honce.owns, honce.held, honce.emitted, honce.nodup⟩
    · exact ⟨honce.owns, honce.held, honce.emitted, honce.nodup⟩
    · exact honce.settle hmoved
    · exact (honce.arrive index packet sentAt).settle hmoved

/-! ### What the times on record are times of -/

structure Paired (timed : RttNetwork) : Prop where
  rx : ∀ key, (timed.flows.entry key).haveTriggerRx = true →
    (timed.flows.entry key).haveTriggerTx = true ∧
      ∃ origin, timed.net.holder key = some origin ∧
        ∃ trigger ∈ timed.deliveries, trigger.IsTriggerOf key origin ∧
          trigger.sentAt = (timed.flows.entry key).triggerTxTime ∧
          trigger.receivedAt = (timed.flows.entry key).triggerRxTime
  real : ∀ sample ∈ timed.samples, timed.Real sample

theorem Paired.settle (hpaired : Paired timed) {addr : Ipv4Address} {moved : HomaL4Protocol}
    {events : List Event} (hmoved : HomaL4Protocol.Moved addr (timed.net.hosts addr) moved events) :
    Paired (timed.settle addr (moved, events)) := by
  refine ⟨fun key hrx => ?_, hpaired.real⟩
  by_cases hclear :
      key ∈ (timed.net.hosts addr).sendScheduler.clearedKeys moved.sendScheduler
  · -- nothing but a trigger or its arrival starts an entry again
    have hnoted := (entry_foldl_sendDown timed.now (timed.flows.clear
      ((timed.net.hosts addr).sendScheduler.clearedKeys moved.sendScheduler))
      (Network.sentPackets events) key).1
    rw [entry_clear, if_pos hclear] at hnoted
    cases hnoted.rx_eq.symm.trans hrx
  · have hnoted := @entry_settle timed addr moved events key hclear
    obtain ⟨htx, origin, hholder, trigger, htrig, hof, hsent, hgot⟩ :=
      hpaired.rx key (hnoted.rx_eq.symm.trans hrx)
    obtain ⟨hstill, htime⟩ := hnoted.tx htx
    exact ⟨hstill, origin, holder_settle_keeps hmoved hholder hclear, trigger, htrig, hof,
      hsent.trans htime.symm, hgot.trans hnoted.rxTime_eq.symm⟩

theorem Real.arrive {sample : EmittedSample} (hreal : timed.Real sample) (index : Nat)
    (packet : Packet) (sentAt : Nat) : (timed.arrive index packet sentAt).Real sample := by
  obtain ⟨origin, horigin, trigger, htrig, response, hresp, hfacts⟩ := hreal
  exact ⟨origin, horigin, trigger, mem_append_left _ htrig, response,
    mem_append_left _ hresp, hfacts⟩

theorem Paired.arrive (hpaired : Paired timed) (index : Nat) {packet : Packet} {sentAt : Nat}
    (hpairs : timed.pairs packet sentAt = true) : Paired (timed.arrive index packet sentAt) := by
  have hgot := received timed.now timed.flows packet
  have hflows : (timed.arrive index packet sentAt).flows =
      (timed.flows.receive timed.now packet).1 := rfl
  have harr : ⟨packet, sentAt, timed.now⟩ ∈ (timed.arrive index packet sentAt).deliveries :=
    mem_append_right _ (mem_singleton_self _)
  have hkept : ∀ key, (timed.flows.entry key).haveTriggerRx = true →
      (timed.flows.entry key).haveTriggerTx = true ∧
        ∃ origin, timed.net.holder key = some origin ∧
          ∃ trigger ∈ (timed.arrive index packet sentAt).deliveries,
            trigger.IsTriggerOf key origin ∧
            trigger.sentAt = (timed.flows.entry key).triggerTxTime ∧
            trigger.receivedAt = (timed.flows.entry key).triggerRxTime := by
    intro key hrx
    obtain ⟨htx, origin, hholder, trigger, htrig, hfacts⟩ := hpaired.rx key hrx
    exact ⟨htx, origin, hholder, trigger, mem_append_left _ htrig, hfacts⟩
  have hreal : ∀ sample ∈ timed.samples, (timed.arrive index packet sentAt).Real sample :=
    fun sample hsample => (hpaired.real sample hsample).arrive index packet sentAt
  have hsamples : (timed.arrive index packet sentAt).samples = timed.samples ++
      ((timed.flows.receive timed.now packet).2.map fun sample =>
        { toPathRttSample := sample, origin := timed.net.holder sample.key }).toList := rfl
  generalize timed.flows.receive timed.now packet = outcome at *
  cases hgot with
  | trigger hdata htrig =>
    refine ⟨fun key hrx => ?_, ?_⟩
    · rw [hflows, entry_insert] at hrx ⊢
      split at hrx
      next heq =>
        subst heq
        rw [if_pos rfl]
        simp only [pairs, hdata, htrig, if_true, Bool.not_true, Bool.false_or,
          pairsTrigger] at hpairs
        unfold triggerReceived at hrx ⊢
        split
        next hnew =>
          -- the arrival that is taken is that of the trigger on record
          simp only [Bool.and_eq_true, Bool.not_eq_true'] at hnew
          simp only [hnew.1, hnew.2, Bool.false_or, Bool.and_eq_true, decide_eq_true_eq]
            at hpairs
          obtain ⟨⟨htx, htime⟩, hholder⟩ := hpairs
          exact ⟨htx, packet.origin, hholder, _, harr, ⟨htrig, rfl, rfl⟩, htime.symm,
            rfl⟩
        next hold =>
          rw [if_neg hold] at hrx
          exact hkept packet.key hrx
      next hne =>
        rw [if_neg hne]
        exact hkept key hrx
    · rw [hsamples]
      simpa using hreal
  | @sampled response sample? hdata hresp hmatch hfields =>
    obtain ⟨-, -, hready⟩ := matching_eq_some hmatch
    obtain ⟨htx, origin, hholder, trigger, htrig, hof, hsent, hgot⟩ := hkept packet.ctrlKey hready
    refine ⟨fun key hrx => ?_, ?_⟩
    · rw [hflows, entry_insert] at hrx ⊢
      split at hrx
      next heq =>
        subst heq
        rw [if_pos rfl]
        exact hkept packet.ctrlKey hrx
      next hne =>
        rw [if_neg hne]
        exact hkept key hrx
    · rw [hsamples]
      intro sample hsample
      rcases mem_append.mp hsample with hpre | hlast
      · exact hreal sample hpre
      · obtain ⟨taken, htaken, rfl⟩ : ∃ taken, taken ∈ sample? ∧ sample =
            { toPathRttSample := taken, origin := timed.net.holder taken.key } := by
          simpa [eq_comm] using hlast
        obtain ⟨hkey, hval⟩ := hfields taken htaken
        simp only [pairs, hdata, hresp, Bool.false_eq_true, if_false, Bool.not_true,
          Bool.false_or, pairsResponse, hmatch, Option.all_some, Bool.and_eq_true,
          decide_eq_true_eq] at hpairs
        obtain ⟨htime, hmsg⟩ := hpairs
        obtain rfl := Option.some.inj (hholder.symm.trans hmsg)
        refine ⟨packet.origin, hkey ▸ hmsg, trigger, htrig, _, harr, hkey ▸ hof,
          ⟨hresp, hkey.symm, rfl⟩, ?_⟩
        rw [hval, pathRtt, Delivery.delay, Delivery.delay, hsent, hgot, htime]
        dsimp only
        omega
  | ignored =>
    refine ⟨?_, ?_⟩
    · rw [hflows]
      exact hkept
    · rw [hsamples]
      simpa using hreal

/-- If the first trigger of a message to arrive is the first sent and responses are matched with
their own records, each sample is the delay of a trigger of its message and of a response to it,
and no message has two. -/
theorem samples_real
    (hreachable :
      (machine setting).ReachableUnder (fun timed action => timed.traced action = true) timed) :
    (∀ sample ∈ timed.samples, timed.Real sample) ∧
      (timed.samples.map fun sample => (sample.key, sample.origin)).Nodup := by
  refine ⟨?_, (once_of_reachable hreachable).nodup⟩
  suffices hpaired : Paired timed from hpaired.real
  have hknown : ∀ state, (machine setting).ReachableUnder
      (fun timed action => timed.traced action = true) state →
      Once state ∧ (Network.machine setting).Reachable state.net :=
    fun _ hst => ⟨once_of_reachable hst, net_reachable hst⟩
  apply hreachable.invariant_of hknown
  · refine ⟨fun _ hrx => ?_, fun _ hmem => ?_⟩
    · cases hrx
    · cases hmem
  · intro state action moved ⟨honce, hnet⟩ hpaired htraced hstep
    rcases step_cases hstep honce (fun addr => Network.sender_wellFormed addr hnet)
      (fun addr => Network.receiver_wellFormed addr hnet) with
      ⟨_, _, rfl⟩ | ⟨index, rfl⟩ | ⟨addr, host, events, hmoved, rfl⟩ |
        ⟨index, _, _, packet, sentAt, addr, host, events, rfl, hpkt, hsent, hmoved, rfl⟩
    · exact ⟨hpaired.rx, hpaired.real⟩
    · exact ⟨hpaired.rx, hpaired.real⟩
    · exact hpaired.settle hmoved
    · have hpairs : state.pairs packet sentAt = true := by
        simpa [traced, hpkt, hsent] using htraced
      exact (hpaired.arrive index hpairs).settle hmoved

def transmit : RttAction := .act (.host 1 (.txDataPacket true [0]))

def deliverOldest : RttAction := .act (.deliver 0 false ⟨[0], 0⟩)

def twoPackets : List RttAction :=
  [.act (.host 1 (.send [1, 2, 3] 2 5 6)), transmit, .elapse 44, transmit]

theorem samples_real_granted :
    let timed := (machine (.uniform Network.shortWindow)).after traced
      (twoPackets ++ [.elapse 1000, deliverOldest, .act (.host 2 .creditTick), .elapse 1044,
        deliverOldest, .elapse 2000, deliverOldest]) initial
    timed.samples.map (fun sample => sample.pathRtt) = [2000] ∧
      ∀ sample ∈ timed.samples, timed.Real sample := by
  intro timed
  have hreachable : (machine (.uniform Network.shortWindow)).ReachableUnder
      (fun timed action => timed.traced action = true) timed :=
    ReachableUnder.after (fun _ _ htraced => htraced) _ .init
  exact ⟨by decide +kernel, (samples_real hreachable).1⟩

def retransmitted : RttNetwork :=
  (machine (.uniform Network.shortWindow)).after (fun _ _ => true)
    (twoPackets ++ [.act (.lose 0), .elapse 1044, deliverOldest, .act (.host 2 .creditTick),
      .elapse 2044, deliverOldest, transmit, .elapse 3044, deliverOldest,
      .elapse 1001044, .act (.host 2 (.rtxExpire 0)), .elapse 1002044, deliverOldest, transmit,
      .elapse 1003044, deliverOldest, .elapse 1004044, deliverOldest]) initial

/-- The sample of a retransmitted trigger contains the wait for its retransmission. -/
theorem retransmission_sampled :
    (machine (.uniform Network.shortWindow)).Reachable retransmitted ∧
      ∃ sample ∈ retransmitted.samples, sample.pathRtt = 1004044 ∧ ¬ retransmitted.Real sample := by
  have hreachable : (machine (.uniform Network.shortWindow)).Reachable retransmitted :=
    ReachableUnder.after (fun _ _ _ => trivial) _ .init
  have hsamples : retransmitted.samples.map (fun sample => sample.pathRtt) = [1004044] := by
    decide +kernel
  -- whichever trigger and response arrived, they took two thousand units together
  have hdelays : ∀ trigger ∈ retransmitted.deliveries, ∀ response ∈ retransmitted.deliveries,
      trigger.delay + response.delay = 2000 := by
    decide +kernel
  obtain ⟨sample, hsingle, hval⟩ := List.map_eq_singleton_iff.mp hsamples
  refine ⟨hreachable, sample, hsingle ▸ List.mem_singleton_self sample, hval, ?_⟩
  rintro ⟨origin, -, trigger, htrigger, response, hresponse, -, -, hreal⟩
  rw [hval, hdelays trigger htrigger response hresponse] at hreal
  cases hreal

end RttNetwork

end HomaSird.Homa
