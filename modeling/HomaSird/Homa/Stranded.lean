import HomaSird.Homa.GrantOpportunity
import HomaSird.Homa.Provenance

/-! # Messages that nothing moves any more

A sender has no timer, and the timer of an inbound message acts only on one that the last grant
round scheduled. All else that can happen to a message is a pending event of one of its ends.
-/

namespace HomaSird.Homa

open Transition Transition.Machine List

namespace Event

def settles (key : MsgKey) : Event → Bool
  | .forwardUp settled _ _ => decide (settled = key)
  | .rtxLimit settled _ => decide (settled = key)
  | _ => false

def arrives (key : MsgKey) : Event → Bool
  | .dataRecv packet => decide (packet.key = key)
  | _ => false

/-- The timer of the message asks for a packet again or gives the message up. -/
def isRtxOf (key : MsgKey) : Event → Bool
  | .sendDown packet => packet.hasFlag .resend && decide (packet.ctrlKey = key)
  | .rtxLimit settled _ => decide (settled = key)
  | _ => false

end Event

/-! ## Messages that have arrived -/

namespace HomaRecvScheduler

variable {cfg : Config} {sched next : HomaRecvScheduler} {events : List Event} {key : MsgKey}

def Holds (sched : HomaRecvScheduler) (key : MsgKey) : Prop :=
  key ∈ sched.inboundMsgs.map HomaInboundMsg.key

theorem holds_handle (hwf : sched.WellFormed cfg) {input : RecvInput}
    (hhandle : sched.handle cfg input = .ok (next, events))
    (hholds : sched.Holds key ∨ ∃ event ∈ events, event.arrives key = true)
    (hunsettled : ∀ event ∈ events, event.settles key = false) :
    next.Holds key := by
  cases handled hwf hhandle with
  | @data packet _ inboundMsg others hdata hgot =>
    obtain ⟨before, hset, rfl⟩ := hgot.settled
    have hkey := hgot.taken.key_eq
    have hcons : key ∈ (inboundMsg :: others).map HomaInboundMsg.key := by
      rcases hholds with hpend | ⟨event, hev, harr⟩
      · cases hgot.taken with
        | pending hperm hsame =>
          have hold := (hperm.map HomaInboundMsg.key).mem_iff.mp hpend
          rw [map_cons, hsame, ← hkey] at hold
          exact hold
        | fresh hothers => exact mem_cons_of_mem _ (hothers ▸ hpend)
      · rcases mem_append.mp hev with hpre | hlast
        · cases hset with
          | complete _ _ hevs =>
            subst hevs
            rcases mem_pair.mp hpre with rfl | rfl
            · cases harr
            · cases harr
          | waiting _ _ hevs =>
            subst hevs
            cases hpre
        · rw [mem_singleton.mp hlast] at harr
          rw [map_cons, hkey]
          exact (of_decide_eq_true harr) ▸ mem_cons_self
    cases hset with
    | complete _ hmsgs hevs =>
      -- the message that was handed up is another one
      rcases mem_cons.mp hcons with hsame | hother
      · have hfst := hunsettled (.forwardUp inboundMsg.key inboundMsg.origin
          (inboundMsg.getReassembledMsg cfg)) (by simp [hevs])
        simp [Event.settles, hsame] at hfst
      · rw [Holds, hmsgs]
        exact hother
    | waiting _ hmsgs => exact (hmsgs.map _).mem_iff.mpr hcons
  | control _ hmsgs =>
    rw [Holds, hmsgs]
    exact hholds.resolve_right (by rintro ⟨_, ⟨⟩, _⟩)
  | creditTick hnext =>
    subst hnext
    rw [Holds, creditTick_inboundMsgs, loop_map_eq visit_key]
    rcases hholds with hpend | ⟨event, hev, harr⟩
    · exact hpend
    · obtain ⟨packet, -, rfl⟩ := mem_map.mp hev
      cases harr
  | @rtxExpire timer _ hexpired =>
    cases hexpired with
    | @dropped msg hmsg _ hnext hevs =>
      subst hnext hevs
      have hother : msg.key ≠ key := by
        have hlim := hunsettled _ (mem_singleton_self _)
        simpa [Event.settles] using hlim
      rcases hholds with hpend | ⟨event, hev, harr⟩
      · obtain ⟨held, hheld, hkey⟩ := mem_map.mp hpend
        obtain ⟨index, hlt, rfl⟩ := mem_iff_getElem.mp hheld
        have hne : index ≠ timer := by
          rintro rfl
          rw [getElem?_eq_getElem hlt] at hmsg
          exact hother ((Option.some.inj hmsg) ▸ hkey)
        exact mem_map.mpr
          ⟨_, mem_eraseIdx_iff_getElem.mpr ⟨index, hlt, hne, rfl⟩, hkey⟩
      · rw [mem_singleton.mp hev] at harr
        cases harr
    | @rearmed msg _ hmsg _ _ hnext hevs =>
      subst hnext hevs
      have hkey : (rearmRtx msg).key = msg.key := rfl
      rw [Holds, map_set_eq hmsg hkey]
      rcases hholds with hpend | ⟨event, hev, harr⟩
      · exact hpend
      · obtain ⟨packet, -, rfl⟩ := mem_map.mp hev
        cases harr

/-! ## The timer of an inbound message -/

variable {cfg : Config} {sched next : HomaRecvScheduler} {events : List Event}

theorem expireRtxTimeout_isOk (hwf : sched.WellFormed cfg)
    {timer : Nat} {msg : HomaInboundMsg} (hmsg : sched.inboundMsgs[timer]? = some msg) :
    ∃ outcome, sched.expireRtxTimeout cfg timer = .ok outcome := by
  obtain ⟨maxRsndPktOffset, htimer⟩ :=
    Option.isSome_iff_exists.mp (hwf.timer msg (mem_of_getElem? hmsg))
  unfold expireRtxTimeout
  simp only [hmsg, htimer]
  split
  · exact ⟨_, rfl⟩
  · rw [hwf.getInboundMsg_eq hmsg]
    dsimp only
    split
    · exact ⟨_, rfl⟩
    · exact ⟨_, rfl⟩

theorem numRtxWithoutProgress_rearmRtx {msg : HomaInboundMsg}
    (hsched : msg.currentlyScheduled = true)
    (hbelow : msg.numRtxWithoutProgress < cfg.maxNumRtxPerMsg) :
    (rearmRtx msg).numRtxWithoutProgress =
      if msg.lastRtxGrntIdx < msg.maxGrantableIdx then 0 else msg.numRtxWithoutProgress + 1 := by
  have hlim := cfg.maxNumRtxPerMsg_lt
  rw [rearmRtx, hsched, if_pos rfl, uint16_of_lt (by omega)]

end HomaRecvScheduler

namespace Receiver

open HomaRecvScheduler

variable {cfg : Config} {receiver final : Receiver} {timer : Nat} {msg : HomaInboundMsg}

/-- The timer at an index fires as often as told, and nothing else happens. -/
def expire (cfg : Config) (timer count : Nat) (receiver : Receiver) : Except Fault Receiver :=
  (machine cfg).run (List.replicate count (.rtxExpire timer)) receiver

theorem expire_succ {sched : HomaRecvScheduler} {events : List Event}
    (hexpire : receiver.sched.expireRtxTimeout cfg timer = .ok (sched, events)) (count : Nat) :
    expire cfg timer (count + 1) receiver =
      expire cfg timer count ⟨sched, receiver.trace ++ events⟩ := by
  have hstep : (machine cfg).step receiver (.rtxExpire timer) =
      .ok ⟨sched, receiver.trace ++ events⟩ := bind_eq_ok.mpr ⟨_, hexpire, rfl⟩
  rw [expire, replicate_succ, Machine.run, hstep]
  rfl

section

variable (hwf : receiver.sched.WellFormed cfg)
  (hmsg : receiver.sched.inboundMsgs[timer]? = some msg)
include hwf hmsg

theorem expire_limit (hlim : cfg.maxNumRtxPerMsg ≤ msg.numRtxWithoutProgress) :
    ∃ final,
      expire cfg timer 1 receiver = .ok final ∧ .rtxLimit msg.key msg.origin ∈ final.trace := by
  obtain ⟨⟨sched, events⟩, hexpire⟩ := expireRtxTimeout_isOk hwf hmsg
  refine ⟨_, expire_succ hexpire 0, ?_⟩
  cases expireRtxTimeout_eq_ok hwf hexpire with
  | dropped hexp _ _ hevs =>
    obtain rfl := Option.some.inj (hmsg.symm.trans hexp)
    rw [hevs]
    exact mem_append_right _ (mem_singleton_self _)
  | rearmed hexp hbelow =>
    obtain rfl := Option.some.inj (hmsg.symm.trans hexp)
    omega

theorem expire_rearm (hbelow : msg.numRtxWithoutProgress < cfg.maxNumRtxPerMsg) :
    ∃ next : Receiver,
      next.sched.WellFormed cfg ∧ next.sched.inboundMsgs[timer]? = some (rearmRtx msg) ∧
        (msg.currentlyScheduled = false → next.trace = receiver.trace) ∧
        ∀ count, expire cfg timer (count + 1) receiver = expire cfg timer count next := by
  obtain ⟨⟨sched, events⟩, hexpire⟩ := expireRtxTimeout_isOk hwf hmsg
  have hnext := @wellFormed_handle cfg receiver.sched sched events (.rtxExpire timer) hwf hexpire
  refine ⟨⟨sched, receiver.trace ++ events⟩, hnext, ?_, ?_, expire_succ hexpire⟩
  · cases expireRtxTimeout_eq_ok hwf hexpire with
    | dropped hexp hlim =>
      obtain rfl := Option.some.inj (hmsg.symm.trans hexp)
      omega
    | rearmed hexp _ _ hsched =>
      obtain rfl := Option.some.inj (hmsg.symm.trans hexp)
      obtain ⟨hlt, -⟩ := List.getElem?_eq_some_iff.mp hmsg
      rw [hsched]
      exact List.getElem?_set_self hlt
  · intro hscheduled
    cases expireRtxTimeout_eq_ok hwf hexpire with
    | dropped hexp hlim =>
      obtain rfl := Option.some.inj (hmsg.symm.trans hexp)
      omega
    | rearmed hexp _ _ _ hevs =>
      obtain rfl := Option.some.inj (hmsg.symm.trans hexp)
      simp [hevs, resends, hscheduled]

end

theorem expire_stuck (remaining : Nat) (hwf : receiver.sched.WellFormed cfg)
    (hmsg : receiver.sched.inboundMsgs[timer]? = some msg) (hsched : msg.currentlyScheduled = true)
    (hstuck : msg.maxGrantableIdx ≤ msg.lastRtxGrntIdx)
    (hleft : cfg.maxNumRtxPerMsg ≤ msg.numRtxWithoutProgress + remaining) :
    ∃ count ≤ remaining + 1, ∃ final,
      expire cfg timer count receiver = .ok final ∧ .rtxLimit msg.key msg.origin ∈ final.trace := by
  induction remaining generalizing receiver msg with
  | zero => exact ⟨1, Nat.le_refl _, expire_limit hwf hmsg hleft⟩
  | succ remaining ih =>
    by_cases hlim : cfg.maxNumRtxPerMsg ≤ msg.numRtxWithoutProgress
    · exact ⟨1, Nat.le_add_left _ _, expire_limit hwf hmsg hlim⟩
    · have hbelow := Nat.lt_of_not_le hlim
      obtain ⟨next, hnext, hrearmed, -, hexpire⟩ := expire_rearm hwf hmsg hbelow
      have hcounted := numRtxWithoutProgress_rearmRtx hsched hbelow
      rw [if_neg (Nat.not_lt.mpr hstuck)] at hcounted
      obtain ⟨count, hcnt, final, hrun, hlast⟩ :=
        ih hnext hrearmed hsched (Nat.le_refl _) (by omega)
      exact ⟨count + 1, Nat.succ_le_succ hcnt, final, (hexpire count).trans hrun, hlast⟩

/-- The timer of a scheduled message gives it up after some firings; the first may still see
progress and start the count over. -/
theorem expire_scheduled (hwf : receiver.sched.WellFormed cfg)
    (hmsg : receiver.sched.inboundMsgs[timer]? = some msg)
    (hsched : msg.currentlyScheduled = true) :
    ∃ count ≤ cfg.maxNumRtxPerMsg + 2, ∃ final,
      expire cfg timer count receiver = .ok final ∧ .rtxLimit msg.key msg.origin ∈ final.trace := by
  by_cases hlim : cfg.maxNumRtxPerMsg ≤ msg.numRtxWithoutProgress
  · exact ⟨1, by omega, expire_limit hwf hmsg hlim⟩
  · obtain ⟨next, hnext, hrearmed, -, hexpire⟩ := expire_rearm hwf hmsg (Nat.lt_of_not_le hlim)
    obtain ⟨count, hcnt, final, hrun, hlast⟩ :=
      expire_stuck cfg.maxNumRtxPerMsg hnext hrearmed hsched (Nat.le_refl _)
        (Nat.le_add_left _ _)
    exact ⟨count + 1, Nat.succ_le_succ hcnt, final, (hexpire count).trans hrun, hlast⟩

theorem expire_unscheduled (count : Nat) (hwf : receiver.sched.WellFormed cfg)
    (hmsg : receiver.sched.inboundMsgs[timer]? = some msg) (hsched : msg.currentlyScheduled = false)
    (hbelow : msg.numRtxWithoutProgress < cfg.maxNumRtxPerMsg)
    (hrun : expire cfg timer count receiver = .ok final) : final.trace = receiver.trace := by
  induction count generalizing receiver msg with
  | zero =>
    cases hrun
    rfl
  | succ count ih =>
    obtain ⟨next, hnext, hrearmed, hsilent, hexpire⟩ := expire_rearm hwf hmsg hbelow
    have hcnt : (rearmRtx msg).numRtxWithoutProgress < cfg.maxNumRtxPerMsg := by
      simp only [rearmRtx, hsched, Bool.false_eq_true, if_false]
      split
      · exact Nat.zero_lt_of_lt hbelow
      · exact hbelow
    rw [hexpire] at hrun
    exact (ih hnext hrearmed hsched hcnt hrun).trans (hsilent hsched)

end Receiver

/-! ## The network -/

namespace Network

variable {setting : Setting} {net next : Network} {key : MsgKey}
  {since : List (Ipv4Address × Event)}

/-- The message was accepted, what has happened since is given, and its receiver has neither handed
it up nor given it up. -/
structure Accepted (net : Network) (key : MsgKey) (since : List (Ipv4Address × Event)) :
    Prop where
  log_eq : ∃ before origin msgSizeBytes,
    net.log = before ++ (key.saddr, .msgBegin key origin msgSizeBytes) :: since
  unsettled : ∀ event, (key.daddr, event) ∈ since → event.settles key = false

def Arrived (key : MsgKey) (since : List (Ipv4Address × Event)) : Prop :=
  ∃ event, (key.daddr, event) ∈ since ∧ event.arrives key = true

def HoldsArrived (net : Network) : Prop :=
  ∀ key since, net.Accepted key since → Arrived key since →
    (net.hosts key.daddr).recvScheduler.Holds key

section

variable {action : Action} (hwf : net.WellFormed setting)
include hwf

theorem Accepted.of_step (hstepped : Stepped setting net action next)
    (hacc : next.Accepted key since) :
    since = [] ∨
      ∃ prior, net.Accepted key prior ∧ since = prior ++ next.log.drop net.log.length := by
  obtain ⟨before, origin, msgSizeBytes, hlog⟩ := hacc.log_eq
  have hbegun : ∀ lead, next.log.drop net.log.length =
      lead ++ (key.saddr, .msgBegin key origin msgSizeBytes) :: since → since = [] := by
    intro lead hnews
    obtain ⟨-, -, -, hone⟩ := begun_of_stepped hwf hstepped
      (hnews ▸ mem_append_right _ mem_cons_self)
    rw [hone] at hnews
    obtain ⟨-, hlast⟩ := append_eq_singleton_iff.mp hnews.symm |>.resolve_right (by simp)
    exact (cons.inj hlast).2
  rw [hstepped.log_eq] at hlog
  rcases append_eq_append_iff.mp hlog with ⟨lead, -, hnews⟩ | ⟨rest, hprior, hnews⟩
  · exact Or.inl (hbegun lead hnews)
  · cases rest with
    | nil => exact Or.inl (hbegun [] hnews.symm)
    | cons entry prior =>
      obtain ⟨rfl, rfl⟩ := cons.inj hnews
      refine Or.inr ⟨prior, ⟨⟨before, origin, msgSizeBytes, hprior⟩, ?_⟩, rfl⟩
      exact fun event hev => hacc.unsettled event (mem_append_left _ hev)

omit hwf in
theorem trace_of_stepped {action : Action} (hstepped : Stepped setting net action next)
    (addr : Ipv4Address) :
    (next.receiverOf addr).trace =
      (net.receiverOf addr).trace ++ (((next.log.drop net.log.length).filter fun entry => entry.1 =
          addr).map Prod.snd).filter isReceiverEvent := by
  rw [receiverOf, eventsOf, hstepped.log_eq, List.filter_append, List.map_append,
    List.filter_append]
  simp [receiverOf, eventsOf]

theorem holdsArrived_stepped (hholds : net.HoldsArrived)
    (hstepped : Stepped setting net action next) : next.HoldsArrived := by
  intro key since hacc ⟨event, hev, harr⟩
  rcases hacc.of_step hwf hstepped with rfl | ⟨prior, hprior, rfl⟩
  · cases hev
  · have hnews : ∀ event, event ∈ (((next.log.drop net.log.length).filter
        fun entry => entry.1 = key.daddr).map Prod.snd).filter isReceiverEvent ↔
        (key.daddr, event) ∈ next.log.drop net.log.length ∧ isReceiverEvent event = true := by
      intro event
      simp
    have htrace := trace_of_stepped hstepped key.daddr
    have hkind : isReceiverEvent event = true := by
      cases event with
      | dataRecv => rfl
      | _ => cases harr
    rcases hstepped.moves_receiver hwf.sender (hwf.receiver key.daddr) with hsame | ⟨input, hmove⟩
    · have hsched : (next.hosts key.daddr).recvScheduler = (net.hosts key.daddr).recvScheduler :=
        congrArg Receiver.sched hsame
      rw [hsame] at htrace
      have hnone := self_eq_append_right.mp htrace
      rw [hsched]
      apply hholds key prior hprior
      refine ⟨event, (mem_append.mp hev).resolve_right fun hnew => ?_, harr⟩
      have hmem := (hnews event).mpr ⟨hnew, hkind⟩
      rw [hnone] at hmem
      cases hmem
    · obtain ⟨events, hhandle, hevs⟩ := Receiver.step_eq_ok hmove
      have heq := append_cancel_left (hevs.symm.trans htrace)
      subst heq
      refine HomaRecvScheduler.holds_handle (hwf.receiver key.daddr) hhandle ?_ ?_
      · rcases mem_append.mp hev with hold | hnew
        · exact Or.inl (hholds key prior hprior ⟨event, hold, harr⟩)
        · exact Or.inr ⟨event, (hnews event).mpr ⟨hnew, hkind⟩, harr⟩
      · intro other hother
        exact hacc.unsettled other (mem_append_right _ ((hnews other).mp hother).1)

end

theorem holdsArrived_of_reachable (hreach : (machine setting).Reachable net) :
    net.HoldsArrived := by
  apply hreach.invariant_of fun _ hst => hst
  · rintro key since ⟨⟨before, _, _, hlog⟩, -⟩
    simp [machine, initial] at hlog
  · intro state action next hprior hholds _ hstep
    exact holdsArrived_stepped (wellFormed_of_reachable hprior) hholds (step_eq_ok hstep)

/-! ## What can still move a message -/

/-- Something can move the message: a packet of it is under way, would be transmitted or granted,
or its timer, fired often enough, asks for one again or gives up. -/
inductive CanMove (setting : Setting) (net : Network) (key : MsgKey) : Prop where
  | inFlight {packet : Packet} (hmem : packet ∈ net.inFlight) (hkey : packet.msgKey = key)
  | transmit {msg : HomaOutboundMsg}
      (hlook : (net.hosts key.saddr).sendScheduler.outboundMsgs.lookup key.txMsgId = some msg)
      (hkey : msg.key key.txMsgId = key)
      (hselectable : HomaSendScheduler.isSelectable msg = true)
      (hpending : (net.hosts key.saddr).sendScheduler.txEventPending = true)
  | grant {packet : Packet}
      (hpending : (net.hosts key.daddr).recvScheduler.creditTickPending = true)
      (hmem : packet ∈ ((net.hosts key.daddr).recvScheduler.sendAppropriateGrants
        (setting.config key.daddr)).2)
      (hkey : packet.ctrlKey = key)
  | retransmit {timer count : Nat} {msg : HomaInboundMsg} {final : Receiver} {event : Event}
      (hmsg : (net.hosts key.daddr).recvScheduler.inboundMsgs[timer]? = some msg)
      (hkey : msg.key = key) (htimer : msg.rtxEvent.isSome = true)
      (hcnt : count ≤ (setting.config key.daddr).maxNumRtxPerMsg + 2)
      (hexpire : Receiver.expire (setting.config key.daddr) timer count
        ⟨(net.hosts key.daddr).recvScheduler, []⟩ = .ok final)
      (hmem : event ∈ final.trace) (hmoves : event.isRtxOf key = true)

inductive Stranded (setting : Setting) (net : Network) (key : MsgKey)
    (since : List (Ipv4Address × Event)) : Prop where
  /-- The receiver has not heard of it, and all that needs no GRANT has been transmitted. -/
  | unheard (hquiet : ¬ Arrived key since)
      (hspent : ∀ msg, (net.hosts key.saddr).sendScheduler.outboundMsgs.lookup key.txMsgId =
        some msg → msg.key key.txMsgId = key → HomaSendScheduler.isSelectable msg = false)
  /-- The message is pending, but the last grant round has not scheduled it and the next would not.
  -/
  | unscheduled {msg : HomaInboundMsg}
      (hmem : msg ∈ (net.hosts key.daddr).recvScheduler.inboundMsgs) (hkey : msg.key = key)
      (hscheduled : msg.currentlyScheduled = false)
      (hbelow : msg.numRtxWithoutProgress < (setting.config key.daddr).maxNumRtxPerMsg)
      (hungranted : ∀ packet ∈ ((net.hosts key.daddr).recvScheduler.sendAppropriateGrants
        (setting.config key.daddr)).2, packet.ctrlKey ≠ key)

theorem canMove_of_timer (hreach : (machine setting).Reachable net) {msg : HomaInboundMsg}
    (hmem : msg ∈ (net.hosts key.daddr).recvScheduler.inboundMsgs) (hkey : msg.key = key)
    (hacts : msg.currentlyScheduled = true ∨
      (setting.config key.daddr).maxNumRtxPerMsg ≤ msg.numRtxWithoutProgress) :
    net.CanMove setting key := by
  have hwf := receiver_wellFormed key.daddr hreach
  obtain ⟨timer, hmsg⟩ := mem_iff_getElem?.mp hmem
  let receiver : Receiver := ⟨(net.hosts key.daddr).recvScheduler, []⟩
  have hgiven : ∃ count ≤ (setting.config key.daddr).maxNumRtxPerMsg + 2, ∃ final,
      Receiver.expire (setting.config key.daddr) timer count receiver = .ok final ∧
        .rtxLimit msg.key msg.origin ∈ final.trace := by
    rcases hacts with hsched | hlim
    · exact Receiver.expire_scheduled hwf hmsg hsched
    · exact ⟨1, by omega, Receiver.expire_limit hwf hmsg hlim⟩
  obtain ⟨count, hcnt, final, hexpire, hlast⟩ := hgiven
  exact .retransmit hmsg hkey (hwf.timer msg hmem) hcnt hexpire hlast (decide_eq_true hkey)

/-- No message that is neither handed up nor given up lacks what can move it, except where the
design leaves it to nobody. -/
theorem canMove_or_stranded (hreachable : (machine setting).Reachable net) (haccepted :
    net.Accepted key since) : net.CanMove setting key ∨ net.Stranded setting key since := by
  by_cases harrived : Arrived key since
  · have hholds := holdsArrived_of_reachable hreachable key since haccepted harrived
    obtain ⟨msg, hmem, hkey⟩ := List.mem_map.mp hholds
    by_cases hacts : msg.currentlyScheduled = true ∨
        (setting.config key.daddr).maxNumRtxPerMsg ≤ msg.numRtxWithoutProgress
    · exact Or.inl (canMove_of_timer hreachable hmem hkey hacts)
    · obtain ⟨hscheduled, hbelow⟩ := not_or.mp hacts
      by_cases hgrants : ∃ packet ∈ ((net.hosts key.daddr).recvScheduler.sendAppropriateGrants
          (setting.config key.daddr)).2, packet.ctrlKey = key
      · obtain ⟨packet, hpkt, hsame⟩ := hgrants
        have hticking := Receiver.ticking_of_reachable (receiver_reachable key.daddr hreachable)
        exact Or.inl (.grant (hticking (List.ne_nil_of_mem hpkt)) hpkt hsame)
      · exact Or.inr (.unscheduled hmem hkey (by simpa using hscheduled)
          (Nat.lt_of_not_le hbelow) (by simpa using hgrants))
  · by_cases hselectable : ∃ msg, (net.hosts key.saddr).sendScheduler.outboundMsgs.lookup
        key.txMsgId = some msg ∧ msg.key key.txMsgId = key ∧
        HomaSendScheduler.isSelectable msg = true
    · obtain ⟨msg, hlook, hkey, hselectable⟩ := hselectable
      have hawake := HomaSendScheduler.awake_of_reachable (sender_reachable key.saddr hreachable)
      exact Or.inl (.transmit hlook hkey hselectable (hawake _ msg hlook hselectable))
    · refine Or.inr (.unheard harrived fun msg hlook hkey => ?_)
      exact Bool.eq_false_iff.mpr fun htrue => hselectable ⟨msg, hlook, hkey, htrue⟩

theorem canMove_or_stranded_lostGrant :
    let setting := Setting.uniform Config.oneByteSird
    let net := (machine setting).after (fun _ _ => true)
      [.host 1 (.send [1, 2, 3] 2 5 6), .host 1 (.txDataPacket true [0]), .deliver 0 false ⟨[], 0⟩,
        .host 2 .creditTick, .lose 0] (machine setting).init
    net.inFlight = [] ∧
      (net.CanMove setting ⟨1, 2, 5, 6, 0⟩ ∨
        net.Stranded setting ⟨1, 2, 5, 6, 0⟩ net.log.tail) := by
  intro setting net
  have hreachable : (machine setting).Reachable net :=
    ReachableUnder.after (fun _ _ _ => trivial) _ .init
  have hlog : net.log = [] ++ (1, .msgBegin ⟨1, 2, 5, 6, 0⟩ 0 3) :: net.log.tail := by
    decide +kernel
  have hunsettled : ∀ entry ∈ net.log.tail, entry.2.settles ⟨1, 2, 5, 6, 0⟩ = false := by
    decide +kernel
  exact ⟨by decide +kernel, canMove_or_stranded hreachable
    ⟨⟨[], 0, 3, hlog⟩, fun event hev => hunsettled (2, event) hev⟩⟩

/-! ## Messages that are stranded -/

/-- Nothing is under way, and only timers are pending that have nothing to do. -/
def isIdle (setting : Setting) (net : Network) (key : MsgKey) : Bool :=
  net.inFlight.isEmpty &&
    ((net.hosts key.saddr).sendScheduler.outboundMsgs.lookup key.txMsgId).all
      (fun msg => !HomaSendScheduler.isSelectable msg) &&
    !(net.hosts key.daddr).recvScheduler.creditTickPending &&
    (net.hosts key.daddr).recvScheduler.inboundMsgs.all fun msg =>
      !msg.currentlyScheduled &&
        decide (msg.numRtxWithoutProgress < (setting.config key.daddr).maxNumRtxPerMsg)

theorem not_canMove_of_isIdle (hreach : (machine setting).Reachable net)
    (hidle : net.isIdle setting key = true) : ¬ net.CanMove setting key := by
  simp only [isIdle, Bool.and_eq_true, List.isEmpty_iff, List.all_eq_true, Bool.not_eq_true',
    decide_eq_true_eq] at hidle
  obtain ⟨⟨⟨hflight, hspent⟩, htick⟩, hrtx⟩ := hidle
  intro hmoves
  cases hmoves with
  | inFlight hmem =>
    rw [hflight] at hmem
    cases hmem
  | transmit hlook _ hsel =>
    rw [hlook] at hspent
    simp [hsel] at hspent
  | grant hpend =>
    rw [htick] at hpend
    cases hpend
  | retransmit hmsg _ _ _ hexpire hmem =>
    obtain ⟨hsched, hbelow⟩ := hrtx _ (List.mem_of_getElem? hmsg)
    have hwf := receiver_wellFormed key.daddr hreach
    have hsilent := Receiver.expire_unscheduled _ hwf hmsg hsched hbelow hexpire
    rw [hsilent] at hmem
    cases hmem

def lostOnly : List Action :=
  [.host 1 (.send [7] 2 5 6), .host 1 (.txDataPacket true [0]), .lose 0]

def lostSecond : List Action :=
  [.host 1 (.send [7, 8] 2 5 6), .host 1 (.txDataPacket true [0]),
    .host 1 (.txDataPacket true [0]), .deliver 0 false ⟨[], 0⟩, .lose 0]

def afterRun (inputs : List Action) : Network :=
  (machine (.uniform .oneByte)).after (fun _ _ => true) inputs (machine (.uniform .oneByte)).init

theorem stranded_afterRun {inputs : List Action} {msgSizeBytes : Nat}
    (hlog : (afterRun inputs).log =
      (key.saddr, .msgBegin key 0 msgSizeBytes) :: (afterRun inputs).log.tail)
    (hunsettled : ∀ entry ∈ (afterRun inputs).log.tail, entry.2.settles key = false)
    (hidle : (afterRun inputs).isIdle (.uniform .oneByte) key = true) :
    (machine (.uniform .oneByte)).Reachable (afterRun inputs) ∧
      (afterRun inputs).Accepted key (afterRun inputs).log.tail ∧
      ¬ (afterRun inputs).CanMove (.uniform .oneByte) key := by
  have hreach : (machine (.uniform .oneByte)).Reachable (afterRun inputs) :=
    ReachableUnder.after (fun _ _ _ => trivial) _ .init
  exact ⟨hreach,
    ⟨⟨[], 0, msgSizeBytes, hlog⟩, fun event hev => hunsettled (key.daddr, event) hev⟩,
    not_canMove_of_isIdle hreach hidle⟩

/-- After either loss nothing can move the message any more. -/
theorem lost_packet_strands :
    ((machine (.uniform .oneByte)).Reachable (afterRun lostOnly) ∧
      (afterRun lostOnly).Accepted ⟨1, 2, 5, 6, 0⟩ (afterRun lostOnly).log.tail ∧
      ¬ (afterRun lostOnly).CanMove (.uniform .oneByte) ⟨1, 2, 5, 6, 0⟩) ∧
      (machine (.uniform .oneByte)).Reachable (afterRun lostSecond) ∧
      (afterRun lostSecond).Accepted ⟨1, 2, 5, 6, 0⟩ (afterRun lostSecond).log.tail ∧
      ¬ (afterRun lostSecond).CanMove (.uniform .oneByte) ⟨1, 2, 5, 6, 0⟩ :=
  ⟨@stranded_afterRun ⟨1, 2, 5, 6, 0⟩ lostOnly 1 (by decide +kernel) (by decide +kernel)
      (by decide +kernel),
    @stranded_afterRun ⟨1, 2, 5, 6, 0⟩ lostSecond 2 (by decide +kernel) (by decide +kernel)
      (by decide +kernel)⟩

end Network

end HomaSird.Homa
