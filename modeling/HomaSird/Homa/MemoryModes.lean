import HomaSird.Homa.Reassembly
import HomaSird.Homa.RecvScheduler

/-! # The two memory modes

Whether a receiver keeps payloads or only their sizes shows in the messages it hands up and
nowhere else: with the buffers left out, the runs of both modes agree.
-/

namespace HomaSird.Homa

open Transition Transition.Machine List

def Config.withMode (cfg : Config) (memIsOptimized : Bool) : Config :=
  { cfg with memIsOptimized }

def Packet.zeroed (packet : Packet) : Packet :=
  { packet with payload := List.replicate packet.payload.length 0 }

theorem Packet.eq_of_zeroed {packet packet' : Packet} (hzeroed : packet.zeroed = packet'.zeroed) :
    ∃ payload', packet' = { packet with payload := payload' } ∧
      payload'.length = packet.payload.length := by
  obtain ⟨ipv4Header', homaHeader', payload', origin'⟩ := packet'
  simp only [zeroed, Packet.mk.injEq] at hzeroed
  obtain ⟨rfl, rfl, hzeros, rfl⟩ := hzeroed
  exact ⟨payload', rfl, by simpa using (congrArg length hzeros).symm⟩

theorem isEmpty_eq_of_length {payload payload' : Payload}
    (hlen : payload'.length = payload.length) : payload'.isEmpty = payload.isEmpty := by
  cases payload <;> cases payload' <;> simp_all

def Event.headers : Event → Event
  | sendDown packet => sendDown packet.zeroed
  | msgBegin key origin msgSizeBytes => msgBegin key origin msgSizeBytes
  | forwardUp key origin _ => forwardUp key origin []
  | dataRecv packet => dataRecv packet.zeroed
  | rtxLimit key origin => rtxLimit key origin

def HomaInboundMsg.strip (msg : HomaInboundMsg) : HomaInboundMsg :=
  { msg with packets := [], pktSizes := [] }

variable {cfg : Config} {mode mode' : Bool}

theorem map_bind_congr {α β γ δ η ζ : Type} {first : Except Fault α} {second : Except Fault β}
    {view : α → γ} {view' : β → γ} (hfst : first.map view = second.map view')
    {next : α → Except Fault δ} {next' : β → Except Fault η} {seen : δ → ζ} {seen' : η → ζ} (hnext :
    ∀ value value', view value = view' value' → (next value).map seen = (next' value').map seen') :
    (first >>= next).map seen = (second >>= next').map seen' := by
  cases first with
  | error fault =>
    cases second with
    | error other =>
      obtain rfl : fault = other := Except.error.inj hfst
      rfl
    | ok value' => cases hfst
  | ok value =>
    cases second with
    | error other => cases hfst
    | ok value' => exact hnext value value' (Except.ok.inj hfst)

namespace HomaInboundMsg

variable {msg msg' : HomaInboundMsg}

def markReceived (msg : HomaInboundMsg) (pktOffset payloadSize : Nat) : HomaInboundMsg :=
  { msg with
    receivedPackets := msg.receivedPackets.set pktOffset true
    remainingBytes := uint32OfInt (msg.remainingBytes - payloadSize) }

theorem strip_store (cfg : Config) (msg : HomaInboundMsg) (pktOffset : Nat)
    (payload : Payload) :
    (msg.store cfg pktOffset payload).strip =
      msg.strip.markReceived pktOffset payload.length := rfl

theorem strip_openWindow (msg : HomaInboundMsg) : msg.openWindow.strip = msg.strip.openWindow :=
  apply_ite strip _ _ _

theorem strip_setCurrentlyScheduled (msg : HomaInboundMsg) (scheduled : Bool) :
    (msg.setCurrentlyScheduled scheduled).strip = msg.strip.setCurrentlyScheduled scheduled := rfl

theorem strip_advanceGrantableWindow (msg : HomaInboundMsg) (grantPkts : Nat) :
    (msg.advanceGrantableWindow grantPkts).1.strip =
      (msg.strip.advanceGrantableWindow grantPkts).1 := by
  simp only [advanceGrantableWindow, apply_ite Prod.fst, apply_ite strip]
  rfl

theorem strip_receiveDataPacket {payload payload' : Payload} (hsame : msg.strip = msg'.strip)
    (hlen : payload'.length = payload.length) (pktOffset : Nat) :
    (msg.receiveDataPacket (cfg.withMode mode) payload pktOffset).map strip =
      (msg'.receiveDataPacket (cfg.withMode mode') payload' pktOffset).map strip := by
  have hseen := congrArg receivedPackets hsame
  have hgot : msg.receivedPackets = msg'.receivedPackets := hseen
  simp only [receiveDataPacket, isEmpty_eq_of_length hlen, hgot]
  split
  · exact congrArg Except.ok hsame
  · split
    · rfl
    · exact congrArg Except.ok hsame
    · simp only [Except.map, strip_openWindow, strip_store, hsame, hlen]

theorem strip_create {packet packet' : Packet} (hzeroed : packet.zeroed = packet'.zeroed) :
    (create (cfg.withMode mode) packet).map strip =
      (create (cfg.withMode mode') packet').map strip := by
  obtain ⟨payload', rfl, hlen⟩ := Packet.eq_of_zeroed hzeroed
  simp only [create, isEmpty_eq_of_length hlen]
  split
  · rfl
  · rw [apply_ite (Except.map strip), apply_ite (Except.map strip)]
    simp only [Except.map, strip_store, hlen]
    rfl

end HomaInboundMsg

namespace HomaRecvScheduler

open HomaInboundMsg

/-! ## Granting reads no buffer -/

def stripMsg (visited : GrantRound × HomaInboundMsg) : GrantRound × HomaInboundMsg :=
  (visited.1, visited.2.strip)

theorem strip_homaStep (busySenders : Finset Ipv4Address) (round : GrantRound)
    (msg : HomaInboundMsg) :
    round.homaStep cfg busySenders msg.strip = stripMsg (round.homaStep cfg busySenders msg) := by
  simp only [GrantRound.homaStep, apply_ite stripMsg]
  rfl

theorem strip_sirdStep (busySenders : Finset Ipv4Address) (round : GrantRound)
    (msg : HomaInboundMsg) :
    round.sirdStep cfg busySenders msg.strip = stripMsg (round.sirdStep cfg busySenders msg) := by
  have hopened : ∀ msg : HomaInboundMsg,
      (if msg.strip.isGrantable then msg.strip else (msg.strip.advanceGrantableWindow 1).1) =
        (if msg.isGrantable then msg else (msg.advanceGrantableWindow 1).1).strip := by
    intro msg
    rw [← strip_advanceGrantableWindow]
    exact (apply_ite HomaInboundMsg.strip _ _ _).symm
  simp only [GrantRound.sirdStep]
  rw [← strip_setCurrentlyScheduled, hopened]
  simp only [apply_ite stripMsg]
  rfl

theorem strip_grantStep (busySenders : Finset Ipv4Address) (round : GrantRound)
    (msg : HomaInboundMsg) :
    grantStep cfg busySenders round msg.strip = stripMsg (grantStep cfg busySenders round msg) := by
  unfold grantStep
  split
  · exact strip_sirdStep busySenders round msg
  · exact strip_homaStep busySenders round msg

theorem strip_loop {step : GrantRound → HomaInboundMsg → GrantRound × HomaInboundMsg}
    (hstep : ∀ round msg, step round msg.strip = stripMsg (step round msg)) (round : GrantRound)
    (msgs : List HomaInboundMsg) :
    GrantRound.loop step round (msgs.map strip) =
      ((GrantRound.loop step round msgs).1, (GrantRound.loop step round msgs).2.map strip) := by
  induction msgs generalizing round with
  | nil => rfl
  | cons msg rest ih =>
    simp only [map_cons, GrantRound.loop, hstep, stripMsg, ih]

def strip (sched : HomaRecvScheduler) : HomaRecvScheduler :=
  { sched with inboundMsgs := sched.inboundMsgs.map HomaInboundMsg.strip }

theorem strip_hasGrantOpportunity (cfg : Config) (sched : HomaRecvScheduler) :
    sched.strip.hasGrantOpportunity cfg = sched.hasGrantOpportunity cfg := by
  simp only [hasGrantOpportunity, strip, any_map]
  rfl

theorem strip_ensureCreditTickScheduled (cfg : Config) (sched : HomaRecvScheduler) :
    (sched.ensureCreditTickScheduled cfg).strip = sched.strip.ensureCreditTickScheduled cfg := by
  rw [ensureCreditTickScheduled, ensureCreditTickScheduled, strip_hasGrantOpportunity]
  rfl

theorem strip_sendAppropriateGrants (cfg : Config) (sched : HomaRecvScheduler) :
    sched.strip.sendAppropriateGrants cfg =
      ((sched.sendAppropriateGrants cfg).1.strip, (sched.sendAppropriateGrants cfg).2) := by
  simp only [sendAppropriateGrants, strip, strip_loop (strip_grantStep sched.busySenders)]

theorem strip_creditTick (cfg : Config) (sched : HomaRecvScheduler) :
    sched.strip.creditTick cfg = ((sched.creditTick cfg).1.strip, (sched.creditTick cfg).2) := by
  rw [creditTick, strip_sendAppropriateGrants]
  simp only [strip_hasGrantOpportunity]
  rfl

/-! ## Arriving packets -/

theorem strip_getInboundMsg (sched : HomaRecvScheduler)
    (key : MsgKey) : sched.strip.getInboundMsg key = sched.getInboundMsg key := by
  simp only [getInboundMsg, strip, findIdx?_map]
  rfl

theorem strip_insertByRemaining (msg : HomaInboundMsg) (msgs : List HomaInboundMsg) :
    (insertByRemaining msg msgs).map HomaInboundMsg.strip =
      insertByRemaining msg.strip (msgs.map HomaInboundMsg.strip) := by
  induction msgs with
  | nil => rfl
  | cons first rest ih =>
    rw [insertByRemaining, apply_ite (map HomaInboundMsg.strip), map_cons,
      map_cons, map_cons, ih]
    rfl

theorem strip_eraseMsg (msgs : List HomaInboundMsg) (msgIdx : Option Nat) :
    (eraseMsg msgs msgIdx).map HomaInboundMsg.strip =
      eraseMsg (msgs.map HomaInboundMsg.strip) msgIdx := by
  cases msgIdx with
  | none => rfl
  | some index => exact (eraseIdx_map _ _ _).symm

theorem strip_scheduleMsgAtIdx (cfg : Config) (sched : HomaRecvScheduler) (msg : HomaInboundMsg)
    (msgIdx : Option Nat) :
    (sched.scheduleMsgAtIdx cfg msg msgIdx).strip =
      sched.strip.scheduleMsgAtIdx cfg msg.strip msgIdx := by
  simp only [scheduleMsgAtIdx, strip, apply_ite (map HomaInboundMsg.strip),
    strip_insertByRemaining, map_append, strip_eraseMsg, map_cons, map_nil]

theorem strip_clearStateForMsg (sched : HomaRecvScheduler) (msgIdx : Option Nat) :
    (sched.clearStateForMsg msgIdx).strip = sched.strip.clearStateForMsg msgIdx := by
  simp only [clearStateForMsg, strip, strip_eraseMsg]

/-- The message a DATA packet goes to, without its buffer. -/
def stripTaken (taken : HomaInboundMsg × Option Nat) : HomaInboundMsg × Option Nat :=
  (taken.1.strip, taken.2)

def stripOutcome (outcome : HomaRecvScheduler × List Event) : HomaRecvScheduler × List Event :=
  (outcome.1.strip, outcome.2.map Event.headers)

variable {sched sched' : HomaRecvScheduler} {packet packet' : Packet}

section

variable (hsched : sched.strip = sched'.strip)
include hsched

theorem getElem?_strip (index : Nat) :
    (sched.inboundMsgs[index]? = none ∧ sched'.inboundMsgs[index]? = none) ∨
      ∃ msg msg',
        sched.inboundMsgs[index]? = some msg ∧ sched'.inboundMsgs[index]? = some msg' ∧
          msg.strip = msg'.strip := by
  have hmsgs := congrArg (fun sched => sched.inboundMsgs[index]?) hsched
  simp only [strip, getElem?_map] at hmsgs
  cases hmsg : sched.inboundMsgs[index]? with
  | none =>
    cases hmsg' : sched'.inboundMsgs[index]? with
    | none => exact Or.inl ⟨rfl, rfl⟩
    | some msg' =>
      rw [hmsg, hmsg'] at hmsgs
      cases hmsgs
  | some msg =>
    cases hmsg' : sched'.inboundMsgs[index]? with
    | none =>
      rw [hmsg, hmsg'] at hmsgs
      cases hmsgs
    | some msg' =>
      rw [hmsg, hmsg'] at hmsgs
      exact Or.inr ⟨msg, msg', rfl, rfl, Option.some.inj hmsgs⟩

theorem strip_takeData (hzeroed : packet.zeroed = packet'.zeroed) :
    (sched.takeData (cfg.withMode mode) packet).map stripTaken =
    (sched'.takeData (cfg.withMode mode') packet').map stripTaken := by
  have hidx : sched.getInboundMsg packet.key = sched'.getInboundMsg packet.key := by
    rw [← strip_getInboundMsg, hsched, strip_getInboundMsg]
  obtain ⟨payload', rfl, hlen⟩ := Packet.eq_of_zeroed hzeroed
  have hkey : ({ packet with payload := payload' } : Packet).key = packet.key := rfl
  simp only [takeData, hkey, hidx]
  split
  next msgIdx hfound =>
    rcases getElem?_strip hsched msgIdx with ⟨hnone, hnone'⟩ | ⟨msg, msg', hmsg, hmsg', hsame⟩
    · simp only [hnone, hnone']
    · simp only [hmsg, hmsg']
      refine map_bind_congr (strip_receiveDataPacket hsame hlen _) ?_
      intro received received' hgot
      exact congrArg (fun msg => Except.ok (msg, some msgIdx)) hgot
  · refine map_bind_congr (strip_create hzeroed) ?_
    intro created created' hmade
    exact congrArg (fun msg : HomaInboundMsg =>
      Except.ok ({ msg with rtxEvent := some msg.maxGrantedIdx }, none)) hmade

theorem strip_forwardUp {msg msg' : HomaInboundMsg} (hsame : msg.strip = msg'.strip)
    (msgIdx : Option Nat) :
    stripOutcome (sched.forwardUp (cfg.withMode mode) msg msgIdx) =
      stripOutcome (sched'.forwardUp (cfg.withMode mode') msg' msgIdx) := by
  have hclear :
      (sched.clearStateForMsg msgIdx).strip = (sched'.clearStateForMsg msgIdx).strip := by
    rw [strip_clearStateForMsg, hsched, strip_clearStateForMsg]
  have hevs := congrArg (fun msg : HomaInboundMsg =>
    [Event.forwardUp msg.key msg.origin [],
      (Event.sendDown (msg.generateAck cfg.numUnschedPrioBands)).headers]) hsame
  exact Prod.ext hclear hevs

theorem strip_receiveData (hzeroed : packet.zeroed = packet'.zeroed) :
    (sched.receiveDataPacket (cfg.withMode mode) packet).map stripOutcome =
    (sched'.receiveDataPacket (cfg.withMode mode') packet').map stripOutcome := by
  refine map_bind_congr (strip_takeData hsched hzeroed) ?_
  rintro ⟨msg, msgIdx⟩ ⟨msg', msgIdx'⟩ htaken
  obtain ⟨hsame, rfl⟩ := Prod.mk.inj htaken
  have hfull : msg.isFullyReceived = msg'.isFullyReceived := by
    have hstrip := congrArg isFullyReceived hsame
    exact hstrip
  refine congrArg Except.ok ?_
  rw [apply_ite stripOutcome, apply_ite stripOutcome, hfull, strip_forwardUp hsched hsame]
  refine congrArg (ite _ _) (Prod.ext ?_ rfl)
  simp only [stripOutcome, strip_scheduleMsgAtIdx, hsched]
  rw [show msg.strip = msg'.strip from hsame]
  rfl

theorem strip_ensured :
    (sched.ensureCreditTickScheduled (cfg.withMode mode)).strip =
      (sched'.ensureCreditTickScheduled (cfg.withMode mode')).strip := by
  rw [strip_ensureCreditTickScheduled, hsched, strip_ensureCreditTickScheduled]
  rfl

end

def feed (cfg : Config) (sched : HomaRecvScheduler) (packet : Packet) : HomaRecvScheduler :=
  if cfg.sirdEnabled then { sched with sird := sched.sird.receiveData cfg packet }
  else sched

theorem strip_feed (hsched : sched.strip = sched'.strip)
    (hzeroed : packet.zeroed = packet'.zeroed) :
    (sched.feed (cfg.withMode mode) packet).strip =
      (sched'.feed (cfg.withMode mode') packet').strip := by
  obtain ⟨payload', rfl, hlen⟩ := Packet.eq_of_zeroed hzeroed
  have hgot : ∀ sird : SirdState,
      sird.receiveData cfg { packet with payload := payload' } =
        sird.receiveData cfg packet := by
    intro sird
    simp only [SirdState.receiveData, isEmpty_eq_of_length hlen]
  have hfed : ∀ (mode : Bool) (sched : HomaRecvScheduler) (packet : Packet),
      (sched.feed (cfg.withMode mode) packet).strip =
        if cfg.sirdEnabled then
          { sched.strip with sird := sched.strip.sird.receiveData cfg packet }
        else sched.strip := fun _ _ _ => apply_ite strip _ _ _
  rw [hfed, hfed, hsched, hgot]

theorem strip_receivePacket (hsched : sched.strip = sched'.strip)
    (hzeroed : packet.zeroed = packet'.zeroed) :
    (sched.receivePacket (cfg.withMode mode) packet).map stripOutcome =
      (sched'.receivePacket (cfg.withMode mode') packet').map stripOutcome := by
  have hseen := congrArg (fun packet => Event.dataRecv packet) hzeroed
  have hfed : (sched.feed (cfg.withMode mode) packet).strip =
      (sched'.feed (cfg.withMode mode') packet').strip := strip_feed hsched hzeroed
  have hflag : ∀ flag, packet'.hasFlag flag = packet.hasFlag flag := by
    intro flag
    obtain ⟨payload', rfl, -⟩ := Packet.eq_of_zeroed hzeroed
    rfl
  have hsource : packet'.ipv4Header.source = packet.ipv4Header.source := by
    obtain ⟨payload', rfl, -⟩ := Packet.eq_of_zeroed hzeroed
    rfl
  simp only [receivePacket, hflag, hsource]
  split
  · refine map_bind_congr (strip_receiveData hfed hzeroed) ?_
    rintro ⟨received, events⟩ ⟨received', events'⟩ hout
    obtain ⟨hgot, hevs⟩ := Prod.mk.inj hout
    refine congrArg Except.ok (Prod.ext ?_ ?_)
    · refine strip_ensured ?_
      exact congrArg (fun stripped : HomaRecvScheduler => { stripped with
        busySenders := stripped.busySenders.erase packet.ipv4Header.source }) hgot
    · simp only [stripOutcome, map_append, map_cons, map_nil, Event.headers]
      rw [show events.map Event.headers = events'.map Event.headers from hevs, hseen]
  · split
    · refine congrArg Except.ok (Prod.ext (strip_ensured ?_) rfl)
      exact congrArg (fun stripped : HomaRecvScheduler => { stripped with
        busySenders := insert packet.ipv4Header.source stripped.busySenders }) hsched
    · exact congrArg Except.ok (Prod.ext (strip_ensured hsched) rfl)

/-! ## Timers -/

theorem strip_expireRtxTimeout (hsched : sched.strip = sched'.strip) (timer : Nat) :
    (sched.expireRtxTimeout (cfg.withMode mode) timer).map stripOutcome =
      (sched'.expireRtxTimeout (cfg.withMode mode') timer).map stripOutcome := by
  rcases getElem?_strip hsched timer with ⟨hnone, hnone'⟩ | ⟨msg, msg', hmsg, hmsg', hsame⟩
  · simp only [expireRtxTimeout, hnone, hnone']
  · have hput : ∀ {updated updated' : HomaInboundMsg}, updated.strip = updated'.strip →
        strip { sched with inboundMsgs := sched.inboundMsgs.set timer updated } =
          strip { sched' with inboundMsgs := sched'.inboundMsgs.set timer updated' } := by
      intro updated updated' hupd
      simp only [strip, map_set, hupd]
      exact congrArg (fun stripped : HomaRecvScheduler => { stripped with
        inboundMsgs := stripped.inboundMsgs.set timer updated'.strip }) hsched
    have hexp : HomaInboundMsg.strip { msg with rtxEvent := none } =
        HomaInboundMsg.strip { msg' with rtxEvent := none } :=
      congrArg (fun stripped : HomaInboundMsg => { stripped with rtxEvent := none }) hsame
    have hrearmed : (rearmRtx msg).strip = (rearmRtx msg').strip := congrArg rearmRtx hsame
    -- what the timer looks at is the same in both messages
    have hrtxEvent : msg.rtxEvent = msg'.rtxEvent := by
      have hstrip := congrArg rtxEvent hsame
      exact hstrip
    have hfull : msg.isFullyReceived = msg'.isFullyReceived := by
      have hstrip := congrArg isFullyReceived hsame
      exact hstrip
    have hnum : msg.numRtxWithoutProgress = msg'.numRtxWithoutProgress := by
      have hstrip := congrArg numRtxWithoutProgress hsame
      exact hstrip
    have hkey := congrArg HomaInboundMsg.key hsame
    have hidx : sched.getInboundMsg msg.key = sched'.getInboundMsg msg'.key := by
      rw [← strip_getInboundMsg, hsched, strip_getInboundMsg]
      exact congrArg _ hkey
    simp only [expireRtxTimeout, hmsg, hmsg', hidx]
    rw [hrtxEvent, hfull]
    split
    · rfl
    next maxRsndPktOffset hpend =>
      split
      · exact congrArg Except.ok (Prod.ext (hput hexp) rfl)
      · split
        · exact congrArg Except.ok (Prod.ext (hput hexp) rfl)
        next msgIdx hfound =>
          rw [apply_ite (Except.map stripOutcome), apply_ite (Except.map stripOutcome)]
          refine if_ctx_congr (iff_of_eq (congrArg _ hnum)) (fun _ => ?_) (fun _ => ?_)
          · refine congrArg Except.ok (Prod.ext ?_ ?_)
            · simp only [stripOutcome, strip_clearStateForMsg, hput hexp]
            · have hevs := congrArg (fun stripped : HomaInboundMsg =>
                [Event.rtxLimit stripped.key stripped.origin]) hsame
              exact hevs
          · refine congrArg Except.ok (Prod.ext (hput hrearmed) ?_)
            have hresend : sched.resends msg maxRsndPktOffset =
                sched'.resends msg' maxRsndPktOffset := by
              calc sched.resends msg maxRsndPktOffset
                  = sched.strip.resends msg.strip maxRsndPktOffset := rfl
                _ = sched'.strip.resends msg'.strip maxRsndPktOffset := by rw [hsched, hsame]
                _ = sched'.resends msg' maxRsndPktOffset := rfl
            simp only [stripOutcome, hresend]

def RecvInput.zeroed : RecvInput → RecvInput
  | .packet packet => .packet packet.zeroed
  | .creditTick => .creditTick
  | .rtxExpire timer => .rtxExpire timer

theorem strip_handle (hsched : sched.strip = sched'.strip) {input input' : RecvInput}
    (hinp : input.zeroed = input'.zeroed) :
    (sched.handle (cfg.withMode mode) input).map stripOutcome =
      (sched'.handle (cfg.withMode mode') input').map stripOutcome := by
  cases input with
  | packet packet =>
    cases input' with
    | packet packet' =>
      have hzeroed := RecvInput.packet.inj hinp
      have hgot : (sched.receivePacket (cfg.withMode mode) packet).map stripOutcome =
          (sched'.receivePacket (cfg.withMode mode') packet').map stripOutcome :=
        strip_receivePacket hsched hzeroed
      obtain ⟨payload', rfl, hlen⟩ := Packet.eq_of_zeroed hzeroed
      simp only [handle, hlen]
      split
      · exact hgot
      · rfl
    | creditTick => cases hinp
    | rtxExpire timer => cases hinp
  | creditTick =>
    cases input' with
    | packet packet' => cases hinp
    | creditTick =>
      have hpend : sched.creditTickPending = sched'.creditTickPending := by
        have hstrip := congrArg creditTickPending hsched
        exact hstrip
      have hticked : ((sched.creditTick cfg).1.strip, (sched.creditTick cfg).2) =
          ((sched'.creditTick cfg).1.strip, (sched'.creditTick cfg).2) := by
        rw [← strip_creditTick, hsched, strip_creditTick]
      simp only [handle, hpend]
      split
      · exact congrArg (fun ticked : HomaRecvScheduler × List Packet =>
          Except.ok (ticked.1, (ticked.2.map Event.sendDown).map Event.headers)) hticked
      · rfl
    | rtxExpire timer => cases hinp
  | rtxExpire timer =>
    cases input' with
    | packet packet' => cases hinp
    | creditTick => cases hinp
    | rtxExpire timer' =>
      obtain rfl := RecvInput.rtxExpire.inj hinp
      exact strip_expireRtxTimeout hsched timer

end HomaRecvScheduler

namespace Receiver

open HomaRecvScheduler

def strip (receiver : Receiver) : Receiver where
  sched := receiver.sched.strip
  trace := receiver.trace.map Event.headers

variable {receiver receiver' : Receiver}

theorem strip_step (hsame : receiver.strip = receiver'.strip) {input input' : RecvInput}
    (hinp : input.zeroed = input'.zeroed) :
    (receiver.step (cfg.withMode mode) input).map strip =
      (receiver'.step (cfg.withMode mode') input').map strip := by
  have hsched := congrArg sched hsame
  have htrace := congrArg trace hsame
  refine map_bind_congr (strip_handle hsched hinp) ?_
  rintro ⟨next, events⟩ ⟨next', events'⟩ hout
  obtain ⟨hnext, hevs⟩ := Prod.mk.inj hout
  refine congrArg Except.ok ?_
  simp only [strip, map_append, Receiver.mk.injEq]
  exact ⟨hnext, congrArg₂ _ htrace hevs⟩

theorem strip_run (hsame : receiver.strip = receiver'.strip) {inputs inputs' : List RecvInput}
    (hinputs : inputs.map RecvInput.zeroed = inputs'.map RecvInput.zeroed) :
    ((machine (cfg.withMode mode)).run inputs receiver).map strip =
    ((machine (cfg.withMode mode')).run inputs' receiver').map strip := by
  induction inputs generalizing inputs' receiver receiver' with
  | nil =>
    obtain rfl := map_eq_nil_iff.mp hinputs.symm
    exact congrArg Except.ok hsame
  | cons input rest ih =>
    cases inputs' with
    | nil => cases hinputs
    | cons input' rest' =>
      obtain ⟨hinp, hrest⟩ := cons.inj hinputs
      have hstep : ((machine (cfg.withMode mode)).step receiver input).map strip =
          ((machine (cfg.withMode mode')).step receiver' input').map strip :=
        strip_step hsame hinp
      rw [Machine.run, Machine.run]
      cases hmoved : (machine (cfg.withMode mode)).step receiver input with
      | error fault =>
        cases hmoved' : (machine (cfg.withMode mode')).step receiver' input' with
        | error other =>
          rw [hmoved, hmoved'] at hstep
          exact hstep
        | ok next' =>
          rw [hmoved, hmoved'] at hstep
          cases hstep
      | ok next =>
        cases hmoved' : (machine (cfg.withMode mode')).step receiver' input' with
        | error other =>
          rw [hmoved, hmoved'] at hstep
          cases hstep
        | ok next' =>
          rw [hmoved, hmoved'] at hstep
          exact ih (Except.ok.inj hstep) hrest

end Receiver

/-! ## Reassembly in both modes -/

/-- Whatever packets of a message arrive, in any order and with repetitions, the remaining bytes
are those of the missing offsets, the message is complete when all have arrived, which is when no
byte remains, and what is handed up is the message, or zeros of its size when memory is optimized.
A receiver emits the same headers in both modes. -/
theorem reassembly_exact (cfg : Config) :
    (∀ (mode : Bool) (message : Payload) (saddr daddr : Ipv4Address) (sport dport origin : Nat),
      (HomaOutboundMsg.fragments cfg message).length < 2 ^ 16 →
        ∃ outMsg,
          HomaOutboundMsg.create (cfg.withMode mode) message saddr daddr sport dport origin =
            .ok outMsg ∧
            (∀ packet,
              HomaInboundMsg.IsArrival (cfg.withMode mode) outMsg packet →
                ∃ msg, HomaInboundMsg.create (cfg.withMode mode) packet = .ok msg) ∧
            ∀ arrived msg,
              HomaInboundMsg.Fed (cfg.withMode mode) outMsg arrived msg →
                (∀ packet,
                  HomaInboundMsg.IsArrival (cfg.withMode mode) outMsg packet →
                    ∃ next, msg.receiveDataPacket (cfg.withMode mode) packet.payload
                        packet.homaHeader.pktOffset = .ok next) ∧
                  msg.remainingBytes = ∑ offset ∈ missingOffsets
                      (HomaOutboundMsg.fragments cfg message).length arrived,
                      ((HomaOutboundMsg.fragments cfg message).getD offset []).length ∧
                        (msg.isFullyReceived = true ↔
                          ∀ offset < (HomaOutboundMsg.fragments cfg message).length,
                            offset ∈ arrived) ∧
                        (msg.isFullyReceived = true ↔ msg.remainingBytes = 0) ∧
                        (msg.isFullyReceived = true →
                          msg.getReassembledMsg (cfg.withMode mode) =
                            if mode then List.replicate message.length 0 else message)) ∧
      ∀ (mode mode' : Bool) (inputs inputs' : List HomaRecvScheduler.RecvInput),
        inputs.map HomaRecvScheduler.RecvInput.zeroed =
          inputs'.map HomaRecvScheduler.RecvInput.zeroed →
          ((Receiver.machine (cfg.withMode mode)).run inputs
            (Receiver.machine (cfg.withMode mode)).init).map Receiver.strip =
            ((Receiver.machine (cfg.withMode mode')).run inputs'
              (Receiver.machine (cfg.withMode mode')).init).map Receiver.strip := by
  refine ⟨fun mode message saddr daddr sport dport origin hlt => ?_,
    fun mode mode' inputs inputs' hinputs => Receiver.strip_run rfl hinputs⟩
  obtain ⟨outMsg, hcreate⟩ : ∃ outMsg, HomaOutboundMsg.create (cfg.withMode mode) message saddr
      daddr sport dport origin = .ok outMsg := HomaOutboundMsg.create_of_length_lt hlt
  have hsz : outMsg.getMsgSizePkts = (HomaOutboundMsg.fragments cfg message).length :=
    (HomaOutboundMsg.fresh_of_create hcreate).getMsgSizePkts_eq
  refine ⟨outMsg, hcreate, fun packet => HomaInboundMsg.create_isOk hcreate, ?_⟩
  intro arrived msg hfed
  have hbuffered := HomaInboundMsg.buffered_of_fed hcreate hfed
  have hcomplete := hbuffered.isFullyReceived_iff
  have hnothing := hbuffered.remainingBytes_eq_zero_iff hcreate
  refine ⟨fun packet => hbuffered.receive_isOk, ?_, ?_, hcomplete.trans hnothing.symm, ?_⟩
  · rw [hbuffered.remainingBytes_eq, hsz]
    apply Finset.sum_congr rfl
    intro offset hmissing
    have hoff := (mem_missingOffsets.mp hmissing).1
    rw [List.getD_eq_getElem?_getD, List.getElem?_eq_getElem hoff]
    exact HomaOutboundMsg.length_fragment_of_create hcreate hoff
  · rw [hcomplete, hsz]
  · intro hdone
    exact hbuffered.getReassembledMsg_eq hcreate (hcomplete.mp hdone)

theorem reassembly_exact_reversed :
    ∃ outMsg msg,
      HomaInboundMsg.Fed (Config.oneByte.withMode false) outMsg [1, 0] msg ∧
        msg.getReassembledMsg (Config.oneByte.withMode false) = [7, 8] := by
  obtain ⟨outMsg, hcreate, hfst, hfed⟩ :=
    (reassembly_exact Config.oneByte).1 false [7, 8] 1 2 5 6 0 (by decide)
  have hlater : HomaInboundMsg.IsArrival (Config.oneByte.withMode false) outMsg
      (samplePacket 2 1 [8]) := by
    have hfragment := HomaOutboundMsg.fragment_of_create hcreate (show 1 < 2 by decide)
    refine ⟨(HomaOutboundMsg.create_eq_ok hcreate).msgSizeBytes_eq.symm, Or.inr ⟨?_, ?_⟩⟩
    · rw [(HomaOutboundMsg.fresh_of_create hcreate).getMsgSizePkts_eq]
      decide
    · exact hfragment.symm
  have hearlier : HomaInboundMsg.IsArrival (Config.oneByte.withMode false) outMsg
      (samplePacket 2 0 [7]) := by
    have hfragment := HomaOutboundMsg.fragment_of_create hcreate (show 0 < 2 by decide)
    refine ⟨(HomaOutboundMsg.create_eq_ok hcreate).msgSizeBytes_eq.symm, Or.inr ⟨?_, ?_⟩⟩
    · rw [(HomaOutboundMsg.fresh_of_create hcreate).getMsgSizePkts_eq]
      decide
    · exact hfragment.symm
  obtain ⟨created, hcreated⟩ := hfst _ hlater
  have hone : HomaInboundMsg.Fed (Config.oneByte.withMode false) outMsg [1] created :=
    .created hlater hcreated
  obtain ⟨received, hreceived⟩ := (hfed _ _ hone).1 _ hearlier
  have hboth : HomaInboundMsg.Fed (Config.oneByte.withMode false) outMsg [1, 0] received :=
    .received hone hearlier hreceived
  obtain ⟨-, -, hcomplete, -, hmessage⟩ := hfed _ _ hboth
  refine ⟨outMsg, received, hboth, hmessage (hcomplete.mpr ?_)⟩
  decide

end HomaSird.Homa
