import HomaSird.Homa.GrantLoop

/-! # What one event does to a receiver

Inversion lemmas for `ReceivePacket`, `CreditTick` and `ExpireRtxTimeout`, and the invariant they
keep: every pending message is sound, incomplete and has a timer, and keys are distinct.
-/

namespace HomaSird.Homa.HomaRecvScheduler

open Transition Transition.Machine GrantRound HomaInboundMsg List

variable {cfg : Config} {sched next : HomaRecvScheduler} {events : List Event}

/-! ## Arriving packets -/

/-- How DATA reaches its message; `others` are the pending messages besides that one. -/
inductive Taken (cfg : Config) (sched : HomaRecvScheduler) (packet : Packet)
    (inboundMsg : HomaInboundMsg) (others : List HomaInboundMsg) : Prop where
  | pending {msg : HomaInboundMsg} (hperm : sched.inboundMsgs.Perm (msg :: others))
      (hkey : msg.key = packet.key)
      (hreceive : msg.receiveDataPacket cfg packet.payload packet.homaHeader.pktOffset =
        .ok inboundMsg)
  | fresh {created : HomaInboundMsg} (hothers : others = sched.inboundMsgs)
      (hnew : ∀ msg ∈ sched.inboundMsgs, msg.key ≠ packet.key)
      (hcreate : HomaInboundMsg.create cfg packet = .ok created)
      (hmsg : inboundMsg = { created with rtxEvent := some created.maxGrantedIdx })

variable {packet : Packet} {msg : HomaInboundMsg} {busySenders : Finset Ipv4Address}

theorem takeData_eq_ok {inboundMsg : HomaInboundMsg}
    {msgIdx : Option Nat} (htake : sched.takeData cfg packet = .ok (inboundMsg, msgIdx)) :
    Taken cfg sched packet inboundMsg (eraseMsg sched.inboundMsgs msgIdx) := by
  unfold takeData at htake
  split at htake
  next found hfound =>
    split at htake
    · cases htake
    next msg hmsg =>
      obtain ⟨received, hrecv, hok⟩ := bind_eq_ok.mp htake
      cases hok
      obtain ⟨hlt, hkey, _⟩ := List.findIdx?_eq_some_iff_getElem.mp hfound
      obtain ⟨_, rfl⟩ := List.getElem?_eq_some_iff.mp hmsg
      have hperm := getElem_cons_eraseIdx_perm hlt
      exact .pending hperm.symm (by simpa using hkey) hrecv
  next hnone =>
    obtain ⟨created, hcreate, hok⟩ := bind_eq_ok.mp htake
    cases hok
    have hnew := List.findIdx?_eq_none_iff.mp hnone
    exact .fresh rfl (fun msg hmsg => by simpa using hnew msg hmsg) hcreate rfl

theorem insertByRemaining_perm (inboundMsg : HomaInboundMsg) (msgs : List HomaInboundMsg) :
    (insertByRemaining inboundMsg msgs).Perm (inboundMsg :: msgs) := by
  induction msgs with
  | nil => exact List.Perm.refl _
  | cons msg rest ih =>
    rw [insertByRemaining]
    split
    · exact List.Perm.refl _
    · exact (List.Perm.cons msg ih).trans (List.Perm.swap _ _ _)

theorem scheduleMsgAtIdx_perm (inboundMsg : HomaInboundMsg) (msgIdx : Option Nat) :
    (sched.scheduleMsgAtIdx cfg inboundMsg msgIdx).inboundMsgs.Perm
      (inboundMsg :: eraseMsg sched.inboundMsgs msgIdx) := by
  simp only [scheduleMsgAtIdx]
  split
  · exact perm_append_singleton _ _
  · exact insertByRemaining_perm _ _

/-- The message of a DATA packet is complete, handed up and acknowledged, or waits for more. -/
inductive Settled (cfg : Config) (inboundMsg : HomaInboundMsg) (others : List HomaInboundMsg)
    (msgs : List HomaInboundMsg) (events : List Event) : Prop where
  | complete (hcomplete : inboundMsg.isFullyReceived = true) (hmsgs : msgs = others)
      (hevs : events =
        [.forwardUp inboundMsg.key inboundMsg.origin (inboundMsg.getReassembledMsg cfg),
          .sendDown (inboundMsg.generateAck cfg.numUnschedPrioBands)])
  | waiting (hincomplete : inboundMsg.isFullyReceived = false)
      (hmsgs : msgs.Perm (inboundMsg :: others)) (hevs : events = [])

theorem receiveDataPacket_eq_ok (hrecv : sched.receiveDataPacket cfg packet = .ok (next, events)) :
    ∃ inboundMsg others,
      Taken cfg sched packet inboundMsg others ∧
        Settled cfg inboundMsg others next.inboundMsgs events ∧
        next = { sched with inboundMsgs := next.inboundMsgs } := by
  obtain ⟨⟨inboundMsg, msgIdx⟩, htake, hput⟩ := bind_eq_ok.mp hrecv
  refine ⟨inboundMsg, eraseMsg sched.inboundMsgs msgIdx, takeData_eq_ok htake, ?_⟩
  by_cases hfull : inboundMsg.isFullyReceived = true
  · simp only [hfull, if_true] at hput
    cases hput
    exact ⟨.complete hfull rfl rfl, rfl⟩
  · simp only [hfull] at hput
    cases hput
    exact ⟨.waiting (by simpa using hfull) (scheduleMsgAtIdx_perm _ _) rfl, rfl⟩

def fedSird (cfg : Config) (sched : HomaRecvScheduler) (packet : Packet) : SirdState :=
  if cfg.sirdEnabled then sched.sird.receiveData cfg packet else sched.sird

theorem with_fedSird (packet : Packet) :
    (if cfg.sirdEnabled then { sched with sird := sched.sird.receiveData cfg packet } else sched) =
      { sched with sird := sched.fedSird cfg packet } := by
  unfold fedSird
  split
  · rfl
  · rfl

structure Received (cfg : Config) (sched : HomaRecvScheduler) (packet : Packet)
    (next : HomaRecvScheduler) (events : List Event) (inboundMsg : HomaInboundMsg)
    (others : List HomaInboundMsg) : Prop where
  taken : Taken cfg sched packet inboundMsg others
  settled : ∃ before, Settled cfg inboundMsg others next.inboundMsgs before ∧
    events = before ++ [.dataRecv packet]
  sird_eq : next.sird = sched.fedSird cfg packet
  busySenders_eq : next.busySenders = sched.busySenders.erase packet.ipv4Header.source
  creditTickPending_eq :
    next.creditTickPending = (sched.creditTickPending || next.hasGrantOpportunity cfg)

theorem receivePacket_data (hdata : packet.hasFlag .data = true)
    (hrecv : sched.receivePacket cfg packet = .ok (next, events)) :
    ∃ inboundMsg others, Received cfg sched packet next events inboundMsg others := by
  simp only [receivePacket, hdata, if_true] at hrecv
  obtain ⟨⟨received, before⟩, hdataPacket, hok⟩ := bind_eq_ok.mp hrecv
  cases hok
  -- the SIRD part of the state is no concern of the message lookup
  rw [with_fedSird] at hdataPacket
  obtain ⟨inboundMsg, others, htaken, hset, heq⟩ := receiveDataPacket_eq_ok hdataPacket
  have htaken : Taken cfg sched packet inboundMsg others := by
    cases htaken with
    | pending hperm hkey hrecv => exact .pending hperm hkey hrecv
    | fresh hothers hnew hcreate hmsg => exact .fresh hothers hnew hcreate hmsg
  refine ⟨inboundMsg, others, htaken, ⟨before, hset, rfl⟩, ?_, ?_, ?_⟩
  · rw [heq]
    rfl
  · rw [heq]
    rfl
  · rw [heq]
    rfl

theorem receivePacket_not_data (hdata : packet.hasFlag .data = false)
    (hrecv : sched.receivePacket cfg packet = .ok (next, events)) :
    events = [] ∧ next.inboundMsgs = sched.inboundMsgs ∧ next.sird = sched.sird ∧
    next.creditTickPending = (sched.creditTickPending || next.hasGrantOpportunity cfg) := by
  simp only [receivePacket, hdata, Bool.false_eq_true, if_false] at hrecv
  split at hrecv
  · cases hrecv
    exact ⟨rfl, rfl, rfl, rfl⟩
  · cases hrecv
    exact ⟨rfl, rfl, rfl, rfl⟩

/-! ## The invariant -/

structure WellFormed (cfg : Config) (sched : HomaRecvScheduler) : Prop where
  sound : ∀ msg ∈ sched.inboundMsgs, msg.Sound cfg
  incomplete : ∀ msg ∈ sched.inboundMsgs, msg.isFullyReceived = false
  timer : ∀ msg ∈ sched.inboundMsgs, msg.rtxEvent.isSome = true
  nodup : (sched.inboundMsgs.map HomaInboundMsg.key).Nodup

theorem WellFormed.getInboundMsg_eq (hwf : sched.WellFormed cfg) {index : Nat}
    (hmsg : sched.inboundMsgs[index]? = some msg) : sched.getInboundMsg msg.key = some index := by
  obtain ⟨hlt, rfl⟩ := List.getElem?_eq_some_iff.mp hmsg
  refine List.findIdx?_eq_some_iff_getElem.mpr ⟨hlt, by simp, ?_⟩
  intro before hpre hsame
  have hkeys := (nodup_iff_injective_getElem.mp hwf.nodup)
  have heq : before = index := by
    have := @hkeys ⟨before, by simpa using hpre.trans hlt⟩ ⟨index, by simpa using hlt⟩
      (by simpa using hsame)
    simpa using this
  omega

inductive Expired (cfg : Config) (sched : HomaRecvScheduler) (timer : Nat)
    (next : HomaRecvScheduler) (events : List Event) : Prop where
  | dropped {msg : HomaInboundMsg} (hmsg : sched.inboundMsgs[timer]? = some msg)
      (hlim : cfg.maxNumRtxPerMsg ≤ msg.numRtxWithoutProgress)
      (hnext : next = { sched with inboundMsgs := sched.inboundMsgs.eraseIdx timer })
      (hevs : events = [.rtxLimit msg.key msg.origin])
  | rearmed {msg : HomaInboundMsg} {maxRsndPktOffset : Nat}
      (hmsg : sched.inboundMsgs[timer]? = some msg)
      (hbelow : msg.numRtxWithoutProgress < cfg.maxNumRtxPerMsg)
      (htimer : msg.rtxEvent = some maxRsndPktOffset)
      (hnext : next = { sched with inboundMsgs := sched.inboundMsgs.set timer (rearmRtx msg) })
      (hevs : events = (sched.resends msg maxRsndPktOffset).map .sendDown)

theorem expireRtxTimeout_eq_ok (hwf : sched.WellFormed cfg)
    {timer : Nat} (hexpire : sched.expireRtxTimeout cfg timer = .ok (next, events)) :
    Expired cfg sched timer next events := by
  unfold expireRtxTimeout at hexpire
  split at hexpire
  · cases hexpire
  next msg hmsg =>
    split at hexpire
    · cases hexpire
    next maxRsndPktOffset htimer =>
      have hpart := hwf.incomplete msg (mem_of_getElem? hmsg)
      have hfound := hwf.getInboundMsg_eq hmsg
      simp only [hpart, hfound, Bool.false_eq_true, if_false] at hexpire
      split at hexpire
      next hlim =>
        cases hexpire
        refine .dropped hmsg hlim ?_ rfl
        simp [clearStateForMsg, eraseMsg, eraseIdx_set_eq]
      next hbelow =>
        cases hexpire
        exact .rearmed hmsg (Nat.lt_of_not_le hbelow) htimer rfl rfl

theorem mem_resends {maxRsndPktOffset : Nat} (hmem : packet ∈ sched.resends msg maxRsndPktOffset) :
    ∃ pktOffset < msg.maxGrantedIdx,
      packet = msg.ctrlPacket .resend pktOffset msg.maxGrantedIdx msg.prio := by
  unfold resends generateResends at hmem
  split at hmem
  · split at hmem
    · obtain ⟨pktOffset, hoff, rfl⟩ := mem_map.mp hmem
      have hrng := mem_range.mp (mem_filter.mp hoff).1
      exact ⟨pktOffset, by omega, rfl⟩
    · cases hmem
  · cases hmem

/-- How a message that stays pending may have moved in one event. -/
inductive Moved (cfg : Config) (input : RecvInput) :
    HomaInboundMsg → HomaInboundMsg → Prop where
  | idle (msg : HomaInboundMsg) : Moved cfg input msg msg
  | receive {msg received : HomaInboundMsg} {packet : Packet} (hinp : input = .packet packet)
      (hdata : packet.hasFlag .data = true) (hkey : msg.key = packet.key)
      (hreceive : msg.receiveDataPacket cfg packet.payload packet.homaHeader.pktOffset =
        .ok received)
      (hincomplete : received.isFullyReceived = false) : Moved cfg input msg received
  | visit {msg visited : HomaInboundMsg} {busySenders : Finset Ipv4Address}
      {before after : GrantRound} (hinp : input = .creditTick)
      (hvisit : GrantRound.Visit cfg busySenders before msg after visited) :
      Moved cfg input msg visited
  | rearm {msg : HomaInboundMsg} {timer : Nat} (hinp : input = .rtxExpire timer) :
      Moved cfg input msg (rearmRtx msg)

structure Started (cfg : Config) (input : RecvInput) (msg : HomaInboundMsg) : Prop where
  origin : ∃ packet created, input = .packet packet ∧ packet.hasFlag .data = true ∧
    HomaInboundMsg.create cfg packet = .ok created ∧
    msg = { created with rtxEvent := some created.maxGrantedIdx }
  incomplete : msg.isFullyReceived = false

theorem handle_packet (hhandle : sched.handle cfg (.packet packet) = .ok (next, events)) :
    packet.payload.length = packet.homaHeader.payloadSize ∧
    sched.receivePacket cfg packet = .ok (next, events) := by
  simp only [handle] at hhandle
  split at hhandle
  next hsz => exact ⟨hsz, hhandle⟩
  · cases hhandle

theorem handle_creditTick (hhandle : sched.handle cfg .creditTick = .ok (next, events)) :
    sched.creditTickPending = true ∧
    next = (sched.creditTick cfg).1 ∧ events = (sched.creditTick cfg).2.map .sendDown := by
  simp only [handle] at hhandle
  split at hhandle
  next hpend =>
    cases hhandle
    exact ⟨hpend, rfl, rfl⟩
  · cases hhandle

/-- What one event does to a receiver. -/
inductive Handled (cfg : Config) (sched next : HomaRecvScheduler) :
    RecvInput → List Event → Prop where
  | data {packet : Packet} {events : List Event} {inboundMsg : HomaInboundMsg}
      {others : List HomaInboundMsg} (hdata : packet.hasFlag .data = true)
      (hgot : Received cfg sched packet next events inboundMsg others) :
      Handled cfg sched next (.packet packet) events
  | control {packet : Packet} (hdata : packet.hasFlag .data = false)
      (hmsgs : next.inboundMsgs = sched.inboundMsgs) (hsird : next.sird = sched.sird)
      (htick : next.creditTickPending =
        (sched.creditTickPending || next.hasGrantOpportunity cfg)) :
      Handled cfg sched next (.packet packet) []
  | creditTick (hnext : next = (sched.creditTick cfg).1) :
      Handled cfg sched next .creditTick ((sched.creditTick cfg).2.map .sendDown)
  | rtxExpire {timer : Nat} {events : List Event}
      (hexpired : Expired cfg sched timer next events) :
      Handled cfg sched next (.rtxExpire timer) events

theorem handled (hwf : sched.WellFormed cfg) {input : RecvInput}
    (hhandle : sched.handle cfg input = .ok (next, events)) :
    Handled cfg sched next input events := by
  cases input with
  | packet packet =>
    have hrecv := (handle_packet hhandle).2
    by_cases hdata : packet.hasFlag .data = true
    · obtain ⟨inboundMsg, others, hgot⟩ := receivePacket_data hdata hrecv
      exact .data hdata hgot
    · have hcontrol := Bool.eq_false_iff.mpr hdata
      obtain ⟨rfl, hmsgs, hsird, htick⟩ := receivePacket_not_data hcontrol hrecv
      exact .control hcontrol hmsgs hsird htick
  | creditTick =>
    obtain ⟨-, hnext, rfl⟩ := handle_creditTick hhandle
    exact .creditTick hnext
  | rtxExpire timer => exact .rtxExpire (expireRtxTimeout_eq_ok hwf hhandle)

theorem creditTick_inboundMsgs (cfg : Config) (sched : HomaRecvScheduler) :
    (sched.creditTick cfg).1.inboundMsgs =
      (loop (grantStep cfg sched.busySenders) (start cfg sched.sird) sched.inboundMsgs).2 := rfl

variable {input : RecvInput}

theorem handle_moved (hwf : sched.WellFormed cfg)
    (hhandle : sched.handle cfg input = .ok (next, events)) (hmem : msg ∈ next.inboundMsgs) :
    (∃ prior ∈ sched.inboundMsgs, Moved cfg input prior msg) ∨ Started cfg input msg := by
  cases handled hwf hhandle with
  | @data packet _ inboundMsg others hdata hgot =>
    obtain ⟨before, hset, -⟩ := hgot.settled
    have hothers : msg ∈ others →
        ∃ prior ∈ sched.inboundMsgs, Moved cfg (.packet packet) prior msg := by
      intro hmem
      refine ⟨msg, ?_, .idle msg⟩
      cases hgot.taken with
      | pending hperm => exact hperm.mem_iff.mpr (.tail _ hmem)
      | fresh hothers => exact hothers ▸ hmem
    cases hset with
    | complete _ hmsgs => exact Or.inl (hothers (hmsgs ▸ hmem))
    | waiting hpart hmsgs =>
      rcases mem_cons.mp (hmsgs.mem_iff.mp hmem) with rfl | hold
      · cases hgot.taken with
        | pending hperm hkey hmove =>
          exact Or.inl ⟨_, hperm.mem_iff.mpr mem_cons_self, .receive rfl hdata hkey hmove hpart⟩
        | fresh _ _ hcreate hmsg =>
          exact Or.inr ⟨⟨packet, _, rfl, hdata, hcreate, hmsg⟩, hpart⟩
      · exact Or.inl (hothers hold)
  | control _ hmsgs => exact Or.inl ⟨msg, hmsgs ▸ hmem, .idle msg⟩
  | creditTick hnext =>
    subst hnext
    obtain ⟨prior, hprior, before, after, hvisit, -⟩ := mem_loop hmem
    exact Or.inl ⟨prior, hprior, .visit rfl hvisit⟩
  | rtxExpire hexpired =>
    cases hexpired with
    | dropped _ _ hnext =>
      subst hnext
      exact Or.inl ⟨msg, mem_of_mem_eraseIdx hmem, .idle msg⟩
    | @rearmed prior _ hmsg _ _ hnext =>
      subst hnext
      rcases mem_or_eq_of_mem_set hmem with hold | rfl
      · exact Or.inl ⟨msg, hold, .idle msg⟩
      · exact Or.inl ⟨prior, mem_of_getElem? hmsg, .rearm rfl⟩

/-! ## The invariant is kept -/

variable {currentMsg msg : HomaInboundMsg}

theorem opened_frame (hopened : GrantRound.Opened cfg currentMsg msg) :
    ∃ maxGrantableIdx, msg = { currentMsg with maxGrantableIdx, currentlyScheduled := false } := by
  cases hopened with
  | asIs => exact ⟨currentMsg.maxGrantableIdx, rfl⟩
  | byCredit =>
    unfold advanceGrantableWindow
    split
    · exact ⟨currentMsg.maxGrantableIdx, rfl⟩
    · split
      · exact ⟨currentMsg.maxGrantableIdx, rfl⟩
      · exact ⟨_, rfl⟩

theorem visit_frame {before after : GrantRound}
    (hvisit : GrantRound.Visit cfg busySenders before currentMsg after msg) :
    ∃ maxGrantableIdx maxGrantedIdx prio hasGrantedData currentlyScheduled, msg = { currentMsg with
          maxGrantableIdx, maxGrantedIdx, prio, hasGrantedData, currentlyScheduled} := by
  cases hvisit with
  | pass => exact ⟨_, _, _, _, _, rfl⟩
  | hold _ hopened =>
    obtain ⟨grantable, rfl⟩ := opened_frame hopened
    exact ⟨_, _, _, _, _, rfl⟩
  | homaGrant => exact ⟨_, _, _, _, _, rfl⟩
  | sirdGrant _ hopened =>
    obtain ⟨grantable, rfl⟩ := opened_frame hopened
    exact ⟨_, _, _, _, _, rfl⟩

theorem sound_opened (hsound : currentMsg.Sound cfg)
    (hopened : GrantRound.Opened cfg currentMsg msg) : msg.Sound cfg := by
  cases hopened with
  | asIs => exact sound_setCurrentlyScheduled hsound false
  | byCredit _ hleft =>
    exact sound_advanceGrantableWindow
      (sound_setCurrentlyScheduled hsound false) hleft

section

variable {busySenders : Finset Ipv4Address} {before after : GrantRound}
  {currentMsg msg : HomaInboundMsg} (hsound : currentMsg.Sound cfg)
  (hvisit : GrantRound.Visit cfg busySenders before currentMsg after msg)
include hsound hvisit

theorem sound_visit : msg.Sound cfg := by
  cases hvisit with
  | pass => exact sound_setCurrentlyScheduled hsound false
  | hold _ hopened => exact sound_opened hsound hopened
  | homaGrant =>
    have hidle := sound_setCurrentlyScheduled hsound false
    exact sound_setCurrentlyScheduled
      (sound_generateGrant hidle _) true
  | sirdGrant _ hopened =>
    have hidle := sound_opened hsound hopened
    exact sound_setCurrentlyScheduled
      (sound_generateGrant hidle _) true

def IsGrantOf (msg : HomaInboundMsg) (packet : Packet) : Prop :=
  ∃ pktOffset grantOffset prio, grantOffset < msg.msgSizePkts ∧
    packet = msg.ctrlPacket .grant pktOffset grantOffset prio

omit hsound hvisit in
theorem isGrantOf_opened {currentMsg msg : HomaInboundMsg}
    (hsound : currentMsg.Sound cfg) (hopened : GrantRound.Opened cfg currentMsg msg)
    (prio : Nat) : IsGrantOf currentMsg (msg.generateGrant prio).1 := by
  have hpos := hsound.size_pos
  have hoff := (sound_opened hsound hopened).grantOffset_eq
  obtain ⟨grantable, rfl⟩ := opened_frame hopened
  refine ⟨_, _, _, ?_, rfl⟩
  rw [hoff]
  dsimp only
  omega

theorem visit_sent : ∀ packet ∈ after.sent, packet ∈ before.sent ∨ IsGrantOf currentMsg packet := by
  intro packet hpkt
  cases hvisit with
  | pass => exact Or.inl (by simpa using hpkt)
  | hold => exact Or.inl (by simpa using hpkt)
  | homaGrant =>
    simp only [issue, clampPrio_sent, mem_append, mem_singleton] at hpkt
    rcases hpkt with hold | rfl
    · exact Or.inl hold
    · exact Or.inr (isGrantOf_opened hsound .asIs _)
  | sirdGrant _ hopened =>
    simp only [issue, clampPrio_sent, mem_append, mem_singleton] at hpkt
    rcases hpkt with hold | rfl
    · exact Or.inl hold
    · exact Or.inr (isGrantOf_opened hsound hopened _)

end

def SendsGrants (sched : HomaRecvScheduler) (round : GrantRound)
    (_ rest : List HomaInboundMsg) : Prop :=
  (∀ msg ∈ rest, msg ∈ sched.inboundMsgs) ∧
    ∀ packet ∈ round.sent, ∃ msg ∈ sched.inboundMsgs, IsGrantOf msg packet

theorem mem_creditTick_sent (hwf : sched.WellFormed cfg) (hpkt :
    packet ∈ (sched.creditTick cfg).2) : ∃ msg ∈ sched.inboundMsgs, IsGrantOf msg packet := by
  have hstart : SendsGrants sched (start cfg sched.sird) [] sched.inboundMsgs :=
    ⟨fun _ hmem => hmem, fun _ hsent => (not_mem_nil hsent).elim⟩
  have hkeep : ∀ round visited msg rest, SendsGrants sched round visited (msg :: rest) →
      SendsGrants sched (grantStep cfg sched.busySenders round msg).1
        (visited ++ [(grantStep cfg sched.busySenders round msg).2]) rest := by
    rintro round visited msg rest ⟨hrest, hround⟩
    have hmem := hrest msg mem_cons_self
    have hvisit := grantStep_visit cfg sched.busySenders round msg
    refine ⟨fun other hother => hrest other (.tail _ hother), fun sent hsent => ?_⟩
    rcases visit_sent (hwf.sound msg hmem) hvisit sent hsent with hold | hgrant
    · exact hround sent hold
    · exact ⟨msg, hmem, hgrant⟩
  have hloop := loop_rule (SendsGrants sched) hkeep hstart
  exact hloop.2 packet hpkt

theorem receiveDataPacket_frame {msg received : HomaInboundMsg} {payload : Payload}
    {pktOffset : Nat} (hrecv : msg.receiveDataPacket cfg payload pktOffset = .ok received) :
    received.key = msg.key ∧ received.origin = msg.origin ∧ received.rtxEvent = msg.rtxEvent := by
  rcases HomaInboundMsg.receiveDataPacket_eq_ok hrecv with ⟨rfl, _⟩ | ⟨rfl, _, _⟩
  · exact ⟨rfl, rfl, rfl⟩
  · unfold HomaInboundMsg.openWindow
    split
    · exact ⟨rfl, rfl, rfl⟩
    · exact ⟨rfl, rfl, rfl⟩

theorem moved_key {prior msg : HomaInboundMsg}
    (hmoved : Moved cfg input prior msg) : msg.key = prior.key := by
  cases hmoved with
  | idle => rfl
  | receive _ _ _ hrecv => exact (receiveDataPacket_frame hrecv).1
  | visit _ hvisit =>
    obtain ⟨_, _, _, _, _, rfl⟩ := visit_frame hvisit
    rfl
  | rearm => rfl

theorem sound_moved {prior msg : HomaInboundMsg}
    (hsound : prior.Sound cfg) (hmoved : Moved cfg input prior msg) : msg.Sound cfg := by
  cases hmoved with
  | idle => exact hsound
  | receive _ _ _ hrecv => exact sound_receiveDataPacket hsound hrecv
  | visit _ hvisit => exact sound_visit hsound hvisit
  | rearm => exact sound_rtx hsound _ _ _

theorem map_set_eq {Entry Image : Type} {image : Entry → Image} {entries : List Entry}
    {index : Nat} {entry other : Entry} (hent : entries[index]? = some entry) (hsame :
    image other = image entry) : (entries.set index other).map image = entries.map image := by
  obtain ⟨hlt, rfl⟩ := List.getElem?_eq_some_iff.mp hent
  have hlen : index < (entries.map image).length := by simpa using hlt
  have hget : (entries.map image)[index] = image other := by rw [getElem_map, hsame]
  rw [map_set, ← hget, set_getElem_self]

theorem loop_map_eq {Image : Type} {image : HomaInboundMsg → Image}
    (hsame : ∀ before prior after msg,
      GrantRound.Visit cfg busySenders before prior after msg → image msg = image prior)
    (round : GrantRound) (msgs : List HomaInboundMsg) :
    (loop (grantStep cfg busySenders) round msgs).2.map image = msgs.map image := by
  induction msgs generalizing round with
  | nil => rfl
  | cons msg rest ih =>
    have hvisit := grantStep_visit cfg busySenders round msg
    rw [loop, map_cons, map_cons, ih, hsame _ _ _ _ hvisit]

theorem visit_key (before : GrantRound) (prior : HomaInboundMsg) (after : GrantRound)
    (msg : HomaInboundMsg) (hvisit : GrantRound.Visit cfg busySenders before prior after msg) :
    msg.key = prior.key := by
  obtain ⟨_, _, _, _, _, rfl⟩ := visit_frame hvisit
  rfl

theorem Taken.key_eq {inboundMsg : HomaInboundMsg} {others : List HomaInboundMsg}
    (htaken : Taken cfg sched packet inboundMsg others) : inboundMsg.key = packet.key := by
  cases htaken with
  | pending _ hkey hrecv => exact (receiveDataPacket_frame hrecv).1.trans hkey
  | fresh _ _ hcreate hmsg =>
    subst hmsg
    rcases create_eq_ok hcreate with ⟨_, rfl⟩ | ⟨_, _, rfl⟩
    · rfl
    · rfl

section

variable {input : RecvInput} (hwf : sched.WellFormed cfg)
  (hhandle : sched.handle cfg input = .ok (next, events))
include hwf hhandle

theorem nodup_handle : (next.inboundMsgs.map key).Nodup := by
  have hnodup := hwf.nodup
  cases handled hwf hhandle with
  | @data packet _ inboundMsg others _ hgot =>
    obtain ⟨before, hset, -⟩ := hgot.settled
    have hcons : ((inboundMsg :: others).map key).Nodup := by
      cases hgot.taken with
      | pending hperm _ hmove =>
        rw [map_cons, (receiveDataPacket_frame hmove).1, ← map_cons]
        exact (hperm.map _).nodup_iff.mp hnodup
      | fresh hothers hnew hcreate hmsg =>
        have hkey := hgot.taken.key_eq
        rw [map_cons, nodup_cons, hothers, hkey]
        refine ⟨?_, hnodup⟩
        intro hmem
        obtain ⟨msg, hmsg, hsame⟩ := mem_map.mp hmem
        exact hnew msg hmsg hsame
    cases hset with
    | complete _ hmsgs => exact hmsgs ▸ (nodup_cons.mp hcons).2
    | waiting _ hmsgs => exact (hmsgs.map _).nodup_iff.mpr hcons
  | control _ hmsgs => exact hmsgs ▸ hnodup
  | creditTick hnext =>
    rw [hnext, creditTick_inboundMsgs, loop_map_eq visit_key]
    exact hnodup
  | rtxExpire hexpired =>
    cases hexpired with
    | dropped _ _ hnext =>
      subst hnext
      exact hnodup.sublist ((eraseIdx_sublist _ _).map _)
    | @rearmed msg _ hmsg _ _ hnext =>
      subst hnext
      have hkey : (rearmRtx msg).key = msg.key := rfl
      dsimp only
      rw [map_set_eq hmsg hkey]
      exact hnodup

theorem wellFormed_handle : next.WellFormed cfg := by
  refine ⟨?_, ?_, ?_, nodup_handle hwf hhandle⟩
  · intro msg hmem
    rcases handle_moved hwf hhandle hmem with ⟨prior, hprior, hmoved⟩ | hstart
    · exact sound_moved (hwf.sound prior hprior) hmoved
    · obtain ⟨packet, created, -, -, hcreate, rfl⟩ := hstart.origin
      exact sound_rtx (sound_create hcreate hstart.incomplete) _ _ _
  · intro msg hmem
    rcases handle_moved hwf hhandle hmem with ⟨prior, hprior, hmoved⟩ | hstart
    · have hpre := hwf.incomplete prior hprior
      cases hmoved with
      | idle => exact hpre
      | receive _ _ _ _ hpart => exact hpart
      | visit _ hvisit =>
        obtain ⟨_, _, _, _, _, rfl⟩ := visit_frame hvisit
        exact hpre
      | rearm => exact hpre
    · exact hstart.incomplete
  · intro msg hmem
    rcases handle_moved hwf hhandle hmem with ⟨prior, hprior, hmoved⟩ | hstart
    · have hpre := hwf.timer prior hprior
      cases hmoved with
      | idle => exact hpre
      | receive _ _ _ hrecv => exact (receiveDataPacket_frame hrecv).2.2 ▸ hpre
      | visit _ hvisit =>
        obtain ⟨_, _, _, _, _, rfl⟩ := visit_frame hvisit
        exact hpre
      | rearm => rfl
    · obtain ⟨packet, created, -, -, -, rfl⟩ := hstart.origin
      rfl

/-- Where an event of a receiver comes from. -/
inductive Emitted (cfg : Config) (sched : HomaRecvScheduler) : RecvInput → Event → Prop where
  | forwardUp {packet : Packet} {inboundMsg : HomaInboundMsg} {others : List HomaInboundMsg}
      (hdata : packet.hasFlag .data = true) (htaken : Taken cfg sched packet inboundMsg others)
      (hfull : inboundMsg.isFullyReceived = true) : Emitted cfg sched (.packet packet)
      (.forwardUp inboundMsg.key inboundMsg.origin (inboundMsg.getReassembledMsg cfg))
  | ack {packet : Packet} {inboundMsg : HomaInboundMsg} {others : List HomaInboundMsg}
      (hdata : packet.hasFlag .data = true) (htaken : Taken cfg sched packet inboundMsg others)
      (hfull : inboundMsg.isFullyReceived = true) : Emitted cfg sched (.packet packet)
      (.sendDown (inboundMsg.generateAck cfg.numUnschedPrioBands))
  | dataRecv (packet : Packet) : Emitted cfg sched (.packet packet) (.dataRecv packet)
  | grant {msg : HomaInboundMsg} {packet : Packet} (hmem : msg ∈ sched.inboundMsgs)
      (hgrant : IsGrantOf msg packet) : Emitted cfg sched .creditTick (.sendDown packet)
  | rtxLimit {msg : HomaInboundMsg} {timer : Nat} (hmsg : sched.inboundMsgs[timer]? = some msg)
      (hlim : cfg.maxNumRtxPerMsg ≤ msg.numRtxWithoutProgress) :
      Emitted cfg sched (.rtxExpire timer) (.rtxLimit msg.key msg.origin)
  | resend {msg : HomaInboundMsg} {timer pktOffset : Nat} (hmem : msg ∈ sched.inboundMsgs)
      (hoff : pktOffset < msg.maxGrantedIdx) : Emitted cfg sched (.rtxExpire timer)
      (.sendDown (msg.ctrlPacket .resend pktOffset msg.maxGrantedIdx msg.prio))

theorem emitted {event : Event} (hev : event ∈ events) : Emitted cfg sched input event := by
  cases handled hwf hhandle with
  | @data packet _ inboundMsg others hdata hgot =>
    obtain ⟨before, hset, rfl⟩ := hgot.settled
    rcases mem_append.mp hev with hpre | hlast
    · cases hset with
      | complete hfull _ hevs =>
        subst hevs
        rcases mem_pair.mp hpre with rfl | rfl
        · exact .forwardUp hdata hgot.taken hfull
        · exact .ack hdata hgot.taken hfull
      | waiting _ _ hevs =>
        subst hevs
        cases hpre
    · rw [mem_singleton.mp hlast]
      exact .dataRecv packet
  | control => cases hev
  | creditTick =>
    obtain ⟨packet, hpkt, rfl⟩ := mem_map.mp hev
    obtain ⟨msg, hmem, hgrant⟩ := mem_creditTick_sent hwf hpkt
    exact .grant hmem hgrant
  | rtxExpire hexpired =>
    cases hexpired with
    | dropped hmsg hlim _ hevs =>
      subst hevs
      rw [mem_singleton.mp hev]
      exact .rtxLimit hmsg hlim
    | rearmed hmsg _ _ _ hevs =>
      subst hevs
      obtain ⟨packet, hpkt, rfl⟩ := mem_map.mp hev
      obtain ⟨pktOffset, hoff, rfl⟩ := mem_resends hpkt
      exact .resend (mem_of_getElem? hmsg) hoff

end

theorem wellFormed_initial (cfg : Config) : initial.WellFormed cfg :=
  ⟨fun _ hmem => (not_mem_nil hmem).elim, fun _ hmem => (not_mem_nil hmem).elim,
    fun _ hmem => (not_mem_nil hmem).elim, nodup_nil⟩

end HomaSird.Homa.HomaRecvScheduler

namespace HomaSird.Homa.Receiver

open Transition Transition.Machine HomaRecvScheduler

variable {cfg : Config}

theorem step_eq_ok {receiver next : Receiver} {input : RecvInput}
    (hstep : (machine cfg).step receiver input = .ok next) :
    ∃ events,
      receiver.sched.handle cfg input = .ok (next.sched, events) ∧
        next.trace = receiver.trace ++ events := by
  obtain ⟨⟨sched, events⟩, hhandle, hok⟩ := bind_eq_ok.mp hstep
  cases hok
  exact ⟨events, hhandle, rfl⟩

theorem wellFormed_of_reachable {allowed : Receiver → RecvInput → Prop}
    {receiver : Receiver} (hreach : (machine cfg).ReachableUnder allowed receiver) :
    receiver.sched.WellFormed cfg := by
  apply hreach.invariant
  · exact wellFormed_initial cfg
  · intro state input next hwf _ hstep
    obtain ⟨events, hhandle, -⟩ := step_eq_ok hstep
    exact wellFormed_handle hwf hhandle

end HomaSird.Homa.Receiver
