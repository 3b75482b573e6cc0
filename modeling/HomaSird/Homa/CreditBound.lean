import HomaSird.Homa.CreditReturn
import HomaSird.Homa.Network

/-! # The bound on outstanding scheduled packets

What a receiver's GRANTs have released and no payload has answered is read off its trace. The
credit counters bound it as long as a GRANT releases at most one packet and a payload gives a
credit back only for an outstanding one.
-/

namespace HomaSird.Homa

open Transition Transition.Machine Credit List

structure ScheduledPkt where
  sender : Ipv4Address
  origin : Nat
  pktOffset : Nat
deriving DecidableEq

namespace Receiver

open HomaRecvScheduler HomaInboundMsg

variable {cfg : Config}

def releasedBy (cfg : Config) : Event → Finset ScheduledPkt
  | .sendDown packet =>
    if packet.hasFlag .grant then
      (Finset.Icc (firstScheduled cfg
        (packetCount packet.homaHeader.msgSizeBytes cfg.maxPayloadSize))
        packet.homaHeader.grantOffset).image
          fun pktOffset => ⟨packet.ipv4Header.destination, packet.origin, pktOffset⟩
    else ∅
  | _ => ∅

def arrivedBy : Event → Finset ScheduledPkt
  | .dataRecv packet =>
    if packet.payload = [] then ∅
    else {⟨packet.ipv4Header.source, packet.origin, packet.homaHeader.pktOffset⟩}
  | _ => ∅

def collect (packets : Event → Finset ScheduledPkt) (trace : List Event) : Finset ScheduledPkt :=
  trace.foldr (fun event rest => packets event ∪ rest) ∅

def outstanding (cfg : Config) (trace : List Event) : Finset ScheduledPkt :=
  collect (releasedBy cfg) trace \ collect arrivedBy trace

theorem collect_append (packets : Event → Finset ScheduledPkt) (front back : List Event) :
    collect packets (front ++ back) = collect packets front ∪ collect packets back := by
  induction front with
  | nil => simp [collect]
  | cons event rest ih =>
    have hcons : ∀ trace, collect packets (event :: trace) =
        packets event ∪ collect packets trace := fun _ => rfl
    rw [cons_append, hcons, hcons, ih, Finset.union_assoc]

@[simp] theorem collect_singleton (packets : Event → Finset ScheduledPkt) (event : Event) :
    collect packets [event] = packets event := by
  simp [collect]

variable {trace : List Event} {prior msg : HomaInboundMsg}

theorem collect_eq_empty {packets : Event → Finset ScheduledPkt}
    (hnone : ∀ event ∈ trace, packets event = ∅) : collect packets trace = ∅ := by
  induction trace with
  | nil => rfl
  | cons event rest ih =>
    have hrest := ih fun other hother => hnone other (.tail _ hother)
    change packets event ∪ collect packets rest = ∅
    rw [hnone event mem_cons_self, hrest, Finset.union_self]

theorem releasedBy_ctrlPacket {flag : Flag} (hflag : flag ≠ .grant) (msg : HomaInboundMsg)
    (pktOffset grantOffset prio : Nat) :
    releasedBy cfg (.sendDown (msg.ctrlPacket flag pktOffset grantOffset prio)) = ∅ := by
  rw [releasedBy, hasFlag_ctrlPacket, decide_eq_false hflag]
  rfl

def pktsOf (msg : HomaInboundMsg) (pktOffsets : Finset Nat) : Finset ScheduledPkt :=
  pktOffsets.image fun pktOffset => ⟨msg.getSrcAddress, msg.origin, pktOffset⟩

theorem releasedBy_generateGrant {msg : HomaInboundMsg} (hsound : msg.Sound cfg) (prio : Nat) :
    releasedBy cfg (.sendDown (msg.generateGrant prio).1) =
      pktsOf msg ((msg.generateGrant prio).2.released cfg) := by
  have hgrant : (msg.generateGrant prio).1.hasFlag .grant = true :=
    hasFlag_ctrlPacket msg .grant _ _ _ .grant
  rw [releasedBy, if_pos hgrant]
  have hsz : packetCount (msg.generateGrant prio).1.homaHeader.msgSizeBytes
      cfg.maxPayloadSize = msg.msgSizePkts := hsound.size_eq.symm
  rw [hsz]
  rfl

/-- What a pending message has been granted was released by GRANTs of the trace, and the
outstanding packets are no more than the credits in use. -/
structure Accounted (cfg : Config) (msgs : List HomaInboundMsg) (sird : SirdState)
    (trace : List Event) : Prop where
  granted : ∀ msg ∈ msgs, pktsOf msg (msg.released cfg) ⊆ collect (releasedBy cfg) trace
  bound : (outstanding cfg trace).card ≤ sird.globalCreditsInUsePkts

/-! ## Credit ticks -/

/-- The next GRANT of every message that a round may grant releases at most one
packet. -/
def GrantsOne (cfg : Config) (sched : HomaRecvScheduler) (msg : HomaInboundMsg) : Prop :=
  msg.isFullyGranted = false → msg.getSrcAddress ∉ sched.busySenders →
    (msg.exposes cfg).card ≤ 1

def AccountedBy (cfg : Config) (sched : HomaRecvScheduler) (trace : List Event)
    (round : GrantRound) (visited rest : List HomaInboundMsg) : Prop :=
  (∀ msg ∈ rest, msg ∈ sched.inboundMsgs) ∧
    Accounted cfg (visited ++ rest) round.sird (trace ++ round.sent.map .sendDown)

theorem accounted_of_released_eq {msgs : List HomaInboundMsg} {before after : SirdState}
    {rest : List HomaInboundMsg} (hacct : Accounted cfg (msgs ++ prior :: rest) before trace)
    (hglobal : after.globalCreditsInUsePkts = before.globalCreditsInUsePkts)
    (hpkts : pktsOf msg (msg.released cfg) = pktsOf prior (prior.released cfg)) :
    Accounted cfg (msgs ++ [msg] ++ rest) after trace := by
  refine ⟨fun other hother => ?_, hglobal ▸ hacct.bound⟩
  simp only [append_assoc, singleton_append, mem_append, mem_cons] at hother
  rcases hother with hfront | rfl | hback
  · exact hacct.granted other (mem_append_left _ hfront)
  · rw [hpkts]
    exact hacct.granted prior (mem_append_right _ mem_cons_self)
  · exact hacct.granted other
      (mem_append_right _ (.tail _ hback))

theorem card_outstanding_grant {msg : HomaInboundMsg}
    {grant : Event} (hprior : pktsOf msg (msg.released cfg) ⊆ collect (releasedBy cfg) trace)
    (hgrant : releasedBy cfg grant = pktsOf msg (msg.released cfg ∪ msg.exposes cfg))
    (harr : arrivedBy grant = ∅) (hone : (msg.exposes cfg).card ≤ 1) :
    (outstanding cfg (trace ++ [grant])).card ≤ (outstanding cfg trace).card + 1 := by
  have hsubset : outstanding cfg (trace ++ [grant]) ⊆
      outstanding cfg trace ∪ pktsOf msg (msg.exposes cfg) := by
    intro pkt hpkt
    rw [outstanding, collect_append, collect_append, collect_singleton, collect_singleton,
      harr, Finset.union_empty, hgrant, pktsOf, Finset.image_union] at hpkt
    obtain ⟨hrel, hmiss⟩ := Finset.mem_sdiff.mp hpkt
    rcases Finset.mem_union.mp hrel with hpre | hnow
    · exact Finset.mem_union_left _ (Finset.mem_sdiff.mpr ⟨hpre, hmiss⟩)
    · rcases Finset.mem_union.mp hnow with hold | hnew
      · exact Finset.mem_union_left _ (Finset.mem_sdiff.mpr ⟨hprior hold, hmiss⟩)
      · exact Finset.mem_union_right _ hnew
  calc
    (outstanding cfg (trace ++ [grant])).card
        ≤ (outstanding cfg trace ∪ pktsOf msg (msg.exposes cfg)).card :=
          Finset.card_le_card hsubset
    _ ≤ (outstanding cfg trace).card + (pktsOf msg (msg.exposes cfg)).card :=
          Finset.card_union_le _ _
    _ ≤ (outstanding cfg trace).card + 1 :=
          Nat.add_le_add_left (Finset.card_image_le.trans hone) _

theorem accounted_visit (hsird : cfg.sirdEnabled = true) {sched : HomaRecvScheduler}
    {before after : GrantRound} {visited rest : List HomaInboundMsg} (hsound : prior.Sound cfg)
    (hone : GrantsOne cfg sched prior)
    (hvisit : GrantRound.Visit cfg sched.busySenders before prior after msg)
    (hacct :
      Accounted cfg (visited ++ prior :: rest) before.sird (trace ++ before.sent.map .sendDown)) :
    Accounted cfg (visited ++ [msg] ++ rest) after.sird (trace ++ after.sent.map .sendDown) := by
  cases hvisit with
  | pass =>
    rw [GrantRound.clampPrio_sent]
    exact accounted_of_released_eq hacct (by rw [GrantRound.clampPrio_sird]) rfl
  | hold _ hopened =>
    obtain ⟨_, rfl⟩ := opened_frame hopened
    dsimp only
    rw [GrantRound.clampPrio_sent]
    exact accounted_of_released_eq hacct rfl rfl
  | homaGrant hplain => cases hplain.symm.trans hsird
  | @sirdGrant opened _ hopened hcons _ hgrantable =>
    obtain ⟨-, hleft, -, hidle⟩ := considers_iff.mp hcons
    have hpriorGranted := hacct.granted prior
      (mem_append_right _ mem_cons_self)
    have hrel := released_grant hsound hopened hgrantable
      (before.clampPrio cfg).grantingPrio
    have hidentity : ∀ offsets, pktsOf opened offsets = pktsOf prior offsets := by
      obtain ⟨_, rfl⟩ := opened_frame hopened
      exact fun _ => rfl
    have hgrant := releasedBy_generateGrant (sound_opened hsound hopened)
      (before.clampPrio cfg).grantingPrio
    rw [hrel, hidentity] at hgrant
    have hsent : (trace ++ ((before.clampPrio cfg).issue opened).1.sent.map Event.sendDown) =
        trace ++ before.sent.map .sendDown ++
          [.sendDown (opened.generateGrant (before.clampPrio cfg).grantingPrio).1] := by
      simp [GrantRound.issue]
    dsimp only
    rw [hsent]
    refine ⟨fun other hother => ?_, ?_⟩
    · rw [collect_append, collect_singleton, hgrant]
      simp only [append_assoc, singleton_append, mem_append, mem_cons] at hother
      rcases hother with hfront | rfl | hback
      · exact (hacct.granted other (mem_append_left _ hfront)).trans
          Finset.subset_union_left
      · -- the granted message has been released what the GRANT covers
        have hafter : pktsOf ((before.clampPrio cfg).issue opened).2
            (((before.clampPrio cfg).issue opened).2.released cfg) =
            pktsOf prior (prior.released cfg ∪ prior.exposes cfg) := by
          rw [← hrel, ← hidentity]
          rfl
        rw [hafter]
        exact Finset.subset_union_right
      · exact (hacct.granted other
          (mem_append_right _ (.tail _ hback))).trans
            Finset.subset_union_left
    · have hcard := card_outstanding_grant hpriorGranted hgrant rfl (hone hleft hidle)
      have hbd := hacct.bound
      simp only [SirdState.charge, SirdState.openAccount]
      omega

theorem accounted_creditTick (hsird : cfg.sirdEnabled = true) {sched : HomaRecvScheduler}
    (hwf : sched.WellFormed cfg) (hacct : Accounted cfg sched.inboundMsgs sched.sird trace)
    (hone : ∀ msg ∈ sched.inboundMsgs, GrantsOne cfg sched msg) :
    Accounted cfg (sched.creditTick cfg).1.inboundMsgs (sched.creditTick cfg).1.sird
      (trace ++ (sched.creditTick cfg).2.map .sendDown) := by
  have hstart : AccountedBy cfg sched trace (GrantRound.start cfg sched.sird) []
      sched.inboundMsgs := by
    refine ⟨fun msg hmsg => hmsg, ?_⟩
    simpa [GrantRound.start] using hacct
  have hkeep : ∀ round visited msg rest,
      AccountedBy cfg sched trace round visited (msg :: rest) →
      AccountedBy cfg sched trace (grantStep cfg sched.busySenders round msg).1
        (visited ++ [(grantStep cfg sched.busySenders round msg).2]) rest := by
    rintro round visited msg rest ⟨hrest, hround⟩
    have hmem := hrest msg mem_cons_self
    refine ⟨fun other hother => hrest other (.tail _ hother), ?_⟩
    exact accounted_visit hsird (hwf.sound msg hmem) (hone msg hmem)
      (GrantRound.grantStep_visit cfg sched.busySenders round msg) hround
  have hloop := GrantRound.loop_rule (AccountedBy cfg sched trace) hkeep hstart
  have hfinal := hloop.2
  rw [append_nil, nil_append] at hfinal
  exact hfinal

/-! ## Arrivals and timers -/

def ReclaimsOutstanding (cfg : Config) (receiver : Receiver) (packet : Packet) : Prop :=
  packet.hasFlag .data = true → packet.payload ≠ [] →
    0 < receiver.sched.sird.creditsInUse packet.ipv4Header.source →
    (⟨packet.ipv4Header.source, packet.origin, packet.homaHeader.pktOffset⟩ : ScheduledPkt) ∈
      outstanding cfg receiver.trace

theorem pktsOf_moved {input : RecvInput} (hinp : input ≠ .creditTick)
    (hmoved : Moved cfg input prior msg) :
    pktsOf msg (msg.released cfg) = pktsOf prior (prior.released cfg) := by
  cases hmoved with
  | idle => rfl
  | receive _ _ _ hrecv =>
    obtain ⟨hkey, horigin, -⟩ := receiveDataPacket_frame hrecv
    have hsource : msg.getSrcAddress = prior.getSrcAddress := congrArg MsgKey.saddr hkey
    rw [pktsOf, pktsOf, released_receiveDataPacket hrecv, hsource, horigin]
  | visit hvisit => exact (hinp hvisit).elim
  | rearm => rfl

theorem granted_handle {sched next : HomaRecvScheduler} {events trace : List Event}
    {input : RecvInput} (hwf : sched.WellFormed cfg) (hinp : input ≠ .creditTick)
    (hgrant :
      ∀ msg ∈ sched.inboundMsgs, pktsOf msg (msg.released cfg) ⊆ collect (releasedBy cfg) trace)
    (hhandle : sched.handle cfg input = .ok (next, events)) :
    ∀ msg ∈ next.inboundMsgs,
      pktsOf msg (msg.released cfg) ⊆ collect (releasedBy cfg) (trace ++ events) := by
  intro msg hmem
  rw [collect_append]
  rcases handle_moved hwf hhandle hmem with ⟨prior, hprior, hmoved⟩ | hstart
  · rw [pktsOf_moved hinp hmoved]
    exact (hgrant prior hprior).trans Finset.subset_union_left
  · obtain ⟨packet, created, -, -, hcreate, rfl⟩ := hstart.origin
    have hnone : pktsOf { created with rtxEvent := some created.maxGrantedIdx }
        (created.released cfg) = ∅ := by
      rw [released_create hcreate]
      rfl
    exact hnone ▸ Finset.empty_subset _

theorem outstanding_received {inboundMsg : HomaInboundMsg} {others msgs : List HomaInboundMsg}
    {before trace : List Event} {packet : Packet}
    (hset : Settled cfg inboundMsg others msgs before) :
    outstanding cfg (trace ++ (before ++ [.dataRecv packet])) =
      outstanding cfg trace \ arrivedBy (.dataRecv packet) := by
  have hrel : collect (releasedBy cfg) before = ∅ := by
    cases hset with
    | complete _ _ hevs =>
      subst hevs
      apply collect_eq_empty
      intro event hev
      rcases mem_pair.mp hev with rfl | rfl
      · rfl
      · exact releasedBy_ctrlPacket (by decide) _ _ _ _
    | waiting _ _ hevs => rw [hevs]; rfl
  have harr : collect arrivedBy before = ∅ := by
    cases hset with
    | complete _ _ hevs => rw [hevs]; rfl
    | waiting _ _ hevs => rw [hevs]; rfl
  have hnone : releasedBy cfg (.dataRecv packet) = ∅ := rfl
  rw [outstanding, outstanding, collect_append, collect_append, collect_append, collect_append,
    collect_singleton, collect_singleton, hrel, harr, hnone, Finset.union_empty,
    Finset.union_empty, Finset.empty_union, sdiff_sdiff_left, Finset.sup_eq_union]

theorem outstanding_quiet {trace events : List Event}
    (hrel : ∀ event ∈ events, releasedBy cfg event = ∅) (harr : ∀ event ∈ events,
    arrivedBy event = ∅) : outstanding cfg (trace ++ events) = outstanding cfg trace := by
  rw [outstanding, collect_append, collect_append, collect_eq_empty hrel,
    collect_eq_empty harr, Finset.union_empty, Finset.union_empty, outstanding]

theorem bound_packet (hsird : cfg.sirdEnabled = true) {receiver next : Receiver}
    {packet : Packet} (hreclaims : ReclaimsOutstanding cfg receiver packet)
    (hbd : (outstanding cfg receiver.trace).card ≤ receiver.sched.sird.globalCreditsInUsePkts)
    (hstep : (machine cfg).step receiver (.packet packet) = .ok next) :
    (outstanding cfg next.trace).card ≤ next.sched.sird.globalCreditsInUsePkts := by
  obtain ⟨events, hhandle, htrace⟩ := step_eq_ok hstep
  have hrecv := (handle_packet hhandle).2
  rw [htrace]
  by_cases hdata : packet.hasFlag .data = true
  · obtain ⟨inboundMsg, others, hgot⟩ := receivePacket_data hdata hrecv
    obtain ⟨before, hset, rfl⟩ := hgot.settled
    have hcred := SirdState.sameCredits_receiveData cfg receiver.sched.sird packet
    rw [outstanding_received hset, hgot.sird_eq, fedSird, if_pos hsird, hcred.global_eq]
    by_cases hempty : packet.payload = []
    · rw [if_pos hempty]
      exact (Finset.card_le_card Finset.sdiff_subset).trans hbd
    · rw [if_neg hempty, SirdState.reclaim]
      split
      next hheld =>
        -- the credit goes with the packet that arrives
        have hmem := hreclaims hdata hempty hheld
        have hpos : 0 < (outstanding cfg receiver.trace).card := Finset.card_pos.mpr ⟨_, hmem⟩
        rw [arrivedBy, if_neg hempty, Finset.sdiff_singleton_eq_erase,
          Finset.card_erase_of_mem hmem, if_pos (hpos.trans_le hbd)]
        exact Nat.sub_le_sub_right hbd 1
      · exact (Finset.card_le_card Finset.sdiff_subset).trans hbd
  · obtain ⟨rfl, -, hcred, -⟩ := receivePacket_not_data (by simpa using hdata) hrecv
    rw [append_nil, hcred]
    exact hbd

theorem accounted_expired {sched next : HomaRecvScheduler} {events trace : List Event}
    {timer : Nat} (hbd : (outstanding cfg trace).card ≤ sched.sird.globalCreditsInUsePkts)
    (hexp : Expired cfg sched timer next events) :
    (outstanding cfg (trace ++ events)).card ≤ next.sird.globalCreditsInUsePkts := by
  cases hexp with
  | dropped _ _ hnext hevs =>
    subst hnext hevs
    rw [outstanding_quiet (by simp [releasedBy]) (by simp [arrivedBy])]
    exact hbd
  | @rearmed msg maxRsndPktOffset _ _ _ hnext hevs =>
    subst hnext hevs
    rw [outstanding_quiet ?_ ?_]
    · exact hbd
    · intro event hev
      obtain ⟨packet, hpacket, rfl⟩ := mem_map.mp hev
      obtain ⟨_, -, rfl⟩ := mem_resends hpacket
      exact releasedBy_ctrlPacket (by decide) _ _ _ _
    · intro event hev
      obtain ⟨packet, -, rfl⟩ := mem_map.mp hev
      rfl

/-! ## Runs -/

/-- A credit stands for one packet: a GRANT that a tick may issue releases at most one, and a
payload that takes a credit back answers one. -/
def OneForOne (cfg : Config) (receiver : Receiver) : RecvInput → Prop
  | .packet packet => ReclaimsOutstanding cfg receiver packet
  | .creditTick => ∀ msg ∈ receiver.sched.inboundMsgs, GrantsOne cfg receiver.sched msg
  | .rtxExpire _ => True

instance (cfg : Config) (receiver : Receiver) (input : RecvInput) :
    Decidable (OneForOne cfg receiver input) :=
  match input with
  | .packet packet =>
    inferInstanceAs (Decidable (packet.hasFlag .data = true → packet.payload ≠ [] →
      0 < receiver.sched.sird.creditsInUse packet.ipv4Header.source →
      (⟨packet.ipv4Header.source, packet.origin, packet.homaHeader.pktOffset⟩ : ScheduledPkt) ∈
        outstanding cfg receiver.trace))
  | .creditTick =>
    inferInstanceAs (Decidable (∀ msg ∈ receiver.sched.inboundMsgs, msg.isFullyGranted = false →
      msg.getSrcAddress ∉ receiver.sched.busySenders → (msg.exposes cfg).card ≤ 1))
  | .rtxExpire _ => inferInstanceAs (Decidable True)

theorem accounted_of_reachable (hsird : cfg.sirdEnabled = true) {receiver : Receiver}
    (hreach : (machine cfg).ReachableUnder (OneForOne cfg) receiver) :
    Accounted cfg receiver.sched.inboundMsgs receiver.sched.sird receiver.trace := by
  apply hreach.invariant_of (fun _ => wellFormed_of_reachable)
  · exact ⟨fun _ hmem => (not_mem_nil hmem).elim, Nat.zero_le _⟩
  · intro state input next hwf hacct hallow hstep
    obtain ⟨events, hhandle, htrace⟩ := step_eq_ok hstep
    cases input with
    | packet packet =>
      have hinp : RecvInput.packet packet ≠ .creditTick := nofun
      refine ⟨?_, bound_packet hsird hallow hacct.bound hstep⟩
      rw [htrace]
      exact granted_handle hwf hinp hacct.granted hhandle
    | creditTick =>
      obtain ⟨-, hnext, rfl⟩ := handle_creditTick hhandle
      rw [hnext, htrace]
      exact accounted_creditTick hsird hwf hacct hallow
    | rtxExpire timer =>
      have hinp : RecvInput.rtxExpire timer ≠ .creditTick := nofun
      have hexp := expireRtxTimeout_eq_ok hwf hhandle
      rw [htrace]
      exact ⟨granted_handle hwf hinp hacct.granted hhandle, accounted_expired hacct.bound hexp⟩

/-- The released packets whose payload has not arrived are no more than the credit budget. -/
theorem outstanding_le_budget (hsird : cfg.sirdEnabled = true) {receiver : Receiver}
    (hreachable : (machine cfg).ReachableUnder (OneForOne cfg) receiver) :
    (outstanding cfg receiver.trace).card ≤ max 1 cfg.sirdCreditBudgetPkts := by
  have hbd := (accounted_of_reachable hsird hreachable).bound
  obtain ⟨ledger, hledger, hmirrors⟩ := (bounded_of_reachable hreachable).ledger
  have hwithin := (Ledger.within_of_reachable hledger).total
  rw [hmirrors.total_eq] at hwithin
  exact hbd.trans hwithin

theorem outstanding_le_budget_granted :
    let receiver := (machine Config.oneByteSird).after
      (fun state input => decide (OneForOne Config.oneByteSird state input))
      [.packet (samplePacket 3 0 []), .creditTick, .packet (samplePacket 3 0 [7]), .creditTick]
      (machine Config.oneByteSird).init
    outstanding Config.oneByteSird receiver.trace = {⟨1, 0, 1⟩} ∧
      (outstanding Config.oneByteSird receiver.trace).card ≤ 1 := by
  intro receiver
  have hreachable : (machine Config.oneByteSird).ReachableUnder (OneForOne Config.oneByteSird)
      receiver :=
    ReachableUnder.after (fun _ _ => of_decide_eq_true) _ .init
  exact ⟨by decide +kernel, outstanding_le_budget rfl hreachable⟩

/-- While the packet of a long message is under way, the unscheduled one of a short message takes
its credit back, and the next tick releases a second packet on a budget of one. -/
theorem outstanding_exceeds_budget :
    let net := (Network.machine (.uniform .oneByteSird)).after (fun _ _ => true)
      [.host 1 (.send [7, 8, 9] 2 5 6), .host 1 (.txDataPacket true [0]),
        .deliver 0 false ⟨[], 0⟩, .host 2 .creditTick,
        .host 1 (.send [5] 2 5 6), .host 1 (.txDataPacket true [1, 0]),
        .deliver 1 false ⟨[], 0⟩, .host 2 .creditTick]
      (Network.machine (.uniform .oneByteSird)).init
    (Network.machine (.uniform .oneByteSird)).Reachable net ∧
      outstanding Config.oneByteSird (net.eventsOf 2) = {⟨1, 0, 0⟩, ⟨1, 0, 1⟩} ∧
      max 1 Config.oneByteSird.sirdCreditBudgetPkts = 1 := by
  intro net
  refine ⟨ReachableUnder.after (fun _ _ _ => trivial) _ .init, ?_, ?_⟩
  · decide +kernel
  · decide +kernel

end Receiver

end HomaSird.Homa
