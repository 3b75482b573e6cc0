import HomaSird.Homa.SirdLedger
import Mathlib.Order.Interval.Finset.Nat

/-! # Credits come back with the packets they released

A GRANT takes a credit and an arriving payload gives one back, so the credits of a sender are
covered by the released and missing packets of its pending messages. An abandoned message gives
nothing back, and a GRANT for packets that have all arrived takes a credit for good.
-/

/-! ## The packets that GRANTs release -/

namespace HomaSird.Homa.HomaInboundMsg

variable {cfg : Config} {msg : HomaInboundMsg}

def firstScheduled (cfg : Config) (msgSizePkts : Nat) : Nat :=
  if isLongSirdMsg cfg msgSizePkts then 0 else unscheduledIdx cfg msgSizePkts + 1

def released (cfg : Config) (msg : HomaInboundMsg) : Finset Nat :=
  if msg.hasGrantedData then Finset.Icc (firstScheduled cfg msg.msgSizePkts) msg.maxGrantedIdx
  else ∅

def missing (cfg : Config) (msg : HomaInboundMsg) : Finset Nat :=
  (msg.released cfg).filter fun pktOffset => msg.receivedPackets[pktOffset]? = some false

def nextGrantOffset (msg : HomaInboundMsg) : Nat :=
  (if msg.isGrantable then msg else (msg.advanceGrantableWindow 1).1).grantOffset

def exposes (cfg : Config) (msg : HomaInboundMsg) : Finset Nat :=
  Finset.Icc (firstScheduled cfg msg.msgSizePkts) msg.nextGrantOffset \ msg.released cfg

theorem released_create {packet : Packet} {created : HomaInboundMsg}
    (hcreate : create cfg packet = .ok created) : created.released cfg = ∅ := by
  have hblank : (blank cfg packet).released cfg = ∅ := by
    simp only [released, blank, firstScheduled]
    by_cases hlong : isLongSirdMsg cfg
        (packetCount packet.homaHeader.msgSizeBytes cfg.maxPayloadSize) = true
    · simp [hlong]
    · simp [hlong]
  rcases create_eq_ok hcreate with ⟨_, rfl⟩ | ⟨_, _, rfl⟩
  · exact hblank
  · exact hblank

theorem missing_eq_empty_of_complete (hfull : msg.isFullyReceived = true) :
    msg.missing cfg = ∅ := by
  apply Finset.filter_eq_empty_iff.mpr
  intro pktOffset _ hmiss
  have hall := List.all_eq_true.mp hfull false (List.mem_of_getElem? hmiss)
  cases hall

section

variable {payload : Payload} {pktOffset : Nat} {received : HomaInboundMsg} (hrecv :
  msg.receiveDataPacket cfg payload pktOffset = .ok received)
include hrecv

theorem released_receiveDataPacket : received.released cfg = msg.released cfg := by
  rcases receiveDataPacket_eq_ok hrecv with ⟨rfl, _⟩ | ⟨rfl, _, _⟩
  · rfl
  · unfold openWindow
    split
    · rfl
    · rfl

theorem missing_receiveDataPacket :
    received.missing cfg =
      if payload = [] then msg.missing cfg else (msg.missing cfg).erase pktOffset := by
  have hrel := released_receiveDataPacket hrecv
  rcases receiveDataPacket_eq_ok hrecv with ⟨rfl, hcase⟩ | ⟨rfl, hload, hnew⟩
  · split
    · rfl
    next hload =>
      have hold := hcase.resolve_left hload
      rw [Finset.erase_eq_of_notMem]
      intro hmem
      rw [missing, Finset.mem_filter, hold] at hmem
      cases hmem.2
  · have hpkts : (msg.store cfg pktOffset payload).openWindow.receivedPackets =
        msg.receivedPackets.set pktOffset true := by
      unfold openWindow
      split
      · rfl
      · rfl
    rw [if_neg hload]
    ext other
    simp only [missing, hrel, hpkts, Finset.mem_filter, Finset.mem_erase]
    by_cases hsame : other = pktOffset
    · subst hsame
      obtain ⟨hlt, -⟩ := List.getElem?_eq_some_iff.mp hnew
      simp [List.getElem?_set_self hlt]
    · rw [List.getElem?_set_ne (Ne.symm hsame)]
      simp [hsame]

end

theorem released_generateGrant (hsound : msg.Sound cfg) (prio : Nat) :
    (msg.generateGrant prio).2.released cfg =
      msg.released cfg ∪ Finset.Icc (firstScheduled cfg msg.msgSizePkts) msg.grantOffset := by
  have hbelow := hsound.granted_lt
  have hgrant := hsound.granted_le
  have hle : msg.maxGrantedIdx ≤ msg.grantOffset := by
    rw [hsound.grantOffset_eq]
    omega
  have hsubset : msg.released cfg ⊆
      Finset.Icc (firstScheduled cfg msg.msgSizePkts) msg.grantOffset := by
    unfold released
    split
    · exact Finset.Icc_subset_Icc_right hle
    · exact Finset.empty_subset _
  rw [Finset.union_eq_right.mpr hsubset]
  rfl

end HomaSird.Homa.HomaInboundMsg

namespace HomaSird.Homa.HomaRecvScheduler

open HomaInboundMsg

variable {cfg : Config} {currentMsg msg : HomaInboundMsg}

theorem released_opened (hopened : GrantRound.Opened cfg currentMsg msg) :
    msg.released cfg = currentMsg.released cfg := by
  obtain ⟨_, rfl⟩ := opened_frame hopened
  rfl

theorem grantOffset_opened (hopened : GrantRound.Opened cfg currentMsg msg)
    (hgrant : msg.isGrantable = true) : msg.grantOffset = currentMsg.nextGrantOffset := by
  unfold nextGrantOffset
  cases hopened with
  | asIs =>
    have hsame : currentMsg.isGrantable = true := hgrant
    rw [if_pos hsame]
    rfl
  | byCredit _ _ hwait =>
    rw [if_neg (by simp [hwait])]
    rw [advanceGrantableWindow_setCurrentlyScheduled]
    rfl

theorem released_grant (hsound : currentMsg.Sound cfg)
    (hopened : GrantRound.Opened cfg currentMsg msg) (hgrant : msg.isGrantable = true)
    (prio : Nat) :
    (msg.generateGrant prio).2.released cfg = currentMsg.released cfg ∪ currentMsg.exposes cfg := by
  obtain ⟨_, hframe⟩ := opened_frame hopened
  have hsz : msg.msgSizePkts = currentMsg.msgSizePkts := by rw [hframe]
  rw [released_generateGrant (sound_opened hsound hopened), released_opened hopened,
    grantOffset_opened hopened hgrant, exposes, hsz, Finset.union_sdiff_self_eq_union]

end HomaSird.Homa.HomaRecvScheduler

namespace HomaSird.Homa

open Transition Transition.Machine SirdState List

namespace HomaRecvScheduler

open HomaInboundMsg

variable {cfg : Config} {sched next : HomaRecvScheduler} {events : List Event}

def heldBy (cfg : Config) (msgs : List HomaInboundMsg) (sender : Ipv4Address) : Nat :=
  (msgs.map fun msg => if msg.getSrcAddress = sender then (msg.missing cfg).card else 0).sum

@[simp] theorem heldBy_cons (cfg : Config) (msg : HomaInboundMsg) (msgs : List HomaInboundMsg)
    (sender : Ipv4Address) :
    heldBy cfg (msg :: msgs) sender =
      (if msg.getSrcAddress = sender then (msg.missing cfg).card else 0) +
        heldBy cfg msgs sender := by
  rw [heldBy, map_cons, sum_cons, heldBy]

theorem heldBy_append (cfg : Config) (front back : List HomaInboundMsg) (sender : Ipv4Address) :
    heldBy cfg (front ++ back) sender = heldBy cfg front sender + heldBy cfg back sender := by
  rw [heldBy, map_append, sum_append, heldBy, heldBy]

theorem heldBy_perm {msgs others : List HomaInboundMsg} (hperm : msgs.Perm others)
    (sender : Ipv4Address) : heldBy cfg msgs sender = heldBy cfg others sender :=
  (hperm.map _).sum_eq

theorem heldBy_eq_zero {msgs : List HomaInboundMsg} {sender : Ipv4Address}
    (hnone : ∀ msg ∈ msgs, msg.getSrcAddress ≠ sender) : heldBy cfg msgs sender = 0 := by
  apply sum_eq_zero
  intro held hheld
  obtain ⟨msg, hmem, rfl⟩ := mem_map.mp hheld
  exact if_neg (hnone msg hmem)

def Covered (cfg : Config) (sched : HomaRecvScheduler) : Prop :=
  ∀ sender, sched.sird.creditsInUse sender ≤ heldBy cfg sched.inboundMsgs sender

/-! ## Arrivals -/

theorem card_missing_le {msg received : HomaInboundMsg} {payload : Payload}
    {pktOffset : Nat} (hrecv : msg.receiveDataPacket cfg payload pktOffset = .ok received) :
    (msg.missing cfg).card ≤ (received.missing cfg).card + if payload = [] then 0 else 1 := by
  rw [missing_receiveDataPacket hrecv]
  split
  · exact le_rfl
  · have hcard : (msg.missing cfg).card - 1 ≤ ((msg.missing cfg).erase pktOffset).card :=
      Finset.pred_card_le_card_erase
    omega

theorem heldBy_taken {packet : Packet} {inboundMsg : HomaInboundMsg} {others : List HomaInboundMsg}
    (htaken : Taken cfg sched packet inboundMsg others) (sender : Ipv4Address) :
    heldBy cfg sched.inboundMsgs sender ≤ heldBy cfg (inboundMsg :: others) sender +
        if sender = packet.ipv4Header.source ∧ packet.payload ≠ [] then 1 else 0 := by
  cases htaken with
  | @pending msg hperm hkey hrecv =>
    have hsource : inboundMsg.getSrcAddress = msg.getSrcAddress :=
      congrArg MsgKey.saddr (receiveDataPacket_frame hrecv).1
    have hpkt : msg.getSrcAddress = packet.ipv4Header.source := congrArg MsgKey.saddr hkey
    have hcard := card_missing_le hrecv
    rw [heldBy_perm hperm, heldBy_cons, heldBy_cons, hsource, hpkt]
    by_cases hsame : packet.ipv4Header.source = sender
    · simp only [hsame, if_true, true_and]
      by_cases hempty : packet.payload = []
      · simp only [hempty, if_true] at hcard
        omega
      · simp only [hempty, if_false] at hcard
        simp only [hempty, ne_eq, not_false_iff, if_true]
        omega
    · simp only [hsame, if_false]
      omega
  | fresh hothers =>
    rw [heldBy_cons, hothers]
    omega

theorem heldBy_settled {inboundMsg : HomaInboundMsg} {others msgs : List HomaInboundMsg}
    (hset : Settled cfg inboundMsg others msgs events) (sender : Ipv4Address) :
    heldBy cfg msgs sender = heldBy cfg (inboundMsg :: others) sender := by
  cases hset with
  | complete hfull hmsgs =>
    rw [hmsgs, heldBy_cons, missing_eq_empty_of_complete hfull, Finset.card_empty, ite_self,
      zero_add]
  | waiting _ hmsgs => exact heldBy_perm hmsgs sender

theorem creditsInUse_receiveData (cfg : Config) (sird : SirdState) (packet : Packet)
    (sender : Ipv4Address) :
    (sird.receiveData cfg packet).creditsInUse sender = sird.creditsInUse sender -
        if sender = packet.ipv4Header.source ∧ packet.payload ≠ [] then 1 else 0 := by
  have hsame := sameCredits_receiveData cfg sird packet
  rw [Receiver.SameCredits.creditsInUse_eq hsame]
  by_cases hempty : packet.payload = []
  · simp [hempty]
  · rw [if_neg hempty, creditsInUse_reclaim]
    by_cases hsame : sender = packet.ipv4Header.source
    · simp [hsame, hempty]
    · simp [hsame]

theorem covered_receivePacket (hsird : cfg.sirdEnabled = true)
    (hcover : sched.Covered cfg) {packet : Packet}
    (hrecv : sched.receivePacket cfg packet = .ok (next, events)) : next.Covered cfg := by
  intro sender
  by_cases hdata : packet.hasFlag .data = true
  · obtain ⟨inboundMsg, others, hgot⟩ := receivePacket_data hdata hrecv
    obtain ⟨before, hset, -⟩ := hgot.settled
    have hheld := heldBy_taken hgot.taken sender
    have hpre := hcover sender
    rw [heldBy_settled hset, hgot.sird_eq, fedSird, if_pos hsird, creditsInUse_receiveData]
    omega
  · obtain ⟨-, hmsgs, hcred, -⟩ := receivePacket_not_data (by simpa using hdata) hrecv
    rw [hmsgs, hcred]
    exact hcover sender

/-! ## Credit ticks -/

/-- The next GRANT of each message that a round may grant releases a packet that has not arrived.
-/
def GrantsMissing (cfg : Config) (sched : HomaRecvScheduler) (msg : HomaInboundMsg) : Prop :=
  msg.isFullyGranted = false → msg.getSrcAddress ∉ sched.busySenders →
    ∃ pktOffset ∈ msg.exposes cfg, msg.receivedPackets[pktOffset]? = some false

theorem considers_iff {round : GrantRound} {busySenders : Finset Ipv4Address}
    {msg : HomaInboundMsg} :
    round.considers busySenders msg = true ↔
      0 < round.overcommitDue ∧ msg.isFullyGranted = false ∧
        msg.getSrcAddress ∉ round.grantedSenders ∧ msg.getSrcAddress ∉ busySenders := by
  simp only [GrantRound.considers, Bool.and_eq_true, decide_eq_true_eq, Bool.not_eq_true',
    and_assoc]

theorem card_missing_grant {currentMsg opened : HomaInboundMsg}
    (hsound : currentMsg.Sound cfg) (hopened : GrantRound.Opened cfg currentMsg opened)
    (hgrant : opened.isGrantable = true) (prio : Nat) (hexposes :
    ∃ pktOffset ∈ currentMsg.exposes cfg, currentMsg.receivedPackets[pktOffset]? = some false) :
    (currentMsg.missing cfg).card < ((opened.generateGrant prio).2.missing cfg).card := by
  obtain ⟨pktOffset, hexposed, hunreceived⟩ := hexposes
  have hrel := released_grant hsound hopened hgrant prio
  have hpkts : (opened.generateGrant prio).2.receivedPackets = currentMsg.receivedPackets := by
    obtain ⟨_, rfl⟩ := opened_frame hopened
    rfl
  apply Finset.card_lt_card
  rw [Finset.ssubset_iff_of_subset]
  · -- the exposed packet is missing after the GRANT and was not released before
    refine ⟨pktOffset, ?_, ?_⟩
    · rw [missing, Finset.mem_filter, hrel, hpkts]
      exact ⟨Finset.mem_union_right _ hexposed, hunreceived⟩
    · intro hmiss
      exact (Finset.mem_sdiff.mp hexposed).2 (Finset.mem_filter.mp hmiss).1
  · intro other hother
    obtain ⟨hmem, hmiss⟩ := Finset.mem_filter.mp hother
    rw [missing, Finset.mem_filter, hrel, hpkts]
    exact ⟨Finset.mem_union_left _ hmem, hmiss⟩

theorem covered_visit {before after : GrantRound} {currentMsg msg : HomaInboundMsg}
    (hsird : cfg.sirdEnabled = true) (hsound : currentMsg.Sound cfg)
    (hgrants : sched.GrantsMissing cfg currentMsg)
    (hvisit : GrantRound.Visit cfg sched.busySenders before currentMsg after msg)
    (sender : Ipv4Address) :
    after.sird.creditsInUse sender +
        (if currentMsg.getSrcAddress = sender then (currentMsg.missing cfg).card else 0) ≤
      before.sird.creditsInUse sender +
        if msg.getSrcAddress = sender then (msg.missing cfg).card else 0 := by
  cases hvisit with
  | pass =>
    rw [GrantRound.clampPrio_sird]
    exact le_rfl
  | hold _ hopened =>
    obtain ⟨_, rfl⟩ := opened_frame hopened
    rw [creditsInUse_openAccount]
    exact le_rfl
  | homaGrant hplain => cases hplain.symm.trans hsird
  | @sirdGrant opened _ hopened hcons _ hgrant =>
    obtain ⟨-, hleft, -, hidle⟩ := considers_iff.mp hcons
    have hcard := card_missing_grant hsound hopened hgrant
      (before.clampPrio cfg).grantingPrio (hgrants hleft hidle)
    have hsource : opened.getSrcAddress = currentMsg.getSrcAddress := by
      obtain ⟨_, rfl⟩ := opened_frame hopened
      rfl
    have hafter : ((before.clampPrio cfg).issue opened).2.missing cfg =
        (opened.generateGrant (before.clampPrio cfg).grantingPrio).2.missing cfg := rfl
    have hsourceAfter : ((before.clampPrio cfg).issue opened).2.getSrcAddress =
        currentMsg.getSrcAddress := hsource
    rw [hafter, hsourceAfter, creditsInUse_charge,
      creditsInUse_openAccount, creditsInUse_openAccount]
    by_cases hsame : currentMsg.getSrcAddress = sender
    · simp only [hsame, if_true]
      omega
    · simp only [hsame, Ne.symm hsame, if_false]
      exact le_rfl

/-- In a round the messages visited and those ahead cover the credits together. -/
def CoveredBy (cfg : Config) (sched : HomaRecvScheduler) (round : GrantRound)
    (visited rest : List HomaInboundMsg) : Prop :=
  (∀ msg ∈ rest, msg ∈ sched.inboundMsgs) ∧
    ∀ sender, round.sird.creditsInUse sender ≤
      heldBy cfg visited sender + heldBy cfg rest sender

theorem covered_creditTick (hsird : cfg.sirdEnabled = true) (hwf : sched.WellFormed cfg)
    (hcover : sched.Covered cfg) (hgrants : ∀ msg ∈ sched.inboundMsgs,
    sched.GrantsMissing cfg msg) : (sched.creditTick cfg).1.Covered cfg := by
  have hstart : CoveredBy cfg sched (GrantRound.start cfg sched.sird) []
      sched.inboundMsgs := by
    refine ⟨fun msg hmsg => hmsg, fun sender => ?_⟩
    exact (hcover sender).trans (Nat.le_add_left _ _)
  have hkeep : ∀ round visited msg rest, CoveredBy cfg sched round visited (msg :: rest) →
      CoveredBy cfg sched (grantStep cfg sched.busySenders round msg).1
        (visited ++ [(grantStep cfg sched.busySenders round msg).2]) rest := by
    rintro round visited msg rest ⟨hrest, hbd⟩
    have hmem := hrest msg mem_cons_self
    refine ⟨fun other hother => hrest other (.tail _ hother), fun sender => ?_⟩
    have hvisit := covered_visit hsird (hwf.sound msg hmem) (hgrants msg hmem)
      (GrantRound.grantStep_visit cfg sched.busySenders round msg) sender
    have hpre := hbd sender
    have hempty : heldBy cfg [] sender = 0 := rfl
    rw [heldBy_cons] at hpre
    rw [heldBy_append, heldBy_cons, hempty]
    omega
  have hloop := GrantRound.loop_rule (CoveredBy cfg sched) hkeep hstart
  exact fun sender => hloop.2 sender

/-! ## Timers -/

/-- A message may be dropped when the others of its sender cover the sender's credits. -/
def DropsCovered (cfg : Config) (sched : HomaRecvScheduler) (timer : Nat) : Prop :=
  ∀ msg ∈ sched.inboundMsgs[timer]?, cfg.maxNumRtxPerMsg ≤ msg.numRtxWithoutProgress →
    sched.sird.creditsInUse msg.getSrcAddress ≤
      heldBy cfg (sched.inboundMsgs.eraseIdx timer) msg.getSrcAddress

theorem covered_expired (hcover : sched.Covered cfg) {timer : Nat}
    (hdrops : sched.DropsCovered cfg timer) (hexp : Expired cfg sched timer next events) :
    next.Covered cfg := by
  intro sender
  have hpre := hcover sender
  cases hexp with
  | @dropped msg hmsg hlim hnext =>
    subst hnext
    by_cases hsame : msg.getSrcAddress = sender
    · subst hsame
      exact hdrops msg hmsg hlim
    · obtain ⟨hlt, rfl⟩ := List.getElem?_eq_some_iff.mp hmsg
      have hperm := List.getElem_cons_eraseIdx_perm hlt
      rw [← heldBy_perm hperm, heldBy_cons, if_neg hsame, zero_add] at hpre
      exact hpre
  | @rearmed msg _ hmsg _ _ hnext =>
    subst hnext
    have hsame : heldBy cfg (sched.inboundMsgs.set timer (rearmRtx msg)) sender =
        heldBy cfg sched.inboundMsgs sender :=
      congrArg List.sum (map_set_eq hmsg rfl)
    simp only [hsame]
    exact hpre

end HomaRecvScheduler

namespace Receiver

open HomaRecvScheduler

variable {cfg : Config}

/-- No credit goes astray: every GRANT that a tick may issue releases a missing packet, and a
message is dropped only when the others of its sender cover the sender's credits. -/
def CreditsKept (cfg : Config) (receiver : Receiver) : RecvInput → Prop
  | .packet _ => True
  | .creditTick => ∀ msg ∈ receiver.sched.inboundMsgs, receiver.sched.GrantsMissing cfg msg
  | .rtxExpire timer => receiver.sched.DropsCovered cfg timer

instance (cfg : Config) (receiver : Receiver) (input : RecvInput) :
    Decidable (CreditsKept cfg receiver input) :=
  match input with
  | .packet _ => inferInstanceAs (Decidable True)
  | .creditTick =>
    inferInstanceAs (Decidable (∀ msg ∈ receiver.sched.inboundMsgs, msg.isFullyGranted = false →
      msg.getSrcAddress ∉ receiver.sched.busySenders →
      ∃ pktOffset ∈ msg.exposes cfg, msg.receivedPackets[pktOffset]? = some false))
  | .rtxExpire timer =>
    inferInstanceAs (Decidable (∀ msg ∈ receiver.sched.inboundMsgs[timer]?,
      cfg.maxNumRtxPerMsg ≤ msg.numRtxWithoutProgress →
      receiver.sched.sird.creditsInUse msg.getSrcAddress ≤
        heldBy cfg (receiver.sched.inboundMsgs.eraseIdx timer) msg.getSrcAddress))

theorem covered_of_reachable (hsird : cfg.sirdEnabled = true)
    {receiver : Receiver} (hreach : (machine cfg).ReachableUnder (CreditsKept cfg) receiver) :
    receiver.sched.Covered cfg := by
  apply hreach.invariant_of (fun _ => wellFormed_of_reachable)
  · intro sender
    exact Nat.zero_le _
  · intro state input next hwf hcover hallow hstep
    obtain ⟨events, hhandle, -⟩ := step_eq_ok hstep
    cases input with
    | packet packet => exact covered_receivePacket hsird hcover (handle_packet hhandle).2
    | creditTick =>
      obtain ⟨-, heq, -⟩ := handle_creditTick hhandle
      rw [heq]
      exact covered_creditTick hsird hwf hcover hallow
    | rtxExpire timer =>
      exact covered_expired hcover hallow (expireRtxTimeout_eq_ok hwf hhandle)

/-- A sender without pending messages has no credit in use, and a receiver without any has none at
all. -/
theorem no_credit_lost (hsird : cfg.sirdEnabled = true) {receiver : Receiver}
    (hreachable : (machine cfg).ReachableUnder (CreditsKept cfg) receiver) :
    (∀ sender, (∀ msg ∈ receiver.sched.inboundMsgs, msg.getSrcAddress ≠ sender) →
    receiver.sched.sird.creditsInUse sender = 0) ∧
    (receiver.sched.inboundMsgs = [] → receiver.sched.sird.globalCreditsInUsePkts = 0) := by
  have hcovered := covered_of_reachable hsird hreachable
  have hsender : ∀ sender, (∀ msg ∈ receiver.sched.inboundMsgs, msg.getSrcAddress ≠ sender) →
      receiver.sched.sird.creditsInUse sender = 0 := by
    intro sender hnone
    have hle := hcovered sender
    rw [heldBy_eq_zero hnone] at hle
    exact Nat.le_zero.mp hle
  refine ⟨hsender, fun hempty => ?_⟩
  obtain ⟨ledger, -, hmirrors⟩ := (bounded_of_reachable hreachable).ledger
  rw [← hmirrors.total_eq, ledger.total_eq, hmirrors.accounts_eq]
  apply UnorderedMap.total_eq_zero
  intro sender
  apply hsender sender
  rw [hempty]
  simp

theorem no_credit_lost_delivered :
    let receiver := (machine Config.oneByteSird).after
      (fun state input => decide (CreditsKept Config.oneByteSird state input))
      [.packet (samplePacket 3 0 []), .creditTick, .packet (samplePacket 3 0 [7]), .creditTick,
        .packet (samplePacket 3 1 [8]), .creditTick, .packet (samplePacket 3 2 [9])]
      (machine Config.oneByteSird).init
    receiver.sched.inboundMsgs = [] ∧ receiver.trace.length = 9 ∧
      receiver.sched.sird.globalCreditsInUsePkts = 0 := by
  intro receiver
  have hreachable : (machine Config.oneByteSird).ReachableUnder (CreditsKept Config.oneByteSird)
      receiver :=
    ReachableUnder.after (fun _ _ => of_decide_eq_true) _ .init
  have hempty : receiver.sched.inboundMsgs = [] := by decide +kernel
  exact ⟨hempty, by decide +kernel, (no_credit_lost rfl hreachable).2 hempty⟩

/-- A credit request is granted and no data follows: six expiries later the
message is dropped, and its credit stays in use for good. -/
theorem credit_lost_on_abandonment :
    let receiver := (machine Config.oneByteSird).after (fun _ _ => true)
      ([.packet (samplePacket 3 0 []), .creditTick] ++ List.replicate 6 (.rtxExpire 0))
      (machine Config.oneByteSird).init
    (machine Config.oneByteSird).Reachable receiver ∧ receiver.sched.inboundMsgs = [] ∧
      receiver.sched.sird.creditsInUse 1 = 1 ∧
      receiver.sched.sird.globalCreditsInUsePkts = 1 := by
  intro receiver
  refine ⟨ReachableUnder.after (fun _ _ _ => trivial) _ .init, ?_, ?_, ?_⟩
  · decide +kernel
  · decide +kernel
  · decide +kernel

end Receiver

end HomaSird.Homa
