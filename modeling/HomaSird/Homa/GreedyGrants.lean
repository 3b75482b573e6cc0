import HomaSird.Data.GreedySelection
import HomaSird.Homa.GrantHistory
import HomaSird.Homa.GrantOpportunity
import HomaSird.Homa.SirdLedger

/-! # A granting round is a greedy selection

`SendAppropriateGrants` carries the remaining overcommitment, a priority, the granted senders and
the credits from message to message. What it grants is the greedy selection of eligible messages.
-/

namespace HomaSird.Homa

open Transition Transition.Machine HomaInboundMsg List

namespace HomaInboundMsg

variable {cfg : Config}

/-- The message as the round offers it a GRANT: a credit opens a window that is not grantable. -/
def offered (cfg : Config) (msg : HomaInboundMsg) : HomaInboundMsg :=
  if cfg.sirdEnabled && !msg.isGrantable then (msg.advanceGrantableWindow 1).1 else msg

def grantPacket (cfg : Config) (prio : Nat) (msg : HomaInboundMsg) : Packet :=
  ((msg.offered cfg).generateGrant prio).1

theorem offered_setCurrentlyScheduled (cfg : Config) (msg : HomaInboundMsg) (scheduled : Bool) :
    (msg.setCurrentlyScheduled scheduled).offered cfg =
      (msg.offered cfg).setCurrentlyScheduled scheduled := by
  unfold offered
  rw [isGrantable_setCurrentlyScheduled]
  split
  · exact advanceGrantableWindow_setCurrentlyScheduled msg scheduled 1
  · rfl

theorem offered_frame (cfg : Config) (msg : HomaInboundMsg) :
    ∃ maxGrantableIdx, msg.offered cfg = { msg with maxGrantableIdx } := by
  unfold offered
  split
  · unfold advanceGrantableWindow
    split
    · exact ⟨msg.maxGrantableIdx, rfl⟩
    · split
      · exact ⟨msg.maxGrantableIdx, rfl⟩
      · exact ⟨_, rfl⟩
  · exact ⟨msg.maxGrantableIdx, rfl⟩

theorem key_offered (cfg : Config) (msg : HomaInboundMsg) : (msg.offered cfg).key = msg.key := by
  obtain ⟨_, heq⟩ := offered_frame cfg msg
  rw [heq]
  rfl

theorem getSrcAddress_offered (cfg : Config)
    (msg : HomaInboundMsg) : (msg.offered cfg).getSrcAddress = msg.getSrcAddress := by
  obtain ⟨_, heq⟩ := offered_frame cfg msg
  rw [heq]
  rfl

theorem offered_of_plain (hplain : cfg.sirdEnabled = false)
    (msg : HomaInboundMsg) : msg.offered cfg = msg := by
  simp [offered, hplain]

theorem offered_of_sird (hsird : cfg.sirdEnabled = true) (msg : HomaInboundMsg) :
    msg.offered cfg = if msg.isGrantable then msg else (msg.advanceGrantableWindow 1).1 := by
  cases hgrant : msg.isGrantable with
  | false => simp [offered, hsird, hgrant]
  | true => simp [offered, hsird, hgrant]

theorem opened_offered (cfg : Config) {msg : HomaInboundMsg} (hleft : msg.isFullyGranted = false) :
    HomaRecvScheduler.GrantRound.Opened cfg msg
      ((msg.offered cfg).setCurrentlyScheduled false) := by
  rw [← offered_setCurrentlyScheduled, offered]
  split
  next hopens =>
    rw [isGrantable_setCurrentlyScheduled, Bool.and_eq_true, Bool.not_eq_true'] at hopens
    exact .byCredit hopens.1 hleft hopens.2
  · exact .asIs

/-- The offset of the next GRANT: the window, or one packet more where it is closed; the first
packet when nothing has been granted. -/
theorem grantOffset_offered {msg : HomaInboundMsg} (hsound : msg.Sound cfg)
    (hleft : msg.isFullyGranted = false) (hgrant : (msg.offered cfg).isGrantable = true) :
    (msg.offered cfg).grantOffset =
      if msg.hasGrantedData then
        max (msg.maxGrantedIdx + 1) (min msg.maxGrantableIdx (msg.msgSizePkts - 1))
      else 0 := by
  have hopened := opened_offered cfg hleft
  have hoff := (HomaRecvScheduler.sound_opened hsound hopened).grantOffset_eq
  rw [← HomaRecvScheduler.GrantRound.maxGrantableIdx_opened hsound hopened hleft hgrant]
  obtain ⟨_, hframe⟩ := offered_frame cfg msg
  rw [hframe] at hoff ⊢
  exact hoff

theorem key_grantPacket (cfg : Config) (prio : Nat) (msg : HomaInboundMsg) :
    (msg.grantPacket cfg prio).ctrlKey = msg.key :=
  key_offered cfg msg

end HomaInboundMsg

namespace HomaRecvScheduler

variable {cfg : Config} {sched : HomaRecvScheduler}

/-- A message may be granted after the given ones: it is not fully granted, its sender is neither
busy nor granted, it is grantable, and in SIRD mode its sender and the receiver have a credit left.
-/
def eligible (cfg : Config) (sched : HomaRecvScheduler) (granted : List HomaInboundMsg)
    (msg : HomaInboundMsg) : Bool :=
  !msg.isFullyGranted && decide (msg.getSrcAddress ∉ granted.map HomaInboundMsg.getSrcAddress) &&
    decide (msg.getSrcAddress ∉ sched.busySenders) && (msg.offered cfg).isGrantable &&
    (!cfg.sirdEnabled ||
      decide (sched.sird.creditsInUse msg.getSrcAddress <
        sched.sird.senderBudgetPkts cfg msg.getSrcAddress) &&
      decide (sched.sird.globalCreditsInUsePkts + granted.length < cfg.globalBudgetPkts))

/-- The messages that a round over the given ones grants. -/
def selection (cfg : Config) (sched : HomaRecvScheduler) (msgs : List HomaInboundMsg) :
    List HomaInboundMsg :=
  greedy cfg.overcommitLevel (sched.eligible cfg) [] msgs

def grantPrio (cfg : Config) (index : Nat) : Nat :=
  min (cfg.numUnschedPrioBands + index) (cfg.numTotalPrioBands - 1)

/-- What the message granted at a place of the round keeps of its GRANT: offset and priority. -/
def grantMark (cfg : Config) (index : Nat) (msg : HomaInboundMsg) : MsgKey × Nat × Nat :=
  (msg.key, (msg.offered cfg).grantOffset, grantPrio cfg index)

def scheduledMarks (msgs : List HomaInboundMsg) : List (MsgKey × Nat × Nat) :=
  (msgs.filter HomaInboundMsg.currentlyScheduled).map fun msg =>
    (msg.key, msg.maxGrantedIdx, msg.prio)

namespace GrantRound

def accepts (cfg : Config) (busySenders : Finset Ipv4Address) (round : GrantRound)
    (msg : HomaInboundMsg) : Bool :=
  round.considers busySenders msg && (msg.offered cfg).isGrantable &&
    (!cfg.sirdEnabled || round.sird.hasCredit cfg msg.getSrcAddress)

theorem sameBuckets_openAccount (sird : SirdState)
    (senderKey : Ipv4Address) : SirdState.SameBuckets sird (sird.openAccount senderKey) :=
  SirdState.SameBuckets.openAccount ⟨fun _ => rfl, rfl, rfl, rfl⟩ senderKey

def granting (cfg : Config) (round : GrantRound) (msg : HomaInboundMsg) : GrantRound :=
  { ((round.clampPrio cfg).issue (msg.offered cfg)).1 with
    sird := if cfg.sirdEnabled then
        (round.sird.openAccount msg.getSrcAddress).charge msg.getSrcAddress
      else round.sird }

theorem sirdStep_eq (hsird : cfg.sirdEnabled = true) (busySenders : Finset Ipv4Address)
    (round : GrantRound) (msg : HomaInboundMsg) :
    let offer := (msg.offered cfg).setCurrentlyScheduled false
    let opened := { round.clampPrio cfg with sird := round.sird.openAccount msg.getSrcAddress }
    sirdStep cfg busySenders round msg =
      if round.considers busySenders msg then
        if opened.sird.hasCredit cfg msg.getSrcAddress then
          if offer.isGrantable then
            ({ (opened.issue offer).1 with sird := opened.sird.charge msg.getSrcAddress },
              (opened.issue offer).2)
          else (opened, offer)
        else (opened, msg.setCurrentlyScheduled false)
      else (round.clampPrio cfg, msg.setCurrentlyScheduled false) := by
  intro offer opened
  have hoffer : offer = if (msg.setCurrentlyScheduled false).isGrantable then
      msg.setCurrentlyScheduled false
      else ((msg.setCurrentlyScheduled false).advanceGrantableWindow 1).1 := by
    rw [← offered_of_sird hsird, offered_setCurrentlyScheduled]
  have hlooks : (round.clampPrio cfg).considers busySenders
      (msg.setCurrentlyScheduled false) = round.considers busySenders msg :=
    clampPrio_considers round _
  unfold sirdStep
  dsimp only
  rw [hlooks, clampPrio_sird, ← hoffer]
  rfl

theorem homaStep_eq (busySenders : Finset Ipv4Address) (round : GrantRound) (msg : HomaInboundMsg) :
    homaStep cfg busySenders round msg =
      if round.considers busySenders msg && msg.isGrantable then
        (round.clampPrio cfg).issue (msg.setCurrentlyScheduled false)
      else (round.clampPrio cfg, msg.setCurrentlyScheduled false) := by
  have hlooks : (round.clampPrio cfg).considers busySenders
      (msg.setCurrentlyScheduled false) = round.considers busySenders msg :=
    clampPrio_considers round _
  rw [homaStep, hlooks]
  rfl

theorem hasCredit_openAccount (sird : SirdState) (senderKey : Ipv4Address) :
    (sird.openAccount senderKey).hasCredit cfg senderKey = sird.hasCredit cfg senderKey :=
  (sameBuckets_openAccount sird senderKey).hasCredit_eq cfg senderKey

variable {msg : HomaInboundMsg} {round : GrantRound} {granted : List HomaInboundMsg}

theorem grantStep_of_accepts {busySenders : Finset Ipv4Address}
    (hacc : round.accepts cfg busySenders msg = true) :
    (grantStep cfg busySenders round msg).1 = round.granting cfg msg ∧
      (grantStep cfg busySenders round msg).2 =
        ((round.clampPrio cfg).issue ((msg.offered cfg).setCurrentlyScheduled false)).2 := by
  simp only [accepts, Bool.and_eq_true] at hacc
  obtain ⟨⟨hcons, hgrant⟩, hcredit⟩ := hacc
  by_cases hsird : cfg.sirdEnabled = true
  · have hcredit : round.sird.hasCredit cfg msg.getSrcAddress = true := by
      simpa [hsird] using hcredit
    rw [grantStep, if_pos hsird, sirdStep_eq hsird]
    dsimp only
    rw [if_pos hcons, hasCredit_openAccount, if_pos hcredit,
      isGrantable_setCurrentlyScheduled, if_pos hgrant, granting, if_pos hsird]
    exact ⟨rfl, rfl⟩
  · have hplain : cfg.sirdEnabled = false := by simpa using hsird
    rw [offered_of_plain hplain] at hgrant
    rw [grantStep, if_neg hsird, homaStep_eq, hcons, hgrant, granting,
      offered_of_plain hplain, if_neg hsird]
    refine ⟨?_, rfl⟩
    rw [← @clampPrio_sird cfg round]
    rfl

theorem grantStep_of_not_accepts {busySenders : Finset Ipv4Address}
    (hrefuses : round.accepts cfg busySenders msg = false) :
    (∃ sird,
      SirdState.SameBuckets round.sird sird ∧
        (grantStep cfg busySenders round msg).1 = { round.clampPrio cfg with sird }) ∧
      (grantStep cfg busySenders round msg).2.currentlyScheduled = false := by
  have hclamp : round.clampPrio cfg = { round.clampPrio cfg with sird := round.sird } := by
    rw [← @clampPrio_sird cfg round]
  have hsame : SirdState.SameBuckets round.sird round.sird := ⟨fun _ => rfl, rfl, rfl, rfl⟩
  by_cases hsird : cfg.sirdEnabled = true
  · rw [grantStep, if_pos hsird, sirdStep_eq hsird]
    dsimp only
    rw [hasCredit_openAccount, isGrantable_setCurrentlyScheduled]
    split
    next hcons =>
      have hopened := sameBuckets_openAccount round.sird msg.getSrcAddress
      split
      next hcredit =>
        rw [if_neg]
        · exact ⟨⟨_, hopened, rfl⟩, rfl⟩
        · intro hgrant
          simp [accepts, hcons, hgrant, hcredit] at hrefuses
      · exact ⟨⟨_, hopened, rfl⟩, rfl⟩
    · exact ⟨⟨round.sird, hsame, hclamp⟩, rfl⟩
  · have hplain : cfg.sirdEnabled = false := by simpa using hsird
    rw [grantStep, if_neg hsird, homaStep_eq, if_neg]
    · exact ⟨⟨round.sird, hsame, hclamp⟩, rfl⟩
    · simpa [accepts, hplain, offered_of_plain hplain] using hrefuses

/-! ## What a round carries -/

/-- The round after the given messages have been granted: everything it carries
is read off them. -/
structure Represents (cfg : Config) (sched : HomaRecvScheduler)
    (granted : List HomaInboundMsg) (round : GrantRound) : Prop where
  overcommitDue_eq : round.overcommitDue = cfg.overcommitLevel - granted.length
  mem_grantedSenders : ∀ sender, sender ∈ round.grantedSenders ↔
    sender ∈ granted.map HomaInboundMsg.getSrcAddress
  grantingPrio_le : round.grantingPrio ≤ cfg.numTotalPrioBands
  prio_eq : min round.grantingPrio (cfg.numTotalPrioBands - 1) =
    grantPrio cfg granted.length
  sent_eq : round.sent = granted.mapIdx fun index msg =>
    msg.grantPacket cfg (grantPrio cfg index)
  credits_eq : ∀ sender, round.sird.creditsInUse sender = sched.sird.creditsInUse sender +
    if cfg.sirdEnabled then (granted.map HomaInboundMsg.getSrcAddress).count sender else 0
  global_eq : round.sird.globalCreditsInUsePkts = sched.sird.globalCreditsInUsePkts +
    if cfg.sirdEnabled then granted.length else 0
  net_eq : round.sird.senderBudgetNetPkts = sched.sird.senderBudgetNetPkts
  host_eq : round.sird.senderBudgetHostPkts = sched.sird.senderBudgetHostPkts

/-- The priority bands of a configuration: some are scheduled, and a `uint8_t` counts them. -/
structure Bands (cfg : Config) : Prop where
  unsched_lt : cfg.numUnschedPrioBands < cfg.numTotalPrioBands
  total_lt : cfg.numTotalPrioBands < 2 ^ 8

theorem represents_start (hbands : Bands cfg) (sched : HomaRecvScheduler) :
    Represents cfg sched [] (start cfg sched.sird) where
  overcommitDue_eq := rfl
  mem_grantedSenders := fun sender => by simp [start]
  grantingPrio_le := hbands.unsched_lt.le
  prio_eq := rfl
  sent_eq := rfl
  credits_eq := fun sender => by simp [start]
  global_eq := by simp [start]
  net_eq := rfl
  host_eq := rfl

theorem uint8_pred_total (hbands : Bands cfg) :
    uint8 (cfg.numTotalPrioBands + 2 ^ 8 - 1) = cfg.numTotalPrioBands - 1 := by
  have hunsched := hbands.unsched_lt
  have htotal := hbands.total_lt
  unfold uint8
  omega

theorem grantingPrio_clampPrio (hbands : Bands cfg) {round : GrantRound}
    (hrep : Represents cfg sched granted round) (hdue : 0 < round.overcommitDue) :
    (round.clampPrio cfg).grantingPrio = grantPrio cfg granted.length := by
  rw [clampPrio, if_pos hdue, ← hrep.prio_eq, ← uint8_pred_total hbands]

theorem clampPrio_grantingPrio (hbands : Bands cfg) (round : GrantRound) :
    (round.clampPrio cfg).grantingPrio ≤ round.grantingPrio ∧
      min (round.clampPrio cfg).grantingPrio (cfg.numTotalPrioBands - 1) =
        min round.grantingPrio (cfg.numTotalPrioBands - 1) := by
  unfold clampPrio
  split
  · rw [uint8_pred_total hbands]
    exact ⟨min_le_left _ _, by rw [min_assoc, min_self]⟩
  · exact ⟨le_rfl, rfl⟩

theorem represents_clampPrio (hbands : Bands cfg) (hrep : Represents cfg sched granted round)
    {sird : SirdState} (hsame : SirdState.SameBuckets round.sird sird) :
    Represents cfg sched granted { round.clampPrio cfg with sird } := by
  obtain ⟨hle, hmin⟩ := clampPrio_grantingPrio hbands round
  exact {
    overcommitDue_eq := (clampPrio_overcommitDue round).trans hrep.overcommitDue_eq
    mem_grantedSenders := fun sender => by
      rw [← hrep.mem_grantedSenders sender, ← @clampPrio_grantedSenders cfg round]
    grantingPrio_le := hle.trans hrep.grantingPrio_le
    prio_eq := hmin.trans hrep.prio_eq
    sent_eq := (clampPrio_sent round).trans hrep.sent_eq
    credits_eq := fun sender => (hsame.credits_eq sender).trans (hrep.credits_eq sender)
    global_eq := hsame.global_eq.trans hrep.global_eq
    net_eq := hsame.net_eq.trans hrep.net_eq
    host_eq := hsame.host_eq.trans hrep.host_eq }

theorem uint8_next_prio (hbands : Bands cfg) (index : Nat) :
    uint8 (grantPrio cfg index + 1) ≤ cfg.numTotalPrioBands ∧
      min (uint8 (grantPrio cfg index + 1)) (cfg.numTotalPrioBands - 1) =
        grantPrio cfg (index + 1) := by
  have hunsched := hbands.unsched_lt
  have htotal := hbands.total_lt
  unfold grantPrio uint8
  constructor
  · omega
  · omega

theorem sird_granting_of_plain (hplain : ¬ cfg.sirdEnabled = true) :
    (round.granting cfg msg).sird = round.sird := if_neg hplain

theorem credits_granting (hsird : cfg.sirdEnabled = true) {sender : Ipv4Address} :
    (round.granting cfg msg).sird.creditsInUse sender =
      round.sird.creditsInUse sender + if sender = msg.getSrcAddress then 1 else 0 := by
  simp only [granting, hsird, if_true]
  rw [SirdState.creditsInUse_charge, SirdState.creditsInUse_openAccount,
    SirdState.creditsInUse_openAccount]
  split
  next heq => rw [heq]
  · rfl

theorem global_granting (hsird : cfg.sirdEnabled = true) :
    (round.granting cfg msg).sird.globalCreditsInUsePkts =
      round.sird.globalCreditsInUsePkts + 1 := by
  simp only [granting, hsird, if_true]
  rfl

theorem represents_granting (hbands : Bands cfg) {round : GrantRound}
    (hrep : Represents cfg sched granted round) (hdue : 0 < round.overcommitDue) (msg :
    HomaInboundMsg) : Represents cfg sched (granted ++ [msg]) (round.granting cfg msg) := by
  -- the round grants at the priority of its place among the granted
  have hprio := grantingPrio_clampPrio hbands hrep hdue
  obtain ⟨hle, hmin⟩ := uint8_next_prio hbands granted.length
  have hnext : (round.granting cfg msg).grantingPrio =
      uint8 (grantPrio cfg granted.length + 1) := by
    rw [← hprio]
    rfl
  have hsource := getSrcAddress_offered cfg msg
  refine ⟨?_, ?_, ?_, ?_, ?_, ?_, ?_, ?_, ?_⟩
  · have hpre := hrep.overcommitDue_eq
    have hafter : (round.granting cfg msg).overcommitDue = round.overcommitDue - 1 := by
      rw [← @clampPrio_overcommitDue cfg round]
      rfl
    rw [hafter, length_append, length_singleton]
    omega
  · intro sender
    have hsend : (round.granting cfg msg).grantedSenders =
        insert msg.getSrcAddress round.grantedSenders := by
      rw [← hsource, ← @clampPrio_grantedSenders cfg round]
      rfl
    rw [hsend, Finset.mem_insert, hrep.mem_grantedSenders]
    simp [or_comm]
  · rw [hnext]
    exact hle
  · rw [hnext, hmin, length_append, length_singleton]
  · have hsent : (round.granting cfg msg).sent =
        round.sent ++ [msg.grantPacket cfg (grantPrio cfg granted.length)] := by
      rw [← hprio, ← @clampPrio_sent cfg round]
      rfl
    rw [hsent, hrep.sent_eq, mapIdx_concat]
  · intro sender
    by_cases hsird : cfg.sirdEnabled = true
    · rw [credits_granting hsird, hrep.credits_eq sender, if_pos hsird, if_pos hsird,
        map_append, count_append, map_singleton, count_singleton,
        add_assoc]
      by_cases heq : sender = msg.getSrcAddress
      · simp [heq]
      · simp [heq, Ne.symm heq]
    · rw [sird_granting_of_plain hsird, hrep.credits_eq sender, if_neg hsird, if_neg hsird]
  · by_cases hsird : cfg.sirdEnabled = true
    · rw [global_granting hsird, hrep.global_eq, if_pos hsird, if_pos hsird, length_append,
        add_assoc]
      rfl
    · rw [sird_granting_of_plain hsird, hrep.global_eq, if_neg hsird, if_neg hsird]
  · rw [← hrep.net_eq, granting]
    dsimp only
    split <;> rfl
  · rw [← hrep.host_eq, granting]
    dsimp only
    split <;> rfl

theorem hasCredit_eq (hrep : Represents cfg sched granted round) (hsird : cfg.sirdEnabled = true)
    {sender : Ipv4Address} (hnot : sender ∉ granted.map getSrcAddress) :
    round.sird.hasCredit cfg sender =
      (decide (sched.sird.creditsInUse sender < sched.sird.senderBudgetPkts cfg sender) &&
        decide (sched.sird.globalCreditsInUsePkts + granted.length < cfg.globalBudgetPkts)) := by
  have hcred := hrep.credits_eq sender
  have hglobal := hrep.global_eq
  rw [if_pos hsird, count_eq_zero_of_not_mem hnot, add_zero] at hcred
  rw [if_pos hsird] at hglobal
  have hbudget : round.sird.senderBudgetPkts cfg sender =
      sched.sird.senderBudgetPkts cfg sender := by
    unfold SirdState.senderBudgetPkts
    rw [hrep.net_eq, hrep.host_eq]
  rw [SirdState.hasCredit, hcred, hglobal, hbudget]

theorem accepts_eq_takes (hrep : Represents cfg sched granted round) (msg : HomaInboundMsg) :
    round.accepts cfg sched.busySenders msg =
      takes cfg.overcommitLevel (sched.eligible cfg) granted msg := by
  have hdue : (0 < round.overcommitDue) = (granted.length < cfg.overcommitLevel) := by
    rw [hrep.overcommitDue_eq, Nat.sub_pos_iff_lt]
  have hsend : (msg.getSrcAddress ∉ round.grantedSenders) =
      (msg.getSrcAddress ∉ granted.map getSrcAddress) := by
    rw [hrep.mem_grantedSenders]
  simp only [accepts, considers, takes, eligible, hdue, hsend]
  by_cases hmem : msg.getSrcAddress ∈ granted.map getSrcAddress
  · simp [hmem]
  · cases hsird : cfg.sirdEnabled with
    | false => simp [hmem, Bool.and_assoc]
    | true => simp [hmem, hasCredit_eq hrep hsird hmem, Bool.and_assoc]

/-! ## The whole round -/

section

variable {granted : List HomaInboundMsg} {round : GrantRound} {msg : HomaInboundMsg}
  (hbands : Bands cfg) (hrep : Represents cfg sched granted round)
include hbands hrep

theorem visit_of_takes
    (htakes : takes cfg.overcommitLevel (sched.eligible cfg) granted msg = true) :
    Represents cfg sched (granted ++ [msg]) (grantStep cfg sched.busySenders round msg).1 ∧
      scheduledMarks [(grantStep cfg sched.busySenders round msg).2] =
        [grantMark cfg granted.length msg] := by
  have hdue : 0 < round.overcommitDue := by
    have hlt := (Bool.and_eq_true_iff.mp htakes).1
    rw [decide_eq_true_eq] at hlt
    rw [hrep.overcommitDue_eq]
    omega
  obtain ⟨hround, hmsg⟩ := grantStep_of_accepts ((accepts_eq_takes hrep msg).trans htakes)
  refine ⟨hround ▸ represents_granting hbands hrep hdue msg, ?_⟩
  rw [hmsg, grantMark, ← grantingPrio_clampPrio hbands hrep hdue, ← key_offered cfg msg]
  rfl

theorem visit_of_not_takes
    (hnot : takes cfg.overcommitLevel (sched.eligible cfg) granted msg = false) :
    Represents cfg sched granted (grantStep cfg sched.busySenders round msg).1 ∧
      scheduledMarks [(grantStep cfg sched.busySenders round msg).2] = [] := by
  obtain ⟨⟨sird, hsame, hround⟩, hsched⟩ :=
    grantStep_of_not_accepts ((accepts_eq_takes hrep msg).trans hnot)
  exact ⟨hround ▸ represents_clampPrio hbands hrep hsame, by simp [scheduledMarks, hsched]⟩

end

theorem scheduledMarks_cons (msg : HomaInboundMsg) (msgs : List HomaInboundMsg) :
    scheduledMarks (msg :: msgs) = scheduledMarks [msg] ++ scheduledMarks msgs := by
  rw [scheduledMarks, scheduledMarks, scheduledMarks, ← map_append, ← filter_append,
    singleton_append]

theorem represents_loop (hbands : Bands cfg) (hrep : Represents cfg sched granted round)
    (msgs : List HomaInboundMsg) :
    let chosen := greedy cfg.overcommitLevel (sched.eligible cfg) granted msgs
    let final := loop (grantStep cfg sched.busySenders) round msgs
    Represents cfg sched chosen final.1 ∧
      granted.mapIdx (grantMark cfg) ++ scheduledMarks final.2 =
        chosen.mapIdx (grantMark cfg) := by
  induction msgs generalizing granted round with
  | nil => exact ⟨hrep, by simp [loop, scheduledMarks, greedy]⟩
  | cons msg rest ih =>
    intro chosen final
    have hsplit : scheduledMarks final.2 =
        scheduledMarks [(grantStep cfg sched.busySenders round msg).2] ++
          scheduledMarks (loop (grantStep cfg sched.busySenders)
            (grantStep cfg sched.busySenders round msg).1 rest).2 :=
      scheduledMarks_cons _ _
    cases htakes : takes cfg.overcommitLevel (sched.eligible cfg) granted msg with
    | true =>
      obtain ⟨hnext, hmark⟩ := visit_of_takes hbands hrep htakes
      obtain ⟨hfinal, hmarks⟩ := ih hnext
      have hchosen : chosen = greedy cfg.overcommitLevel (sched.eligible cfg)
          (granted ++ [msg]) rest := by simp only [chosen, greedy, htakes, if_true]
      rw [hchosen]
      refine ⟨hfinal, ?_⟩
      rw [← hmarks, hsplit, hmark, mapIdx_concat, append_assoc]
    | false =>
      obtain ⟨hnext, hmark⟩ := visit_of_not_takes hbands hrep htakes
      obtain ⟨hfinal, hmarks⟩ := ih hnext
      have hchosen : chosen = greedy cfg.overcommitLevel (sched.eligible cfg)
          granted rest := by
        simp only [chosen, greedy, htakes, Bool.false_eq_true, if_false]
      rw [hchosen]
      refine ⟨hfinal, ?_⟩
      rw [← hmarks, hsplit, hmark, nil_append]

end GrantRound

theorem nodup_senders_selection (cfg : Config) (sched : HomaRecvScheduler)
    (msgs : List HomaInboundMsg) :
    ((sched.selection cfg msgs).map getSrcAddress).Nodup := by
  apply greedy_rule (fun granted => (granted.map getSrcAddress).Nodup)
  · intro granted msg hnodup htakes
    have helig := (Bool.and_eq_true_iff.mp htakes).2
    simp only [eligible, Bool.and_eq_true, decide_eq_true_eq] at helig
    obtain ⟨⟨⟨⟨-, hnew⟩, -⟩, -⟩, -⟩ := helig
    rw [map_append, map_singleton]
    exact nodup_append.mpr ⟨hnodup, nodup_singleton _,
      fun sender hsender other hother heq =>
        hnew (mem_singleton.mp hother ▸ heq ▸ hsender)⟩
  · exact nodup_nil

theorem eligible_of_mem_selection {msgs : List HomaInboundMsg} :
    ∀ msg ∈ sched.selection cfg msgs,
      msg.isFullyGranted = false ∧ (msg.offered cfg).isGrantable = true := by
  refine greedy_rule (fun granted : List HomaInboundMsg => ∀ msg ∈ granted,
    msg.isFullyGranted = false ∧ (msg.offered cfg).isGrantable = true) ?_ ?_
  · intro granted msg hprior htakes other hother
    rcases mem_append.mp hother with hold | hnew
    · exact hprior other hold
    · obtain rfl := mem_singleton.mp hnew
      have helig := (Bool.and_eq_true_iff.mp htakes).2
      simp only [eligible, Bool.and_eq_true, Bool.not_eq_true'] at helig
      exact ⟨helig.1.1.1.1, helig.1.2⟩
  · exact fun _ hmem => absurd hmem not_mem_nil

theorem map_mapIdx {Item Mark Seen : Type} (mark : Nat → Item → Mark) (see : Mark → Seen)
    (items : List Item) :
    (items.mapIdx mark).map see = items.mapIdx fun index item => see (mark index item) := by
  simp [mapIdx_eq_zipIdx_map]

theorem map_key_grantMark (msgs : List HomaInboundMsg) :
    (msgs.mapIdx (grantMark cfg)).map Prod.fst = msgs.map HomaInboundMsg.key := by
  rw [map_mapIdx]
  apply ext_getElem?
  intro index
  rw [getElem?_mapIdx, getElem?_map]
  rfl

/-- `SendAppropriateGrants` and the greedy selection: the GRANTs, their priorities and offsets, the
messages left scheduled, the ledgers. -/
structure GreedyRound (cfg : Config) (sched next : HomaRecvScheduler) (sent : List Packet)
    (granted : List HomaInboundMsg) : Prop where
  inOrder : granted.Sublist sched.inboundMsgs
  limit : granted.length ≤ cfg.overcommitLevel
  senders : (granted.map HomaInboundMsg.getSrcAddress).Nodup
  chosen : ∀ front msg back, sched.inboundMsgs = front ++ msg :: back →
    (msg ∈ granted ↔ (sched.selection cfg front).length < cfg.overcommitLevel ∧
      sched.eligible cfg (sched.selection cfg front) msg = true)
  sent_eq : sent = granted.mapIdx fun index msg =>
    msg.grantPacket cfg
      (min (cfg.numUnschedPrioBands + index) (cfg.numTotalPrioBands - 1))
  grants : ∀ index msg, granted[index]? = some msg →
    ∃ packet, sent[index]? = some packet ∧
      packet.hasFlag .grant = true ∧
      packet.ctrlKey = msg.key ∧
      packet.homaHeader.prio =
        min (cfg.numUnschedPrioBands + index) (cfg.numTotalPrioBands - 1) ∧
      packet.homaHeader.grantOffset =
        if msg.hasGrantedData then
          max (msg.maxGrantedIdx + 1) (min msg.maxGrantableIdx (msg.msgSizePkts - 1))
        else 0
  keys_eq : next.inboundMsgs.map HomaInboundMsg.key = sched.inboundMsgs.map HomaInboundMsg.key
  scheduled_eq : (next.inboundMsgs.filter HomaInboundMsg.currentlyScheduled).map
    HomaInboundMsg.key = granted.map HomaInboundMsg.key
  marked : (next.inboundMsgs.filter HomaInboundMsg.currentlyScheduled).map
      (fun msg => (msg.key, msg.maxGrantedIdx, msg.prio)) =
    sent.map fun packet =>
      (packet.ctrlKey, packet.homaHeader.grantOffset, packet.homaHeader.prio)
  credits : ∀ sender, next.sird.creditsInUse sender = sched.sird.creditsInUse sender +
    if cfg.sirdEnabled ∧ sender ∈ granted.map HomaInboundMsg.getSrcAddress then 1 else 0
  global : next.sird.globalCreditsInUsePkts = sched.sird.globalCreditsInUsePkts +
    if cfg.sirdEnabled then granted.length else 0

end HomaRecvScheduler

namespace Receiver

open HomaRecvScheduler

variable {cfg : Config} {receiver : Receiver}

/-- In every reachable state `SendAppropriateGrants` grants the greedy selection. -/
theorem grants_greedily (hbands : GrantRound.Bands cfg)
    (hreach : (machine cfg).Reachable receiver) :
    GreedyRound cfg receiver.sched (receiver.sched.sendAppropriateGrants cfg).1
      (receiver.sched.sendAppropriateGrants cfg).2
      (receiver.sched.selection cfg receiver.sched.inboundMsgs) := by
  have hwf := wellFormed_of_reachable hreach
  obtain ⟨hfinal, hmarks⟩ := GrantRound.represents_loop hbands
    (GrantRound.represents_start hbands receiver.sched) receiver.sched.inboundMsgs
  have hsenders := nodup_senders_selection cfg receiver.sched receiver.sched.inboundMsgs
  have hinOrder : (receiver.sched.selection cfg receiver.sched.inboundMsgs).Sublist
      receiver.sched.inboundMsgs := greedy_sublist [] _
  have hmarked : scheduledMarks (receiver.sched.sendAppropriateGrants cfg).1.inboundMsgs =
      (receiver.sched.selection cfg receiver.sched.inboundMsgs).mapIdx (grantMark cfg) := hmarks
  have hsent : (receiver.sched.sendAppropriateGrants cfg).2 =
      (receiver.sched.selection cfg receiver.sched.inboundMsgs).mapIdx fun index msg =>
        msg.grantPacket cfg (grantPrio cfg index) := hfinal.sent_eq
  refine {
    inOrder := hinOrder
    limit := length_greedy_le
    senders := hsenders
    chosen := ?_
    sent_eq := hsent
    grants := ?_
    keys_eq := loop_map_eq visit_key _ _
    scheduled_eq := ?_
    marked := ?_
    credits := ?_
    global := hfinal.global_eq }
  · intro front msg back hsplit
    have hmsgs := List.Nodup.of_map _ hwf.nodup
    rw [hsplit] at hmsgs
    have hiff : msg ∈ greedy cfg.overcommitLevel (receiver.sched.eligible cfg) []
        (front ++ msg :: back) ↔ takes cfg.overcommitLevel (receiver.sched.eligible cfg)
          (receiver.sched.selection cfg front) msg = true := mem_greedy_iff hmsgs
    rw [takes, Bool.and_eq_true, decide_eq_true_eq] at hiff
    rw [selection, hsplit]
    exact hiff
  · intro index msg hget
    have hmem := mem_of_getElem? hget
    obtain ⟨hleft, hgrant⟩ := eligible_of_mem_selection msg hmem
    refine ⟨msg.grantPacket cfg (grantPrio cfg index), ?_, ?_, key_grantPacket cfg _ msg, rfl, ?_⟩
    · rw [hsent, getElem?_mapIdx, hget]
      rfl
    · exact hasFlag_ctrlPacket _ .grant _ _ _ .grant
    · exact grantOffset_offered (hwf.sound msg (hinOrder.subset hmem)) hleft hgrant
  · have hkeys := congrArg (map Prod.fst) hmarked
    rw [scheduledMarks, map_map, map_key_grantMark] at hkeys
    exact hkeys
  · rw [hsent, map_mapIdx]
    simp only [key_grantPacket]
    exact hmarked
  · intro sender
    have hcnt := hsenders.count (a := sender)
    have hcredits : (receiver.sched.sendAppropriateGrants cfg).1.sird.creditsInUse sender =
      receiver.sched.sird.creditsInUse sender + _ := hfinal.credits_eq sender
    rw [← selection, hcnt] at hcredits
    cases hsird : cfg.sirdEnabled with
    | false => simpa [hsird] using hcredits
    | true => simpa [hsird] using hcredits

/-- A message that has had one GRANT, and one of another sender. -/
theorem grants_greedily_two :
    let cfg : Config :=
      { Config.oneByteSird with overcommitLevel := 2, sirdCreditBudgetPkts := 3 }
    let other : Packet :=
      { samplePacket 3 0 [] with ipv4Header := ⟨3, 2, .ect0⟩ }
    let receiver := (machine cfg).after (fun _ _ => true)
      [.packet (samplePacket 3 0 []), .creditTick, .packet other] (machine cfg).init
    let granted := receiver.sched.selection cfg receiver.sched.inboundMsgs
    granted.map HomaInboundMsg.getSrcAddress = [1, 3] ∧
      GreedyRound cfg receiver.sched (receiver.sched.sendAppropriateGrants cfg).1
        (receiver.sched.sendAppropriateGrants cfg).2 granted ∧
      (receiver.sched.sendAppropriateGrants cfg).2.map
        (fun packet => (packet.homaHeader.prio, packet.homaHeader.grantOffset)) =
          [(2, 1), (3, 0)] := by
  intro cfg other receiver granted
  have hreach : (machine cfg).Reachable receiver :=
    ReachableUnder.after (fun _ _ _ => trivial) _ .init
  have hround := grants_greedily ⟨by decide, by decide⟩ hreach
  exact ⟨by decide +kernel, hround, by decide +kernel⟩

end Receiver

end HomaSird.Homa
