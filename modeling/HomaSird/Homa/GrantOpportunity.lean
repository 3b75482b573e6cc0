import HomaSird.Homa.ReceiverStep

/-! # Grant opportunities and credit ticks

`HasGrantOpportunity` and the granting loop are two traversals of the same messages. In the states
a SIRD receiver reaches they agree, and a credit tick is pending whenever the loop would grant
something.
-/

namespace HomaSird.Homa

open Transition Transition.Machine List

/-! ## What one look at a message depends on -/

namespace HomaInboundMsg

@[simp] theorem isFullyGranted_setCurrentlyScheduled (msg : HomaInboundMsg) (scheduled : Bool) :
    (msg.setCurrentlyScheduled scheduled).isFullyGranted = msg.isFullyGranted := rfl

@[simp] theorem isGrantable_setCurrentlyScheduled (msg : HomaInboundMsg) (scheduled : Bool) :
    (msg.setCurrentlyScheduled scheduled).isGrantable = msg.isGrantable := rfl

@[simp] theorem getSrcAddress_setCurrentlyScheduled (msg : HomaInboundMsg) (scheduled : Bool) :
    (msg.setCurrentlyScheduled scheduled).getSrcAddress = msg.getSrcAddress := rfl

end HomaInboundMsg

namespace SirdState

structure SameBuckets (before after : SirdState) : Prop where
  credits_eq : ∀ senderKey, after.creditsInUse senderKey = before.creditsInUse senderKey
  net_eq : after.senderBudgetNetPkts = before.senderBudgetNetPkts
  host_eq : after.senderBudgetHostPkts = before.senderBudgetHostPkts
  global_eq : after.globalCreditsInUsePkts = before.globalCreditsInUsePkts

variable {before after : SirdState}

theorem SameBuckets.openAccount (hsame : SameBuckets before after) (senderKey : Ipv4Address) :
    SameBuckets before (after.openAccount senderKey) := by
  refine ⟨fun other => ?_, hsame.net_eq, hsame.host_eq, hsame.global_eq⟩
  rw [← hsame.credits_eq other]
  unfold SirdState.openAccount creditsInUse initEntry
  dsimp only
  split
  next hnone =>
    rw [UnorderedMap.getD_insert]
    split
    next hkey => rw [hkey, UnorderedMap.getD, hnone, Option.getD_none]
    · rfl
  · rfl

theorem SameBuckets.hasCredit_eq (cfg : Config) (hsame : SameBuckets before after) (senderKey :
    Ipv4Address) : after.hasCredit cfg senderKey = before.hasCredit cfg senderKey := by
  unfold hasCredit senderBudgetPkts
  rw [hsame.credits_eq, hsame.net_eq, hsame.host_eq, hsame.global_eq]

theorem hasCredit_initial (cfg : Config)
    (senderKey : Ipv4Address) : initial.hasCredit cfg senderKey = true := by
  have hbase : (1 : ℚ) ≤ cfg.baseBudgetPkts := by
    exact_mod_cast Nat.le_max_left 1 cfg.rttPackets
  have hfloor : (1 : ℤ) ≤ (cfg.baseBudgetPkts : ℚ).floor :=
    Rat.le_floor_iff.mpr (by exact_mod_cast hbase)
  have hglobal : 0 < cfg.globalBudgetPkts := Nat.le_max_left 1 cfg.sirdCreditBudgetPkts
  have hsender : 0 < initial.senderBudgetPkts cfg senderKey := by
    simp only [senderBudgetPkts, initial, UnorderedMap.getD_empty, min_self, max_eq_right hbase]
    omega
  have hzero : initial.creditsInUse senderKey = 0 := rfl
  rw [hasCredit, hzero, decide_eq_true hsender]
  exact decide_eq_true hglobal

end SirdState

namespace HomaRecvScheduler

variable {cfg : Config} {sched next : HomaRecvScheduler}

def wouldGrant (cfg : Config) (sched : HomaRecvScheduler) (msg : HomaInboundMsg) : Bool :=
  !msg.isFullyGranted && decide (msg.getSrcAddress ∉ sched.busySenders) &&
    if cfg.sirdEnabled then sched.sird.hasCredit cfg msg.getSrcAddress
    else msg.isGrantable

namespace GrantRound

structure Idle (cfg : Config) (sched : HomaRecvScheduler) (round : GrantRound) : Prop where
  sent_eq : round.sent = []
  grantedSenders_eq : round.grantedSenders = ∅
  overcommitDue_eq : round.overcommitDue = cfg.overcommitLevel
  buckets : SirdState.SameBuckets sched.sird round.sird

theorem idle_start (cfg : Config)
    (sched : HomaRecvScheduler) : (start cfg sched.sird).Idle cfg sched :=
  ⟨rfl, rfl, rfl, fun _ => rfl, rfl, rfl, rfl⟩

section

variable {round : GrantRound} (hidle : round.Idle cfg sched)
include hidle

theorem considers_of_idle (msg : HomaInboundMsg) :
    round.considers sched.busySenders msg = (decide (0 < cfg.overcommitLevel) &&
        !msg.isFullyGranted && decide (msg.getSrcAddress ∉ sched.busySenders)) := by
  simp [considers, hidle.grantedSenders_eq, hidle.overcommitDue_eq]

variable {msg : HomaInboundMsg}

theorem idle_grantStep (hnone : cfg.overcommitLevel = 0 ∨ sched.wouldGrant cfg msg = false) :
    (grantStep cfg sched.busySenders round msg).1.Idle cfg sched := by
  have hclamp : (round.clampPrio cfg).Idle cfg sched :=
    ⟨by simpa using hidle.sent_eq, by simpa using hidle.grantedSenders_eq,
      by simpa using hidle.overcommitDue_eq, by simpa using hidle.buckets⟩
  -- a grant needs overcommitment, and then the message would be granted
  have hrefuse : (round.clampPrio cfg).considers sched.busySenders msg = true →
      (if cfg.sirdEnabled then sched.sird.hasCredit cfg msg.getSrcAddress
        else msg.isGrantable) = true → False := by
    intro hcons hgrant
    rw [considers_of_idle hclamp] at hcons
    simp only [Bool.and_eq_true, decide_eq_true_eq] at hcons
    obtain ⟨⟨hover, hleft⟩, hidleSender⟩ := hcons
    rcases hnone with hzero | hnot
    · omega
    · rw [wouldGrant, hgrant, hleft, decide_eq_true hidleSender] at hnot
      cases hnot
  have hvisit := grantStep_visit cfg sched.busySenders round msg
  revert hvisit
  generalize (grantStep cfg sched.busySenders round msg).1 = after
  generalize (grantStep cfg sched.busySenders round msg).2 = visited
  intro hvisit
  cases hvisit with
  | pass => exact hclamp
  | hold =>
    exact ⟨hclamp.sent_eq, hclamp.grantedSenders_eq, hclamp.overcommitDue_eq,
      hidle.buckets.openAccount _⟩
  | homaGrant hplain hcons hgrantable =>
    refine (hrefuse hcons ?_).elim
    rw [hplain]
    exact hgrantable
  | sirdGrant hsird _ hcons hcredit _ =>
    refine (hrefuse hcons ?_).elim
    rw [hsird, if_pos rfl, ← (hidle.buckets.openAccount _).hasCredit_eq cfg]
    exact hcredit

theorem sent_grantStep (hsound : msg.Sound cfg)
    (hover : 0 < cfg.overcommitLevel) (hgrant : sched.wouldGrant cfg msg = true) :
    (grantStep cfg sched.busySenders round msg).1.sent ≠ [] := by
  simp only [wouldGrant, Bool.and_eq_true, decide_eq_true_eq] at hgrant
  obtain ⟨⟨hleft, hidleSender⟩, hmode⟩ := hgrant
  have hungrantedEq : msg.isFullyGranted = false := by simpa using hleft
  have hcons : round.considers sched.busySenders (msg.setCurrentlyScheduled false) = true := by
    rw [considers_of_idle hidle]
    simp [hover, hungrantedEq, hidleSender]
  unfold grantStep
  split
  next hsird =>
    rw [if_pos hsird] at hmode
    have hcredit : (round.sird.openAccount msg.getSrcAddress).hasCredit cfg
        msg.getSrcAddress = true := by
      rw [(hidle.buckets.openAccount _).hasCredit_eq cfg]
      exact hmode
    have hopened := HomaInboundMsg.isGrantable_advanceGrantableWindow
      (HomaInboundMsg.sound_setCurrentlyScheduled hsound false) hungrantedEq
    simp only [sirdStep, clampPrio_considers, hcons, if_true, clampPrio_sird,
      HomaInboundMsg.getSrcAddress_setCurrentlyScheduled, hcredit]
    by_cases hgrantable : msg.isGrantable = true
    · simp [hgrantable, issue]
    · simp [hgrantable, hopened, issue]
  next hplain =>
    rw [if_neg hplain] at hmode
    simp [homaStep, hcons, hmode, issue]

theorem idle_loop {msgs : List HomaInboundMsg}
    (hnone : cfg.overcommitLevel = 0 ∨ ∀ msg ∈ msgs, sched.wouldGrant cfg msg = false) :
    (loop (grantStep cfg sched.busySenders) round msgs).1.Idle cfg sched := by
  induction msgs generalizing round with
  | nil => exact hidle
  | cons msg rest ih =>
    have hhere := hnone.imp_right fun hall => hall msg mem_cons_self
    have hlater := hnone.imp_right fun hall other hother =>
      hall other (.tail _ hother)
    exact ih (idle_grantStep hidle hhere) hlater

theorem sent_loop {msgs : List HomaInboundMsg} (hsound : ∀ msg ∈ msgs, msg.Sound cfg) (hover :
    0 < cfg.overcommitLevel) (hmem : msg ∈ msgs) (hgrant : sched.wouldGrant cfg msg = true) :
    (loop (grantStep cfg sched.busySenders) round msgs).1.sent ≠ [] := by
  induction msgs generalizing round with
  | nil => cases hmem
  | cons head rest ih =>
    have hhead := hsound head mem_cons_self
    rw [loop]
    by_cases hfst : sched.wouldGrant cfg head = true
    · -- the head is granted, and what was sent stays sent
      have hsent := sent_grantStep hidle hhead hover hfst
      intro hempty
      have hmono : (grantStep cfg sched.busySenders round head).1.sent <+:
          (loop (grantStep cfg sched.busySenders)
            (grantStep cfg sched.busySenders round head).1 rest).1.sent :=
        loop_sent_mono rest _
      rw [hempty, prefix_nil] at hmono
      exact hsent hmono
    · have hnext := idle_grantStep hidle (Or.inr (by simpa using hfst))
      rcases mem_cons.mp hmem with rfl | hlater
      · exact (hfst hgrant).elim
      · exact ih hnext (fun other hother => hsound other (.tail _ hother)) hlater

end

theorem sird_loop (hplain : cfg.sirdEnabled = false)
    {busySenders : Finset Ipv4Address} (msgs : List HomaInboundMsg) {round : GrantRound} :
    (loop (grantStep cfg busySenders) round msgs).1.sird = round.sird := by
  induction msgs generalizing round with
  | nil => rfl
  | cons msg rest ih =>
    rw [loop]
    refine ih.trans ?_
    have hvisit := grantStep_visit cfg busySenders round msg
    revert hvisit
    generalize (grantStep cfg busySenders round msg).1 = after
    generalize (grantStep cfg busySenders round msg).2 = visited
    intro hvisit
    cases hvisit with
    | pass => exact clampPrio_sird round
    | hold hsird => cases hplain.symm.trans hsird
    | homaGrant => exact clampPrio_sird round
    | sirdGrant hsird => cases hplain.symm.trans hsird

end GrantRound

theorem sent_ne_nil_iff (hwf : sched.WellFormed cfg) :
    (sched.sendAppropriateGrants cfg).2 ≠ [] ↔
    0 < cfg.overcommitLevel ∧ ∃ msg ∈ sched.inboundMsgs, sched.wouldGrant cfg msg = true := by
  have hidle := GrantRound.idle_start cfg sched
  constructor
  · intro hsent
    by_contra hnone
    have hrefuse : cfg.overcommitLevel = 0 ∨
        ∀ msg ∈ sched.inboundMsgs, sched.wouldGrant cfg msg = false := by
      rcases Nat.eq_zero_or_pos cfg.overcommitLevel with hzero | hover
      · exact Or.inl hzero
      · right
        intro msg hmem
        by_contra hgrant
        exact hnone ⟨hover, msg, hmem, by simpa using hgrant⟩
    exact hsent (GrantRound.idle_loop hidle hrefuse).sent_eq
  · rintro ⟨hover, msg, hmem, hgrant⟩
    exact GrantRound.sent_loop hidle hwf.sound hover hmem hgrant

/-! ## Agreement with `HasGrantOpportunity` -/

theorem hasGrantOpportunity_iff (cfg : Config) (sched : HomaRecvScheduler) :
    sched.hasGrantOpportunity cfg = true ↔
      ∃ msg ∈ sched.inboundMsgs,
        msg.isFullyGranted = false ∧ msg.getSrcAddress ∉ sched.busySenders ∧
          sched.sird.hasCredit cfg msg.getSrcAddress = true := by
  simp only [hasGrantOpportunity, canGrant, SirdState.hasCredit, Bool.and_eq_true,
    decide_eq_true_eq, any_eq_true, Bool.not_eq_true']
  constructor
  · rintro ⟨hglobal, msg, hmem, ⟨hleft, hidle⟩, hcredit⟩
    exact ⟨msg, hmem, hleft, hidle, hcredit, hglobal⟩
  · rintro ⟨msg, hmem, hleft, hidle, hcredit, hglobal⟩
    exact ⟨hglobal, msg, hmem, ⟨hleft, hidle⟩, hcredit⟩

theorem wouldGrant_eq_true_iff {msg : HomaInboundMsg} :
    sched.wouldGrant cfg msg = true ↔
      msg.isFullyGranted = false ∧ msg.getSrcAddress ∉ sched.busySenders ∧
        (if cfg.sirdEnabled then sched.sird.hasCredit cfg msg.getSrcAddress else msg.isGrantable) =
          true := by
  simp only [wouldGrant, Bool.and_eq_true, decide_eq_true_eq, Bool.not_eq_true', and_assoc]

end HomaRecvScheduler

namespace Receiver

open HomaRecvScheduler

variable {cfg : Config}

/-- In a reachable SIRD receiver the grant-opportunity test and the granting
loop agree. -/
theorem hasGrantOpportunity_iff_sent (hsird : cfg.sirdEnabled = true)
    (hover : 1 ≤ cfg.overcommitLevel) {receiver : Receiver}
    (hreachable : (machine cfg).Reachable receiver) :
    receiver.sched.hasGrantOpportunity cfg = true ↔
      (receiver.sched.sendAppropriateGrants cfg).2 ≠ [] := by
  have hwf := wellFormed_of_reachable hreachable
  rw [sent_ne_nil_iff hwf, hasGrantOpportunity_iff]
  simp only [wouldGrant_eq_true_iff, hsird, if_true]
  constructor
  · rintro ⟨msg, hmem, hgrant⟩
    exact ⟨hover, msg, hmem, hgrant⟩
  · rintro ⟨-, msg, hmem, hgrant⟩
    exact ⟨msg, hmem, hgrant⟩

theorem hasGrantOpportunity_iff_sent_request :
    let receiver := (machine Config.oneByteSird).after (fun _ _ => true)
      [.packet (samplePacket 3 0 [])] (machine Config.oneByteSird).init
    receiver.sched.hasGrantOpportunity Config.oneByteSird = true ∧
      (receiver.sched.sendAppropriateGrants Config.oneByteSird).2 ≠ [] := by
  intro receiver
  have hreachable : (machine Config.oneByteSird).Reachable receiver :=
    ReachableUnder.after (fun _ _ _ => trivial) _ .init
  have hopportunity : receiver.sched.hasGrantOpportunity Config.oneByteSird = true := by
    decide +kernel
  exact ⟨hopportunity, (hasGrantOpportunity_iff_sent rfl (by decide) hreachable).mp hopportunity⟩

/-! ## A credit tick is pending -/

variable {sched next : HomaRecvScheduler}

theorem sird_handle_of_plain (hplain : cfg.sirdEnabled = false)
    (hwf : sched.WellFormed cfg) {input : RecvInput} {events : List Event}
    (hhandle : sched.handle cfg input = .ok (next, events)) : next.sird = sched.sird := by
  cases handled hwf hhandle with
  | data _ hgot =>
    rw [hgot.sird_eq, fedSird, hplain]
    rfl
  | control _ _ hsird => exact hsird
  | creditTick hnext =>
    subst hnext
    exact GrantRound.sird_loop hplain sched.inboundMsgs
  | rtxExpire hexpired =>
    cases hexpired with
    | dropped _ _ hnext => rw [hnext]
    | rearmed _ _ _ hnext => rw [hnext]

theorem sird_of_plain (hplain : cfg.sirdEnabled = false) {allowed : Receiver → RecvInput → Prop}
    {receiver : Receiver} (hreach : (machine cfg).ReachableUnder allowed receiver) :
    receiver.sched.sird = .initial := by
  apply hreach.invariant_of (fun _ => wellFormed_of_reachable)
  · rfl
  · intro state input next hwf hsird _ hstep
    obtain ⟨events, hhandle, -⟩ := step_eq_ok hstep
    rw [sird_handle_of_plain hplain hwf hhandle, hsird]

theorem hasGrantOpportunity_of_sent {sched : HomaRecvScheduler} (hwf : sched.WellFormed cfg)
    (hplain : cfg.sirdEnabled = false → sched.sird = .initial) (hsent :
    (sched.sendAppropriateGrants cfg).2 ≠ []) : sched.hasGrantOpportunity cfg = true := by
  obtain ⟨-, msg, hmem, hgrant⟩ := (sent_ne_nil_iff hwf).mp hsent
  obtain ⟨hleft, hidle, hmode⟩ := wouldGrant_eq_true_iff.mp hgrant
  refine (hasGrantOpportunity_iff cfg sched).mpr ⟨msg, hmem, hleft, hidle, ?_⟩
  by_cases hsird : cfg.sirdEnabled = true
  · rwa [if_pos hsird] at hmode
  · rw [hplain (by simpa using hsird)]
    exact SirdState.hasCredit_initial cfg _

theorem frame_of_quiet_visit {busySenders : Finset Ipv4Address} {before after : GrantRound}
    {prior msg : HomaInboundMsg} (hvisit : GrantRound.Visit cfg busySenders before prior after msg)
    (hquiet : after.sent = []) :
    msg.isFullyGranted = prior.isFullyGranted ∧ msg.getSrcAddress = prior.getSrcAddress ∧
      (cfg.sirdEnabled = false → msg.isGrantable = prior.isGrantable) := by
  cases hvisit with
  | pass => exact ⟨rfl, rfl, fun _ => rfl⟩
  | hold hsird hopened =>
    obtain ⟨grantable, rfl⟩ := opened_frame hopened
    exact ⟨rfl, rfl, fun hplain => by cases hplain.symm.trans hsird⟩
  | homaGrant => simp [GrantRound.issue] at hquiet
  | sirdGrant => simp [GrantRound.issue] at hquiet

theorem sent_eq_nil_of_quiet (hwf : sched.WellFormed cfg)
    (hnext : next.WellFormed cfg) (hquiet : (sched.sendAppropriateGrants cfg).2 = [])
    (hmsgs : next.inboundMsgs = (sched.sendAppropriateGrants cfg).1.inboundMsgs)
    (hbusy : next.busySenders = sched.busySenders) (hsird : next.sird =
    (sched.sendAppropriateGrants cfg).1.sird) : (next.sendAppropriateGrants cfg).2 = [] := by
  by_contra hsent
  obtain ⟨hover, msg, hmem, hgrant⟩ := (sent_ne_nil_iff hnext).mp hsent
  rw [hmsgs] at hmem
  obtain ⟨prior, hprior, before, after, hvisit, hmono⟩ := GrantRound.mem_loop hmem
  have hafter : after.sent = [] := prefix_nil.mp (hquiet ▸ hmono)
  obtain ⟨hfully, hsource, hgrantable⟩ := frame_of_quiet_visit hvisit hafter
  -- the round granted nothing, so nothing in it would have been granted
  have hrefuse : ∀ other ∈ sched.inboundMsgs, sched.wouldGrant cfg other = false := by
    intro other hother
    by_contra hother'
    exact (sent_ne_nil_iff hwf).mpr ⟨hover, other, hother, by simpa using hother'⟩ hquiet
  have hbuckets := (GrantRound.idle_loop (GrantRound.idle_start cfg sched)
    (Or.inr hrefuse)).buckets
  have hcredit := hbuckets.hasCredit_eq cfg prior.getSrcAddress
  have hprevious := hrefuse prior hprior
  have hwould : sched.wouldGrant cfg prior = true := by
    rw [wouldGrant_eq_true_iff] at hgrant ⊢
    rw [hfully, hsource, hbusy, hsird] at hgrant
    refine ⟨hgrant.1, hgrant.2.1, ?_⟩
    have hmode := hgrant.2.2
    split at hmode
    next hon =>
      rw [if_pos hon, ← hcredit]
      exact hmode
    next hoff =>
      rw [if_neg hoff, ← hgrantable (by simpa using hoff)]
      exact hmode
  rw [hwould] at hprevious
  cases hprevious

theorem sent_of_expired (hwf : sched.WellFormed cfg) (hnext : next.WellFormed cfg) {timer : Nat}
    {events : List Event} (hexp : Expired cfg sched timer next events)
    (hsent : (next.sendAppropriateGrants cfg).2 ≠ []) :
    next.creditTickPending = sched.creditTickPending ∧
      (sched.sendAppropriateGrants cfg).2 ≠ [] := by
  obtain ⟨hover, msg, hmem, hgrant⟩ := (sent_ne_nil_iff hnext).mp hsent
  cases hexp with
  | dropped _ _ heq =>
    subst heq
    have hprior := mem_of_mem_eraseIdx hmem
    exact ⟨rfl, (sent_ne_nil_iff hwf).mpr ⟨hover, msg, hprior, hgrant⟩⟩
  | @rearmed expired _ hexp _ _ heq =>
    subst heq
    rcases mem_or_eq_of_mem_set hmem with hold | rfl
    · exact ⟨rfl, (sent_ne_nil_iff hwf).mpr ⟨hover, msg, hold, hgrant⟩⟩
    · have hprior := mem_of_getElem? hexp
      exact ⟨rfl, (sent_ne_nil_iff hwf).mpr ⟨hover, expired, hprior, hgrant⟩⟩

def Ticking (cfg : Config) (receiver : Receiver) : Prop :=
  (receiver.sched.sendAppropriateGrants cfg).2 ≠ [] → receiver.sched.creditTickPending = true

theorem ticking_of_reachable {receiver : Receiver}
    (hreach : (machine cfg).Reachable receiver) : receiver.Ticking cfg := by
  apply hreach.invariant_of
    (fun _ hst => And.intro (wellFormed_of_reachable hst) fun hplain =>
      sird_of_plain hplain hst)
  · intro hsent
    exact (hsent rfl).elim
  · intro state input next hknown hpend _ hstep hsent
    obtain ⟨hwf, hplain⟩ := hknown
    obtain ⟨events, hhandle, -⟩ := step_eq_ok hstep
    have hnext := wellFormed_handle hwf hhandle
    have hopportunity : next.sched.hasGrantOpportunity cfg = true :=
      hasGrantOpportunity_of_sent hnext (fun hoff =>
        (sird_handle_of_plain hoff hwf hhandle).trans (hplain hoff)) hsent
    cases handled hwf hhandle with
    -- every arriving packet makes sure that a tick is scheduled
    | data _ hgot => rw [hgot.creditTickPending_eq, hopportunity, Bool.or_true]
    | control _ _ _ htick => rw [htick, hopportunity, Bool.or_true]
    | creditTick heq =>
      by_cases hquiet : (state.sched.sendAppropriateGrants cfg).2 = []
      · exact (hsent (sent_eq_nil_of_quiet hwf hnext hquiet (by rw [heq]; rfl)
          (by rw [heq]; rfl) (by rw [heq]; rfl))).elim
      · have hgrant : (state.sched.sendAppropriateGrants cfg).1.hasGrantOpportunity
            cfg = true := by
          rw [heq] at hopportunity
          exact hopportunity
        rw [heq]
        simp only [creditTick, hgrant, Bool.and_true, Bool.not_eq_true']
        exact isEmpty_eq_false_iff.mpr hquiet
    | rtxExpire hexpired =>
      obtain ⟨hsame, hpre⟩ := sent_of_expired hwf hnext hexpired hsent
      rw [hsame]
      exact hpend hpre

/-- A credit tick is pending whenever the granting loop would send a GRANT, in both modes and for
every configuration. -/
theorem creditTick_pending_of_sent {receiver : Receiver}
    (hreachable : (machine cfg).Reachable receiver)
    (hsent : (receiver.sched.sendAppropriateGrants cfg).2 ≠ []) :
    receiver.sched.creditTickPending = true :=
  ticking_of_reachable hreachable hsent

theorem creditTick_pending_of_sent_request :
    let receiver := (machine Config.oneByteSird).after (fun _ _ => true)
      [.packet (samplePacket 3 0 [])] (machine Config.oneByteSird).init
    (receiver.sched.sendAppropriateGrants Config.oneByteSird).2 ≠ [] ∧
      receiver.sched.creditTickPending = true := by
  intro receiver
  have hreachable : (machine Config.oneByteSird).Reachable receiver :=
    ReachableUnder.after (fun _ _ _ => trivial) _ .init
  have hsent : (receiver.sched.sendAppropriateGrants Config.oneByteSird).2 ≠ [] := by
    decide +kernel
  exact ⟨hsent, creditTick_pending_of_sent hreachable hsent⟩

end Receiver

end HomaSird.Homa
