import HomaSird.Homa.GrantHistory

/-! # One credit exposes one packet

A GRANT costs one credit. It grants one packet more as long as the arrival of data has not
moved the window of the message past the next packet.
-/

namespace HomaSird.Homa

open Transition Transition.Machine HomaRecvScheduler List

namespace HomaInboundMsg

variable {cfg : Config} {prior msg : HomaInboundMsg}

/-- How many packets the sender of a message may transmit without a GRANT. -/
def unscheduledPkts (cfg : Config) (msg : HomaInboundMsg) : Nat :=
  if isLongSirdMsg cfg msg.msgSizePkts then 0 else unscheduledIdx cfg msg.msgSizePkts + 1

/-- A GRANT grants one packet more: the window ends no further than the next packet. -/
def exposesOne (msg : HomaInboundMsg) : Bool :=
  !msg.hasGrantedData ||
    decide (min msg.maxGrantableIdx (msg.msgSizePkts - 1) ≤ msg.maxGrantedIdx + 1)

theorem unscheduledPkts_eq (hsz : msg.msgSizePkts = prior.msgSizePkts) :
    msg.unscheduledPkts cfg = prior.unscheduledPkts cfg ∧
    msg.openingGrant cfg = prior.openingGrant cfg := by
  rw [unscheduledPkts, openingGrant, hsz]
  exact ⟨rfl, rfl⟩

theorem length_grantedOffsets (msg : HomaInboundMsg) :
    msg.grantedOffsets.length = if msg.hasGrantedData then msg.maxGrantedIdx + 1 else 0 := by
  unfold grantedOffsets
  split
  · exact length_range
  · rfl

structure OneByOne (cfg : Config) (log : List Nat) (msg : HomaInboundMsg) (credits : Nat) :
    Prop where
  log_eq : log = msg.openingGrant cfg ++ List.range' (msg.unscheduledPkts cfg) credits
  length_eq : msg.grantedOffsets.length = msg.unscheduledPkts cfg + credits

theorem OneByOne.sends {log : List Nat} {credits : Nat} {own : List Packet}
    (hone : OneByOne cfg log prior credits) (hsz : msg.msgSizePkts = prior.msgSizePkts)
    (hsends : GrantRound.Sends prior msg own) (hexposes : own = [] ∨ prior.exposesOne = true) :
    ∃ more,
      own.length = more ∧
        OneByOne cfg (log ++ own.filterMap (grantOf prior.key)) msg (credits + more) := by
  obtain ⟨hunscheduled, hopen⟩ := @unscheduledPkts_eq cfg prior msg hsz
  have hlen := hone.length_eq
  rw [length_grantedOffsets] at hlen
  cases hsends with
  | nothing hdata hgranted =>
    refine ⟨0, rfl, ?_, ?_⟩
    · rw [filterMap_nil, append_nil, add_zero, hunscheduled, hopen]
      exact hone.log_eq
    · rw [length_grantedOffsets, hdata, hgranted, hunscheduled]
      exact hlen
  | grant hgrant _ hdata _ hnext =>
    have hone' := hexposes.resolve_left (cons_ne_nil _ _)
    -- the granted offset is the one after those granted before
    have hoff : msg.maxGrantedIdx = prior.unscheduledPkts cfg + credits := by
      rw [← hlen, hnext]
      cases hprior : prior.hasGrantedData with
      | true =>
        simp only [exposesOne, hprior, Bool.not_true, Bool.false_or, decide_eq_true_eq]
          at hone'
        simp only [if_true]
        omega
      | false => rfl
    refine ⟨1, rfl, ?_, ?_⟩
    · rw [filterMap_cons_some hgrant, filterMap_nil, hone.log_eq, hunscheduled,
        hopen, append_assoc, range'_concat, one_mul, ← hoff]
    · rw [length_grantedOffsets, if_pos hdata, hunscheduled, hoff]
      omega

theorem oneByOne_created {packet : Packet} {created : HomaInboundMsg}
    (hcreate : create cfg packet = .ok created) :
    OneByOne cfg (created.openingGrant cfg) created 0 := by
  have hblank : OneByOne cfg ((blank cfg packet).openingGrant cfg)
      (blank cfg packet) 0 := by
    refine ⟨(append_nil _).symm, ?_⟩
    rw [length_grantedOffsets, unscheduledPkts]
    cases hlong : isLongSirdMsg cfg (packetCount packet.homaHeader.msgSizeBytes
        cfg.maxPayloadSize) with
    | true => simp [blank, hlong]
    | false => simp [blank, hlong]
  rcases create_eq_ok hcreate with ⟨-, rfl⟩ | ⟨-, -, rfl⟩
  · exact hblank
  · exact ⟨hblank.log_eq, hblank.length_eq⟩

/-! ## Messages whose window only credits open -/

def NextOnly (msg : HomaInboundMsg) : Prop :=
  msg.creditDrivenGrantWindow = true → msg.maxGrantableIdx ≤ msg.maxGrantedIdx + 1

theorem exposesOne_of_nextOnly (hnext : msg.NextOnly)
    (hdriven : msg.creditDrivenGrantWindow = true) : msg.exposesOne = true := by
  have hle := hnext hdriven
  rw [exposesOne, Bool.or_eq_true, decide_eq_true_eq]
  exact .inr ((Nat.min_le_left _ _).trans hle)

theorem nextOnly_opened (hsound : prior.Sound cfg)
    (hnext : prior.NextOnly) (hopened : GrantRound.Opened cfg prior msg) : msg.NextOnly := by
  cases hopened with
  | asIs => exact hnext
  | byCredit _ hleft =>
    rw [advanceGrantableWindow_eq (sound_setCurrentlyScheduled hsound false) hleft]
    intro hdriven
    have hle := hnext hdriven
    cases hdata : prior.hasGrantedData with
    | true =>
      simp only [setCurrentlyScheduled, hdata, if_true]
      omega
    | false =>
      simp only [setCurrentlyScheduled, hdata, Bool.false_eq_true, if_false]
      exact hle

theorem nextOnly_generateGrant (hsound : msg.Sound cfg) (prio : Nat)
    (scheduled : Bool) : ((msg.generateGrant prio).2.setCurrentlyScheduled scheduled).NextOnly := by
  have hle := hsound.grantable_le
  intro _
  simp only [setCurrentlyScheduled, generateGrant]
  rw [hsound.grantOffset_eq]
  omega

theorem nextOnly_moved {input : RecvInput} (hsound : prior.Sound cfg)
    (hnext : prior.NextOnly) (hmoved : Moved cfg input prior msg) : msg.NextOnly := by
  cases hmoved with
  | idle => exact hnext
  | receive _ _ _ hrecv =>
    rcases receiveDataPacket_eq_ok hrecv with ⟨rfl, -⟩ | ⟨rfl, -, -⟩
    · exact hnext
    · rw [openWindow_eq (sound_store hsound)]
      intro hdriven
      have hle := hnext hdriven
      dsimp only at hdriven ⊢
      rw [if_pos (.inl hdriven)]
      exact hle
  | visit _ hvisit =>
    cases hvisit with
    | pass => exact hnext
    | hold _ hopened => exact nextOnly_opened hsound hnext hopened
    | homaGrant =>
      exact nextOnly_generateGrant (sound_setCurrentlyScheduled hsound false) _ true
    | sirdGrant _ hopened =>
      exact nextOnly_generateGrant (sound_opened hsound hopened) _ true
  | rearm => exact hnext

theorem nextOnly_created {packet : Packet} {created : HomaInboundMsg}
    (hcreate : create cfg packet = .ok created) : created.NextOnly := by
  have hblank : (blank cfg packet).NextOnly := by
    intro hdriven
    simp only [blank] at hdriven ⊢
    rw [if_pos hdriven, if_pos hdriven]
    exact Nat.zero_le _
  rcases create_eq_ok hcreate with ⟨-, rfl⟩ | ⟨-, -, rfl⟩
  · exact hblank
  · exact hblank

end HomaInboundMsg

theorem Receiver.nextOnly_of_reachable {cfg : Config}
    {receiver : Receiver} (hreach : (Receiver.machine cfg).Reachable receiver) :
    ∀ msg ∈ receiver.sched.inboundMsgs, msg.NextOnly := by
  apply hreach.invariant_of (fun _ => wellFormed_of_reachable)
  · intro msg hmem
    cases hmem
  · intro state input next hwf hnext _ hstep msg hmem
    obtain ⟨events, hhandle, -⟩ := step_eq_ok hstep
    rcases handle_moved hwf hhandle hmem with ⟨prior, hprior, hmoved⟩ | hstart
    · exact HomaInboundMsg.nextOnly_moved (hwf.sound prior hprior) (hnext prior hprior) hmoved
    · obtain ⟨packet, created, -, -, hcreate, rfl⟩ := hstart.origin
      have hmade := HomaInboundMsg.nextOnly_created hcreate
      exact hmade

namespace GrantLog

variable {cfg : Config} {state : GrantLog}

def OneOffsetEach (cfg : Config) (state : GrantLog) : Prop :=
  ∀ msg ∈ state.receiver.sched.inboundMsgs, ∃ credits,
    HomaInboundMsg.OneByOne cfg (state.granted msg.key) msg credits

/-- One GRANT grants one offset if credit ticks grant only messages whose window ends at the next
packet, as one that only credits open does. -/
theorem oneOffsetEach_of_exposesOne :
    ((machine cfg).ReachableUnder
      (fun state input => ticksOnly cfg HomaInboundMsg.exposesOne state.receiver.sched input = true)
      state →
      state.OneOffsetEach cfg) ∧
      ((machine cfg).Reachable state →
        ∀ msg ∈ state.receiver.sched.inboundMsgs,
          msg.creditDrivenGrantWindow = true → msg.exposesOne = true) := by
  constructor
  · intro hreachable
    induction hreachable with
    | init =>
      intro msg hmem
      cases hmem
    | @step before next input hprior hcheck hstep ih =>
      obtain ⟨events, hhandle, -, hgranted⟩ := step_eq_ok hstep
      have hwf := Receiver.wellFormed_of_reachable (reachable_receiver hprior)
      intro msg hmem
      rw [hgranted]
      have hadvanced := advanced_of_handle hwf hcheck hhandle hmem before.granted
      generalize note cfg _ _ _ events msg.key = later at hadvanced ⊢
      cases hadvanced with
      | kept hpre hkey hsz hsends hexposes =>
        obtain ⟨credits, hone⟩ := ih _ hpre
        obtain ⟨more, -, hmore⟩ := hone.sends hsz hsends hexposes
        exact ⟨credits + more, hkey ▸ hmore⟩
      | opened hcreate hmsg =>
        have hone := HomaInboundMsg.oneByOne_created hcreate
        subst hmsg
        exact ⟨0, hone.log_eq, hone.length_eq⟩
  · intro hreachable msg hmem hdriven
    have hnext := Receiver.nextOnly_of_reachable (reachable_receiver hreachable) msg hmem
    exact HomaInboundMsg.exposesOne_of_nextOnly hnext hdriven

def defaultSird : Config := { Config.oneByte with sirdEnabled := true }

theorem oneOffsetEach_twelve :
    let state := (machine defaultSird).after (fun state input =>
        ticksOnly defaultSird HomaInboundMsg.exposesOne state.receiver.sched input)
      [.packet (samplePacket 12 0 [7]), .creditTick] (machine defaultSird).init
    state.OneOffsetEach defaultSird ∧ state.granted ⟨1, 2, 5, 6, 0⟩ = [9, 10] := by
  intro state
  have hreachable : (machine defaultSird).ReachableUnder (fun state input =>
      ticksOnly defaultSird HomaInboundMsg.exposesOne state.receiver.sched input = true) state :=
    ReachableUnder.after (fun _ _ hcheck => hcheck) _ .init
  exact ⟨oneOffsetEach_of_exposesOne.1 hreachable, by decide +kernel⟩

def twoArrivals : GrantLog :=
  (machine defaultSird).after (fun _ _ => true)
    [.packet (samplePacket 12 0 [7]), .packet (samplePacket 12 1 [7]), .creditTick]
    (machine defaultSird).init

theorem one_credit_exposes_two :
    (machine defaultSird).Reachable twoArrivals ∧ twoArrivals.granted ⟨1, 2, 5, 6, 0⟩ = [9, 11] ∧
      twoArrivals.receiver.sched.sird.globalCreditsInUsePkts = 1 ∧
      ¬ twoArrivals.OneOffsetEach defaultSird := by
  refine ⟨ReachableUnder.after (fun _ _ _ => trivial) _ .init, by decide +kernel,
    by decide +kernel, fun hone => ?_⟩
  have hstored : twoArrivals.receiver.sched.inboundMsgs.any (fun msg =>
      decide (msg.key = ⟨1, 2, 5, 6, 0⟩ ∧ msg.unscheduledPkts defaultSird = 10 ∧
        msg.openingGrant defaultSird = [9] ∧ msg.grantedOffsets.length = 12)) = true := by
    decide +kernel
  have hlog : twoArrivals.granted ⟨1, 2, 5, 6, 0⟩ = [9, 11] := by decide +kernel
  obtain ⟨msg, hmem, hmsg⟩ := List.any_eq_true.mp hstored
  obtain ⟨hkey, hunscheduled, hopening, hlen⟩ := of_decide_eq_true hmsg
  obtain ⟨credits, hcredits⟩ := hone msg hmem
  have hlengths := congrArg List.length hcredits.log_eq
  have hcnt := hcredits.length_eq
  rw [hkey, hlog, hopening, List.length_append, List.length_range'] at hlengths
  rw [hlen, hunscheduled] at hcnt
  simp at hlengths
  omega

end GrantLog

end HomaSird.Homa
