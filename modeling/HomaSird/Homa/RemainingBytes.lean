import HomaSird.Homa.MsgSelection
import HomaSird.Homa.SenderCredit

/-! # The estimate of the remaining bytes

The estimate falls with every grant and its unsigned arithmetic is exact as long as no
grant ends before the first BDP, which only the grants of a long SIRD message do.
-/

namespace HomaSird.Homa

open Transition Transition.Machine

namespace HomaOutboundMsg

variable {cfg : Config} {msg next : HomaOutboundMsg} {header : HomaHeader}

/-- The unsigned arithmetic of `HandleGrantOffset` gives the numbers it stands for. -/
structure Exact (cfg : Config) (msg : HomaOutboundMsg) (header : HomaHeader) : Prop where
  prevGrantedPkts : msg.maxGrantedIdx + 1 < 2 ^ 16
  newGrantedPkts : max msg.maxGrantedIdx header.grantOffset + 1 < 2 ^ 16
  senderHeldCreditPkts : msg.senderHeldCreditPkts +
    ((msg.raiseGrant cfg header).grantedPkts - msg.grantedPkts) < 2 ^ 16
  remainingBytes : msg.maxGrantedIdx < header.grantOffset →
    cfg.rttPackets ≤ header.grantOffset + 1 ∧
      (header.grantOffset + 1 - cfg.rttPackets) * msg.maxPayloadSize ≤ msg.msgSizeBytes

def GrantsBdp (cfg : Config) (msg : HomaOutboundMsg) (grantOffset : Nat) : Prop :=
  msg.maxGrantedIdx < grantOffset → cfg.rttPackets ≤ grantOffset + 1

/-- The estimate is the size, or what the grants beyond the first BDP have left of it, and no more
credits are held than packets are granted. -/
structure Estimated (cfg : Config) (msg : HomaOutboundMsg) : Prop where
  sized : msg.Sized cfg
  fits : msg.Fits
  held_le : msg.senderHeldCreditPkts ≤ msg.grantedPkts
  remaining : msg.remainingBytes = msg.msgSizeBytes ∨
    cfg.rttPackets ≤ msg.maxGrantedIdx + 1 ∧ msg.remainingBytes +
      (msg.maxGrantedIdx + 1 - cfg.rttPackets) * cfg.maxPayloadSize = msg.msgSizeBytes

theorem Estimated.remainingBytes_le (hest : msg.Estimated cfg) :
    msg.remainingBytes ≤ msg.msgSizeBytes := by
  rcases hest.remaining with heq | ⟨-, heq⟩
  · exact heq.le
  · omega

section

variable {grantOffset : Nat} (hsized : msg.Sized cfg) (hrtt : 1 ≤ cfg.rttPackets) (hlt :
  grantOffset < msg.getMsgSizePkts)
include hsized hrtt hlt

theorem Sized.granted_mul_le :
    (grantOffset + 1 - cfg.rttPackets) * cfg.maxPayloadSize ≤ msg.msgSizeBytes := by
  have hbelow := numPackets_mul_lt cfg msg.msgSizeBytes
  have hearly : (grantOffset + 1 - cfg.rttPackets) * cfg.maxPayloadSize ≤
      (msg.getMsgSizePkts - 1) * cfg.maxPayloadSize := Nat.mul_le_mul_right _ (by omega)
  rw [← hsized.getMsgSizePkts_eq] at hbelow
  rw [Nat.sub_one_mul] at hearly
  omega

theorem Sized.remainingEstimate_add (hbdp : cfg.rttPackets ≤ grantOffset + 1) :
    msg.remainingEstimate cfg grantOffset +
    (grantOffset + 1 - cfg.rttPackets) * cfg.maxPayloadSize = msg.msgSizeBytes := by
  have hle := hsized.granted_mul_le hrtt hlt
  have hsz := hsized.msgSizeBytes_lt
  have hgrant : ((grantOffset : Int) + 1 - cfg.rttPackets) * cfg.maxPayloadSize =
      ((grantOffset + 1 - cfg.rttPackets) * cfg.maxPayloadSize : Nat) := by
    rw [Int.natCast_mul, Int.natCast_sub hbdp]
    rfl
  rw [remainingEstimate, hsized.maxPayloadSize_eq, hgrant, uint32OfInt]
  omega

end

theorem estimated_of_create (hrtt : 1 ≤ cfg.rttPackets) {message : Payload}
    {saddr daddr : Ipv4Address} {sport dport origin : Nat}
    (hcreate : create cfg message saddr daddr sport dport origin = .ok msg) :
    msg.Estimated cfg where
  sized := sized_of_create hcreate
  fits := Ran.fits (.accepted hcreate : Ran cfg 0 [] msg) (.inr hrtt)
  held_le := (held_of_create hcreate).le
  remaining := .inl (remainingBytes_of_create hcreate)

theorem Estimated.transmitted (hest : msg.Estimated cfg) {txMsgId : Nat}
    {packet : Packet} (hsent : Transmitted cfg txMsgId msg next packet) :
    next.Estimated cfg where
  sized := hest.sized.of_same hsent.sameMsg.1
  fits := by
    rw [Fits, hsent.window.2.2]
    exact hest.fits
  held_le := by
    obtain ⟨hgrant, hspent⟩ := hsent.held
    have hle := hest.held_le
    rw [hgrant, hspent]
    split
    · omega
    · exact hle
  remaining := by
    rw [hsent.remainingBytes, hsent.window.2.2, hsent.sameMsg.1.msgSizeBytes_eq]
    exact hest.remaining

structure Wider (msg next : HomaOutboundMsg) : Prop where
  sameMsg : msg.SameMsg next
  waiting : next.waitForFirstGrant = true → msg.waitForFirstGrant = true
  maxGrantedIdx_le : msg.maxGrantedIdx ≤ next.maxGrantedIdx
  fits : next.Fits

theorem wider_raiseGrant (hfits : msg.Fits)
    (hlt : header.grantOffset < msg.getMsgSizePkts) : msg.Wider (msg.raiseGrant cfg header) := by
  obtain ⟨hsame, -, hwait⟩ := sameMsg_raiseGrant cfg msg header
  have hmax := raiseGrant_maxGrantedIdx cfg msg header
  have hsz : msg.getMsgSizePkts < 2 ^ 16 := packetCount_lt _ _
  refine ⟨hsame, hwait, hmax ▸ le_max_left _ _, ?_⟩
  unfold Fits at hfits ⊢
  omega

theorem Controlled.wider (hctrl : Controlled cfg header msg next)
    (hfits : msg.Fits) : msg.Wider next := by
  obtain ⟨hsame, hwait⟩ := hctrl.sameMsg
  have hmax := hctrl.raised.maxGrantedIdx_eq
  have hlt := hctrl.grantOffset_lt
  have hsz : msg.getMsgSizePkts < 2 ^ 16 := packetCount_lt _ _
  refine ⟨hsame, hwait, hmax ▸ le_max_left _ _, ?_⟩
  unfold Fits at hfits ⊢
  omega

theorem Estimated.held_add_le (hest : msg.Estimated cfg) (hwider : msg.Wider next) :
    msg.senderHeldCreditPkts + (next.grantedPkts - msg.grantedPkts) ≤ next.grantedPkts ∧
      next.grantedPkts < 2 ^ 16 := by
  have hheld := hest.held_le
  have hpre := hest.fits
  have hafter := hwider.fits
  have hle := hwider.maxGrantedIdx_le
  have hopen := hwider.waiting
  unfold grantedPkts at hheld ⊢
  rw [uint16_of_lt hpre] at hheld ⊢
  rw [uint16_of_lt hafter, hwider.sameMsg.getMsgSizePkts_eq]
  unfold Fits at hafter
  cases hwait : msg.waitForFirstGrant with
  | true =>
    rw [hwait] at hheld
    simp only [if_true] at hheld ⊢
    split <;> omega
  | false =>
    have hstill : next.waitForFirstGrant = false :=
      Bool.eq_false_iff.mpr fun hnext => by simp [hwait] at hopen; simp [hopen] at hnext
    rw [hwait] at hheld
    simp only [hstill, Bool.false_eq_true, if_false] at hheld ⊢
    omega

theorem Estimated.controlled (hest : msg.Estimated cfg) (hrtt : 1 ≤ cfg.rttPackets)
    (hctrl : Controlled cfg header msg next) (hbdp : GrantsBdp cfg msg header.grantOffset) :
    next.Estimated cfg ∧ next.remainingBytes ≤ msg.remainingBytes := by
  have hsame := hctrl.sameMsg.1
  have hwider := hctrl.wider hest.fits
  obtain ⟨hheld, hlt⟩ := hest.held_add_le hwider
  have hleft := hctrl.remainingBytes
  have hmax := hctrl.raised.maxGrantedIdx_eq
  have hnextHeld : next.senderHeldCreditPkts ≤ next.grantedPkts := by
    rw [hctrl.held]
    split
    · rw [uint16_of_lt (hheld.trans_lt hlt)]; exact hheld
    · omega
  have hsized := hest.sized.of_same hsame
  have hfits := hwider.fits
  by_cases hraises : msg.maxGrantedIdx < header.grantOffset
  · have hlower := hbdp hraises
    have hadd := hest.sized.remainingEstimate_add hrtt hctrl.grantOffset_lt hlower
    rw [if_pos hraises] at hleft
    rw [max_eq_right hraises.le] at hmax
    refine ⟨⟨hsized, hfits, hnextHeld, .inr ?_⟩, ?_⟩
    · rw [hmax, hleft, hsame.msgSizeBytes_eq]
      exact ⟨hlower, hadd⟩
    · -- what was beyond the first BDP before is beyond it now
      rw [hleft]
      rcases hest.remaining with heq | ⟨hpre, heq⟩
      · omega
      · have hmore : (msg.maxGrantedIdx + 1 - cfg.rttPackets) * cfg.maxPayloadSize ≤
            (header.grantOffset + 1 - cfg.rttPackets) * cfg.maxPayloadSize :=
          Nat.mul_le_mul_right _ (by omega)
        omega
  · rw [if_neg hraises] at hleft
    rw [max_eq_left (Nat.le_of_not_lt hraises)] at hmax
    refine ⟨⟨hsized, hfits, hnextHeld, ?_⟩, hleft.le⟩
    rw [hmax, hleft, hsame.msgSizeBytes_eq]
    exact hest.remaining

theorem Estimated.exact_iff (hest : msg.Estimated cfg)
    (hrtt : 1 ≤ cfg.rttPackets) (hlt : header.grantOffset < msg.getMsgSizePkts) :
    Exact cfg msg header ↔ GrantsBdp cfg msg header.grantOffset := by
  constructor
  · intro hexact hraises
    exact (hexact.remainingBytes hraises).1
  · intro hbdp
    have hwider : msg.Wider (msg.raiseGrant cfg header) := wider_raiseGrant hest.fits hlt
    obtain ⟨hheld, hsmall⟩ := hest.held_add_le hwider
    have hfits := hwider.fits
    rw [Fits, raiseGrant_maxGrantedIdx] at hfits
    refine ⟨hest.fits, hfits, hheld.trans_lt hsmall, fun hraises => ⟨hbdp hraises, ?_⟩⟩
    rw [hest.sized.maxPayloadSize_eq]
    exact hest.sized.granted_mul_le hrtt hlt

theorem Ran.grantsBdp {txMsgId : Nat} {history : List MsgEvent}
    (hran : Ran cfg txMsgId history msg) (hrtt : 1 ≤ cfg.rttPackets) (hshort :
    cfg.sirdEnabled = true → msg.getMsgSizePkts ≤ cfg.unschThresholdPkts) {grantOffset : Nat}
    (hlt : grantOffset < msg.getMsgSizePkts) : GrantsBdp cfg msg grantOffset := by
  intro hraises
  have hlast := cfg.lastUnscheduledIdx_of_pos hrtt
  have hwin : min (cfg.rttPackets - 1) (msg.getMsgSizePkts - 1) ≤
      (initialWindow cfg msg.getMsgSizePkts).1 := by
    unfold initialWindow
    rw [hlast]
    split
    next hzero => omega
    · split
      next hsird => rw [if_neg (not_lt.mpr (hshort hsird))]
      · dsimp only
        omega
  rw [hran.maxGrantedIdx_eq] at hraises
  omega

end HomaOutboundMsg

namespace HomaSendScheduler

open HomaOutboundMsg

variable {cfg : Config} {sched : HomaSendScheduler}

def grantsBdp (cfg : Config) (sched : HomaSendScheduler) : SendInput → Bool
  | .ctrlPkt packet _ =>
    !(packet.hasFlag .grant || packet.hasFlag .resend) ||
      (sched.outboundMsgs.lookup packet.homaHeader.txMsgId).all fun msg =>
        decide (msg.maxGrantedIdx < packet.homaHeader.grantOffset →
          cfg.rttPackets ≤ packet.homaHeader.grantOffset + 1)
  | _ => true

theorem grantsBdp_of_controlled {packet : Packet} {platform : Platform} {msg next : HomaOutboundMsg}
    (hcheck : sched.grantsBdp cfg (.ctrlPkt packet platform) = true)
    (hlook : sched.outboundMsgs.lookup packet.homaHeader.txMsgId = some msg)
    (hctrl : Controlled cfg packet.homaHeader msg next) :
    GrantsBdp cfg msg packet.homaHeader.grantOffset := by
  have hflag : (packet.hasFlag .grant || packet.hasFlag .resend) = true := by
    cases hctrl with
    | grant hgrant => exact Bool.or_eq_true_iff.mpr (.inl hgrant)
    | resend hresend => exact Bool.or_eq_true_iff.mpr (.inr hresend)
  have hbdp : packet.homaHeader.grantOffset ≤ msg.maxGrantedIdx ∨
      cfg.rttPackets ≤ packet.homaHeader.grantOffset + 1 := by
    simpa [grantsBdp, hflag, hlook] using hcheck
  exact fun hraises => hbdp.resolve_left (not_le.mpr hraises)

theorem estimated_of_handle (hrtt : 1 ≤ cfg.rttPackets) (hwf : sched.WellFormed cfg)
    (hest : ∀ txMsgId msg, sched.outboundMsgs.lookup txMsgId = some msg → msg.Estimated cfg)
    {next : HomaSendScheduler} {input : SendInput} {events : List Event}
    (hcheck : sched.grantsBdp cfg input = true)
    (hhandle : sched.handle cfg input = .ok (next, events)) {txMsgId : Nat}
    {updated : HomaOutboundMsg} (hstored : next.outboundMsgs.lookup txMsgId = some updated) :
    updated.Estimated cfg ∧
      ∀ msg,
        sched.outboundMsgs.lookup txMsgId = some msg →
          updated.remainingBytes ≤ msg.remainingBytes := by
  have hadv := RecordedSender.advanced_of_handle hwf hhandle hstored fun _ => []
  generalize RecordedSender.note _ input events txMsgId = later at hadv
  cases hadv with
  | kept hlook =>
    refine ⟨hest _ _ hlook, fun msg hpre => ?_⟩
    obtain rfl := Option.some.inj (hlook.symm.trans hpre)
    exact le_rfl
  | created hunused hcreate =>
    refine ⟨estimated_of_create hrtt hcreate, fun msg hpre => ?_⟩
    cases hunused.symm.trans hpre
  | transmitted _ hlook hsent =>
    refine ⟨(hest _ _ hlook).transmitted hsent, fun msg hpre => ?_⟩
    obtain rfl := Option.some.inj (hlook.symm.trans hpre)
    exact hsent.remainingBytes.le
  | controlled hid hlook hctrl =>
    subst hid
    have hbdp := grantsBdp_of_controlled hcheck hlook hctrl
    obtain ⟨hafter, hle⟩ := (hest _ _ hlook).controlled hrtt hctrl hbdp
    refine ⟨hafter, fun msg hpre => ?_⟩
    obtain rfl := Option.some.inj (hlook.symm.trans hpre)
    exact hle

theorem estimated_of_grantsBdp (hrtt : 1 ≤ cfg.rttPackets) (hreach :
    (machine cfg).ReachableUnder (fun sched input => sched.grantsBdp cfg input = true) sched)
    : ∀ txMsgId msg, sched.outboundMsgs.lookup txMsgId = some msg → msg.Estimated cfg := by
  induction hreach with
  | init =>
    intro txMsgId msg hlook
    cases hlook
  | step hprior hcheck hstep ih =>
    intro txMsgId msg hstored
    obtain ⟨⟨moved, events⟩, hhandle, hok⟩ := bind_eq_ok.mp hstep
    cases hok
    have hwf := wellFormed_of_reachable (hprior.mono fun _ _ _ => trivial)
    exact (estimated_of_handle hrtt hwf ih hcheck hhandle hstored).1

/-- The estimate of a message is at most its size, no GRANT, RESEND or other event raises it, nor
does the ACK that ends the message; the arithmetic of every GRANT and RESEND is exact. -/
structure SaneEstimates (cfg : Config) (sched : HomaSendScheduler) : Prop where
  le_size : ∀ txMsgId msg, sched.outboundMsgs.lookup txMsgId = some msg →
    msg.remainingBytes ≤ msg.msgSizeBytes
  not_raised : ∀ input next events, sched.grantsBdp cfg input = true →
    sched.handle cfg input = .ok (next, events) → ∀ txMsgId msg updated,
      sched.outboundMsgs.lookup txMsgId = some msg →
      next.outboundMsgs.lookup txMsgId = some updated →
        updated.remainingBytes ≤ msg.remainingBytes
  not_raised_by_ack : ∀ txMsgId msg header acked,
    sched.outboundMsgs.lookup txMsgId = some msg → msg.handleAck header = .ok acked →
      acked.remainingBytes ≤ msg.remainingBytes
  exact : ∀ txMsgId msg header next, sched.outboundMsgs.lookup txMsgId = some msg →
    Controlled cfg header msg next →
      (Exact cfg msg header ↔ GrantsBdp cfg msg header.grantOffset)

/-- The estimates stay sane while no GRANT or RESEND that raises the granted offset ends before the
first BDP. None does but for a long message with SIRD. -/
theorem saneEstimates_of_grantsBdp (hrtt : 1 ≤ cfg.rttPackets) :
    ((machine cfg).ReachableUnder (fun sched input => sched.grantsBdp cfg input = true) sched →
      sched.SaneEstimates cfg) ∧
      ((machine cfg).Reachable sched →
        ∀ txMsgId msg,
          sched.outboundMsgs.lookup txMsgId = some msg →
            (cfg.sirdEnabled = true → msg.getMsgSizePkts ≤ cfg.unschThresholdPkts) →
            ∀ grantOffset < msg.getMsgSizePkts, GrantsBdp cfg msg grantOffset) := by
  constructor
  · intro hreachable
    have hestimated := estimated_of_grantsBdp hrtt hreachable
    have hwf := wellFormed_of_reachable (hreachable.mono fun _ _ _ => trivial)
    refine ⟨fun txMsgId msg hlook => (hestimated _ _ hlook).remainingBytes_le, ?_, ?_, ?_⟩
    · intro input next events hcheck hhandle txMsgId msg updated hlook hstored
      exact (estimated_of_handle hrtt hwf hestimated hcheck hhandle hstored).2 msg hlook
    · intro txMsgId msg header acked _ hack
      simp only [handleAck] at hack
      split at hack
      · rw [← Except.ok.inj hack]
        exact Nat.zero_le _
      · cases hack
    · intro txMsgId msg header next hlook hcontrolled
      exact (hestimated _ _ hlook).exact_iff hrtt hcontrolled.grantOffset_lt
  · intro hreachable txMsgId msg hlook hshort grantOffset hlt
    obtain ⟨history, hran⟩ := ran_of_reachable hreachable hlook
    exact hran.grantsBdp hrtt hshort hlt

def grantUpTo (grantOffset : Nat) : Packet :=
  { RecordedSender.sampleGrant with
    homaHeader := { RecordedSender.sampleGrant.homaHeader with grantOffset } }

theorem saneEstimates_thirteen :
    let sched := (machine Config.oneByte).after (grantsBdp Config.oneByte)
      [.send (List.replicate 13 7) 1 2 5 6 0, .ctrlPkt (grantUpTo 10) ⟨[0], 0⟩] initial
    sched.SaneEstimates Config.oneByte ∧
      (sched.outboundMsgs.lookup 0).map HomaOutboundMsg.remainingBytes = some 12 := by
  intro sched
  have hreachable : (machine Config.oneByte).ReachableUnder
      (fun sched input => sched.grantsBdp Config.oneByte input = true) sched :=
    ReachableUnder.after (fun _ _ hcheck => hcheck) _ .init
  exact ⟨(saneEstimates_of_grantsBdp (by decide)).1 hreachable, by decide +kernel⟩

def grantedTwo : HomaSendScheduler :=
  (machine Config.oneByteSird).after (fun _ _ => true)
    [.send [7, 8, 9] 1 2 5 6 0, .ctrlPkt (grantUpTo 0) ⟨[0], 0⟩,
      .ctrlPkt (grantUpTo 1) ⟨[0], 0⟩] initial

/-- SIRD's grants start with the first packet, before the first BDP ends: the estimate of three
bytes becomes eleven. -/
theorem grants_before_first_bdp :
    (machine Config.oneByteSird).Reachable grantedTwo ∧
      (grantedTwo.outboundMsgs.lookup 0).map HomaOutboundMsg.remainingBytes = some 11 ∧
      ¬ ∀ txMsgId msg,
        grantedTwo.outboundMsgs.lookup txMsgId = some msg →
          msg.remainingBytes ≤ msg.msgSizeBytes := by
  refine ⟨ReachableUnder.after (fun _ _ _ => trivial) _ .init, by decide +kernel, fun hsane => ?_⟩
  have hstored : (grantedTwo.outboundMsgs.lookup 0).any (fun msg =>
      decide (msg.msgSizeBytes < msg.remainingBytes)) = true := by decide +kernel
  obtain ⟨msg, hlook, hmore⟩ := (Option.any_eq_true _ _).mp hstored
  exact absurd (hsane 0 msg hlook) (Nat.not_le.mpr (of_decide_eq_true hmore))

end HomaSendScheduler

end HomaSird.Homa
