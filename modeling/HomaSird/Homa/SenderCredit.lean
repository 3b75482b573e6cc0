import HomaSird.Homa.GrantLimit
import Mathlib.Data.Finset.Card

/-! # The credit a sender holds

With SIRD a message holds one credit for each packet that it has been granted and has
never transmitted, for as long as it transmits no packet again while it holds credit.
-/

namespace HomaSird.Homa

open Transition Transition.Machine MsgEvent

namespace HomaOutboundMsg

variable {cfg : Config} {msg next : HomaOutboundMsg} {header : HomaHeader}
  {history : List MsgEvent}

/-! ## Offsets within the grant -/

/-- The offsets that the message may transmit, none while it waits for the first grant. -/
def grantedOffsets (msg : HomaOutboundMsg) : Finset Nat :=
  (Finset.range msg.getMsgSizePkts).filter fun pktOffset =>
    msg.waitForFirstGrant = false ∧ pktOffset ≤ msg.maxGrantedIdx

def sentOffsets (history : List MsgEvent) (msg : HomaOutboundMsg) : Finset Nat :=
  (Finset.range msg.getMsgSizePkts).filter fun pktOffset =>
    history.any (MsgEvent.isDataAt pktOffset) = true

def unsentGranted (history : List MsgEvent) (msg : HomaOutboundMsg) : Finset Nat :=
  msg.grantedOffsets.filter fun pktOffset =>
    history.any (MsgEvent.isDataAt pktOffset) = false

theorem card_grantedOffsets (msg : HomaOutboundMsg) :
    msg.grantedOffsets.card =
      if msg.waitForFirstGrant then 0 else min (msg.maxGrantedIdx + 1) msg.getMsgSizePkts := by
  cases hwait : msg.waitForFirstGrant with
  | true =>
    rw [grantedOffsets, hwait]
    simp
  | false =>
    have hrng : msg.grantedOffsets =
        Finset.range (min (msg.maxGrantedIdx + 1) msg.getMsgSizePkts) := by
      ext pktOffset
      simp only [grantedOffsets, Finset.mem_filter, Finset.mem_range, hwait, true_and]
      omega
    rw [hrng, Finset.card_range]
    rfl

theorem Ran.mem_grantedOffsets {txMsgId : Nat} (hran : Ran cfg txMsgId history msg) {pktOffset :
    Nat} (hsent : history.any (isDataAt pktOffset) = true) : pktOffset ∈ msg.grantedOffsets := by
  induction hran with
  | accepted => cases hsent
  | @sent history msg next packet hran htransmitted hload ih =>
    have hwin := htransmitted.window.2.2
    obtain ⟨hsame, hwait⟩ := htransmitted.sameMsg
    rw [grantedOffsets, hsame.getMsgSizePkts_eq, hwait, hwin]
    rw [List.any_append, Bool.or_eq_true] at hsent
    rcases hsent with hearly | hlast
    · exact ih hearly
    · simp only [List.any_cons, List.any_nil, Bool.or_false, isDataAt,
        Bool.and_eq_true, decide_eq_true_eq] at hlast
      rcases hran.sent_cases htransmitted hload with
        ⟨-, -, hnil, -⟩ | ⟨hopen, -, -, hoff, -⟩
      · rw [hnil] at hlast
        cases hlast.1
      · have hin := HomaSendScheduler.getNextPktOffset_eq_some hoff
        rw [hlast.2] at hin
        exact Finset.mem_filter.mpr ⟨Finset.mem_range.mpr hin.2.2.2, hopen, hin.2.2.1⟩
  | @received history msg next header hran hctrl ih =>
    have hearly : history.any (isDataAt pktOffset) = true := by
      simpa [isDataAt] using hsent
    have hraised := hctrl.raised
    obtain ⟨hsz, hopen, hle⟩ := Finset.mem_filter.mp (ih hearly)
    refine Finset.mem_filter.mpr ⟨?_, ?_, ?_⟩
    · rw [hctrl.sameMsg.1.getMsgSizePkts_eq]
      exact hsz
    · rw [hraised.waitForFirstGrant_eq, hopen]
      rfl
    · rw [hraised.maxGrantedIdx_eq]
      exact hle.trans (le_max_left _ _)

theorem Ran.card_unsentGranted_add {txMsgId : Nat} (hran : Ran cfg txMsgId history msg) :
    (unsentGranted history msg).card + (sentOffsets history msg).card =
      msg.grantedOffsets.card := by
  have hsent : sentOffsets history msg = msg.grantedOffsets.filter fun pktOffset =>
      ¬ history.any (isDataAt pktOffset) = false := by
    ext pktOffset
    simp only [sentOffsets, Finset.mem_filter, Finset.mem_range, Bool.not_eq_false]
    constructor
    · rintro ⟨-, hsent⟩
      exact ⟨hran.mem_grantedOffsets hsent, hsent⟩
    · rintro ⟨hgrant, hsent⟩
      exact ⟨Finset.mem_range.mp (Finset.mem_filter.mp hgrant).1, hsent⟩
  rw [hsent]
  exact Finset.card_filter_add_card_filter_not _

theorem sentOffsets_concat (history : List MsgEvent) (msg : HomaOutboundMsg) (event : MsgEvent) :
    sentOffsets (history ++ [event]) msg = sentOffsets history msg ∪ (Finset.range
          msg.getMsgSizePkts).filter fun pktOffset => event.isDataAt pktOffset = true := by
  ext pktOffset
  simp only [sentOffsets, Finset.mem_filter, Finset.mem_union, List.any_append, List.any_cons,
    List.any_nil, Bool.or_false, Bool.or_eq_true]
  tauto

theorem sentOffsets_of_same (hsame : msg.SameMsg next)
    (history : List MsgEvent) : sentOffsets history next = sentOffsets history msg := by
  rw [sentOffsets, hsame.getMsgSizePkts_eq, sentOffsets]

/-! ## The count of credits -/

/-- A granted count in `uint16_t` is exact. -/
def Fits (msg : HomaOutboundMsg) : Prop := msg.maxGrantedIdx + 1 < 2 ^ 16

theorem Fits.grantedPkts_eq (hfits : msg.Fits) : msg.grantedPkts = msg.grantedOffsets.card := by
  rw [grantedPkts, uint16_of_lt hfits, card_grantedOffsets]

theorem Ran.fits {txMsgId : Nat} (hran : Ran cfg txMsgId history msg)
    (hmode : cfg.sirdEnabled = true ∨ 1 ≤ cfg.rttPackets) : msg.Fits := by
  unfold Fits
  induction hran with
  | @accepted _ _ _ _ _ _ msg hcreate =>
    have hfresh := fresh_of_create hcreate
    have hlt := hfresh.length_lt
    rw [← hfresh.getMsgSizePkts_eq] at hlt
    rw [hfresh.maxGrantedIdx_eq]
    rcases hmode with hsird | hrtt
    · rw [initialWindow, if_pos hsird]
      split
      · decide
      · split
        · decide
        · dsimp only
          omega
    · have hle := RecordedSender.initialWindow_le hrtt msg.getMsgSizePkts
      have hrttLt := cfg.rttPackets_lt
      omega
  | sent _ hsent _ ih =>
    rw [hsent.window.2.2]
    exact ih
  | @received _ msg _ header hran hctrl ih =>
    have hlt := hctrl.grantOffset_lt
    have hsz : msg.getMsgSizePkts < 2 ^ 16 := packetCount_lt _ _
    rw [hctrl.raised.maxGrantedIdx_eq]
    omega

theorem held_of_create {message : Payload} {saddr daddr : Ipv4Address} {sport dport origin : Nat}
    (hcreate : create cfg message saddr daddr sport dport origin = .ok msg) :
    msg.senderHeldCreditPkts = msg.grantedPkts := by
  have hcnt := (numPkts_accepted_iff cfg message).mpr (fresh_of_create hcreate).length_lt
  have hsz := uint16_length_fragments cfg message
  unfold fragments at hcnt hsz
  rw [create, if_pos hcnt] at hcreate
  rw [← Except.ok.inj hcreate, grantedPkts, getMsgSizePkts, ← hsz]
  dsimp only
  cases (initialWindow cfg (uint16
      (packetize cfg.maxPayloadSize message.length message).length)).2 with
  | true => rfl
  | false =>
    split
    · rfl
    next hnone =>
      have hzero : uint16 (packetize cfg.maxPayloadSize message.length message).length = 0 :=
        Nat.eq_zero_of_not_pos fun hpos => hnone ⟨rfl, hpos⟩
      rw [hzero, Nat.min_zero]
      rfl

theorem Controlled.held (hctrl : Controlled cfg header msg next) :
    next.senderHeldCreditPkts =
      if msg.grantedPkts < next.grantedPkts then
        uint16 (msg.senderHeldCreditPkts + (next.grantedPkts - msg.grantedPkts))
      else msg.senderHeldCreditPkts := by
  have hraise : (msg.raiseGrant cfg header).senderHeldCreditPkts =
      msg.senderHeldCreditPkts := by
    unfold raiseGrant
    dsimp only
    split
    · rfl
    · split
      · rfl
      · rfl
  have hgranted {granted : HomaOutboundMsg}
      (hgrant : msg.handleGrantOffset cfg header = .ok granted) :
      granted.grantedPkts = (msg.raiseGrant cfg header).grantedPkts ∧
        granted.senderHeldCreditPkts =
          if msg.grantedPkts < granted.grantedPkts then
            uint16 (msg.senderHeldCreditPkts + (granted.grantedPkts - msg.grantedPkts))
          else msg.senderHeldCreditPkts := by
    simp only [handleGrantOffset] at hgrant
    split at hgrant
    · have hok := Except.ok.inj hgrant
      split at hok
      next hmore =>
        have hsame : granted.grantedPkts = (msg.raiseGrant cfg header).grantedPkts := by
          rw [← hok]
          rfl
        rw [hsame, if_pos hmore, ← hok]
        exact ⟨rfl, rfl⟩
      next hmore =>
        rw [← hok, if_neg hmore]
        exact ⟨rfl, hraise⟩
    · cases hgrant
  cases hctrl with
  | grant _ hgrant => exact (hgranted hgrant).2
  | @resend granted _ hgrant hresend =>
    have hheld := (hgranted hgrant).2
    have hle : header.grantOffset ≤ granted.maxGrantedIdx := by
      rw [(raised_of_handleGrantOffset hgrant).maxGrantedIdx_eq]
      exact le_max_right _ _
    simp only [HomaOutboundMsg.handleResend] at hresend
    split at hresend
    · rw [if_neg (not_lt.mpr hle)] at hresend
      rw [← Except.ok.inj hresend]
      exact hheld
    · cases hresend

theorem Transmitted.held {txMsgId : Nat} {packet : Packet}
    (hsent : Transmitted cfg txMsgId msg next packet) :
    next.grantedPkts = msg.grantedPkts ∧
      next.senderHeldCreditPkts =
        if cfg.sirdEnabled = true ∧ msg.needsInitialCreditRequest = false then
          msg.senderHeldCreditPkts - 1
        else msg.senderHeldCreditPkts := by
  cases hsent with
  | request hreq =>
    rw [if_neg (by simp [hreq])]
    exact ⟨rfl, rfl⟩
  | data hoff hrem hnext =>
    have hneeds : msg.needsInitialCreditRequest = false := by
      rw [needsInitialCreditRequest, (HomaSendScheduler.getNextPktOffset_eq_some hoff).1]
      rfl
    rw [hneeds]
    rw [hrem] at hnext
    split at hnext
    next hsird =>
      rw [if_pos ⟨hsird, rfl⟩, hnext, consumeSenderCredit]
      split
      · exact ⟨rfl, rfl⟩
      next hnone =>
        refine ⟨rfl, ?_⟩
        dsimp only at hnone ⊢
        omega
    next hplain =>
      rw [if_neg (by simp [hplain]), hnext]
      exact ⟨rfl, rfl⟩

/-! ## One credit for each granted packet that has never been transmitted -/

theorem held_accepted (hsird : cfg.sirdEnabled = true) {txMsgId : Nat} {message : Payload}
    {saddr daddr : Ipv4Address} {sport dport origin : Nat}
    (hcreate : create cfg message saddr daddr sport dport origin = .ok msg) :
    msg.senderHeldCreditPkts = (unsentGranted [] msg).card := by
  have hran : Ran cfg txMsgId [] msg := .accepted hcreate
  have hsplit := hran.card_unsentGranted_add
  have hnone : (sentOffsets [] msg).card = 0 := by
    simp [sentOffsets]
  rw [held_of_create hcreate, (hran.fits (.inl hsird)).grantedPkts_eq]
  omega

theorem held_received (hsird : cfg.sirdEnabled = true) {txMsgId : Nat}
    (hran : Ran cfg txMsgId history msg) (hctrl : Controlled cfg header msg next)
    (hheld : msg.senderHeldCreditPkts = (unsentGranted history msg).card) :
    next.senderHeldCreditPkts = (unsentGranted (history ++ [.received header]) next).card := by
  have hnext := hran.received hctrl
  have hpre := hran.card_unsentGranted_add
  have hafter := hnext.card_unsentGranted_add
  have hsent : sentOffsets (history ++ [.received header]) next = sentOffsets history msg := by
    rw [sentOffsets_of_same hctrl.sameMsg.1, sentOffsets_concat]
    simp [isDataAt]
  have hpkts := (hran.fits (.inl hsird)).grantedPkts_eq
  have hnextPkts := (hnext.fits (.inl hsird)).grantedPkts_eq
  -- nothing that was granted is taken back
  have hmore : msg.grantedOffsets ⊆ next.grantedOffsets := by
    intro pktOffset hmem
    obtain ⟨hsz, hopen, hle⟩ := Finset.mem_filter.mp hmem
    refine Finset.mem_filter.mpr ⟨?_, ?_, ?_⟩
    · rw [hctrl.sameMsg.1.getMsgSizePkts_eq]
      exact hsz
    · rw [hctrl.raised.waitForFirstGrant_eq, hopen]
      rfl
    · rw [hctrl.raised.maxGrantedIdx_eq]
      exact hle.trans (le_max_left _ _)
  have hle := Finset.card_le_card hmore
  have hlt : next.grantedPkts < 2 ^ 16 := by
    rw [hnextPkts]
    refine (Finset.card_filter_le _ _).trans_lt ?_
    rw [Finset.card_range]
    exact packetCount_lt _ _
  rw [hsent] at hafter
  rw [hctrl.held]
  split
  · rw [uint16_of_lt (by omega)]; omega
  · omega

theorem held_sent (hsird : cfg.sirdEnabled = true) {txMsgId : Nat} {packet : Packet}
    (hran : Ran cfg txMsgId history msg) (hsent : Transmitted cfg txMsgId msg next packet)
    (hload : packet.payload =
      if msg.needsInitialCreditRequest then [] else msg.fragment cfg packet.homaHeader.pktOffset)
    (honce : ∀ pktOffset,
      msg.getNextPktOffset = some pktOffset → history.any (isDataAt pktOffset) = true →
        msg.senderHeldCreditPkts = 0)
    (hheld : msg.senderHeldCreditPkts = (unsentGranted history msg).card) :
    next.senderHeldCreditPkts = (unsentGranted (history ++ [.sent packet]) next).card := by
  have hnext := hran.sent hsent hload
  have hpre := hran.card_unsentGranted_add
  have hafter := hnext.card_unsentGranted_add
  obtain ⟨hgrant, hspent⟩ := hsent.held
  have hsame : next.grantedOffsets.card = msg.grantedOffsets.card := by
    rw [← (hran.fits (.inl hsird)).grantedPkts_eq, ← (hnext.fits (.inl hsird)).grantedPkts_eq,
      hgrant]
  rw [sentOffsets_of_same hsent.sameMsg.1, sentOffsets_concat] at hafter
  rcases hran.sent_cases hsent hload with
    ⟨hwait, hunsent, hnil, -⟩ | ⟨hopen, hne, -, hoff, -⟩
  · -- a request carries no offset
    have hneeds : msg.needsInitialCreditRequest = true := by
      rw [needsInitialCreditRequest, hwait, hunsent]
      rfl
    rw [hspent, if_neg (by simp [hneeds])]
    simp only [isDataAt, hnil, List.isEmpty_nil, Bool.not_true, Bool.false_and,
      Bool.false_eq_true, Finset.filter_false, Finset.union_empty] at hafter
    omega
  · have hneeds : msg.needsInitialCreditRequest = false := by
      rw [needsInitialCreditRequest, hopen]
      rfl
    have hin := HomaSendScheduler.getNextPktOffset_eq_some hoff
    have hlast : ((Finset.range msg.getMsgSizePkts).filter fun pktOffset =>
        (sent packet).isDataAt pktOffset = true) = {packet.homaHeader.pktOffset} := by
      ext pktOffset
      simp only [isDataAt, Finset.mem_filter, Finset.mem_range, Finset.mem_singleton,
        Bool.and_eq_true, Bool.not_eq_true', decide_eq_true_eq, List.isEmpty_eq_false_iff]
      constructor
      · rintro ⟨-, -, rfl⟩
        rfl
      · rintro rfl
        exact ⟨hin.2.2.2, hne, rfl⟩
    rw [hlast, Finset.union_comm, ← Finset.insert_eq] at hafter
    rw [hspent, if_pos ⟨hsird, hneeds⟩]
    by_cases hagain : history.any (isDataAt packet.homaHeader.pktOffset) = true
    · have hzero := honce _ hoff hagain
      rw [Finset.insert_eq_self.mpr] at hafter
      · omega
      · exact Finset.mem_filter.mpr ⟨Finset.mem_range.mpr hin.2.2.2, hagain⟩
    · rw [Finset.card_insert_of_notMem] at hafter
      · omega
      · exact fun hmem => hagain (Finset.mem_filter.mp hmem).2

end HomaOutboundMsg

namespace RecordedSender

open HomaOutboundMsg HomaSendScheduler

variable {cfg : Config} {recorded : RecordedSender}

/-- A message holds one credit for each packet within its grant that was never transmitted. -/
def HoldsUnsent (recorded : RecordedSender) : Prop :=
  ∀ txMsgId msg, recorded.sched.outboundMsgs.lookup txMsgId = some msg →
    msg.senderHeldCreditPkts = (unsentGranted (recorded.history txMsgId) msg).card

/-- The next packet was never transmitted, or its message holds no credit. -/
def spendsOnce (recorded : RecordedSender) : SendInput → Bool
  | .txDataPacket true order =>
    (recorded.sched.getNextMsgId order).2.all fun txMsgId =>
      (recorded.sched.outboundMsgs.lookup txMsgId).all fun msg =>
        msg.getNextPktOffset.all fun pktOffset =>
          !(recorded.history txMsgId).any (MsgEvent.isDataAt pktOffset) ||
            decide (msg.senderHeldCreditPkts = 0)
  | _ => true

theorem holdsUnsent_of_spendsOnce (hsird : cfg.sirdEnabled = true)
    (hreach : (machine cfg).ReachableUnder (fun recorded input => recorded.spendsOnce input = true)
      recorded) :
    recorded.HoldsUnsent := by
  induction hreach with
  | init =>
    intro txMsgId msg hlook
    cases hlook
  | @step state next input hprior honce hstep ih =>
    have hpre : (machine cfg).Reachable state := hprior.mono fun _ _ _ => trivial
    have hfaithful := faithful_of_reachable hpre
    obtain ⟨events, hhandle, hhistory⟩ := step_eq_ok hstep
    intro txMsgId msg hstored
    rw [hhistory]
    have hadvanced :=
      advanced_of_handle (wellFormed_of_reachable hpre) hhandle hstored state.history
    generalize note state.history input events txMsgId = later at hadvanced ⊢
    cases hadvanced with
    | kept hlook => exact ih txMsgId msg hlook
    | created _ hcreate => exact @held_accepted cfg msg hsird txMsgId _ _ _ _ _ _ hcreate
    | transmitted hselect hlook htransmitted hpayload =>
      refine held_sent hsird (hfaithful _ _ hlook) htransmitted hpayload ?_
        (ih _ _ hlook)
      intro pktOffset hoff hagain
      simpa [spendsOnce, hselect, hlook, hoff, hagain] using honce
    | controlled _ hlook hcontrolled =>
      exact held_received hsird (hfaithful _ _ hlook) hcontrolled (ih _ _ hlook)

theorem holdsUnsent_long :
    let recorded := (machine Config.oneByteSird).after spendsOnce
      [.send [7, 8, 9] 1 2 5 6 0, .ctrlPkt sampleGrant ⟨[0], 0⟩, .txDataPacket true [0]] initial
    recorded.HoldsUnsent ∧ (recorded.history 0).countP (MsgEvent.isDataAt 0) = 1 ∧
      (recorded.sched.outboundMsgs.lookup 0).map senderHeldCreditPkts = some 1 := by
  intro recorded
  have hreach : (machine Config.oneByteSird).ReachableUnder
      (fun recorded input => recorded.spendsOnce input = true) recorded :=
    ReachableUnder.after (fun _ _ hcheck => hcheck) _ .init
  refine ⟨holdsUnsent_of_spendsOnce rfl hreach, ?_, ?_⟩ <;> decide +kernel

def resendFirst : Packet :=
  { sampleGrant with homaHeader := { sampleGrant.homaHeader with flags := Flag.resend.mask } }

def resentFirst : RecordedSender :=
  (machine Config.oneByteSird).after (fun _ _ => true)
    [.send [7, 8, 9] 1 2 5 6 0, .ctrlPkt sampleGrant ⟨[0], 0⟩, .txDataPacket true [0],
      .ctrlPkt resendFirst ⟨[0], 0⟩, .txDataPacket true [0]] initial

theorem retransmission_spends_credit :
    (machine Config.oneByteSird).Reachable resentFirst ∧ ¬ resentFirst.HoldsUnsent := by
  refine ⟨ReachableUnder.after (fun _ _ _ => trivial) _ .init, fun hholds => ?_⟩
  have hstored : (resentFirst.sched.outboundMsgs.lookup 0).any (fun msg =>
      decide (msg.senderHeldCreditPkts = 0) &&
        decide ((unsentGranted (resentFirst.history 0) msg).card = 1)) = true := by
    decide +kernel
  obtain ⟨msg, hlook, hmsg⟩ := (Option.any_eq_true _ _).mp hstored
  simp only [Bool.and_eq_true, decide_eq_true_eq] at hmsg
  have heq := hholds 0 msg hlook
  omega

end RecordedSender

end HomaSird.Homa
