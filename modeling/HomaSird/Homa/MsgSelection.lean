import HomaSird.Homa.GrantLimit
import Mathlib.Algebra.Order.Ring.Int

/-! # Which message is sent next

`GetNextMsgId` looks for the fewest remaining bytes below a bound that is itself such a value, so
a message with that estimate is never chosen. The estimate takes it only for a BDP of zero.
-/

namespace HomaSird.Homa

open Transition Transition.Machine

namespace HomaOutboundMsg

variable {cfg : Config} {msg : HomaOutboundMsg}

/-- The message owes its initial credit request, or a packet is queued within its grant. -/
def Eligible (msg : HomaOutboundMsg) : Prop :=
  msg.isExpired = false ∧ (msg.needsInitialCreditRequest = true ∨
    (msg.waitForFirstGrant = false ∧ ∃ pktOffset, 0 < msg.pktTxQ.count pktOffset ∧
      pktOffset ≤ msg.maxGrantedIdx ∧ pktOffset < msg.getMsgSizePkts))

theorem getNextPktOffset_isSome_iff :
    msg.getNextPktOffset.isSome = true ↔
      msg.waitForFirstGrant = false ∧
        ∃ pktOffset,
          0 < msg.pktTxQ.count pktOffset ∧ pktOffset ≤ msg.maxGrantedIdx ∧
            pktOffset < msg.getMsgSizePkts := by
  constructor
  · intro hsome
    obtain ⟨pktOffset, hnext⟩ := Option.isSome_iff_exists.mp hsome
    obtain ⟨hopen, htop, hin⟩ := HomaSendScheduler.getNextPktOffset_eq_some hnext
    exact ⟨hopen, pktOffset, MinQueue.count_pos_of_top? htop, hin⟩
  · rintro ⟨hopen, pktOffset, hqueued, hgrant, hsz⟩
    obtain ⟨top, htop, hle⟩ := MinQueue.top?_of_count_pos hqueued
    have hin : top ≤ msg.maxGrantedIdx ∧ top < msg.getMsgSizePkts :=
      ⟨hle.trans hgrant, hle.trans_lt hsz⟩
    simp [getNextPktOffset, hopen, htop, hin]

theorem eligible_iff :
    msg.Eligible ↔ msg.isExpired = false ∧ HomaSendScheduler.isSendable msg = true := by
  rw [Eligible, HomaSendScheduler.isSendable, Bool.or_eq_true, getNextPktOffset_isSome_iff]

/-! ## The estimate of the remaining bytes -/

theorem le_numPackets_mul (cfg : Config)
    (size : Nat) : size ≤ numPackets cfg size * cfg.maxPayloadSize := by
  have hmax := cfg.maxPayloadSize_pos
  have hceil := Nat.div_add_mod (size + cfg.maxPayloadSize - 1) cfg.maxPayloadSize
  have hlt := Nat.mod_lt (size + cfg.maxPayloadSize - 1) hmax
  rw [numPackets, mul_comm]
  omega

theorem numPackets_mul_lt (cfg : Config) (size : Nat) :
    numPackets cfg size * cfg.maxPayloadSize < size + cfg.maxPayloadSize := by
  have hmax := cfg.maxPayloadSize_pos
  have hle := Nat.div_mul_le_self (size + cfg.maxPayloadSize - 1) cfg.maxPayloadSize
  rw [numPackets]
  omega

structure Sized (cfg : Config) (msg : HomaOutboundMsg) : Prop where
  getMsgSizePkts_eq : msg.getMsgSizePkts = numPackets cfg msg.msgSizeBytes
  getMsgSizePkts_lt : msg.getMsgSizePkts < 2 ^ 16
  maxPayloadSize_eq : msg.maxPayloadSize = cfg.maxPayloadSize

theorem Sized.of_same {next : HomaOutboundMsg} (hsized : msg.Sized cfg)
    (hsame : msg.SameMsg next) : next.Sized cfg where
  getMsgSizePkts_eq := by
    rw [hsame.getMsgSizePkts_eq, hsame.msgSizeBytes_eq, hsized.getMsgSizePkts_eq]
  getMsgSizePkts_lt := hsame.getMsgSizePkts_eq ▸ hsized.getMsgSizePkts_lt
  maxPayloadSize_eq := hsame.maxPayloadSize_eq.trans hsized.maxPayloadSize_eq

section

variable {message : Payload} {saddr daddr : Ipv4Address} {sport dport origin : Nat} (hcreate :
  create cfg message saddr daddr sport dport origin = .ok msg)
include hcreate

theorem sized_of_create : msg.Sized cfg := by
  have hfresh := fresh_of_create hcreate
  have hmade := create_eq_ok hcreate
  have hlen := hfresh.getMsgSizePkts_eq
  refine ⟨?_, hlen ▸ hfresh.length_lt, hmade.sound.maxPayloadSize_eq⟩
  rw [hlen, length_fragments, hmade.msgSizeBytes_eq]

theorem remainingBytes_of_create : msg.remainingBytes = msg.msgSizeBytes := by
  have hcnt := (numPkts_accepted_iff cfg message).mpr (fresh_of_create hcreate).length_lt
  unfold fragments at hcnt
  rw [create, if_pos hcnt] at hcreate
  rw [← Except.ok.inj hcreate]

end

theorem raiseGrant_remainingBytes (cfg : Config) (msg : HomaOutboundMsg) (header : HomaHeader) :
    (msg.raiseGrant cfg header).remainingBytes =
      if msg.maxGrantedIdx < header.grantOffset then msg.remainingEstimate cfg header.grantOffset
      else msg.remainingBytes := by
  unfold raiseGrant
  dsimp only
  split
  · rfl
  · split
    · rfl
    · rfl

theorem Controlled.remainingBytes {header : HomaHeader} {next : HomaOutboundMsg}
    (hctrl : Controlled cfg header msg next) :
    next.remainingBytes =
      if msg.maxGrantedIdx < header.grantOffset then msg.remainingEstimate cfg header.grantOffset
      else msg.remainingBytes := by
  have hgranted {granted : HomaOutboundMsg}
      (hgrant : msg.handleGrantOffset cfg header = .ok granted) :
      granted.remainingBytes = (msg.raiseGrant cfg header).remainingBytes := by
    simp only [handleGrantOffset] at hgrant
    split at hgrant
    · rw [← Except.ok.inj hgrant]
      split
      · rfl
      · rfl
    · cases hgrant
  rw [← raiseGrant_remainingBytes]
  cases hctrl with
  | grant _ hgrant => exact hgranted hgrant
  | @resend granted _ hgrant hresend =>
    simp only [handleResend] at hresend
    split at hresend
    · rw [← Except.ok.inj hresend, ← hgranted hgrant]
      split
      · rfl
      · rfl
    · cases hresend

theorem Transmitted.remainingBytes {txMsgId : Nat} {packet : Packet} {next : HomaOutboundMsg}
    (hsent : Transmitted cfg txMsgId msg next packet) :
    next.remainingBytes = msg.remainingBytes := by
  cases hsent with
  | request => rfl
  | data _ hrem hnext =>
    obtain ⟨held, hspent⟩ := spent_eq cfg { msg with pktTxQ := msg.pktTxQ.popWhileTop _ }
    rw [hrem] at hnext
    rw [hnext, hspent]

theorem Sized.msgSizeBytes_lt (hsized : msg.Sized cfg) : msg.msgSizeBytes < 2 ^ 32 := by
  have hbytes := le_numPackets_mul cfg msg.msgSizeBytes
  rw [← hsized.getMsgSizePkts_eq] at hbytes
  have hmul := Nat.mul_lt_mul'' hsized.getMsgSizePkts_lt cfg.maxPayloadSize_lt
  exact hbytes.trans_lt hmul

theorem Sized.room (hsized : msg.Sized cfg) (hmtu : cfg.mtu ≤ 9000) :
    msg.msgSizeBytes + cfg.rttPackets * cfg.maxPayloadSize < 2 ^ 32 - 1 := by
  have hbytes := le_numPackets_mul cfg msg.msgSizeBytes
  have hpkts := hsized.getMsgSizePkts_lt
  have hload : cfg.maxPayloadSize ≤ 8959 := by
    unfold Config.maxPayloadSize HomaHeader.serializedSize ipv4SerializedSize
    omega
  rw [← hsized.getMsgSizePkts_eq] at hbytes
  have hsz := Nat.mul_le_mul (Nat.le_of_lt_succ hpkts) hload
  have hbdp := Nat.mul_le_mul (Nat.le_of_lt_succ cfg.rttPackets_lt) hload
  omega

theorem estimate_bounds (hrtt : 1 ≤ cfg.rttPackets) (hsized : msg.Sized cfg) {grantOffset : Nat}
    (hlt : grantOffset < msg.getMsgSizePkts) :
    0 ≤ (msg.msgSizeBytes : Int) - (grantOffset + 1 - cfg.rttPackets) * cfg.maxPayloadSize ∧
      (msg.msgSizeBytes : Int) - (grantOffset + 1 - cfg.rttPackets) * cfg.maxPayloadSize ≤
        msg.msgSizeBytes + cfg.rttPackets * cfg.maxPayloadSize := by
  have hbelow := numPackets_mul_lt cfg msg.msgSizeBytes
  rw [← hsized.getMsgSizePkts_eq] at hbelow
  have hmax : (0 : Int) ≤ cfg.maxPayloadSize := Int.natCast_nonneg _
  constructor
  · have hpkts : ((grantOffset : Int) + 1 - cfg.rttPackets) * cfg.maxPayloadSize ≤
        ((msg.getMsgSizePkts : Int) - 1) * cfg.maxPayloadSize :=
      mul_le_mul_of_nonneg_right (by omega) hmax
    rw [sub_one_mul] at hpkts
    omega
  · have hpkts : (-(cfg.rttPackets : Int)) * cfg.maxPayloadSize ≤
        ((grantOffset : Int) + 1 - cfg.rttPackets) * cfg.maxPayloadSize :=
      mul_le_mul_of_nonneg_right (by omega) hmax
    rw [neg_mul] at hpkts
    omega

namespace Ran

variable {txMsgId : Nat} {history : List MsgEvent}

theorem sized (hran : Ran cfg txMsgId history msg) : msg.Sized cfg := by
  induction hran with
  | accepted hcreate => exact sized_of_create hcreate
  | sent _ hsent _ ih => exact ih.of_same hsent.sameMsg.1
  | received _ hctrl ih => exact ih.of_same hctrl.sameMsg.1

theorem unexpired (hran : Ran cfg txMsgId history msg) : msg.isExpired = false := by
  induction hran with
  | accepted hcreate => exact (create_eq_ok hcreate).sound.unexpired
  | sent _ hsent _ ih => exact hsent.sameMsg.1.isExpired_eq.trans ih
  | received _ hctrl ih => exact hctrl.sameMsg.1.isExpired_eq.trans ih

theorem remainingBytes_lt (hran : Ran cfg txMsgId history msg) :
    msg.remainingBytes < 2 ^ 32 := by
  induction hran with
  | accepted hcreate =>
    rw [remainingBytes_of_create hcreate]
    exact (sized_of_create hcreate).msgSizeBytes_lt
  | sent _ hsent _ ih => exact hsent.remainingBytes ▸ ih
  | received _ hctrl ih =>
    rw [hctrl.remainingBytes]
    split
    · exact uint32OfInt_lt _
    · exact ih

theorem remainingBytes_le (hrtt : 1 ≤ cfg.rttPackets) (hran : Ran cfg txMsgId history msg) :
    msg.remainingBytes ≤ msg.msgSizeBytes + cfg.rttPackets * cfg.maxPayloadSize := by
  induction hran with
  | accepted hcreate =>
    rw [remainingBytes_of_create hcreate]
    exact Nat.le_add_right _ _
  | sent _ hsent _ ih =>
    rw [hsent.remainingBytes, hsent.sameMsg.1.msgSizeBytes_eq]
    exact ih
  | @received _ msg _ header hran hctrl ih =>
    rw [hctrl.remainingBytes, hctrl.sameMsg.1.msgSizeBytes_eq]
    split
    · rw [remainingEstimate, hran.sized.maxPayloadSize_eq]
      have hestimate := @estimate_bounds cfg msg hrtt hran.sized header.grantOffset
        hctrl.grantOffset_lt
      rw [uint32OfInt]
      omega
    · exact ih

end Ran

end HomaOutboundMsg

namespace HomaSendScheduler

open HomaOutboundMsg

variable {cfg : Config} {sched : HomaSendScheduler}

theorem selectMsg_least {entries : List (Nat × HomaOutboundMsg)} {minRemainingBytes : Nat}
    {selected : Option Nat} {txMsgId : Nat}
    (hselect : selectMsg entries minRemainingBytes selected = some txMsgId) :
    (selected = some txMsgId ∧
      ∀ entry ∈ entries, entry.2.Eligible → minRemainingBytes ≤ entry.2.remainingBytes) ∨
      ∃ msg,
        (txMsgId, msg) ∈ entries ∧ msg.Eligible ∧ msg.remainingBytes < minRemainingBytes ∧
          ∀ entry ∈ entries, entry.2.Eligible → msg.remainingBytes ≤ entry.2.remainingBytes := by
  induction entries generalizing minRemainingBytes selected with
  | nil => exact .inl ⟨hselect, fun _ hmem => nomatch hmem⟩
  | cons first rest ih =>
    obtain ⟨firstId, firstMsg⟩ := first
    rw [selectMsg] at hselect
    split at hselect
    next haccept =>
      simp only [Bool.and_eq_true, Bool.not_eq_true', decide_eq_true_eq] at haccept
      obtain ⟨⟨hlive, hless⟩, hsend⟩ := haccept
      have helig : firstMsg.Eligible := eligible_iff.mpr ⟨hlive, hsend⟩
      right
      rcases ih hselect with ⟨hhere, hleast⟩ | ⟨msg, hmem, hmsg, hbelow, hleast⟩
      · cases hhere
        refine ⟨firstMsg, List.mem_cons_self, helig, hless, ?_⟩
        intro entry hent hother
        rcases List.mem_cons.mp hent with rfl | hlater
        · exact le_rfl
        · exact hleast entry hlater hother
      · refine ⟨msg, List.mem_cons_of_mem _ hmem, hmsg, hbelow.trans hless, ?_⟩
        intro entry hent hother
        rcases List.mem_cons.mp hent with rfl | hlater
        · exact hbelow.le
        · exact hleast entry hlater hother
    next hreject =>
      -- an eligible message that is passed over has at least the bound
      have hfst : firstMsg.Eligible → minRemainingBytes ≤ firstMsg.remainingBytes := by
        intro helig
        obtain ⟨hlive, hsend⟩ := eligible_iff.mp helig
        by_contra hless
        exact hreject (by simp [hlive, hsend, Nat.lt_of_not_le hless])
      rcases ih hselect with ⟨hpre, hleast⟩ | ⟨msg, hmem, hmsg, hbelow, hleast⟩
      · refine .inl ⟨hpre, fun entry hent hother => ?_⟩
        rcases List.mem_cons.mp hent with rfl | hlater
        · exact hfst hother
        · exact hleast entry hlater hother
      · refine .inr ⟨msg, List.mem_cons_of_mem _ hmem, hmsg, hbelow, ?_⟩
        intro entry hent hother
        rcases List.mem_cons.mp hent with rfl | hlater
        · exact hbelow.le.trans (hfst hother)
        · exact hleast entry hlater hother

/-- A message is selected when one is eligible, with the fewest remaining bytes of all eligible
ones; expired messages are removed and nothing else changes. -/
structure ShortestFirst (sched : HomaSendScheduler) (order : List Nat) : Prop where
  selects : (sched.getNextMsgId order).2.isSome = true ↔
    ∃ txMsgId msg, sched.outboundMsgs.lookup txMsgId = some msg ∧ msg.Eligible
  least : ∀ txMsgId, (sched.getNextMsgId order).2 = some txMsgId →
    ∃ msg, sched.outboundMsgs.lookup txMsgId = some msg ∧ msg.Eligible ∧
      ∀ otherId other, sched.outboundMsgs.lookup otherId = some other → other.Eligible →
        msg.remainingBytes ≤ other.remainingBytes
  removes : ∀ txMsgId, (sched.getNextMsgId order).1.outboundMsgs.lookup txMsgId =
    (sched.outboundMsgs.lookup txMsgId).filter fun msg => !msg.isExpired
  frees : (sched.getNextMsgId order).1.txMsgIdFreeList = sched.txMsgIdFreeList ++
    order.filter fun txMsgId =>
      (sched.outboundMsgs.lookup txMsgId).any HomaOutboundMsg.isExpired
  keepsEvent : (sched.getNextMsgId order).1.txEventPending = sched.txEventPending

def BelowBound (sched : HomaSendScheduler) : Prop :=
  (∃ txMsgId msg, sched.outboundMsgs.lookup txMsgId = some msg ∧ msg.Eligible) →
    ∃ txMsgId msg, sched.outboundMsgs.lookup txMsgId = some msg ∧ msg.Eligible ∧
      msg.remainingBytes ≠ 2 ^ 32 - 1

theorem txMsgIdFreeList_foldl_clearStateForMsg (expired : List Nat) (sched : HomaSendScheduler) :
    (expired.foldl clearStateForMsg sched).txMsgIdFreeList = sched.txMsgIdFreeList ++ expired := by
  induction expired generalizing sched with
  | nil => simp
  | cons first rest ih =>
    rw [List.foldl_cons, ih]
    simp [clearStateForMsg]

theorem expired_entriesIn (sched : HomaSendScheduler) (order : List Nat) :
    ((sched.entriesIn order).filter fun entry => entry.2.isExpired).map Prod.fst = order.filter fun
        txMsgId => (sched.outboundMsgs.lookup txMsgId).any HomaOutboundMsg.isExpired := by
  induction order with
  | nil => rfl
  | cons txMsgId rest ih =>
    rw [entriesIn] at ih ⊢
    cases hlook : sched.outboundMsgs.lookup txMsgId with
    | none => simpa [hlook] using ih
    | some msg => cases hexp : msg.isExpired <;> simpa [hlook, hexp] using ih

variable {order : List Nat}

theorem getNextMsgId_removes (horder : sched.isTraversal order = true) (txMsgId : Nat) :
    (sched.getNextMsgId order).1.outboundMsgs.lookup txMsgId =
      (sched.outboundMsgs.lookup txMsgId).filter fun msg => !msg.isExpired := by
  rw [getNextMsgId, lookup_foldl_clearStateForMsg, expired_entriesIn]
  cases hlook : sched.outboundMsgs.lookup txMsgId with
  | none => simp
  | some msg =>
    have hmem := mem_of_isTraversal horder hlook
    cases hexp : msg.isExpired <;> simp [hlook, hexp, hmem, Option.filter]

theorem getNextMsgId_isSome_iff
    (hcov : ∀ txMsgId msg, sched.outboundMsgs.lookup txMsgId = some msg → txMsgId ∈ order)
    (hword :
      ∀ txMsgId msg, sched.outboundMsgs.lookup txMsgId = some msg → msg.remainingBytes < 2 ^ 32) :
    (sched.getNextMsgId order).2.isSome = true ↔
      ∃ txMsgId msg,
        sched.outboundMsgs.lookup txMsgId = some msg ∧ msg.Eligible ∧
          msg.remainingBytes ≠ 2 ^ 32 - 1 := by
  constructor
  · intro hsome
    obtain ⟨txMsgId, hselect⟩ := Option.isSome_iff_exists.mp hsome
    rcases selectMsg_least hselect with ⟨hnone, -⟩ | ⟨msg, hmem, helig, hbelow, -⟩
    · cases hnone
    · exact ⟨txMsgId, msg, (mem_entriesIn.mp hmem).2, helig, hbelow.ne⟩
  · rintro ⟨txMsgId, msg, hlook, helig, hne⟩
    rw [Option.isSome_iff_ne_none]
    intro hnone
    obtain ⟨hlive, hsend⟩ := eligible_iff.mp helig
    have hmem := mem_entriesIn.mpr ⟨hcov txMsgId msg hlook, hlook⟩
    have hpassed := selectMsg_none hnone _ hmem
    have hle : 2 ^ 32 - 1 ≤ msg.remainingBytes := by simpa [hlive, hsend] using hpassed
    have hlt := hword txMsgId msg hlook
    omega

theorem shortestFirst_iff_belowBound (horder : sched.isTraversal order = true)
    (hword : ∀ txMsgId msg, sched.outboundMsgs.lookup txMsgId = some msg →
    msg.remainingBytes < 2 ^ 32) : sched.ShortestFirst order ↔ sched.BelowBound := by
  have hcov : ∀ txMsgId msg, sched.outboundMsgs.lookup txMsgId = some msg →
      txMsgId ∈ order := fun _ _ => mem_of_isTraversal horder
  have hsome := getNextMsgId_isSome_iff hcov hword
  constructor
  · intro hrule hany
    exact hsome.mp (hrule.selects.mpr hany)
  · intro hbelow
    refine ⟨⟨?_, fun hany => hsome.mpr (hbelow hany)⟩, ?_, getNextMsgId_removes horder, ?_, ?_⟩
    · intro hsel
      obtain ⟨txMsgId, msg, hlook, helig, -⟩ := hsome.mp hsel
      exact ⟨txMsgId, msg, hlook, helig⟩
    · intro txMsgId hselect
      rcases selectMsg_least hselect with ⟨hnone, -⟩ | ⟨msg, hmem, helig, -, hleast⟩
      · cases hnone
      · refine ⟨msg, (mem_entriesIn.mp hmem).2, helig, ?_⟩
        intro otherId other hother hsendable
        exact hleast _ (mem_entriesIn.mpr ⟨hcov _ _ hother, hother⟩) hsendable
    · rw [getNextMsgId, txMsgIdFreeList_foldl_clearStateForMsg, expired_entriesIn]
    · exact txEventPending_foldl_clearStateForMsg _ _

theorem exists_recorded (hreach : (machine cfg).Reachable sched) :
    ∃ history, (RecordedSender.machine cfg).Reachable ⟨sched, history⟩ := by
  induction hreach with
  | init => exact ⟨_, .init⟩
  | @step _ next input _ _ hstep ih =>
    obtain ⟨history, hprior⟩ := ih
    obtain ⟨⟨moved, events⟩, hhandle, hok⟩ := bind_eq_ok.mp hstep
    obtain rfl : moved = next := Except.ok.inj hok
    exact ⟨_, hprior.step trivial (bind_eq_ok.mpr ⟨_, hhandle, rfl⟩)⟩

theorem ran_of_reachable (hreach : (machine cfg).Reachable sched) {txMsgId : Nat}
    {msg : HomaOutboundMsg} (hlook : sched.outboundMsgs.lookup txMsgId = some msg) :
    ∃ history, Ran cfg txMsgId history msg := by
  obtain ⟨history, hrecorded⟩ := exists_recorded hreach
  exact ⟨_, RecordedSender.faithful_of_reachable hrecorded txMsgId msg hlook⟩

/-- The scan keeps its rule exactly when some eligible estimate is below its bound, as always for a
positive BDP and packets of at most 9000 bytes. -/
theorem shortestFirst_iff (hreachable : (machine cfg).Reachable sched) {order : List Nat}
    (horder : sched.isTraversal order = true) :
    (sched.ShortestFirst order ↔ sched.BelowBound) ∧
      (1 ≤ cfg.rttPackets → cfg.mtu ≤ 9000 → sched.BelowBound) := by
  constructor
  · apply shortestFirst_iff_belowBound horder
    intro txMsgId msg hlook
    obtain ⟨history, hran⟩ := ran_of_reachable hreachable hlook
    exact hran.remainingBytes_lt
  · rintro hrtt hmtu ⟨txMsgId, msg, hlook, heligible⟩
    obtain ⟨history, hran⟩ := ran_of_reachable hreachable hlook
    have hle := hran.remainingBytes_le hrtt
    have hroom := hran.sized.room hmtu
    exact ⟨txMsgId, msg, hlook, heligible, by omega⟩

/-- A BDP of zero on a link whose packets carry two bytes of payload, with SIRD. -/
def zeroBdp : Config :=
  { Config.oneByteSird with
    mtu := 43
    rttPackets := 0
    mtu_gt := by decide
    mtu_lt := by decide
    rttPackets_lt := by decide }

theorem shortestFirst_two :
    let sched := (machine Config.oneByte).after (fun _ _ => true)
      [.send [7, 8] 1 2 5 6 0, .send [9] 1 3 5 6 1] initial
    sched.isTraversal [0, 1] = true ∧ sched.ShortestFirst [0, 1] ∧
      (sched.getNextMsgId [0, 1]).2 = some 1 := by
  intro sched
  have hreachable : (machine Config.oneByte).Reachable sched :=
    ReachableUnder.after (fun _ _ _ => trivial) _ .init
  have horder : sched.isTraversal [0, 1] = true := by decide +kernel
  obtain ⟨hiff, hbelow⟩ := shortestFirst_iff hreachable horder
  exact ⟨horder, hiff.mpr (hbelow (by decide) (by decide)), by decide +kernel⟩

def grantedThree : HomaSendScheduler :=
  (machine zeroBdp).after (fun _ _ => true)
    [.send [7, 8, 9] 1 2 5 6 0, .ctrlPkt RecordedSender.sampleGrant ⟨[0], 0⟩] initial

theorem reachable_grantedThree : (machine zeroBdp).Reachable grantedThree :=
  ReachableUnder.after (fun _ _ _ => trivial) _ .init

/-- The last byte of a word is missing from the last packet: the estimate is the bound of the scan,
and the granted packets are never sent. -/
theorem granted_message_not_selected :
    (machine zeroBdp).Reachable grantedThree ∧ grantedThree.isTraversal [0] = true ∧
      (∃ msg, grantedThree.outboundMsgs.lookup 0 = some msg ∧ msg.Eligible) ∧
      (grantedThree.getNextMsgId [0]).2 = none ∧ ¬ grantedThree.ShortestFirst [0] := by
  have hnone : (grantedThree.getNextMsgId [0]).2 = none := by decide +kernel
  have hstored : (grantedThree.outboundMsgs.lookup 0).any (fun msg =>
      !msg.isExpired && isSendable msg) = true := by decide +kernel
  obtain ⟨msg, hlook, hsend⟩ := (Option.any_eq_true _ _).mp hstored
  have heligible : msg.Eligible := eligible_iff.mpr (by simpa using hsend)
  refine ⟨reachable_grantedThree, by decide +kernel, ⟨msg, hlook, heligible⟩, hnone, ?_⟩
  intro hrule
  have hselects := hrule.selects.mpr ⟨0, msg, hlook, heligible⟩
  rw [hnone] at hselects
  cases hselects

end HomaSendScheduler

end HomaSird.Homa
