import HomaSird.Homa.Packetize
import HomaSird.Homa.SenderStep
import Mathlib.Data.List.Induction
import Mathlib.Data.List.TakeWhile

/-! # The history of an outbound message

What a message has sent and which GRANTs and RESENDs have reached it determine its window, the
state of its credit request and, for offsets that no RESEND has named, what is left in its queue.
-/

namespace HomaSird.Homa

open List

/-- What happens to a stored message: DATA is sent for it, or a GRANT or RESEND reaches it. -/
inductive MsgEvent where
  | sent (packet : Packet)
  | received (header : HomaHeader)
deriving DecidableEq

namespace MsgEvent

def isSent : MsgEvent → Bool
  | sent _ => true
  | received _ => false

def isRequest : MsgEvent → Bool
  | sent packet => packet.payload.isEmpty
  | received _ => false

def isDataAt (pktOffset : Nat) : MsgEvent → Bool
  | sent packet => !packet.payload.isEmpty && decide (packet.homaHeader.pktOffset = pktOffset)
  | received _ => false

def grantOffset : MsgEvent → Nat
  | sent _ => 0
  | received header => header.grantOffset

end MsgEvent

def largestGrant (history : List MsgEvent) : Nat :=
  (history.map MsgEvent.grantOffset).foldl max 0

def beforeGrant (history : List MsgEvent) : List MsgEvent := history.takeWhile MsgEvent.isSent

def namedByResend (history : List MsgEvent) (pktOffset : Nat) : Prop :=
  ∃ header, .received header ∈ history ∧ header.hasFlag .resend = true ∧
    header.pktOffset = pktOffset

theorem largestGrant_concat (history : List MsgEvent) (event : MsgEvent) :
    largestGrant (history ++ [event]) = max (largestGrant history) event.grantOffset := by
  simp [largestGrant]

theorem beforeGrant_of_all {history : List MsgEvent}
    (hall : history.all MsgEvent.isSent = true) : beforeGrant history = history := by
  rw [all_eq_true] at hall
  exact takeWhile_eq_self_iff.mpr hall

theorem beforeGrant_concat_of_not_all {history : List MsgEvent}
    (hall : ¬ history.all MsgEvent.isSent = true)
    (event : MsgEvent) : beforeGrant (history ++ [event]) = beforeGrant history := by
  induction history with
  | nil => exact absurd rfl hall
  | cons first rest ih =>
    unfold beforeGrant at ih ⊢
    rw [cons_append]
    by_cases hfst : first.isSent = true
    · rw [takeWhile_cons_of_pos hfst, takeWhile_cons_of_pos hfst, ih]
      simpa [hfst] using hall
    · rw [takeWhile_cons_of_neg hfst, takeWhile_cons_of_neg hfst]

theorem beforeGrant_concat_received (history : List MsgEvent)
    (header : HomaHeader) : beforeGrant (history ++ [.received header]) = beforeGrant history := by
  by_cases hall : history.all MsgEvent.isSent = true
  · rw [beforeGrant_of_all hall, beforeGrant, takeWhile_append_of_pos]
    · simp [MsgEvent.isSent]
    · simpa using hall
  · exact beforeGrant_concat_of_not_all hall _

namespace HomaOutboundMsg

open HomaSendScheduler

variable {cfg : Config} {msg next : HomaOutboundMsg} {header : HomaHeader}

/-- The payload of one offset as `RemoveNextPktFromTxQ` hands it out. -/
def fragment (cfg : Config) (msg : HomaOutboundMsg) (pktOffset : Nat) : Payload :=
  if cfg.memIsOptimized then List.replicate (msg.pktSizes.getD pktOffset 0) 0
  else msg.packets.getD pktOffset []

/-! ## What one event does to a message -/

theorem raiseGrant_packets (cfg : Config) (msg : HomaOutboundMsg) (header : HomaHeader) :
    (msg.raiseGrant cfg header).packets = msg.packets ∧
      (msg.raiseGrant cfg header).pktSizes = msg.pktSizes ∧
      (msg.raiseGrant cfg header).initialCreditRequestSent = msg.initialCreditRequestSent := by
  unfold raiseGrant
  dsimp only
  split
  · exact ⟨rfl, rfl, rfl⟩
  · split
    · exact ⟨rfl, rfl, rfl⟩
    · exact ⟨rfl, rfl, rfl⟩

theorem raiseGrant_maxGrantedIdx (cfg : Config) (msg : HomaOutboundMsg) (header : HomaHeader) :
    (msg.raiseGrant cfg header).maxGrantedIdx = max msg.maxGrantedIdx header.grantOffset := by
  unfold raiseGrant
  dsimp only
  split
  next hless => exact (max_eq_right hless.le).symm
  next hle =>
    rw [max_eq_left (Nat.le_of_not_lt hle)]
    split
    · rfl
    · rfl

theorem raiseGrant_waitForFirstGrant (cfg : Config) (msg : HomaOutboundMsg) (header : HomaHeader) :
    (msg.raiseGrant cfg header).waitForFirstGrant =
      (msg.waitForFirstGrant && !decide (msg.maxGrantedIdx ≤ header.grantOffset)) := by
  have hwait : (msg.raiseGrant cfg header).waitForFirstGrant = (msg.waitForFirstGrant &&
      !(msg.waitForFirstGrant && decide (msg.maxGrantedIdx ≤ header.grantOffset))) := by
    unfold raiseGrant
    dsimp only
    split
    · rfl
    · split
      · rfl
      · rfl
  rw [hwait]
  cases msg.waitForFirstGrant <;> rfl

structure Raised (header : HomaHeader) (msg next : HomaOutboundMsg) : Prop where
  packets_eq : next.packets = msg.packets
  pktSizes_eq : next.pktSizes = msg.pktSizes
  initialCreditRequestSent_eq : next.initialCreditRequestSent = msg.initialCreditRequestSent
  maxGrantedIdx_eq : next.maxGrantedIdx = max msg.maxGrantedIdx header.grantOffset
  waitForFirstGrant_eq : next.waitForFirstGrant =
    (msg.waitForFirstGrant && !decide (msg.maxGrantedIdx ≤ header.grantOffset))

theorem raised_of_handleGrantOffset (hgrant : msg.handleGrantOffset cfg header = .ok next) :
    Raised header msg next := by
  have hpkts := raiseGrant_packets cfg msg header
  have hraised : Raised header msg (msg.raiseGrant cfg header) :=
    ⟨hpkts.1, hpkts.2.1, hpkts.2.2, raiseGrant_maxGrantedIdx cfg msg header,
      raiseGrant_waitForFirstGrant cfg msg header⟩
  simp only [handleGrantOffset] at hgrant
  split at hgrant
  · cases hgrant
    split
    · exact ⟨hraised.1, hraised.2, hraised.3, hraised.4, hraised.5⟩
    · exact hraised
  · cases hgrant

theorem Raised.handleResend {queued : HomaOutboundMsg} (hraised : Raised header msg next)
    (hresend : next.handleResend header = .ok queued) : Raised header msg queued := by
  have hle : header.grantOffset ≤ next.maxGrantedIdx := by
    rw [hraised.maxGrantedIdx_eq]
    exact le_max_right _ _
  simp only [HomaOutboundMsg.handleResend] at hresend
  split at hresend
  · rw [if_neg (not_lt.mpr hle)] at hresend
    cases hresend
    exact ⟨hraised.1, hraised.2, hraised.3, hraised.4, hraised.5⟩
  · cases hresend

theorem Controlled.raised (hctrl : Controlled cfg header msg next) : Raised header msg next := by
  cases hctrl with
  | grant _ hgrant => exact raised_of_handleGrantOffset hgrant
  | resend _ hgrant hresend => exact (raised_of_handleGrantOffset hgrant).handleResend hresend

theorem Controlled.grantOffset_lt (hctrl : Controlled cfg header msg next) :
    header.grantOffset < msg.getMsgSizePkts := by
  have hgranted {granted : HomaOutboundMsg}
      (hgrant : msg.handleGrantOffset cfg header = .ok granted) :
      header.grantOffset < msg.getMsgSizePkts := by
    simp only [handleGrantOffset] at hgrant
    split at hgrant
    next hlt => exact hlt
    · cases hgrant
  cases hctrl with
  | grant _ hgrant => exact hgranted hgrant
  | resend _ hgrant => exact hgranted hgrant

theorem Transmitted.window {txMsgId : Nat} {packet : Packet}
    (hsent : Transmitted cfg txMsgId msg next packet) :
    next.packets = msg.packets ∧ next.pktSizes = msg.pktSizes ∧
      next.maxGrantedIdx = msg.maxGrantedIdx := by
  cases hsent with
  | request => exact ⟨rfl, rfl, rfl⟩
  | data _ hrem hnext =>
    obtain ⟨held, hspent⟩ := spent_eq cfg { msg with pktTxQ := msg.pktTxQ.popWhileTop _ }
    rw [hrem] at hnext
    rw [hnext, hspent]
    exact ⟨rfl, rfl, rfl⟩

/-! ## Histories -/

inductive Ran (cfg : Config) (txMsgId : Nat) : List MsgEvent → HomaOutboundMsg → Prop where
  | accepted {message : Payload} {saddr daddr : Ipv4Address} {sport dport origin : Nat}
      {msg : HomaOutboundMsg}
      (hcreate : create cfg message saddr daddr sport dport origin = .ok msg) :
      Ran cfg txMsgId [] msg
  | sent {history : List MsgEvent} {msg next : HomaOutboundMsg} {packet : Packet}
      (hran : Ran cfg txMsgId history msg)
      (htransmitted : Transmitted cfg txMsgId msg next packet)
      (hpayload : packet.payload = if msg.needsInitialCreditRequest then []
        else msg.fragment cfg packet.homaHeader.pktOffset) :
      Ran cfg txMsgId (history ++ [.sent packet]) next
  | received {history : List MsgEvent} {msg next : HomaOutboundMsg} {header : HomaHeader}
      (hran : Ran cfg txMsgId history msg)
      (hcontrolled : Controlled cfg header msg next) :
      Ran cfg txMsgId (history ++ [.received header]) next

namespace Ran

variable {txMsgId : Nat} {history : List MsgEvent} {packet : Packet}

theorem fragments_eq (hran : Ran cfg txMsgId history msg) :
    ∃ message,
      msg.getMsgSizePkts = (fragments cfg message).length ∧
        msg.packets = (if cfg.memIsOptimized then [] else fragments cfg message) ∧
        msg.pktSizes = if cfg.memIsOptimized then (fragments cfg message).map length else [] := by
  induction hran with
  | @accepted message _ _ _ _ _ _ hcreate =>
    have hfresh := fresh_of_create hcreate
    exact ⟨message, hfresh.getMsgSizePkts_eq, hfresh.packets_eq, hfresh.pktSizes_eq⟩
  | sent _ hsent _ ih =>
    rw [hsent.sameMsg.1.getMsgSizePkts_eq, hsent.window.1, hsent.window.2.1]
    exact ih
  | received _ hctrl ih =>
    rw [hctrl.sameMsg.1.getMsgSizePkts_eq, hctrl.raised.packets_eq, hctrl.raised.pktSizes_eq]
    exact ih

theorem fragment_ne_nil (hran : Ran cfg txMsgId history msg) {pktOffset : Nat}
    (hlt : pktOffset < msg.getMsgSizePkts) : msg.fragment cfg pktOffset ≠ [] := by
  obtain ⟨message, hsz, hpkts, hpktSizes⟩ := hran.fragments_eq
  rw [hsz] at hlt
  have hmem := (mem_fragments (getElem_mem hlt)).1
  unfold fragment
  split
  next hmode =>
    rw [hpktSizes, if_pos hmode]
    simpa [hlt] using hmem
  next hmode =>
    rw [hpkts, if_neg hmode]
    simpa [hlt] using hmem

theorem maxGrantedIdx_eq (hran : Ran cfg txMsgId history msg) :
    msg.maxGrantedIdx = max (initialWindow cfg msg.getMsgSizePkts).1 (largestGrant history) := by
  induction hran with
  | accepted hcreate =>
    rw [(fresh_of_create hcreate).maxGrantedIdx_eq]
    simp [largestGrant]
  | sent _ hsent _ ih =>
    rw [hsent.window.2.2, hsent.sameMsg.1.getMsgSizePkts_eq, largestGrant_concat, ih]
    simp [MsgEvent.grantOffset]
  | received _ hctrl ih =>
    rw [hctrl.raised.maxGrantedIdx_eq, hctrl.sameMsg.1.getMsgSizePkts_eq,
      largestGrant_concat, ih, max_assoc]
    rfl

theorem initialWindow_of_waiting {numPkts : Nat}
    (hwait : (initialWindow cfg numPkts).2 = true) : (initialWindow cfg numPkts).1 = 0 := by
  unfold initialWindow at hwait ⊢
  split at hwait
  next hzero => rw [if_pos hzero]
  next hpos =>
    rw [if_neg hpos]
    split at hwait
    next hsird =>
      rw [if_pos hsird]
      split at hwait
      next hlong => rw [if_pos hlong]
      · cases hwait
    · cases hwait

theorem largestGrant_of_all (hall : history.all MsgEvent.isSent = true) :
    largestGrant history = 0 := by
  induction history using reverseRecOn with
  | nil => rfl
  | append_singleton earlier event ih =>
    simp only [all_append, all_cons, all_nil, Bool.and_true, Bool.and_eq_true] at hall
    rw [largestGrant_concat, ih hall.1]
    cases event with
    | sent packet => rfl
    | received header => cases hall.2

section

variable (hran : Ran cfg txMsgId history msg)
include hran

theorem waitForFirstGrant_eq :
    msg.waitForFirstGrant =
      ((initialWindow cfg msg.getMsgSizePkts).2 && history.all MsgEvent.isSent) := by
  induction hran with
  | accepted hcreate =>
    rw [(fresh_of_create hcreate).waitForFirstGrant_eq]
    simp
  | sent _ hsent _ ih =>
    rw [hsent.sameMsg.2, hsent.sameMsg.1.getMsgSizePkts_eq, ih]
    simp [MsgEvent.isSent]
  | @received history msg next header hran hctrl ih =>
    rw [hctrl.raised.waitForFirstGrant_eq, hctrl.sameMsg.1.getMsgSizePkts_eq]
    by_cases hwait : msg.waitForFirstGrant = true
    · -- the first GRANT always reaches the granted offset, which is still zero
      have hboth := Bool.and_eq_true_iff.mp (ih ▸ hwait)
      have hzero : msg.maxGrantedIdx = 0 := by
        rw [hran.maxGrantedIdx_eq, initialWindow_of_waiting hboth.1, largestGrant_of_all hboth.2]
        rfl
      simp [hzero, MsgEvent.isSent]
    · simp [hwait, MsgEvent.isSent]

theorem sent_cases (hsent : Transmitted cfg txMsgId msg next packet)
    (hload : packet.payload =
      if msg.needsInitialCreditRequest then [] else msg.fragment cfg packet.homaHeader.pktOffset) :
    (msg.waitForFirstGrant = true ∧ msg.initialCreditRequestSent = false ∧ packet.payload = [] ∧
      next.initialCreditRequestSent = true ∧ next.pktTxQ = msg.pktTxQ) ∨
      (msg.waitForFirstGrant = false ∧ packet.payload ≠ [] ∧
        next.initialCreditRequestSent = msg.initialCreditRequestSent ∧
        msg.getNextPktOffset = some packet.homaHeader.pktOffset ∧
        next.pktTxQ = msg.pktTxQ.popWhileTop packet.homaHeader.pktOffset) := by
  cases hsent with
  | request hreq =>
    have hboth := Bool.and_eq_true_iff.mp hreq
    exact Or.inl ⟨hboth.1, by simpa using hboth.2, rfl, rfl, rfl⟩
  | @data removed _ pktOffset payload csn hoff hrem hnext =>
    have hin := getNextPktOffset_eq_some hoff
    have hneeds : msg.needsInitialCreditRequest = false := by
      rw [needsInitialCreditRequest, hin.1]
      rfl
    rw [hneeds] at hload
    have hfrag := hran.fragment_ne_nil hin.2.2.2
    obtain ⟨held, hspent⟩ := spent_eq cfg { msg with pktTxQ := msg.pktTxQ.popWhileTop _ }
    rw [hrem] at hnext
    rw [hnext, hspent]
    refine Or.inr ⟨hin.1, ?_, rfl, hoff, rfl⟩
    rw [hload]
    exact hfrag

theorem countP_isRequest_eq :
    history.countP MsgEvent.isRequest = if msg.initialCreditRequestSent then 1 else 0 := by
  induction hran with
  | accepted hcreate =>
    rw [(fresh_of_create hcreate).initialCreditRequestSent_eq]
    rfl
  | sent hran htransmitted hload ih =>
    rw [countP_append, ih]
    rcases hran.sent_cases htransmitted hload with ⟨-, hunsent, hnil, hsent, -⟩ |
      ⟨-, hne, hsame, -, -⟩
    · simp [hunsent, hsent, hnil, MsgEvent.isRequest]
    · simp [hsame, hne, MsgEvent.isRequest]
  | received _ hctrl ih =>
    rw [countP_append, ih, hctrl.raised.initialCreditRequestSent_eq]
    simp [MsgEvent.isRequest]

theorem beforeGrant_isRequest (hwait : (initialWindow cfg msg.getMsgSizePkts).2 = true) :
    (∀ event ∈ beforeGrant history, event.isRequest = true) ∧
    history.countP MsgEvent.isRequest = (beforeGrant history).length := by
  induction hran with
  | accepted => simp [beforeGrant]
  | @sent history msg next packet hran hsent hload ih =>
    rw [hsent.sameMsg.1.getMsgSizePkts_eq] at hwait
    obtain ⟨hreqs, hcnt⟩ := ih hwait
    have hwaiting := hran.waitForFirstGrant_eq
    rw [hwait, Bool.true_and] at hwaiting
    rcases hran.sent_cases hsent hload with ⟨hstill, -, hnil, -⟩ | ⟨hopen, hne, -⟩
    · rw [hwaiting] at hstill
      have hall : (history ++ [MsgEvent.sent packet]).all MsgEvent.isSent = true := by
        simpa [MsgEvent.isSent] using hstill
      rw [beforeGrant_of_all hstill] at hreqs hcnt
      rw [beforeGrant_of_all hall, countP_append, hcnt, length_append]
      simp only [mem_append, mem_singleton]
      refine ⟨?_, by simp [MsgEvent.isRequest, hnil]⟩
      rintro event (hearly | rfl)
      · exact hreqs event hearly
      · simp [MsgEvent.isRequest, hnil]
    · rw [hopen] at hwaiting
      rw [beforeGrant_concat_of_not_all (by simp [← hwaiting]), countP_append]
      refine ⟨hreqs, ?_⟩
      simpa [MsgEvent.isRequest, hne] using hcnt
  | @received history msg next header _ hctrl ih =>
    rw [hctrl.sameMsg.1.getMsgSizePkts_eq] at hwait
    rw [beforeGrant_concat_received, countP_append]
    simpa [MsgEvent.isRequest] using ih hwait

theorem count_add_countP_isDataAt {pktOffset : Nat} (hnamed : ¬ namedByResend history pktOffset) :
    msg.pktTxQ.count pktOffset + history.countP (MsgEvent.isDataAt pktOffset) =
      if pktOffset < msg.getMsgSizePkts then 1 else 0 := by
  induction hran with
  | accepted hcreate =>
    rw [(fresh_of_create hcreate).pktTxQ_eq, MinQueue.count_range]
    simp
  | @sent history msg next packet hran hsent hload ih =>
    have hearly := ih fun ⟨header, hmem, hheader⟩ =>
      hnamed ⟨header, mem_append_left _ hmem, hheader⟩
    rw [hsent.sameMsg.1.getMsgSizePkts_eq, ← hearly, countP_append]
    rcases hran.sent_cases hsent hload with ⟨-, -, hnil, -, hq⟩ |
      ⟨-, hne, -, hoff, hq⟩
    · simp [hq, hnil, MsgEvent.isDataAt]
    · have hin := getNextPktOffset_eq_some hoff
      have hpos := MinQueue.count_pos_of_top? hin.2.1
      rw [hq]
      by_cases hsame : packet.homaHeader.pktOffset = pktOffset
      · -- its only queued copy is the one that is sent
        subst hsame
        rw [if_pos hin.2.2.2] at hearly
        have hfresh : history.countP (MsgEvent.isDataAt packet.homaHeader.pktOffset) = 0 := by
          omega
        rw [hearly, MinQueue.count_popWhileTop_self hin.2.1, hfresh]
        simp [hne, MsgEvent.isDataAt]
      · rw [MinQueue.count_popWhileTop_of_ne _ (Ne.symm hsame)]
        simp [hsame, MsgEvent.isDataAt]
  | @received history msg next header _ hctrl ih =>
    have hearly := ih fun ⟨header, hmem, hheader⟩ =>
      hnamed ⟨header, mem_append_left _ hmem, hheader⟩
    have hq : next.pktTxQ.count pktOffset = msg.pktTxQ.count pktOffset := by
      cases hctrl with
      | grant _ hgrant => rw [(handleGrantOffset_eq_ok hgrant).2.1]
      | resend hflag hgrant hresend =>
        have hne : header.pktOffset ≠ pktOffset := fun heq =>
          hnamed ⟨header, by simp, hflag, heq⟩
        rw [(handleResend_eq_ok hresend).2.1, (handleGrantOffset_eq_ok hgrant).2.1,
          MinQueue.count_push, if_neg hne, add_zero]
    rw [hctrl.sameMsg.1.getMsgSizePkts_eq, ← hearly, hq, countP_append]
    simp [MsgEvent.isDataAt]

theorem sent_within {earlier : List MsgEvent} (hearly : earlier ++ [.sent packet] <+: history)
    (hload : packet.payload ≠ []) :
    packet.homaHeader.pktOffset < msg.getMsgSizePkts ∧
      packet.homaHeader.pktOffset ≤
        max (initialWindow cfg msg.getMsgSizePkts).1 (largestGrant earlier) := by
  induction hran with
  | accepted => simp at hearly
  | @sent history msg next last hran hsent hlast ih =>
    rw [hsent.sameMsg.1.getMsgSizePkts_eq]
    rcases prefix_concat_iff.mp hearly with heq | hpre
    · obtain ⟨rfl, hsame⟩ := append_inj' heq rfl
      obtain rfl : packet = last := by simpa using hsame
      rcases hran.sent_cases hsent hlast with ⟨-, -, hnil, -⟩ | ⟨-, -, -, hoff, -⟩
      · exact absurd hnil hload
      · have hin := getNextPktOffset_eq_some hoff
        exact ⟨hin.2.2.2, hran.maxGrantedIdx_eq ▸ hin.2.2.1⟩
    · exact ih hpre
  | @received history msg next header _ hctrl ih =>
    rw [hctrl.sameMsg.1.getMsgSizePkts_eq]
    rcases prefix_concat_iff.mp hearly with heq | hpre
    · have hlast := (append_inj' heq rfl).2
      simp at hlast
    · exact ih hpre

end

end Ran

end HomaOutboundMsg

end HomaSird.Homa
