import Mathlib.Data.List.TakeWhile
import HomaSird.Data.SpreadMarks
import HomaSird.Tcp.TxHandOut

/-! # The next segment that the send buffer proposes

`NextSeg` looks for lost items and remembers a place for the case that none is lost and
nothing is left to send, all in one scan of the sent list. Below the scan is compared with
the rules for single octets.
-/

/-! ## The rules for the next segment to send -/

namespace HomaSird.Tcp

open Data

structure Octet where
  sacked : Bool
  lost : Bool
  retransmitted : Bool
deriving DecidableEq

namespace Octet

def pending (octet : Octet) : Bool := !octet.sacked && !octet.retransmitted

def pendingLost (octet : Octet) : Bool := octet.pending && octet.lost

end Octet

/-- The octets sent and not acknowledged, how many were not sent, the receiver's window from the
first of them, and the largest segment. -/
structure Sender where
  sent : List Octet
  unsent : Nat
  window : Nat
  smss : Nat

namespace Sender

variable {sender : Sender} {isRecovery : Bool} {start length : Nat} {first second : Option Nat}

/-- (1.a), (1.b): what is neither SACKed nor retransmitted and below the highest SACKed octet. -/
def candidates (sender : Sender) : Set Nat :=
  placesBefore Octet.pending Octet.sacked sender.sent

def lostCandidates (sender : Sender) : Set Nat :=
  placesBefore Octet.pendingLost Octet.sacked sender.sent

def NewData (sender : Sender) : Prop := 0 < sender.unsent ∧ sender.sent.length < sender.window

inductive Choice (sender : Sender) (isRecovery : Bool) : Option Nat → Prop
  | rule1 {start : Nat} (hfst : IsLeast sender.lostCandidates start) :
      Choice sender isRecovery (some start)
  | rule2 (hlost : sender.lostCandidates = ∅) (hnew : sender.NewData) :
      Choice sender isRecovery (some sender.sent.length)
  | rule3 {start : Nat} (hlost : sender.lostCandidates = ∅) (hnew : ¬ sender.NewData)
      (hrecovery : isRecovery = true) (hfst : IsLeast sender.candidates start) :
      Choice sender isRecovery (some start)
  | nothing (hlost : sender.lostCandidates = ∅) (hnew : ¬ sender.NewData)
      (hnone : isRecovery = true → sender.candidates = ∅) : Choice sender isRecovery none

structure Sendable (sender : Sender) (start length : Nat) : Prop where
  nonempty : 0 < length
  le_smss : length ≤ sender.smss
  inside : start + length ≤ sender.sent.length ∨
    sender.sent.length ≤ start ∧ start + length ≤ sender.sent.length + sender.unsent ∧
      start + length ≤ sender.window

theorem not_isLeast_of_empty {places : Set Nat} (hempty : places = ∅) : ¬ IsLeast places start :=
  fun hleast => Set.notMem_empty start (hempty ▸ hleast.1)

theorem Choice.unique (hfst : sender.Choice isRecovery first)
    (hsnd : sender.Choice isRecovery second) : first = second := by
  cases hfst with
  | rule1 hleast =>
    cases hsnd with
    | rule1 hother => rw [hleast.unique hother]
    | rule2 hlost _ => exact absurd hleast (not_isLeast_of_empty hlost)
    | rule3 hlost _ _ _ => exact absurd hleast (not_isLeast_of_empty hlost)
    | nothing hlost _ _ => exact absurd hleast (not_isLeast_of_empty hlost)
  | rule2 hlost hnew =>
    cases hsnd with
    | rule1 hother => exact absurd hother (not_isLeast_of_empty hlost)
    | rule2 _ _ => rfl
    | rule3 _ hnot _ _ => exact absurd hnew hnot
    | nothing _ hnot _ => exact absurd hnew hnot
  | rule3 hlost hnot hrecovery hleast =>
    cases hsnd with
    | rule1 hother => exact absurd hother (not_isLeast_of_empty hlost)
    | rule2 _ hnew => exact absurd hnew hnot
    | rule3 _ _ _ hother => rw [hleast.unique hother]
    | nothing _ _ hnone => exact absurd hleast (not_isLeast_of_empty (hnone hrecovery))
  | nothing hlost hnot hnone =>
    cases hsnd with
    | rule1 hother => exact absurd hother (not_isLeast_of_empty hlost)
    | rule2 _ hnew => exact absurd hnew hnot
    | rule3 _ _ hrecovery hother => exact absurd hother (not_isLeast_of_empty (hnone hrecovery))
    | nothing _ _ _ => rfl

theorem lt_length_of_isLeast {wanted later : Octet → Bool} {octets : List Octet}
    (hfst : IsLeast (placesBefore wanted later octets) start) : start < octets.length := by
  obtain ⟨⟨⟨found, hfound, -⟩, -⟩, -⟩ := hfst
  exact (List.getElem?_eq_some_iff.mp hfound).1

theorem Choice.le_length (hchoice : sender.Choice isRecovery (some start)) :
    start ≤ sender.sent.length := by
  cases hchoice with
  | rule1 hfst => exact le_of_lt (lt_length_of_isLeast hfst)
  | rule2 _ _ => exact le_rfl
  | rule3 _ _ _ hfst => exact le_of_lt (lt_length_of_isLeast hfst)

theorem Choice.below_sacked (hchoice : sender.Choice isRecovery (some start))
    (hsent : start < sender.sent.length) :
    ∃ behind, start < behind ∧ ∃ found ∈ sender.sent[behind]?, found.sacked = true := by
  generalize hsome : some start = choice at hchoice
  cases hchoice with
  | rule1 hfst => exact Option.some.inj hsome ▸ hfst.1.2
  | rule2 _ _ => exact absurd (Option.some.inj hsome) (ne_of_lt hsent)
  | rule3 _ _ _ hfst => exact Option.some.inj hsome ▸ hfst.1.2
  | nothing _ _ _ => cases hsome

theorem Choice.iff_eq (hchoice : sender.Choice isRecovery first) :
    sender.Choice isRecovery second ↔ first = second :=
  ⟨hchoice.unique, fun heq => heq ▸ hchoice⟩

end Sender

open Transition SequenceNumber List Octet

/-! ## The scan -/

/-- What the loop of `NextSeg` returns for rule (1), or has saved for rule (3). -/
inductive Scanned where
  | lost (seq : SequenceNumber32)
  | saved (seqPerRule3 : SequenceNumber32) (isSeqPerRule3Valid : Bool)
deriving DecidableEq

/-- The loop of `NextSeg`, from an item that starts at `beginOfCurrentPkt` on. -/
def scanSent (isRecovery : Bool) : SequenceNumber32 → SequenceNumber32 → Bool → List TxItem →
    Scanned
  | _, seqPerRule3, isSeqPerRule3Valid, [] => .saved seqPerRule3 isSeqPerRule3Valid
  | beginOfCurrentPkt, seqPerRule3, isSeqPerRule3Valid, item :: rest =>
    let next := beginOfCurrentPkt + .of item.size
    if item.retrans == false && item.sacked == false then
      if item.lost then .lost beginOfCurrentPkt
      -- nothing saved yet is recognised by the number that a saved one can have as well
      else if seqPerRule3.value == 0 && isRecovery then
        scanSent isRecovery next beginOfCurrentPkt true rest
      else scanSent isRecovery next seqPerRule3 isSeqPerRule3Valid rest
    else scanSent isRecovery next seqPerRule3 isSeqPerRule3Valid rest

namespace TxBuffer

/-- `NextSeg`: the range if it returns true; `rWnd` is what the callback returns. -/
def nextSeg (buf : TxBuffer) (rWnd : Nat) (isRecovery : Bool) :
    Option (SequenceNumber32 × SequenceNumber32) :=
  match scanSent isRecovery buf.firstByteSeq (.of 0) false buf.sentList with
  | .lost seq => some (seq, seq + .of buf.segmentSize)
  | .saved seqPerRule3 isSeqPerRule3Valid =>
    if 0 < buf.sizeFromSequence buf.sentEnd then
      if buf.sentSize ≤ rWnd then
        some (buf.sentEnd,
          buf.sentEnd + .of (min buf.segmentSize (rWnd - buf.sentSize)))
      else none
    else if isSeqPerRule3Valid then
      some (seqPerRule3, seqPerRule3 + .of buf.segmentSize)
    else none

end TxBuffer

/-! ## The octets of the items -/

namespace TxItem

def octet (item : TxItem) : Octet := ⟨item.sacked, item.lost, item.retrans⟩

def pending (item : TxItem) : Bool := item.octet.pending

def pendingLost (item : TxItem) : Bool := item.octet.pendingLost

end TxItem

def fromFirst (wanted : TxItem → Bool) (items : List TxItem) : List TxItem :=
  items.dropWhile fun item => !wanted item

section Scan

variable {isRecovery valid : Bool} {begin saved : SequenceNumber32} {wanted : TxItem → Bool}
  {item : TxItem} {front back items : List TxItem}

theorem fromFirst_eq_nil (hnil : fromFirst wanted items = []) :
    ∀ item ∈ items, wanted item = false := by
  intro item hitem
  simpa using dropWhile_eq_nil_iff.mp hnil item hitem

theorem fromFirst_eq_cons (hcons : fromFirst wanted items = item :: back) :
    ∃ front,
      items = front ++ item :: back ∧ (∀ other ∈ front, wanted other = false) ∧
        wanted item = true := by
  refine ⟨items.takeWhile fun item => !wanted item, ?_, fun other hother => ?_, ?_⟩
  · rw [← hcons, fromFirst, takeWhile_append_dropWhile]
  · simpa using mem_takeWhile_imp hother
  · have hhead := head?_dropWhile_not (fun item => !wanted item) items
    rw [← fromFirst, hcons] at hhead
    simpa using hhead

theorem pending_eq (item : TxItem) :
    (item.retrans == false && item.sacked == false) = item.pending := by
  cases hrtx : item.retrans <;> cases hsacked : item.sacked <;>
    simp [TxItem.pending, TxItem.octet, pending, hrtx, hsacked]

theorem scanSent_cons :
    scanSent isRecovery begin saved valid (item :: back) =
      if item.pendingLost then .lost begin
      else if item.pending && (saved.value == 0 && isRecovery) then
          scanSent isRecovery (begin.byte item.size) begin true back
        else scanSent isRecovery (begin.byte item.size) saved valid back := by
  rw [scanSent, pending_eq, add_of]
  cases hpend : item.pending <;> cases hlost : item.lost <;>
    simp_all [TxItem.pendingLost, pendingLost, TxItem.pending, TxItem.octet]

theorem scanSent_pass (hfront : ∀ other ∈ front, other.pending = false) :
    scanSent isRecovery begin saved valid (front ++ items) =
      scanSent isRecovery (begin.byte (totalSize front)) saved valid items := by
  induction front generalizing begin with
  | nil => rw [nil_append, totalSize_nil, byte_zero]
  | cons first rest ih =>
    obtain ⟨hfst, hrest⟩ := forall_mem_cons.mp hfront
    have hlost : first.pendingLost = false := by
      rw [TxItem.pendingLost, pendingLost]
      rw [TxItem.pending] at hfst
      rw [hfst, Bool.false_and]
    rw [cons_append, scanSent_cons, hlost, hfst, Bool.false_and]
    simp only [Bool.false_eq_true, if_false]
    rw [ih hrest, byte_byte, totalSize_cons]

theorem scanSent_lost (hfront : ∀ other ∈ front, other.pendingLost = false)
    (hitem : item.pendingLost = true) :
    scanSent isRecovery begin saved valid (front ++ item :: back) =
      .lost (begin.byte (totalSize front)) := by
  induction front generalizing begin saved valid with
  | nil => rw [nil_append, scanSent_cons, if_pos hitem, totalSize_nil,
      byte_zero]
  | cons first rest ih =>
    obtain ⟨hfst, hrest⟩ := forall_mem_cons.mp hfront
    rw [cons_append, scanSent_cons, hfst, if_neg Bool.false_ne_true, totalSize_cons, ← byte_byte]
    split <;> exact ih hrest

theorem scanSent_kept (hnone : ∀ item ∈ items, item.pendingLost = false)
    (hkept : (saved.value == 0 && isRecovery) = false) :
    scanSent isRecovery begin saved valid items = .saved saved valid := by
  induction items generalizing begin with
  | nil => rfl
  | cons first rest ih =>
    obtain ⟨hfst, hrest⟩ := forall_mem_cons.mp hnone
    rw [scanSent_cons, hfst, hkept, Bool.and_false, if_neg Bool.false_ne_true,
      if_neg Bool.false_ne_true, ih hrest]

theorem scanSent_unlost {start : Nat}
    {first : SequenceNumber32} (hitems : ∀ item ∈ items, 0 < item.size ∧ item.pendingLost = false)
    (hsaved : valid = true → ∃ place, place < start ∧ saved = first.byte place) :
    ∃ last valid', scanSent isRecovery (first.byte start) saved valid items = .saved last valid' ∧
    (valid' = true → ∃ place, place < start + totalSize items ∧ last = first.byte place) := by
  induction items generalizing start saved valid with
  | nil => exact ⟨saved, valid, rfl, hsaved⟩
  | cons item rest ih =>
    obtain ⟨⟨hsz, hitem⟩, hrest⟩ := forall_mem_cons.mp hitems
    rw [scanSent_cons, hitem, if_neg Bool.false_ne_true, byte_byte, totalSize_cons, ← Nat.add_assoc]
    split
    · exact ih hrest fun _ => ⟨start, by omega, rfl⟩
    · refine ih hrest fun hvalid => ?_
      obtain ⟨place, hplace, rfl⟩ := hsaved hvalid
      exact ⟨place, by omega, rfl⟩

end Scan

/-! ## The rules, for the items -/

theorem spread_octets_length (items : List TxItem) :
    (spread TxItem.size TxItem.octet items).length = totalSize items := by
  induction items with
  | nil => rfl
  | cons item rest ih => simp [ih]

theorem placesBefore_of_fromFirst {wanted : Octet → Bool} {item : TxItem} {items back : List TxItem}
    (hwanted : ∀ octet, wanted octet = true → octet.sacked = false)
    (hne : ∀ item ∈ items, 0 < item.size)
    (hcons : fromFirst (fun item => wanted item.octet) items = item :: back) :
    ∃ front,
      items = front ++ item :: back ∧ (∀ other ∈ front, wanted other.octet = false) ∧
        wanted item.octet = true ∧
        ((item :: back).any TxItem.sacked = true →
          IsLeast (placesBefore wanted sacked (spread TxItem.size TxItem.octet items))
            (totalSize front)) ∧
        ((item :: back).any TxItem.sacked = false →
          placesBefore wanted sacked (spread TxItem.size TxItem.octet items) = ∅) := by
  obtain ⟨front, rfl, hfront, hitem⟩ := fromFirst_eq_cons hcons
  have hsacked : item.sacked = false := hwanted _ hitem
  refine ⟨front, rfl, hfront, hitem, fun hany => ?_, fun hnone => ?_⟩
  · rw [any_cons, hsacked, Bool.false_or, any_eq_true] at hany
    obtain ⟨other, hother, hlater⟩ := hany
    rw [← spread_octets_length]
    exact isLeast_placesBefore hfront hitem
      (fun other hother => hne other (mem_append_right _ hother)) hother hlater
  · rw [any_cons, Bool.or_eq_false_iff, any_eq_false] at hnone
    exact placesBefore_eq_empty_of_first hfront hitem hwanted
      fun other hother => eq_false_of_ne_true (hnone.2 other hother)

theorem sacked_of_pending {octet : Octet}
    (hpend : octet.pending = true) : octet.sacked = false := by
  rw [pending, Bool.and_eq_true] at hpend
  simpa using hpend.1

theorem sacked_of_pendingLost {octet : Octet}
    (hpend : octet.pendingLost = true) : octet.sacked = false := by
  rw [pendingLost, Bool.and_eq_true] at hpend
  exact sacked_of_pending hpend.1

namespace TxBuffer

def sender (buf : TxBuffer) (rWnd : Nat) : Sender where
  sent := spread TxItem.size TxItem.octet buf.sentList
  unsent := buf.size - buf.sentSize
  window := rWnd
  smss := buf.segmentSize

/-- `NextSeg` returns what the rules prescribe, and a range that can be sent. -/
def FollowsRules (buf : TxBuffer) (rWnd : Nat) (isRecovery : Bool) : Prop :=
  match buf.nextSeg rWnd isRecovery with
  | none => (buf.sender rWnd).Choice isRecovery none
  | some range => ∃ start length, range.1 = buf.firstByteSeq.byte start ∧
      range.2 = range.1.byte length ∧ (buf.sender rWnd).Choice isRecovery (some start) ∧
      (buf.sender rWnd).Sendable start length

def segmentBelowSack (buf : TxBuffer) (items : List TxItem) : Bool :=
  items.any TxItem.sacked &&
    decide (0 < buf.segmentSize ∧ buf.segmentSize ≤ totalSize items)

/-- What is retransmitted must lie below a SACKed item and a whole segment long; what is saved must
not start at number zero, unless nothing else can be; new data must fill the segment that the open
window allows, and a closed window must be exceeded. -/
def keepsRules (buf : TxBuffer) (rWnd : Nat) (isRecovery : Bool) : Bool :=
  let lost := fromFirst TxItem.pendingLost buf.sentList
  let pending := fromFirst TxItem.pending buf.sentList
  let unsent := buf.size - buf.sentSize
  let comparable := buf.tailSequence.ge buf.sentEnd
  if !lost.isEmpty then buf.segmentBelowSack lost
  else if 0 < unsent ∧ buf.sentSize < rWnd then
    comparable && decide (0 < buf.segmentSize ∧
      min buf.segmentSize (rWnd - buf.sentSize) ≤ unsent)
  else if 0 < unsent ∧ comparable = true then
    decide (buf.sentSize ≠ rWnd) && !(isRecovery && pending.any TxItem.sacked)
  else
    !isRecovery || pending.isEmpty || (buf.segmentBelowSack pending &&
      (pending.head?.any (fun item => item.startSeq.value != 0) ||
        !pending.tail.any TxItem.pending))

section Rules

variable {buf : TxBuffer} {rWnd start length : Nat} {isRecovery valid : Bool}
  {saved : SequenceNumber32} {item : TxItem} {front back : List TxItem}

theorem follows_none_iff (hnext : buf.nextSeg rWnd isRecovery = none) :
    buf.FollowsRules rWnd isRecovery ↔ (buf.sender rWnd).Choice isRecovery none := by
  rw [FollowsRules, hnext]

theorem sender_length (hlay : buf.Layout) :
    (buf.sender rWnd).sent.length = buf.sentSize :=
  (spread_octets_length _).trans hlay.sentSize_eq.symm

theorem follows_some_iff (hlay : buf.Layout) (hsegment : buf.segmentSize < 2 ^ 32)
    (hnext : buf.nextSeg rWnd isRecovery =
      some (buf.firstByteSeq.byte start, (buf.firstByteSeq.byte start).byte length))
    (hstart : start < 2 ^ 32) (hlen : length < 2 ^ 32) :
    buf.FollowsRules rWnd isRecovery ↔
      (buf.sender rWnd).Choice isRecovery (some start) ∧
        (buf.sender rWnd).Sendable start length := by
  rw [FollowsRules, hnext]
  constructor
  · rintro ⟨other, size, hother, hsz, hchoice, hsendable⟩
    have hle := hchoice.le_length
    have hsent := hlay.sent_lt
    have hsmss := hsendable.le_smss
    rw [sender_length hlay, hlay.sentSize_eq] at hle
    dsimp only [sender] at hother hsz hsmss
    rw [byte_inj_of_lt (by omega) (by omega)] at hother hsz
    rw [hother, hsz]
    exact ⟨hchoice, hsendable⟩
  · rintro ⟨hchoice, hsendable⟩
    exact ⟨start, length, rfl, rfl, hchoice, hsendable⟩

theorem sendable_sent_iff (hlay : buf.Layout) (hlist : buf.sentList = front ++ item :: back) :
    (buf.sender rWnd).Sendable (totalSize front) buf.segmentSize ↔
      0 < buf.segmentSize ∧ buf.segmentSize ≤ totalSize (item :: back) := by
  have hlen := @sender_length _ rWnd hlay
  have hsz := hlay.sentSize_eq
  have hitem := hlay.sent_nonempty item (by simp [hlist])
  rw [hlist, totalSize_append, totalSize_cons] at hsz
  rw [totalSize_cons]
  constructor
  · rintro ⟨hsome, -, hin⟩
    rw [hlen] at hin
    omega
  · rintro ⟨hsome, hle⟩
    exact ⟨hsome, le_rfl, .inl (by omega)⟩

theorem sizeFromSequence_sentEnd (hlay : buf.Layout) :
    buf.sizeFromSequence buf.sentEnd =
      if buf.tailSequence.ge buf.sentEnd then buf.size - buf.sentSize else 0 := by
  have hsent := hlay.sentSize_eq
  have hsz := hlay.size_eq
  have hle := hlay.size_le
  have hlt := hlay.maxBuffer_lt
  rw [sizeFromSequence, tailSequence, sentEnd, add_of, add_of,
    uint32_sub_byte (by omega) (by omega)]

/-! ### An item is lost -/

theorem follows_lost_iff (hlay : buf.Layout) (hsegment : buf.segmentSize < 2 ^ 32)
    (hlost : fromFirst TxItem.pendingLost buf.sentList = item :: back) :
    buf.FollowsRules rWnd isRecovery ↔ buf.segmentBelowSack (item :: back) = true := by
  obtain ⟨front, hlist, hfront, hitem, hleast, hempty⟩ :=
    @placesBefore_of_fromFirst pendingLost _ _ _ (fun _ => sacked_of_pendingLost)
      hlay.sent_nonempty hlost
  have hword := hlay.sent_lt
  have hsz := hlay.sentSize_eq
  have hsome := hlay.sent_nonempty item (by simp [hlist])
  rw [hlist, totalSize_append, totalSize_cons] at hword hsz
  have hnext : buf.nextSeg rWnd isRecovery = some
      (buf.firstByteSeq.byte (totalSize front),
        (buf.firstByteSeq.byte (totalSize front)).byte buf.segmentSize) := by
    rw [nextSeg, hlist, scanSent_lost hfront hitem]
    rfl
  rw [follows_some_iff hlay hsegment hnext (by omega) hsegment, sendable_sent_iff hlay hlist,
    segmentBelowSack, Bool.and_eq_true, decide_eq_true_eq]
  refine and_congr_left fun _ => ?_
  cases hany : (item :: back).any TxItem.sacked with
  | true => exact iff_of_true (.rule1 (hleast hany)) rfl
  | false =>
    refine iff_of_false (fun hchoice => ?_) Bool.false_ne_true
    have hlen := @sender_length _ rWnd hlay
    obtain ⟨behind, hbehind, found, hfound, hsacked⟩ := hchoice.below_sacked (by omega)
    rw [any_cons, Bool.or_eq_false_iff, any_eq_false] at hany
    dsimp only [sender] at hfound
    rw [hlist] at hfound
    obtain ⟨other, hother, hlater⟩ := @exists_behind _ _ _ TxItem.octet sacked _ _ _ _
      (sacked_of_pendingLost hitem)
      (by rw [spread_octets_length]; exact le_of_lt hbehind) _ hfound hsacked
    exact hany.2 other hother hlater

/-! ### Nothing is lost -/

theorem lostCandidates_eq_empty (hunlost : fromFirst TxItem.pendingLost buf.sentList = []) :
    (buf.sender rWnd).lostCandidates = ∅ :=
  placesBefore_eq_empty (fromFirst_eq_nil hunlost)

theorem candidates_eq_empty_iff (hlay : buf.Layout) :
    (buf.sender rWnd).candidates = ∅ ↔
      (fromFirst TxItem.pending buf.sentList).any TxItem.sacked = false := by
  cases hpend : fromFirst TxItem.pending buf.sentList with
  | nil => exact iff_of_true (placesBefore_eq_empty (fromFirst_eq_nil hpend)) rfl
  | cons item back =>
    obtain ⟨front, -, -, -, hleast, hempty⟩ :=
      @placesBefore_of_fromFirst pending _ _ _ (fun _ => sacked_of_pending)
        hlay.sent_nonempty hpend
    cases hany : (item :: back).any TxItem.sacked with
    | true =>
      exact iff_of_false (fun hnone => Sender.not_isLeast_of_empty hnone (hleast hany)) nofun
    | false => exact iff_of_true (hempty hany) rfl

theorem choice_none_iff (hlay : buf.Layout)
    (hunlost : fromFirst TxItem.pendingLost buf.sentList = [])
    (hnot : ¬ (buf.sender rWnd).NewData) :
    (buf.sender rWnd).Choice isRecovery none ↔
      (isRecovery && (fromFirst TxItem.pending buf.sentList).any TxItem.sacked) = false := by
  have hempty := @candidates_eq_empty_iff _ rWnd hlay
  rw [Bool.and_eq_false_iff, ← hempty]
  constructor
  · intro hchoice
    cases hchoice with
    | nothing _ _ hnone =>
      cases isRecovery with
      | true => exact .inr (hnone rfl)
      | false => exact .inl rfl
  · rintro (hno | hnone)
    · exact .nothing (lostCandidates_eq_empty hunlost) hnot fun hyes =>
        absurd hyes (ne_true_of_eq_false hno)
    · exact .nothing (lostCandidates_eq_empty hunlost) hnot fun _ => hnone

theorem exists_scan (hlay : buf.Layout) (hunlost : fromFirst TxItem.pendingLost buf.sentList = []) :
    ∃ saved valid,
      scanSent isRecovery buf.firstByteSeq (.of 0) false buf.sentList = .saved saved valid ∧
        (valid = true → ∃ place, place < buf.sentSize ∧ saved = buf.firstByteSeq.byte place) := by
  have hscan := @scanSent_unlost isRecovery false (.of 0) buf.sentList 0 buf.firstByteSeq
    (fun item hitem => ⟨hlay.sent_nonempty item hitem, fromFirst_eq_nil hunlost item hitem⟩)
    nofun
  rwa [byte_zero, Nat.zero_add, ← hlay.sentSize_eq] at hscan

theorem nextSeg_saved
    (hscan : scanSent isRecovery buf.firstByteSeq (.of 0) false buf.sentList =
      .saved (buf.firstByteSeq.byte start) true) (hnone : buf.sizeFromSequence buf.sentEnd = 0) :
    buf.nextSeg rWnd isRecovery =
      some (buf.firstByteSeq.byte start, (buf.firstByteSeq.byte start).byte buf.segmentSize) := by
  rw [nextSeg, hscan]
  dsimp only
  rw [hnone, if_neg (lt_irrefl 0), if_pos rfl]
  rfl

theorem nextSeg_nothing
    (hscan : scanSent isRecovery buf.firstByteSeq (.of 0) false buf.sentList = .saved saved false)
    (hnone : buf.sizeFromSequence buf.sentEnd = 0) :
    buf.nextSeg rWnd isRecovery = none := by
  rw [nextSeg, hscan]
  dsimp only
  rw [hnone, if_neg (lt_irrefl 0), if_neg Bool.false_ne_true]

section

variable (hlay : buf.Layout) (hsegment : buf.segmentSize < 2 ^ 32)
  (hunlost : fromFirst TxItem.pendingLost buf.sentList = []) (hunsent : 0 < buf.size - buf.sentSize)
include hlay hsegment hunlost hunsent

theorem follows_new_iff (hopen : buf.sentSize < rWnd) :
    buf.FollowsRules rWnd isRecovery ↔
      (buf.tailSequence.ge buf.sentEnd &&
        decide (0 < buf.segmentSize ∧
            min buf.segmentSize (rWnd - buf.sentSize) ≤ buf.size - buf.sentSize)) = true := by
  obtain ⟨saved, valid, hscan, hplace⟩ := @exists_scan _ isRecovery hlay hunlost
  have hlen := @sender_length _ rWnd hlay
  have hsent := hlay.sentSize_eq
  have hword := hlay.sent_lt
  have hchoice : (buf.sender rWnd).Choice isRecovery (some buf.sentSize) := by
    rw [← hlen]
    exact .rule2 (lostCandidates_eq_empty hunlost) ⟨hunsent, by rwa [hlen]⟩
  have hsz := sizeFromSequence_sentEnd hlay
  cases hcomp : buf.tailSequence.ge buf.sentEnd with
  | true =>
    rw [hcomp, if_pos rfl] at hsz
    have hnext : buf.nextSeg rWnd isRecovery =
        some (buf.firstByteSeq.byte buf.sentSize,
          (buf.firstByteSeq.byte buf.sentSize).byte
            (min buf.segmentSize (rWnd - buf.sentSize))) := by
      rw [nextSeg, hscan]
      dsimp only
      rw [hsz, if_pos hunsent, if_pos (le_of_lt hopen)]
      rfl
    rw [follows_some_iff hlay hsegment hnext (by omega) (by omega), Bool.true_and,
      decide_eq_true_eq]
    constructor
    · rintro ⟨-, hsome, -, hin⟩
      rw [hlen] at hin
      dsimp only [sender] at hin
      omega
    · rintro ⟨hsome, hle⟩
      refine ⟨hchoice, by omega, Nat.min_le_left _ _, .inr ?_⟩
      rw [hlen]
      dsimp only [sender]
      omega
  | false =>
    rw [hcomp, if_neg Bool.false_ne_true] at hsz
    refine iff_of_false (fun hfollows => ?_) (by simp)
    cases valid with
    | false =>
      have hnone := (follows_none_iff (nextSeg_nothing hscan hsz)).mp hfollows
      cases hchoice.unique hnone
    | true =>
      obtain ⟨place, hpre, rfl⟩ := hplace rfl
      have hfollowed := ((follows_some_iff hlay hsegment (nextSeg_saved hscan hsz)
        (by omega) hsegment).mp hfollows).1
      have hsame := Option.some.inj (hchoice.unique hfollowed)
      omega

theorem follows_closed_iff (hcomp : buf.tailSequence.ge buf.sentEnd = true)
    (hclosed : rWnd ≤ buf.sentSize) :
    buf.FollowsRules rWnd isRecovery ↔
      (decide (buf.sentSize ≠ rWnd) &&
        !(isRecovery && (fromFirst TxItem.pending buf.sentList).any TxItem.sacked)) = true := by
  obtain ⟨saved, valid, hscan, -⟩ := @exists_scan _ isRecovery hlay hunlost
  have hlen := @sender_length _ rWnd hlay
  have hsent := hlay.sentSize_eq
  have hword := hlay.sent_lt
  have hsz := sizeFromSequence_sentEnd hlay
  rw [hcomp, if_pos rfl] at hsz
  rcases Nat.eq_or_lt_of_le hclosed with rfl | hless
  · have hnext : buf.nextSeg buf.sentSize isRecovery =
        some (buf.firstByteSeq.byte buf.sentSize,
          (buf.firstByteSeq.byte buf.sentSize).byte (min buf.segmentSize 0)) := by
      rw [nextSeg, hscan]
      dsimp only
      rw [hsz, if_pos hunsent, if_pos (Nat.le_refl _), Nat.sub_self]
      rfl
    rw [follows_some_iff hlay hsegment hnext (by omega) (by omega)]
    refine iff_of_false (fun hboth => ?_) (by simp)
    have hsome := hboth.2.nonempty
    rw [Nat.min_zero] at hsome
    exact Nat.lt_irrefl 0 hsome
  · have hnext : buf.nextSeg rWnd isRecovery = none := by
      rw [nextSeg, hscan]
      dsimp only
      rw [hsz, if_pos hunsent, if_neg (Nat.not_le_of_lt hless)]
    have hnot : ¬ (buf.sender rWnd).NewData := by
      rintro ⟨-, hopen⟩
      rw [hlen] at hopen
      exact Nat.lt_asymm hless hopen
    rw [follows_none_iff hnext, choice_none_iff hlay hunlost hnot,
      decide_eq_true (Nat.ne_of_gt hless), Bool.true_and, Bool.not_eq_true']

end

/-! ### Rule (3) -/

theorem scan_first (hfront : ∀ other ∈ front, other.pending = false) (hitem : item.pending = true)
    (hunlost : ∀ other ∈ item :: back, other.pendingLost = false)
    (hkept :
      (buf.firstByteSeq.byte (totalSize front)).value ≠ 0 ∨ back.any TxItem.pending = false) :
    scanSent true buf.firstByteSeq (.of 0) false (front ++ item :: back) =
      .saved (buf.firstByteSeq.byte (totalSize front)) true := by
  obtain ⟨hlost, hback⟩ := forall_mem_cons.mp hunlost
  rw [scanSent_pass hfront, scanSent_cons, hlost, if_neg Bool.false_ne_true, if_pos (by
    rw [hitem]; rfl)]
  rcases hkept with hnonzero | hnone
  · exact scanSent_kept hback (by simpa using hnonzero)
  · rw [any_eq_false] at hnone
    have hpass := @scanSent_pass true true
      ((buf.firstByteSeq.byte (totalSize front)).byte item.size)
      (buf.firstByteSeq.byte (totalSize front)) back []
      fun other hother => eq_false_of_ne_true (hnone other hother)
    rw [append_nil] at hpass
    exact hpass

theorem scan_replaced (hne : ∀ other ∈ item :: back, 0 < other.size)
    (hword : totalSize (front ++ item :: back) < 2 ^ 32)
    (hfront : ∀ other ∈ front, other.pending = false) (hitem : item.pending = true)
    (hunlost : ∀ other ∈ item :: back, other.pendingLost = false)
    (hzero : (buf.firstByteSeq.byte (totalSize front)).value = 0)
    (hmore : back.any TxItem.pending = true) :
    ∃ place,
      totalSize front < place ∧ place < totalSize (front ++ item :: back) ∧
        scanSent true buf.firstByteSeq (.of 0) false (front ++ item :: back) =
          .saved (buf.firstByteSeq.byte place) true := by
  obtain ⟨hlost, hback⟩ := forall_mem_cons.mp hunlost
  cases hrest : fromFirst TxItem.pending back with
  | nil =>
    obtain ⟨other, hother, hpend⟩ := any_eq_true.mp hmore
    rw [fromFirst_eq_nil hrest other hother] at hpend
    cases hpend
  | cons next behind =>
    obtain ⟨between, rfl, hbetween, hnext⟩ := fromFirst_eq_cons hrest
    rw [forall_mem_append, forall_mem_cons] at hback
    have hsz := hne item mem_cons_self
    have hmore := hne next (by simp)
    simp only [totalSize_append, totalSize_cons] at hword ⊢
    have hplace : ((buf.firstByteSeq.byte (totalSize front)).byte item.size).byte
        (totalSize between) =
        buf.firstByteSeq.byte (totalSize front + (item.size + totalSize between)) := by
      rw [SequenceNumber.byte_byte, SequenceNumber.byte_byte]
    refine ⟨totalSize front + (item.size + totalSize between), by omega, by omega, ?_⟩
    rw [scanSent_pass hfront, scanSent_cons, hlost, if_neg Bool.false_ne_true,
      if_pos (by rw [hitem]; rfl), scanSent_pass hbetween, scanSent_cons, hback.2.1,
      if_neg Bool.false_ne_true, if_pos (by rw [hnext, hzero]; rfl), hplace]
    refine scanSent_kept hback.2.2 ?_
    rw [Bool.and_true, beq_eq_false_iff_ne, ne_eq, ← hzero]
    intro heq
    have hsame := congrArg SequenceNumber.mk heq
    have := (SequenceNumber.byte_inj_of_lt (by omega) (by omega)).mp hsame
    omega

theorem follows_saved_iff (hlay : buf.Layout) (hsegment : buf.segmentSize < 2 ^ 32)
    (hunlost : fromFirst TxItem.pendingLost buf.sentList = [])
    (hnot : ¬ (buf.sender rWnd).NewData)
    (hnothing : buf.sizeFromSequence buf.sentEnd = 0) :
    let pending := fromFirst TxItem.pending buf.sentList
    buf.FollowsRules rWnd isRecovery ↔
      (!isRecovery || pending.isEmpty || (buf.segmentBelowSack pending &&
        (pending.head?.any (fun item => item.startSeq.value != 0) ||
          !pending.tail.any TxItem.pending))) = true := by
  intro pending
  have hnone := @choice_none_iff _ rWnd isRecovery hlay hunlost hnot
  cases isRecovery with
  | false =>
    refine iff_of_true ?_ rfl
    have hscan := @scanSent_kept false false buf.firstByteSeq (.of 0) buf.sentList
      (fromFirst_eq_nil hunlost) (Bool.and_false _)
    exact (follows_none_iff (nextSeg_nothing hscan hnothing)).mpr (hnone.mpr rfl)
  | true =>
    cases hpend : pending with
    | nil =>
      refine iff_of_true ?_ rfl
      have hscan := @scanSent_pass true false buf.firstByteSeq (.of 0) buf.sentList []
        (fromFirst_eq_nil hpend)
      rw [append_nil] at hscan
      refine (follows_none_iff (nextSeg_nothing hscan hnothing)).mpr (hnone.mpr ?_)
      rw [show fromFirst TxItem.pending buf.sentList = [] from hpend]
      rfl
    | cons item back =>
      obtain ⟨front, hlist, hfront, hitem, hleast, hempty⟩ :=
        @placesBefore_of_fromFirst Octet.pending _ _ _ (fun _ => sacked_of_pending)
          hlay.sent_nonempty hpend
      have hword := hlay.sent_lt
      have hplain : ∀ other ∈ item :: back, other.pendingLost = false := fun other hother =>
        fromFirst_eq_nil hunlost other (by rw [hlist]; exact mem_append_right _ hother)
      have hstart : item.startSeq = buf.firstByteSeq.byte (totalSize front) := by
        have hcontig := hlay.contiguous
        rw [hlist, contiguous_append] at hcontig
        exact hcontig.2.1
      rw [show fromFirst TxItem.pending buf.sentList = item :: back from hpend,
        Bool.true_and] at hnone
      rw [head?_cons, Option.any_some, tail_cons, isEmpty_cons, Bool.not_true,
        Bool.false_or, Bool.false_or, hstart, Bool.and_eq_true, Bool.or_eq_true, bne_iff_ne,
        Bool.not_eq_true']
      -- the choice is none unless the item lies below a SACKed one
      have hchoice : ∀ {place}, (buf.sender rWnd).Choice true (some place) ↔
          (item :: back).any TxItem.sacked = true ∧ totalSize front = place := by
        intro place
        cases hany : (item :: back).any TxItem.sacked with
        | true =>
          have hthree : (buf.sender rWnd).Choice true (some (totalSize front)) :=
            .rule3 (lostCandidates_eq_empty hunlost) hnot rfl (hleast hany)
          rw [hthree.iff_eq, Option.some.injEq]
          exact (and_iff_right rfl).symm
        | false =>
          rw [(hnone.mpr hany).iff_eq]
          simp
      by_cases hkept : (buf.firstByteSeq.byte (totalSize front)).value ≠ 0 ∨
          back.any TxItem.pending = false
      · have hscan := @scan_first buf item front back hfront hitem hplain hkept
        rw [← hlist] at hscan
        rw [hlist, totalSize_append] at hword
        rw [follows_some_iff hlay hsegment (nextSeg_saved hscan hnothing) (by omega)
            hsegment, hchoice, sendable_sent_iff hlay hlist, segmentBelowSack,
          Bool.and_eq_true, decide_eq_true_eq, and_iff_left (rfl : totalSize front = totalSize
            front),
          and_iff_left hkept]
      · refine iff_of_false (fun hfollows => ?_) fun hboth => hkept hboth.2
        rw [not_or, ne_eq, not_not, Bool.not_eq_false] at hkept
        obtain ⟨place, hbehind, hpre, hscan⟩ := @scan_replaced buf item front back
          (fun other hother => hlay.sent_nonempty other
            (by rw [hlist]; exact mem_append_right _ hother))
          (by rwa [← hlist]) hfront hitem hplain hkept.1 hkept.2
        rw [← hlist] at hscan hpre
        have hfollowed := ((follows_some_iff hlay hsegment (nextSeg_saved hscan hnothing)
          (by omega) hsegment).mp hfollows).1
        have hsame := (hchoice.mp hfollowed).2
        omega

theorem follows_iff_keepsRules (hlay : buf.Layout) (hsegment : buf.segmentSize < 2 ^ 32) :
    buf.FollowsRules rWnd isRecovery ↔ buf.keepsRules rWnd isRecovery = true := by
  rw [keepsRules]
  cases hlost : fromFirst TxItem.pendingLost buf.sentList with
  | cons item back => exact follows_lost_iff hlay hsegment hlost
  | nil =>
    have hlen := @sender_length _ rWnd hlay
    have hsz := sizeFromSequence_sentEnd hlay
    rw [isEmpty_nil, Bool.not_true, if_neg Bool.false_ne_true]
    split
    next hnew => exact follows_new_iff hlay hsegment hlost hnew.1 hnew.2
    next hnew =>
      split
      next hunsent =>
        exact follows_closed_iff hlay hsegment hlost hunsent.1 hunsent.2 (by omega)
      next hunsent =>
        refine follows_saved_iff hlay hsegment hlost ?_ ?_
        · rintro ⟨hsome, hopen⟩
          rw [hlen] at hopen
          exact hnew ⟨hsome, hopen⟩
        · rw [hsz]
          split
          next hcomp =>
            exact Nat.eq_zero_of_not_pos fun hsome => hunsent ⟨hsome, hcomp⟩
          · rfl

end Rules

/-! ## Calls and the segment size -/

section Calls

variable {buf next : TxBuffer}

theorem addRenoSack_segmentSize (hadd : buf.addRenoSack = .ok next) :
    next.segmentSize = buf.segmentSize := by
  obtain ⟨_, -, hadd⟩ := bind_eq_ok.mp hadd
  dsimp only at hadd
  split at hadd
  · cases hadd
  · split at hadd <;> obtain rfl := Except.ok.inj hadd <;> rfl

theorem markHeadAsLost_segmentSize (buf : TxBuffer) :
    buf.markHeadAsLost.segmentSize = buf.segmentSize := by
  rw [markHeadAsLost]
  split <;> rfl

variable {seq : SequenceNumber32}

theorem Copied.segmentSize {now numBytes : Nat} {result : Option TxItem × TxBuffer} (hcopied :
    Copied buf now numBytes seq result) : result.2.segmentSize = buf.segmentSize := by
  cases hcopied <;> rfl

theorem repairHead_segmentSize (hrepair : buf.repairHead seq = .ok next) :
    next.segmentSize = buf.segmentSize := by
  rw [repairHead] at hrepair
  split at hrepair
  · cases hrepair
    rfl
  next head rest _ =>
    obtain ⟨repaired, hrep, hrepair⟩ := bind_eq_ok.mp hrepair
    obtain ⟨_, -, hrepair⟩ := bind_eq_ok.mp hrepair
    cases hrepair
    split at hrep
    · obtain ⟨_, -, hrep⟩ := bind_eq_ok.mp hrep
      obtain ⟨added, hadded, hrep⟩ := bind_eq_ok.mp hrep
      cases hrep
      have hsame := addRenoSack_segmentSize hadded
      exact (markHeadAsLost_segmentSize added).trans hsame
    · cases hrep
      rfl

theorem discardUpTo_segmentSize {now : Nat} (hlay : buf.Layout)
    (hdisc : buf.discardUpTo now seq = .ok next) : next.segmentSize = buf.segmentSize := by
  cases hahead : buf.firstByteSeq.ge seq with
  | true =>
    rw [discardUpTo, if_pos hahead] at hdisc
    rw [← Except.ok.inj hdisc]
  | false =>
    obtain ⟨discarded, repaired, hchain, -, hrep, rfl⟩ := discardUpTo_eq_ok hlay hdisc hahead
    have hdrop := chain_keep (fun pair => pair.1.segmentSize = buf.segmentSize) hchain
      (fun before after hstep hpre => by
        cases hstep with
        | send _ hcopied => exact hcopied.segmentSize.trans hpre
        | drop hdrops => cases hdrops <;> exact hpre) rfl
    have hat : (discarded.atSeq seq).segmentSize = discarded.segmentSize := by
      rw [atSeq]
      split <;> rfl
    have hforget : repaired.forgetSack.segmentSize = repaired.segmentSize := by
      rw [forgetSack]
      split <;> rfl
    rw [hforget, repairHead_segmentSize hrep, hat]
    exact hdrop

theorem call_segmentSize {call : TxCall} (hlay : buf.Layout)
    (hcall : buf.call call = .ok next) : next.segmentSize = buf.segmentSize := by
  cases call with
  | add p =>
    cases hcall
    rw [add]
    split
    · split <;> rfl
    · rfl
  | copyFromSequence now numBytes seq =>
    obtain ⟨result, hcopy, hres⟩ := bind_eq_ok.mp hcall
    cases hres
    exact (copied_of_copyFromSequence hlay hcopy).segmentSize
  | discardUpTo now seq => exact discardUpTo_segmentSize hlay hcall
  | update list =>
    obtain ⟨result, hupd, hres⟩ := bind_eq_ok.mp hcall
    cases hres
    obtain ⟨middle, hsacks, hloses⟩ := update_eq_ok hupd
    have hmiddle := chain_keep (fun pair => pair.1.segmentSize = buf.segmentSize) hsacks
      (fun _ _ hsack hpre => by cases hsack; exact hpre) rfl
    exact chain_keep (fun other => other.segmentSize = buf.segmentSize) hloses
      (fun _ _ hlose hpre => by cases hlose; exact hpre) hmiddle
  | addRenoSack => exact addRenoSack_segmentSize hcall
  | resetRenoSack =>
    cases hcall
    rfl
  | markHeadAsLost =>
    cases hcall
    exact markHeadAsLost_segmentSize buf
  | deleteRetransmittedFlagFromHead =>
    rw [call, deleteRetransmittedFlagFromHead] at hcall
    split at hcall
    · rw [← Except.ok.inj hcall]
    · split at hcall
      · cases hcall
      · split at hcall <;> obtain rfl := Except.ok.inj hcall <;> rfl
  | setSentListLost resetSack =>
    obtain ⟨_, -, hset⟩ := bind_eq_ok.mp hcall
    cases hset
    cases resetSack <;> rfl
  | resetSentList =>
    cases hcall
    rfl
  | resetLastSegmentSent =>
    cases hcall
    rw [resetLastSegmentSent]
    split <;> rfl

end Calls

end TxBuffer

/-! ## Runs -/

section Runs

variable {n isn : SequenceNumber32} {maxBuffer dupAckThresh segmentSize : Nat}
  {sackEnabled : Bool} {initial : TxBuffer} {state : TxState}

def Opened (n isn : SequenceNumber32) (maxBuffer dupAckThresh segmentSize : Nat)
    (sackEnabled : Bool) (initial : TxBuffer) : Prop :=
  initial = .create isn maxBuffer dupAckThresh segmentSize sackEnabled ∨
    (TxBuffer.create n maxBuffer dupAckThresh segmentSize sackEnabled).setHeadSequence isn =
      .ok initial

theorem layout_of_opened (hmax : maxBuffer < 2 ^ 32)
    (hopened : Opened n isn maxBuffer dupAckThresh segmentSize sackEnabled initial)
    (hst : (txMachine initial).Reachable state) :
    state.buffer.Layout ∧ state.buffer.segmentSize = segmentSize := by
  have hinit : Stored isn (txMachine initial).init ∧ initial.segmentSize = segmentSize := by
    rcases hopened with rfl | hset
    · exact ⟨stored_of_reachable hmax .init, rfl⟩
    · cases hset
      exact ⟨⟨⟨by simp [txMachine, TxBuffer.create], trivial, rfl, rfl, Nat.zero_le _, hmax⟩,
        Nat.le_refl _, rfl, (byte_zero isn).symm⟩, rfl⟩
  have hkeep : Stored isn state ∧ state.buffer.segmentSize = segmentSize := by
    refine @Machine.ReachableUnder.invariant _ _ _ _ _
      (fun state => Stored isn state ∧ state.buffer.segmentSize = segmentSize) hinit ?_ _ hst
    rintro before call after ⟨hstored, hsegment⟩ - hstep
    refine ⟨hstored.step hstep, ?_⟩
    obtain ⟨buf, hcall, hnext⟩ := bind_eq_ok.mp hstep
    rw [← Except.ok.inj hnext]
    exact (TxBuffer.call_segmentSize hstored.layout hcall).trans hsegment
  exact ⟨hkeep.1.layout, hkeep.2⟩

/-- On every reachable scoreboard `NextSeg` returns what the rules prescribe, a range that can be
sent, exactly under the condition. -/
theorem nextSeg_follows_rules_iff (hmax : maxBuffer < 2 ^ 32) (hword : segmentSize < 2 ^ 32)
    (hopened : Opened n isn maxBuffer dupAckThresh segmentSize sackEnabled initial)
    (hst : (txMachine initial).Reachable state) (rWnd : Nat) (isRecovery : Bool) :
    state.buffer.FollowsRules rWnd isRecovery ↔ state.buffer.keepsRules rWnd isRecovery = true := by
  obtain ⟨hlay, hsegment⟩ := layout_of_opened hmax hopened hst
  exact TxBuffer.follows_iff_keepsRules hlay (hsegment ▸ hword)

theorem nextSeg_follows_rules_lost :
    let initial := TxBuffer.create (.of (2 ^ 32 - 2)) 100 3 2 true
    let state := (txMachine initial).after (fun _ _ => true)
      [.add [1, 2, 3, 4, 5, 6, 7, 8, 9, 10], .copyFromSequence 1 2 (.of (2 ^ 32 - 2)),
        .copyFromSequence 2 2 (.of 0), .copyFromSequence 3 2 (.of 2), .copyFromSequence 4 2 (.of 4),
        .update [⟨.of 0, .of 6⟩]] (txMachine initial).init
    state.buffer.nextSeg 100 false = some (.of (2 ^ 32 - 2), .of 0) ∧
      state.buffer.FollowsRules 100 false := by
  intro initial state
  have hst : (txMachine initial).Reachable state :=
    Machine.ReachableUnder.after (fun _ _ _ => trivial) _ .init
  have hkeeps : state.buffer.keepsRules 100 false = true := by decide +kernel
  exact ⟨by decide +kernel, (@nextSeg_follows_rules_iff (.of 0) (.of (2 ^ 32 - 2)) 100 3 2 true
    initial state (by decide) (by decide) (.inl rfl) hst 100 false).mpr hkeeps⟩

/-- The head is at number zero, nothing is left to send and only the third segment is SACKed: rule
(3) prescribes the head, but the second takes its place. -/
theorem nextSeg_passes_number_zero :
    let initial := TxBuffer.create (.of (2 ^ 32 - 2)) 100 3 2 true
    let state := (txMachine initial).after (fun _ _ => true)
      [.add [1, 2, 3, 4, 5, 6, 7, 8], .copyFromSequence 1 2 (.of (2 ^ 32 - 2)),
        .copyFromSequence 2 2 (.of 0), .copyFromSequence 3 2 (.of 2), .copyFromSequence 4 2 (.of 4),
        .discardUpTo 5 (.of 0), .update [⟨.of 4, .of 6⟩]] (txMachine initial).init
    (txMachine initial).Reachable state ∧ state.buffer.firstByteSeq = .of 0 ∧
      state.buffer.nextSeg 100 true = some (.of 2, .of 4) ∧
      (state.buffer.sender 100).Choice true (some 0) ∧ ¬ state.buffer.FollowsRules 100 true := by
  intro initial state
  have hst : (txMachine initial).Reachable state :=
    Machine.ReachableUnder.after (fun _ _ _ => trivial) _ .init
  obtain ⟨hlay, hsegment⟩ := @layout_of_opened (.of 0) (.of (2 ^ 32 - 2)) 100 3 2 true initial
    state (by decide) (.inl rfl) hst
  have hkeeps : state.buffer.keepsRules 100 true = false := by decide +kernel
  have hlost : fromFirst TxItem.pendingLost state.buffer.sentList = [] := by decide +kernel
  have hunsent : (state.buffer.sender 100).unsent = 0 := by decide +kernel
  have hsent : (state.buffer.sender 100).sent =
      [⟨false, false, false⟩, ⟨false, false, false⟩, ⟨false, false, false⟩,
        ⟨false, false, false⟩, ⟨true, false, false⟩, ⟨true, false, false⟩] := by decide +kernel
  refine ⟨hst, by decide +kernel, by decide +kernel, ?_, fun hfollows => ?_⟩
  · refine .rule3 (TxBuffer.lostCandidates_eq_empty hlost) (fun hnew => ?_) rfl
      ⟨?_, fun _ _ => Nat.zero_le _⟩
    · have hsome := hnew.1
      rw [hunsent] at hsome
      cases hsome
    · rw [Sender.candidates, hsent]
      exact ⟨⟨_, rfl, rfl⟩, 4, by decide, _, rfl, rfl⟩
  · rw [TxBuffer.follows_iff_keepsRules hlay (hsegment ▸ by decide), hkeeps] at hfollows
    cases hfollows

end Runs

end HomaSird.Tcp
