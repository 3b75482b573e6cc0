import HomaSird.Tcp.TxWalks

/-! # The bytes that the send buffer hands out

`CopyFromSequence` retransmits bytes, sends new ones, or asks for the part of them that was
sent before. In every state of every run it hands out the right bytes of the stream exactly
when the flags of the bytes it would join agree and the plain numbers it compares do not wrap.
-/

namespace HomaSird.Tcp

open Transition SequenceNumber List

namespace TxBuffer

/-! ## How much is retransmitted at once -/

section MergeLimit

variable {isn seq : SequenceNumber32} {start limit : Nat} {list : List TxItem}

theorem mergeLimit_of_none (hcontig : Contiguous (isn.byte start) list)
    (hnone : ∀ front item back, list = front ++ item :: back →
    isn.byte (start + totalSize front) ≠ seq) : mergeLimit limit seq list = limit := by
  induction list generalizing start with
  | nil => rfl
  | cons first rest ih =>
    obtain ⟨hfst, hrest⟩ := hcontig
    have hne : first.startSeq ≠ seq := hfst ▸ hnone [] first rest rfl
    rw [byte_byte] at hrest
    rw [mergeLimit.eq_def]
    dsimp only
    rw [if_neg hne]
    refine ih hrest fun front item back hlist => ?_
    rw [Nat.add_assoc, ← totalSize_cons]
    exact hnone (first :: front) item back (congrArg (cons first) hlist)

theorem mergeLimit_at {front back : List TxItem} {item : TxItem}
    (hcontig : Contiguous (isn.byte start) (front ++ item :: back))
    (hnonempty : ∀ other ∈ front ++ item :: back, 0 < other.size)
    (hword : totalSize front < 2 ^ 32) :
    mergeLimit limit (isn.byte (start + totalSize front)) (front ++ item :: back) =
      mergeLimit limit item.startSeq (item :: back) := by
  induction front generalizing start with
  | nil =>
    have hitem : item.startSeq = isn.byte start := hcontig.1
    rw [totalSize_nil, Nat.add_zero, ← hitem]
    rfl
  | cons first rest ih =>
    obtain ⟨hfst, hrest⟩ := hcontig
    rw [cons_append, forall_mem_cons] at hnonempty
    rw [totalSize_cons] at hword ⊢
    have hne : first.startSeq ≠ isn.byte (start + (first.size + totalSize rest)) := by
      rw [hfst, ne_eq, byte_inj_of_lt (by omega) (by omega)]
      omega
    rw [byte_byte] at hrest
    rw [cons_append, mergeLimit.eq_def]
    dsimp only
    rw [if_neg hne, ← Nat.add_assoc]
    exact ih hrest hnonempty.2 (by omega)

theorem alike_of_take_le {item : TxItem} {size : Nat} (hle : size ≤ item.size)
    (rest : List TxItem) : alike ((marks (item :: rest)).take size) = true := by
  rw [marks_cons, take_append_of_le_length (by rwa [length_replicate]),
    take_replicate, Nat.min_eq_left hle]
  cases size with
  | zero => rfl
  | succ less => simp [replicate_succ, alike]

theorem alike_mergeLimit {item : TxItem} {back : List TxItem}
    (hsack : item.sacked = false) (hword : totalSize (item :: back) < 2 ^ 32) :
    alike ((marks (item :: back)).take (mergeLimit limit item.startSeq (item :: back))) = true := by
  rw [mergeLimit.eq_def]
  dsimp only
  rw [if_pos rfl]
  cases back with
  | nil => exact alike_of_take_le (Nat.min_le_right _ _) _
  | cons next others =>
    rw [totalSize_cons, totalSize_cons] at hword
    dsimp only
    split
    next hboth =>
      rw [Bool.and_eq_true, Bool.not_eq_true', beq_iff_eq] at hboth
      have hflags : item.flags = next.flags := Prod.ext (hsack.trans hboth.1.symm) hboth.2
      rw [uint32_of_lt (by omega), ← marks_mergedItem hflags]
      refine alike_of_take_le ?_ _
      rw [size_mergedItem]
      exact Nat.min_le_right _ _
    · exact alike_of_take_le (Nat.min_le_right _ _) _

end MergeLimit

/-! ## The three cases of `CopyFromSequence` -/

/-- What was sent can be handed out again when the first byte is not SACKed, and an item starts
there or all bytes carry the same flags. -/
def resendable (buf : TxBuffer) (offset size : Nat) : Bool :=
  match ((marks buf.sentList).drop offset).take size with
  | [] => false
  | mark :: others => !mark.1 && (startsAt offset buf.sentList || alike (mark :: others))

/-- What was not sent can be handed out when the bytes carry the same flags, not all as
retransmitted. -/
def sendable (buf : TxBuffer) (size : Nat) : Bool :=
  alike ((marks buf.appList).take size) && !((resent buf.appList).take size).all id

section Cases

variable {buf : TxBuffer} {offset size : Nat}

theorem passes_sent (hlay : buf.Layout) (hoff : offset < 2 ^ 31) :
    Passes (fun item => item.startSeq.ge buf.firstByteSeq) offset buf.sentList := by
  have hplaced : ∀ pos ≤ offset,
      (buf.firstByteSeq.byte pos).ge buf.firstByteSeq = true := by
    intro pos hle
    have hge := @SequenceNumber.ge_byte buf.firstByteSeq pos 0 ⟨by omega, by omega⟩
    rw [byte_zero] at hge
    rw [hge]
    exact decide_eq_true (Nat.zero_le _)
  have hitem : ∀ front item back, buf.sentList = front ++ item :: back →
      item.startSeq = buf.firstByteSeq.byte (totalSize front) := by
    intro front item back hlist
    have hcontig := hlay.contiguous
    rw [hlist, contiguous_append] at hcontig
    exact hcontig.2.1
  refine ⟨fun first second hsame => congrArg (·.ge buf.firstByteSeq) hsame, ?_, ?_⟩
  · intro front item back hlist hle
    rw [hitem front item back hlist]
    exact hplaced _ hle
  · intro front item back hlist hle
    dsimp only
    rw [hitem front item back hlist, byte_byte, Nat.add_sub_cancel' hle]
    exact hplaced _ (Nat.le_refl _)

def markRetransmitted (found : Found) : Found :=
  if found.item.retrans then found
  else { found with
    retrans := uint32 (found.retrans + found.item.size)
    item := { found.item with retrans := true } }

theorem markRetransmitted_item (found : Found) :
    (markRetransmitted found).item.packet = found.item.packet ∧
      (markRetransmitted found).item.startSeq = found.item.startSeq ∧
      (markRetransmitted found).item.sacked = found.item.sacked := by
  rw [markRetransmitted]
  split <;> exact ⟨rfl, rfl, rfl⟩

section

variable (hlay : buf.Layout)
include hlay

theorem alike_limited (hstarts : startsAt offset buf.sentList = true) {flags : Bool × Bool}
    {others : List (Bool × Bool)} (hmarks : (marks buf.sentList).drop offset = flags :: others)
    (hsack : flags.1 = false) :
    alike (((marks buf.sentList).drop offset).take
        (mergeLimit size (buf.firstByteSeq.byte offset) buf.sentList)) = true := by
  obtain ⟨front, item, back, hlist, rfl⟩ := exists_of_startsAt hstarts
  have hne := hlay.sent_nonempty
  have hcontig := hlay.contiguous
  have hword := hlay.sent_lt
  rw [hlist] at hne hcontig hword hmarks ⊢
  rw [totalSize_append] at hword
  rw [← byte_zero buf.firstByteSeq] at hcontig
  have hlim := @mergeLimit_at buf.firstByteSeq 0 size front back item hcontig hne
    (by omega)
  rw [Nat.zero_add] at hlim
  rw [hlim, drop_marks]
  rw [drop_marks, marks_cons] at hmarks
  have hsome := hne item (by simp)
  obtain ⟨less, hless⟩ := Nat.exists_eq_succ_of_ne_zero (Nat.ne_of_gt hsome)
  rw [hless, replicate_succ, cons_append] at hmarks
  have hflags : item.flags = flags := (cons.inj hmarks).1
  exact alike_mergeLimit ((congrArg Prod.fst hflags).trans hsack) (by omega)

theorem unlimited (hoff : offset < 2 ^ 32) (hnot : startsAt offset buf.sentList = false) :
    mergeLimit size (buf.firstByteSeq.byte offset) buf.sentList = size := by
  have hcontig := hlay.contiguous
  have hword := hlay.sent_lt
  rw [← byte_zero buf.firstByteSeq] at hcontig
  refine mergeLimit_of_none hcontig fun front item back hlist heq => ?_
  rw [hlist, totalSize_append] at hword
  rw [Nat.zero_add, byte_inj_of_lt (by omega) (by omega)] at heq
  rw [← heq, hlist, startsAt_of_eq] at hnot
  cases hnot

theorem getTransmittedSegment_eq (hsz : 0 < size) (hle : offset + size ≤ buf.sentSize)
    (hoff : offset < 2 ^ 31) :
    buf.getTransmittedSegment size (buf.firstByteSeq.byte offset) =
      (getPacketFromList (fun item => item.startSeq.ge buf.firstByteSeq) buf.firstByteSeq
        (mergeLimit size (buf.firstByteSeq.byte offset) buf.sentList) (buf.firstByteSeq.byte offset)
        (buf.sentList.length + 2) buf.sentList buf.retrans buf.nextNode).map fun found =>
        (markRetransmitted found, buf) := by
  have hsent := hlay.sentSize_eq
  have hge := @SequenceNumber.ge_byte buf.firstByteSeq offset 0 ⟨by omega, by omega⟩
  rw [byte_zero] at hge
  have hlen : 1 ≤ buf.sentList.length := by
    cases hlist : buf.sentList with
    | nil =>
      rw [hlist, totalSize_nil] at hsent
      omega
    | cons => exact Nat.succ_le_succ (Nat.zero_le _)
  rw [getTransmittedSegment, assert_of (hge.trans (decide_eq_true (Nat.zero_le _))),
    assert_of (decide_eq_true (by omega)), assert_of (decide_eq_true hlen)]
  simp only [ok_bind]
  generalize getPacketFromList _ _ _ _ _ _ _ _ = outcome
  cases outcome <;> rfl

theorem getTransmittedSegment_spec (hsz : 0 < size) (hle : offset + size ≤ buf.sentSize)
    (hoff : offset < 2 ^ 31) (hahead : buf.size < offset + 2 ^ 31) :
    ((∃ result, buf.getTransmittedSegment size (buf.firstByteSeq.byte offset) = .ok result ∧
    result.1.item.sacked = false) ↔ buf.resendable offset size = true) ∧
    ∀ result, buf.getTransmittedSegment size (buf.firstByteSeq.byte offset) = .ok result →
    result.2 = buf ∧ result.1.item.startSeq.ge buf.firstByteSeq = true ∧
    0 < result.1.item.size ∧ result.1.item.size ≤ size ∧
    result.1.item.packet = (buf.unacked.drop offset).take result.1.item.size := by
  have hsent := hlay.sentSize_eq
  have htotal := hlay.size_eq
  have hpos := @mergeLimit_pos size (buf.firstByteSeq.byte offset) _ hsz
    hlay.sent_nonempty hlay.sent_lt
  have hlim := mergeLimit_le size (buf.firstByteSeq.byte offset) buf.sentList
  have hfree := @unlimited buf offset size hlay (by omega)
  have hstarts := @alike_limited buf offset size hlay
  rw [getTransmittedSegment_eq hlay hsz hle hoff]
  generalize mergeLimit size (buf.firstByteSeq.byte offset) buf.sentList = limit at *
  obtain ⟨item, back, hsome, hcheck, hmarks, hcont, hgets⟩ :=
    @getPacketFromList_gets _ limit buf.retrans buf.nextNode buf.firstByteSeq 0 offset _
      (passes_sent hlay hoff) hlay.sent_nonempty hpos (by omega) hoff (by omega)
      (buf.sentList.length + 2) (Nat.lt_succ_self _)
  rw [byte_zero, Nat.zero_add] at hgets
  have hresend : buf.resendable offset size = (!item.sacked &&
      (startsAt offset buf.sentList ||
        alike (((marks buf.sentList).drop offset).take size))) := by
    obtain ⟨others, hothers⟩ := head?_eq_some_iff.mp (head_take_marks hsome hsz back)
    rw [resendable, ← hmarks, hothers]
    rfl
  have hlen : ((marks (item :: back)).take limit).length = limit := by
    rw [hmarks, length_take, length_drop, marks_length]
    omega
  have hlimited := alike_iff (head_take_marks hsome hpos back)
  rw [hlen] at hlimited
  generalize hcall : getPacketFromList _ _ _ _ _ _ _ _ = outcome at hgets ⊢
  clear hcall
  cases hgets with
  | @joined found hjoined hpkt hflags hplaced hrtx =>
    obtain ⟨hsame, hstartSeq, hsack⟩ := markRetransmitted_item found
    have hitem : found.item.sacked = item.sacked := congrArg Prod.fst hflags
    have hfound : (startsAt offset buf.sentList ||
        alike (((marks buf.sentList).drop offset).take size)) = true := by
      cases hstart : startsAt offset buf.sentList with
      | true => rfl
      | false => rw [Bool.false_or, ← hfree hstart, ← hmarks, hlimited, hjoined]
    have hbytes : found.item.size = limit := by
      rw [TxItem.size, hpkt, hcont, length_take, length_drop, content_length]
      omega
    rw [hresend, hfound, Bool.and_true]
    refine ⟨⟨?_, fun hnot => ⟨_, rfl, ?_⟩⟩, ?_⟩
    · rintro ⟨result, hresult, hnot⟩
      cases hresult
      rw [← hitem, ← hsack, hnot]
      rfl
    · rw [hsack, hitem]
      simpa using hnot
    · intro result hresult
      cases hresult
      have hkept : (markRetransmitted found).item.size = limit :=
        (congrArg length hsame).trans hbytes
      refine ⟨rfl, ?_, hkept ▸ hpos, hkept ▸ hlim, ?_⟩
      · rw [hstartSeq, hplaced]
        exact hcheck
      · rw [hsame, hpkt, hcont, hkept, unacked, content_append,
          drop_append_of_le_length (by rw [content_length]; omega),
          take_append_of_le_length (by rw [length_drop, content_length]; omega)]
  | stopped hnot =>
    refine ⟨iff_of_false (by simp [Except.map]) fun hres => hnot (hlimited.mp ?_), by rintro _ ⟨⟩⟩
    rw [hresend, Bool.and_eq_true, Bool.or_eq_true, Bool.not_eq_true'] at hres
    obtain ⟨hsack, hstart | halike⟩ := hres
    · obtain ⟨less, hless⟩ := Nat.exists_eq_succ_of_ne_zero (Nat.ne_of_gt hsome)
      have hdrop : (marks buf.sentList).drop offset =
          item.flags :: (replicate less item.flags ++ marks back) := by
        rw [← hmarks, marks_cons, hless, replicate_succ, cons_append]
      rw [hmarks]
      exact hstarts hstart hdrop hsack
    · have htake := alike_take limit halike
      rwa [take_take, Nat.min_eq_left hlim, ← hmarks] at htake

theorem getNewSegment_spec (hsz : 0 < size) (hle : buf.sentSize + size ≤ buf.size)
    (hahead : buf.size < buf.sentSize + 2 ^ 31) :
    ((∃ result, buf.getNewSegment size = .ok result ∧ result.1.item.retrans = false) ↔
      buf.sendable size = true) ∧
      ∀ result,
        buf.getNewSegment size = .ok result →
          result.2.firstByteSeq = buf.firstByteSeq ∧ result.1.item.startSeq = buf.sentEnd ∧
            result.1.item.size = size ∧
            result.1.item.packet = (buf.unacked.drop buf.sentSize).take size := by
  have hsent := hlay.sentSize_eq
  have htotal := hlay.size_eq
  obtain ⟨item, back, hlist⟩ : ∃ item back, buf.appList = item :: back := by
    cases hlist : buf.appList with
    | nil =>
      rw [hlist, totalSize_nil] at htotal
      omega
    | cons item back => exact ⟨item, back, rfl⟩
  have hne := hlay.app_nonempty
  rw [hlist] at hne htotal
  rw [totalSize_cons] at htotal
  have hgets := @getPacketFromList_here (fun _ => true) size buf.retrans buf.nextNode
    buf.sentEnd 0 [] back item (fun _ _ _ => rfl) (by simp) rfl hne hsz (by omega)
    (by simp) (by omega) (buf.appList.length + 2) (by rw [hlist, length_cons]; omega)
  rw [totalSize_nil, Nat.add_zero, byte_zero, nil_append, ← hlist] at hgets
  have hcont : (buf.unacked.drop buf.sentSize).take size =
      (content buf.appList).take size := by
    rw [unacked, content_append, hsent, ← content_length buf.sentList, drop_left]
  have halike : (marks buf.appList).take size = replicate size item.flags ↔
      alike ((marks buf.appList).take size) = true := by
    have hlen : ((marks buf.appList).take size).length = size := by
      rw [length_take, marks_length, hlist, totalSize_cons]
      omega
    have hfst := head_take_marks (hne item mem_cons_self) hsz back
    rw [← hlist] at hfst
    rw [alike_iff hfst, hlen]
  rw [getNewSegment]
  dsimp only
  generalize hcall : getPacketFromList _ _ _ _ _ _ _ _ = outcome at hgets ⊢
  clear hcall
  cases hgets with
  | @joined found hjoined hpkt hflags hplaced hrtx =>
    rw [← hlist] at hjoined hpkt hrtx
    have hbytes : found.item.size = size := by
      rw [TxItem.size, hpkt, length_take, content_length, hlist, totalSize_cons]
      omega
    rw [sendable, halike.mp hjoined, Bool.true_and, ← hrtx]
    refine ⟨⟨?_, fun hnot => ⟨_, rfl, by simpa using hnot⟩⟩, ?_⟩
    · rintro ⟨result, hresult, hnot⟩
      cases hresult
      simpa using hnot
    · intro result hresult
      cases hresult
      exact ⟨rfl, rfl, hbytes, hpkt.trans hcont.symm⟩
  | stopped hnot =>
    rw [← hlist] at hnot
    refine ⟨iff_of_false (by simp) fun hsend => hnot (halike.mpr ?_), by rintro _ ⟨⟩⟩
    rw [sendable, Bool.and_eq_true] at hsend
    exact hsend.1

end

theorem raw_bounds {isn : SequenceNumber32} {sentSize bound : Nat} (hpre : offset < sentSize)
    (hbehind : sentSize < offset + bound) (hbd : bound < 2 ^ 32) :
    ((isn.byte offset).value.toNat < uint32 (isn.value.toNat + sentSize) ∧
      uint32 (isn.value.toNat + sentSize) < uint32 ((isn.byte offset).value.toNat + bound) ↔
      (isn.byte offset).value.toNat + bound < 2 ^ 32) ∧
      ((isn.byte offset).value.toNat + bound < 2 ^ 32 →
        uint32 (isn.value.toNat + sentSize) - (isn.byte offset).value.toNat =
          sentSize - offset) := by
  rw [toNat_byte]
  simp only [uint32]
  omega

theorem copyLoop_eq (hlay : buf.Layout) (hoff : offset ≤ buf.sentSize)
    (hback : offset < 2 ^ 31) (hahead : buf.size < offset + 2 ^ 31) (now fuel numBytes : Nat) :
    copyLoop now (fuel + 1) buf numBytes (buf.firstByteSeq.byte offset) =
      if min numBytes (buf.size - offset) = 0 then .ok (none, buf)
      else if offset + min numBytes (buf.size - offset) ≤ buf.sentSize then do
        let result ← buf.getTransmittedSegment (min numBytes (buf.size - offset))
          (buf.firstByteSeq.byte offset)
        assert (!result.1.item.sacked)
        handOut now result.1 result.2
      else if offset = buf.sentSize then do
        let result ← buf.getNewSegment (min numBytes (buf.size - offset))
        assert (result.1.item.retrans == false)
        handOut now result.1 result.2
      else if (buf.firstByteSeq.byte offset).value.toNat +
          min numBytes (buf.size - offset) < 2 ^ 32 then
        copyLoop now fuel buf (buf.sentSize - offset) (buf.firstByteSeq.byte offset)
      else .error .nullPointer := by
  have hsent := hlay.sentSize_eq
  have htotal := hlay.size_eq
  have hnotBefore : buf.firstByteSeq.gt (buf.firstByteSeq.byte offset) = false := by
    have hgt := @SequenceNumber.gt_byte buf.firstByteSeq 0 offset ⟨by omega, by omega⟩
    rw [byte_zero] at hgt
    rw [hgt]
    exact decide_eq_false (Nat.not_lt_zero _)
  have hfrom : buf.sizeFromSequence (buf.firstByteSeq.byte offset) =
      buf.size - offset := by
    rw [sizeFromSequence, tailSequence, add_of,
      ge_byte ⟨by omega, by omega⟩, if_pos (decide_eq_true (by omega)),
      uint32_sub_byte (by omega) (by omega)]
  have hbd : min numBytes (buf.size - offset) ≤ buf.size - offset := Nat.min_le_right _ _
  rw [copyLoop.eq_def]
  dsimp only
  rw [hnotBefore, hfrom]
  generalize min numBytes (buf.size - offset) = bound at hbd ⊢
  have hge : buf.sentEnd.ge (buf.firstByteSeq.byte offset + .of bound) =
      decide (offset + bound ≤ buf.sentSize) := by
    rw [sentEnd, add_of, add_of, byte_byte, ge_byte ⟨by omega, by omega⟩]
  have hnone : buf.sentEnd.le (buf.firstByteSeq.byte offset) =
      decide (buf.sentSize ≤ offset) := by
    rw [sentEnd, add_of, le_byte ⟨by omega, by omega⟩]
  rw [hge, hnone]
  simp only [Bool.false_eq_true, if_false, decide_eq_true_eq]
  by_cases hzero : bound = 0
  · rw [if_pos hzero, if_pos hzero]
  · rw [if_neg hzero, if_neg hzero]
    by_cases hall : offset + bound ≤ buf.sentSize
    · rw [if_pos hall, if_pos hall]
    · rw [if_neg hall, if_neg hall]
      by_cases hfresh : offset = buf.sentSize
      · have hsame : buf.sentEnd = buf.firstByteSeq.byte offset := by
          rw [hfresh, sentEnd, add_of]
        rw [if_pos (Nat.le_of_eq hfresh.symm), if_neg (not_not.mpr hsame), if_pos hfresh]
      · -- the plain numbers are in order exactly when they do not wrap behind `seq`
        obtain ⟨hraw, hamount⟩ := @raw_bounds offset buf.firstByteSeq buf.sentSize bound
          (by omega) (by omega) (by omega)
        rw [if_neg (by omega), if_neg hfresh]
        by_cases hwraps : (buf.firstByteSeq.byte offset).value.toNat + bound < 2 ^ 32
        · rw [if_pos (hraw.mpr hwraps), if_pos hwraps, hamount hwraps]
        · rw [if_neg (fun hboth => hwraps (hraw.mp hboth)), if_neg hwraps]

/-- A call hands out at most `bound` bytes, those at an offset of the unacknowledged ones. -/
def Hands (buf : TxBuffer) (offset bound : Nat)
    (outcome : Except Fault (Option TxItem × TxBuffer)) : Prop :=
  ∃ item next, outcome = .ok (some item, next) ∧ 0 < item.size ∧ item.size ≤ bound ∧
    item.packet = (buf.unacked.drop offset).take item.size

theorem handOut_eq {found : Found} {other : TxBuffer} (now : Nat)
    (hstart : found.item.startSeq.ge other.firstByteSeq = true) :
    handOut now found other = .ok (some { found.item with lastSent := now },
      { other with
        sentList := found.front ++ { found.item with lastSent := now } :: found.back
        retrans := found.retrans
        nextNode := found.nextNode }) := by
  rw [handOut]
  dsimp only
  rw [assert_of hstart]
  rfl

theorem hands_transmitted_iff (hlay : buf.Layout) (hsz : 0 < size)
    (hle : offset + size ≤ buf.sentSize) (hoff : offset < 2 ^ 31)
    (hahead : buf.size < offset + 2 ^ 31) (now : Nat) {bound : Nat} (hbd : size ≤ bound) :
    buf.Hands offset bound (do
      let result ← buf.getTransmittedSegment size (buf.firstByteSeq.byte offset)
      assert (!result.1.item.sacked)
      handOut now result.1 result.2) ↔ buf.resendable offset size = true := by
  obtain ⟨hiff, hbytes⟩ := getTransmittedSegment_spec hlay hsz hle hoff hahead
  rw [← hiff]
  constructor
  · rintro ⟨item, next, hok, -⟩
    obtain ⟨result, hresult, hok⟩ := bind_eq_ok.mp hok
    obtain ⟨_, hsack, -⟩ := bind_eq_ok.mp hok
    exact ⟨result, hresult, by simpa using assert_eq_ok.mp hsack⟩
  · rintro ⟨result, hresult, hsack⟩
    obtain ⟨hsame, hstart, hpos, hfits, hpkt⟩ := hbytes result hresult
    rw [hresult, ok_bind, assert_of (by rw [hsack]; rfl), ok_bind,
      handOut_eq now (by rw [hsame]; exact hstart)]
    exact ⟨_, _, rfl, hpos, Nat.le_trans hfits hbd, hpkt⟩

theorem hands_new_iff (hlay : buf.Layout) (hsz : 0 < size)
    (hle : buf.sentSize + size ≤ buf.size)
    (hoff : buf.sentSize < 2 ^ 31) (hahead : buf.size < buf.sentSize + 2 ^ 31)
    (now : Nat) :
    buf.Hands buf.sentSize size (do
      let result ← buf.getNewSegment size
      assert (result.1.item.retrans == false)
      handOut now result.1 result.2) ↔ buf.sendable size = true := by
  obtain ⟨hiff, hbytes⟩ := getNewSegment_spec hlay hsz hle hahead
  rw [← hiff]
  constructor
  · rintro ⟨item, next, hok, -⟩
    obtain ⟨result, hresult, hok⟩ := bind_eq_ok.mp hok
    obtain ⟨_, hrtx, -⟩ := bind_eq_ok.mp hok
    exact ⟨result, hresult, by simpa using assert_eq_ok.mp hrtx⟩
  · rintro ⟨result, hresult, hrtx⟩
    obtain ⟨hsame, hstart, hbd, hpkt⟩ := hbytes result hresult
    have hge := @SequenceNumber.ge_byte buf.firstByteSeq buf.sentSize 0 ⟨by omega, by omega⟩
    rw [byte_zero] at hge
    rw [hresult, ok_bind, assert_of (by rw [hrtx]; rfl), ok_bind,
      handOut_eq now (by rw [hsame, hstart]; exact hge.trans (decide_eq_true (Nat.zero_le _)))]
    exact ⟨_, _, rfl, hbd ▸ hsz, Nat.le_of_eq hbd, hbd.symm ▸ hpkt⟩

/-- Whether `CopyFromSequence` for `numBytes` bytes at an offset returns as documented. -/
def served (buf : TxBuffer) (numBytes offset : Nat) : Bool :=
  let bound := min numBytes (buf.size - offset)
  decide (offset < 2 ^ 31) && (bound == 0 ||
    decide (buf.size < offset + 2 ^ 31) &&
      if offset + bound ≤ buf.sentSize then buf.resendable offset bound
      else if offset = buf.sentSize then buf.sendable bound
      else decide ((buf.firstByteSeq.byte offset).value.toNat + bound < 2 ^ 32) &&
        buf.resendable offset (buf.sentSize - offset))

section

variable (hlay : buf.Layout) (hoff : offset ≤ buf.sentSize)
include hlay hoff

theorem hands_iff (hback : offset < 2 ^ 31) (hahead : buf.size < offset + 2 ^ 31) (now : Nat)
    {numBytes : Nat} (hbd : 0 < min numBytes (buf.size - offset)) :
    buf.Hands offset (min numBytes (buf.size - offset))
      (buf.copyFromSequence now numBytes (buf.firstByteSeq.byte offset)) ↔
      buf.served numBytes offset = true := by
  have hnum : min numBytes (buf.size - offset) ≤ numBytes := Nat.min_le_left _ _
  have hcall := copyLoop_eq hlay hoff hback hahead now
  rw [copyFromSequence, hcall, served]
  rw [decide_eq_true hback, decide_eq_true hahead, if_neg (Nat.ne_of_gt hbd), Bool.true_and,
    Bool.true_and, beq_false_of_ne (Nat.ne_of_gt hbd), Bool.false_or]
  by_cases hall : offset + min numBytes (buf.size - offset) ≤ buf.sentSize
  · rw [if_pos hall, if_pos hall]
    exact hands_transmitted_iff hlay hbd hall hback hahead now (Nat.le_refl _)
  · rw [if_neg hall, if_neg hall]
    by_cases hfresh : offset = buf.sentSize
    · rw [if_pos hfresh, if_pos hfresh]
      subst hfresh
      exact hands_new_iff hlay hbd (by omega) hback hahead now
    · rw [if_neg hfresh, if_neg hfresh]
      by_cases hraw : (buf.firstByteSeq.byte offset).value.toNat +
          min numBytes (buf.size - offset) < 2 ^ 32
      · -- the call comes round again for the bytes that were sent
        obtain ⟨fuel, rfl⟩ := Nat.exists_eq_succ_of_ne_zero
          (Nat.ne_of_gt (Nat.lt_of_lt_of_le hbd hnum))
        have hamount : min (buf.sentSize - offset) (buf.size - offset) =
            buf.sentSize - offset := Nat.min_eq_left (by omega)
        rw [if_pos hraw, hcall, hamount, if_neg (by omega), if_pos (by omega),
          decide_eq_true hraw, Bool.true_and]
        exact hands_transmitted_iff hlay (by omega) (by omega) hback hahead now (by omega)
      · rw [if_neg hraw, decide_eq_false hraw, Bool.false_and]
        exact iff_of_false (fun ⟨_, _, hok, _⟩ => nomatch hok) nofun

theorem copyFromSequence_aborts (hfar : 2 ^ 31 < offset) (now numBytes : Nat) :
    buf.copyFromSequence now numBytes (buf.firstByteSeq.byte offset) = .error .abort := by
  have hsent := hlay.sentSize_eq
  have hword := hlay.sent_lt
  have hgt := (@SequenceNumber.gt_byte_far buf.firstByteSeq 0 offset (by omega) (by omega)).1
  rw [byte_zero] at hgt
  rw [copyFromSequence, copyLoop.eq_def]
  dsimp only
  rw [if_pos hgt]

theorem copyFromSequence_nothing (hback : offset < 2 ^ 31) (now : Nat) {numBytes : Nat}
    (hnone : min numBytes (buf.size - offset) = 0 ∨ offset + 2 ^ 31 < buf.size) :
    buf.copyFromSequence now numBytes (buf.firstByteSeq.byte offset) = .ok (none, buf) := by
  have hsent := hlay.sentSize_eq
  have htotal := hlay.size_eq
  have hle := hlay.size_le
  have hlt := hlay.maxBuffer_lt
  have hgt := @SequenceNumber.gt_byte buf.firstByteSeq 0 offset ⟨by omega, by omega⟩
  rw [byte_zero, decide_eq_false (Nat.not_lt_zero _)] at hgt
  have hzero : min numBytes (buf.sizeFromSequence (buf.firstByteSeq.byte offset)) = 0 := by
    rw [sizeFromSequence, tailSequence, add_of]
    rcases hnone with hbd | hahead
    · rcases Nat.eq_zero_or_pos numBytes with rfl | hsome
      · exact Nat.zero_min _
      · have hsame : buf.size = offset := by omega
        rw [hsame, ge_byte ⟨by omega, by omega⟩,
          if_pos (decide_eq_true (Nat.le_refl _)),
          uint32_sub_byte (Nat.le_refl _) (by omega), Nat.sub_self, Nat.min_zero]
    · have hne : buf.firstByteSeq.byte buf.size ≠ buf.firstByteSeq.byte offset := by
        rw [ne_eq, byte_inj_of_lt (by omega) (by omega)]
        omega
      have hfar := (@SequenceNumber.gt_byte_far buf.firstByteSeq offset buf.size (by omega)
        (by omega)).2
      rw [ge, hfar, Bool.false_or, if_neg (by simpa using hne), Nat.min_zero]
  rw [copyFromSequence, copyLoop.eq_def]
  dsimp only
  rw [hgt, hzero]
  rfl

end

end Cases

end TxBuffer

/-! ## Runs -/

/-- What a call that asks for bytes `offset` behind the head returns: those of the stream, as far
as there are any, and the buffer still holds what is not acknowledged. -/
structure RightBytes (state : TxState) (numBytes offset : Nat)
    (result : Option TxItem × TxBuffer) : Prop where
  handed : 0 < min numBytes (state.buffer.size - offset) →
    ∃ item, result.1 = some item ∧ 0 < item.size ∧
      item.size ≤ min numBytes (state.buffer.size - offset) ∧
      item.packet =
        slice state.written (state.acked + offset) (state.acked + offset + item.size)
  unacked_eq : result.2.unacked = state.written.drop state.acked
  contiguous : Contiguous result.2.firstByteSeq result.2.sentList

section Runs

variable {isn : SequenceNumber32} {maxBuffer dupAckThresh segmentSize : Nat} {sackEnabled : Bool}
  {state : TxState}

theorem stored_of_reachable (hmax : maxBuffer < 2 ^ 32)
    (hst :
      (txMachine (.create isn maxBuffer dupAckThresh segmentSize sackEnabled)).Reachable state) :
    Stored isn state := by
  refine hst.invariant ?_ fun _ _ _ hstored _ hstep => hstored.step hstep
  exact {
    layout := ⟨by simp [txMachine, TxBuffer.create], trivial, rfl, rfl, Nat.zero_le _, hmax⟩
    acked_le := Nat.le_refl _
    unacked_eq := rfl
    firstByteSeq_eq := (byte_zero isn).symm }

theorem Stored.rightBytes_iff (hstored : Stored isn state) {now numBytes offset : Nat}
    (hbd : 0 < min numBytes (state.buffer.size - offset)) :
    (∃ result,
      state.buffer.copyFromSequence now numBytes (state.buffer.firstByteSeq.byte offset) =
        .ok result ∧
        RightBytes state numBytes offset result) ↔
      state.buffer.Hands offset (min numBytes (state.buffer.size - offset))
        (state.buffer.copyFromSequence now numBytes (state.buffer.firstByteSeq.byte offset)) := by
  have hbytes : ∀ size, slice state.written (state.acked + offset)
      (state.acked + offset + size) = (state.buffer.unacked.drop offset).take size := by
    intro size
    rw [slice, hstored.unacked_eq, drop_drop, Nat.add_sub_cancel_left]
  constructor
  · rintro ⟨⟨handed, next⟩, hok, hright⟩
    obtain ⟨item, rfl, hpos, hle, hpkt⟩ := hright.handed hbd
    exact ⟨item, next, hok, hpos, hle, hpkt.trans (hbytes _)⟩
  · rintro ⟨item, next, hok, hpos, hle, hpkt⟩
    have hkeeps := (TxBuffer.copied_of_copyFromSequence hstored.layout hok).keeps hstored.layout
    exact ⟨_, hok, fun _ => ⟨item, rfl, hpos, hle, hpkt.trans (hbytes _).symm⟩,
      hkeeps.unacked_eq.trans hstored.unacked_eq, hkeeps.layout.contiguous⟩

/-- Whatever was called before, the buffer holds the unacknowledged stream in order, and
`CopyFromSequence` returns the right bytes exactly if it is served. -/
theorem right_bytes_iff_served (hmax : maxBuffer < 2 ^ 32)
    (hst : (txMachine (.create isn maxBuffer dupAckThresh segmentSize sackEnabled)).Reachable state)
    (now numBytes : Nat) {offset : Nat} (hoff : offset ≤ state.buffer.sentSize) :
    (state.buffer.unacked = state.written.drop state.acked ∧
      Contiguous state.buffer.firstByteSeq state.buffer.sentList) ∧
      (state.buffer.served numBytes offset = true →
        ∃ result,
          state.buffer.copyFromSequence now numBytes (state.buffer.firstByteSeq.byte offset) =
            .ok result ∧
            RightBytes state numBytes offset result) ∧
      (offset ≠ 2 ^ 31 → state.buffer.size ≠ offset + 2 ^ 31 →
        (∃ result,
          state.buffer.copyFromSequence now numBytes (state.buffer.firstByteSeq.byte offset) =
            .ok result ∧
            RightBytes state numBytes offset result) →
        state.buffer.served numBytes offset = true) := by
  have hstored := stored_of_reachable hmax hst
  have hlay := hstored.layout
  refine ⟨⟨hstored.unacked_eq, hlay.contiguous⟩, ?_⟩
  rcases Nat.eq_zero_or_pos (min numBytes (state.buffer.size - offset)) with hzero | hbd
  · -- nothing to hand out: the call only has to return
    have hserved : state.buffer.served numBytes offset = decide (offset < 2 ^ 31) := by
      rw [TxBuffer.served, hzero]
      exact Bool.and_true _
    rw [hserved, decide_eq_true_eq]
    refine ⟨fun hback => ?_, fun hhalf _ ⟨result, hok, _⟩ => ?_⟩
    · exact ⟨_, TxBuffer.copyFromSequence_nothing hlay hoff hback now (.inl hzero),
        fun hbd => absurd hzero (Nat.ne_of_gt hbd), hstored.unacked_eq, hlay.contiguous⟩
    · by_contra hnot
      rw [TxBuffer.copyFromSequence_aborts hlay hoff (by omega) now numBytes] at hok
      cases hok
  · rw [hstored.rightBytes_iff hbd]
    by_cases hnear : offset < 2 ^ 31 ∧ state.buffer.size < offset + 2 ^ 31
    · have hiff := TxBuffer.hands_iff hlay hoff hnear.1 hnear.2 now hbd
      exact ⟨hiff.mpr, fun _ _ => hiff.mp⟩
    · have hserved : state.buffer.served numBytes offset = false := by
        rw [TxBuffer.served, beq_false_of_ne (Nat.ne_of_gt hbd), Bool.false_or,
          ← Bool.and_assoc, ← Bool.decide_and, decide_eq_false hnear, Bool.false_and]
      rw [hserved]
      refine ⟨nofun, fun hhalf hsz ⟨item, next, hok, _⟩ => ?_⟩
      by_cases hback : offset < 2 ^ 31
      · rw [TxBuffer.copyFromSequence_nothing hlay hoff hback now (.inr (by omega))] at hok
        cases hok
      · rw [TxBuffer.copyFromSequence_aborts hlay hoff (by omega) now numBytes] at hok
        cases hok

theorem right_bytes_iff_served_inside :
    let initial := TxBuffer.create (.of (2 ^ 32 - 2)) 100 3 2 true
    let state := (txMachine initial).after (fun _ _ => true)
      [.add [1, 2, 3, 4, 5, 6], .copyFromSequence 1 2 (.of (2 ^ 32 - 2)),
        .copyFromSequence 2 3 (.of 0)] (txMachine initial).init
    state.buffer.served 3 1 = true ∧
      ∃ result, state.buffer.copyFromSequence 3 3 (state.buffer.firstByteSeq.byte 1) = .ok result ∧
        RightBytes state 3 1 result := by
  intro initial state
  have hst : (txMachine initial).Reachable state :=
    Machine.ReachableUnder.after (fun _ _ _ => trivial) _ .init
  have hserved : state.buffer.served 3 1 = true := by decide +kernel
  exact ⟨hserved, (right_bytes_iff_served (by decide) hst 3 3 (by decide +kernel)).2.1 hserved⟩

/-- Four bytes of which two were sent, at the end of the sequence space: the plain number of the
first unsent byte has wrapped, none of the three cases applies, and the null item is used. -/
theorem partial_copy_takes_null :
    ¬ ∀ (isn : SequenceNumber32) (maxBuffer dupAckThresh segmentSize : Nat) (sackEnabled : Bool)
      (state : TxState) (now numBytes offset : Nat),
      maxBuffer < 2 ^ 32 →
        (txMachine (.create isn maxBuffer dupAckThresh segmentSize sackEnabled)).Reachable state →
        offset ≤ state.buffer.sentSize →
        ∃ result,
          state.buffer.copyFromSequence now numBytes (state.buffer.firstByteSeq.byte offset) =
            .ok result ∧
            RightBytes state numBytes offset result := by
  intro hclaim
  let initial := TxBuffer.create (.of (2 ^ 32 - 2)) 100 3 2 true
  let state := (txMachine initial).after (fun _ _ => true)
    [.add [1, 2, 3, 4], .copyFromSequence 1 2 (.of (2 ^ 32 - 2))] (txMachine initial).init
  have hst : (txMachine initial).Reachable state :=
    Machine.ReachableUnder.after (fun _ _ _ => trivial) _ .init
  obtain ⟨result, hok, -⟩ := hclaim (.of (2 ^ 32 - 2)) 100 3 2 true state 2 4 0 (by decide) hst
    (Nat.zero_le _)
  have hnull : state.buffer.copyFromSequence 2 4 (state.buffer.firstByteSeq.byte 0) =
      .error .nullPointer := by decide +kernel
  rw [hnull] at hok
  cases hok

end Runs

end HomaSird.Tcp
