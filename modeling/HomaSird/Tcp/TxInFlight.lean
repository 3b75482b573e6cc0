import HomaSird.Tcp.TxLostMarks

/-! # The bytes in flight

`BytesInFlight` reads the counters, `BytesInFlightRFC` scans the sent list. They agree as
long as only lost bytes are sent again and no segment that was sent again is SACKed: a
retransmitted segment that arrives keeps its place in the count of retransmitted bytes.
-/

namespace HomaSird.Tcp

open Transition List SequenceNumber TxBuffer

namespace TxBuffer

section Scan

variable {buf : TxBuffer} {first : SequenceNumber32} {dupAckThresh segmentSize : Nat}

/-! ## `IsLostRFC` -/

theorem isLostLoop_unmarked {list : List TxItem} (begin : SequenceNumber32)
    (count bytes : Nat) (hnone : ∀ item ∈ list, item.sacked = false ∧ item.lost = false) :
    buf.isLostLoop begin count bytes list = false := by
  induction list generalizing begin with
  | nil => rfl
  | cons item rest ih =>
    obtain ⟨⟨hsack, hlost⟩, hrest⟩ := forall_mem_cons.mp hnone
    simp only [isLostLoop, hsack, hlost, Bool.false_and, Bool.false_eq_true, if_false,
      ih _ hrest, ite_self]

theorem limit_not_lt {count bytes : Nat} (hlim : (dupAckThresh - 1) * segmentSize < 2 ^ 32)
    (hcnt : ¬ dupAckThresh ≤ count) (hbytes : bytes ≤ count * segmentSize)
    (hsome : 0 < count) : ¬ uint32OfInt (((dupAckThresh : Int) - 1) * segmentSize) < bytes := by
  have hcast : ((dupAckThresh : Int) - 1) * segmentSize =
      (((dupAckThresh - 1) * segmentSize : Nat) : Int) := by
    rw [Int.natCast_mul, Int.ofNat_sub (by omega)]
    rfl
  have hless : count * segmentSize ≤ (dupAckThresh - 1) * segmentSize :=
    Nat.mul_le_mul_right _ (by omega)
  rw [hcast, uint32OfInt]
  omega

theorem isLostLoop_eq {front behind : List TxItem} {highest : TxItem} {start count bytes : Nat}
    (hlim : (buf.dupAckThresh - 1) * buf.segmentSize < 2 ^ 32)
    (hhigh : buf.highestSack.2 = first.byte (start + totalSize front))
    (hsack : highest.sacked = true) (hlost : highest.lost = false)
    (hne : ∀ item ∈ front, 0 < item.size)
    (hfits : ∀ item ∈ front ++ [highest], item.sacked = true → item.size ≤ buf.segmentSize)
    (hbytes : bytes ≤ count * buf.segmentSize) (hstart : start + totalSize front < 2 ^ 31)
    (hword : bytes + totalSize front + highest.size < 2 ^ 32) :
    buf.isLostLoop (first.byte start) count bytes (front ++ highest :: behind) =
      decide (buf.dupAckThresh ≤ count + front.countP TxItem.sacked + 1) := by
  induction front generalizing start count bytes with
  | nil =>
    have hsz := hfits highest (by simp) hsack
    have hsum : bytes + highest.size ≤ (count + 1) * buf.segmentSize := by
      rw [Nat.succ_mul]
      omega
    rw [totalSize_nil] at hhigh hword
    rw [nil_append, isLostLoop]
    simp only [hsack, if_true, Bool.true_and, hhigh, hlost, Bool.false_and,
      uint32_of_lt (show bytes + highest.size < 2 ^ 32 by omega), countP_nil]
    by_cases henough : buf.dupAckThresh ≤ count + 1
    · simp [henough]
    · have hlimit' := limit_not_lt hlim henough hsum (by omega)
      simp [henough, hlimit', ge]
  | cons item rest ih =>
    obtain ⟨hpos, hne⟩ := forall_mem_cons.mp hne
    rw [cons_append, forall_mem_cons] at hfits
    rw [totalSize_cons] at hhigh hword hstart
    have hpre : (first.byte start).ge buf.highestSack.2 = false := by
      rw [hhigh, ge_byte ⟨by omega, by omega⟩, decide_eq_false_iff_not]
      omega
    rw [cons_append, isLostLoop]
    simp only [hpre, Bool.false_eq_true, if_false, byte_add]
    cases hitem : item.sacked with
    | false =>
      rw [countP_cons_of_neg (by simp [hitem])]
      simp only [Bool.false_eq_true, if_false, Bool.false_and]
      exact ih (by rwa [Nat.add_assoc]) hne hfits.2 hbytes (by omega) (by omega)
    | true =>
      have hsz := hfits.1 hitem
      have hsum : bytes + item.size ≤ (count + 1) * buf.segmentSize := by
        rw [Nat.succ_mul]
        omega
      rw [countP_cons_of_pos hitem]
      simp only [if_true, Bool.true_and, uint32_of_lt (show bytes + item.size < 2 ^ 32 by omega)]
      by_cases henough : buf.dupAckThresh ≤ count + 1
      · have hmore : buf.dupAckThresh ≤ count + (rest.countP TxItem.sacked + 1) + 1 := by
          omega
        simp [henough, hmore]
      · have hlimit' := limit_not_lt hlim henough hsum (by omega)
        simp only [henough, hlimit', decide_false, Bool.or_self, Bool.false_eq_true, if_false]
        rw [ih (by rwa [Nat.add_assoc]) hne hfits.2 hsum (by omega) (by omega)]
        congr 2
        omega

theorem Tracked.isLostRFC_eq {before after : List TxItem} {item : TxItem} (htrack :
    Tracked dupAckThresh segmentSize buf) (hlim : (dupAckThresh - 1) * segmentSize < 2 ^ 32)
    (hlist : buf.sentList = before ++ item :: after) (hitem : item.sacked = false) :
    buf.isLostRFC (buf.firstByteSeq.byte (totalSize before)) (item :: after) = item.lost := by
  have hnear := htrack.near
  have hsz := htrack.counted.layout.size_eq
  have hne := htrack.counted.layout.sent_nonempty
  have hsep := htrack.counted.separate
  have hfits := htrack.fits
  rw [isLostRFC]
  simp only [hitem, Bool.not_false, Bool.true_and]
  cases htrack.board with
  | clear hhighest hnone =>
    rw [hlist, forall_mem_append] at hnone
    rw [isLostLoop_unmarked _ _ _ hnone.2, (forall_mem_cons.mp hnone.2).1.2]
  | @sacked front run rest highest hsplit hhighest hhigh hrun hrest hjudged =>
    rw [hsplit] at hsz hne hsep hfits
    obtain ⟨between, rfl, rfl⟩ | ⟨between, rfl, rfl⟩ :=
      unsacked_place (hsplit.symm.trans hlist) hhigh hrun hitem
    · obtain ⟨-, hthis, -⟩ := judged_append.mp hjudged
      simp only [totalSize_append, totalSize_cons] at hsz
      have hhighLost : highest.lost = false := by
        have := hsep highest (by simp)
        simpa [hhigh] using this
      rw [← htrack.dupAckThresh_eq, ← htrack.segmentSize_eq] at hlim
      have hwithin : ∀ other ∈ item :: between ++ [highest],
          other ∈ before ++ item :: between ++ highest :: (run ++ rest) := by
        intro other hother
        simp only [mem_append, mem_cons, not_mem_nil, or_false] at hother ⊢
        tauto
      have hloop := @isLostLoop_eq buf buf.firstByteSeq (item :: between) (run ++ rest)
        highest (totalSize before) 0 0 hlim (by rw [hhighest, totalSize_append]) hhigh
        hhighLost
        (fun other hother => hne other (hwithin other (mem_append_left _ hother)))
        (fun other hother hsack => htrack.segmentSize_eq ▸
          (hfits other (hwithin other hother)).2 hsack) (Nat.zero_le _)
        (by rw [totalSize_cons]; omega) (by rw [totalSize_cons]; omega)
      rw [cons_append] at hloop
      rw [hloop, countP_cons_of_neg (by simp [hitem]), htrack.dupAckThresh_eq]
      have hmark := hthis hitem
      cases hlost : item.lost with
      | true =>
        rw [hlost] at hmark
        have := hmark.mp rfl
        exact decide_eq_true (by omega)
      | false =>
        rw [hlost] at hmark
        refine decide_eq_false fun hle => ?_
        have := hmark.mpr (by omega)
        cases this
    · rw [forall_mem_append] at hrest
      rw [isLostLoop_unmarked _ _ _ hrest.2, (forall_mem_cons.mp hrest.2).1.2]

end Scan

end TxBuffer

/-! ## `BytesInFlightRFC` -/

def TxItem.inFlight (item : TxItem) : Bool := !item.sacked && (!item.lost || item.retrans)

theorem bytesOf_inFlight {segmentSize : Nat} {items : List TxItem}
    (hsep : ∀ item ∈ items, ¬(item.sacked = true ∧ item.lost = true))
    (hfits : ∀ item ∈ items, Fits segmentSize item) :
    bytesOf TxItem.inFlight items + bytesOf TxItem.sacked items + bytesOf TxItem.lost items =
      totalSize items + bytesOf TxItem.retrans items := by
  induction items with
  | nil => rfl
  | cons item rest ih =>
    obtain ⟨hitem, hrest⟩ := forall_mem_cons.mp hsep
    obtain ⟨⟨hresent, -⟩, hothers⟩ := forall_mem_cons.mp hfits
    have hsum := ih hrest hothers
    simp only [bytesOf_cons, totalSize_cons, TxItem.inFlight] at hsum ⊢
    by_cases hsack : item.sacked = true <;> by_cases hlost : item.lost = true <;>
      by_cases hrtx : item.retrans = true <;>
      simp only [hsack, hlost, hrtx] at hitem hresent ⊢ <;>
      simp at hitem hresent ⊢ <;> omega

namespace TxBuffer

variable {buf : TxBuffer} {first : SequenceNumber32} {dupAckThresh segmentSize : Nat}

theorem pipeLoop_eq {list : List TxItem} {start : Nat} {pipe : Pipe}
    (hscan : ∀ before item after,
      list = before ++ item :: after → item.sacked = false →
        buf.isLostRFC (first.byte (start + totalSize before)) (item :: after) = item.lost)
    (hsep : ∀ item ∈ list, ¬(item.sacked = true ∧ item.lost = true))
    (hsz : pipe.size + totalSize list < 2 ^ 32) (hsack : pipe.sackedOut + totalSize list < 2 ^ 32)
    (hlost : pipe.lostOut + totalSize list < 2 ^ 32) (hrtx : pipe.retrans + totalSize list < 2 ^ 32)
    (htotal : pipe.totalSize + totalSize list < 2 ^ 32) :
    buf.pipeLoop (first.byte start) list pipe = ⟨pipe.size + bytesOf TxItem.inFlight list,
        pipe.sackedOut + bytesOf TxItem.sacked list, pipe.lostOut + bytesOf TxItem.lost list,
        pipe.retrans + bytesOf TxItem.retrans list, pipe.totalSize + totalSize list⟩ := by
  induction list generalizing start pipe with
  | nil => rfl
  | cons item rest ih =>
    obtain ⟨hitem, hrest⟩ := forall_mem_cons.mp hsep
    have hthis := hscan [] item rest rfl
    have hbehind : ∀ before other after, rest = before ++ other :: after →
        other.sacked = false → buf.isLostRFC
          (first.byte (start + item.size + totalSize before)) (other :: after) = other.lost := by
      intro before other after hlist hother
      have := hscan (item :: before) other after (by rw [hlist]; rfl) hother
      rwa [totalSize_cons, ← Nat.add_assoc] at this
    rw [totalSize_nil, Nat.add_zero] at hthis
    simp only [totalSize_cons] at hsz hsack hlost hrtx htotal
    rw [pipeLoop, byte_add]
    rw [uint32_of_lt (show pipe.size + item.size < 2 ^ 32 by omega),
      uint32_of_lt (show pipe.sackedOut + item.size < 2 ^ 32 by omega),
      uint32_of_lt (show pipe.lostOut + item.size < 2 ^ 32 by omega),
      uint32_of_lt (show pipe.retrans + item.size < 2 ^ 32 by omega),
      uint32_of_lt (show pipe.totalSize + item.size < 2 ^ 32 by omega)]
    rw [ih hbehind hrest (by dsimp only; split <;> omega) (by dsimp only; split <;> omega)
      (by dsimp only; split <;> omega) (by dsimp only; split <;> omega) (by dsimp only; omega)]
    simp only [bytesOf_cons, totalSize_cons, TxItem.inFlight]
    by_cases hflag : item.sacked = true
    · have hnot : item.lost = false := by simpa [hflag] using hitem
      by_cases hresent : item.retrans = true <;> simp [hflag, hnot, hresent, Nat.add_assoc]
    · rw [Bool.not_eq_true] at hflag
      rw [hthis hflag]
      by_cases hmark : item.lost = true <;> by_cases hresent : item.retrans = true <;>
        simp [hflag, hmark, hresent, Nat.add_assoc]

theorem Tracked.bytesInFlight_eq (htrack : Tracked dupAckThresh segmentSize buf)
    (hlim : (dupAckThresh - 1) * segmentSize < 2 ^ 32) :
    ∃ bytes, buf.bytesInFlight = .ok bytes ∧ buf.bytesInFlightRFC = .ok bytes := by
  have hcnt := htrack.counted
  have hexact := hcnt.exact
  have hword := hcnt.layout.sent_lt
  have hpipe := @pipeLoop_eq buf buf.firstByteSeq buf.sentList 0 ⟨0, 0, 0, 0, 0⟩
    (fun before item after hlist hitem => by
      rw [Nat.zero_add]
      exact htrack.isLostRFC_eq hlim hlist hitem) hcnt.separate (by simpa using hword)
    (by simpa using hword) (by simpa using hword) (by simpa using hword) (by simpa using hword)
  rw [byte_zero] at hpipe
  simp only [Nat.zero_add] at hpipe
  have hsum := bytesOf_inFlight hcnt.separate htrack.fits
  rw [← hcnt.sackedOut_eq, ← hcnt.lostOut_eq, ← hcnt.retrans_eq,
    ← hcnt.layout.sentSize_eq] at hsum
  have hfly := bytesOf_le_totalSize TxItem.inFlight buf.sentList
  have hleft := hexact.leftOut_le
  refine ⟨bytesOf TxItem.inFlight buf.sentList, ?_, ?_⟩
  · rw [hexact.bytesInFlight_eq, uint32_of_lt (by omega)]
    congr 1
    omega
  · rw [bytesInFlightRFC, hpipe]
    simp only [hcnt.lostOut_eq, hcnt.retrans_eq, hcnt.sackedOut_eq,
      hcnt.layout.sentSize_eq, assert_of (beq_self_eq_true _), ok_bind]
    rfl

/-! ## Calls that keep the counts in step -/

/-- What is sent again is marked lost, what is SACKed was sent once and fits a segment, the byte an
acknowledgement leaves at the head is not SACKed, and all bytes are less than half the sequence
space apart. -/
def inStep (buf : TxBuffer) : TxCall → Bool
  | .add p => decide (buf.size + p.length < 2 ^ 31)
  | .copyFromSequence _ _ seq => buf.lostAt seq
  | .discardUpTo now seq => buf.headUnsacked (.discardUpTo now seq)
  | .update list => list.all fun block =>
    !buf.sentEnd.lt block.first &&
      coversFresh buf.segmentSize block buf.firstByteSeq buf.sentList
  | _ => false

theorem Tracked.call {next : TxBuffer} {call : TxCall}
    (htrack : Tracked dupAckThresh segmentSize buf) (hstep : buf.inStep call = true)
    (hcall : buf.call call = .ok next) : Tracked dupAckThresh segmentSize next := by
  cases call with
  | add p =>
    cases hcall
    exact htrack.add (of_decide_eq_true hstep)
  | copyFromSequence now numBytes seq =>
    obtain ⟨result, hcopy, hres⟩ := bind_eq_ok.mp hcall
    cases hres
    exact htrack.copied hstep (copied_of_copyFromSequence htrack.counted.layout hcopy)
  | discardUpTo now seq => exact htrack.discardUpTo hstep hcall
  | update list =>
    obtain ⟨result, hupd, hres⟩ := bind_eq_ok.mp hcall
    cases hres
    refine htrack.update (fun block hblock => ?_) hupd
    have := all_eq_true.mp hstep block hblock
    simpa [htrack.segmentSize_eq] using this
  | _ => cases hstep

end TxBuffer

/-! ## Runs -/

section Runs

variable {n isn : SequenceNumber32} {maxBuffer dupAckThresh segmentSize : Nat}
  {sackEnabled : Bool} {initial : TxBuffer}

theorem opened_tracked (hmax : maxBuffer < 2 ^ 32)
    (hopen :
      (create n maxBuffer dupAckThresh segmentSize sackEnabled).setHeadSequence isn = .ok initial) :
    TxBuffer.Tracked dupAckThresh segmentSize initial := by
  cases hopen
  refine ⟨⟨⟨by simp [create], trivial, rfl, rfl, Nat.zero_le _, hmax⟩,
    rfl, rfl, rfl, by simp [create], by simp [create]⟩,
    by simp [create], rfl, rfl,
    .clear rfl (by simp [create]), by simp [create], by simp [create],
    by simp [create], by simp [create]⟩

/-- While only lost bytes and no SACKed segment are sent again, the two counts agree. -/
theorem in_flight_eq_rfc (hmax : maxBuffer < 2 ^ 32)
    (hlim : (dupAckThresh - 1) * segmentSize < 2 ^ 32)
    (hopen :
      (TxBuffer.create n maxBuffer dupAckThresh segmentSize sackEnabled).setHeadSequence isn =
        .ok initial) {state : TxState}
    (hst : (txMachine initial).ReachableUnder (fun state call => state.buffer.inStep call = true)
      state) :
    ∃ bytes,
      state.buffer.bytesInFlight = .ok bytes ∧ state.buffer.bytesInFlightRFC = .ok bytes := by
  have htracked : TxBuffer.Tracked dupAckThresh segmentSize state.buffer := by
    induction hst with
    | init => exact opened_tracked hmax hopen
    | step _ hstep hnext ih =>
      obtain ⟨buf, hcall, hnext⟩ := bind_eq_ok.mp hnext
      cases hnext
      exact ih.call hstep hcall
  exact htracked.bytesInFlight_eq hlim

theorem in_flight_eq_rfc_resent :
    let isn : SequenceNumber32 := .of (2 ^ 32 - 4)
    let initial : TxBuffer :=
      { TxBuffer.create (.of 0) 100 3 2 true with
        firstByteSeq := isn
        highestSack := (.atEnd, .of 0) }
    let state := (txMachine initial).after (fun state call => state.buffer.inStep call)
      [.add [1, 2, 3, 4, 5, 6, 7, 8, 9, 10], .copyFromSequence 1 2 isn,
        .copyFromSequence 2 2 (isn.byte 2), .copyFromSequence 3 2 (isn.byte 4),
        .copyFromSequence 4 2 (isn.byte 6), .copyFromSequence 5 2 (isn.byte 8),
        .update [⟨isn.byte 4, isn.byte 10⟩], .copyFromSequence 6 2 isn] (txMachine initial).init
    (state.buffer.sackedOut = 6 ∧ state.buffer.lostOut = 4 ∧ state.buffer.retrans = 2) ∧
      ∃ bytes, state.buffer.bytesInFlight = .ok bytes ∧
        state.buffer.bytesInFlightRFC = .ok bytes := by
  intro isn initial state
  have hst : (txMachine initial).ReachableUnder
      (fun state call => state.buffer.inStep call = true) state :=
    Machine.ReachableUnder.after (fun _ _ hstep => hstep) _ .init
  exact ⟨by decide +kernel, @in_flight_eq_rfc (.of 0) isn 100 3 2 true initial (by decide)
    (by decide) rfl state hst⟩

def TxBuffer.aligned (buf : TxBuffer) (block : SackBlock) : Bool :=
  let first := uint32OfInt (block.first.sub buf.firstByteSeq)
  let second := uint32OfInt (block.second.sub buf.firstByteSeq)
  startsAt first buf.sentList &&
    (startsAt second buf.sentList || second == buf.sentSize)

/-- Additions, (re)transmissions of at most a segment, cumulative acknowledgements without Reno's
guesses, and SACK blocks aligned with the segments. -/
def TxBuffer.foreseen (buf : TxBuffer) : TxCall → Bool
  | .add p => decide (buf.size + p.length < 2 ^ 31)
  | .copyFromSequence _ numBytes _ => decide (numBytes ≤ buf.segmentSize)
  | .discardUpTo now seq => buf.headUnsacked (.discardUpTo now seq)
  | .update list => list.all buf.aligned
  | _ => false

/-- The second of two lost segments is sent again and SACKed, and is still counted as
retransmitted. -/
theorem sacked_retransmission_in_flight :
    ¬ ∀ (n isn : SequenceNumber32) (maxBuffer dupAckThresh segmentSize : Nat) (sackEnabled : Bool)
      (initial : TxBuffer) (state : TxState),
      maxBuffer < 2 ^ 32 → (dupAckThresh - 1) * segmentSize < 2 ^ 32 →
        (TxBuffer.create n maxBuffer dupAckThresh segmentSize sackEnabled).setHeadSequence isn =
          .ok initial →
        (txMachine initial).ReachableUnder (fun state call => state.buffer.foreseen call = true)
          state →
        state.buffer.bytesInFlight = state.buffer.bytesInFlightRFC := by
  intro hclaim
  let isn : SequenceNumber32 := .of 100
  let initial : TxBuffer :=
    { TxBuffer.create (.of 0) 100 3 2 true with
      firstByteSeq := isn
      highestSack := (.atEnd, .of 0) }
  let state := (txMachine initial).after (fun state call => state.buffer.foreseen call)
    [.add [1, 2, 3, 4, 5, 6, 7, 8, 9, 10], .copyFromSequence 1 2 isn,
      .copyFromSequence 2 2 (isn.byte 2), .copyFromSequence 3 2 (isn.byte 4),
      .copyFromSequence 4 2 (isn.byte 6), .copyFromSequence 5 2 (isn.byte 8),
      .update [⟨isn.byte 4, isn.byte 10⟩], .copyFromSequence 6 2 isn,
      .copyFromSequence 7 2 (isn.byte 2), .update [⟨isn.byte 2, isn.byte 4⟩]]
    (txMachine initial).init
  have hst : (txMachine initial).ReachableUnder
      (fun state call => state.buffer.foreseen call = true) state :=
    Machine.ReachableUnder.after (fun _ _ hstep => hstep) _ .init
  have hsame := hclaim (.of 0) isn 100 3 2 true initial state (by decide) (by decide) rfl hst
  have hcounts : state.buffer.bytesInFlight = .ok 4 ∧ state.buffer.bytesInFlightRFC = .ok 2 := by
    decide +kernel
  rw [hcounts.1, hcounts.2] at hsame
  cases hsame

end Runs

end HomaSird.Tcp
