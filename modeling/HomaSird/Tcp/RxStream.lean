import HomaSird.Tcp.RxState

/-! # The receive buffer preserves the byte stream

Segments cut from one stream arrive in any order and overlap; the bytes extracted
are a prefix of the stream, and the buffer knows exactly which bytes it holds. The
code compares sequence numbers of its blocks with each other and with the window's
edge, so this rests on the bytes it keeps staying within half the sequence space.
-/

namespace HomaSird.Tcp

open Transition HomaSird.Interval SequenceNumber RxBuffer

namespace Holds

variable {stream : List UInt8} {isn : SequenceNumber32} {state : RxState}
  {ranges : List Interval}

/-! ## Adding a segment -/

theorem finEdge_mono {pos later : Nat} (hle : pos ≤ later)
    (hlater : later ≤ stream.length) : finEdge stream pos ≤ finEdge stream later := by
  unfold finEdge
  split <;> split <;> omega

variable {packet : List UInt8} {seq : SequenceNumber32} {first last : Nat}

theorem seq_end (hcut : CutFrom stream isn state packet seq first last) :
    seq + .of packet.length = isn.byte last := by
  rw [hcut.packet_eq, slice_length hcut.within, hcut.seq_eq, byte_add,
    Nat.add_sub_cancel' hcut.order]

structure Part (stream : List UInt8) (state : RxState) (first last head tail : Nat) : Prop where
  missing_le : state.missing ≤ head
  first_le : first ≤ head
  some : head < tail
  le_last : tail ≤ last
  inWindow : finEdge stream tail < state.unread + 2 ^ 31

section Trim

variable (hst : Holds stream isn state ranges)
  (hcut : CutFrom stream isn state packet seq first last)
  (hcomp : Comparable stream state packet seq first last)

include hst hcut hcomp

theorem trim_stale (hold : ¬ (state.expected stream < last ∧ first < last)) :
    (state.buffer.trim seq (seq + .of packet.length)).1.ge
      (state.buffer.trim seq (seq + .of packet.length)).2 = true ∧
      (ranges = [] ∨
        (state.buffer.trim seq (seq + .of packet.length)).1 =
          (state.buffer.trim seq (seq + .of packet.length)).2) := by
  have hstale := hcomp.stale
  have hdata := hst.data
  obtain ⟨horder, hwithin, -, -, hfst, hlast⟩ := id hcut
  have hnear : Near last (max first (state.expected stream)) := by
    rcases max_choice first (state.expected stream) with hmax | hmax
    · rw [hmax]
      exact ⟨by have := hfst.2; have := hlast.1; omega, by omega⟩
    · rw [hmax]
      exact hlast
  have hle : last ≤ max first (state.expected stream) := by omega
  rw [seq_end hcut, hst.next] at hstale
  rw [seq_end hcut, hcut.seq_eq]
  cases hrngs : ranges with
  | nil =>
    rw [hrngs] at hdata
    rw [trim_of_nil hdata hst.next hfst, ge_byte hnear.symm]
    exact ⟨decide_eq_true hle, .inl rfl⟩
  | cons range rest =>
    rw [hrngs] at hdata
    have hequal := trim_meets hdata hst.next hfst hle hnear fun hcross => by
      by_cases hold : last ≤ state.expected stream
      · have hsame : max first (state.expected stream) = state.expected stream := by omega
        rw [hsame]
        exact hstale hold _ (by rw [hdata]; rfl) hcross
      · have hsame : max first (state.expected stream) = last := by omega
        rw [hsame]
        exact hcross
    exact ⟨hequal ▸ ge_self _, .inr hequal⟩

theorem trim_cases :
    ((state.buffer.trim seq (seq + .of packet.length)).1.ge
      (state.buffer.trim seq (seq + .of packet.length)).2 = true ∧
      (ranges = [] ∨
        (state.buffer.trim seq (seq + .of packet.length)).1 =
          (state.buffer.trim seq (seq + .of packet.length)).2)) ∨
      ∃ head tail,
        state.buffer.trim seq (seq + .of packet.length) = (isn.byte head, isn.byte tail) ∧
          Part stream state first last head tail := by
  by_cases hnew : state.expected stream < last ∧ first < last
  swap
  · exact .inl (trim_stale hst hcut hcomp hnew)
  obtain ⟨horder, hwithin, -, -, hfst, hlast⟩ := id hcut
  have hexp := hst.expected_bounds
  have hahead := hcomp.ahead hnew.1
  have hdata := hst.data
  rw [seq_end hcut, hcut.seq_eq]
  have hmax : max first (state.expected stream) = first ∨
      max first (state.expected stream) = state.expected stream := max_choice _ _
  have hfirstLe : first ≤ max first (state.expected stream) := le_max_left _ _
  have hexpectedLe : state.expected stream ≤ max first (state.expected stream) := le_max_right _ _
  have hmiss := hexp.1.trans hexpectedLe
  cases hrngs : ranges with
  | nil =>
    rw [hrngs] at hdata
    rw [trim_of_nil hdata hst.next hfst]
    refine .inr ⟨_, last, rfl, hmiss, hfirstLe, by omega, le_rfl, ?_⟩
    rcases hahead with hnone | hinside | ⟨hsome, -⟩
    · omega
    · exact hinside
    · -- bytes are available, so a block is stored
      have hcov := hst.available state.unread le_rfl (Nat.lt_add_of_pos_right hsome)
      rw [hrngs] at hcov
      exact absurd hcov (not_covers_nil _)
  | cons range rest =>
    -- when bytes are available, the first block starts at the first unread byte
    have hedge : 0 < state.buffer.availBytes →
        (blockOf stream isn range).1 + .of state.buffer.maxBuffer =
          isn.byte (state.unread + state.buffer.maxBuffer) := by
      intro hsome
      have hcov := hst.available state.unread le_rfl (Nat.lt_add_of_pos_right hsome)
      have hsep := hst.separated
      rw [hrngs] at hcov hsep
      rw [← hsep.lo_eq hcov]
      exact byte_add _ _ _
    rw [hrngs, List.map_cons] at hdata
    simp only [trim, hst.next, head_byte hfst, hdata]
    generalize max first (state.expected stream) = head at hmax hfirstLe hexpectedLe hmiss
    have hlt : head < last := by omega
    have hnear : Near last head := by
      rcases hmax with rfl | rfl
      · exact ⟨by have := hfst.2; have := hlast.1; omega, by omega⟩
      · exact hlast
    generalize (blockOf stream isn range).1 + .of state.buffer.maxBuffer = edge at hedge ⊢
    by_cases hcross : edge.lt (isn.byte last) = true
    · by_cases hpre : edge.lt (isn.byte head) = true
      · simp only [if_pos hcross, if_pos hpre]
        exact .inl ⟨ge_self _, .inr trivial⟩
      · obtain ⟨pos, heq, hge, hin⟩ := exists_byte_of_between hlt
          hnear.1 hcross (by simpa using hpre)
        simp only [if_pos hcross, if_neg hpre]
        by_cases hempty : pos = head
        · rw [heq, hempty]
          exact .inl ⟨ge_self _, .inr rfl⟩
        · refine .inr ⟨head, pos, by rw [heq], hmiss, hfirstLe, by omega, hin.le, ?_⟩
          rcases hahead with hnone | hinside | ⟨hsome, hsmall, hcrosses, hnearEdge⟩
          · omega
          · exact (finEdge_mono hin.le hwithin).trans_lt hinside
          · -- the segment is clipped at the window's edge
            have hclipped : pos = state.unread + state.buffer.maxBuffer :=
              (byte_inj ⟨by omega, by have := hnear.1; omega⟩).mp
                (heq.symm.trans (hedge hsome))
            rw [finEdge, if_neg (by omega)]
            omega
    · have hinOrder : ¬ (isn.byte last).lt (isn.byte head) = true := by
        rw [lt_byte hnear]
        simpa using hlt.le
      simp only [if_neg hcross, if_neg hinOrder]
      refine .inr ⟨head, last, rfl, hmiss, hfirstLe, hlt, le_rfl, ?_⟩
      rcases hahead with hnone | hinside | ⟨hsome, hsmall, hcrosses, hnearEdge⟩
      · omega
      · exact hinside
      · have hedgeLast : edge.lt (isn.byte last) = true := by
          rw [hedge hsome, lt_byte ⟨by omega, by omega⟩]
          exact decide_eq_true hcrosses
        exact absurd hedgeLast hcross

end Trim

section Store

variable {head tail : Nat} {kept : List Interval} {new : Interval}

theorem expected_eq (hcut : CutFrom stream isn state packet seq first last)
    (hpart : Part stream state first last head tail) : state.expected stream = state.missing := by
  obtain ⟨hmiss, -, hsome, hlast, -⟩ := hpart
  have hwithin := hcut.within
  rcases expected_cases stream state with hsame | ⟨-, hend, -⟩
  · exact hsame
  · omega

theorem within_insert (hst : Holds stream isn state ranges)
    (hcut : CutFrom stream isn state packet seq first last)
    (hpart : Part stream state first last head tail) (hsub : kept.Sublist ranges)
    (hfitted : Interval.Fitted ranges head tail (kept, new.lo, new.hi)) :
    Interval.Separated state.unread (new.insert kept) ∧
      ∀ range ∈ new.insert kept,
        range.hi ≤ stream.length ∧ finEdge stream range.hi < state.unread + 2 ^ 31 := by
  obtain ⟨hhead, hsome, htail, hapart, -⟩ := hfitted
  have hunread : state.unread ≤ state.missing := Nat.le_add_right _ _
  have hlast := hpart.le_last.trans hcut.within
  refine ⟨(hst.separated.sublist hsub).insert
    (hunread.trans (hpart.missing_le.trans hhead)) hsome hapart, fun range hrng => ?_⟩
  rcases mem_insert.mp hrng with rfl | hkept
  · exact ⟨htail.trans hlast, (finEdge_mono htail hlast).trans_lt hpart.inWindow⟩
  · exact hst.within range (hsub.subset hkept)

theorem covers_of_fitted (hfitted : Interval.Fitted ranges head tail (kept, new.lo, new.hi))
    (pos : Nat) (hcov : Interval.Covers ranges pos) :
    Interval.Covers (new.insert kept) pos :=
  covers_insert.mpr ((hfitted.covers pos hcov).symm.imp_left id)

theorem fragment_eq (hcut : CutFrom stream isn state packet seq first last) (hfst : first ≤ new.lo)
    (hsome : new.lo < new.hi) (hlast : new.hi ≤ last) :
    createFragment packet (uint32OfInt ((isn.byte new.lo).sub seq))
      (uint32OfInt ((isn.byte new.hi).sub (isn.byte new.lo))) = .ok (slice stream new.lo new.hi) ∧
      uint32OfInt ((isn.byte new.hi).sub (isn.byte new.lo)) =
        (slice stream new.lo new.hi).length := by
  obtain ⟨-, hwithin, hpkt, hseq, hnear, hnearLast⟩ := hcut
  have hspan : last < first + 2 ^ 32 := by
    have hbelow := hnear.2
    have habove := hnearLast.1
    omega
  rw [hpkt, hseq, uint32_sub_byte hfst (by omega),
    uint32_sub_byte hsome.le (by omega), slice_length (by omega),
    createFragment_slice (by omega) hwithin (by omega)]
  have hstart : first + (new.lo - first) = new.lo := by omega
  have hend : new.lo + (new.hi - new.lo) = new.hi := by omega
  rw [hstart, hend]
  exact ⟨rfl, rfl⟩

theorem located (hst : Holds stream isn state ranges) (hexp : state.expected stream =
    state.missing) : Located stream isn state.unread state.buffer state.missing ranges where
  data := hst.data
  window := hst.inWindow
  next := hexp ▸ hst.next
  base_le := Nat.le_add_right _ _
  near := by
    have hedge := le_finEdge stream state.missing
    have hmiss := hst.missing_le
    omega
  gap := hst.gap
  size := hst.size
  available := le_rfl
  sack := hst.sack

theorem add_of_fitted (hst : Holds stream isn state ranges)
    (hcut : CutFrom stream isn state packet seq first last)
    (hpart : Part stream state first last head tail) (hsub : kept.Sublist ranges)
    (hfitted : Interval.Fitted ranges head tail (kept, new.lo, new.hi))
    (hplaced : removeOverlap state.buffer.size
        (state.buffer.trim seq (seq + .of packet.length)).1
        (state.buffer.trim seq (seq + .of packet.length)).2 state.buffer.data =
      ⟨kept.map (blockOf stream isn), total kept, isn.byte new.lo, isn.byte new.hi⟩)
    {later : List Interval} (hlater : later = new.insert kept) {next : Nat}
    (hnext : next = advance state.missing later) :
    ∃ sackList,
      state.buffer.add packet seq = .ok (true,
        { state.buffer with
          data := later.map (blockOf stream isn)
          size := total later
          nextRxSeq := isn.byte (if state.buffer.gotFin then finEdge stream next else next)
          availBytes := state.buffer.availBytes + (next - state.missing)
          sackList := sackList }) ∧
      ∀ block ∈ sackList, Reported isn later next block := by
  obtain ⟨hmiss, hfst, -, hlast, hinside⟩ := id hpart
  obtain ⟨hhead, hsome, htail, hapart, -⟩ := id hfitted
  simp only at hhead hsome htail hapart
  have hedge := le_finEdge stream tail
  have hlastWithin := hcut.within
  obtain ⟨hfrag, hlen⟩ := fragment_eq hcut (hfst.trans hhead) hsome (htail.trans hlast)
  rw [hlen, slice_length (by omega)] at hfrag
  have hloc := hst.located (expected_eq hcut hpart)
  have hlong : ∀ range ∈ later, range.hi ≤ stream.length := fun range hrng =>
    ((hst.within_insert hcut hpart hsub hfitted).2 range (hlater ▸ hrng)).1
  obtain ⟨hwin, ⟨hle, -, hgap⟩, sackList, hadd, hrep, -⟩ := hloc.store hsub hfitted
    hplaced hmiss (by omega) hfrag (fun _ _ => rfl) hlater hlong hnext
  refine ⟨sackList, ?_, hrep⟩
  have hnextWithin : next ≤ stream.length := by
    rcases Nat.eq_or_lt_of_le hle with hsame | hmoved
    · omega
    · -- the byte before is the last one of a range
      have hpre : ∀ range ∈ later, range.lo < state.missing → range.hi ≤ state.missing := by
        intro range hrng hlo
        rw [hlater] at hrng
        rcases mem_insert.mp hrng with rfl | hkept
        · omega
        · exact hloc.whole (hsub.subset hkept) hlo
      have hrun := (advance_spec hwin.separated hpre).2.2
      have hlastByte := hwin.of_covers (hrun (next - 1) (by omega) (by omega))
      omega
  -- the FIN counts once its number is reached
  have hfin := hst.fin
  have hadv : Located.advanced state.buffer isn next =
      isn.byte (if state.buffer.gotFin then finEdge stream next else next) := by
    rw [Located.advanced]
    cases hgotFin : state.buffer.gotFin with
    | false => simp
    | true =>
      obtain ⟨hfinSeq, hend⟩ := hfin hgotFin
      have hreach : (isn.byte next == isn.byte stream.length) = decide (next = stream.length) :=
        by rw [Bool.eq_iff_iff, beq_iff_eq, decide_eq_true_eq,
          byte_inj_of_lt (by omega) (by omega)]
      simp only [hfinSeq, hreach, Bool.true_and, decide_eq_true_eq, if_true, finEdge]
      split
      · rw [byte_succ]
      · rfl
  rw [hadd, hadv]

theorem of_fitted (hst : Holds stream isn state ranges)
    (hcut : CutFrom stream isn state packet seq first last)
    (hpart : Part stream state first last head tail) (hsub : kept.Sublist ranges)
    (hfitted : Interval.Fitted ranges head tail (kept, new.lo, new.hi))
    {later : List Interval} (hlater : later = new.insert kept) {next : Nat}
    (hnext : next = advance state.missing later) {sackList : List SackBlock}
    (hsack : ∀ block ∈ sackList, Reported isn later next block) :
    Holds stream isn
      { state with
        buffer := { state.buffer with
          data := later.map (blockOf stream isn)
          size := total later
          nextRxSeq := isn.byte (if state.buffer.gotFin then finEdge stream next else next)
          availBytes := state.buffer.availBytes + (next - state.missing)
          sackList := sackList } } later := by
  have hwithin := hst.within_insert hcut hpart hsub hfitted
  have hcov := covers_of_fitted hfitted
  rw [← hlater] at hwithin hcov
  -- what starts below the first missing byte ends there, so the advance starts at it
  have hpre : ∀ range ∈ later, range.lo < state.missing → range.hi ≤ state.missing := by
    intro range hrng hlo
    have hmiss := hpart.missing_le.trans hfitted.head_le
    rw [hlater] at hrng
    rcases mem_insert.mp hrng with rfl | hkept
    · exact absurd hlo (not_lt.mpr hmiss)
    · exact hi_le_of_not_covers hst.gap (hsub.subset hkept) hlo
  obtain ⟨hle, hgap, hrun⟩ := advance_spec hwithin.1 hpre
  rw [← hnext] at hle hgap hrun
  have hmiss : RxState.missing
      { state with
        buffer := { state.buffer with
          data := later.map (blockOf stream isn)
          size := total later
          nextRxSeq := isn.byte (if state.buffer.gotFin then finEdge stream next else next)
          availBytes := state.buffer.availBytes + (next - state.missing)
          sackList := sackList } } = next := by
    have havail : state.missing = state.unread + state.buffer.availBytes := rfl
    have hsum : state.unread + (state.buffer.availBytes + (next - state.missing)) = next := by
      omega
    exact hsum
  refine ⟨hst.delivered, rfl, hwithin.1, hwithin.2, rfl, ?_, ?_, ?_, ?_, ?_⟩
  · intro pos hge hlt
    rw [hmiss] at hlt
    by_cases hold : pos < state.missing
    · exact hcov pos (hst.available pos hge hold)
    · exact hrun pos (not_lt.mp hold) hlt
  · rw [hmiss]
    exact hgap
  · rw [RxState.expected, hmiss]
  · rw [hmiss]
    intro hgotFin
    obtain ⟨hfinSeq, hend⟩ := hst.fin hgotFin
    exact ⟨hfinSeq, by omega⟩
  · rw [hmiss]
    exact hsack

end Store

theorem add (hst : Holds stream isn state ranges)
    (hcut : CutFrom stream isn state packet seq first last)
    (hcomp : Comparable stream state packet seq first last) :
    ∃ result, state.buffer.add packet seq = .ok result ∧
      ∃ later, Holds stream isn { state with buffer := result.2 } later := by
  rcases hst.trim_cases hcut hcomp with ⟨hge, hmeet⟩ | ⟨head, tail, htrim, hpart⟩
  · exact ⟨_, hst.inWindow.add_of_meet hst.data hge hmeet, ranges, hst⟩
  · have hunread : state.unread ≤ state.missing := Nat.le_add_right _ _
    have hedge := le_finEdge stream tail
    obtain ⟨hmiss, -, hsome, hlast, hinside⟩ := id hpart
    rcases hst.inWindow.add_or_place hst.data hst.size htrim (hunread.trans hmiss)
      hsome (by omega) with hnone | ⟨hfitted, hplaced⟩
    · exact ⟨_, hnone, ranges, hst⟩
    · have hsub := fit_sublist head tail ranges
      generalize fit head tail ranges = fitted at hfitted hplaced hsub
      obtain ⟨kept, lo, hi⟩ := fitted
      obtain ⟨sackList, hadd, hsack⟩ := @add_of_fitted stream isn state ranges packet seq first last
        head tail kept ⟨lo, hi⟩ hst hcut hpart hsub hfitted hplaced _ rfl _ rfl
      exact ⟨_, hadd, _, @of_fitted stream isn state ranges packet seq first last head tail kept
        ⟨lo, hi⟩ hst hcut hpart hsub hfitted _ rfl _ rfl _ hsack⟩

theorem init (stream : List UInt8) (isn : SequenceNumber32) :
    Holds stream isn (rxMachine isn).init [] where
  delivered := rfl
  data := rfl
  separated := trivial
  within := by simp
  size := rfl
  available pos hge hlt := absurd hlt (not_lt.mpr hge)
  gap := not_covers_nil _
  next := (byte_zero isn).symm
  fin := by simp [rxMachine, create]
  sack := by simp [rxMachine, create]

theorem step (hst : Holds stream isn state ranges) {input : RxInput}
    (hinp : Handled stream isn state input) :
    ∃ next, (rxMachine isn).step state input = .ok next ∧ ∃ later, Holds stream isn next later := by
  cases input with
  | add packet seq =>
    obtain ⟨first, last, hcut, hcomp⟩ := hinp
    obtain ⟨result, hadd, hlater⟩ := hst.add hcut hcomp
    exact ⟨_, by simp only [rxMachine, hadd, ok_bind, pure_eq_ok], hlater⟩
  | setFinSequence s =>
    obtain ⟨rfl, hend⟩ := hinp
    exact ⟨_, rfl, ranges, hst.setFinSequence hend⟩
  | extract maxSize =>
    obtain ⟨result, hextr, hlater⟩ := hst.extract maxSize
    exact ⟨_, by simp only [rxMachine, hextr, ok_bind, pure_eq_ok], hlater⟩
  | setMaxBufferSize s => exact ⟨_, rfl, ranges, hst.setMaxBufferSize s⟩

theorem of_reachable (hst : (rxMachine isn).ReachableUnder (Handled stream isn) state) :
    ∃ ranges, Holds stream isn state ranges := by
  induction hst with
  | init => exact ⟨[], init stream isn⟩
  | step _ hinp hstep ih =>
    obtain ⟨ranges, hholds⟩ := ih
    obtain ⟨served, hserved, hlater⟩ := hholds.step hinp
    rw [hstep] at hserved
    cases hserved
    exact hlater

end Holds

/-! ## The byte stream -/

structure StreamPreserved (stream : List UInt8) (isn : SequenceNumber32) (state : RxState) :
    Prop where
  /-- what was extracted is a prefix of the stream -/
  delivered : state.delivered <+: stream
  /-- the blocks are disjoint pieces of the stream in order, the available bytes are
  those contiguous from the first unread one, and the next byte is missing -/
  blocks : ∃ ranges, state.buffer.data = ranges.map (blockOf stream isn) ∧
    Interval.Separated state.unread ranges ∧ (∀ range ∈ ranges, range.hi ≤ stream.length) ∧
    (∀ pos, state.unread ≤ pos → pos < state.missing →
      Interval.Covers ranges pos) ∧
    ¬ Interval.Covers ranges state.missing
  size : state.buffer.size = (state.buffer.data.map fun block => block.2.length).sum
  /-- the next expected number is that of the missing byte, plus one exactly when the
  FIN has been reached -/
  next : state.buffer.nextRxSeq = isn.byte (state.missing +
    if state.buffer.gotFin ∧ state.missing = stream.length then 1 else 0)

theorem Holds.streamPreserved {stream : List UInt8} {isn : SequenceNumber32} {state : RxState}
    {ranges : List Interval} (hst : Holds stream isn state ranges) :
    StreamPreserved stream isn state where
  delivered := hst.delivered ▸ List.take_prefix _ _
  blocks := ⟨ranges, hst.data, hst.separated, fun range hrng =>
    (hst.within range hrng).1, hst.available, hst.gap⟩
  size := by
    rw [hst.size, hst.data, List.map_map, total]
    congr 1
    exact List.map_congr_left fun range hrng =>
      (blockOf_length (hst.within range hrng).1).symm
  next := by
    rw [hst.next, RxState.expected, finEdge]
    cases state.buffer.gotFin <;> simp only [Bool.false_eq_true, false_and, true_and, if_true,
      if_false, Nat.add_zero]
    split <;> rfl

/-- In every run of segments it can tell apart, the buffer serves each call and preserves the
stream. -/
theorem stream_preserved {stream : List UInt8} {isn : SequenceNumber32}
    {state : RxState} (hst : (rxMachine isn).ReachableUnder (Handled stream isn) state) :
    StreamPreserved stream isn state ∧ ∀ input, Handled stream isn state input →
    ∃ next, (rxMachine isn).step state input = .ok next := by
  obtain ⟨ranges, hholds⟩ := Holds.of_reachable hst
  refine ⟨hholds.streamPreserved, fun input hinp => ?_⟩
  obtain ⟨next, hserved, -⟩ := hholds.step hinp
  exact ⟨next, hserved⟩

theorem stream_preserved_wrapped :
    let isn : SequenceNumber32 := .of (2 ^ 32 - 2)
    let stream : List UInt8 := [1, 2, 3, 4, 5]
    let state := (rxMachine isn).after (fun state input => decide (Handled stream isn state input))
      [.add [3, 4] (isn.byte 2), .add [1, 2, 3] isn, .extract 3, .setFinSequence (isn.byte 5)]
      (rxMachine isn).init
    (state.delivered = [1, 2, 3] ∧ state.buffer.availBytes = 1 ∧
        state.buffer.nextRxSeq = .of 2) ∧
      StreamPreserved stream isn state := by
  intro isn stream state
  have hst : (rxMachine isn).ReachableUnder (Handled stream isn) state :=
    Machine.ReachableUnder.after (fun _ _ => of_decide_eq_true) _ .init
  exact ⟨by decide +kernel, (stream_preserved hst).1⟩

theorem lo_eq_of_blockOf {stream : List UInt8} {range : Interval} {packet : List UInt8}
    {pos : Nat} (hblock : blockOf stream (.of 0) range = (.of pos, packet))
    (hrng : range.lo < 2 ^ 32) (hpos : pos < 2 ^ 32) : range.lo = pos := by
  have hfst : (SequenceNumber.of 0 : SequenceNumber32).byte range.lo =
      (SequenceNumber.of 0).byte pos := by
    have hzero : (SequenceNumber.of 0 : SequenceNumber32).byte pos = .of pos :=
      congrArg SequenceNumber.mk (BitVec.zero_add _)
    rw [hzero]
    exact congrArg Prod.fst hblock
  exact (SequenceNumber.byte_inj_of_lt (by omega) (by omega)).mp hfst

/-- A full segment and then a byte at the far end of the allowed range, stored in front of it. -/
theorem far_byte_stored_in_front :
    ¬ ∀ (stream : List UInt8) (isn : SequenceNumber32) (state : RxState),
      (rxMachine isn).ReachableUnder (Offered stream isn) state →
        StreamPreserved stream isn state := by
  intro hclaim
  let isn : SequenceNumber32 := .of 0
  let stream : List UInt8 := List.replicate (2 ^ 31 + 1460) 0
  let limited : RxState := ⟨(RxBuffer.create isn).setMaxBufferSize 1000, []⟩
  let full : RxState :=
    ⟨{ limited.buffer with
        nextRxSeq := .of 1460
        size := 1460
        availBytes := 1460
        data := [(.of 0, List.replicate 1460 0)] }, []⟩
  let far : RxState :=
    ⟨{ full.buffer with
        size := 1461
        sackList := [⟨.of (2 ^ 31 + 1458), .of (2 ^ 31 + 1459)⟩]
        data := [(.of (2 ^ 31 + 1458), [0]), (.of 0, List.replicate 1460 0)] }, []⟩
  have hstream : stream.length = 2 ^ 31 + 1460 := List.length_replicate
  have hslice : ∀ first last, last ≤ 2 ^ 31 + 1460 →
      slice stream first last = List.replicate (last - first) 0 := by
    intro first last hlast
    simp only [slice, stream, List.drop_replicate, List.take_replicate]
    congr 1
    omega
  have hlimited : (rxMachine isn).ReachableUnder (Offered stream isn) limited := by
    have hoffered : Offered stream isn (rxMachine isn).init (.setMaxBufferSize 1000) := trivial
    exact .step .init hoffered rfl
  have hfull : (rxMachine isn).ReachableUnder (Offered stream isn) full := by
    have hexpected : RxState.expected stream limited = 0 := rfl
    have hoffered : Offered stream isn limited (.add (List.replicate 1460 0) (.of 0)) :=
      ⟨0, 1460, by omega, by omega, (hslice 0 1460 (by omega)).symm, by decide,
        by rw [hexpected]; decide, by rw [hexpected]; decide⟩
    exact hlimited.step hoffered (by decide +kernel)
  have hfar : (rxMachine isn).ReachableUnder (Offered stream isn) far := by
    have hexpected : RxState.expected stream full = 1460 := rfl
    have hoffered : Offered stream isn full (.add [0] (.of (2 ^ 31 + 1458))) :=
      ⟨2 ^ 31 + 1458, 2 ^ 31 + 1459, by omega, by omega,
        by rw [hslice _ _ (by omega), Nat.add_sub_add_left, List.replicate_one], by decide,
        by rw [hexpected]; decide, by rw [hexpected]; decide⟩
    exact hfull.step hoffered (by decide +kernel)
  obtain ⟨ranges, hdata, hseparated, hwithin, -⟩ := (hclaim stream isn far hfar).blocks
  -- the second block starts at the first byte, yet the blocks are in order
  have hblocks : [((SequenceNumber.of (2 ^ 31 + 1458) : SequenceNumber32), ([0] : List UInt8)),
      (.of 0, List.replicate 1460 0)] = ranges.map (blockOf stream isn) := hdata
  obtain ⟨front, rest, rfl, hfront, hrest⟩ := List.map_eq_cons_iff.mp hblocks.symm
  obtain ⟨back, others, rfl, hback, -⟩ := List.map_eq_cons_iff.mp hrest
  obtain ⟨-, hfrontSome, hbackAfter, hbackSome, -⟩ := hseparated
  have hbackEnd := hwithin back (by simp)
  have hbackStart := lo_eq_of_blockOf hback (by omega) (by decide)
  omega

end HomaSird.Tcp
