import HomaSird.Tcp.RxPlacement

/-! # Storing a part of a segment

What `Add` does to a buffer whose blocks lie in a window when a part of the segment is fitted
between them. The bytes of the blocks may be those of any stream, and the segment may disagree
with it where it overlaps them.
-/

namespace HomaSird.Tcp

open HomaSird.Interval SequenceNumber RxBuffer

/-! ## Trimming a segment -/

namespace RxBuffer

variable {buf : RxBuffer} {isn : SequenceNumber32} {start missing stop : Nat}

theorem ge_self (number : SequenceNumber32) : number.ge number = true := by
  simp [ge]

theorem head_byte (hnear : Near start missing) :
    (if (isn.byte start).lt (isn.byte missing) = true then isn.byte missing else isn.byte start) =
      isn.byte (max start missing) := by
  rw [lt_byte hnear]
  simp only [decide_eq_true_eq]
  split
  next hlt => rw [max_eq_right hlt.le]
  next hnot => rw [max_eq_left (not_lt.mp hnot)]

theorem trim_of_nil (hdata : buf.data = []) (hnext : buf.nextRxSeq = isn.byte missing)
    (hnear : Near start missing) :
    buf.trim (isn.byte start) (isn.byte stop) = (isn.byte (max start missing), isn.byte stop) := by
  simp only [trim, hnext, head_byte hnear, hdata]

section Edge

variable {block : SequenceNumber32 × List UInt8} {others : BlockMap} {cut : Nat}

section

variable (hdata : buf.data = block :: others) (hnext : buf.nextRxSeq = isn.byte missing)
  (hnear : Near start missing)
include hdata hnext hnear

theorem trim_of_cons (hcut : block.1 + .of buf.maxBuffer = isn.byte cut) (hedge : Near cut stop)
    (horder : Near (min cut stop) (max start missing)) :
    buf.trim (isn.byte start) (isn.byte stop) =
      (isn.byte (min (max start missing) (min cut stop)), isn.byte (min cut stop)) := by
  have htail : (if (isn.byte cut).lt (isn.byte stop) = true then isn.byte cut
      else isn.byte stop) = isn.byte (min cut stop) := by
    rw [lt_byte hedge]
    simp only [decide_eq_true_eq]
    split
    next hlt => rw [min_eq_left hlt.le]
    next hnot => rw [min_eq_right (not_lt.mp hnot)]
  simp only [trim, hnext, head_byte hnear, hdata, hcut, htail, lt_byte horder,
    decide_eq_true_eq]
  split
  next hlt => rw [min_eq_right hlt.le]
  next hnot => rw [min_eq_left (not_lt.mp hnot)]

theorem trim_meets (hend : stop ≤ max start missing) (hstop : Near stop (max start missing))
    (hedge : (block.1 + .of buf.maxBuffer).lt (isn.byte stop) = true →
      (block.1 + .of buf.maxBuffer).lt (isn.byte (max start missing)) = true) :
    (buf.trim (isn.byte start) (isn.byte stop)).1 =
      (buf.trim (isn.byte start) (isn.byte stop)).2 := by
  simp only [trim, hnext, head_byte hnear, hdata]
  generalize block.1 + .of buf.maxBuffer = edge at hedge
  by_cases hcross : edge.lt (isn.byte stop) = true
  · simp only [if_pos hcross, if_pos (hedge hcross)]
  · simp only [if_neg hcross, lt_byte hstop, decide_eq_true_eq]
    split
    · rfl
    next hnot => rw [le_antisymm hend (not_lt.mp hnot)]

end

end Edge

end RxBuffer

/-! ## Fitting what is left of a segment -/

namespace InWindow

variable {stream : List UInt8} {isn : SequenceNumber32} {base : Nat} {ranges : List Interval}
  {buf : RxBuffer} {packet : List UInt8} {seq : SequenceNumber32}

section

variable (hwin : InWindow stream base ranges) (hdata : buf.data = ranges.map (blockOf stream isn))
include hwin hdata

theorem add_of_meet
    (hge :
      (buf.trim seq (seq + .of packet.length)).1.ge (buf.trim seq (seq + .of packet.length)).2 =
        true)
    (hmeet : ranges = [] ∨
      (buf.trim seq (seq + .of packet.length)).1 = (buf.trim seq (seq + .of packet.length)).2) :
    buf.add packet seq = .ok (false, buf) := by
  obtain ⟨headSeq, tailSeq, hplaced, hnone⟩ : ∃ headSeq tailSeq,
      removeOverlap buf.size
          (buf.trim seq (seq + .of packet.length)).1
          (buf.trim seq (seq + .of packet.length)).2 buf.data =
        ⟨buf.data, buf.size, headSeq, tailSeq⟩ ∧ headSeq.ge tailSeq = true := by
    rw [hdata]
    rcases hmeet with rfl | hmeet
    · exact ⟨_, _, rfl, hge⟩
    · rw [hmeet]
      exact removeOverlap_of_eq hwin.allNear hwin.separated
  simp only [add, hplaced, hnone, if_true, pure_eq_ok]

theorem add_or_place (hsz : buf.size = total ranges) {head tail : Nat}
    (htrim : buf.trim seq (seq + .of packet.length) = (isn.byte head, isn.byte tail))
    (hhead : base ≤ head) (hsome : head < tail) (htail : tail < base + 2 ^ 31) :
    buf.add packet seq = .ok (false, buf) ∨
      Interval.Fitted ranges head tail (fit head tail ranges) ∧
        removeOverlap buf.size (buf.trim seq (seq + .of packet.length)).1
          (buf.trim seq (seq + .of packet.length)).2 buf.data =
          ⟨(fit head tail ranges).1.map (blockOf stream isn), total (fit head tail ranges).1,
            isn.byte (fit head tail ranges).2.1, isn.byte (fit head tail ranges).2.2⟩ := by
  have htotal := hwin.total_le
  have hplaced := @removeOverlap_eq stream isn base ranges head tail buf.size 0
    hwin.allNear (by omega) (by omega) (by rw [hsz, Nat.zero_add]) (by omega)
  rw [Nat.zero_add, ← hdata] at hplaced
  rcases fit_spec hwin.separated hsome with ⟨hnone, hkept⟩ | hfitted
  · -- the bounds that are left are those of ranges, so they compare by position
    have hbounds := fit_bounds head tail ranges
    have hfst : base ≤ (fit head tail ranges).2.1 ∧
        (fit head tail ranges).2.1 < base + 2 ^ 31 := by
      rcases hbounds.1 with hsame | ⟨range, hrng, heq⟩
      · omega
      · have hin := hwin.of_mem hrng
        omega
    have hsnd : base ≤ (fit head tail ranges).2.2 ∧
        (fit head tail ranges).2.2 < base + 2 ^ 31 := by
      rcases hbounds.2 with hsame | ⟨range, hrng, heq⟩
      · omega
      · have hin := hwin.of_mem hrng
        omega
    have hnothing : (isn.byte (fit head tail ranges).2.1).ge
        (isn.byte (fit head tail ranges).2.2) = true := by
      rw [ge_byte ⟨by omega, by omega⟩]
      exact decide_eq_true hnone
    refine .inl ?_
    simp only [add, htrim, hplaced, hnothing, if_true, pure_eq_ok, hkept, ← hdata, ← hsz]
  · rw [htrim]
    exact .inr ⟨hfitted, hplaced⟩

end

theorem insert {held : List UInt8} {kept : List Interval} {new : Interval}
    (hwin : InWindow stream base ranges) (hsub : kept.Sublist ranges)
    (hapart : ∀ range ∈ kept, range.hi ≤ new.lo ∨ new.hi ≤ range.lo) (hlo : base ≤ new.lo)
    (hsome : new.lo < new.hi) (hhi : new.hi < base + 2 ^ 31)
    (hlong : ∀ range ∈ new.insert kept, range.hi ≤ held.length) :
    InWindow held base (new.insert kept) where
  separated := (hwin.separated.sublist hsub).insert hlo hsome hapart
  within range hrng := by
    refine ⟨hlong range hrng, ?_⟩
    rcases mem_insert.mp hrng with rfl | hkept
    · exact hhi
    · exact (hwin.within range (hsub.subset hkept)).2

end InWindow

/-! ## Storing a part -/

/-- A buffer with ranges in the window from `base` on, the first missing byte being at `missing`.
-/
structure Located (stream : List UInt8) (isn : SequenceNumber32) (base : Nat)
    (buf : RxBuffer) (missing : Nat) (ranges : List Interval) : Prop where
  data : buf.data = ranges.map (blockOf stream isn)
  window : InWindow stream base ranges
  next : buf.nextRxSeq = isn.byte missing
  base_le : base ≤ missing
  near : missing < base + 2 ^ 31
  gap : ¬ Interval.Covers ranges missing
  size : buf.size = Interval.total ranges
  available : base + buf.availBytes ≤ missing
  sack : ∀ block ∈ buf.sackList, Reported isn ranges missing block

/-- What storing a part does to the list of reported blocks, the next expected byte moving from
`missing` to `next`. -/
structure Relisted (isn : SequenceNumber32) (before : List SackBlock) (missing next : Nat)
    (new : Interval) (after : List SackBlock) : Prop where
  /-- a part out of order goes to the front, merged with what it touches, and a fifth block goes -/
  outOfOrder : missing < new.lo → ∃ merged,
    RxBuffer.mergeAll before.length ⟨isn.byte new.lo, isn.byte new.hi⟩ before = .ok merged ∧
      after = if 4 < merged.length then merged.dropLast else merged
  /-- a part in order only takes blocks off the list that are no longer beyond the next byte -/
  inOrder : new.lo = missing → after.Sublist before ∧ ∀ block ∈ before, block ∉ after →
    ∃ edge, missing < edge ∧ edge ≤ next ∧ block.second.le (isn.byte edge) = true

namespace Located

variable {stream held : List UInt8} {isn : SequenceNumber32} {base missing : Nat}
  {buf : RxBuffer} {ranges kept : List Interval} {new : Interval}

theorem whole (hbuf : Located stream isn base buf missing ranges)
    {range : Interval} (hrng : range ∈ ranges) (hlo : range.lo < missing) : range.hi ≤ missing :=
  hi_le_of_not_covers hbuf.gap hrng hlo

theorem report {later : List Interval} (hwin : InWindow held base later)
    (hnext : buf.nextRxSeq = isn.byte missing) (hbase : base ≤ missing)
    (hmiss : missing ≤ new.lo) (hsome : new.lo < new.hi) (hinside : new.hi < base + 2 ^ 31)
    (hnew : ∀ pos, new.Contains pos → Interval.Covers later pos)
    (hsack : ∀ block ∈ buf.sackList, Reported isn later missing block) :
    ∃ sackList,
      (if (isn.byte new.lo).gt buf.nextRxSeq = true then
        buf.updateSackList (isn.byte new.lo) (isn.byte new.hi) else .ok buf) =
          .ok { buf with sackList := sackList } ∧
      (∀ block ∈ sackList, Reported isn later missing block) ∧
      Relisted isn buf.sackList missing missing new sackList := by
  have habove : (isn.byte new.lo).gt buf.nextRxSeq = decide (missing < new.lo) := by
    rw [hnext]
    exact gt_byte ⟨by omega, by omega⟩
  rw [habove]
  by_cases horder : missing < new.lo
  · rw [if_pos (decide_eq_true horder)]
    obtain ⟨merged, hmerged, hupd, hrep⟩ := updateSackList_merged hwin hnext hbase
      ⟨new, rfl, horder, hsome, hnew⟩ horder (by omega) hsack
    refine ⟨_, hupd, fun block hblock => ?_, ⟨fun _ => ⟨merged, hmerged, rfl⟩, by omega⟩⟩
    split at hblock
    · exact hrep block (List.dropLast_subset _ hblock)
    · exact hrep block hblock
  · rw [if_neg (by simpa using horder)]
    exact ⟨buf.sackList, rfl, hsack, by omega, fun _ => ⟨List.Sublist.refl _,
      fun block hblock hgone => absurd hblock hgone⟩⟩

/-- Where `m_nextRxSeq` goes when the first missing byte is the one at `next`. -/
def advanced (buf : RxBuffer) (isn : SequenceNumber32) (next : Nat) : SequenceNumber32 :=
  if buf.gotFin && isn.byte next == buf.finSeq then (isn.byte next).succ else isn.byte next

theorem add_stored {packet : List UInt8} {seq : SequenceNumber32} {later : List Interval}
    {reported sackList : List SackBlock} {next : Nat} (hlater : later = new.insert kept)
    (hplaced : removeOverlap buf.size
        (buf.trim seq (seq + .of packet.length)).1
        (buf.trim seq (seq + .of packet.length)).2 buf.data =
      ⟨kept.map (blockOf stream isn), total kept, isn.byte new.lo, isn.byte new.hi⟩)
    (hfrag : createFragment packet (uint32OfInt ((isn.byte new.lo).sub seq)) new.length =
      .ok (slice held new.lo new.hi))
    (hsame : ∀ range ∈ kept, blockOf held isn range = blockOf stream isn range)
    (hwin : InWindow held base later) (hfresh : ∀ range ∈ kept, range.lo ≠ new.lo)
    (hreport : (if (isn.byte new.lo).gt buf.nextRxSeq = true then
        { buf with
          data := later.map (blockOf held isn)
          size := total kept }.updateSackList (isn.byte new.lo) (isn.byte new.hi)
        else .ok { buf with
          data := later.map (blockOf held isn)
          size := total kept }) =
      .ok { buf with
        data := later.map (blockOf held isn)
        size := total kept
        sackList := reported })
    (hadvance : { buf with
        data := later.map (blockOf held isn)
        size := total later
        sackList := reported }.advance (later.map (blockOf held isn)) =
      .ok { buf with
        data := later.map (blockOf held isn)
        size := total later
        nextRxSeq := isn.byte next
        availBytes := buf.availBytes + (next - missing)
        sackList := sackList }) :
    buf.add packet seq = .ok (true,
      { buf with
        data := later.map (blockOf held isn)
        size := total later
        nextRxSeq := advanced buf isn next
        availBytes := buf.availBytes + (next - missing)
        sackList := sackList }) := by
  have hkeptIn : ∀ range ∈ kept, range ∈ later := fun range hrng =>
    hlater ▸ mem_insert.mpr (.inr hrng)
  have hnewIn := hwin.of_mem (hlater ▸ mem_insert.mpr (.inl rfl) : new ∈ later)
  have hkeptNear : AllNear held base kept := fun range hrng =>
    hwin.allNear range (hkeptIn range hrng)
  -- the words that `Add` computes are the positions
  have hsomething : (isn.byte new.lo).ge (isn.byte new.hi) = false := by
    rw [ge_byte ⟨by omega, by omega⟩]
    simpa using hnewIn.2.1
  have hlengthWord : uint32OfInt ((isn.byte new.hi).sub (isn.byte new.lo)) = new.length :=
    uint32_sub_byte hnewIn.2.1.le (by omega)
  have hlen : (slice held new.lo new.hi).length = new.length := slice_length hnewIn.2.2.1
  have hkeptSame : kept.map (blockOf stream isn) = kept.map (blockOf held isn) :=
    List.map_congr_left fun range hrng => (hsame range hrng).symm
  have hcontains := @contains_eq_false held isn base kept new.lo hkeptNear
    ⟨by omega, by omega⟩ hfresh
  have hinsert := @insert_eq held isn base kept new hkeptNear ⟨by omega, by omega⟩ hfresh
  rw [← hlater] at hinsert
  have hsz : uint32 (total kept + new.length) = total later := by
    have htotal : total later = new.length + total kept := by
      rw [hlater, total_insert]
    have hbd := hwin.total_le
    rw [htotal, uint32_of_lt (by omega), Nat.add_comm]
  simp only [add, hplaced, hsomething, Bool.false_eq_true, if_false, hlengthWord,
    hfrag, ok_bind, hlen, beq_self_eq_true, assert_of, hkeptSame, hcontains, Bool.not_false,
    hinsert]
  rw [hreport]
  simp only [ok_bind, hsz]
  rw [hadvance]
  rfl

theorem reported_advanced {later : List Interval}
    {block : SackBlock} {next : Nat} (hwin : InWindow held base later)
    (hle : missing ≤ next) (hbase : base ≤ missing) (hnextNear : next < base + 2 ^ 31)
    (hgap : ¬ Interval.Covers later next) (hrep : Reported isn later missing block) (hclear :
    missing < next → block.second.le (isn.byte next) = false) : Reported isn later next block := by
  obtain ⟨range, rfl, habove, hne, hstored⟩ := hrep
  refine ⟨range, rfl, ?_, hne, hstored⟩
  rcases Nat.eq_or_lt_of_le hle with hsame | hmoved
  · omega
  · -- what the byte after the run is short of would be cleared
    have hkept := hclear hmoved
    have hrng := hwin.of_reported hne hstored
    rw [le_byte ⟨by omega, by omega⟩] at hkept
    by_contra hbelow
    exact hgap (hstored next ⟨by omega, by simpa using hkept⟩)

theorem store (hbuf : Located stream isn base buf missing ranges)
    {packet : List UInt8} {seq : SequenceNumber32} {head tail : Nat}
    (hsub : kept.Sublist ranges)
    (hfitted : Interval.Fitted ranges head tail (kept, new.lo, new.hi))
    (hplaced : removeOverlap buf.size
        (buf.trim seq (seq + .of packet.length)).1
        (buf.trim seq (seq + .of packet.length)).2 buf.data =
      ⟨kept.map (blockOf stream isn), total kept, isn.byte new.lo, isn.byte new.hi⟩)
    (hhead : missing ≤ head) (htail : tail < base + 2 ^ 31)
    (hfrag : createFragment packet (uint32OfInt ((isn.byte new.lo).sub seq)) new.length =
      .ok (slice held new.lo new.hi))
    (hsame : ∀ range ∈ kept, blockOf held isn range = blockOf stream isn range)
    {later : List Interval} (hlater : later = new.insert kept)
    (hlong : ∀ range ∈ later, range.hi ≤ held.length) {next : Nat}
    (hnext : next = advance missing later) :
    InWindow held base later ∧ (missing ≤ next ∧ next < base + 2 ^ 31 ∧
      ¬ Interval.Covers later next) ∧
    ∃ sackList,
      buf.add packet seq = .ok (true,
        { buf with
          data := later.map (blockOf held isn)
          size := total later
          nextRxSeq := advanced buf isn next
          availBytes := buf.availBytes + (next - missing)
          sackList := sackList }) ∧
      (∀ block ∈ sackList, Reported isn later next block) ∧
      Relisted isn buf.sackList missing next new sackList := by
  obtain ⟨hheadNew, hsome, htailNew, hapart, hcover⟩ := id hfitted
  simp only at hheadNew hsome htailNew hapart
  have hbase := hbuf.base_le
  have hwin : InWindow held base later := by
    rw [hlater] at hlong ⊢
    exact hbuf.window.insert hsub hapart (by omega) hsome (by omega) hlong
  have hmemNew : new ∈ later := by
    rw [hlater]
    exact mem_insert.mpr (.inl rfl)
  have hcov : ∀ pos, Interval.Covers ranges pos →
      Interval.Covers later pos := by
    intro pos hcov
    rw [hlater]
    exact covers_insert.mpr ((hcover pos hcov).symm.imp_left id)
  have hfresh : ∀ range ∈ kept, range.lo ≠ new.lo := by
    intro range hrng
    have hne := (hbuf.window.of_mem (hsub.subset hrng)).2.1
    have hbounds := hapart range hrng
    omega
  have htotalBound := hwin.total_le
  have havail := hbuf.available
  have hnear := hbuf.near
  obtain ⟨reported, hreport, hrep, hrelisted⟩ := @report held isn base missing
    { buf with
      data := later.map (blockOf held isn)
      size := total kept } new later hwin hbuf.next hbase
    (hhead.trans hheadNew) hsome (by omega) (fun pos hin => ⟨new, hmemNew, hin⟩)
    fun block hblock => (hbuf.sack block hblock).mono hcov
  obtain ⟨sackList, hadvance, hcleared, hkeptList, hgone, hclear⟩ := @advance_eq held isn base later
    { buf with
      data := later.map (blockOf held isn)
      size := total later
      sackList := reported } missing hwin.allNear hbuf.next ⟨hbase, hnear⟩
    (by simp only; omega) fun block hblock => (hrep block hblock).first_lt_second hwin
  have hpre : ∀ range ∈ later, range.lo < missing → range.hi ≤ missing := by
    intro range hrng hlo
    rw [hlater] at hrng
    rcases mem_insert.mp hrng with rfl | hkept
    · omega
    · exact hbuf.whole (hsub.subset hkept) hlo
  obtain ⟨hle, hgap, hrun⟩ := advance_spec hwin.separated hpre
  rw [← hnext] at hle hgap hrun hadvance hkeptList hgone hclear
  have hnextNear : next < base + 2 ^ 31 := by
    rcases Nat.eq_or_lt_of_le hle with hsame | hmoved
    · omega
    · have hlastByte := hwin.of_covers (hrun (next - 1) (by omega) (by omega))
      omega
  refine ⟨hwin, ⟨hle, hnextNear, hgap⟩, sackList,
    add_stored hlater hplaced hfrag hsame hwin hfresh hreport hadvance,
    fun block hblock => reported_advanced hwin hle hbase hnextNear hgap
      (hrep block (hcleared.subset hblock)) fun hmoved => hclear hmoved _ hblock,
    fun habove => ?_, fun hinOrder => ?_⟩
  · -- out of order nothing becomes contiguous
    have hstill : next = missing := by
      by_contra hmoved
      have hcoversNext := hrun missing le_rfl (by omega)
      rw [hlater] at hcoversNext
      rcases covers_insert.mp hcoversNext with hhere | hthere
      · exact absurd hhere.1 (by omega)
      · exact hbuf.gap (hthere.imp fun range hrng => ⟨hsub.subset hrng.1, hrng.2⟩)
    rw [hkeptList hstill]
    exact hrelisted.outOfOrder habove
  · -- in order nothing is added, and then blocks are cleared
    obtain ⟨hsubList, hnone⟩ := hrelisted.inOrder hinOrder
    refine ⟨hcleared.trans hsubList, fun block hblock hnot => ?_⟩
    by_cases hin : block ∈ reported
    · exact hgone block hin hnot
    · obtain ⟨edge, hfrom, hto, -⟩ := hnone block hblock hin
      omega

end Located

end HomaSird.Tcp
