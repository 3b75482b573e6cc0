import HomaSird.Data.JoinedIntervals
import HomaSird.Tcp.RxBuffer

/-! # The loops of the receive buffer on positions of the stream

While the stored blocks are pieces of one stream within half the sequence space,
each loop of the receive buffer does on them what the interval operations do on
the positions they hold.
-/

namespace HomaSird.Tcp

open HomaSird.Interval SequenceNumber

def blockOf (stream : List UInt8) (isn : SequenceNumber32) (range : Interval) :
    SequenceNumber32 × List UInt8 :=
  (isn.byte range.lo, slice stream range.lo range.hi)

/-- Ranges of the stream, all within half the sequence space from `start`. -/
structure InWindow (stream : List UInt8) (start : Nat) (ranges : List Interval) : Prop where
  separated : Interval.Separated start ranges
  within : ∀ range ∈ ranges, range.hi ≤ stream.length ∧ range.hi < start + 2 ^ 31

namespace InWindow

variable {stream : List UInt8} {isn : SequenceNumber32} {start : Nat} {ranges : List Interval}

theorem of_mem (hrngs : InWindow stream start ranges)
    {range : Interval} (hrng : range ∈ ranges) :
    start ≤ range.lo ∧ range.lo < range.hi ∧ range.hi ≤ stream.length ∧ range.hi < start + 2 ^ 31 :=
  ⟨(hrngs.separated.of_mem hrng).1, (hrngs.separated.of_mem hrng).2,
    (hrngs.within range hrng).1, (hrngs.within range hrng).2⟩

theorem of_covers (hrngs : InWindow stream start ranges)
    {pos : Nat} (hcov : Interval.Covers ranges pos) :
    start ≤ pos ∧ pos < stream.length ∧ pos + 1 < start + 2 ^ 31 := by
  obtain ⟨range, hrng, hlo, hhi⟩ := hcov
  have hbounds := hrngs.of_mem hrng
  omega

theorem total_le (hrngs : InWindow stream start ranges) : Interval.total ranges < 2 ^ 31 := by
  have htotal := Interval.total_le hrngs.separated
    (fun range hrng => Nat.le_of_lt_succ (hrngs.of_mem hrng).2.2.2) (by omega)
  omega

end InWindow

/-! ## Lists of blocks whose ranges lie in a window -/

section Loops

variable {stream : List UInt8} {isn : SequenceNumber32} {base : Nat} {ranges : List Interval}

/-- Every range starts at `base` or later and ends before half the sequence space. -/
def AllNear (stream : List UInt8) (base : Nat) (ranges : List Interval) : Prop :=
  ∀ range ∈ ranges, base ≤ range.lo ∧ range.lo < range.hi ∧ range.hi ≤ stream.length ∧
    range.hi < base + 2 ^ 31

theorem InWindow.allNear (hrngs : InWindow stream base ranges) : AllNear stream base ranges :=
  fun _ hrng => hrngs.of_mem hrng

variable {range : Interval}

theorem AllNear.head (hnear : AllNear stream base (range :: ranges)) :
    base ≤ range.lo ∧ range.lo < range.hi ∧ range.hi ≤ stream.length ∧ range.hi < base + 2 ^ 31 :=
  hnear range List.mem_cons_self

theorem AllNear.tail (hnear : AllNear stream base (range :: ranges)) : AllNear stream base ranges :=
  fun other hother => hnear other (.tail _ hother)

theorem blockOf_length (hhi : range.hi ≤ stream.length) :
    (blockOf stream isn range).2.length = range.length := slice_length hhi

theorem blockOf_end (hlo : range.lo < range.hi) (hhi : range.hi ≤ stream.length) :
    isn.byte range.lo + .of (blockOf stream isn range).2.length = isn.byte range.hi := by
  rw [blockOf_length hhi, byte_add, length, Nat.add_sub_cancel' hlo.le]

theorem removeOverlap_eq {head tail size rest : Nat} (hnear : AllNear stream base ranges)
    (hhead : base ≤ head ∧ head < base + 2 ^ 31) (htail : base ≤ tail ∧ tail < base + 2 ^ 31)
    (hsz : size = rest + total ranges) (hword : size < 2 ^ 32) :
    RxBuffer.removeOverlap size (isn.byte head) (isn.byte tail)
        (ranges.map (blockOf stream isn)) =
      { data := (fit head tail ranges).1.map (blockOf stream isn)
        size := rest + total (fit head tail ranges).1
        head := isn.byte (fit head tail ranges).2.1
        tail := isn.byte (fit head tail ranges).2.2 } := by
  induction ranges generalizing head tail size rest with
  | nil => simp [RxBuffer.removeOverlap, fit, hsz]
  | cons range ranges ih =>
    obtain ⟨hlo, hsome, hhi, hend⟩ := hnear.head
    rw [total_cons] at hsz
    have hsplit : size = (rest + range.length) + total ranges := by omega
    -- within half the sequence space the comparisons are those of the positions
    have hreach : (isn.byte range.lo).le (isn.byte tail) = decide (range.lo ≤ tail) :=
      le_byte ⟨by omega, by omega⟩
    have hover : (isn.byte range.hi).gt (isn.byte head) = decide (head < range.hi) :=
      gt_byte ⟨by omega, by omega⟩
    have hloHead : (isn.byte range.lo).gt (isn.byte head) = decide (head < range.lo) :=
      gt_byte ⟨by omega, by omega⟩
    have hhiTail : (isn.byte range.hi).lt (isn.byte tail) = decide (range.hi < tail) :=
      lt_byte ⟨by omega, by omega⟩
    have hhead' : (if (isn.byte range.lo).le (isn.byte head) then isn.byte range.hi
        else isn.byte head) = isn.byte (if range.lo ≤ head then range.hi else head) := by
      rw [le_byte ⟨by omega, by omega⟩, apply_ite isn.byte]
      simp only [decide_eq_true_eq]
    have htail' : (if (isn.byte range.hi).ge (isn.byte tail) then isn.byte range.lo
        else isn.byte tail) = isn.byte (if tail ≤ range.hi then range.lo else tail) := by
      rw [ge_byte ⟨by omega, by omega⟩, apply_ite isn.byte]
      simp only [decide_eq_true_eq]
    have hfst : (blockOf stream isn range).1 = isn.byte range.lo := rfl
    rw [List.map_cons, RxBuffer.removeOverlap, fit]
    simp only [hfst, blockOf_end hsome hhi, hreach, hover, hloHead, hhiTail, hhead', htail',
      decide_eq_true_eq, Bool.and_eq_true]
    by_cases htouches : range.lo ≤ tail
    · by_cases hahead : head < range.hi
      · by_cases hswallowed : head < range.lo ∧ range.hi < tail
        · simp only [if_pos htouches, if_pos hahead, if_pos hswallowed]
          rw [blockOf_length hhi]
          apply ih hnear.tail hhead htail
          · rw [uint32OfInt]
            omega
          · rw [uint32OfInt]
            omega
        · simp only [if_pos htouches, if_pos hahead, if_neg hswallowed]
          rw [ih hnear.tail _ _ hsplit hword]
          · simp only [List.map_cons, total_cons, Nat.add_assoc]
          · split <;> omega
          · split <;> omega
      · simp only [if_pos htouches, if_neg hahead]
        rw [ih hnear.tail hhead htail hsplit hword]
        simp only [List.map_cons, total_cons, Nat.add_assoc]
    · simp only [if_neg htouches, List.map_cons, hsz, total_cons]

theorem removeOverlap_of_eq {start size : Nat} {bound : SequenceNumber32}
    (hnear : AllNear stream base ranges) (hsep : Interval.Separated start ranges) :
    ∃ head tail,
      RxBuffer.removeOverlap size bound bound (ranges.map (blockOf stream isn)) =
        ⟨ranges.map (blockOf stream isn), size, head, tail⟩ ∧
        head.ge tail = true := by
  induction ranges generalizing start with
  | nil => exact ⟨bound, bound, rfl, by simp [ge]⟩
  | cons range ranges ih =>
    obtain ⟨hlo, hsome, hhi, hend⟩ := hnear.head
    obtain ⟨-, -, hrest⟩ := hsep
    have hfst : (blockOf stream isn range).1 = isn.byte range.lo := rfl
    rw [List.map_cons, RxBuffer.removeOverlap]
    simp only [hfst, blockOf_end hsome hhi]
    split
    next hreach =>
      have hnotBeyond : (isn.byte range.lo).gt bound = false := by
        simpa [le] using hreach
      split
      next hover =>
        have hge : (isn.byte range.hi).ge bound = true := by simp [ge, hover]
        simp only [hnotBeyond, Bool.false_and, Bool.false_eq_true, if_false, if_true, hge]
        refine ⟨isn.byte range.hi, isn.byte range.lo, ?_, ?_⟩
        · -- the bounds have crossed, and the next block is out of reach
          cases ranges with
          | nil => rfl
          | cons next others =>
            have hnext := hnear.tail.head
            have hafter := hrest.1
            have hout : (isn.byte next.lo).le (isn.byte range.lo) = false := by
              rw [le_byte ⟨by omega, by omega⟩]
              simp only [decide_eq_false_iff_not]
              omega
            have hnextFirst : (blockOf stream isn next).1 = isn.byte next.lo := rfl
            simp only [List.map_cons, RxBuffer.removeOverlap, hnextFirst, hout,
              Bool.false_eq_true, if_false]
        · rw [ge_byte ⟨by omega, by omega⟩]
          exact decide_eq_true hsome.le
      · obtain ⟨head, tail, heq, hge⟩ := ih hnear.tail hrest
        exact ⟨head, tail, by rw [heq], hge⟩
    · exact ⟨bound, bound, rfl, by simp [ge]⟩

theorem insert_eq {new : Interval} (hnear : AllNear stream base ranges)
    (hnew : base ≤ new.lo ∧ new.lo < base + 2 ^ 31) (hfresh : ∀ range ∈ ranges, range.lo ≠ new.lo) :
    BlockMap.insert (isn.byte new.lo) (slice stream new.lo new.hi)
      (ranges.map (blockOf stream isn)) =
      (Interval.insert new ranges).map (blockOf stream isn) := by
  induction ranges with
  | nil => rfl
  | cons range ranges ih =>
    obtain ⟨hlo, hsome, hhi, hend⟩ := hnear.head
    have hdist := hfresh range List.mem_cons_self
    have hfst : (blockOf stream isn range).1 = isn.byte range.lo := rfl
    have hpre : (isn.byte new.lo).lt (isn.byte range.lo) = decide (new.lo < range.lo) :=
      lt_byte ⟨by omega, by omega⟩
    have hafter : (isn.byte range.lo).lt (isn.byte new.lo) = decide (range.lo < new.lo) :=
      lt_byte ⟨by omega, by omega⟩
    rw [List.map_cons, BlockMap.insert, Interval.insert]
    simp only [hfst, hpre, hafter, decide_eq_true_eq]
    split
    · rfl
    · rw [if_pos (by omega), List.map_cons,
        ih hnear.tail fun other hother => hfresh other (.tail _ hother)]

theorem contains_eq_false {pos : Nat} (hnear : AllNear stream base ranges) (hpos :
    base ≤ pos ∧ pos < base + 2 ^ 31) (hfresh : ∀ range ∈ ranges, range.lo ≠ pos) :
    BlockMap.contains (ranges.map (blockOf stream isn)) (isn.byte pos) = false := by
  simp only [BlockMap.contains, List.any_eq_false, List.mem_map, forall_exists_index, and_imp,
    forall_apply_eq_imp_iff₂, blockOf]
  intro range hrng
  obtain ⟨hlo, hsome, hhi, hend⟩ := hnear range hrng
  have hdist := hfresh range hrng
  rw [lt_byte ⟨by omega, by omega⟩, lt_byte ⟨by omega, by omega⟩]
  simp only [Bool.and_eq_true, Bool.not_eq_true', decide_eq_false_iff_not]
  omega

/-! ## The SACK list -/

def Reported (isn : SequenceNumber32) (ranges : List Interval) (next : Nat) (block : SackBlock) :
    Prop :=
  ∃ range : Interval, block = ⟨isn.byte range.lo, isn.byte range.hi⟩ ∧ next < range.lo ∧
    range.lo < range.hi ∧ ∀ pos, range.Contains pos → Interval.Covers ranges pos

theorem Reported.mono {later : List Interval} {next : Nat} {block : SackBlock}
    (hcov : ∀ pos, Interval.Covers ranges pos → Interval.Covers later pos)
    (hblock : Reported isn ranges next block) : Reported isn later next block := by
  obtain ⟨range, heq, hnext, hsome, hstored⟩ := hblock
  exact ⟨range, heq, hnext, hsome, fun pos hin => hcov pos (hstored pos hin)⟩

theorem InWindow.of_reported (hrngs : InWindow stream base ranges) (hsome : range.lo < range.hi)
    (hstored : ∀ pos, range.Contains pos → Interval.Covers ranges pos) :
    base ≤ range.lo ∧ range.hi < base + 2 ^ 31 := by
  have hlo := hrngs.of_covers (hstored range.lo ⟨le_rfl, hsome⟩)
  have hhi := hrngs.of_covers (hstored (range.hi - 1) ⟨by omega, by omega⟩)
  omega

theorem Reported.first_lt_second {next : Nat} {block : SackBlock}
    (hrngs : InWindow stream base ranges) (hblock : Reported isn ranges next block) :
    block.first.lt block.second = true := by
  obtain ⟨range, rfl, -, hsome, hstored⟩ := hblock
  have hwin := hrngs.of_reported hsome hstored
  rw [lt_byte ⟨by omega, by omega⟩]
  exact decide_eq_true hsome

def sackOf (isn : SequenceNumber32) (range : Interval) : SackBlock :=
  ⟨isn.byte range.lo, isn.byte range.hi⟩

def Listed (ranges : List Interval) (next : Nat) (range : Interval) : Prop :=
  next < range.lo ∧ range.lo < range.hi ∧
    ∀ pos, range.Contains pos → Interval.Covers ranges pos

theorem exists_listed {next : Nat} {blocks : List SackBlock}
    (hblocks : ∀ block ∈ blocks, Reported isn ranges next block) :
    ∃ listed : List Interval,
      blocks = listed.map (sackOf isn) ∧ ∀ range ∈ listed, Listed ranges next range := by
  induction blocks with
  | nil => exact ⟨[], rfl, by simp⟩
  | cons block rest ih =>
    obtain ⟨range, rfl, habove, hsome, hstored⟩ := hblocks block List.mem_cons_self
    obtain ⟨listed, rfl, hlisted⟩ := ih fun other hother =>
      hblocks other (.tail _ hother)
    exact ⟨range :: listed, rfl, List.forall_mem_cons.mpr ⟨⟨habove, hsome, hstored⟩, hlisted⟩⟩

/-- A range that is not empty, in the window from `base` on. -/
def InSpan (base : Nat) (range : Interval) : Prop :=
  base ≤ range.lo ∧ range.lo < range.hi ∧ range.hi < base + 2 ^ 31

theorem Listed.inSpan {next : Nat} (hrngs : InWindow stream base ranges)
    (hlisted : Listed ranges next range) : InSpan base range := by
  have hwin := hrngs.of_reported hlisted.2.1 hlisted.2.2
  exact ⟨hwin.1, hlisted.2.1, hwin.2⟩

section Merging

variable {new : Interval} {others rest : List Interval}

theorem mergeTouching_eq (hnew : InSpan base new) (hothers : ∀ range ∈ others, InSpan base range) :
    RxBuffer.mergeTouching (sackOf isn new) (others.map (sackOf isn)) = .ok ((joinTouching new
          others).map fun found => (sackOf isn found.1, found.2.map (sackOf isn))) := by
  induction others with
  | nil => rfl
  | cons range later ih =>
    obtain ⟨hnewLo, hnewSome, hnewHi⟩ := id hnew
    obtain ⟨hlo, hsome, hhi⟩ := hothers range List.mem_cons_self
    have hleft : (sackOf isn new).first = (sackOf isn range).second ↔ new.lo = range.hi :=
      byte_inj ⟨by omega, by omega⟩
    have hright : (sackOf isn new).second = (sackOf isn range).first ↔ new.hi = range.lo :=
      byte_inj ⟨by omega, by omega⟩
    rw [List.map_cons, RxBuffer.mergeTouching, joinTouching]
    simp only [hleft, hright]
    by_cases htouchLeft : new.lo = range.hi
    · have hlt : (sackOf isn range).first.lt (sackOf isn new).second = true := by
        rw [sackOf, sackOf, lt_byte ⟨by omega, by omega⟩]
        exact decide_eq_true (by omega)
      simp only [if_pos htouchLeft, assert_of hlt, ok_bind, pure_eq_ok, Option.map_some]
      rfl
    · by_cases htouchRight : new.hi = range.lo
      · have hlt : (sackOf isn new).first.lt (sackOf isn range).second = true := by
          rw [sackOf, sackOf, lt_byte ⟨by omega, by omega⟩]
          exact decide_eq_true (by omega)
        simp only [if_neg htouchLeft, if_pos htouchRight, assert_of hlt, ok_bind, pure_eq_ok,
          Option.map_some]
        rfl
      · simp only [if_neg htouchLeft, if_neg htouchRight,
          ih fun other hother => hothers other (.tail _ hother), ok_bind,
          pure_eq_ok, Option.map_map]
        rfl

theorem InSpan.joined {joined : Interval} (hnew : InSpan base new) (hothers : ∀ range ∈ others,
    InSpan base range) (hjoined : Interval.Joined new others joined rest) : InSpan base joined := by
  obtain ⟨front, range, back, rfl, -, htouch⟩ := hjoined
  obtain ⟨hnewLo, hnewSome, hnewHi⟩ := hnew
  obtain ⟨hlo, hsome, hhi⟩ := hothers range (by simp)
  rcases htouch with ⟨hleft, rfl⟩ | ⟨hright, rfl⟩
  · exact ⟨hlo, by simp only; omega, hnewHi⟩
  · exact ⟨hnewLo, by simp only; omega, hhi⟩

theorem mergeAll_eq (rounds : Nat) (hnew : InSpan base new)
    (hothers : ∀ range ∈ others, InSpan base range) :
    RxBuffer.mergeAll rounds (sackOf isn new) (others.map (sackOf isn)) =
      .ok ((joinAll rounds new others).map (sackOf isn)) := by
  induction rounds generalizing new others with
  | zero => rfl
  | succ rounds ih =>
    rw [RxBuffer.mergeAll, mergeTouching_eq hnew hothers, ok_bind, joinAll]
    cases hround : joinTouching new others with
    | none => rfl
    | some found =>
      have hjoined := joinTouching_some hround
      exact ih (hnew.joined hothers hjoined) fun range hrng =>
        hothers range (hjoined.sublist.subset hrng)

theorem Listed.joinedAll {next rounds : Nat} {first : Interval} (hnew : Listed ranges next new)
    (hothers : ∀ range ∈ others, Listed ranges next range)
    (hall : Interval.JoinedAll rounds new others first rest) :
    ∀ range ∈ first :: rest, Listed ranges next range := by
  intro range hrng
  have hpart : ∀ pos, range.Contains pos →
      next < pos ∧ Interval.Covers ranges pos := by
    intro pos hin
    obtain ⟨other, hother, hthere⟩ := (hall.covers pos).mp ⟨range, hrng, hin⟩
    have hlisted : Listed ranges next other := by
      rcases List.mem_cons.mp hother with rfl | hmem
      · exact hnew
      · exact hothers other hmem
    exact ⟨hlisted.1.trans_le hthere.1, hlisted.2.2 pos hthere⟩
  have hsome : range.lo < range.hi := by
    rcases List.mem_cons.mp hrng with rfl | hmem
    · exact hall.bounds.1.trans_lt (hnew.2.1.trans_le hall.bounds.2)
    · exact (hothers range (hall.sublist.subset hmem)).2.1
  exact ⟨(hpart range.lo ⟨le_rfl, hsome⟩).1, hsome, fun pos hin => (hpart pos hin).2⟩

end Merging

theorem mergeAll_reported {next : Nat} (rounds : Nat) {begin : SackBlock} {others : List SackBlock}
    (hrngs : InWindow stream base ranges) (hbegin : Reported isn ranges next begin)
    (hothers : ∀ block ∈ others, Reported isn ranges next block) :
    ∃ merged,
      RxBuffer.mergeAll rounds begin others = .ok merged ∧
        ∀ block ∈ merged, Reported isn ranges next block := by
  obtain ⟨new, rfl, hnew⟩ := hbegin
  obtain ⟨listed, rfl, hlisted⟩ := exists_listed hothers
  have hspan := fun range hrng => (hlisted range hrng).inSpan hrngs
  have hnew : Listed ranges next new := hnew
  refine ⟨_, mergeAll_eq rounds (hnew.inSpan hrngs) hspan, fun block hblock => ?_⟩
  obtain ⟨range, hrng, rfl⟩ := List.mem_map.mp hblock
  obtain ⟨first, rest, heq, hall⟩ := @Interval.joinAll_spec new listed rounds hnew.2.1
    fun other hother => (hlisted other hother).2.1
  rw [heq] at hrng
  exact ⟨range, rfl, hnew.joinedAll hlisted hall range hrng⟩

theorem updateSackList_merged {buf : RxBuffer} {next : Nat} {new : Interval}
    (hrngs : InWindow stream base ranges) (hnext : buf.nextRxSeq = isn.byte next)
    (hbase : base ≤ next)
    (hnew : Reported isn ranges next ⟨isn.byte new.lo, isn.byte new.hi⟩)
    (habove : next < new.lo) (hin : new.lo < base + 2 ^ 31)
    (hsack : ∀ block ∈ buf.sackList, Reported isn ranges next block) :
    ∃ merged, RxBuffer.mergeAll buf.sackList.length ⟨isn.byte new.lo, isn.byte new.hi⟩
        buf.sackList = .ok merged ∧
      buf.updateSackList (isn.byte new.lo) (isn.byte new.hi) =
        .ok { buf with
          sackList := if 4 < merged.length then merged.dropLast else merged } ∧
      ∀ block ∈ merged, Reported isn ranges next block := by
  have hassert : (isn.byte new.lo).gt buf.nextRxSeq = true := by
    rw [hnext, gt_byte ⟨by omega, by omega⟩]
    exact decide_eq_true habove
  obtain ⟨merged, hmerged, hrep⟩ := mergeAll_reported buf.sackList.length hrngs hnew hsack
  exact ⟨merged, hmerged, by simp [RxBuffer.updateSackList, assert, hassert, hmerged], hrep⟩

theorem clearSackList_eq {seq : SequenceNumber32} {sackList : List SackBlock}
    (hsack : ∀ block ∈ sackList, block.first.lt block.second = true) :
    RxBuffer.clearSackList seq sackList =
      .ok (sackList.filter fun block => !block.second.le seq) := by
  induction sackList with
  | nil => rfl
  | cons block rest ih =>
    rw [RxBuffer.clearSackList, assert_of (hsack block List.mem_cons_self),
      ih fun other hother => hsack other (.tail _ hother)]
    simp only [ok_bind, pure_eq_ok, List.filter_cons]
    cases block.second.le seq <;> rfl

theorem advance_eq {buf : RxBuffer} {next : Nat} (hnear : AllNear stream base ranges)
    (hnext : buf.nextRxSeq = isn.byte next) (hin : base ≤ next ∧ next < base + 2 ^ 31)
    (hword : buf.availBytes + total ranges < 2 ^ 32)
    (hsack : ∀ block ∈ buf.sackList, block.first.lt block.second = true) :
    ∃ sackList, buf.advance (ranges.map (blockOf stream isn)) =
        .ok { buf with
          nextRxSeq := isn.byte (advance next ranges)
          availBytes := buf.availBytes + (advance next ranges - next)
          sackList := sackList } ∧
      sackList.Sublist buf.sackList ∧
      (advance next ranges = next → sackList = buf.sackList) ∧
      (∀ block ∈ buf.sackList, block ∉ sackList → ∃ edge, next < edge ∧
        edge ≤ advance next ranges ∧ block.second.le (isn.byte edge) = true) ∧
      (next < advance next ranges → ∀ block ∈ sackList,
        block.second.le (isn.byte (advance next ranges)) = false) := by
  induction ranges generalizing buf next with
  | nil =>
    refine ⟨buf.sackList, ?_, List.Sublist.refl _, fun _ => rfl,
      fun block hblock hgone => absurd hblock hgone, fun hmoved => absurd hmoved (lt_irrefl _)⟩
    simp [RxBuffer.advance, advance, ← hnext]
  | cons range ranges ih =>
    obtain ⟨hlo, hsome, hhi, hend⟩ := hnear.head
    have hlen : range.length = range.hi - range.lo := rfl
    rw [total_cons] at hword
    have hfst : (blockOf stream isn range).1 = isn.byte range.lo := rfl
    have hpre : (isn.byte range.lo).lt (isn.byte next) = decide (range.lo < next) :=
      lt_byte ⟨by omega, by omega⟩
    have hafter : (isn.byte range.lo).gt (isn.byte next) = decide (next < range.lo) :=
      gt_byte ⟨by omega, by omega⟩
    rw [List.map_cons, RxBuffer.advance, advance]
    simp only [hfst, hnext, hpre, hafter, decide_eq_true_eq, blockOf_end hsome hhi]
    by_cases hskip : range.lo < next
    · simp only [if_pos hskip]
      exact ih hnear.tail hnext hin (by omega) hsack
    · by_cases hstop : next < range.lo
      · simp only [if_neg hskip, if_pos hstop]
        refine ⟨buf.sackList, ?_, List.Sublist.refl _, fun _ => rfl,
          fun block hblock hgone => absurd hblock hgone,
          fun hmoved => absurd hmoved (lt_irrefl _)⟩
        simp [← hnext]
      · -- the block continues the contiguous bytes
        have hmoved := le_advance range.hi fun other hother =>
          (hnear.tail other hother).2.1
        simp only [if_neg hskip, if_neg hstop, clearSackList_eq hsack, ok_bind]
        rw [blockOf_length hhi, uint32_of_lt (by omega)]
        have hkept : ∀ block ∈ buf.sackList.filter (fun block =>
            !block.second.le (isn.byte range.hi)), block.first.lt block.second = true :=
          fun block hblock => hsack block (List.mem_filter.mp hblock).1
        obtain ⟨sackList, heq, hsub, -, hgone, hclear⟩ :=
          @ih { buf with
            nextRxSeq := isn.byte range.hi
            availBytes := buf.availBytes + range.length
            sackList := buf.sackList.filter fun block =>
              !block.second.le (isn.byte range.hi) } range.hi hnear.tail rfl
            (by omega) (by simp only; omega) hkept
        refine ⟨sackList, ?_, hsub.trans List.filter_sublist,
          fun hsame => absurd hsame (by omega), fun block hblock hnot => ?_,
          fun _ block hblock => ?_⟩
        · rw [heq]
          simp only [Except.ok.injEq, RxBuffer.mk.injEq, true_and, and_true]
          omega
        · -- cleared in this round or in a later one
          by_cases hcleared : block.second.le (isn.byte range.hi) = true
          · exact ⟨range.hi, by omega, hmoved, hcleared⟩
          · obtain ⟨edge, hfrom, hto, hle⟩ :=
              hgone block (List.mem_filter.mpr ⟨hblock, by simpa using hcleared⟩) hnot
            exact ⟨edge, by omega, hto, hle⟩
        · rcases Nat.eq_or_lt_of_le hmoved with hsame | hfurther
          · simpa [← hsame] using (List.mem_filter.mp (hsub.subset hblock)).2
          · exact hclear hfurther block hblock

/-! ## Extracting -/

theorem extractLoop_below {buf : RxBuffer} {start count next : Nat} {outPkt : List UInt8}
    (hnear : AllNear stream base ranges) (hsep : Interval.Separated start ranges)
    (hbelow : count ≤ Interval.totalBelow next ranges)
    (hnext : buf.nextRxSeq = isn.byte next) (hin : next < base + 2 ^ 31)
    (hsz : count ≤ buf.size) (havail : count ≤ buf.availBytes)
    (hsizeWord : buf.size < 2 ^ 32) (havailWord : buf.availBytes < 2 ^ 32) :
    ∃ out, RxBuffer.extractLoop count outPkt buf (ranges.map (blockOf stream isn)) =
        .ok (outPkt ++ out,
          { buf with
            data := (Interval.consume count ranges).map (blockOf stream isn)
            size := buf.size - count
            availBytes := buf.availBytes - count }) ∧
      ((∀ pos, start ≤ pos → pos < start + count →
        Interval.Covers ranges pos) → out = slice stream start (start + count)) := by
  induction ranges generalizing buf start count outPkt with
  | nil =>
    obtain rfl : count = 0 := Nat.eq_zero_of_le_zero hbelow
    exact ⟨[], by simp [RxBuffer.extractLoop, Interval.consume], fun _ => by simp [slice]⟩
  | cons range ranges ih =>
    rw [List.map_cons, RxBuffer.extractLoop, Interval.consume]
    by_cases hzero : count = 0
    · subst hzero
      exact ⟨[], by simp, fun _ => by simp [slice]⟩
    · obtain ⟨hlo, hsome, hhi, hend⟩ := hnear.head
      have hlen : range.length = range.hi - range.lo := rfl
      have hfst : range.lo < next := by
        by_contra hbeyond
        have hnone : Interval.totalBelow next (range :: ranges) = 0 :=
          Interval.totalBelow_of_le
            (show Interval.Separated range.lo (range :: ranges) from ⟨le_rfl, hsep.2⟩)
            (not_lt.mp hbeyond)
        omega
      rw [Interval.totalBelow_cons, if_pos hfst] at hbelow
      have hassert : (blockOf stream isn range).1.le buf.nextRxSeq = true := by
        rw [hnext, blockOf, le_byte ⟨by omega, by omega⟩]
        exact decide_eq_true (by omega)
      simp only [if_neg hzero, assert_of hassert, ok_bind, blockOf_length hhi]
      by_cases hwholeBlock : range.length ≤ count
      · simp only [if_pos hwholeBlock]
        have hsizeLeft : uint32OfInt (buf.size - range.length) =
            buf.size - range.length := by
          rw [uint32OfInt]
          omega
        have havailLeft : uint32OfInt (buf.availBytes - range.length) =
            buf.availBytes - range.length := by
          rw [uint32OfInt]
          omega
        rw [hsizeLeft, havailLeft]
        obtain ⟨out, hloop, hbytes⟩ := @ih { buf with
          size := buf.size - range.length
          availBytes := buf.availBytes - range.length } range.hi (count - range.length)
          (outPkt ++ (blockOf stream isn range).2) hnear.tail hsep.2.2 (by omega) hnext
          (by simp only; omega) (by simp only; omega) (by simp only; omega) (by simp only; omega)
        refine ⟨(blockOf stream isn range).2 ++ out, ?_, fun hfull => ?_⟩
        · rw [hloop, List.append_assoc]
          simp only [Except.ok.injEq, Prod.mk.injEq, RxBuffer.mk.injEq, true_and, and_true]
          omega
        · -- the block is the front of the contiguous bytes
          have hstart := hsep.lo_eq (hfull start le_rfl (by omega))
          have hrest : ∀ pos, range.hi ≤ pos →
              pos < range.hi + (count - range.length) →
              Interval.Covers ranges pos := by
            intro pos hge hlt
            rcases (Interval.covers_cons _ _ _).mp (hfull pos (by omega) (by omega))
              with hhere | hthere
            · exact absurd hhere.2 (by omega)
            · exact hthere
          have hstop : range.hi + (count - range.length) = start + count := by omega
          rw [hbytes hrest, hstop, ← hstart]
          exact slice_append hsome.le (by omega)
      · simp only [if_neg hwholeBlock]
        have htaken : createFragment (blockOf stream isn range).2 0 count =
            .ok (slice stream range.lo (range.lo + count)) := by
          rw [blockOf, createFragment_slice (by omega) hhi (by omega), Nat.add_zero]
        have hleft : createFragment (blockOf stream isn range).2 count (range.length - count) =
            .ok (slice stream (range.lo + count) range.hi) := by
          have hend' : range.lo + count + (range.length - count) = range.hi := by omega
          rw [blockOf, createFragment_slice (by omega) hhi (by omega), hend']
        have hsizeLeft : uint32OfInt (buf.size - count) = buf.size - count := by
          rw [uint32OfInt]
          omega
        have havailLeft : uint32OfInt (buf.availBytes - count) =
            buf.availBytes - count := by
          rw [uint32OfInt]
          omega
        -- what is left of the block takes its place
        have hplace : (BlockMap.insert ((blockOf stream isn range).1 + .of count)
            (slice stream (range.lo + count) range.hi)
            (blockOf stream isn range :: ranges.map (blockOf stream isn))).erase
              (blockOf stream isn range) =
            (isn.byte (range.lo + count), slice stream (range.lo + count) range.hi) ::
              ranges.map (blockOf stream isn) := by
          have hkey : (blockOf stream isn range).1 + .of count =
              isn.byte (range.lo + count) := byte_add _ _ _
          have hinsert := @insert_eq stream isn base (range :: ranges)
            ⟨range.lo + count, range.hi⟩ hnear (by simp only; omega) (by
              intro other hother
              rcases List.mem_cons.mp hother with rfl | hlater
              · simp only
                omega
              · have hbounds := hsep.2.2.of_mem hlater
                simp only
                omega)
          have hnew : (⟨range.lo + count, range.hi⟩ : Interval).lo < range.hi := by
            simp only
            omega
          rw [Interval.insert, if_neg (by simp only; omega),
            Interval.insert_of_lt hsep.2.2 hnew] at hinsert
          rw [hkey]
          simp only [List.map_cons] at hinsert
          rw [hinsert, List.erase_cons_head]
          rfl
        refine ⟨slice stream range.lo (range.lo + count), ?_, fun hfull => ?_⟩
        · simp only [htaken, hleft, ok_bind, pure_eq_ok, hsizeLeft, havailLeft, hplace,
            List.map_cons]
          rfl
        · rw [hsep.lo_eq (hfull start le_rfl (by omega))]

theorem extractLoop_eq {buf : RxBuffer} {start count next : Nat} {outPkt : List UInt8}
    (hnear : AllNear stream base ranges) (hsep : Interval.Separated start ranges)
    (hfull : ∀ pos, start ≤ pos → pos < start + count →
      Interval.Covers ranges pos)
    (hnext : buf.nextRxSeq = isn.byte next) (hin : next < base + 2 ^ 31)
    (hcnt : start + count ≤ next) (hsz : count ≤ buf.size)
    (havail : count ≤ buf.availBytes)
    (hsizeWord : buf.size < 2 ^ 32) (havailWord : buf.availBytes < 2 ^ 32) :
    RxBuffer.extractLoop count outPkt buf (ranges.map (blockOf stream isn)) =
      .ok (outPkt ++ slice stream start (start + count),
        { buf with
          data := (consume count ranges).map (blockOf stream isn)
          size := buf.size - count
          availBytes := buf.availBytes - count }) := by
  obtain ⟨out, hloop, hbytes⟩ := @extractLoop_below stream isn base ranges buf start count next
    outPkt hnear hsep (le_totalBelow_of_full hsep hcnt hfull) hnext hin hsz havail
    hsizeWord havailWord
  rw [hloop, hbytes hfull]

end Loops

end HomaSird.Tcp
