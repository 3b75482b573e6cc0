import HomaSird.Tcp.RxLayout
import HomaSird.Tcp.RxState

/-! # The SACK blocks of the receive buffer

The list that a receiver reports is edited call by call: a block stored out of order goes to its
front, merged with listed blocks that it touches, a fifth block goes off its end, and blocks go
as the next expected byte passes them. What it says is true throughout; that it says it once, and
all of it, holds while no segment swallows a stored one and no block was dropped.
-/

namespace HomaSird.Tcp

open Transition HomaSird.Interval SequenceNumber

namespace SackBlock

/-- The numbers from `first` up to `second`. -/
def Spans (block : SackBlock) (number : SequenceNumber32) : Prop :=
  ∃ index < uint32OfInt (block.second.sub block.first), number = block.first + .of index

def Apart (block other : SackBlock) : Prop :=
  ∀ number, ¬ (block.Spans number ∧ other.Spans number)

def Adjoins (block other : SackBlock) : Prop :=
  block.first = other.second ∨ block.second = other.first

instance (block other : SackBlock) : Decidable (block.Adjoins other) :=
  inferInstanceAs (Decidable (_ ∨ _))

end SackBlock

def sackBlock (block : SequenceNumber32 × List UInt8) : SackBlock :=
  ⟨block.1, block.1 + .of block.2.length⟩

namespace RxBuffer

def StoredOutOfOrder (before after : RxBuffer) (block : SequenceNumber32 × List UInt8) : Prop :=
  block ∈ after.data ∧ block ∉ before.data ∧ before.nextRxSeq.lt block.1 = true

structure Truthful (before after : RxBuffer) : Prop where
  atMostFour : after.sackList.length ≤ 4
  nonempty : ∀ block ∈ after.sackList, block.first.lt block.second = true
  above : ∀ block ∈ after.sackList, after.nextRxSeq.lt block.first = true
  buffered : ∀ block ∈ after.sackList, ∀ number, block.Spans number → after.Buffers number
  first : ∀ block, StoredOutOfOrder before after block → ∃ first ∈ after.sackList.head?,
    ∀ number, (sackBlock block).Spans number → first.Spans number

structure Tidy (before after : RxBuffer) : Prop where
  apart : after.sackList.Pairwise SackBlock.Apart
  merged : ∀ block, StoredOutOfOrder before after block → ∀ first ∈ after.sackList.head?,
    (∀ other ∈ after.sackList.tail, ¬ first.Adjoins other) ∧
      ∀ other ∈ before.sackList, (sackBlock block).Adjoins other →
        ∀ number, other.Spans number → first.Spans number

def Merged (before after : RxBuffer) : Prop :=
  ∀ block, StoredOutOfOrder before after block → ∀ first ∈ after.sackList.head?,
    ∀ number, after.Buffers number → number.succ ≠ first.first ∧ number ≠ first.second

/-- A stored block beyond the next expected byte lies strictly inside a segment. -/
def Swallows (buf : RxBuffer) (packet : List UInt8) (seq : SequenceNumber32) : Prop :=
  ∃ block ∈ buf.data, 0 < buf.offset block.1 ∧ buf.offset seq < buf.offset block.1 ∧
    buf.offset block.1 + block.2.length < buf.offset seq + packet.length

/-- A call that finds four blocks listed stores one out of order that touches none of them. -/
def DropsFifth (before after : RxBuffer) : Prop :=
  before.sackList.length = 4 ∧ ∃ block ∈ after.data, (block ∉ before.data ∧
    before.nextRxSeq.lt block.1 = true) ∧
      ∀ other ∈ before.sackList, ¬ (sackBlock block).Adjoins other

end RxBuffer

/-- Segments and ends of the data whose numbers the code tells apart. -/
def Legible (state : RxState) : RxInput → Prop
  | .add packet seq => state.buffer.Within packet seq (state.buffer.windowStart + (2 ^ 31 - 1))
  | .setFinSequence s => state.buffer.EndsAt s
  | .extract _ => True
  | .setMaxBufferSize _ => True

def Gentle (state : RxState) (input : RxInput) : Prop :=
  Legible state input ∧
    match input with
    | .add packet seq => ¬ state.buffer.Swallows packet seq
    | _ => True

def Remembering (state : RxState) (input : RxInput) : Prop :=
  Gentle state input ∧
    match input with
    | .add packet seq => ∀ result ∈ (state.buffer.add packet seq).toOption,
        ¬ state.buffer.DropsFifth result.2
    | _ => True

section Decidable

variable {buf before after : RxBuffer} {packet : List UInt8} {seq : SequenceNumber32}
  {state : RxState}

instance : Decidable (buf.Swallows packet seq) :=
  inferInstanceAs (Decidable (∃ block ∈ buf.data, _ ∧ _ ∧ _))

instance : Decidable (before.DropsFifth after) :=
  inferInstanceAs (Decidable (_ ∧ ∃ block ∈ after.data, (_ ∧ _) ∧ _))

instance : DecidablePred (Legible state)
  | .add packet seq => inferInstanceAs (Decidable
      (state.buffer.Within packet seq (state.buffer.windowStart + (2 ^ 31 - 1))))
  | .setFinSequence s => inferInstanceAs (Decidable (state.buffer.EndsAt s))
  | .extract _ => inferInstanceAs (Decidable True)
  | .setMaxBufferSize _ => inferInstanceAs (Decidable True)

instance : DecidablePred (Gentle state)
  | .add packet seq =>
    inferInstanceAs (Decidable (Legible state (.add packet seq) ∧
      ¬ state.buffer.Swallows packet seq))
  | .setFinSequence s => inferInstanceAs (Decidable (Legible state (.setFinSequence s) ∧ True))
  | .extract maxSize => inferInstanceAs (Decidable (Legible state (.extract maxSize) ∧ True))
  | .setMaxBufferSize s => inferInstanceAs (Decidable (Legible state (.setMaxBufferSize s) ∧ True))

instance : DecidablePred (Remembering state)
  | .add packet seq =>
    inferInstanceAs (Decidable (Gentle state (.add packet seq) ∧
      ∀ result ∈ (state.buffer.add packet seq).toOption, ¬ state.buffer.DropsFifth result.2))
  | .setFinSequence s => inferInstanceAs (Decidable (Gentle state (.setFinSequence s) ∧ True))
  | .extract maxSize => inferInstanceAs (Decidable (Gentle state (.extract maxSize) ∧ True))
  | .setMaxBufferSize s => inferInstanceAs (Decidable (Gentle state (.setMaxBufferSize s) ∧ True))

end Decidable

/-! ## The list at positions -/

section Positions

variable {isn : SequenceNumber32} {base : Nat} {range other : Interval}

theorem spans_iff (hrng : InSpan base range) {number : SequenceNumber32} :
    (sackOf isn range).Spans number ↔ ∃ pos, range.Contains pos ∧ number = isn.byte pos := by
  obtain ⟨hlo, hsome, hhi⟩ := hrng
  have hlen : uint32OfInt ((isn.byte range.hi).sub (isn.byte range.lo)) =
      range.hi - range.lo := uint32_sub_byte hsome.le (by omega)
  unfold SackBlock.Spans sackOf
  rw [hlen]
  constructor
  · rintro ⟨index, hidx, rfl⟩
    exact ⟨range.lo + index, ⟨Nat.le_add_right _ _, by omega⟩, byte_add _ _ _⟩
  · rintro ⟨pos, ⟨hfrom, hto⟩, rfl⟩
    have hsum : range.lo + (pos - range.lo) = pos := by omega
    exact ⟨pos - range.lo, by omega, (hsum ▸ byte_add isn range.lo (pos - range.lo)).symm⟩

theorem apart_of_disjoint (hrng : InSpan base range) (hother : InSpan base other)
    (hdisj : range.Disjoint other) : (sackOf isn range).Apart (sackOf isn other) := by
  rintro number ⟨hhere, hthere⟩
  obtain ⟨pos, hin, rfl⟩ := (spans_iff hrng).mp hhere
  obtain ⟨second, hinOther, heq⟩ := (spans_iff hother).mp hthere
  obtain ⟨hlo, hsome, hhi⟩ := hrng
  obtain ⟨hotherLo, hotherSome, hotherHi⟩ := hother
  obtain ⟨hfrom, hto⟩ := hin
  obtain ⟨hfromOther, htoOther⟩ := id hinOther
  obtain rfl := (byte_inj ⟨by omega, by omega⟩).mp heq
  exact hdisj pos ⟨⟨hfrom, hto⟩, hinOther⟩

theorem adjoins_iff (hrng : InSpan base range) (hother : InSpan base other) :
    (sackOf isn range).Adjoins (sackOf isn other) ↔ range.Touches other := by
  obtain ⟨hlo, hsome, hhi⟩ := hrng
  obtain ⟨hotherLo, hotherSome, hotherHi⟩ := hother
  exact or_congr (byte_inj ⟨by omega, by omega⟩)
    (byte_inj ⟨by omega, by omega⟩)

end Positions

structure Listing (isn : SequenceNumber32) (buf : RxBuffer) (missing : Nat)
    (ranges listed : List Interval) : Prop where
  layout : Layout isn buf missing ranges
  list : buf.sackList = listed.map (sackOf isn)
  stored : ∀ range ∈ listed, Listed ranges missing range
  atMostFour : listed.length ≤ 4

namespace Listing

variable {isn : SequenceNumber32} {buf after : RxBuffer} {missing next : Nat}
  {ranges listed kept : List Interval} {new : Interval} {packet : List UInt8}
  {seq : SequenceNumber32} {limit : Int}

theorem inSpan (hlst : Listing isn buf missing ranges listed)
    {range : Interval} (hrng : range ∈ listed) : InSpan (lowest missing ranges) range := by
  obtain ⟨stream, hloc⟩ := hlst.layout.located
  exact (hlst.stored range hrng).inSpan hloc.window

section

variable (hlay : Layout isn buf missing ranges)
include hlay

theorem inSpan_new (hlim : limit < buf.windowStart + 2 ^ 31)
    (htaken : Layout.Taken isn buf missing ranges packet seq limit kept new after next) :
    InSpan (lowest missing ranges) new := by
  have hlowest := lowest_le missing ranges
  have hfrom := htaken.part.missing_le
  have hto := htaken.part.limit
  rw [hlay.windowStart_eq] at hlim
  exact ⟨by omega, htaken.part.some, by omega⟩

theorem storedOutOfOrder
    (htaken : Layout.Taken isn buf missing ranges packet seq limit kept new after next)
    {block : SequenceNumber32 × List UInt8} (hstored : buf.StoredOutOfOrder after block) :
    missing < new.lo ∧ sackBlock block = sackOf isn new := by
  obtain ⟨hafter, hpre, habove⟩ := hstored
  obtain ⟨hfst, hlen⟩ := (htaken.blocks block hafter).resolve_left hpre
  have hsome := htaken.part.some
  refine ⟨?_, ?_⟩
  · rw [hfst, hlay.next] at habove
    refine lt_of_le_of_ne htaken.part.missing_le fun hsame => ?_
    rw [hsame] at habove
    simp [lt] at habove
  · rw [sackBlock, sackOf, hfst, hlen, length, byte_add]
    congr 2
    omega

end

theorem relist (hlst : Listing isn buf missing ranges listed)
    (htaken : Layout.Taken isn buf missing ranges packet seq limit kept new after next)
    (hlim : limit < buf.windowStart + 2 ^ 31) (habove : missing < new.lo) :
    ∃ first rest left, Interval.JoinedAll listed.length new listed first rest ∧ after.sackList =
    (first :: left).map (sackOf isn) ∧ left.Sublist rest ∧ (first :: left).length ≤ 4 ∧
    (left = rest ∨ listed.length = 4 ∧ ∀ range ∈ listed, ¬ new.Touches range) := by
  obtain ⟨merged, hmerged, hafter⟩ := htaken.relisted.outOfOrder habove
  have hnew := inSpan_new hlst.layout hlim htaken
  obtain ⟨first, rest, heq, hall⟩ := @Interval.joinAll_spec new listed listed.length hnew.2.1
    fun range hrng => (hlst.inSpan hrng).2.1
  have hmerge := @mergeAll_eq isn _ new listed listed.length hnew fun _ => hlst.inSpan
  rw [heq] at hmerge
  rw [hlst.list, List.length_map] at hmerged
  obtain rfl := Except.ok.inj (hmerged.symm.trans hmerge)
  have hrest := hall.sublist.length_le
  have hlen := hlst.atMostFour
  rw [List.length_map, List.length_cons] at hafter
  by_cases hfive : 4 < rest.length + 1
  · refine ⟨first, rest, rest.dropLast, hall, ?_, List.dropLast_sublist _, ?_, .inr ⟨by omega, ?_⟩⟩
    · rw [hafter, if_pos hfive, ← List.map_dropLast, List.dropLast_cons_of_ne_nil]
      intro hnil
      rw [hnil, List.length_nil] at hfive
      omega
    · rw [List.length_cons, List.length_dropLast]
      omega
    · intro range hrng htouch
      have hless := hall.length (by omega) ⟨range, hrng, htouch⟩
      omega
  · refine ⟨first, rest, rest, hall, ?_, List.Sublist.refl _, ?_, .inl rfl⟩
    · rw [hafter, if_neg hfive]
    · rw [List.length_cons]
      omega

theorem sackOf_inj {base : Nat} {range other : Interval} (hrng : InSpan base range)
    (hother : InSpan base other) (hsame : sackOf isn range = sackOf isn other) : range = other := by
  obtain ⟨hlo, hsome, hhi⟩ := hrng
  obtain ⟨hotherLo, hotherSome, hotherHi⟩ := hother
  obtain ⟨hfst, hsnd⟩ := SackBlock.mk.inj hsame
  have hloSame := (byte_inj ⟨by omega, by omega⟩).mp hfst
  have hhiSame := (byte_inj ⟨by omega, by omega⟩).mp hsnd
  cases range
  cases other
  simp_all

theorem lowest_le_lowest (hlay : Layout isn buf missing ranges)
    (htaken : Layout.Taken isn buf missing ranges packet seq limit kept new after next) :
    lowest missing ranges ≤ lowest next (new.insert kept) ∧
      lowest next (new.insert kept) ≤ new.lo := by
  have hlowest := lowest_le missing ranges
  refine ⟨le_lowest (hlowest.trans htaken.next_le) fun range hrng => ?_,
    (htaken.layout.of_mem (mem_insert.mpr (.inl rfl))).1⟩
  rcases mem_insert.mp hrng with rfl | hkept
  · exact hlowest.trans htaken.part.missing_le
  · exact (hlay.of_mem (htaken.sublist.subset hkept)).1

theorem of_near {listedAfter : List Interval} {base : Nat} (hlay : Layout isn after next ranges)
    (hlist : after.sackList = listedAfter.map (sackOf isn))
    (hspan : ∀ range ∈ listedAfter, InSpan base range) (hfrom : base ≤ lowest next ranges)
    (hto : lowest next ranges ≤ base + 2 ^ 31) (hlen : listedAfter.length ≤ 4) :
    Listing isn after next ranges listedAfter := by
  refine ⟨hlay, hlist, fun range hrng => ?_, hlen⟩
  obtain ⟨hlo, hsome, hhi⟩ := hspan range hrng
  obtain ⟨stream, hloc⟩ := hlay.located
  obtain ⟨other, heq, hother⟩ := hloc.sack (sackOf isn range) (by
    rw [hlist]
    exact List.mem_map_of_mem hrng)
  have hlisted : Listed ranges next other := hother
  obtain ⟨hotherLo, -, hotherHi⟩ := hlisted.inSpan hloc.window
  obtain ⟨hfst, hsnd⟩ := SackBlock.mk.inj heq
  have hloSame := (byte_inj_of_lt (by omega) (by omega)).mp hfst
  have hhiSame := (byte_inj_of_lt (by omega) (by omega)).mp hsnd
  have hsame : range = other := by
    cases range
    cases other
    simp_all
  exact hsame ▸ hlisted

section

variable (hlst : Listing isn buf missing ranges listed) (hlim : limit < buf.windowStart + 2 ^ 31)
  (htaken : Layout.Taken isn buf missing ranges packet seq limit kept new after next)
include hlst hlim htaken

theorem of_taken {listedAfter : List Interval}
    (hlist : after.sackList = listedAfter.map (sackOf isn))
    (hspan : ∀ range ∈ listedAfter, InSpan (lowest missing ranges) range)
    (hlen : listedAfter.length ≤ 4) :
    Listing isn after next (new.insert kept) listedAfter := by
  obtain ⟨hfrom, hto⟩ := lowest_le_lowest hlst.layout htaken
  obtain ⟨-, hsome, hhi⟩ := inSpan_new hlst.layout hlim htaken
  exact of_near htaken.layout hlist hspan hfrom (by omega) hlen

structure FrontOf (listed : List Interval) (new : Interval) (listedAfter : List Interval)
    (first : Interval) (rest : List Interval) : Prop where
  joined : Interval.JoinedAll listed.length new listed first rest
  left : ∃ left, listedAfter = first :: left ∧ left.Sublist rest ∧
    (left = rest ∨ listed.length = 4 ∧ ∀ range ∈ listed, ¬ new.Touches range)

theorem taken :
    ∃ listedAfter,
      Listing isn after next (new.insert kept) listedAfter ∧
        (missing < new.lo → ∃ first rest, FrontOf listed new listedAfter first rest) ∧
        (new.lo = missing →
          listedAfter.Sublist listed ∧
            ∀ range ∈ listed, range ∉ listedAfter → range.hi ≤ next) := by
  have hnew := inSpan_new hlst.layout hlim htaken
  rcases Nat.lt_or_eq_of_le htaken.part.missing_le with habove | hinOrder
  · obtain ⟨first, rest, left, hall, hlist, hsub, hlen, hleft⟩ :=
      hlst.relist htaken hlim habove
    have hbounds := hall.bounds
    have hspan : ∀ range ∈ first :: left, InSpan (lowest missing ranges) range := by
      intro range hrng
      rcases List.mem_cons.mp hrng with rfl | hmem
      · -- the ends of the first one are covered by what was joined
        have hends : ∀ pos, range.Contains pos →
            lowest missing ranges ≤ pos ∧
              pos + 1 < lowest missing ranges + 2 ^ 31 := by
          intro pos hin
          obtain ⟨other, hother, hthere⟩ :=
            (hall.covers pos).mp ⟨range, List.mem_cons_self, hin⟩
          obtain ⟨hfrom, hto⟩ := hthere
          rcases List.mem_cons.mp hother with rfl | hmem
          · obtain ⟨hlo, -, hhi⟩ := hnew
            omega
          · obtain ⟨hlo, -, hhi⟩ := hlst.inSpan hmem
            omega
        have hsome : range.lo < range.hi := hbounds.1.trans_lt (hnew.2.1.trans_le hbounds.2)
        have hlo := hends range.lo ⟨le_rfl, hsome⟩
        have hhi := hends (range.hi - 1) ⟨by omega, by omega⟩
        exact ⟨by omega, hsome, by omega⟩
      · exact hlst.inSpan (hall.sublist.subset (hsub.subset hmem))
    exact ⟨first :: left, hlst.of_taken hlim htaken hlist hspan hlen,
      fun _ => ⟨first, rest, hall, left, rfl, hsub, hleft⟩, fun hsame => by omega⟩
  · obtain ⟨hsub, hgone⟩ := htaken.relisted.inOrder hinOrder.symm
    rw [hlst.list] at hsub hgone
    obtain ⟨listedAfter, hsubListed, hlist⟩ := List.sublist_map_iff.mp hsub
    have hspan : ∀ range ∈ listedAfter, InSpan (lowest missing ranges) range :=
      fun range hrng => hlst.inSpan (hsubListed.subset hrng)
    refine ⟨listedAfter, hlst.of_taken hlim htaken hlist hspan
      (hsubListed.length_le.trans hlst.atMostFour), fun habove => by omega,
      fun _ => ⟨hsubListed, fun range hrng hnot => ?_⟩⟩
    obtain ⟨edge, hfrom, hto, hclear⟩ := hgone (sackOf isn range) (List.mem_map_of_mem hrng) (by
      rw [hlist]
      intro hmem
      obtain ⟨other, hother, hsame⟩ := List.mem_map.mp hmem
      exact hnot (sackOf_inj (hspan other hother) (hlst.inSpan hrng) hsame ▸ hother))
    obtain ⟨hlo, hsome, hhi⟩ := hlst.inSpan hrng
    have hnear := htaken.layout.near
    have hlowest := lowest_le_lowest hlst.layout htaken
    have habove := (hlst.stored range hrng).1
    rw [sackOf, le_byte ⟨by omega, by omega⟩] at hclear
    exact (of_decide_eq_true hclear).trans hto

end

/-! ## What the list says -/

theorem truthful {before : RxBuffer} (hlst : Listing isn buf missing ranges listed)
    (hfst : ∀ block, before.StoredOutOfOrder buf block → ∃ first ∈ buf.sackList.head?,
    ∀ number, (sackBlock block).Spans number → first.Spans number) : before.Truthful buf := by
  have hlay := hlst.layout
  have hle := lowest_le missing ranges
  refine ⟨?_, ?_, ?_, ?_, hfst⟩
  · rw [hlst.list, List.length_map]
    exact hlst.atMostFour
  · rw [hlst.list, List.forall_mem_map]
    intro range hrng
    obtain ⟨hlo, hsome, hhi⟩ := hlst.inSpan hrng
    rw [sackOf, lt_byte ⟨by omega, by omega⟩]
    exact decide_eq_true hsome
  · rw [hlst.list, List.forall_mem_map]
    intro range hrng
    obtain ⟨hlo, hsome, hhi⟩ := hlst.inSpan hrng
    have habove := (hlst.stored range hrng).1
    rw [hlay.next, sackOf, lt_byte ⟨by omega, by omega⟩]
    exact decide_eq_true habove
  · rw [hlst.list, List.forall_mem_map]
    intro range hrng number hspans
    obtain ⟨pos, hin, rfl⟩ := (spans_iff (hlst.inSpan hrng)).mp hspans
    exact hlay.buffers_iff.mpr ⟨pos, rfl, (hlst.stored range hrng).2.2 pos hin⟩

theorem truthful_self (hlst : Listing isn buf missing ranges listed) :
    buf.Truthful buf :=
  hlst.truthful fun _ hstored => absurd hstored.1 hstored.2.1

variable {listedAfter rest : List Interval} {first : Interval}

section

variable (hlst : Listing isn buf missing ranges listed)
include hlst

theorem truthful_taken (hlim : limit < buf.windowStart + 2 ^ 31)
    (htaken : Layout.Taken isn buf missing ranges packet seq limit kept new after next)
    (hafter : Listing isn after next (new.insert kept) listedAfter) (hfront : missing < new.lo →
    ∃ first rest, FrontOf listed new listedAfter first rest) : buf.Truthful after := by
  refine hafter.truthful fun block hstored => ?_
  obtain ⟨habove, hblock⟩ := storedOutOfOrder hlst.layout htaken hstored
  obtain ⟨first, rest, hall, left, rfl, -, -⟩ := hfront habove
  refine ⟨sackOf isn first, by simp [hafter.list], fun number hspans => ?_⟩
  rw [hblock, spans_iff (inSpan_new hlst.layout hlim htaken)] at hspans
  obtain ⟨pos, ⟨hlo, hhi⟩, rfl⟩ := hspans
  exact (spans_iff (hafter.inSpan List.mem_cons_self)).mpr
    ⟨pos, ⟨hall.bounds.1.trans hlo, hhi.trans_le hall.bounds.2⟩, rfl⟩

theorem disjoint_new
    (htaken : Layout.Taken isn buf missing ranges packet seq limit kept new after next)
    (hgentle : ¬ buf.Swallows packet seq) (hdisj : listed.Pairwise Interval.Disjoint) :
    (∀ range ∈ ranges, range ∈ kept) ∧ (new :: listed).Pairwise Interval.Disjoint := by
  obtain ⟨stream, hloc⟩ := hlst.layout.located
  have hkept : ∀ range ∈ ranges, range ∈ kept := by
    intro range hrng
    by_contra hnot
    obtain ⟨hbeyond, hfrom, hto⟩ := htaken.dropped range hrng hnot
    have hsome := (hlst.layout.of_mem hrng).2.1
    have hoff : buf.offset (blockOf stream isn range).1 = (range.lo : Int) - missing :=
      hlst.layout.offset_byte (hlst.layout.near_of_mem hrng).1
    refine hgentle ⟨blockOf stream isn range, ?_, ?_, ?_, ?_⟩
    · rw [hloc.data]
      exact List.mem_map_of_mem hrng
    · rw [hoff]
      omega
    · rw [hoff]
      omega
    · rw [hoff, blockOf_length (hloc.window.within range hrng).1, length]
      omega
  refine ⟨hkept, List.pairwise_cons.mpr ⟨fun range hrng pos hboth => ?_, hdisj⟩⟩
  obtain ⟨⟨hfrom, hto⟩, hthere⟩ := hboth
  obtain ⟨other, hother, hlo, hhi⟩ := (hlst.stored range hrng).2.2 pos hthere
  have hapart := htaken.apart other (hkept other hother)
  omega

theorem nonempty : ∀ range ∈ listed, range.lo < range.hi := fun range hrng => (hlst.stored
    range hrng).2.1

end

theorem disjoint_taken
    (htaken : Layout.Taken isn buf missing ranges packet seq limit kept new after next)
    (hfront : missing < new.lo → ∃ first rest, FrontOf listed new listedAfter first rest)
    (hinOrder : new.lo = missing → listedAfter.Sublist listed)
    (hdisj : (new :: listed).Pairwise Interval.Disjoint) :
    listedAfter.Pairwise Interval.Disjoint := by
  rcases Nat.lt_or_eq_of_le htaken.part.missing_le with habove | hsame
  · obtain ⟨first, rest, hall, left, rfl, hsub, -⟩ := hfront habove
    exact (hall.disjoint hdisj).sublist (hsub.cons_cons first)
  · exact (List.pairwise_cons.mp hdisj).2.sublist (hinOrder hsame.symm)

theorem apart (hlst : Listing isn buf missing ranges listed)
    (hdisj : listed.Pairwise Interval.Disjoint) : buf.sackList.Pairwise SackBlock.Apart := by
  rw [hlst.list, List.pairwise_map]
  exact hdisj.imp_of_mem fun hrng hother hpair =>
    apart_of_disjoint (hlst.inSpan hrng) (hlst.inSpan hother) hpair

theorem tidy_taken (hlst : Listing isn buf missing ranges listed)
    (hlim : limit < buf.windowStart + 2 ^ 31)
    (htaken : Layout.Taken isn buf missing ranges packet seq limit kept new after next) (hafter :
    Listing isn after next (new.insert kept) listedAfter) (hfront : missing < new.lo → ∃ first rest,
    FrontOf listed new listedAfter first rest) (hdisj : (new :: listed).Pairwise Interval.Disjoint)
    (hdisjointAfter : listedAfter.Pairwise Interval.Disjoint) : buf.Tidy after := by
  refine ⟨hafter.apart hdisjointAfter, fun block hstored front hhead => ?_⟩
  obtain ⟨habove, hblock⟩ := storedOutOfOrder hlst.layout htaken hstored
  obtain ⟨first, rest, hall, left, rfl, hsub, -⟩ := hfront habove
  have hnew := inSpan_new hlst.layout hlim htaken
  have hfst := hafter.inSpan List.mem_cons_self
  rw [hafter.list] at hhead ⊢
  obtain rfl : sackOf isn first = front := by simpa using hhead
  constructor
  · rw [List.map_cons, List.tail_cons, List.forall_mem_map]
    intro range hrng hadjoins
    rw [adjoins_iff hfst (hafter.inSpan (.tail _ hrng))] at hadjoins
    exact hall.done le_rfl range (hsub.subset hrng) hadjoins
  · rw [hlst.list, List.forall_mem_map]
    intro range hrng hadjoins number hspans
    rw [hblock, adjoins_iff hnew (hlst.inSpan hrng)] at hadjoins
    obtain ⟨pos, hin, rfl⟩ := (spans_iff (hlst.inSpan hrng)).mp hspans
    exact (spans_iff hfst).mpr ⟨pos, hall.contains_of_touches le_rfl hnew.2.1
      hlst.nonempty hdisj hrng hadjoins hin, rfl⟩

def Complete (missing : Nat) (ranges listed : List Interval) : Prop :=
  ∀ pos, missing < pos → Interval.Covers ranges pos →
    Interval.Covers listed pos

theorem covers_taken
    (htaken : Layout.Taken isn buf missing ranges packet seq limit kept new after next) {pos : Nat}
    (hcov : Interval.Covers (new.insert kept) pos) :
    new.Contains pos ∨ Interval.Covers ranges pos :=
  (covers_insert.mp hcov).imp_right fun ⟨range, hrng, hin⟩ =>
    ⟨range, htaken.sublist.subset hrng, hin⟩

section

variable (hlst : Listing isn buf missing ranges listed) (hlim : limit < buf.windowStart + 2 ^ 31)
  (htaken : Layout.Taken isn buf missing ranges packet seq limit kept new after next)
include hlst hlim htaken

theorem merged_taken (hafter : Listing isn after next (new.insert kept) listedAfter)
    (hfront : missing < new.lo → ∃ first rest, FrontOf listed new listedAfter first rest)
    (hdisj : (new :: listed).Pairwise Interval.Disjoint)
    (hfull : Complete missing ranges listed) : buf.Merged after := by
  intro block hstored front hhead number hnumber
  obtain ⟨habove, hblock⟩ := storedOutOfOrder hlst.layout htaken hstored
  obtain ⟨first, rest, hall, left, rfl, hsub, -⟩ := hfront habove
  have hnew := inSpan_new hlst.layout hlim htaken
  rw [hafter.list] at hhead
  obtain rfl : sackOf isn first = front := by simpa using hhead
  obtain ⟨pos, rfl, hcov⟩ := hafter.layout.buffers_iff.mp hnumber
  have hbounds := hafter.layout.of_covers hcov
  obtain ⟨hfirstLo, hfirstSome, hfirstHi⟩ := hafter.inSpan (List.mem_cons_self (a := first))
  have hfirstAbove := (hafter.stored first List.mem_cons_self).1
  -- a buffered position beside the first block would be listed, and so touch it
  have hbeside : ¬ (pos + 1 = first.lo ∨ pos = first.hi) := by
    intro hbeside
    refine hall.not_covers_beside le_rfl hnew.2.1 hlst.nonempty hdisj hbeside ?_
    rcases covers_taken htaken hcov with hin | hold
    · exact ⟨new, List.mem_cons_self, hin⟩
    · have hbeyond : missing < pos := by
        have hle := htaken.next_le
        have hgap : pos ≠ missing := fun hsame => hlst.layout.gap (hsame ▸ hold)
        omega
      obtain ⟨range, hrng, hin⟩ := hfull pos hbeyond hold
      exact ⟨range, List.mem_cons_of_mem _ hrng, hin⟩
  obtain ⟨hfront, hbehind⟩ := not_or.mp hbeside
  constructor
  · rw [byte_succ]
    exact fun heq => hfront ((byte_inj ⟨by omega, by omega⟩).mp heq)
  · exact fun heq => hbehind ((byte_inj ⟨by omega, by omega⟩).mp heq)

theorem complete_taken
    (hfront : missing < new.lo → ∃ first rest, FrontOf listed new listedAfter first rest)
    (hinOrder : new.lo = missing →
      listedAfter.Sublist listed ∧ ∀ range ∈ listed, range ∉ listedAfter → range.hi ≤ next)
    (hfull : Complete missing ranges listed) (hkept : ¬ buf.DropsFifth after) :
    Complete next (new.insert kept) listedAfter := by
  intro pos hbeyond hcov
  have hle := htaken.next_le
  rcases Nat.lt_or_eq_of_le htaken.part.missing_le with habove | hsame
  · obtain ⟨first, rest, hall, left, rfl, hsub, hleft⟩ := hfront habove
    rcases hleft with rfl | ⟨hfour, hapart⟩
    · refine (hall.covers pos).mpr ?_
      rcases covers_taken htaken hcov with hin | hold
      · exact ⟨new, List.mem_cons_self, hin⟩
      · obtain ⟨range, hrng, hin⟩ := hfull pos (by omega) hold
        exact ⟨range, List.mem_cons_of_mem _ hrng, hin⟩
    · -- the part is a fifth block
      exfalso
      obtain ⟨stream, hloc⟩ := hlst.layout.located
      obtain ⟨held, hlocatedAfter⟩ := htaken.layout.located
      have hnewLater : new ∈ new.insert kept := mem_insert.mpr (.inl rfl)
      have hnew := inSpan_new hlst.layout hlim htaken
      have hlowest := lowest_le missing ranges
      have hstored : buf.StoredOutOfOrder after (blockOf held isn new) := by
        refine ⟨?_, fun hmem => ?_, ?_⟩
        · rw [hlocatedAfter.data]
          exact List.mem_map_of_mem hnewLater
        · rw [hloc.data] at hmem
          obtain ⟨range, hrng, heq⟩ := List.mem_map.mp hmem
          obtain ⟨hlo, hsome, hhi⟩ := hlst.layout.of_mem hrng
          have hstart : range.lo = new.lo := by
            refine (byte_inj ⟨?_, ?_⟩).mp (Prod.mk.inj heq).1
            · obtain ⟨hnewLo, -, -⟩ := hnew
              omega
            · obtain ⟨-, hnewSome, hnewHi⟩ := hnew
              omega
          exact htaken.fresh ⟨range, hrng, by omega, by omega⟩
        · obtain ⟨hnewLo, hnewSome, hnewHi⟩ := hnew
          rw [hlst.layout.next, blockOf, lt_byte ⟨by omega, by omega⟩]
          exact decide_eq_true habove
      refine hkept ⟨?_, blockOf held isn new, hstored.1, hstored.2, ?_⟩
      · rw [hlst.list, List.length_map, hfour]
      · rw [hlst.list, List.forall_mem_map]
        intro range hrng hadjoins
        rw [(storedOutOfOrder hlst.layout htaken hstored).2,
          adjoins_iff hnew (hlst.inSpan hrng)] at hadjoins
        exact hapart range hrng hadjoins
  · obtain ⟨hsub, hgone⟩ := hinOrder hsame.symm
    have hold : Interval.Covers ranges pos := by
      refine (covers_taken htaken hcov).resolve_left fun hin => ?_
      -- the part is now among what has been received in order
      have hpassed := hi_le_of_not_covers htaken.layout.gap
        (mem_insert.mpr (.inl rfl)) (show new.lo < next by
          have hmoved := htaken.layout.gap
          refine lt_of_le_of_ne (hsame ▸ hle) fun heq => hmoved ?_
          exact ⟨new, mem_insert.mpr (.inl rfl), heq ▸ le_rfl, heq ▸ htaken.part.some⟩)
      have hto := hin.2
      omega
    obtain ⟨range, hrng, hin⟩ := hfull pos (by omega) hold
    by_cases hstays : range ∈ listedAfter
    · exact ⟨range, hstays, hin⟩
    · have hend := hgone range hrng hstays
      have hto := hin.2
      omega

end

/-! ## Runs -/

theorem init (isn : SequenceNumber32) : Listing isn (.create isn) (2 ^ 32) [] [] :=
  ⟨.init isn, rfl, by simp, by simp⟩

section

variable (hlst : Listing isn buf missing ranges listed)
include hlst

theorem setFinSequence {s : SequenceNumber32} (hends : buf.EndsAt s) :
    ∃ next, missing ≤ next ∧ Listing isn (buf.setFinSequence s) next ranges listed := by
  obtain ⟨next, hfrom, hto, hlay⟩ := hlst.layout.setFinSequence hends
  have hlowest := hlst.layout.separated.le_lowest
    ((lowest_le missing ranges).trans hfrom)
  have hle := lowest_le next ranges
  have hnear := hlst.layout.near
  exact ⟨next, hfrom, of_near hlay hlst.list (fun _ => hlst.inSpan) hlowest (by omega)
    hlst.atMostFour⟩

theorem extract (maxSize : Nat) :
    ∃ result,
      buf.extract maxSize = .ok result ∧
        ∃ kept,
          Listing isn result.2 missing kept listed ∧
            ∀ pos, Interval.Covers kept pos → Interval.Covers ranges pos := by
  obtain ⟨out, left, kept, hextr, hlay, hmem, -, hsack, -⟩ := hlst.layout.extract maxSize
  have hlowest : lowest missing ranges ≤ lowest missing kept := by
    refine le_lowest (lowest_le _ _) fun range hrng => ?_
    obtain ⟨before, hpre, hlo, -⟩ := hmem range hrng
    exact (hlst.layout.of_mem hpre).1.trans hlo
  have hle := lowest_le missing kept
  have hnear := hlst.layout.near
  refine ⟨_, hextr, kept, of_near hlay (hsack.trans hlst.list)
    (fun _ => hlst.inSpan) hlowest (by omega) hlst.atMostFour, ?_⟩
  rintro pos ⟨range, hrng, hlo, hhi⟩
  obtain ⟨before, hpre, hfrom, hto⟩ := hmem range hrng
  exact ⟨before, hpre, hfrom.trans hlo, by omega⟩

/-- `Add` in a legible run returns, and the list is true; it says nothing twice when the segment
swallows nothing, and knows all when it did. -/
theorem add (hwithin : buf.Within packet seq (buf.windowStart + (2 ^ 31 - 1))) :
    ∃ result,
      buf.add packet seq = .ok result ∧ buf.Truthful result.2 ∧
        ∃ next later listedAfter,
          Listing isn result.2 next later listedAfter ∧
            (¬ buf.Swallows packet seq → listed.Pairwise Interval.Disjoint →
              listedAfter.Pairwise Interval.Disjoint ∧ buf.Tidy result.2 ∧
                (Complete missing ranges listed → buf.Merged result.2)) ∧
            (¬ buf.DropsFifth result.2 → Complete missing ranges listed →
              Complete next later listedAfter) := by
  have hlim : buf.windowStart + (2 ^ 31 - 1) < buf.windowStart + 2 ^ 31 := by omega
  rcases hlst.layout.add hwithin hlim with hadd | ⟨kept, new, after, next, hadd, htaken⟩
  · have hnone : ∀ block, ¬ buf.StoredOutOfOrder buf block :=
      fun block hstored => hstored.2.1 hstored.1
    refine ⟨_, hadd, hlst.truthful_self, missing, ranges, listed, hlst,
      fun _ hdisj => ⟨hdisj, ⟨hlst.apart hdisj, ?_⟩, fun _ => ?_⟩, fun _ => id⟩
    · exact fun block hstored => absurd hstored (hnone block)
    · exact fun block hstored => absurd hstored (hnone block)
  · obtain ⟨listedAfter, hafter, hfront, hinOrder⟩ := hlst.taken hlim htaken
    refine ⟨_, hadd, hlst.truthful_taken hlim htaken hafter hfront, next, _, listedAfter,
      hafter, fun hgentle hdisj => ?_, fun hkept hfull =>
        hlst.complete_taken hlim htaken hfront hinOrder hfull hkept⟩
    have hall := (hlst.disjoint_new htaken hgentle hdisj).2
    have hdisjointAfter := disjoint_taken htaken hfront (fun hsame => (hinOrder hsame).1) hall
    exact ⟨hdisjointAfter, hlst.tidy_taken hlim htaken hafter hfront hall hdisjointAfter,
      fun hfull => hlst.merged_taken hlim htaken hafter hfront hall hfull⟩

end

theorem step {state after : RxState} (hlst : Listing isn state.buffer missing ranges listed)
    {input : RxInput} (hinp : Legible state input)
    (hstep : (rxMachine isn).step state input = .ok after) :
    ∃ next later listedAfter,
      Listing isn after.buffer next later listedAfter ∧
        (Gentle state input → listed.Pairwise Interval.Disjoint →
          listedAfter.Pairwise Interval.Disjoint) ∧
        (Remembering state input → Complete missing ranges listed →
          Complete next later listedAfter) := by
  cases input with
  | add packet seq =>
    obtain ⟨result, hadd, -, next, later, listedAfter, hafter, htidy, hfull⟩ := hlst.add hinp
    simp only [rxMachine, hadd, ok_bind, pure_eq_ok] at hstep
    cases hstep
    refine ⟨next, later, listedAfter, hafter,
      fun hgentle hdisj => (htidy hgentle.2 hdisj).1, fun hremembering => ?_⟩
    exact hfull (hremembering.2 result (by rw [hadd]; rfl))
  | setFinSequence s =>
    cases hstep
    obtain ⟨next, hle, hafter⟩ := hlst.setFinSequence hinp
    exact ⟨next, ranges, listed, hafter, fun _ => id, fun _ hfull pos hbeyond hcov =>
      hfull pos (hle.trans_lt hbeyond) hcov⟩
  | extract maxSize =>
    obtain ⟨result, hextr, kept, hafter, hcov⟩ := hlst.extract maxSize
    simp only [rxMachine, hextr, ok_bind, pure_eq_ok] at hstep
    cases hstep
    exact ⟨missing, kept, listed, hafter, fun _ => id, fun _ hfull pos hbeyond hkept =>
      hfull pos hbeyond (hcov pos hkept)⟩
  | setMaxBufferSize s =>
    cases hstep
    exact ⟨missing, ranges, listed, ⟨hlst.layout.setMaxBufferSize s, hlst.list,
      hlst.stored, hlst.atMostFour⟩, fun _ => id, fun _ => id⟩

variable {state : RxState}

theorem of_legible (hst : (rxMachine isn).ReachableUnder Legible state) :
    ∃ missing ranges listed, Listing isn state.buffer missing ranges listed := by
  induction hst with
  | init => exact ⟨2 ^ 32, [], [], init isn⟩
  | step _ hinp hstep ih =>
    obtain ⟨missing, ranges, listed, hlst⟩ := ih
    obtain ⟨next, later, listedAfter, hafter, -⟩ := hlst.step hinp hstep
    exact ⟨next, later, listedAfter, hafter⟩

theorem of_gentle (hst : (rxMachine isn).ReachableUnder Gentle state) :
    ∃ missing ranges listed,
      Listing isn state.buffer missing ranges listed ∧ listed.Pairwise Interval.Disjoint := by
  induction hst with
  | init => exact ⟨2 ^ 32, [], [], init isn, List.Pairwise.nil⟩
  | step _ hinp hstep ih =>
    obtain ⟨missing, ranges, listed, hlst, hdisj⟩ := ih
    obtain ⟨next, later, listedAfter, hafter, hgentle, -⟩ := hlst.step hinp.1 hstep
    exact ⟨next, later, listedAfter, hafter, hgentle hinp hdisj⟩

theorem of_remembering (hst : (rxMachine isn).ReachableUnder Remembering state) :
    ∃ missing ranges listed, Listing isn state.buffer missing ranges listed ∧
    listed.Pairwise Interval.Disjoint ∧ Complete missing ranges listed := by
  induction hst with
  | init => exact ⟨2 ^ 32, [], [], init isn, List.Pairwise.nil, fun _ _ hcov => hcov⟩
  | step _ hinp hstep ih =>
    obtain ⟨missing, ranges, listed, hlst, hdisj, hfull⟩ := ih
    obtain ⟨next, later, listedAfter, hafter, hgentle, hremembering⟩ :=
      hlst.step hinp.1.1 hstep
    exact ⟨next, later, listedAfter, hafter, hgentle hinp.1 hdisj, hremembering hinp hfull⟩

end Listing

/-- After each `Add` of a segment whose numbers the code tells apart, the list is true. While no
segment has swallowed a stored block, it says nothing twice and its first block is merged with what
was listed next to it; while no block was dropped either, with what is buffered next to it. -/
theorem sack_truthful (isn : SequenceNumber32) (packet : List UInt8) (seq : SequenceNumber32) :
    (∀ state, (rxMachine isn).ReachableUnder Legible state → Legible state (.add packet seq) →
    ∃ result, state.buffer.add packet seq = .ok result ∧ state.buffer.Truthful result.2) ∧
    (∀ state, (rxMachine isn).ReachableUnder Gentle state → Gentle state (.add packet seq) →
    ∀ result, state.buffer.add packet seq = .ok result → state.buffer.Tidy result.2) ∧
    (∀ state, (rxMachine isn).ReachableUnder Remembering state → Gentle state (.add packet seq) →
    ∀ result, state.buffer.add packet seq = .ok result → state.buffer.Merged result.2) := by
  refine ⟨fun state hst hinp => ?_, fun state hst hinp result hres => ?_,
    fun state hst hinp result hres => ?_⟩
  · obtain ⟨missing, ranges, listed, hlst⟩ := Listing.of_legible hst
    obtain ⟨result, hadd, htruthful, -⟩ := hlst.add hinp
    exact ⟨result, hadd, htruthful⟩
  · obtain ⟨missing, ranges, listed, hlst, hdisjoint⟩ := Listing.of_gentle hst
    obtain ⟨served, hadd, -, next, later, listedAfter, -, htidy, -⟩ := hlst.add hinp.1
    obtain rfl := Except.ok.inj (hadd.symm.trans hres)
    exact (htidy hinp.2 hdisjoint).2.1
  · obtain ⟨missing, ranges, listed, hlst, hdisjoint, hcomplete⟩ :=
      Listing.of_remembering hst
    obtain ⟨served, hadd, -, next, later, listedAfter, -, htidy, -⟩ := hlst.add hinp.1
    obtain rfl := Except.ok.inj (hadd.symm.trans hres)
    exact (htidy hinp.2 hdisjoint).2.2 hcomplete

theorem sack_truthful_between :
    let isn : SequenceNumber32 := .of (2 ^ 32 - 4)
    let state := (rxMachine isn).after (fun state input => decide (Remembering state input))
      [.add [1] isn, .add [4] (isn.byte 3), .add [6] (isn.byte 5)] (rxMachine isn).init
    ∃ result, state.buffer.add [5] (isn.byte 4) = .ok result ∧
      result.2.sackList = [⟨isn.byte 3, isn.byte 6⟩] ∧ state.buffer.Truthful result.2 ∧
        state.buffer.Tidy result.2 ∧ state.buffer.Merged result.2 := by
  intro isn state
  have hst : (rxMachine isn).ReachableUnder Remembering state :=
    Machine.ReachableUnder.after (fun _ _ => of_decide_eq_true) _ .init
  have hgentle : Gentle state (.add [5] (isn.byte 4)) := by decide +kernel
  have hlist : ∀ result ∈ (state.buffer.add [5] (isn.byte 4)).toOption,
      result.2.sackList = [⟨isn.byte 3, isn.byte 6⟩] := by decide +kernel
  obtain ⟨htruthful, htidy, hmerged⟩ := sack_truthful isn [5] (isn.byte 4)
  obtain ⟨result, hadd, htrue⟩ :=
    htruthful state (hst.mono fun _ _ hinp => hinp.1.1) hgentle.1
  exact ⟨result, hadd, hlist result (by rw [hadd]; rfl), htrue,
    htidy state (hst.mono fun _ _ hinp => hinp.1) hgentle result hadd,
    hmerged state hst hgentle result hadd⟩

/-- A segment around a stored block stays listed with it, one block inside the other. -/
theorem swallowed_block_listed :
    ¬ ∀ (isn : SequenceNumber32) (state : RxState),
      (rxMachine isn).ReachableUnder Legible state →
        ∀ packet seq,
          Legible state (.add packet seq) →
            ∀ result,
              state.buffer.add packet seq = .ok result →
                result.2.sackList.Pairwise SackBlock.Apart := by
  intro hall
  let isn : SequenceNumber32 := .of 0
  let state := (rxMachine isn).after (fun state input => decide (Legible state input))
    [.add [10, 11] (.of 10)] (rxMachine isn).init
  have hst : (rxMachine isn).ReachableUnder Legible state :=
    Machine.ReachableUnder.after (fun _ _ => of_decide_eq_true) _ .init
  let packet : List UInt8 := [8, 9, 10, 11, 12, 13, 14, 15, 16, 17, 18, 19]
  have hlegible : Legible state (.add packet (.of 8)) := by decide +kernel
  have hsome : (state.buffer.add packet (.of 8)).toOption.isSome = true := by decide +kernel
  have hlists : ∀ result ∈ (state.buffer.add packet (.of 8)).toOption,
      result.2.sackList = [⟨.of 8, .of 20⟩, ⟨.of 10, .of 12⟩] := by decide +kernel
  cases hadd : state.buffer.add packet (.of 8) with
  | error fault =>
    rw [hadd] at hsome
    cases hsome
  | ok result =>
    have hapart := hall isn state hst packet (.of 8) hlegible result hadd
    rw [hlists result (by rw [hadd]; rfl), List.pairwise_pair] at hapart
    exact hapart (.of 10) ⟨⟨2, by decide, by decide⟩, 0, by decide, by decide⟩

end HomaSird.Tcp
