import HomaSird.Tcp.RxStore

/-! # A receive buffer and the stream it receives

The inputs a receive buffer is offered, what its state holds of the stream, and the
operations that need no more than that: a read, the FIN and the limit.
-/

namespace HomaSird.Tcp

open Transition

/-- A receive buffer and what `Extract` has returned so far. -/
structure RxState where
  buffer : RxBuffer
  delivered : List UInt8
deriving DecidableEq

inductive RxInput where
  | add (packet : List UInt8) (seq : SequenceNumber32)
  | setFinSequence (s : SequenceNumber32)
  | extract (maxSize : Nat)
  | setMaxBufferSize (s : Nat)
deriving DecidableEq

def rxMachine (isn : SequenceNumber32) : Machine RxState RxInput Fault where
  init := ⟨.create isn, []⟩
  step state input :=
    match input with
    | .add packet seq => do
      let result ← state.buffer.add packet seq
      return { state with buffer := result.2 }
    | .setFinSequence s => .ok { state with buffer := state.buffer.setFinSequence s }
    | .extract maxSize => do
      let result ← state.buffer.extract maxSize
      return ⟨result.2, state.delivered ++ result.1⟩
    | .setMaxBufferSize s => .ok { state with buffer := state.buffer.setMaxBufferSize s }

def finEdge (stream : List UInt8) (pos : Nat) : Nat :=
  if pos = stream.length then pos + 1 else pos

namespace RxState

def unread (state : RxState) : Nat := state.delivered.length

def missing (state : RxState) : Nat := state.unread + state.buffer.availBytes

def expected (stream : List UInt8) (state : RxState) : Nat :=
  if state.buffer.gotFin then finEdge stream state.missing else state.missing

end RxState

/-! ## Inputs -/

/-- A segment with the bytes from `first` up to `last`, less than half the sequence space from the
next expected byte. -/
structure CutFrom (stream : List UInt8) (isn : SequenceNumber32) (state : RxState)
    (packet : List UInt8) (seq : SequenceNumber32) (first last : Nat) : Prop where
  order : first ≤ last
  within : last ≤ stream.length
  packet_eq : packet = slice stream first last
  seq_eq : seq = isn.byte first
  first_near : Near first (state.expected stream)
  last_near : Near last (state.expected stream)

def Offered (stream : List UInt8) (isn : SequenceNumber32) (state : RxState) : RxInput → Prop
  | .add packet seq => ∃ first last, CutFrom stream isn state packet seq first last
  | .setFinSequence s => s = isn.byte stream.length
  | .extract _ => True
  | .setMaxBufferSize _ => True

/-- The comparisons of `Add` are between numbers less than half the space apart, or harmless. -/
structure Comparable (stream : List UInt8) (state : RxState) (packet : List UInt8)
    (seq : SequenceNumber32) (first last : Nat) : Prop where
  /-- a segment without new bytes is not taken for one that crosses the window's edge -/
  stale : last ≤ state.expected stream → ∀ block ∈ state.buffer.data.head?,
    (block.1 + .of state.buffer.maxBuffer).lt (seq + .of packet.length) = true →
      (block.1 + .of state.buffer.maxBuffer).lt state.buffer.nextRxSeq = true
  /-- a segment with new bytes ends within half the sequence space of the first
  unread byte, or is clipped at the window's edge -/
  ahead : state.expected stream < last → first = last ∨
    finEdge stream last < state.unread + 2 ^ 31 ∨
    0 < state.buffer.availBytes ∧ state.buffer.maxBuffer < 2 ^ 31 ∧
      state.unread + state.buffer.maxBuffer < last ∧
      last < state.unread + state.buffer.maxBuffer + 2 ^ 31

def Handled (stream : List UInt8) (isn : SequenceNumber32) (state : RxState) : RxInput → Prop
  | .add packet seq => ∃ first last, CutFrom stream isn state packet seq first last ∧
      Comparable stream state packet seq first last
  | .setFinSequence s => s = isn.byte stream.length ∧ stream.length < state.missing + 2 ^ 32
  | .extract _ => True
  | .setMaxBufferSize _ => True

section Decidable

variable {stream : List UInt8} {isn : SequenceNumber32} {state : RxState} {packet : List UInt8}
  {seq : SequenceNumber32} {first last : Nat}

instance : Decidable (Near first last) := inferInstanceAs (Decidable (_ ∧ _))

instance : Decidable (CutFrom stream isn state packet seq first last) :=
  decidable_of_iff (first ≤ last ∧ last ≤ stream.length ∧ packet = slice stream first last ∧
      seq = isn.byte first ∧ Near first (state.expected stream) ∧
      Near last (state.expected stream))
    ⟨fun ⟨horder, hwithin, hpkt, hseq, hfst, hlast⟩ =>
        ⟨horder, hwithin, hpkt, hseq, hfst, hlast⟩,
      fun ⟨horder, hwithin, hpkt, hseq, hfst, hlast⟩ =>
        ⟨horder, hwithin, hpkt, hseq, hfst, hlast⟩⟩

instance : Decidable (Comparable stream state packet seq first last) :=
  decidable_of_iff (_ ∧ _) ⟨fun ⟨hstale, hahead⟩ => ⟨hstale, hahead⟩,
    fun ⟨hstale, hahead⟩ => ⟨hstale, hahead⟩⟩

instance : DecidablePred (Handled stream isn state)
  | .add packet seq =>
    decidable_of_iff (∃ last ≤ stream.length, ∃ first ≤ last,
        CutFrom stream isn state packet seq first last ∧
          Comparable stream state packet seq first last)
      ⟨fun ⟨last, _, first, _, hboth⟩ => ⟨first, last, hboth⟩,
        fun ⟨first, last, hcut, hcomp⟩ =>
          ⟨last, hcut.within, first, hcut.order, hcut, hcomp⟩⟩
  | .setFinSequence _ => inferInstanceAs (Decidable (_ ∧ _))
  | .extract _ => inferInstanceAs (Decidable True)
  | .setMaxBufferSize _ => inferInstanceAs (Decidable True)

end Decidable

/-! ## The invariant -/

/-- What a state holds of the stream, the stored blocks being those of `ranges`. -/
structure Holds (stream : List UInt8) (isn : SequenceNumber32) (state : RxState)
    (ranges : List Interval) : Prop where
  delivered : state.delivered = stream.take state.unread
  data : state.buffer.data = ranges.map (blockOf stream isn)
  separated : Interval.Separated state.unread ranges
  within : ∀ range ∈ ranges, range.hi ≤ stream.length ∧
    finEdge stream range.hi < state.unread + 2 ^ 31
  size : state.buffer.size = Interval.total ranges
  available : ∀ pos, state.unread ≤ pos → pos < state.missing →
    Interval.Covers ranges pos
  gap : ¬ Interval.Covers ranges state.missing
  next : state.buffer.nextRxSeq = isn.byte (state.expected stream)
  fin : state.buffer.gotFin = true → state.buffer.finSeq = isn.byte stream.length ∧
    stream.length < state.missing + 2 ^ 32
  sack : ∀ block ∈ state.buffer.sackList, Reported isn ranges state.missing block

namespace Holds

variable {stream : List UInt8} {isn : SequenceNumber32} {state : RxState}
  {ranges : List Interval}

theorem le_finEdge (stream : List UInt8) (pos : Nat) :
    pos ≤ finEdge stream pos ∧ finEdge stream pos ≤ pos + 1 := by
  unfold finEdge
  split <;> omega

theorem inWindow (hst : Holds stream isn state ranges) :
    InWindow stream state.unread ranges where
  separated := hst.separated
  within range hrng := by
    have hedge := (le_finEdge stream range.hi).1
    have hbounds := hst.within range hrng
    omega

theorem unread_le (hst : Holds stream isn state ranges) : state.unread ≤ stream.length := by
  have hlen : state.unread = (stream.take state.unread).length :=
    congrArg List.length hst.delivered
  rw [List.length_take] at hlen
  omega

theorem missing_le (hst : Holds stream isn state ranges) :
    state.missing ≤ stream.length ∧ finEdge stream state.missing < state.unread + 2 ^ 31 := by
  have hunread := hst.unread_le
  have hedge := le_finEdge stream state.missing
  by_cases hnone : state.missing ≤ state.unread
  · have hsame : state.missing = state.unread := le_antisymm hnone (Nat.le_add_right _ _)
    omega
  · -- the last byte available lies in a stored block, which ends there
    obtain ⟨range, hrng, hlo, hhi⟩ := hst.available (state.missing - 1) (by omega) (by omega)
    have hend := Interval.hi_le_of_not_covers hst.gap hrng (by omega)
    have hsame : range.hi = state.missing := by omega
    have hbounds := hst.within range hrng
    rw [hsame] at hbounds
    exact hbounds

theorem expected_cases (stream : List UInt8) (state : RxState) :
    state.expected stream = state.missing ∨
      state.buffer.gotFin = true ∧ state.missing = stream.length ∧
        state.expected stream = stream.length + 1 := by
  unfold RxState.expected finEdge
  split
  next hfin =>
    split
    next hend => exact .inr ⟨hfin, hend, by rw [hend]⟩
    · exact .inl rfl
  · exact .inl rfl

theorem expected_bounds (hst : Holds stream isn state ranges) :
    state.missing ≤ state.expected stream ∧
    state.expected stream < state.unread + 2 ^ 31 ∧ state.expected stream ≤ stream.length + 1 := by
  obtain ⟨hle, hedge⟩ := hst.missing_le
  have hbounds := le_finEdge stream state.missing
  rcases expected_cases stream state with hsame | ⟨-, hend, hafter⟩
  · omega
  · have hfin : finEdge stream state.missing = stream.length + 1 := by
      rw [finEdge, if_pos hend, hend]
    omega

/-! ## The operations keep the invariant -/

theorem setMaxBufferSize (hst : Holds stream isn state ranges) (s : Nat) :
    Holds stream isn { state with buffer := state.buffer.setMaxBufferSize s } ranges :=
  { hst with }

theorem setFinSequence (hst : Holds stream isn state ranges)
    (hend : stream.length < state.missing + 2 ^ 32) :
    Holds stream isn { state with buffer := state.buffer.setFinSequence (isn.byte stream.length) }
      ranges where
  delivered := hst.delivered
  data := hst.data
  separated := hst.separated
  within := hst.within
  size := hst.size
  available := hst.available
  gap := hst.gap
  next := by
    have hle := hst.missing_le.1
    have hexp : RxState.expected stream
        { state with buffer := state.buffer.setFinSequence (isn.byte stream.length) } =
          finEdge stream state.missing := if_pos rfl
    rw [hexp]
    simp only [RxBuffer.setFinSequence, hst.next]
    rcases expected_cases stream state with hsame | ⟨-, hreach, hafter⟩
    · simp only [hsame, @SequenceNumber.byte_inj_of_lt isn _ _ (by omega) hend, finEdge]
      split
      · exact SequenceNumber.byte_succ _ _
      · rfl
    · -- the FIN was reached before
      have hdist : ¬ isn.byte (stream.length + 1) = isn.byte stream.length := by
        rw [SequenceNumber.byte_inj_of_lt (by omega) (by omega)]
        omega
      rw [hafter, if_neg hdist, finEdge, if_pos hreach, hreach]
  fin _ := ⟨rfl, hend⟩
  sack := hst.sack

theorem extract (hst : Holds stream isn state ranges) (maxSize : Nat) :
    ∃ result,
      state.buffer.extract maxSize = .ok result ∧
        ∃ left, Holds stream isn ⟨result.2, state.delivered ++ result.1⟩ left := by
  have hbounds := hst.expected_bounds
  have hmiss := hst.missing_le
  have hwin := hst.inWindow
  have hcnt : min maxSize state.buffer.availBytes ≤ state.buffer.availBytes := min_le_right _ _
  generalize hextr : min maxSize state.buffer.availBytes = count at hcnt
  have hreach : state.unread + count ≤ state.missing := Nat.add_le_add_left hcnt _
  -- all that is available is covered, so whole blocks and one front are handed over
  have hfull : ∀ pos, state.unread ≤ pos → pos < state.unread + count →
      Interval.Covers ranges pos :=
    fun pos hge hlt => hst.available pos hge (by omega)
  obtain ⟨hsep, htotal, hcov⟩ := Interval.consume_spec hst.separated hfull
  by_cases hzero : count = 0
  · refine ⟨([], state.buffer), by rw [RxBuffer.extract, hextr]; exact if_pos hzero, ranges, ?_⟩
    simpa using hst
  · have hne : state.buffer.data.isEmpty = false := by
      obtain ⟨range, hrng, -⟩ := hfull state.unread le_rfl (by omega)
      rw [hst.data]
      cases ranges with
      | nil => simp at hrng
      | cons => rfl
    have hsz := hst.size
    have htotalBound := hwin.total_le
    have havail : state.missing = state.unread + state.buffer.availBytes := rfl
    have hmoved : (state.delivered ++
        slice stream state.unread (state.unread + count)).length = state.unread + count :=
      calc
        _ = state.unread + (slice stream state.unread (state.unread + count)).length :=
          List.length_append
        _ = state.unread + count := by rw [slice_length (by omega), Nat.add_sub_cancel_left]
    generalize hbuf : { state.buffer with
      data := (Interval.consume count ranges).map (blockOf stream isn)
      size := state.buffer.size - count
      availBytes := state.buffer.availBytes - count } = buf
    refine ⟨(slice stream state.unread (state.unread + count), buf), ?_,
      Interval.consume count ranges, ?_⟩
    -- the loop takes the blocks that `consume` takes off the ranges
    · have hloop := @extractLoop_eq stream isn state.unread ranges state.buffer state.unread count
        (state.expected stream) [] hwin.allNear hst.separated hfull hst.next
        hbounds.2.1 (by omega) (by omega) hcnt (by omega) (by omega)
      rw [← hst.data, hbuf] at hloop
      simp only [RxBuffer.extract, hextr, if_neg hzero, hne, Bool.not_false]
      exact hloop
    · obtain ⟨hdata, hsizeNew, havailNew, hnextNew, hgotFin, hfinSeq, hsack⟩ :
          buf.data = (Interval.consume count ranges).map (blockOf stream isn) ∧
            buf.size = state.buffer.size - count ∧
            buf.availBytes = state.buffer.availBytes - count ∧
            buf.nextRxSeq = state.buffer.nextRxSeq ∧
            buf.gotFin = state.buffer.gotFin ∧ buf.finSeq = state.buffer.finSeq ∧
            buf.sackList = state.buffer.sackList := by
        rw [← hbuf]
        exact ⟨rfl, rfl, rfl, rfl, rfl, rfl, rfl⟩
      generalize hout : slice stream state.unread (state.unread + count) = out at hmoved
      have hunread : RxState.unread ⟨buf, state.delivered ++ out⟩ = state.unread + count :=
        hmoved
      -- reading moves bytes from available to delivered: the first missing byte stays
      have hmiss : RxState.missing ⟨buf, state.delivered ++ out⟩ = state.missing := by
        simp only [RxState.missing, hunread, havailNew]
        omega
      have hexp : RxState.expected stream ⟨buf, state.delivered ++ out⟩ =
          state.expected stream := by
        simp only [RxState.expected, hmiss, hgotFin]
      refine ⟨?_, hdata, ?_, ?_, ?_, ?_, ?_, ?_, ?_, ?_⟩
      · rw [hunread, ← take_append_slice (Nat.le_add_right _ _), ← hst.delivered, hout]
      · rw [hunread]
        exact hsep
      · intro range hrng
        obtain ⟨before, hpre, hend⟩ := Interval.hi_of_mem_consume hrng
        have hbounds := hst.within before hpre
        rw [hunread, ← hend]
        omega
      · simp only [hsizeNew]
        omega
      · intro pos hge hlt
        rw [hunread] at hge
        rw [hmiss] at hlt
        exact (hcov pos).mpr ⟨hst.available pos (by omega) hlt, hge⟩
      · rw [hmiss, hcov]
        exact fun hgap => hst.gap hgap.1
      · rw [hexp]
        exact hnextNew.trans hst.next
      · simp only [hmiss, hgotFin, hfinSeq]
        exact hst.fin
      · simp only [hmiss, hsack]
        intro block hblock
        obtain ⟨range, heq, hnext, hsome, hstored⟩ := hst.sack block hblock
        refine ⟨range, heq, hnext, hsome, fun pos hin => ?_⟩
        exact (hcov pos).mpr ⟨hstored pos hin, by have := hin.1; omega⟩

end Holds

end HomaSird.Tcp
