import HomaSird.Tcp.RxLayout
import HomaSird.Tcp.RxState

/-! # The limit of the receive buffer

`MaxRxSequence` says which number the buffer cannot accept any more. `Add` cuts a segment only
when something is stored, at the limit's distance from the first stored block, and never at the
FIN; the limit is kept in the runs in which that is enough.
-/

namespace HomaSird.Tcp

open Transition HomaSird.Interval SequenceNumber

namespace RxBuffer

def New (buf : RxBuffer) (number : SequenceNumber32) : Prop :=
  number.lt buf.nextRxSeq = false ∧ ¬ buf.Buffers number ∧
    number.lt buf.maxRxSequence = true

/-- What `Add` leaves lies below the limit announced before, and it tells whether the segment
contributed. -/
structure Respects (buf : RxBuffer) (packet : List UInt8) (seq : SequenceNumber32)
    (result : Bool × RxBuffer) : Prop where
  belowMax : ∀ number, result.2.Buffers number → number.lt buf.maxRxSequence = true
  belowFin : buf.gotFin = true →
    ∀ number, result.2.Buffers number → number.lt buf.finSeq = true
  total : (result.2.data.map fun block => block.2.length).sum ≤ buf.maxBuffer
  nothing : (∀ index < packet.length, ¬ buf.New (seq + .of index)) → result.1 = false
  unchanged : result.1 = false → result.2 = buf

/-- A limit below half the sequence space that leaves room for what is stored. -/
def RoomFor (buf : RxBuffer) (s : Nat) : Prop :=
  s < 2 ^ 31 ∧ ∀ block ∈ buf.data,
    buf.offset block.1 + block.2.length ≤ buf.windowStart + s

end RxBuffer

/-- Segments that end in the window and at the FIN or before, or are cut there; limits and ends of
the data not in front of what is stored. -/
def Limited (state : RxState) : RxInput → Prop
  | .add packet seq => state.buffer.Within packet seq state.buffer.windowEdge
  | .setFinSequence s => state.buffer.EndsAt s
  | .extract _ => True
  | .setMaxBufferSize s => state.buffer.RoomFor s

instance (state : RxState) : DecidablePred (Limited state)
  | .add packet seq =>
    inferInstanceAs (Decidable (state.buffer.Within packet seq state.buffer.windowEdge))
  | .setFinSequence s => inferInstanceAs (Decidable (state.buffer.EndsAt s))
  | .extract _ => inferInstanceAs (Decidable True)
  | .setMaxBufferSize _ => inferInstanceAs (Decidable (_ ∧ _))

structure Confined (isn : SequenceNumber32) (buf : RxBuffer) (missing : Nat)
    (ranges : List Interval) : Prop where
  layout : Layout isn buf missing ranges
  small : buf.maxBuffer < 2 ^ 31
  inside : ∀ range ∈ ranges, range.hi ≤ Interval.lowest missing ranges + buf.maxBuffer

namespace Confined

variable {isn : SequenceNumber32} {buf after : RxBuffer} {missing next : Nat}
  {ranges later : List Interval} {packet : List UInt8} {seq number : SequenceNumber32}

section

variable (hconfined : Confined isn buf missing ranges)
include hconfined

theorem windowEdge_eq :
    buf.windowEdge = (lowest missing ranges : Int) - missing + buf.maxBuffer := by
  rw [RxBuffer.windowEdge, hconfined.layout.windowStart_eq]

theorem maxRxSequence_eq (hgotFin : buf.gotFin = false) :
    buf.maxRxSequence = isn.byte (lowest missing ranges + buf.maxBuffer) := by
  have hlay := hconfined.layout
  rw [RxBuffer.maxRxSequence, hgotFin, if_neg Bool.false_ne_true]
  rcases hlay.head_cases with
    ⟨rfl, hdata⟩ | ⟨range, rest, block, others, rfl, hdata, hfst, -⟩
  · simp only [hdata, hlay.next]
    exact byte_add _ _ _
  · have hnear := (hlay.near_of_mem (List.mem_cons_self (a := range))).1
    simp only [hdata, hfst, hlay.next, gt_byte hnear.symm, decide_eq_true_eq]
    split
    next hbelow =>
      rw [lowest, min_eq_left hbelow.le]
      exact byte_add _ _ _
    next hbeyond =>
      rw [lowest, min_eq_right (not_lt.mp hbeyond)]
      exact byte_add _ _ _

theorem lt_maxRxSequence {pos : Nat} (hfrom : lowest missing ranges ≤ pos)
    (hin : pos < lowest missing ranges + buf.maxBuffer)
    (hfin : buf.gotFin = true → (isn.byte pos).lt buf.finSeq = true) :
    (isn.byte pos).lt buf.maxRxSequence = true := by
  have hsmall := hconfined.small
  cases hgotFin : buf.gotFin with
  | true =>
    rw [RxBuffer.maxRxSequence, hgotFin, if_pos rfl]
    exact hfin hgotFin
  | false =>
    rw [hconfined.maxRxSequence_eq hgotFin, lt_byte ⟨by omega, by omega⟩]
    exact decide_eq_true hin

end

theorem lt_finSeq (hlay : Layout isn after next later)
    (hgotFin : after.gotFin = true) {pos : Nat}
    (hcov : Interval.Covers later pos) : (isn.byte pos).lt after.finSeq = true := by
  obtain ⟨fin, hfin, -, hroom, hall⟩ := hlay.fin hgotFin
  have hbounds := hlay.of_covers hcov
  obtain ⟨range, hrng, -, hhi⟩ := hcov
  have hend := hall range hrng
  rw [hfin, lt_byte ⟨by omega, by omega⟩]
  exact decide_eq_true (by omega)

theorem sum_le (hconfined : Confined isn buf missing ranges) :
    (buf.data.map fun block => block.2.length).sum ≤ buf.maxBuffer := by
  obtain ⟨stream, hloc⟩ := hconfined.layout.located
  have htotal := total_le hloc.window.separated hconfined.inside
    (Nat.le_add_right _ _)
  have hsum : (buf.data.map fun block => block.2.length).sum = total ranges := by
    rw [hloc.data, List.map_map, total]
    congr 1
    exact List.map_congr_left fun range hrng =>
      blockOf_length (hloc.window.within range hrng).1
  omega

theorem add (hconfined : Confined isn buf missing ranges)
    (hwithin : buf.Within packet seq buf.windowEdge) :
    ∃ result,
      buf.add packet seq = .ok result ∧ buf.Respects packet seq result ∧
        ∃ next later, Confined isn result.2 next later := by
  have hlay := hconfined.layout
  have hsmall := hconfined.small
  have hstart := hlay.windowStart_eq
  have hedge := hconfined.windowEdge_eq
  rcases hlay.add hwithin (by omega) with
    hadd | ⟨kept, new, after, next, hadd, htaken⟩
  · refine ⟨_, hadd, ⟨fun number hnumber => ?_, fun hgotFin number hnumber => ?_,
      hconfined.sum_le, fun _ => rfl, fun _ => rfl⟩, missing, ranges, hconfined⟩
    · obtain ⟨pos, rfl, hcov⟩ := hlay.buffers_iff.mp hnumber
      obtain ⟨range, hrng, hlo, hhi⟩ := hcov
      have hend := hconfined.inside range hrng
      exact hconfined.lt_maxRxSequence ((hlay.of_mem hrng).1.trans hlo) (by omega)
        fun hgotFin => lt_finSeq hlay hgotFin ⟨range, hrng, hlo, hhi⟩
    · obtain ⟨pos, rfl, hcov⟩ := hlay.buffers_iff.mp hnumber
      exact lt_finSeq hlay hgotFin hcov
  · obtain ⟨hpart, hsub, -, hapart, hfresh, hlater, hnext, hblocks, -, hmax, hgotFin, hfinSeq⟩ :=
      htaken
    have hpre : lowest missing ranges ≤ missing := lowest_le _ _
    have hlim := hpart.limit
    have hmiss := hpart.missing_le
    have hin : ∀ range ∈ new.insert kept, lowest missing ranges ≤ range.lo ∧
        range.hi ≤ lowest missing ranges + buf.maxBuffer := by
      intro range hrng
      rcases mem_insert.mp hrng with rfl | hkept
      · omega
      · exact ⟨(hlay.of_mem (hsub.subset hkept)).1, hconfined.inside range (hsub.subset hkept)⟩
    have hfin : ∀ pos, Interval.Covers (new.insert kept) pos →
        buf.gotFin = true → (isn.byte pos).lt buf.finSeq = true := by
      intro pos hcov hgot
      rw [← hfinSeq]
      exact lt_finSeq hlater (hgotFin ▸ hgot) hcov
    have hbelow : ∀ pos, Interval.Covers (new.insert kept) pos →
        (isn.byte pos).lt buf.maxRxSequence = true := by
      intro pos hcov
      obtain ⟨range, hrng, hlo, hhi⟩ := id hcov
      have hbounds := hin range hrng
      exact hconfined.lt_maxRxSequence (by omega) (by omega) (hfin pos hcov)
    have hlowest : lowest missing ranges ≤ lowest next (new.insert kept) :=
      le_lowest (hpre.trans hnext) fun range hrng => (hin range hrng).1
    have hafter : Confined isn after next (new.insert kept) :=
      ⟨hlater, hmax ▸ hsmall, fun range hrng => by
        have hbounds := hin range hrng
        rw [hmax]
        omega⟩
    refine ⟨_, hadd, ⟨fun number hnumber => ?_, fun hgot number hnumber => ?_,
      hmax ▸ hafter.sum_le, fun hnone => ?_, fun hfalse => absurd hfalse (by simp)⟩,
      next, _, hafter⟩
    · obtain ⟨pos, rfl, hcov⟩ := hlater.buffers_iff.mp hnumber
      exact hbelow pos hcov
    · obtain ⟨pos, rfl, hcov⟩ := hlater.buffers_iff.mp hnumber
      exact hfin pos hcov hgot
    · -- the first byte of the part is new
      exfalso
      obtain ⟨start, rfl, hstartEq⟩ := hlay.exists_position seq
      have hfrom := hpart.start
      have hto := hpart.stop
      have hsome := hpart.some
      have hnear : Near new.lo missing := by
        have hwin := hlay.near
        exact ⟨by omega, by omega⟩
      have hsum : start + (new.lo - start) = new.lo := by omega
      refine hnone (new.lo - start) (by omega) ?_
      rw [add_of, byte_byte, hsum]
      refine ⟨?_, fun hbuffers => ?_, ?_⟩
      · rw [hlay.next, lt_byte hnear]
        exact decide_eq_false (by omega)
      · obtain ⟨pos, heq, hcov⟩ := hlay.buffers_iff.mp hbuffers
        have hbounds := hlay.of_covers hcov
        have hsame : new.lo = pos := (byte_inj_of_lt (by omega) (by omega)).mp heq
        exact hfresh (hsame ▸ hcov)
      · exact hbelow _ ⟨new, mem_insert.mpr (.inl rfl), le_rfl, hsome⟩

theorem init (isn : SequenceNumber32) : Confined isn (.create isn) (2 ^ 32) [] :=
  ⟨.init isn, by simp [RxBuffer.create], by simp⟩

section

variable (hconfined : Confined isn buf missing ranges)
include hconfined

theorem setMaxBufferSize {s : Nat}
    (hroom : buf.RoomFor s) : Confined isn (buf.setMaxBufferSize s) missing ranges := by
  have hlay := hconfined.layout
  refine ⟨hlay.setMaxBufferSize s, hroom.1, fun range hrng => ?_⟩
  obtain ⟨stream, hloc⟩ := hlay.located
  have hend := hroom.2 (blockOf stream isn range) (by
    rw [hloc.data]
    exact List.mem_map_of_mem hrng)
  have hoff : buf.offset (blockOf stream isn range).1 = (range.lo : Int) - missing :=
    hlay.offset_byte (hlay.near_of_mem hrng).1
  rw [hoff, blockOf_length (hloc.window.within range hrng).1, length,
    hlay.windowStart_eq] at hend
  simp only [RxBuffer.setMaxBufferSize]
  omega

theorem setFinSequence {s : SequenceNumber32}
    (hends : buf.EndsAt s) : ∃ next, Confined isn (buf.setFinSequence s) next ranges := by
  obtain ⟨next, hnext, -, hlay⟩ := hconfined.layout.setFinSequence hends
  refine ⟨next, hlay, hconfined.small, fun range hrng => ?_⟩
  have hlowest := hconfined.layout.separated.le_lowest
    ((lowest_le missing ranges).trans hnext)
  have hend := hconfined.inside range hrng
  simp only [RxBuffer.setFinSequence]
  omega

theorem extract (maxSize : Nat) :
    ∃ result, buf.extract maxSize = .ok result ∧ ∃ later, Confined isn result.2 missing later := by
  obtain ⟨out, left, kept, hextr, hlay, hmem, -, -, hmax, -⟩ := hconfined.layout.extract maxSize
  have hlowest : lowest missing ranges ≤ lowest missing kept := by
    refine le_lowest (lowest_le _ _) fun range hrng => ?_
    obtain ⟨before, hpre, hlo, -⟩ := hmem range hrng
    exact (hconfined.layout.of_mem hpre).1.trans hlo
  refine ⟨_, hextr, kept, hlay, hmax ▸ hconfined.small, fun range hrng => ?_⟩
  obtain ⟨before, hpre, -, hend⟩ := hmem range hrng
  have hin := hconfined.inside before hpre
  rw [hmax]
  omega

end

theorem step {state next : RxState} (hconfined : Confined isn state.buffer missing ranges) {input :
    RxInput} (hinp : Limited state input) (hstep : (rxMachine isn).step state input = .ok next) :
    ∃ later kept, Confined isn next.buffer later kept := by
  cases input with
  | add packet seq =>
    obtain ⟨result, hadd, -, hlater⟩ := hconfined.add hinp
    simp only [rxMachine, hadd, ok_bind, pure_eq_ok] at hstep
    cases hstep
    exact hlater
  | setFinSequence s =>
    cases hstep
    obtain ⟨later, hlater⟩ := hconfined.setFinSequence hinp
    exact ⟨later, ranges, hlater⟩
  | extract maxSize =>
    obtain ⟨result, hextr, later, hlater⟩ := hconfined.extract maxSize
    simp only [rxMachine, hextr, ok_bind, pure_eq_ok] at hstep
    cases hstep
    exact ⟨missing, later, hlater⟩
  | setMaxBufferSize s =>
    cases hstep
    exact ⟨missing, ranges, hconfined.setMaxBufferSize hinp⟩

theorem of_reachable {state : RxState} (hst : (rxMachine isn).ReachableUnder Limited state) :
    ∃ missing ranges, Confined isn state.buffer missing ranges := by
  induction hst with
  | init => exact ⟨2 ^ 32, [], init isn⟩
  | step _ hinp hstep ih =>
    obtain ⟨missing, ranges, hconfined⟩ := ih
    exact hconfined.step hinp hstep

end Confined

/-- While segments end by the limit or are cut there, each `Add` returns and respects it. -/
theorem limit_respected {isn : SequenceNumber32} {state : RxState}
    (hst : (rxMachine isn).ReachableUnder Limited state) {packet : List UInt8}
    {seq : SequenceNumber32} (hinp : Limited state (.add packet seq)) :
    ∃ result,
      state.buffer.add packet seq = .ok result ∧ state.buffer.Respects packet seq result := by
  obtain ⟨missing, ranges, hconfined⟩ := Confined.of_reachable hst
  obtain ⟨result, hadd, hrespects, -⟩ := hconfined.add hinp
  exact ⟨result, hadd, hrespects⟩

theorem limit_respected_cut :
    let isn : SequenceNumber32 := .of (2 ^ 32 - 2)
    let state := (rxMachine isn).after (fun state input => decide (Limited state input))
      [.setMaxBufferSize 6, .add [1, 2, 3] isn, .add [5, 6] (isn.byte 4),
        .setFinSequence (isn.byte 6)] (rxMachine isn).init
    (state.buffer.size = 5 ∧ state.buffer.nextRxSeq = .of 1 ∧ state.buffer.gotFin = true) ∧
      ∃ result, state.buffer.add [4, 9, 9, 7, 8] (isn.byte 3) = .ok result ∧
        state.buffer.Respects [4, 9, 9, 7, 8] (isn.byte 3) result := by
  intro isn state
  have hst : (rxMachine isn).ReachableUnder Limited state :=
    Machine.ReachableUnder.after (fun _ _ => of_decide_eq_true) _ .init
  have hinp : Limited state (.add [4, 9, 9, 7, 8] (isn.byte 3)) := by decide +kernel
  exact ⟨by decide +kernel, limit_respected hst hinp⟩

/-- Five bytes for an empty buffer of four: nothing is stored, so nothing is cut. -/
theorem limit_exceeded :
    ¬ ∀ (isn : SequenceNumber32) (state : RxState),
      (rxMachine isn).Reachable state →
        ∀ packet seq result,
          state.buffer.add packet seq = .ok result → state.buffer.Respects packet seq result := by
  intro hall
  let isn : SequenceNumber32 := .of 0
  let state : RxState := ⟨(RxBuffer.create isn).setMaxBufferSize 4, []⟩
  have hstep : (rxMachine isn).step (rxMachine isn).init (.setMaxBufferSize 4) = .ok state := rfl
  have hst : (rxMachine isn).Reachable state := .step .init trivial hstep
  have hrespects := hall isn state hst [1, 2, 3, 4, 5] isn
    (true, { state.buffer with
      nextRxSeq := .of 5
      size := 5
      availBytes := 5
      data := [(isn, [1, 2, 3, 4, 5])] }) (by decide +kernel)
  exact absurd hrespects.total (by decide)

end HomaSird.Tcp
