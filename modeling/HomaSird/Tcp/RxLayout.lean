import HomaSird.Tcp.RxStore

/-! # Segments of any content

The receive buffer while the numbers of its blocks can be told apart. Nothing is asked of the
bytes: segments may disagree where they overlap. Numbers are located by their signed distance
from the next expected one, as the code's `operator-` computes it.
-/

namespace HomaSird.Tcp

open HomaSird.Interval RxBuffer SequenceNumber

namespace RxBuffer

def offset (buf : RxBuffer) (number : SequenceNumber32) : Int :=
  number.sub buf.nextRxSeq

/-- Where the window starts, if not at the next expected byte: at the first that was not extracted.
-/
def windowStart (buf : RxBuffer) : Int :=
  match buf.data with
  | block :: _ => min (buf.offset block.1) 0
  | [] => 0

def windowEdge (buf : RxBuffer) : Int := buf.windowStart + buf.maxBuffer

/-- Where `Add` cuts a segment, given the first stored block. -/
def cutAt (buf : RxBuffer) (block : SequenceNumber32 × List UInt8) : Int :=
  buf.offset block.1 + buf.maxBuffer

def Buffers (buf : RxBuffer) (number : SequenceNumber32) : Prop :=
  ∃ block ∈ buf.data, ∃ index < block.2.length, number = block.1 + .of index

/-- A segment ends at a limit or before, or is cut there or in front of its first byte. -/
def Beneath (buf : RxBuffer) (packet : List UInt8) (seq : SequenceNumber32) (limit : Int) :
    Prop :=
  buf.offset seq + packet.length ≤ limit ∨ ∃ block ∈ buf.data.head?,
    buf.offset seq + packet.length < buf.cutAt block + 2 ^ 31 ∧
      (buf.cutAt block ≤ limit ∨ buf.cutAt block ≤ buf.offset seq)

/-- The comparisons of `Add` come out by position, and what it does not cut away ends at the limit
or before, and at the FIN once that is known. -/
structure Within (buf : RxBuffer) (packet : List UInt8) (seq : SequenceNumber32)
    (limit : Int) : Prop where
  start : -2 ^ 31 < buf.offset seq
  edge : ∀ block ∈ buf.data.head?,
    buf.cutAt block < buf.offset seq + packet.length + 2 ^ 31
  stop : packet = [] ∨ buf.offset seq + packet.length ≤ 0 ∨
    buf.Beneath packet seq limit ∧
      (buf.gotFin = true → buf.Beneath packet seq (buf.offset buf.finSeq))

structure EndsAt (buf : RxBuffer) (s : SequenceNumber32) : Prop where
  ahead : -2 ^ 31 < buf.offset s
  near : buf.offset s + 1 < buf.windowStart + 2 ^ 31
  stored : ∀ block ∈ buf.data, buf.offset block.1 + block.2.length ≤ buf.offset s

section Decidable

variable {buf : RxBuffer} {packet : List UInt8} {seq s : SequenceNumber32} {limit : Int}

instance : Decidable (buf.Beneath packet seq limit) :=
  match h : buf.data.head? with
  | none => decidable_of_iff (buf.offset seq + packet.length ≤ limit)
      (by simp [Beneath, h])
  | some block => decidable_of_iff (buf.offset seq + packet.length ≤ limit ∨
      (buf.offset seq + packet.length < buf.cutAt block + 2 ^ 31 ∧
        (buf.cutAt block ≤ limit ∨ buf.cutAt block ≤ buf.offset seq)))
      (by simp [Beneath, h])

instance : Decidable (buf.Within packet seq limit) :=
  decidable_of_iff (_ ∧ _ ∧ _) ⟨fun ⟨hstart, hedge, hstop⟩ => ⟨hstart, hedge, hstop⟩,
    fun ⟨hstart, hedge, hstop⟩ => ⟨hstart, hedge, hstop⟩⟩

instance : Decidable (buf.EndsAt s) :=
  decidable_of_iff (_ ∧ _ ∧ _) ⟨fun ⟨hahead, hnear, hstored⟩ => ⟨hahead, hnear, hstored⟩,
    fun ⟨hahead, hnear, hstored⟩ => ⟨hahead, hnear, hstored⟩⟩

end Decidable

end RxBuffer

/-- What a buffer holds, at positions counted on from some number; the next expected byte is the
one at `missing`. -/
structure Layout (isn : SequenceNumber32) (buf : RxBuffer) (missing : Nat)
    (ranges : List Interval) : Prop where
  located : ∃ stream, Located stream isn (Interval.lowest missing ranges) buf missing ranges
  /-- every number is that of a position -/
  early : 2 ^ 31 ≤ missing
  available : buf.availBytes = Interval.totalBelow missing ranges
  fin : buf.gotFin = true → ∃ fin, buf.finSeq = isn.byte fin ∧ missing < fin + 2 ^ 31 ∧
    fin + 1 < Interval.lowest missing ranges + 2 ^ 31 ∧ ∀ range ∈ ranges, range.hi ≤ fin

namespace Layout

variable {isn : SequenceNumber32} {buf : RxBuffer} {missing : Nat} {ranges : List Interval}
  {packet : List UInt8} {seq : SequenceNumber32} {limit : Int}
  {block : SequenceNumber32 × List UInt8} {others : BlockMap}

section

variable (hlay : Layout isn buf missing ranges)
include hlay

theorem next : buf.nextRxSeq = isn.byte missing := by
  obtain ⟨stream, hloc⟩ := hlay.located
  exact hloc.next

theorem near : missing < lowest missing ranges + 2 ^ 31 := by
  obtain ⟨stream, hloc⟩ := hlay.located
  exact hloc.near

theorem gap : ¬ Interval.Covers ranges missing := by
  obtain ⟨stream, hloc⟩ := hlay.located
  exact hloc.gap

theorem of_mem {range : Interval} (hrng : range ∈ ranges) :
    lowest missing ranges ≤ range.lo ∧ range.lo < range.hi ∧
      range.hi < lowest missing ranges + 2 ^ 31 := by
  obtain ⟨stream, hloc⟩ := hlay.located
  have hbounds := hloc.window.of_mem hrng
  omega

theorem separated : Interval.Separated (lowest missing ranges) ranges := by
  obtain ⟨stream, hloc⟩ := hlay.located
  exact hloc.window.separated

end

/-! ## Distances are differences of positions -/

theorem offset_byte (hlay : Layout isn buf missing ranges) {pos : Nat} (hnear :
    Near pos missing) : buf.offset (isn.byte pos) = (pos : Int) - missing := by
  rw [offset, hlay.next, sub_byte hnear]

theorem exists_position (hlay : Layout isn buf missing ranges) (number : SequenceNumber32) :
    ∃ pos : Nat, number = isn.byte pos ∧ (pos : Int) = missing + buf.offset number := by
  rw [offset, hlay.next]
  exact exists_byte_sub isn number hlay.early

theorem offset_bounds (buf : RxBuffer)
    (number : SequenceNumber32) : -2 ^ 31 ≤ buf.offset number ∧ buf.offset number < 2 ^ 31 :=
  sub_bounds _ _

section

variable (hlay : Layout isn buf missing ranges)
include hlay

theorem near_of_mem {range : Interval}
    (hrng : range ∈ ranges) : Near range.lo missing ∧ Near range.hi missing := by
  have hbounds := hlay.of_mem hrng
  have hnear := hlay.near
  have hle := lowest_le missing ranges
  exact ⟨⟨by omega, by omega⟩, ⟨by omega, by omega⟩⟩

theorem windowStart_eq : buf.windowStart = (lowest missing ranges : Int) - missing := by
  obtain ⟨stream, hloc⟩ := hlay.located
  rw [windowStart, hloc.data]
  cases hrngs : ranges with
  | nil => simp [lowest]
  | cons range rest =>
    have hoff : buf.offset (blockOf stream isn range).1 = (range.lo : Int) - missing :=
      hlay.offset_byte (hlay.near_of_mem (hrngs ▸ List.mem_cons_self)).1
    simp only [List.map_cons, hoff, lowest]
    omega

theorem buffers_iff {number : SequenceNumber32} :
    buf.Buffers number ↔ ∃ pos, number = isn.byte pos ∧ Interval.Covers ranges pos := by
  obtain ⟨stream, hloc⟩ := hlay.located
  rw [RxBuffer.Buffers, hloc.data]
  constructor
  · rintro ⟨block, hblock, index, hidx, rfl⟩
    obtain ⟨range, hrng, rfl⟩ := List.mem_map.mp hblock
    rw [blockOf_length (hloc.window.within range hrng).1, length] at hidx
    exact ⟨range.lo + index, byte_add _ _ _, range, hrng, Nat.le_add_right _ _, by omega⟩
  · rintro ⟨pos, rfl, range, hrng, hlo, hhi⟩
    refine ⟨blockOf stream isn range, List.mem_map_of_mem hrng, pos - range.lo, ?_, ?_⟩
    · rw [blockOf_length (hloc.window.within range hrng).1, length]
      omega
    · have hsum : range.lo + (pos - range.lo) = pos := by omega
      exact (hsum ▸ byte_add isn range.lo (pos - range.lo)).symm

theorem of_covers {pos : Nat} (hcov : Interval.Covers ranges pos) :
    lowest missing ranges ≤ pos ∧ pos + 1 < lowest missing ranges + 2 ^ 31 := by
  obtain ⟨range, hrng, hlo, hhi⟩ := hcov
  have hbounds := hlay.of_mem hrng
  omega

theorem head_cases :
    ranges = [] ∧ buf.data = [] ∨
      ∃ range rest block others,
        ranges = range :: rest ∧ buf.data = block :: others ∧ block.1 = isn.byte range.lo ∧
          buf.cutAt block = (range.lo : Int) - missing + buf.maxBuffer := by
  obtain ⟨stream, hloc⟩ := hlay.located
  rw [hloc.data]
  cases hrngs : ranges with
  | nil => exact .inl ⟨rfl, rfl⟩
  | cons range rest =>
    have hoff : buf.offset (blockOf stream isn range).1 = (range.lo : Int) - missing :=
      hlay.offset_byte (hlay.near_of_mem (hrngs ▸ List.mem_cons_self)).1
    exact .inr ⟨range, rest, blockOf stream isn range, _, rfl, rfl, rfl, by
      rw [cutAt, hoff]⟩

end

/-! ## Adding a segment -/

/-- A part of a segment that `Add` does not cut away. -/
structure Cutout (buf : RxBuffer) (missing : Nat) (packet : List UInt8)
    (seq : SequenceNumber32) (limit : Int) (head tail : Nat) : Prop where
  missing_le : missing ≤ head
  start : (missing : Int) + buf.offset seq ≤ head
  some : head < tail
  stop : (tail : Int) ≤ missing + (buf.offset seq + packet.length)
  limit : (tail : Int) ≤ missing + limit
  fin : buf.gotFin = true → (tail : Int) ≤ missing + buf.offset buf.finSeq

theorem beneath_cases (hdata : buf.data = block :: others) {start stop cut : Nat} {bound : Int}
    (hstart : (start : Int) = missing + buf.offset (isn.byte start))
    (hstop : start + packet.length = stop) (hcut : buf.cutAt block = (cut : Int) - missing)
    (hbeneath : buf.Beneath packet (isn.byte start) bound) :
    (stop : Int) ≤ missing + bound ∨
      stop < cut + 2 ^ 31 ∧ ((cut : Int) ≤ missing + bound ∨ cut ≤ start) := by
  rcases hbeneath with hends | ⟨first, hmem, hstopNear, hcuts⟩
  · exact .inl (by omega)
  · simp only [hdata, List.head?_cons, Option.mem_def, Option.some.injEq] at hmem
    subst hmem
    rw [hcut] at hstopNear hcuts
    refine .inr ⟨by omega, ?_⟩
    exact hcuts.imp (fun hbd => by omega) fun hstart => by omega

theorem trim_cases (hlay : Layout isn buf missing ranges) (hwithin : buf.Within packet seq limit)
    (hlim : limit < buf.windowStart + 2 ^ 31) :
    ((buf.trim seq (seq + .of packet.length)).1.ge (buf.trim seq (seq + .of packet.length)).2 =
      true ∧
      (ranges = [] ∨
        (buf.trim seq (seq + .of packet.length)).1 = (buf.trim seq (seq + .of packet.length)).2)) ∨
      ∃ head tail,
        buf.trim seq (seq + .of packet.length) = (isn.byte head, isn.byte tail) ∧
          Cutout buf missing packet seq limit head tail := by
  obtain ⟨start, rfl, hstart⟩ := hlay.exists_position seq
  have hbounds := offset_bounds buf (isn.byte start)
  obtain ⟨hearly, hedge, hstop⟩ := hwithin
  have hle := lowest_le missing ranges
  have hnear := hlay.near
  rw [hlay.windowStart_eq] at hlim
  have hstartNear : Near start missing := ⟨by omega, by omega⟩
  rw [byte_add]
  generalize hstopEq : start + packet.length = stop
  have hempty : packet = [] → stop = start := by
    rintro rfl
    exact hstopEq.symm
  rcases hlay.head_cases with
    ⟨hnone, hdata⟩ | ⟨range, rest, block, others, hrngs, hdata, hfst, hcut⟩
  · -- nothing is stored, and `Add` cuts nothing
    have hends : ∀ {bound : Int}, buf.Beneath packet (isn.byte start) bound →
        (stop : Int) ≤ missing + bound := by
      intro bound hbeneath
      simp only [RxBuffer.Beneath, hdata, List.head?_nil, Option.not_mem_none, false_and,
        exists_false, or_false] at hbeneath
      omega
    rw [trim_of_nil hdata hlay.next hstartNear]
    by_cases hnew : missing < stop ∧ start < stop
    · rcases hstop with hnothing | hstale | ⟨hbeneath, hfin⟩
      · have hsame := hempty hnothing
        omega
      · omega
      · have hbd := hends hbeneath
        refine .inr ⟨max start missing, stop, rfl, le_max_right _ _, by omega, by omega, by omega,
          hbd, fun hgotFin => hends (hfin hgotFin)⟩
    · refine .inl ⟨?_, .inl hnone⟩
      rw [ge_byte ⟨by omega, by omega⟩]
      exact decide_eq_true (by omega)
  · have hlowest : lowest missing ranges ≤ range.lo := by
      rw [hrngs]
      exact min_le_left _ _
    have hedgeSeq : block.1 + .of buf.maxBuffer = isn.byte (range.lo + buf.maxBuffer) := by
      rw [hfst, byte_add]
    generalize hcutEq : range.lo + buf.maxBuffer = cut at hedgeSeq
    have hcutAt : buf.cutAt block = (cut : Int) - missing := by omega
    have hedgeBlock := hedge block (by simp [hdata])
    rw [hcutAt] at hedgeBlock
    by_cases hmeet : max start missing = stop
    · -- the segment ends at the next expected byte, whether or not the edge can be told from that
      have hequal := trim_meets hdata hlay.next hstartNear hmeet.ge
        ⟨by omega, by omega⟩ fun hcross => hmeet ▸ hcross
      exact .inl ⟨hequal ▸ ge_self _, .inr hequal⟩
    have hlimits : missing < stop ∧ start < stop →
        (stop : Int) ≤ missing + limit ∨
          stop < cut + 2 ^ 31 ∧ ((cut : Int) ≤ missing + limit ∨ cut ≤ start) := by
      rintro ⟨hmiss, hsome⟩
      rcases hstop with hnothing | hstale | ⟨hbeneath, -⟩
      · have hsame := hempty hnothing
        omega
      · omega
      · exact beneath_cases hdata hstart hstopEq hcutAt hbeneath
    have hcrossNear : stop < cut + 2 ^ 31 := by omega
    rw [trim_of_cons hdata hlay.next hstartNear hedgeSeq ⟨by omega, hcrossNear⟩
      ⟨by omega, by omega⟩]
    by_cases hsome : max start missing < min cut stop
    · have hnew : missing < stop ∧ start < stop := by omega
      rw [min_eq_left hsome.le]
      refine .inr ⟨max start missing, min cut stop, rfl, le_max_right _ _, by omega, hsome,
        by omega, by omega, fun hgotFin => ?_⟩
      rcases hstop with hnothing | hstale | ⟨-, hfin⟩
      · have hsame := hempty hnothing
        omega
      · omega
      · have hends := beneath_cases hdata hstart hstopEq hcutAt (hfin hgotFin)
        omega
    · rw [min_eq_right (not_lt.mp hsome)]
      exact .inl ⟨ge_self _, .inr rfl⟩

structure Taken (isn : SequenceNumber32) (buf : RxBuffer) (missing : Nat)
    (ranges : List Interval) (packet : List UInt8) (seq : SequenceNumber32) (limit : Int)
    (kept : List Interval) (new : Interval) (after : RxBuffer) (next : Nat) : Prop where
  part : Cutout buf missing packet seq limit new.lo new.hi
  sublist : kept.Sublist ranges
  /-- what is not kept lies strictly inside the segment and beyond the next expected byte -/
  dropped : ∀ range ∈ ranges, range ∉ kept → missing < range.lo ∧
    (missing : Int) + buf.offset seq < range.lo ∧
      (range.hi : Int) < missing + (buf.offset seq + packet.length)
  apart : ∀ range ∈ kept, range.hi ≤ new.lo ∨ new.hi ≤ range.lo
  fresh : ¬ Interval.Covers ranges new.lo
  layout : Layout isn after next (Interval.insert new kept)
  next_le : missing ≤ next
  blocks : ∀ block ∈ after.data, block ∈ buf.data ∨
    block.1 = isn.byte new.lo ∧ block.2.length = new.length
  relisted : Relisted isn buf.sackList missing next new after.sackList
  maxBuffer : after.maxBuffer = buf.maxBuffer
  gotFin : after.gotFin = buf.gotFin
  finSeq : after.finSeq = buf.finSeq

theorem succ (hlay : Layout isn buf missing ranges)
    (hbelow : ∀ range ∈ ranges, range.hi ≤ missing)
    (hroom : missing + 1 < lowest missing ranges + 2 ^ 31) :
    Layout isn
      { buf with
        gotFin := true
        finSeq := isn.byte missing
        nextRxSeq := isn.byte (missing + 1) } (missing + 1) ranges := by
  obtain ⟨stream, hloc⟩ := hlay.located
  have hearly := hlay.early
  have hlowest : lowest missing ranges ≤ lowest (missing + 1) ranges :=
    hloc.window.separated.le_lowest
      ((lowest_le missing ranges).trans (Nat.le_succ _))
  have hall : ∀ range ∈ ranges, range.lo < missing := fun range hrng => by
    have hbounds := hloc.window.of_mem hrng
    have hhi := hbelow range hrng
    omega
  have hbelowSame : totalBelow (missing + 1) ranges =
      totalBelow missing ranges := by
    unfold totalBelow
    refine congrArg total (List.filter_congr fun range hrng => ?_)
    have hlo := hall range hrng
    simp only [decide_eq_decide]
    omega
  have hwhole : ∀ range ∈ ranges, range.lo < missing + 1 → range.hi ≤ missing + 1 :=
    fun range hrng _ => (hbelow range hrng).trans (Nat.le_succ _)
  refine ⟨⟨stream, ?_⟩, by omega, by rw [hbelowSame]; exact hlay.available,
    fun _ => ⟨missing, rfl, by omega, by omega, hbelow⟩⟩
  refine ⟨hloc.data, ⟨hloc.window.separated.lowest _, fun range hrng => ?_⟩, rfl,
    lowest_le _ _, by omega, ?_, hloc.size, ?_, fun block hblock => ?_⟩
  · have hbounds := hloc.window.within range hrng
    omega
  · rintro ⟨range, hrng, -, hhi⟩
    have hle := hbelow range hrng
    omega
  · have hsum := lowest_add_totalBelow hloc.window.separated hwhole
    rw [hbelowSame, ← hlay.available] at hsum
    exact hsum
  · -- nothing is stored beyond the end, so nothing is reported
    obtain ⟨range, -, habove, hsome, hstored⟩ := hloc.sack block hblock
    obtain ⟨other, hother, -, hhi⟩ := hstored range.lo ⟨le_rfl, hsome⟩
    have hle := hbelow other hother
    omega

theorem advanced (hlay : Layout isn buf missing ranges) :
    ∃ final,
      Layout isn { buf with nextRxSeq := Located.advanced buf isn missing } final ranges ∧
        missing ≤ final := by
  have hlowest := lowest_le missing ranges
  rw [Located.advanced]
  split
  next hreach =>
    obtain ⟨hgotFin, hend⟩ := Bool.and_eq_true_iff.mp hreach
    obtain ⟨fin, hfin, hnearFin, hroom, hall⟩ := hlay.fin hgotFin
    have hsameEnd : missing = fin := by
      rw [beq_iff_eq, hfin] at hend
      exact (byte_inj_of_lt (by omega) (by omega)).mp hend
    subst hsameEnd
    have hsucc := hlay.succ hall hroom
    refine ⟨missing + 1, ?_, Nat.le_succ _⟩
    rw [byte_succ]
    simp only [← hgotFin, ← hfin] at hsucc
    exact hsucc
  · exact ⟨missing, by rw [← hlay.next]; exact hlay, le_rfl⟩

theorem fin_stored (hlay : Layout isn buf missing ranges) {later : List Interval} {next : Nat}
    (hsep : Interval.Separated (lowest missing ranges) later) (hle : missing ≤ next)
    (hrun : ∀ pos, missing ≤ pos → pos < next → Interval.Covers later pos)
    (hends : buf.gotFin = true →
      ∀ fin : Nat,
        buf.offset buf.finSeq = (fin : Int) - missing → (∀ range ∈ ranges, range.hi ≤ fin) →
          ∀ range ∈ later, range.hi ≤ fin) (hgotFin : buf.gotFin = true) :
    ∃ fin,
      buf.finSeq = isn.byte fin ∧ next < fin + 2 ^ 31 ∧ fin + 1 < lowest next later + 2 ^ 31 ∧
        ∀ range ∈ later, range.hi ≤ fin := by
  obtain ⟨fin, hfin, hnearFin, hroom, hall⟩ := hlay.fin hgotFin
  have hlowest := lowest_le missing ranges
  have hlowestNext := hsep.le_lowest (hlowest.trans hle)
  have hoff := hlay.offset_byte (show Near fin missing from ⟨by omega, hnearFin⟩)
  have hallLater := hends hgotFin fin (hfin ▸ hoff) hall
  refine ⟨fin, hfin, ?_, by omega, hallLater⟩
  rcases Nat.eq_or_lt_of_le hle with hstill | hmoved
  · omega
  · -- the byte before is stored
    obtain ⟨range, hrng, -, hhi⟩ := hrun (next - 1) (by omega) (by omega)
    have hbd := hallLater range hrng
    omega

theorem fragment_eq {start lo hi : Nat} (hlo : start ≤ lo) (hsome : lo < hi)
    (hhi : hi ≤ start + packet.length) (hnear : lo < start + 2 ^ 32) (stream : List UInt8) :
    createFragment packet (uint32OfInt ((isn.byte lo).sub (isn.byte start))) (hi - lo) =
      .ok (slice (overwrite stream lo ((packet.drop (lo - start)).take (hi - lo))) lo hi) := by
  have hlen : ((packet.drop (lo - start)).take (hi - lo)).length = hi - lo := by
    rw [List.length_take, List.length_drop]
    omega
  have hbytes := @slice_overwrite stream ((packet.drop (lo - start)).take (hi - lo)) lo
  have hend : lo + (hi - lo) = hi := by omega
  rw [hlen, hend] at hbytes
  have hfits : uint32 (lo - start + (hi - lo)) ≤ packet.length := (Nat.mod_le _ _).trans (by omega)
  rw [uint32_sub_byte hlo hnear, createFragment, if_pos hfits, hbytes]

theorem add (hlay : Layout isn buf missing ranges) (hwithin : buf.Within packet seq limit)
    (hlim : limit < buf.windowStart + 2 ^ 31) :
    buf.add packet seq = .ok (false, buf) ∨
      ∃ kept new after next,
        buf.add packet seq = .ok (true, after) ∧
          Taken isn buf missing ranges packet seq limit kept new after next := by
  obtain ⟨stream, hloc⟩ := hlay.located
  obtain ⟨start, rfl, hstartEq⟩ := hlay.exists_position seq
  have hbounds := offset_bounds buf (isn.byte start)
  rcases hlay.trim_cases hwithin hlim with ⟨hge, hmeet⟩ | ⟨head, tail, htrim, hpart⟩
  · exact .inl (hloc.window.add_of_meet hloc.data hge hmeet)
  have hlowest := lowest_le missing ranges
  rw [hlay.windowStart_eq] at hlim
  obtain ⟨hmiss, hstart, hsome, hstop, htailLimit, htailFin⟩ := id hpart
  rcases hloc.window.add_or_place hloc.data hloc.size htrim (hlowest.trans hmiss)
    hsome (by omega) with hnone | ⟨hfitted, hplaced⟩
  · exact .inl hnone
  refine .inr ?_
  have hsub := fit_sublist head tail ranges
  have hfresh := not_covers_fit hloc.window.separated hsome hfitted.some
  have hbelow := @Interval.totalBelow_fit missing head tail ranges hmiss
  have hdrop : ∀ range ∈ ranges, range ∉ (fit head tail ranges).1 →
      head < range.lo ∧ range.hi < tail :=
    fun range hrng => inside_of_dropped hrng
  generalize fit head tail ranges = fitted at hfitted hplaced hsub hfresh hbelow hdrop
  obtain ⟨kept, lo, hi⟩ := fitted
  obtain ⟨hheadNew, hsomeNew, htailNew, hapart, -⟩ := id hfitted
  simp only at hsub hfresh hbelow hdrop hheadNew hsomeNew htailNew hapart
  generalize hlater : Interval.insert ⟨lo, hi⟩ kept = later
  generalize hnext : advance missing later = next
  -- where the segment disagrees with what is stored, the bytes stored stay
  have hfrag := @fragment_eq isn packet start lo hi (by omega) hsomeNew (by omega) (by omega)
    stream
  generalize hbytes : (packet.drop (lo - start)).take (hi - lo) = bytes at hfrag
  have hlen : bytes.length = hi - lo := by
    rw [← hbytes, List.length_take, List.length_drop]
    omega
  have hlong : ∀ range ∈ later, range.hi ≤ (overwrite stream lo bytes).length := by
    intro range hrng
    rw [length_overwrite, hlen]
    rw [← hlater] at hrng
    rcases mem_insert.mp hrng with rfl | hkept
    · exact le_max_of_le_right (by simp only; omega)
    · exact le_max_of_le_left (hloc.window.within range (hsub.subset hkept)).1
  have hsame : ∀ range ∈ kept, blockOf (overwrite stream lo bytes) isn range =
      blockOf stream isn range := by
    intro range hkept
    have hbounds := hapart range hkept
    exact congrArg (Prod.mk _) (slice_overwrite_apart
      (hloc.window.within range (hsub.subset hkept)).1 (by omega))
  obtain ⟨hwin, ⟨hle, hnextNear, hgap⟩, sackList, hadd, hrep, hrelisted⟩ :=
    @Located.store stream (overwrite stream lo bytes) isn (lowest missing ranges) missing
      buf ranges kept ⟨lo, hi⟩ hloc packet (isn.byte start) head tail hsub hfitted hplaced
      hmiss (by omega) hfrag hsame later hlater.symm hlong next hnext.symm
  generalize overwrite stream lo bytes = held at hwin hadd hlong hsame
  have hlowestNext := hwin.separated.le_lowest (hlowest.trans hle)
  have hpre : ∀ range ∈ later, range.lo < missing → range.hi ≤ missing := by
    intro range hrng hbelow
    rw [← hlater] at hrng
    rcases mem_insert.mp hrng with rfl | hkept
    · simp only at hbelow
      omega
    · exact hloc.whole (hsub.subset hkept) hbelow
  have havail : buf.availBytes + (next - missing) = totalBelow next later := by
    rw [← hnext, totalBelow_advance hwin.separated hpre, ← hlater,
      totalBelow_insert (by simp only; omega), hbelow, hlay.available]
  have hwhole : ∀ range ∈ later, range.lo < next → range.hi ≤ next := fun range hrng hlo =>
    hi_le_of_not_covers hgap hrng hlo
  have hsum := lowest_add_totalBelow hwin.separated hwhole
  have hrun := (hnext ▸ (advance_spec hwin.separated hpre).2.2)
  have hfinLater := hlay.fin_stored hwin.separated hle hrun fun hgotFin fin hoff hall => by
    intro range hrng
    have hend := htailFin hgotFin
    rw [← hlater] at hrng
    rcases mem_insert.mp hrng with rfl | hkept
    · simp only
      omega
    · exact hall range (hsub.subset hkept)
  have hlayoutNext : Layout isn
      { buf with
        data := later.map (blockOf held isn)
        size := total later
        nextRxSeq := isn.byte next
        availBytes := buf.availBytes + (next - missing)
        sackList := sackList } next later := by
    refine ⟨⟨held, ?_⟩, by have hearly := hlay.early; omega, havail, hfinLater⟩
    refine ⟨rfl, ⟨hwin.separated.lowest _, fun range hrng => ?_⟩, rfl,
      lowest_le _ _, by omega, hgap, rfl, ?_, hrep⟩
    · have hbounds := hwin.within range hrng
      omega
    · simp only [havail]
      exact hsum
  obtain ⟨final, hfinal, hnextLe⟩ := hlayoutNext.advanced
  refine ⟨kept, ⟨lo, hi⟩, _, final, hadd, ?_⟩
  refine ⟨⟨by simp only; omega, by simp only; omega, hsomeNew, by simp only; omega,
    by simp only; omega, fun hgotFin => ?_⟩, hsub, fun range hrng hgone => ?_, hapart, hfresh,
    hlater ▸ hfinal, hle.trans hnextLe, fun block hblock => ?_,
    ⟨hrelisted.outOfOrder, fun hinOrder => ?_⟩, rfl, rfl, rfl⟩
  · have hend := htailFin hgotFin
    simp only
    omega
  · have hinside := hdrop range hrng hgone
    omega
  · obtain ⟨range, hrng, rfl⟩ := List.mem_map.mp hblock
    rw [← hlater] at hrng
    rcases mem_insert.mp hrng with rfl | hkept
    · exact .inr ⟨rfl, slice_length (hlong _ (hlater ▸ mem_insert.mpr (.inl rfl)))⟩
    · refine .inl ?_
      rw [hsame range hkept, hloc.data]
      exact List.mem_map_of_mem (hsub.subset hkept)
  · obtain ⟨hsubList, hgone⟩ := hrelisted.inOrder hinOrder
    refine ⟨hsubList, fun block hblock hnot => ?_⟩
    obtain ⟨edge, hfrom, hto, hclear⟩ := hgone block hblock hnot
    exact ⟨edge, hfrom, hto.trans hnextLe, hclear⟩

/-! ## The other operations -/

theorem init (isn : SequenceNumber32) : Layout isn (.create isn) (2 ^ 32) [] where
  located := by
    have hnext : isn.byte (2 ^ 32) = isn := by
      have hspace := byte_add_space isn 0
      rwa [Nat.zero_add, byte_zero] at hspace
    exact ⟨[], rfl, ⟨trivial, by simp⟩, hnext.symm, lowest_le _ _,
      by simp [lowest], not_covers_nil _, rfl,
      by simp [lowest, create], by simp [create]⟩
  early := by omega
  available := rfl
  fin hgotFin := by simp [create] at hgotFin

section

variable (hlay : Layout isn buf missing ranges)
include hlay

theorem setMaxBufferSize (s : Nat) : Layout isn (buf.setMaxBufferSize s) missing ranges := by
  obtain ⟨stream, hloc⟩ := hlay.located
  exact ⟨⟨stream, { hloc with }⟩, hlay.early, hlay.available, hlay.fin⟩

theorem setFinSequence {s : SequenceNumber32} (hends : buf.EndsAt s) :
    ∃ next,
      missing ≤ next ∧ next ≤ missing + 1 ∧ Layout isn (buf.setFinSequence s) next ranges := by
  obtain ⟨stream, hloc⟩ := hlay.located
  obtain ⟨fin, rfl, hfin⟩ := hlay.exists_position s
  have hbounds := offset_bounds buf (isn.byte fin)
  obtain ⟨hahead, hnear, hstored⟩ := hends
  rw [hlay.windowStart_eq] at hnear
  have hall : ∀ range ∈ ranges, range.hi ≤ fin := by
    intro range hrng
    have hin := hloc.window.within range hrng
    have hend := hstored (blockOf stream isn range) (by
      rw [hloc.data]
      exact List.mem_map_of_mem hrng)
    have hoff : buf.offset (blockOf stream isn range).1 = (range.lo : Int) - missing :=
      hlay.offset_byte (hlay.near_of_mem hrng).1
    rw [hoff, blockOf_length hin.1, length] at hend
    omega
  have hsame : (buf.nextRxSeq = isn.byte fin) = (missing = fin) := by
    rw [hlay.next]
    exact propext (byte_inj_of_lt (by omega) (by omega))
  by_cases hreach : missing = fin
  · refine ⟨missing + 1, by omega, le_rfl, ?_⟩
    subst hreach
    have hsucc := hlay.succ hall (by omega)
    simp only [RxBuffer.setFinSequence, hlay.next, if_true, byte_succ]
    exact hsucc
  · refine ⟨missing, le_rfl, Nat.le_succ _, ?_⟩
    simp only [RxBuffer.setFinSequence, hsame, if_neg hreach]
    exact ⟨⟨stream, { hloc with }⟩, hlay.early, hlay.available,
      fun _ => ⟨fin, rfl, by omega, by omega, hall⟩⟩

theorem extract (maxSize : Nat) :
    ∃ out left kept,
      buf.extract maxSize = .ok (out, left) ∧ Layout isn left missing kept ∧
        (∀ range ∈ kept, ∃ before ∈ ranges, before.lo ≤ range.lo ∧ before.hi = range.hi) ∧
        (∀ range ∈ ranges, missing ≤ range.lo → range ∈ kept) ∧ left.sackList = buf.sackList ∧
        left.maxBuffer = buf.maxBuffer ∧ left.gotFin = buf.gotFin ∧ left.finSeq = buf.finSeq := by
  obtain ⟨stream, hloc⟩ := hlay.located
  have hwin := hloc.window
  have hcnt : min maxSize buf.availBytes ≤ totalBelow missing ranges :=
    hlay.available ▸ min_le_right _ _
  have hle : min maxSize buf.availBytes ≤ buf.availBytes := min_le_right _ _
  generalize hextr : min maxSize buf.availBytes = count at hcnt hle
  have htotal := hwin.total_le
  have hbelow := totalBelow_le_total missing ranges
  have hsz := hloc.size
  have havail := hlay.available
  obtain ⟨out, hloop, -⟩ := @extractLoop_below stream isn (lowest missing ranges) ranges
    buf (lowest missing ranges) count missing [] hwin.allNear hwin.separated
    hcnt hloc.next hloc.near (by omega) (by omega) (by omega) (by omega)
  rw [← hloc.data] at hloop
  have hconsumed := total_consume (show count ≤ total ranges by omega)
  obtain ⟨hbelowLeft, hkept⟩ := consume_below hwin.separated
    (fun range hrng hlo => hloc.whole hrng hlo) hcnt
  have hmem : ∀ range ∈ consume count ranges, ∃ before ∈ ranges,
      before.lo ≤ range.lo ∧ before.hi = range.hi := fun range hrng => mem_consume hrng
  have hgap : ¬ Interval.Covers (consume count ranges) missing :=
    fun hcov => hloc.gap (covers_of_consume hcov)
  have hsep := @Interval.Separated.consume _ count _ hwin.separated
  generalize consume count ranges = kept
    at hloop hconsumed hbelowLeft hkept hmem hgap hsep
  have hlowest := hsep.le_lowest (lowest_le missing ranges)
  have hnear := hloc.near
  have hfin : buf.gotFin = true → ∃ fin, buf.finSeq = isn.byte fin ∧
      missing < fin + 2 ^ 31 ∧ fin + 1 < lowest missing kept + 2 ^ 31 ∧
        ∀ range ∈ kept, range.hi ≤ fin := by
    intro hgotFin
    obtain ⟨fin, hfin, hnearFin, hroom, hall⟩ := hlay.fin hgotFin
    refine ⟨fin, hfin, hnearFin, by omega, fun range hrng => ?_⟩
    obtain ⟨before, hpre, -, hend⟩ := hmem range hrng
    exact hend ▸ hall before hpre
  have hsum := lowest_add_totalBelow hsep fun range hrng hlo =>
    hi_le_of_not_covers hgap hrng hlo
  have hleft : Layout isn
      { buf with
        data := kept.map (blockOf stream isn)
        size := buf.size - count
        availBytes := buf.availBytes - count } missing kept := by
    refine ⟨⟨stream, ?_⟩, hlay.early, by simp only; omega, hfin⟩
    refine ⟨rfl, ⟨hsep.lowest _, fun range hrng => ?_⟩, hloc.next,
      lowest_le _ _, by omega, hgap, by simp only; omega, by simp only; omega,
      fun block hblock => ?_⟩
    · obtain ⟨before, hpre, -, hend⟩ := hmem range hrng
      have hbounds := hwin.within before hpre
      omega
    · -- a reported block lies beyond what is extracted
      obtain ⟨range, heq, habove, hsome, hstored⟩ := hloc.sack block hblock
      refine ⟨range, heq, habove, hsome, fun pos hin => ?_⟩
      obtain ⟨other, hother, hlo, hhi⟩ := hstored pos hin
      refine ⟨other, hkept other hother ?_, hlo, hhi⟩
      by_contra hfront
      have hwhole := hloc.whole hother (not_le.mp hfront)
      have hfrom := hin.1
      omega
  rw [RxBuffer.extract, hextr]
  by_cases hzero : count = 0
  · refine ⟨[], buf, ranges, if_pos hzero, hlay, fun range hrng =>
      ⟨range, hrng, le_rfl, rfl⟩, fun range hrng _ => hrng, rfl, rfl, rfl, rfl⟩
  · have hne : buf.data.isEmpty = false := by
      rw [hloc.data]
      cases ranges with
      | nil => exact absurd (Nat.eq_zero_of_le_zero hcnt) hzero
      | cons => rfl
    refine ⟨out, _, kept, ?_, hleft, hmem, hkept, rfl, rfl, rfl, rfl⟩
    simp only [if_neg hzero, hne, Bool.not_false, assert_of, ok_bind, hloop, List.nil_append]

end

end Layout

end HomaSird.Tcp
