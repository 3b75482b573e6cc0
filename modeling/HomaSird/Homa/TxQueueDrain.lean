import HomaSird.Homa.OutboundMsg

/-! # Emptying the head of a transmit queue

`RemoveNextPktFromTxQ` pops while the head of the heap is the given offset, and its guard reads
the head before it tests for emptiness. What that read finds is left open; the queues whose head
is read are recorded.
-/

namespace HomaSird.Homa

open MinQueue

/-- The heaps whose head was read, in order, and the heap that is left. -/
structure TxQueueReads where
  reads : List (MinQueue Nat)
  left : MinQueue Nat

namespace HomaOutboundMsg

variable {stale pktOffset : Nat} {queue : MinQueue Nat}

/-- The loop of `RemoveNextPktFromTxQ`. Every test of its guard reads the head. -/
def popCopies (stale pktOffset : Nat) (queue : MinQueue Nat) : TxQueueReads :=
  if _hguard : queue.top stale = pktOffset ∧ queue.empty = false then
    let rest := popCopies stale pktOffset queue.pop
    { rest with reads := queue :: rest.reads }
  else { reads := [queue], left := queue }
termination_by queue.items.length
decreasing_by exact MinQueue.length_pop_lt _hguard.2

/-- `RemoveNextPktFromTxQ` on the heap: its assertions, the first of which guards the read of the
second, and the loop. -/
def readTxQ (stale pktOffset : Nat) (queue : MinQueue Nat) : Except Fault TxQueueReads :=
  if queue.empty then .error .txQueueHead
  else if queue.top stale = pktOffset then
    let loop := popCopies stale pktOffset queue
    .ok { loop with reads := queue :: loop.reads }
  else .error .txQueueHead

/-! ## What the loop leaves and what it reads -/

theorem popCopies_nil (hempty : queue.items = []) :
    popCopies stale pktOffset queue = { reads := [queue], left := queue } := by
  rw [popCopies, dif_neg]
  rintro ⟨-, hfull⟩
  simp [empty, hempty] at hfull

theorem popCopies_head {head : Nat} {tail : List Nat} (hitems : queue.items = head :: tail) :
    popCopies stale pktOffset queue =
      if head = pktOffset then
        { popCopies stale pktOffset queue.pop with
          reads := queue :: (popCopies stale pktOffset queue.pop).reads }
      else { reads := [queue], left := queue } := by
  have htop : queue.top stale = head := by
    simp [top, top?, hitems]
  have hfull : queue.empty = false := by
    simp [empty, hitems]
  rw [popCopies, htop]
  simp only [hfull, and_true, dite_eq_ite]

theorem left_popCopies (stale pktOffset : Nat) (queue : MinQueue Nat) :
    (popCopies stale pktOffset queue).left = queue.popWhileTop pktOffset := by
  obtain ⟨items, hsort⟩ := queue
  induction items with
  | nil =>
    rw [popCopies_nil rfl]
    rfl
  | cons head tail ih =>
    rw [popCopies_head rfl]
    split
    next heq =>
      have hrest := ih (List.pairwise_cons.mp hsort).2
      simpa [pop, popWhileTop, heq] using hrest
    next hne => simp [popWhileTop, hne]

theorem reads_popCopies (stale pktOffset : Nat) (queue : MinQueue Nat) :
    (∀ read ∈ (popCopies stale pktOffset queue).reads, read.empty = false) ↔
    ∃ other, other ≠ pktOffset ∧ 0 < queue.count other := by
  obtain ⟨items, hsort⟩ := queue
  induction items with
  | nil =>
    rw [popCopies_nil rfl]
    simp [empty, count]
  | cons head tail ih =>
    rw [popCopies_head rfl]
    split
    next heq =>
      have hrest := ih (List.pairwise_cons.mp hsort).2
      have hcnt : ∀ other, other ≠ pktOffset →
          (head :: tail).count other = tail.count other := by
        intro other hne
        exact List.count_cons_of_ne (heq ▸ hne.symm)
      have hread : ∀ rest : List (MinQueue Nat),
          (∀ read ∈ ⟨head :: tail, hsort⟩ :: rest, read.empty = false) ↔
            ∀ read ∈ rest, read.empty = false := by
        intro rest
        exact List.forall_mem_cons.trans (and_iff_right rfl)
      refine (hread _).trans (hrest.trans ?_)
      refine exists_congr fun other => and_congr_right fun hne => ?_
      rw [count, count, hcnt other hne]
    next hne =>
      refine iff_of_true ?_ ⟨head, hne, List.count_pos_iff.mpr List.mem_cons_self⟩
      intro read hread
      rw [List.mem_singleton.mp hread]
      rfl

/-- The head is read only of heaps that hold something, and the copies of the offset go and nothing
else. -/
structure SafelyEmptied (pktOffset : Nat) (queue : MinQueue Nat) (result : TxQueueReads) :
    Prop where
  reads : ∀ read ∈ result.reads, read.empty = false
  removed : result.left.count pktOffset = 0
  kept : ∀ other, other ≠ pktOffset → result.left.count other = queue.count other

theorem readTxQ_eq_ok (htop : queue.top? = some pktOffset) :
    readTxQ stale pktOffset queue =
      .ok { popCopies stale pktOffset queue with
        reads := queue :: (popCopies stale pktOffset queue).reads } := by
  have hfull : queue.empty = false := by
    obtain ⟨items, hsort⟩ := queue
    cases items with
    | nil => cases htop
    | cons head tail => rfl
  have hhead : queue.top stale = pktOffset := by rw [top, htop, Option.getD_some]
  rw [readTxQ, hfull, if_neg Bool.false_ne_true, if_pos hhead]

/-- For the offset at the head the loop ends, whatever is behind an empty heap, with all copies of
the offset out and the others in place; and it reads the head only of heaps that hold something
exactly when another offset is queued. -/
theorem safelyEmptied_iff (stale : Nat) (htop : queue.top? = some pktOffset) :
    ∃ result,
      readTxQ stale pktOffset queue = .ok result ∧ result.left = queue.popWhileTop pktOffset ∧
        (SafelyEmptied pktOffset queue result ↔
          ∃ other, other ≠ pktOffset ∧ 0 < queue.count other) := by
  refine ⟨_, readTxQ_eq_ok htop, left_popCopies stale pktOffset queue, ?_⟩
  have hleft := left_popCopies stale pktOffset queue
  have hreads := reads_popCopies stale pktOffset queue
  constructor
  · intro hsafe
    exact hreads.mp fun read hread => hsafe.reads read (.tail _ hread)
  · intro hother
    refine ⟨?_, ?_, ?_⟩
    · intro read hread
      rcases List.mem_cons.mp hread with rfl | hloop
      · obtain ⟨other, -, hpos⟩ := hother
        obtain ⟨items, hsort⟩ := read
        cases items with
        | nil => cases hpos
        | cons head tail => rfl
      · exact hreads.mpr hother read hloop
    · dsimp only
      rw [hleft]
      exact MinQueue.count_popWhileTop_self htop
    · intro other hne
      dsimp only
      rw [hleft]
      exact MinQueue.count_popWhileTop_of_ne queue hne

/-- The last offset of a heap: the guard reads the head of the empty heap. -/
theorem head_read_of_empty :
    ∃ result, readTxQ 7 0 (MinQueue.range 1) = .ok result ∧ (result.reads.map MinQueue.items) =
    [[0], [0], []] ∧ ¬ SafelyEmptied 0 (MinQueue.range 1) result := by
  refine ⟨_, readTxQ_eq_ok rfl, ?_, ?_⟩
  · rw [popCopies_head rfl, if_pos rfl, popCopies_nil rfl]
    rfl
  · intro hsafe
    have hlast : (MinQueue.range 1).pop ∈ (popCopies 7 0 (MinQueue.range 1)).reads := by
      rw [popCopies_head rfl, if_pos rfl, popCopies_nil rfl]
      exact List.mem_cons_of_mem _ List.mem_cons_self
    cases hsafe.reads _ (.tail _ hlast)

theorem safelyEmptied_iff_two :
    ∃ result,
      readTxQ 7 0 (MinQueue.range 2) = .ok result ∧ SafelyEmptied 0 (MinQueue.range 2) result := by
  have htop : (MinQueue.range 2).top? = some 0 := rfl
  obtain ⟨result, hres, -, hiff⟩ := safelyEmptied_iff 7 htop
  exact ⟨result, hres, hiff.mpr ⟨1, by decide, by decide⟩⟩

end HomaOutboundMsg

end HomaSird.Homa
