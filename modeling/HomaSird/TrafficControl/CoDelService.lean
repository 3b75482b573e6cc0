import HomaSird.TrafficControl.CoDelQueueDisc

/-! # What a CoDel queue disc does for the queue disc above it

CoDel drops a packet only while the bytes behind it reach its minimum, so with a
minimum of at least one byte it always has a next packet at hand: it hands one out
whenever its queue holds one, and it never uses a null item.
-/

namespace HomaSird.TrafficControl

open Callback DropTailQueue

namespace DropTailQueue

def Weighed (queue : DropTailQueue) : Prop :=
  queue.nBytes = uint32 (bytes (TrafficControl.packets queue.packets))

variable {queue : DropTailQueue}

theorem empty_weighed (maxSize : QueueSize) : (empty maxSize).Weighed := rfl

theorem enqueue_of_fits (hcnt : queue.Counted) (hfit : queue.packets.length + 1 < 2 ^ 32)
    (item : QueueDiscItem) :
    queue.enqueue item = (false, queue) ∨
      (queue.enqueue item).1 = true ∧ (queue.enqueue item).2.Counted ∧
        (queue.enqueue item).2.packets = queue.packets ++ [item] ∧
        (queue.enqueue item).2.nBytes = uint32 (queue.nBytes + item.size) := by
  rw [enqueue]
  split
  · exact .inl rfl
  · refine .inr ⟨rfl, ⟨?_, ?_⟩, rfl, rfl⟩
    · simp only [hcnt.nPackets, List.length_append, List.length_singleton]
      exact uint32_of_lt hfit
    · simpa only [List.length_append, List.length_singleton] using hfit

theorem Weighed.append (hweigh : queue.Weighed) {after : DropTailQueue} {item : QueueDiscItem}
    (hpkts : after.packets = queue.packets ++ [item])
    (hbytes : after.nBytes = uint32 (queue.nBytes + item.size)) : after.Weighed := by
  rw [Weighed, hbytes, hweigh, uint32_add, hpkts]
  simp

theorem Weighed.dequeue (hweigh : queue.Weighed) (hcounted : queue.Counted) :
    queue.dequeue.2.Weighed := by
  cases hpkts : queue.packets with
  | nil =>
    rw [dequeue_nil hcounted hpkts]
    exact hweigh
  | cons item rest =>
    have hcnt : queue.nPackets ≠ 0 := by simp [hcounted.nPackets, hpkts]
    rw [Weighed, hpkts] at hweigh
    rw [DropTailQueue.dequeue, if_neg hcnt, hpkts, Weighed, hweigh]
    simp only [packets_cons, bytes_cons, uint32, uint32OfInt]
    omega

theorem Weighed.ne_nil (hweigh : queue.Weighed) (hbytes : 1 ≤ queue.nBytes) :
    queue.packets ≠ [] := by
  intro hnil
  rw [hweigh, hnil] at hbytes
  simp [uint32] at hbytes

end DropTailQueue

namespace CoDelQueueDisc

variable {cfg : CoDelConfig}

theorem doEnqueue_cases (cfg : CoDelConfig) (env : Env Unit) (occupancy : Occupancy)
    (item : QueueDiscItem) (state : CoDelState) :
    (∃ reason, doEnqueue cfg env occupancy item state =
        ⟨false, state, [.dropBeforeEnqueue item reason]⟩) ∨
      (state.queue.enqueue item).1 = true ∧ doEnqueue cfg env occupancy item state =
        ⟨true, { state with queue := (state.queue.enqueue item).2 }, [.packetEnqueued item]⟩ := by
  simp only [doEnqueue]
  split
  · exact .inl ⟨_, rfl⟩
  · cases hacc : (state.queue.enqueue item).1 with
    | true => exact .inr ⟨rfl, by simp⟩
    | false =>
      left
      have hsame : (state.queue.enqueue item).2 = state.queue := by
        rw [enqueue] at hacc ⊢
        split
        · rfl
        next hroom => simp [if_neg hroom] at hacc
      exact ⟨INTERNAL_QUEUE_DROP, by simp [hsame]⟩

theorem okToDrop_nullUsed (cfg : CoDelConfig) (now : Nat) (item : Option QueueDiscItem)
    (state : CoDelState) : (okToDrop cfg now item state).2.nullUsed = state.nullUsed := by
  unfold okToDrop
  split
  · rfl
  · split_ifs <;> rfl

theorem minBytes_of_okToDrop {now : Nat} {item : Option QueueDiscItem} {state : CoDelState}
    (hok : (okToDrop cfg now item state).1 = true) : cfg.minBytes ≤ state.queue.nBytes := by
  unfold okToDrop at hok
  split at hok
  · cases hok
  · split at hok
    · cases hok
    next hmore =>
      rw [not_or] at hmore
      exact Nat.le_of_not_lt hmore.2

/-- `DoDequeue` has an item at hand, and the queue's counters are right. -/
structure Serving (fetch : Fetch) : Prop where
  counted : fetch.state.queue.Counted
  weighed : fetch.state.queue.Weighed
  present : fetch.item.isSome = true
  defined : fetch.state.nullUsed = false

namespace Serving

variable {fetch : Fetch}

theorem setState (hserve : Serving fetch) {state : CoDelState}
    (hq : state.queue = fetch.state.queue)
    (hdef : state.nullUsed = fetch.state.nullUsed) : Serving (fetch.setState state) where
  counted := hq ▸ hserve.counted
  weighed := hq ▸ hserve.weighed
  present := hserve.present
  defined := hdef.trans hserve.defined

theorem isMarked (hserve : Serving fetch) (isMarked : Bool) :
    Serving { fetch with isMarked := isMarked } where
  __ := hserve

theorem mark (hserve : Serving fetch) {reason : String} {marked : Fetch}
    (hmark : fetch.mark reason = some marked) : Serving marked := by
  unfold Fetch.mark at hmark
  split at hmark
  · exact Option.some.inj hmark ▸ { hserve with present := rfl }
  · cases hmark

theorem markOrKeep (hserve : Serving fetch) (reason : String) :
    Serving ((fetch.mark reason).getD fetch) := by
  cases hmark : fetch.mark reason with
  | none => exact hserve
  | some marked => exact hserve.mark hmark

theorem dropAndDequeue (hserve : Serving fetch) (hbytes : 1 ≤ fetch.state.queue.nBytes) :
    Serving fetch.dropAndDequeue := by
  obtain ⟨hcnt, hweigh, hpresent, hdef⟩ := hserve
  obtain ⟨item, hitem⟩ := Option.isSome_iff_exists.mp hpresent
  cases hpkts : fetch.state.queue.packets with
  | nil => exact absurd hpkts (hweigh.ne_nil hbytes)
  | cons next rest =>
    obtain ⟨hnext, hcounts, -, -⟩ := dequeue_cons hcnt hpkts
    rw [Fetch.dropAndDequeue, hitem]
    exact ⟨hcounts, hweigh.dequeue hcnt, Option.isSome_iff_exists.mpr ⟨next, hnext⟩, hdef⟩

theorem dropOnce (hserve : Serving fetch) (hmin : 1 ≤ cfg.minBytes) (now : Nat)
    (hbytes : cfg.minBytes ≤ fetch.state.queue.nBytes) :
    Serving (CoDelQueueDisc.dropOnce cfg now fetch).2 ∧
      ((CoDelQueueDisc.dropOnce cfg now fetch).1 = false →
        (CoDelQueueDisc.dropOnce cfg now fetch).2.state.dropping = true →
        cfg.minBytes ≤ (CoDelQueueDisc.dropOnce cfg now fetch).2.state.queue.nBytes) := by
  have hcnt : Serving (fetch.setState { fetch.state with
      count := uint32 (fetch.state.count + 1)
      recInvSqrt := newtonStep fetch.state.recInvSqrt (uint32 (fetch.state.count + 1)) }) :=
    hserve.setState rfl rfl
  have hdrop := hcnt.dropAndDequeue (hmin.trans hbytes)
  simp only [CoDelQueueDisc.dropOnce]
  split
  next marked hmark =>
    split at hmark
    · refine ⟨?_, by simp⟩
      apply isMarked
      exact (hcnt.mark hmark).setState rfl rfl
    · cases hmark
  · split
    next hok =>
      refine ⟨hdrop.setState (okToDrop_queue cfg now _ _)
        (okToDrop_nullUsed cfg now _ _), fun _ _ => ?_⟩
      simp only [Fetch.setState, okToDrop_queue]
      exact minBytes_of_okToDrop hok
    · refine ⟨hdrop.setState (okToDrop_queue cfg now _ _)
        (okToDrop_nullUsed cfg now _ _), ?_⟩
      simp [Fetch.setState]

theorem dropWhile (hserve : Serving fetch) (hmin : 1 ≤ cfg.minBytes) (now remaining : Nat)
    (hbytes : fetch.state.dropping = true → cfg.minBytes ≤ fetch.state.queue.nBytes) :
    Serving (CoDelQueueDisc.dropWhile cfg now remaining fetch) := by
  induction remaining generalizing fetch with
  | zero => exact hserve
  | succ remaining ih =>
    simp only [CoDelQueueDisc.dropWhile]
    split
    next hdrop =>
      obtain ⟨hpassed, hmore⟩ := hserve.dropOnce hmin now (hbytes hdrop.1)
      split
      · exact hpassed
      next hstay => exact ih hpassed (hmore (Bool.eq_false_iff.mpr hstay))
    · exact hserve

theorem enterDropping (hserve : Serving fetch) (hmin : 1 ≤ cfg.minBytes) (now : Nat)
    (hbytes : cfg.minBytes ≤ fetch.state.queue.nBytes) :
    Serving (CoDelQueueDisc.enterDropping cfg now fetch) := by
  simp only [CoDelQueueDisc.enterDropping]
  split
  next marked hmark =>
    split at hmark
    · apply isMarked
      exact (hserve.mark hmark).setState (startDropping_queue cfg now _) rfl
    · cases hmark
  · apply (hserve.dropAndDequeue (hmin.trans hbytes)).setState
    · rw [startDropping_queue, okToDrop_queue]
    · exact okToDrop_nullUsed cfg now _ _

theorem finish (hserve : Serving fetch) (now : Nat) :
    Serving (CoDelQueueDisc.finish cfg now fetch) := by
  unfold CoDelQueueDisc.finish
  split
  next hnone =>
    have hpresent := hserve.present
    rw [hnone] at hpresent
    cases hpresent
  · split
    · exact hserve.markOrKeep _
    · exact hserve

theorem decideItem (hserve : Serving fetch) (hmin : 1 ≤ cfg.minBytes) (now : Nat)
    (item : QueueDiscItem) : Serving (CoDelQueueDisc.decideItem cfg now item fetch) := by
  have hcheck : Serving (fetch.setState (okToDrop cfg now fetch.item fetch.state).2) :=
    hserve.setState (okToDrop_queue cfg now _ _) (okToDrop_nullUsed cfg now _ _)
  have hbytes (hok : (okToDrop cfg now fetch.item fetch.state).1 = true) :
      cfg.minBytes ≤
        (fetch.setState (okToDrop cfg now fetch.item fetch.state).2).state.queue.nBytes := by
    simp only [Fetch.setState, okToDrop_queue]
    exact minBytes_of_okToDrop hok
  simp only [CoDelQueueDisc.decideItem]
  split
  · split
    · exact hserve.markOrKeep _
    · exact hserve
  · apply finish
    split
    · split
      · exact hcheck.setState rfl rfl
      next hok => exact hcheck.dropWhile hmin now _ fun _ => hbytes (by simpa using hok)
    · split
      next hok => exact hcheck.enterDropping hmin now (hbytes hok)
      · exact hcheck

end Serving

theorem doDequeue_serves (hmin : 1 ≤ cfg.minBytes) (env : Env Unit) (occupancy : Occupancy)
    {state : CoDelState} (hcnt : state.queue.Counted) (hweigh : state.queue.Weighed)
    (hdef : state.nullUsed = false) :
    let outcome := doDequeue cfg env occupancy state
    (outcome.result.isSome = true ↔ state.queue.packets ≠ []) ∧
      outcome.state.queue.Weighed ∧ outcome.state.nullUsed = false := by
  unfold doDequeue
  cases hpkts : state.queue.packets with
  | nil =>
    rw [dequeue_nil hcnt hpkts]
    exact ⟨by simp, hweigh, hdef⟩
  | cons item rest =>
    obtain ⟨hitem, hcounts, -, -⟩ := dequeue_cons hcnt hpkts
    simp only [hitem]
    have hserve : Serving ⟨some item, { state with queue := state.queue.dequeue.2 },
        [.packetDequeued item], false⟩ :=
      ⟨hcounts, hweigh.dequeue hcnt, rfl, hdef⟩
    have hdecided := hserve.decideItem hmin env.now item
    exact ⟨iff_of_true hdecided.present (by simp), hdecided.weighed, hdecided.defined⟩

end CoDelQueueDisc

end HomaSird.TrafficControl
