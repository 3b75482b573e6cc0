import HomaSird.TrafficControl.CoDelService

/-! # A queue disc attached to a class of another

The traces of a child queue disc call its parent, so that what a child stores and
lets go of is also counted above it. The children here are CoDel queue discs that
nobody peeks at.
-/

namespace HomaSird.TrafficControl

open Callback CoDelQueueDisc DropTailQueue List

def CHILD_QUEUE_DISC_DROP : String := "(Dropped by child queue disc) "

def CHILD_QUEUE_DISC_MARK : String := "(Marked by child queue disc) "

def Callback.ofChild : Callback → Callback
  | .packetEnqueued item => .packetEnqueued item
  | .packetDequeued item => .packetDequeued item
  | .dropBeforeEnqueue item reason => .dropBeforeEnqueue item (CHILD_QUEUE_DISC_DROP ++ reason)
  | .dropAfterDequeue item reason => .dropAfterDequeue item (CHILD_QUEUE_DISC_DROP ++ reason)
  | .mark item reason => .mark item (CHILD_QUEUE_DISC_MARK ++ reason)

@[simp] theorem enqueuedOf_ofChild (reports : List Callback) :
    enqueuedOf (reports.map Callback.ofChild) = enqueuedOf reports := by
  simp only [enqueuedOf, filterMap_map]
  congr 1
  funext report
  cases report <;> rfl

@[simp] theorem dequeuedOf_ofChild (reports : List Callback) :
    dequeuedOf (reports.map Callback.ofChild) = dequeuedOf reports := by
  simp only [dequeuedOf, filterMap_map]
  congr 1
  funext report
  cases report <;> rfl

@[simp] theorem enqueuedOf_append (first second : List Callback) :
    enqueuedOf (first ++ second) = enqueuedOf first ++ enqueuedOf second :=
  filterMap_append

@[simp] theorem dequeuedOf_append (first second : List Callback) :
    dequeuedOf (first ++ second) = dequeuedOf first ++ dequeuedOf second :=
  filterMap_append

/-- The counters a queue disc reads after what it has reported in the same call. -/
def Occupancy.after (occupancy : Occupancy) : List Callback → Occupancy
  | [] => occupancy
  | .packetEnqueued item :: later =>
    Occupancy.after ⟨uint32 (occupancy.nPackets + 1), uint32 (occupancy.nBytes + item.size)⟩ later
  | .packetDequeued item :: later =>
    Occupancy.after ⟨uint32OfInt ((occupancy.nPackets : Int) - 1),
      uint32OfInt ((occupancy.nBytes : Int) - item.size)⟩ later
  | _ :: later => occupancy.after later

namespace QueueDisc

variable {State Chance : Type} (disc : Discipline State Chance)

/-- `Enqueue` of a child, with what its parent is told. -/
def enqueueChild (child : QueueDisc State) (env : Env Chance) (item : QueueDiscItem) :
    Outcome (QueueDisc State) Bool :=
  let outcome := disc.doEnqueue env (child.base.receive item).occupancy item child.inner
  ⟨outcome.result, (child.enqueue disc env item).2, outcome.reports.map Callback.ofChild⟩

/-- `Dequeue` of a child whose slot is empty, with what its parent is told. -/
def dequeueChild (child : QueueDisc State) (env : Env Chance) :
    Outcome (QueueDisc State) (Option QueueDiscItem) :=
  let outcome := disc.doDequeue env child.base.occupancy child.inner
  ⟨outcome.result, ⟨child.base.callbacks outcome.reports, outcome.state⟩,
    outcome.reports.map Callback.ofChild⟩

/-- `Dequeue` of the internal queue of a CoDel child, which the child reports. -/
def dequeueInternal (child : QueueDisc CoDelState) :
    Outcome (QueueDisc CoDelState) (Option QueueDiscItem) :=
  let dequeued := child.inner.queue.dequeue
  let reports := dequeued.1.toList.map Callback.packetDequeued
  ⟨dequeued.1, ⟨child.base.callbacks reports, { child.inner with queue := dequeued.2 }⟩, reports⟩

end QueueDisc

structure Base.Holds (base : Base) (waiting : List Packet) : Prop where
  counted : base.Counted
  enqueued : (packets base.log.enqueued).Perm (packets base.log.dequeued ++ waiting)
  unpeeked : base.peeked = false
  requeued : base.requeued = none

namespace Base.Holds

variable {base : Base} {waiting : List Packet}

theorem init (quota : Nat) (iface : Option NetDeviceQueueInterface) :
    Holds { quota, devQueueIface := iface } [] where
  counted := ⟨rfl, rfl, rfl, rfl, rfl, rfl, rfl, rfl, rfl, rfl, rfl, rfl⟩
  enqueued := .refl _
  unpeeked := rfl
  requeued := rfl

theorem nPackets (hholds : base.Holds waiting) : base.nPackets = uint32 waiting.length := by
  have hlen := hholds.enqueued.length_eq
  rw [length_append, length_packets, length_packets] at hlen
  rw [hholds.counted.nPackets, hlen, uint32OfInt, uint32]
  omega

theorem nBytes (hholds : base.Holds waiting) : base.nBytes = uint32 (bytes waiting) := by
  have hbytes := bytes_perm hholds.enqueued
  rw [bytes_append] at hbytes
  rw [hholds.counted.nBytes, hbytes, uint32OfInt, uint32]
  omega

theorem receive (hholds : base.Holds waiting) (item : QueueDiscItem) :
    (base.receive item).Holds waiting where
  __ := hholds
  counted := hholds.counted.receive item

theorem callbacks (hholds : base.Holds waiting) {reports : List Callback} {after : List Packet}
    (hmoved :
      (waiting ++ packets (enqueuedOf reports)).Perm (packets (dequeuedOf reports) ++ after)) :
    (base.callbacks reports).Holds after where
  counted := hholds.counted.callbacks reports
  enqueued := by
    rw [base.callbacks_log reports, hholds.unpeeked]
    simp only [countedOf, Bool.false_eq_true, if_false, packets_append]
    refine (hholds.enqueued.append_right _).trans ?_
    simp only [append_assoc]
    exact hmoved.append_left _
  unpeeked := (base.callbacks_frame reports).2.1.trans hholds.unpeeked
  requeued := (base.callbacks_frame reports).1.trans hholds.requeued

end Base.Holds

def QueueDisc.waiting (child : QueueDisc CoDelState) : List Packet :=
  packets child.inner.queue.packets

namespace QueueDisc

variable (cfg : CoDelConfig) (child : QueueDisc CoDelState)

theorem dequeueChild_order (env : Env Unit) :
    let served := child.dequeueChild (coDelQueueDisc cfg) env
    (packets served.result.toList ++ served.state.waiting).Sublist child.waiting := by
  have horder := (doDequeue_order cfg env child.base.occupancy child.inner).map
    Datagram.toPacket
  rw [map_append, map_datagrams, map_datagrams, map_datagrams] at horder
  exact horder

theorem dequeueInternal_order :
    packets child.dequeueInternal.result.toList ++ child.dequeueInternal.state.waiting =
      child.waiting := by
  have hq := congrArg packets child.inner.queue.dequeue_append
  rw [packets_append] at hq
  exact hq

theorem enqueueChild_waiting (env : Env Unit) (item : QueueDiscItem) :
    let stored := child.enqueueChild (coDelQueueDisc cfg) env item
    stored.state.waiting = child.waiting ∨
      stored.state.waiting = child.waiting ++ [item.toPacket] := by
  have hcases := doEnqueue_cases cfg env (child.base.receive item).occupancy
    item child.inner
  simp only [enqueueChild, enqueue, coDelQueueDisc, waiting]
  rcases hcases with ⟨reason, hrefuse⟩ | ⟨hacc, hstored⟩
  · rw [hrefuse]
    exact .inl rfl
  · rw [hstored]
    right
    rw [DropTailQueue.enqueue] at hacc ⊢
    split at hacc
    · cases hacc
    next hroom =>
      rw [if_neg hroom, packets_append]
      rfl

end QueueDisc

structure CoDelChild (cfg : CoDelConfig) (child : QueueDisc CoDelState) : Prop where
  holds : child.base.Holds child.waiting
  counted : child.inner.queue.Counted
  weighed : child.inner.queue.Weighed
  maxSize : child.inner.queue.maxSize = cfg.maxSize
  defined : child.inner.nullUsed = false

namespace CoDelChild

variable {cfg : CoDelConfig} {child : QueueDisc CoDelState}

theorem init (cfg : CoDelConfig) (quota : Nat) (iface : Option NetDeviceQueueInterface) :
    CoDelChild cfg (QueueDisc.init (coDelQueueDisc cfg) quota iface) where
  holds := .init quota iface
  counted := empty_counted _
  weighed := empty_weighed _
  maxSize := rfl
  defined := rfl

theorem enqueue (hchild : CoDelChild cfg child) (hfit : child.waiting.length + 1 < 2 ^ 32)
    (env : Env Unit) (item : QueueDiscItem) :
    let stored := child.enqueueChild (coDelQueueDisc cfg) env item
    CoDelChild cfg stored.state ∧
      ((∃ reason, stored.reports = [.dropBeforeEnqueue item reason] ∧
          stored.state.waiting = child.waiting) ∨
        stored.reports = [.packetEnqueued item] ∧
          stored.state.waiting = child.waiting ++ [item.toPacket]) := by
  obtain ⟨hholds, hcnt, hweigh, hmax, hdef⟩ := hchild
  have hgot := hholds.receive item
  rw [QueueDisc.waiting, length_packets] at hfit
  have hcases := doEnqueue_cases cfg env (child.base.receive item).occupancy
    item child.inner
  have hq := DropTailQueue.enqueue_of_fits hcnt hfit item
  simp only [QueueDisc.enqueueChild, QueueDisc.enqueue, coDelQueueDisc]
  rcases hcases with ⟨reason, hrefuse⟩ | ⟨hacc, hstored⟩
  · rw [hrefuse]
    refine ⟨⟨?_, hcnt, hweigh, hmax, hdef⟩, .inl ⟨_, rfl, rfl⟩⟩
    exact hgot.callbacks (by simp [enqueuedOf, dequeuedOf, QueueDisc.waiting])
  · rw [hstored]
    rcases hq with hfull | ⟨-, hcounts, hpkts, hbytes⟩
    · rw [hfull] at hacc
      cases hacc
    · refine ⟨⟨?_, hcounts, hweigh.append hpkts hbytes, ?_, hdef⟩, .inr ⟨rfl, ?_⟩⟩
      · apply hgot.callbacks
        simp [enqueuedOf, dequeuedOf, QueueDisc.waiting, hpkts]
      · rw [← hmax, DropTailQueue.enqueue]
        split
        · rfl
        · rfl
      · simp [QueueDisc.waiting, hpkts]

theorem dequeue (hchild : CoDelChild cfg child) (hmin : 1 ≤ cfg.minBytes) (env : Env Unit) :
    let served := child.dequeueChild (coDelQueueDisc cfg) env
    CoDelChild cfg served.state ∧
      (served.result.isSome = true ↔ child.waiting ≠ []) ∧
      (packets served.result.toList ++ served.state.waiting).Sublist child.waiting ∧
      enqueuedOf served.reports = [] ∧
      child.waiting.Perm (packets (dequeuedOf served.reports) ++ served.state.waiting) := by
  obtain ⟨hholds, hcnt, hweigh, hmax, hdef⟩ := hchild
  have htaken := doDequeue_taken env child.base.occupancy hcnt hmax
  obtain ⟨hsome, hweighs, hdefines⟩ :=
    doDequeue_serves hmin env child.base.occupancy hcnt hweigh hdef
  simp only [QueueDisc.dequeueChild, coDelQueueDisc, enqueuedOf_ofChild, dequeuedOf_ofChild]
  generalize doDequeue cfg env child.base.occupancy child.inner = outcome at *
  have hmoved : child.waiting.Perm (packets (dequeuedOf outcome.reports) ++
      packets outcome.state.queue.packets) := by
    have hcont := htaken.removes.contents.map Datagram.toPacket
    have hdeq := htaken.removes.dequeued.map Datagram.toPacket
    simp only [map_append, map_datagrams] at hcont hdeq
    refine hcont.trans ?_
    rw [append_assoc]
    exact (perm_append_comm).trans (hdeq.symm.append_right _)
  have henq : enqueuedOf outcome.reports = [] := htaken.removes.enqueued
  refine ⟨⟨?_, htaken.counted, hweighs, htaken.maxSize, hdefines⟩, ?_, ?_, henq, hmoved⟩
  · apply hholds.callbacks
    rw [henq, packets_nil, append_nil]
    exact hmoved
  · rw [hsome]
    simp [QueueDisc.waiting, packets]
  · have horder := htaken.order.map Datagram.toPacket
    rw [map_append, map_datagrams, map_datagrams, map_datagrams] at horder
    exact horder

theorem dequeueInternal (hchild : CoDelChild cfg child)
    {packet : Packet} {rest : List Packet} (hwait : child.waiting = packet :: rest) :
    ∃ item, item.toPacket = packet ∧ child.dequeueInternal.result = some item ∧
    child.dequeueInternal.reports = [.packetDequeued item] ∧
    child.dequeueInternal.state.waiting = rest ∧ CoDelChild cfg child.dequeueInternal.state := by
  obtain ⟨hholds, hcnt, hweigh, hmax, hdef⟩ := hchild
  cases hpkts : child.inner.queue.packets with
  | nil => simp [QueueDisc.waiting, hpkts] at hwait
  | cons item items =>
    obtain ⟨hitem, hcounts, hitems, hsame⟩ := dequeue_cons hcnt hpkts
    rw [QueueDisc.waiting, hpkts, packets_cons] at hwait
    obtain ⟨hhead, htail⟩ := cons.inj hwait
    refine ⟨item, hhead, hitem, ?_, ?_, ?_⟩
    · simp [QueueDisc.dequeueInternal, hitem]
    · simp [QueueDisc.dequeueInternal, QueueDisc.waiting, hitems, htail]
    · refine ⟨?_, hcounts, hweigh.dequeue hcnt, hsame.trans hmax, hdef⟩
      apply hholds.callbacks
      simp [QueueDisc.dequeueInternal, QueueDisc.waiting, hitem, hitems, hpkts, enqueuedOf,
        dequeuedOf]

end CoDelChild

end HomaSird.TrafficControl
