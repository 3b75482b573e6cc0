import HomaSird.TrafficControl.QueueDisc

/-! # What the base class relies on, and what its counters then say

Every packet a queue disc accepts is reported once, and so is every packet it
lets go of: dequeued when it is returned, dequeued and dropped when it is not.
A `Contract` states this about the packets a queue disc holds. The counters of
the base class only change with the reports, whatever the queue disc does.
-/

namespace HomaSird.TrafficControl

open List

def packets (items : List QueueDiscItem) : List Packet := items.map (·.toPacket)

def datagrams (items : List QueueDiscItem) : List Datagram := items.map (·.toDatagram)

def bytes (waiting : List Packet) : Nat := (waiting.map Packet.size).sum

@[simp] theorem packets_nil : packets [] = [] := rfl

@[simp] theorem packets_cons (item : QueueDiscItem) (items : List QueueDiscItem) :
    packets (item :: items) = item.toPacket :: packets items := rfl

@[simp] theorem packets_append (first second : List QueueDiscItem) :
    packets (first ++ second) = packets first ++ packets second := map_append

@[simp] theorem length_packets (items : List QueueDiscItem) :
    (packets items).length = items.length := length_map _

theorem map_datagrams (items : List QueueDiscItem) :
    (datagrams items).map Datagram.toPacket = packets items := by
  simp [datagrams, packets]

@[simp] theorem bytes_append (first second : List Packet) :
    bytes (first ++ second) = bytes first + bytes second := by
  simp [bytes]

@[simp] theorem bytes_cons (packet : Packet) (waiting : List Packet) :
    bytes (packet :: waiting) = packet.size + bytes waiting := rfl

@[simp] theorem bytes_nil : bytes [] = 0 := rfl

theorem bytes_perm {first second : List Packet} (hperm : first.Perm second) :
    bytes first = bytes second := (hperm.map _).sum_eq

namespace Callback

def enqueuedOf (reports : List Callback) : List QueueDiscItem :=
  reports.filterMap fun
    | .packetEnqueued item => some item
    | _ => none

def dequeuedOf (reports : List Callback) : List QueueDiscItem :=
  reports.filterMap fun
    | .packetDequeued item => some item
    | _ => none

def droppedBeforeOf (reports : List Callback) : List (QueueDiscItem × String) :=
  reports.filterMap fun
    | .dropBeforeEnqueue item reason => some (item, reason)
    | _ => none

def droppedAfterOf (reports : List Callback) : List QueueDiscItem :=
  reports.filterMap fun
    | .dropAfterDequeue item _ => some item
    | _ => none

/-- The packets whose dequeue the base class counts: during a peek, and of a held packet, those
dropped. -/
def countedOf (peeked : Bool) (reports : List Callback) : List QueueDiscItem :=
  if peeked then droppedAfterOf reports else dequeuedOf reports

end Callback

open Callback

namespace Base

theorem callbacks_log (base : Base) (reports : List Callback) :
    (base.callbacks reports).log = { base.log with
      enqueued := base.log.enqueued ++ enqueuedOf reports
      dequeued := base.log.dequeued ++ countedOf base.peeked reports
      droppedBeforeEnqueue := base.log.droppedBeforeEnqueue ++ droppedBeforeOf reports
      droppedAfterDequeue := base.log.droppedAfterDequeue ++ droppedAfterOf reports } := by
  induction reports generalizing base with
  | nil => simp [callbacks, enqueuedOf, countedOf, dequeuedOf, droppedBeforeOf, droppedAfterOf]
  | cons report later ih =>
    have hlater := ih (base.callback report)
    simp only [callbacks, foldl_cons] at hlater ⊢
    rw [hlater]
    cases report <;> cases hpeeked : base.peeked <;>
      simp [callback, packetEnqueued, packetDequeued, dropBeforeEnqueue, dropAfterDequeue, mark,
        hpeeked, enqueuedOf, countedOf, dequeuedOf, droppedBeforeOf, droppedAfterOf]

theorem callbacks_frame (base : Base) (reports : List Callback) :
    (base.callbacks reports).requeued = base.requeued ∧
      (base.callbacks reports).peeked = base.peeked ∧
      (base.callbacks reports).running = base.running ∧
      (base.callbacks reports).quota = base.quota ∧
      (base.callbacks reports).devQueueIface = base.devQueueIface := by
  induction reports generalizing base with
  | nil => exact ⟨rfl, rfl, rfl, rfl, rfl⟩
  | cons report later ih =>
    have hlater := ih (base.callback report)
    simp only [callbacks, foldl_cons] at hlater ⊢
    rw [hlater.1, hlater.2.1, hlater.2.2.1, hlater.2.2.2.1, hlater.2.2.2.2]
    cases report <;> cases hpeeked : base.peeked <;>
      simp [callback, packetEnqueued, packetDequeued, dropBeforeEnqueue, dropAfterDequeue, mark,
        hpeeked]

structure Counted (base : Base) : Prop where
  received : base.stats.nTotalReceivedPackets = uint32 base.log.received.length
  receivedBytes : base.stats.nTotalReceivedBytes = uint64 (bytes (packets base.log.received))
  enqueued : base.stats.nTotalEnqueuedPackets = uint32 base.log.enqueued.length
  enqueuedBytes : base.stats.nTotalEnqueuedBytes = uint64 (bytes (packets base.log.enqueued))
  dequeued : base.stats.nTotalDequeuedPackets = uint32 base.log.dequeued.length
  dequeuedBytes : base.stats.nTotalDequeuedBytes = uint64 (bytes (packets base.log.dequeued))
  refused : base.stats.nTotalDroppedPacketsBeforeEnqueue =
    uint32 base.log.droppedBeforeEnqueue.length
  refusedBytes : base.stats.nTotalDroppedBytesBeforeEnqueue =
    uint64 (bytes (packets (base.log.droppedBeforeEnqueue.map Prod.fst)))
  dropped : base.stats.nTotalDroppedPacketsAfterDequeue =
    uint32 base.log.droppedAfterDequeue.length
  droppedBytes : base.stats.nTotalDroppedBytesAfterDequeue =
    uint64 (bytes (packets base.log.droppedAfterDequeue))
  nPackets : base.nPackets =
    uint32OfInt ((base.log.enqueued.length : Int) - base.log.dequeued.length)
  nBytes : base.nBytes = uint32OfInt ((bytes (packets base.log.enqueued) : Int)
    - bytes (packets base.log.dequeued))

namespace Counted

variable {base : Base}

theorem receive (hcnt : base.Counted) (item : QueueDiscItem) : (base.receive item).Counted where
  __ := hcnt
  received := by
    simp only [Base.receive, Stats.receive, hcnt.received, uint32_add, length_append,
      length_singleton]
  receivedBytes := by
    simp only [Base.receive, Stats.receive, hcnt.receivedBytes, uint64_add, packets_append,
      bytes_append, packets_cons, packets_nil, bytes_cons, bytes_nil, add_zero]

theorem packetEnqueued (hcnt : base.Counted) (item : QueueDiscItem) :
    (base.packetEnqueued item).Counted where
  __ := hcnt
  enqueued := by
    simp only [Base.packetEnqueued, Stats.enqueue, hcnt.enqueued, uint32_add,
      length_append, length_singleton]
  enqueuedBytes := by
    simp only [Base.packetEnqueued, Stats.enqueue, hcnt.enqueuedBytes, uint64_add,
      packets_append, bytes_append, packets_cons, packets_nil, bytes_cons, bytes_nil, add_zero]
  nPackets := by
    simp only [Base.packetEnqueued, hcnt.nPackets, length_append,
      length_singleton, uint32, uint32OfInt]
    omega
  nBytes := by
    simp only [Base.packetEnqueued, hcnt.nBytes, packets_append, bytes_append, packets_cons,
      packets_nil, bytes_cons, bytes_nil, uint32, uint32OfInt]
    omega

theorem packetDequeued (hcnt : base.Counted) (item : QueueDiscItem) :
    (base.packetDequeued item).Counted := by
  unfold Base.packetDequeued
  split
  · exact hcnt
  · exact
      { hcnt with
        dequeued := by
          simp only [Stats.dequeue, hcnt.dequeued, uint32_add, length_append, length_singleton]
        dequeuedBytes := by
          simp only [Stats.dequeue, hcnt.dequeuedBytes, uint64_add, packets_append,
            bytes_append, packets_cons, packets_nil, bytes_cons, bytes_nil, add_zero]
        nPackets := by
          simp only [hcnt.nPackets, length_append, length_singleton, uint32OfInt]
          omega
        nBytes := by
          simp only [hcnt.nBytes, packets_append, bytes_append, packets_cons, packets_nil,
            bytes_cons, bytes_nil, uint32OfInt]
          omega }

theorem dropBeforeEnqueue (hcnt : base.Counted) (item : QueueDiscItem) (reason : String) :
    (base.dropBeforeEnqueue item reason).Counted where
  __ := hcnt
  refused := by
    simp only [Base.dropBeforeEnqueue, Stats.dropBeforeEnqueue, hcnt.refused, uint32_add,
      length_append, length_singleton]
  refusedBytes := by
    simp only [Base.dropBeforeEnqueue, Stats.dropBeforeEnqueue, hcnt.refusedBytes, uint64_add,
      map_append, map_cons, map_nil, packets_append, bytes_append, packets_cons,
      packets_nil, bytes_cons, bytes_nil, add_zero]

theorem mark (hcnt : base.Counted) (item : QueueDiscItem) (reason : String) :
    (base.mark item reason).Counted where
  __ := hcnt

section

variable (hcnt : base.Counted)
include hcnt

theorem slot (requeued : Option QueueDiscItem)
    (peeked : Bool) : Counted { base with requeued := requeued, peeked := peeked } where
  __ := hcnt

theorem dropAfterDequeue_unpeeked (hpeeked : base.peeked = false)
    (item : QueueDiscItem) (reason : String) : (base.dropAfterDequeue item reason).Counted := by
  simp only [Base.dropAfterDequeue, hpeeked, Bool.false_eq_true, if_false]
  exact
    { hcnt with
      dropped := by
        simp only [Stats.dropAfterDequeue, hcnt.dropped, uint32_add, length_append,
          length_singleton]
      droppedBytes := by
        simp only [Stats.dropAfterDequeue, hcnt.droppedBytes, uint64_add, packets_append,
          bytes_append, packets_cons, packets_nil, bytes_cons, bytes_nil, add_zero] }

theorem dropAfterDequeue
    (item : QueueDiscItem) (reason : String) : (base.dropAfterDequeue item reason).Counted := by
  cases hpeeked : base.peeked with
  | false => exact hcnt.dropAfterDequeue_unpeeked hpeeked item reason
  | true =>
    -- in a peek the drop is a dequeue and a drop outside of a peek
    have houtside : (base.dropAfterDequeue item reason) =
        { (Base.packetDequeued { base with peeked := false } item).dropAfterDequeue item reason
          with requeued := base.requeued, peeked := true } := by
      simp [Base.dropAfterDequeue, Base.packetDequeued, hpeeked, Stats.dropAfterDequeue,
        Stats.dequeue]
    rw [houtside]
    apply slot
    apply dropAfterDequeue_unpeeked
    · exact (hcnt.slot base.requeued false).packetDequeued item
    · simp [Base.packetDequeued]

theorem callbacks (reports : List Callback) : (base.callbacks reports).Counted := by
  induction reports generalizing base with
  | nil => exact hcnt
  | cons report later ih =>
    have hnext : (base.callback report).Counted := by
      cases report with
      | packetEnqueued item => exact hcnt.packetEnqueued item
      | packetDequeued item => exact hcnt.packetDequeued item
      | dropBeforeEnqueue item reason => exact hcnt.dropBeforeEnqueue item reason
      | dropAfterDequeue item reason => exact hcnt.dropAfterDequeue item reason
      | mark item reason => exact hcnt.mark item reason
    exact ih hnext

theorem takeRequeued (item : QueueDiscItem) : (base.takeRequeued item).Counted := by
  unfold Base.takeRequeued
  split
  · exact (hcnt.slot none false).packetDequeued item
  · exact hcnt.slot none base.peeked

end

end Counted

end Base

/-- What a method that may take packets out reports, between those held before and after it and
those returned. -/
structure Removes (before after : List Datagram) (taken : List QueueDiscItem)
    (reports : List Callback) : Prop where
  enqueued : enqueuedOf reports = []
  refused : droppedBeforeOf reports = []
  dequeued : (datagrams (dequeuedOf reports)).Perm
    (datagrams (droppedAfterOf reports) ++ datagrams taken)
  contents : before.Perm (after ++ datagrams (droppedAfterOf reports) ++ datagrams taken)

/-- A stored item is enqueued or dropped before that, and other packets may be dropped to make
room. -/
structure Stores (before after : List Datagram) (item : QueueDiscItem) (accepted : Bool)
    (reports : List Callback) : Prop where
  enqueued : enqueuedOf reports = if accepted then [item] else []
  refused : (droppedBeforeOf reports).map Prod.fst = if accepted then [] else [item]
  dequeued : (datagrams (dequeuedOf reports)).Perm (datagrams (droppedAfterOf reports))
  contents : (before ++ datagrams (enqueuedOf reports)).Perm
    (after ++ datagrams (droppedAfterOf reports))

variable {State Chance : Type}

/-- The packets of a queue disc, its states, and what its methods report about them. -/
structure Contract (disc : Discipline State Chance) where
  contents : State → List Datagram
  Valid : State → Prop
  init_valid : Valid disc.init
  init_contents : contents disc.init = []
  enqueue_valid : ∀ env occupancy item state, Valid state →
    Valid (disc.doEnqueue env occupancy item state).state
  enqueue_stores : ∀ env occupancy item state, Valid state →
    let outcome := disc.doEnqueue env occupancy item state
    Stores (contents state) (contents outcome.state) item outcome.result outcome.reports
  dequeue_valid : ∀ env occupancy state, Valid state →
    Valid (disc.doDequeue env occupancy state).state
  dequeue_removes : ∀ env occupancy state, Valid state →
    let outcome := disc.doDequeue env occupancy state
    Removes (contents state) (contents outcome.state) outcome.result.toList outcome.reports
  peek_valid : ∀ peekOwn, disc.doPeek = some peekOwn → ∀ env occupancy state, Valid state →
    Valid (peekOwn env occupancy state).state
  peek_removes : ∀ peekOwn, disc.doPeek = some peekOwn → ∀ env occupancy state, Valid state →
    let outcome := peekOwn env occupancy state
    Removes (contents state) (contents outcome.state) [] outcome.reports

/-- A queue disc that stores at the tail and takes from the head, whatever it
drops on the way. -/
structure Contract.Fifo {disc : Discipline State Chance} (contract : Contract disc) : Prop where
  enqueue : ∀ env occupancy item state, contract.Valid state →
    let outcome := disc.doEnqueue env occupancy item state
    (contract.contents outcome.state).Sublist
      (contract.contents state ++ datagrams (enqueuedOf outcome.reports))
  dequeue : ∀ env occupancy state, contract.Valid state →
    let outcome := disc.doDequeue env occupancy state
    (datagrams outcome.result.toList ++ contract.contents outcome.state).Sublist
      (contract.contents state)
  peek : ∀ peekOwn, disc.doPeek = some peekOwn → ∀ env occupancy state, contract.Valid state →
    (contract.contents (peekOwn env occupancy state).state).Sublist (contract.contents state)

end HomaSird.TrafficControl
