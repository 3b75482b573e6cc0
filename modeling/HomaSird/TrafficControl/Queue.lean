import HomaSird.Data.Word

/-! # Queue sizes, queue disc items and drop-tail queues

The items a queue disc keeps and the internal queues it keeps them in. A packet
is what nothing in the layer changes; the header that `AddHeader` prepends is
counted, so that a packet sent without it or with two of them can be told apart.
-/

namespace HomaSird.TrafficControl

inductive QueueSizeUnit
  | packets
  | bytes
  deriving DecidableEq

structure QueueSize where
  unit : QueueSizeUnit
  value : Nat
  deriving DecidableEq

/-- The identity of a packet, its size with its header, and its device transmission queue. -/
structure Packet where
  uid : Nat
  size : Nat
  txQueueIndex : Nat
  deriving DecidableEq

structure Datagram extends Packet where
  headersAdded : Nat
  deriving DecidableEq

/-- `dsField` is the TOS byte that `GetUint8Value` reads, if the item has one. -/
structure QueueDiscItem extends Datagram where
  dsField : Option UInt8
  timeStamp : Nat
  deriving DecidableEq

/-- `AddHeader`: the size already counts the header. -/
def QueueDiscItem.addHeader (item : QueueDiscItem) : QueueDiscItem :=
  { item with headersAdded := item.headersAdded + 1 }

@[simp] theorem QueueDiscItem.addHeader_toPacket (item : QueueDiscItem) :
    item.addHeader.toPacket = item.toPacket := rfl

@[simp] theorem QueueDiscItem.addHeader_headersAdded (item : QueueDiscItem) :
    item.addHeader.headersAdded = item.headersAdded + 1 := rfl

/-- `Mark`: an ECN capable item without its header takes the CE codepoint. -/
def QueueDiscItem.mark (item : QueueDiscItem) : Option QueueDiscItem :=
  match item.dsField with
  | some dsField =>
    if item.headersAdded = 0 ∧ dsField &&& 3 ≠ 0 then
      some { item with dsField := some (dsField ||| 3) }
    else none
  | none => none

theorem QueueDiscItem.mark_toDatagram {item marked : QueueDiscItem}
    (hmark : item.mark = some marked) : marked.toDatagram = item.toDatagram := by
  unfold QueueDiscItem.mark at hmark
  split at hmark
  · split at hmark
    · rw [← Option.some.inj hmark]
    · cases hmark
  · cases hmark

namespace QueueSize

def add (current : QueueSize) (size : Nat) : QueueSize :=
  match current.unit with
  | .packets => ⟨.packets, uint32 (current.value + 1)⟩
  | .bytes => ⟨.bytes, uint32 (current.value + size)⟩

def current (limit : QueueSize) (nPackets nBytes : Nat) : QueueSize :=
  match limit.unit with
  | .packets => ⟨.packets, nPackets⟩
  | .bytes => ⟨.bytes, nBytes⟩

end QueueSize

/-- `m_packets` with the counters the queue keeps of it. -/
structure DropTailQueue where
  maxSize : QueueSize
  packets : List QueueDiscItem
  nPackets : Nat
  nBytes : Nat
  deriving DecidableEq

namespace DropTailQueue

def empty (maxSize : QueueSize) : DropTailQueue where
  maxSize
  packets := []
  nPackets := 0
  nBytes := 0

/-- `Queue::GetCurrentSize`. -/
def getCurrentSize (queue : DropTailQueue) : QueueSize :=
  queue.maxSize.current queue.nPackets queue.nBytes

/-- `Queue::DoEnqueue` at the end of the list: false when the item was dropped. -/
def enqueue (queue : DropTailQueue) (item : QueueDiscItem) : Bool × DropTailQueue :=
  if (queue.getCurrentSize.add item.size).value > queue.maxSize.value then (false, queue)
  else (true, { queue with
    packets := queue.packets ++ [item]
    nPackets := uint32 (queue.nPackets + 1)
    nBytes := uint32 (queue.nBytes + item.size) })

/-- `Queue::DoDequeue` at the head of the list, which the packet counter guards. -/
def dequeue (queue : DropTailQueue) : Option QueueDiscItem × DropTailQueue :=
  if queue.nPackets = 0 then (none, queue)
  else
    match queue.packets with
    | [] => (none, queue)
    | item :: rest => (some item, { queue with
        packets := rest
        nPackets := uint32OfInt ((queue.nPackets : Int) - 1)
        nBytes := uint32OfInt ((queue.nBytes : Int) - item.size) })

/-- `Queue::DoPeek`. -/
def peek (queue : DropTailQueue) : Option QueueDiscItem :=
  if queue.nPackets = 0 then none else queue.packets.head?

structure Counted (queue : DropTailQueue) : Prop where
  nPackets : queue.nPackets = queue.packets.length
  fits : queue.packets.length < 2 ^ 32

variable {queue : DropTailQueue}

theorem empty_counted (maxSize : QueueSize) : (empty maxSize).Counted where
  nPackets := rfl
  fits := by simp [empty]

theorem enqueue_of_room (hcnt : queue.Counted) (hunit : queue.maxSize.unit = .packets)
    (hroom : queue.packets.length < queue.maxSize.value) (hfit : queue.packets.length + 1 < 2 ^ 32)
    (item : QueueDiscItem) :
    (queue.enqueue item).1 = true ∧ (queue.enqueue item).2.Counted ∧
      (queue.enqueue item).2.packets = queue.packets ++ [item] ∧
      (queue.enqueue item).2.maxSize = queue.maxSize := by
  have hcur : (queue.getCurrentSize.add item.size).value = queue.packets.length + 1 := by
    simp only [getCurrentSize, QueueSize.current, QueueSize.add, hunit, hcnt.nPackets]
    exact uint32_of_lt (by omega)
  have hfits : ¬ (queue.getCurrentSize.add item.size).value > queue.maxSize.value := by
    omega
  have hmore : uint32 (queue.nPackets + 1) = queue.packets.length + 1 := by
    rw [hcnt.nPackets]
    exact uint32_of_lt (by omega)
  rw [enqueue, if_neg hfits]
  refine ⟨rfl, ⟨?_, ?_⟩, rfl, rfl⟩
  · simp [hmore]
  · simp only [List.length_append, List.length_singleton]
    omega

theorem enqueue_cases (hcnt : queue.Counted) (hunit : queue.maxSize.unit = .packets)
    (hfull : queue.packets.length ≤ queue.maxSize.value) (hlim : queue.maxSize.value + 1 < 2 ^ 32)
    (item : QueueDiscItem) :
    queue.enqueue item = (false, queue) ∨
      (queue.enqueue item).1 = true ∧ (queue.enqueue item).2.Counted ∧
        (queue.enqueue item).2.packets = queue.packets ++ [item] ∧
        (queue.enqueue item).2.maxSize = queue.maxSize ∧
        (queue.packets ++ [item]).length ≤ queue.maxSize.value := by
  by_cases hroom : queue.packets.length < queue.maxSize.value
  · obtain ⟨hacc, hcounts, hpkts, hmax⟩ := enqueue_of_room hcnt hunit hroom (by omega) item
    refine .inr ⟨hacc, hcounts, hpkts, hmax, ?_⟩
    rw [List.length_append, List.length_singleton]
    exact hroom
  · left
    have hcur : (queue.getCurrentSize.add item.size).value = queue.packets.length + 1 := by
      simp only [getCurrentSize, QueueSize.current, QueueSize.add, hunit, hcnt.nPackets]
      exact uint32_of_lt (by omega)
    rw [enqueue, if_pos (by omega)]

theorem dequeue_nil (hcnt : queue.Counted)
    (hpkts : queue.packets = []) : queue.dequeue = (none, queue) := by
  have hzero : queue.nPackets = 0 := by simp [hcnt.nPackets, hpkts]
  rw [dequeue, if_pos hzero]

theorem dequeue_append (queue : DropTailQueue) :
    queue.dequeue.1.toList ++ queue.dequeue.2.packets = queue.packets := by
  unfold dequeue
  split
  · rfl
  · cases hpkts : queue.packets with
    | nil => exact hpkts
    | cons item rest => rfl

theorem dequeue_cons (hcounted : queue.Counted) {item : QueueDiscItem} {rest : List QueueDiscItem}
    (hpkts : queue.packets = item :: rest) :
    queue.dequeue.1 = some item ∧ queue.dequeue.2.Counted ∧ queue.dequeue.2.packets = rest ∧
      queue.dequeue.2.maxSize = queue.maxSize := by
  have hfits := hcounted.fits
  have hcnt : queue.nPackets = rest.length + 1 := by simp [hcounted.nPackets, hpkts]
  have hless : uint32OfInt ((queue.nPackets : Int) - 1) = rest.length := by
    rw [hpkts, List.length_cons] at hfits
    rw [hcnt, uint32OfInt]
    omega
  rw [dequeue, if_neg (by omega), hpkts]
  refine ⟨rfl, ⟨hless, ?_⟩, rfl, rfl⟩
  rw [hpkts, List.length_cons] at hfits
  exact Nat.lt_of_succ_lt hfits

theorem dequeue_fst (hcnt : queue.Counted) : queue.dequeue.1 = queue.packets.head? := by
  cases hpkts : queue.packets with
  | nil => rw [dequeue_nil hcnt hpkts]; rfl
  | cons item rest => exact (dequeue_cons hcnt hpkts).1

theorem peek_eq (hcnt : queue.Counted) : queue.peek = queue.packets.head? := by
  rw [peek]
  split
  next hzero =>
    rw [hcnt.nPackets] at hzero
    rw [List.length_eq_zero_iff.mp hzero]
    rfl
  · rfl

end DropTailQueue

end HomaSird.TrafficControl
