import HomaSird.Data.UnorderedMap
import HomaSird.TrafficControl.Queue
import HomaSird.Transition.Machine

/-! # The queue disc base class

`QueueDisc` keeps the counters, the statistics and the one slot that a requeued
or a peeked packet waits in, and it drives the transmission of packets to the
device. What a concrete queue disc adds is a `Discipline`. Assertions do not stop
the model, as they do not stop a release build.
-/

namespace HomaSird.TrafficControl

/-- What internal queues, child queue discs and the queue disc itself report to the base class
while a method runs. -/
inductive Callback
  | packetEnqueued (item : QueueDiscItem)
  | packetDequeued (item : QueueDiscItem)
  | dropBeforeEnqueue (item : QueueDiscItem) (reason : String)
  | dropAfterDequeue (item : QueueDiscItem) (reason : String)
  | mark (item : QueueDiscItem) (reason : String)
  deriving DecidableEq

def INTERNAL_QUEUE_DROP : String := "Dropped by internal queue"

structure Stats where
  nTotalReceivedPackets : Nat := 0
  nTotalReceivedBytes : Nat := 0
  nTotalSentPackets : Nat := 0
  nTotalSentBytes : Nat := 0
  nTotalEnqueuedPackets : Nat := 0
  nTotalEnqueuedBytes : Nat := 0
  nTotalDequeuedPackets : Nat := 0
  nTotalDequeuedBytes : Nat := 0
  nTotalDroppedPackets : Nat := 0
  nTotalDroppedPacketsBeforeEnqueue : Nat := 0
  nDroppedPacketsBeforeEnqueue : UnorderedMap String Nat := ∅
  nTotalDroppedPacketsAfterDequeue : Nat := 0
  nDroppedPacketsAfterDequeue : UnorderedMap String Nat := ∅
  nTotalDroppedBytes : Nat := 0
  nTotalDroppedBytesBeforeEnqueue : Nat := 0
  nDroppedBytesBeforeEnqueue : UnorderedMap String Nat := ∅
  nTotalDroppedBytesAfterDequeue : Nat := 0
  nDroppedBytesAfterDequeue : UnorderedMap String Nat := ∅
  nTotalRequeuedPackets : Nat := 0
  nTotalRequeuedBytes : Nat := 0
  nTotalMarkedPackets : Nat := 0
  nMarkedPackets : UnorderedMap String Nat := ∅
  nTotalMarkedBytes : Nat := 0
  nMarkedBytes : UnorderedMap String Nat := ∅

namespace Stats

def addPackets (counters : UnorderedMap String Nat) (reason : String) : UnorderedMap String Nat :=
  counters.insert reason (uint32 (UnorderedMap.getD counters reason 0 + 1))

def addBytes (counters : UnorderedMap String Nat) (reason : String) (size : Nat) :
    UnorderedMap String Nat :=
  counters.insert reason (uint64 (UnorderedMap.getD counters reason 0 + size))

def receive (stats : Stats) (size : Nat) : Stats :=
  { stats with
    nTotalReceivedPackets := uint32 (stats.nTotalReceivedPackets + 1)
    nTotalReceivedBytes := uint64 (stats.nTotalReceivedBytes + size) }

def enqueue (stats : Stats) (size : Nat) : Stats :=
  { stats with
    nTotalEnqueuedPackets := uint32 (stats.nTotalEnqueuedPackets + 1)
    nTotalEnqueuedBytes := uint64 (stats.nTotalEnqueuedBytes + size) }

def dequeue (stats : Stats) (size : Nat) : Stats :=
  { stats with
    nTotalDequeuedPackets := uint32 (stats.nTotalDequeuedPackets + 1)
    nTotalDequeuedBytes := uint64 (stats.nTotalDequeuedBytes + size) }

def dropBeforeEnqueue (stats : Stats) (size : Nat) (reason : String) : Stats :=
  { stats with
    nTotalDroppedPackets := uint32 (stats.nTotalDroppedPackets + 1)
    nTotalDroppedBytes := uint64 (stats.nTotalDroppedBytes + size)
    nTotalDroppedPacketsBeforeEnqueue := uint32 (stats.nTotalDroppedPacketsBeforeEnqueue + 1)
    nTotalDroppedBytesBeforeEnqueue := uint64 (stats.nTotalDroppedBytesBeforeEnqueue + size)
    nDroppedPacketsBeforeEnqueue := addPackets stats.nDroppedPacketsBeforeEnqueue reason
    nDroppedBytesBeforeEnqueue := addBytes stats.nDroppedBytesBeforeEnqueue reason size }

def dropAfterDequeue (stats : Stats) (size : Nat) (reason : String) : Stats :=
  { stats with
    nTotalDroppedPackets := uint32 (stats.nTotalDroppedPackets + 1)
    nTotalDroppedBytes := uint64 (stats.nTotalDroppedBytes + size)
    nTotalDroppedPacketsAfterDequeue := uint32 (stats.nTotalDroppedPacketsAfterDequeue + 1)
    nTotalDroppedBytesAfterDequeue := uint64 (stats.nTotalDroppedBytesAfterDequeue + size)
    nDroppedPacketsAfterDequeue := addPackets stats.nDroppedPacketsAfterDequeue reason
    nDroppedBytesAfterDequeue := addBytes stats.nDroppedBytesAfterDequeue reason size }

def mark (stats : Stats) (size : Nat) (reason : String) : Stats :=
  { stats with
    nTotalMarkedPackets := uint32 (stats.nTotalMarkedPackets + 1)
    nTotalMarkedBytes := uint64 (stats.nTotalMarkedBytes + size)
    nMarkedPackets := addPackets stats.nMarkedPackets reason
    nMarkedBytes := addBytes stats.nMarkedBytes reason size }

def requeue (stats : Stats) (size : Nat) : Stats :=
  { stats with
    nTotalRequeuedPackets := uint32 (stats.nTotalRequeuedPackets + 1)
    nTotalRequeuedBytes := uint64 (stats.nTotalRequeuedBytes + size) }

end Stats

structure NetDeviceQueueInterface where
  nTxQueues : Nat
  stopped : Nat → Bool

/-- What an observer of the queue disc sees, in order: the packets its methods
were given, its traces, what it sent to the device and returned to callers of
`Dequeue`, and both together. -/
structure Log where
  received : List QueueDiscItem := []
  enqueued : List QueueDiscItem := []
  dequeued : List QueueDiscItem := []
  droppedBeforeEnqueue : List (QueueDiscItem × String) := []
  droppedAfterDequeue : List QueueDiscItem := []
  sent : List QueueDiscItem := []
  returned : List QueueDiscItem := []
  handedOut : List QueueDiscItem := []

structure Base where
  nPackets : Nat := 0
  nBytes : Nat := 0
  stats : Stats := {}
  quota : Nat
  devQueueIface : Option NetDeviceQueueInterface
  requeued : Option QueueDiscItem := none
  running : Bool := false
  peeked : Bool := false
  log : Log := {}

/-- `GetNPackets` and `GetNBytes`, which a queue disc may read. -/
structure Occupancy where
  nPackets : Nat
  nBytes : Nat

namespace Base

def occupancy (base : Base) : Occupancy := ⟨base.nPackets, base.nBytes⟩

def requeuedPackets (base : Base) : Nat :=
  match base.requeued with
  | some _ => 1
  | none => 0

def requeuedBytes (base : Base) : Nat :=
  match base.requeued with
  | some item => item.size
  | none => 0

/-- The statistics with the sent figures that `GetStats` fills in when it is asked. -/
def getStats (base : Base) : Stats :=
  { base.stats with
    nTotalSentPackets := uint32OfInt ((base.stats.nTotalDequeuedPackets : Int)
      - base.requeuedPackets - base.stats.nTotalDroppedPacketsAfterDequeue)
    nTotalSentBytes := uint64OfInt ((base.stats.nTotalDequeuedBytes : Int)
      - base.requeuedBytes - base.stats.nTotalDroppedBytesAfterDequeue) }

/-- A packet given to `Enqueue`. -/
def receive (base : Base) (item : QueueDiscItem) : Base :=
  { base with
    stats := base.stats.receive item.size
    log := { base.log with received := base.log.received ++ [item] } }

def packetEnqueued (base : Base) (item : QueueDiscItem) : Base :=
  { base with
    nPackets := uint32 (base.nPackets + 1)
    nBytes := uint32 (base.nBytes + item.size)
    stats := base.stats.enqueue item.size
    log := { base.log with enqueued := base.log.enqueued ++ [item] } }

def packetDequeued (base : Base) (item : QueueDiscItem) : Base :=
  if base.peeked then base
  else { base with
    nPackets := uint32OfInt ((base.nPackets : Int) - 1)
    nBytes := uint32OfInt ((base.nBytes : Int) - item.size)
    stats := base.stats.dequeue item.size
    log := { base.log with dequeued := base.log.dequeued ++ [item] } }

def dropBeforeEnqueue (base : Base) (item : QueueDiscItem) (reason : String) : Base :=
  { base with
    stats := base.stats.dropBeforeEnqueue item.size reason
    log := { base.log with
      droppedBeforeEnqueue := base.log.droppedBeforeEnqueue ++ [(item, reason)] } }

def dropAfterDequeue (base : Base) (item : QueueDiscItem) (reason : String) : Base :=
  let counted := { base with stats := base.stats.dropAfterDequeue item.size reason }
  -- in a peek the dequeue of a dropped packet is counted here
  let dequeued :=
    if counted.peeked then
      { packetDequeued { counted with peeked := false } item with peeked := true }
    else counted
  { dequeued with log := { dequeued.log with
    droppedAfterDequeue := dequeued.log.droppedAfterDequeue ++ [item] } }

/-- `Mark`, once the item has accepted the mark. -/
def mark (base : Base) (item : QueueDiscItem) (reason : String) : Base :=
  { base with stats := base.stats.mark item.size reason }

def callback (base : Base) : Callback → Base
  | .packetEnqueued item => base.packetEnqueued item
  | .packetDequeued item => base.packetDequeued item
  | .dropBeforeEnqueue item reason => base.dropBeforeEnqueue item reason
  | .dropAfterDequeue item reason => base.dropAfterDequeue item reason
  | .mark item reason => base.mark item reason

def callbacks (base : Base) (reports : List Callback) : Base :=
  reports.foldl callback base

/-- Empty the slot; a packet that a peek left there is counted as dequeued now. -/
def takeRequeued (base : Base) (item : QueueDiscItem) : Base :=
  if base.peeked then packetDequeued { base with requeued := none, peeked := false } item
  else { base with requeued := none }

def requeue (base : Base) (item : QueueDiscItem) : Base :=
  { base with requeued := some item, stats := base.stats.requeue item.size }

def isStopped (base : Base) (txQueueIndex : Nat) : Bool :=
  match base.devQueueIface with
  | some iface => iface.stopped txQueueIndex
  | none => false

/-- `DequeuePacket` asks for a fresh packet only when a single device queue runs. -/
def mayDequeue (base : Base) : Bool :=
  match base.devQueueIface with
  | some iface => decide (iface.nTxQueues > 1) || !iface.stopped 0
  | none => true

def setStopped (base : Base) (stopped : Nat → Bool) : Base :=
  { base with devQueueIface :=
    base.devQueueIface.map fun iface => { iface with stopped := stopped } }

def send (base : Base) (item : QueueDiscItem) : Base :=
  { base with log := { base.log with
    sent := base.log.sent ++ [item], handedOut := base.log.handedOut ++ [item] } }

end Base

/-- What a method does: its result, its own state afterwards and what it reported to the base
class. -/
structure Outcome (State Result : Type) where
  result : Result
  state : State
  reports : List Callback

/-- Time, and whatever else a queue disc draws on in one call. -/
structure Env (Chance : Type) where
  now : Nat
  chance : Chance

/-- A concrete queue disc; `doPeek` is none where it keeps the base class's. -/
structure Discipline (State Chance : Type) where
  init : State
  doEnqueue : Env Chance → Occupancy → QueueDiscItem → State → Outcome State Bool
  doDequeue : Env Chance → Occupancy → State → Outcome State (Option QueueDiscItem)
  doPeek : Option (Env Chance → Occupancy → State → Outcome State (Option QueueDiscItem))

structure QueueDisc (State : Type) where
  base : Base
  inner : State

/-- What happens around a packet of a `Run`: the draw of its dequeue, and the device queues stopped
once it is sent. -/
structure Round (Chance : Type) where
  env : Env Chance
  stoppedAfter : Nat → Bool

/-- The item `Enqueue` is given, without a header. It is stamped with the time when `DoEnqueue`
accepts it. -/
def QueueDiscItem.arriving (now : Nat) (packet : Packet) (dsField : Option UInt8) :
    QueueDiscItem where
  toPacket := packet
  headersAdded := 0
  dsField
  timeStamp := now

namespace QueueDisc

variable {State Chance : Type} (disc : Discipline State Chance)

def init (quota : Nat) (iface : Option NetDeviceQueueInterface) : QueueDisc State where
  base := { quota, devQueueIface := iface }
  inner := disc.init

def enqueue (self : QueueDisc State) (env : Env Chance) (item : QueueDiscItem) :
    Bool × QueueDisc State :=
  let received := self.base.receive item
  let outcome := disc.doEnqueue env received.occupancy item self.inner
  (outcome.result, ⟨received.callbacks outcome.reports, outcome.state⟩)

def dequeue (self : QueueDisc State) (env : Env Chance) :
    Option QueueDiscItem × QueueDisc State :=
  match self.base.requeued with
  | some item => (some item, { self with base := self.base.takeRequeued item })
  | none =>
    let outcome := disc.doDequeue env self.base.occupancy self.inner
    (outcome.result, ⟨self.base.callbacks outcome.reports, outcome.state⟩)

theorem dequeue_of_none {self : QueueDisc State} (hnone : self.base.requeued = none)
    (env : Env Chance) :
    self.dequeue disc env = ((disc.doDequeue env self.base.occupancy self.inner).result,
        ⟨self.base.callbacks (disc.doDequeue env self.base.occupancy self.inner).reports,
          (disc.doDequeue env self.base.occupancy self.inner).state⟩) := by
  rw [dequeue, hnone]

theorem dequeue_of_some {self : QueueDisc State} {item : QueueDiscItem}
    (hsome : self.base.requeued = some item) (env : Env Chance) :
    self.dequeue disc env = (some item, { self with base := self.base.takeRequeued item }) := by
  rw [dequeue, hsome]

/-- The base class's `DoPeek`: dequeue a packet and keep it in the slot. -/
def doPeek (self : QueueDisc State) (env : Env Chance) :
    Option QueueDiscItem × QueueDisc State :=
  match self.base.requeued with
  | some item => (some item, self)
  | none =>
    let taken := dequeue disc { self with base := { self.base with peeked := true } } env
    (taken.1, { taken.2 with base :=
      { taken.2.base with requeued := taken.1, peeked := taken.1.isSome } })

def peek (self : QueueDisc State) (env : Env Chance) :
    Option QueueDiscItem × QueueDisc State :=
  match disc.doPeek with
  | none => self.doPeek disc env
  | some peekOwn =>
    let outcome := peekOwn env self.base.occupancy self.inner
    (outcome.result, ⟨self.base.callbacks outcome.reports, outcome.state⟩)

def dequeuePacket (self : QueueDisc State) (env : Env Chance) :
    Option QueueDiscItem × QueueDisc State :=
  match self.base.requeued with
  | some item =>
    if self.base.isStopped item.txQueueIndex then (none, self)
    else (some item, { self with base := self.base.takeRequeued item })
  | none =>
    if self.base.mayDequeue then
      let taken := self.dequeue disc env
      (taken.1.map QueueDiscItem.addHeader, taken.2)
    else (none, self)

/-- Send the packet, or keep it while its device queue is stopped. True when `Run` is to go on. -/
def transmit (self : QueueDisc State) (item : QueueDiscItem) (stoppedAfter : Nat → Bool) :
    Bool × QueueDisc State :=
  if self.base.isStopped item.txQueueIndex then
    (false, { self with base := self.base.requeue item })
  else
    let base := (self.base.send item).setStopped stoppedAfter
    (!(base.nPackets == 0 || base.isStopped item.txQueueIndex), { self with base })

def restart (self : QueueDisc State) (round : Round Chance) : Bool × QueueDisc State :=
  let taken := self.dequeuePacket disc round.env
  match taken.1 with
  | none => (false, taken.2)
  | some item => taken.2.transmit item round.stoppedAfter

/-- The loop of `Run` with the number of restarts its quota allows. -/
def restarts (rounds : Nat → Round Chance) : Nat → QueueDisc State → QueueDisc State
  | 0, self => self
  | remaining + 1, self =>
    let restarted := self.restart disc (rounds remaining)
    if restarted.1 then restarts rounds remaining restarted.2 else restarted.2

/-- The unsigned quota is decremented before the test, so zero allows as many restarts as the word
has values. -/
def restartLimit (quota : Nat) : Nat := uint32OfInt ((quota : Int) - 1) + 1

def run (self : QueueDisc State) (rounds : Nat → Round Chance) : QueueDisc State :=
  if self.base.running then self
  else
    let ran := restarts disc rounds (restartLimit self.base.quota)
      { self with base := { self.base with running := true } }
    { ran with base := { ran.base with running := false } }

/-- A packet returned to a caller of `Dequeue` is handed out. -/
def handOut (self : QueueDisc State) (item : Option QueueDiscItem) : QueueDisc State :=
  { self with base := { self.base with log := { self.base.log with
    returned := self.base.log.returned ++ item.toList
    handedOut := self.base.log.handedOut ++ item.toList } } }

end QueueDisc

/-- The calls a queue disc receives, with what the device does in between. -/
inductive Call (Chance : Type)
  | enqueue (env : Env Chance) (packet : Packet) (dsField : Option UInt8)
  | dequeue (env : Env Chance)
  | peek (env : Env Chance)
  | run (rounds : Nat → Round Chance)
  | setStopped (stopped : Nat → Bool)

inductive Answer
  | accepted (ok : Bool)
  | packet (item : Option QueueDiscItem)
  | done
  deriving DecidableEq

namespace QueueDisc

variable {State Chance : Type} (disc : Discipline State Chance)

def call (self : QueueDisc State) : Call Chance → Answer × QueueDisc State
  | .enqueue env packet dsField =>
    let result := self.enqueue disc env (.arriving env.now packet dsField)
    (.accepted result.1, result.2)
  | .dequeue env =>
    let result := self.dequeue disc env
    (.packet result.1, result.2.handOut result.1)
  | .peek env =>
    let result := self.peek disc env
    (.packet result.1, result.2)
  | .run rounds => (.done, self.run disc rounds)
  | .setStopped stopped => (.done, { self with base := self.base.setStopped stopped })

def calls : List (Call Chance) → QueueDisc State → List Answer × QueueDisc State
  | [], self => ([], self)
  | first :: rest, self =>
    let answered := self.call disc first
    let later := calls rest answered.2
    (answered.1 :: later.1, later.2)

def machine (quota : Nat) (iface : Option NetDeviceQueueInterface) :
    Transition.Machine (QueueDisc State) (Call Chance) Empty where
  init := init disc quota iface
  step self input := .ok (self.call disc input).2

end QueueDisc

end HomaSird.TrafficControl
