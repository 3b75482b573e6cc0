import HomaSird.TrafficControl.QueueDisc
import Mathlib.Data.Int.Bitwise
import Mathlib.Data.Rat.Floor

/-! # `FifoQueueDisc` and `TbfQueueDisc`

The token bucket filter keeps its packets in one child queue disc, a FIFO unless another one
is attached, and lets the packet that the child shows out when there are enough tokens for
it. Tokens are counted when they are needed, from the time of the last packet let out.
Products of a rate and a time are exact. Times are in nanoseconds.
-/

namespace HomaSird.TrafficControl

/-! ## The FIFO -/

namespace FifoQueueDisc

def LIMIT_EXCEEDED_DROP : String := "Queue disc limit exceeded"

def doEnqueue (maxSize : QueueSize) (_env : Env Unit) (occupancy : Occupancy)
    (item : QueueDiscItem) (queue : DropTailQueue) : Outcome DropTailQueue Bool :=
  let current := maxSize.current occupancy.nPackets occupancy.nBytes
  if (current.add item.size).value > maxSize.value then
    ⟨false, queue, [.dropBeforeEnqueue item LIMIT_EXCEEDED_DROP]⟩
  else
    let enqueued := queue.enqueue item
    ⟨enqueued.1, enqueued.2,
      if enqueued.1 then [.packetEnqueued item]
      else [.dropBeforeEnqueue item INTERNAL_QUEUE_DROP]⟩

def doDequeue (_env : Env Unit) (_occupancy : Occupancy) (queue : DropTailQueue) :
    Outcome DropTailQueue (Option QueueDiscItem) :=
  let dequeued := queue.dequeue
  ⟨dequeued.1, dequeued.2, dequeued.1.toList.map .packetDequeued⟩

def doPeek (_env : Env Unit) (_occupancy : Occupancy) (queue : DropTailQueue) :
    Outcome DropTailQueue (Option QueueDiscItem) :=
  ⟨queue.peek, queue, []⟩

end FifoQueueDisc

open FifoQueueDisc in
def fifoQueueDisc (maxSize : QueueSize) : Discipline DropTailQueue Unit where
  init := .empty maxSize
  doEnqueue := doEnqueue maxSize
  doDequeue := doDequeue
  doPeek := some doPeek

/-! ## The token bucket filter -/

structure TbfConfig where
  burst : UInt32
  mtu : UInt32
  rate : UInt64
  peakRate : UInt64

/-- What `CheckConfig` looks at. -/
structure TbfSetup where
  config : TbfConfig
  maxSize : QueueSize
  nInternalQueues : Nat
  nPacketFilters : Nat
  nQueueDiscClasses : Nat
  /-- The MTU of the device that the queue disc is installed on, if any. -/
  deviceMtu : Option UInt16

def TbfSetup.mtu (setup : TbfSetup) : UInt32 :=
  if setup.config.mtu = 0 then
    match setup.deviceMtu with
    | some mtu => mtu.toUInt32
    | none => 0
  else setup.config.mtu

inductive TbfFault
  | divisionByZero
  deriving DecidableEq

/-- `id` is the time of the waking event while it is pending. -/
structure TbfQueueDisc (State : Type) where
  btokens : Nat
  ptokens : Nat
  timeCheckPoint : Nat
  id : Option Nat
  child : QueueDisc State

namespace TbfQueueDisc

/-- The configuration that is accepted, if any. Without a class, a FIFO of the maximum size is
attached, which takes every size but zero. -/
def checkConfig (setup : TbfSetup) : Option TbfConfig :=
  if setup.nInternalQueues > 0 then none
  else if setup.nPacketFilters > 0 then none
  else if setup.nQueueDiscClasses = 0 ∧ setup.maxSize.value = 0 then none
  else if setup.nQueueDiscClasses > 1 then none
  else if setup.mtu = 0 ∧ setup.config.peakRate > 0 then none
  else some { setup.config with mtu := setup.mtu }

variable {State Chance : Type} (disc : Discipline State Chance)

/-- `InitializeParams` -/
def initializeParams (cfg : TbfConfig) (child : QueueDisc State) : TbfQueueDisc State where
  btokens := cfg.burst.toNat
  ptokens := cfg.mtu.toNat
  timeCheckPoint := 0
  id := none
  child

def doEnqueue (self : TbfQueueDisc State) (env : Env Chance) (item : QueueDiscItem) :
    Bool × TbfQueueDisc State :=
  let enqueued := self.child.enqueue disc env item
  (enqueued.1, { self with child := enqueued.2 })

/-- `round`: halves go away from zero. -/
def round (value : Rat) : Int :=
  if 0 ≤ value then ⌊value + 1 / 2⌋ else ⌈value - 1 / 2⌉

def nanosecondsPerSecond : Nat := 10 ^ 9

/-- The tokens of a bucket after some time, less what a packet takes. -/
def remaining (tokens size : Nat) (rate : UInt64) (delta : Rat) (pktSize : Nat) : Int :=
  min ((tokens : Int) + round (delta * ((rate / 8).toNat : Nat))) size - pktSize

def peakRemaining (cfg : TbfConfig) (tokens : Nat) (delta : Rat) (pktSize : Nat) : Int :=
  if cfg.peakRate > 0 then remaining tokens cfg.mtu.toNat cfg.peakRate delta pktSize
  else 0

/-- `CalculateBytesTxTime`, with a product of 32 bits. -/
def calculateBytesTxTime (rate : UInt64) (bytes : Nat) : Except TbfFault Nat :=
  if rate = 0 then .error .divisionByZero
  else .ok (uint32 (bytes * 8) * nanosecondsPerSecond / rate.toNat)

/-- A packet is blocked: a waking event is scheduled unless one is pending. -/
def setUpWatchdog (cfg : TbfConfig) (now : Nat) (btoks ptoks : Int)
    (self : TbfQueueDisc State) : Except TbfFault (TbfQueueDisc State) :=
  match self.id with
  | some _ => .ok self
  | none => do
    let delay ← calculateBytesTxTime cfg.rate (uint32OfInt (-btoks))
    let peakDelay ← calculateBytesTxTime cfg.peakRate (uint32OfInt (-ptoks))
    return { self with id := some (now + max delay peakDelay) }

/-- The environment draws once for the child's `Peek` and once for its `Dequeue`. -/
def doDequeue (cfg : TbfConfig) (env : Env (Chance × Chance)) (self : TbfQueueDisc State) :
    Except TbfFault (Option QueueDiscItem × TbfQueueDisc State) :=
  let peeked := self.child.peek disc ⟨env.now, env.chance.1⟩
  let self := { self with child := peeked.2 }
  match peeked.1 with
  | none => .ok (none, self)
  | some itemPeek => do
    let delta : Rat := ((env.now : Int) - self.timeCheckPoint : Int) / nanosecondsPerSecond
    let ptoks := peakRemaining cfg self.ptokens delta itemPeek.size
    let btoks := remaining self.btokens cfg.burst.toNat cfg.rate delta itemPeek.size
    if Int.lor btoks ptoks ≥ 0 then
      let taken := self.child.dequeue disc ⟨env.now, env.chance.2⟩
      match taken.1 with
      | none => return (none, { self with child := taken.2 })
      | some item =>
        return (some item, { self with
          btokens := uint32OfInt btoks
          ptokens := uint32OfInt ptoks
          timeCheckPoint := env.now
          child := taken.2 })
    else return (none, ← self.setUpWatchdog cfg env.now btoks ptoks)

def ShowsNext (env : Env (Chance × Chance)) (self : TbfQueueDisc State) : Prop :=
  let peeked := self.child.peek disc ⟨env.now, env.chance.1⟩
  ∀ itemPeek ∈ peeked.1, ∀ item ∈ (peeked.2.dequeue disc ⟨env.now, env.chance.2⟩).1,
    item.size ≤ itemPeek.size

end TbfQueueDisc

end HomaSird.TrafficControl
