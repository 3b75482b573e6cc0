import HomaSird.TrafficControl.QueueDisc
import Mathlib.Data.Rat.Floor

/-! # `CobaltQueueDisc`

A FIFO queue disc that drops from the head as CoDel and BLUE decide, and that shows the head
of its queue without deciding. Probabilities are exact. Times are in nanoseconds.
-/

namespace HomaSird.TrafficControl

structure CobaltConfig where
  maxSize : QueueSize
  interval : Nat
  target : Nat
  useEcn : Bool
  pDrop : Rat
  increment : Rat
  decrement : Rat

structure CobaltState where
  queue : DropTailQueue
  count : Nat
  dropNext : Int
  dropping : Bool
  recInvSqrt : Nat
  lastUpdateTimeBlue : Nat
  pDrop : Rat

namespace CobaltQueueDisc

def TARGET_EXCEEDED_DROP : String := "Target exceeded drop"

def OVERLIMIT_DROP : String := "Overlimit drop"

def FORCED_MARK : String := "forcedMark"

def REC_INV_SQRT_CACHE : Nat := 16

def reciprocalDivide (dividend reciprocal : Nat) : Nat := uint32 (dividend * reciprocal / 2 ^ 32)

def newtonStep (count recInvSqrt : Nat) : Nat :=
  let invsqrt2 := uint32 (recInvSqrt * recInvSqrt / 2 ^ 32)
  let val := uint64OfInt (3 * 2 ^ 32 - (uint64 (count * invsqrt2) : Nat)) / 2 ^ 2
  uint32 (uint64 (val * recInvSqrt) / 2 ^ (32 - 2 + 1))

def maxRecInvSqrt : Nat := 2 ^ 32 - 1

/-- `CacheInit`: the entry of a count comes from that of the count before. -/
def recInvSqrtCache : Nat → Nat
  | 0 => maxRecInvSqrt
  | count + 1 =>
    let step := newtonStep (count + 1)
    step (step (step (step (recInvSqrtCache count))))

def invSqrt (count recInvSqrt : Nat) : Nat :=
  if count < REC_INV_SQRT_CACHE then recInvSqrtCache count else newtonStep count recInvSqrt

def controlLaw (cfg : CobaltConfig) (time : Int) (recInvSqrt : Nat) : Int :=
  time + reciprocalDivide (uint32 cfg.interval) recInvSqrt

def init (cfg : CobaltConfig) : CobaltState where
  queue := .empty cfg.maxSize
  count := 0
  dropNext := 0
  dropping := false
  recInvSqrt := maxRecInvSqrt
  lastUpdateTimeBlue := 0
  pDrop := cfg.pDrop

/-- Has BLUE's probability been left alone for the target delay? -/
def blueDue (cfg : CobaltConfig) (now : Int) (state : CobaltState) : Prop :=
  now - state.lastUpdateTimeBlue > cfg.target

instance (cfg : CobaltConfig) (now : Int) (state : CobaltState) :
    Decidable (blueDue cfg now state) :=
  inferInstanceAs (Decidable (_ < _))

def cobaltQueueFull (cfg : CobaltConfig) (now : Int) (state : CobaltState) : CobaltState :=
  let blue :=
    if blueDue cfg now state then
      { state with
        pDrop := min (state.pDrop + cfg.increment) 1
        lastUpdateTimeBlue := uint32OfInt now }
    else state
  { blue with
    dropping := true
    dropNext := now
    count := if blue.count = 0 then 1 else blue.count }

/-- The count goes back by one, and the next drop is put off as the new count says. -/
def countDown (cfg : CobaltConfig) (state : CobaltState) : CobaltState :=
  let count := state.count - 1
  let recInvSqrt := invSqrt count state.recInvSqrt
  { state with
    count
    recInvSqrt
    dropNext := controlLaw cfg state.dropNext recInvSqrt }

def cobaltQueueEmpty (cfg : CobaltConfig) (now : Int) (state : CobaltState) : CobaltState :=
  let blue :=
    if state.pDrop ≠ 0 ∧ blueDue cfg now state then
      { state with
        pDrop := max (state.pDrop - cfg.decrement) 0
        lastUpdateTimeBlue := uint32OfInt now }
    else state
  let left := { blue with dropping := false }
  if left.count ≠ 0 ∧ now - left.dropNext ≥ 0 then countDown cfg left else left

/-- The loop of `CobaltShouldDrop`, which goes on while the next drop is due. -/
def countDownWhileDue (cfg : CobaltConfig) (now : Int) : Nat → CobaltState → CobaltState
  | 0, state => state
  | passes + 1, state =>
    if state.count ≠ 0 ∧ now - state.dropNext ≥ 0 then
      countDownWhileDue cfg now passes (countDown cfg state)
    else state

structure Decision where
  drop : Bool
  item : QueueDiscItem
  state : CobaltState
  reports : List Callback

/-- The part of `CobaltShouldDrop` that enters and leaves the dropping state. -/
def noteSojourn (cfg : CobaltConfig) (now : Int) (item : QueueDiscItem) (state : CobaltState) :
    CobaltState :=
  if now - item.timeStamp > cfg.target then
    let entered :=
      if state.dropping then state
      else { state with
        dropping := true
        dropNext := controlLaw cfg now state.recInvSqrt }
    { entered with count := if entered.count = 0 then 1 else entered.count }
  else { state with dropping := false }

def dropOrMark (cfg : CobaltConfig) (item : QueueDiscItem) (state : CobaltState) : Decision :=
  let count := max state.count (uint32 (state.count + 1))
  let recInvSqrt := invSqrt count state.recInvSqrt
  let next := { state with
    count
    recInvSqrt
    dropNext := controlLaw cfg state.dropNext recInvSqrt }
  match if cfg.useEcn then item.mark else none with
  | some marked => ⟨false, marked, next, [.mark marked FORCED_MARK]⟩
  | none => ⟨true, item, next, []⟩

/-- `CobaltShouldDrop`, which draws a number when BLUE takes part. -/
def cobaltShouldDrop (cfg : CobaltConfig) (now : Int) (draw : Rat) (item : QueueDiscItem)
    (state : CobaltState) : Decision :=
  let schedule := now - state.dropNext
  let nextDue := state.count ≠ 0 ∧ schedule ≥ 0
  let noted := noteSojourn cfg now item state
  let codel : Decision :=
    if nextDue ∧ noted.dropping then dropOrMark cfg item noted
    else if nextDue then
      -- the loop makes its first pass whatever has become of the next drop
      let counted := countDown cfg noted
      ⟨false, item, countDownWhileDue cfg now counted.count counted, []⟩
    else ⟨false, item, noted, []⟩
  -- the schedule is only computed again where a drop was due
  let schedule := if nextDue then now - codel.state.dropNext else schedule
  let drop := codel.drop || (decide (codel.state.pDrop ≠ 0) && decide (draw < codel.state.pDrop))
  { codel with
    drop
    state :=
      if codel.state.count = 0 then { codel.state with dropNext := now + cfg.interval }
      else if schedule > 0 ∧ !drop then { codel.state with dropNext := now }
      else codel.state }

def doEnqueue (cfg : CobaltConfig) (env : Env (Nat → Rat)) (occupancy : Occupancy)
    (item : QueueDiscItem) (state : CobaltState) : Outcome CobaltState Bool :=
  let current := cfg.maxSize.current occupancy.nPackets occupancy.nBytes
  if (current.add item.size).value > cfg.maxSize.value then
    ⟨false, cobaltQueueFull cfg env.now state, [.dropBeforeEnqueue item OVERLIMIT_DROP]⟩
  else
    let enqueued := state.queue.enqueue item
    ⟨enqueued.1, { state with queue := enqueued.2 },
      if enqueued.1 then [.packetEnqueued item]
      else [.dropBeforeEnqueue item INTERNAL_QUEUE_DROP]⟩

/-- The loop of `DoDequeue`; every pass but the last drops a packet. Draws are numbered by the
passes left. -/
def dequeueLoop (cfg : CobaltConfig) (now : Int) (draws : Nat → Rat) :
    Nat → CobaltState → Outcome CobaltState (Option QueueDiscItem)
  | 0, state => ⟨none, state, []⟩
  | passes + 1, state =>
    let dequeued := state.queue.dequeue
    match dequeued.1 with
    | none =>
      ⟨none, cobaltQueueEmpty cfg now
        { state with queue := dequeued.2, dropping := false }, []⟩
    | some item =>
      let decision := cobaltShouldDrop cfg now (draws passes) item
        { state with queue := dequeued.2 }
      let reports := .packetDequeued item :: decision.reports
      if decision.drop then
        let later := dequeueLoop cfg now draws passes decision.state
        { later with reports :=
          reports ++ .dropAfterDequeue decision.item TARGET_EXCEEDED_DROP :: later.reports }
      else ⟨some decision.item, decision.state, reports⟩

def doDequeue (cfg : CobaltConfig) (env : Env (Nat → Rat)) (_occupancy : Occupancy)
    (state : CobaltState) : Outcome CobaltState (Option QueueDiscItem) :=
  dequeueLoop cfg env.now env.chance (state.queue.packets.length + 1) state

def doPeek (_env : Env (Nat → Rat)) (_occupancy : Occupancy) (state : CobaltState) :
    Outcome CobaltState (Option QueueDiscItem) :=
  ⟨state.queue.peek, state, []⟩

end CobaltQueueDisc

open CobaltQueueDisc in
def cobaltQueueDisc (cfg : CobaltConfig) : Discipline CobaltState (Nat → Rat) where
  init := init cfg
  doEnqueue := doEnqueue cfg
  doDequeue := doDequeue cfg
  doPeek := some doPeek

end HomaSird.TrafficControl
