import HomaSird.TrafficControl.QueueDiscClass

/-! # `FqCoDelQueueDisc`

Packets are classified into flow queues, each a CoDel queue disc of its own, which
two lists of flows serve in turn: new ones first, each for as long as its deficit
lasts. A flow stands for its position among the classes of the queue disc.
-/

namespace HomaSird.TrafficControl

inductive FlowStatus
  | inactive
  | newFlow
  | oldFlow
  deriving DecidableEq

/-- `maxSize` is in packets, the unit that the constructor fixes; times are in nanoseconds. -/
structure FqCoDelConfig where
  useEcn : Bool
  interval : Nat
  target : Nat
  maxSize : Nat
  flows : Nat
  dropBatchSize : Nat
  perturbation : Nat
  ceThreshold : Nat
  enableSetAssociativeHash : Bool
  setWays : Nat
  useL4s : Bool
  quantum : Nat

/-- The packet filters in their order, and `Hash` of a packet for a perturbation. -/
structure Classifier where
  filters : List (Packet → Int)
  hash : Packet → Nat → Nat

structure FqCoDelFlow where
  deficit : Int
  status : FlowStatus
  index : Nat
  queueDisc : QueueDisc CoDelState

/-- The program divides by zero, uses a null item or does not come back. -/
inductive Failure
  | divisionByZero
  | nullItem
  | endlessLoop
  deriving DecidableEq

structure FqCoDelState where
  classes : List FqCoDelFlow
  newFlows : List Nat
  oldFlows : List Nat
  flowsIndices : UnorderedMap Nat Nat
  tags : UnorderedMap Nat Nat
  failure : Option Failure

namespace FqCoDelQueueDisc

def UNCLASSIFIED_DROP : String := "Unclassified drop"

def OVERLIMIT_DROP : String := "Overlimit drop"

def PF_NO_MATCH : Int := -1

/-- `Time::Max`. -/
def maxTime : Nat := 2 ^ 63 - 1

/-- `CheckConfig` with these classes, internal queues and device MTU: none when the program stops,
else its answer and the configuration with its quantum. -/
def checkConfig (cfg : FqCoDelConfig) (nQueueDiscClasses nInternalQueues : Nat)
    (mtu : Option Nat) : Option (Bool × FqCoDelConfig) :=
  if nQueueDiscClasses > 0 then some (false, cfg)
  else if nInternalQueues > 0 then some (false, cfg)
  else
    let quantum := if cfg.quantum = 0 then mtu.getD 0 else cfg.quantum
    let settled := { cfg with quantum }
    if quantum = 0 then some (false, settled)
    -- the remainder is taken before it is compared
    else if cfg.enableSetAssociativeHash ∧ cfg.setWays = 0 then none
    else if cfg.enableSetAssociativeHash ∧ cfg.flows % cfg.setWays ≠ 0 then
      some (false, settled)
    else if cfg.useL4s ∧ cfg.ceThreshold = maxTime then none
    else some (true, settled)

/-- What `InitializeParams` and `DoEnqueue` give a flow's queue disc; its minimum of bytes is the
default. -/
def coDelConfig (cfg : FqCoDelConfig) : CoDelConfig where
  maxSize := ⟨.packets, cfg.maxSize⟩
  useEcn := cfg.useEcn
  useL4s := cfg.useL4s
  minBytes := 1500
  interval := cfg.interval
  target := cfg.target
  ceThreshold := cfg.ceThreshold

/-- `DEFAULT_QUOTA` of a queue disc. -/
def DEFAULT_QUOTA : Nat := 64

/-- `QueueDisc::Classify`: the answer of the first filter that has one. -/
def classify : List (Packet → Int) → Packet → Int
  | [], _ => PF_NO_MATCH
  | filter :: rest, packet =>
    if filter packet = PF_NO_MATCH then classify rest packet else filter packet

def flowHash (cfg : FqCoDelConfig) (classifier : Classifier) (packet : Packet) : Option Nat :=
  if classifier.filters.length = 0 then
    some (uint32 (classifier.hash packet cfg.perturbation))
  else
    let ret := classify classifier.filters packet
    if ret ≠ PF_NO_MATCH then some (uint32OfInt ret) else none

def outerHash (cfg : FqCoDelConfig) (hash : Nat) : Nat :=
  let h := hash % cfg.flows
  let innerHash := h % cfg.setWays
  h - innerHash

def canUse (state : FqCoDelState) (hash i : Nat) : Bool :=
  match state.flowsIndices.lookup i with
  | none => true
  | some pos => state.tags.lookup i == some hash
      || (state.classes[pos]?).any fun flow => flow.status == .inactive

/-- The queues the loop of `SetAssociativeHash` goes through. -/
def setQueues (cfg : FqCoDelConfig) (hash : Nat) : List Nat :=
  let outerHash := outerHash cfg hash
  List.range' outerHash (uint32 (outerHash + cfg.setWays) - outerHash)

def setAssociativeHash (cfg : FqCoDelConfig) (hash : Nat) (state : FqCoDelState) :
    Nat × FqCoDelState :=
  -- all the queues of the set are used: use the first queue of the set
  let i := ((setQueues cfg hash).find? (canUse state hash)).getD (outerHash cfg hash)
  (i, { state with tags := state.tags.insert i hash })

def selectQueue (cfg : FqCoDelConfig) (hash : Nat) (state : FqCoDelState) :
    Nat × FqCoDelState :=
  if cfg.enableSetAssociativeHash then setAssociativeHash cfg hash state
  else (hash % cfg.flows, state)

def newFlow (cfg : FqCoDelConfig) (h : Nat) : FqCoDelFlow where
  deficit := 0
  status := .inactive
  index := h
  queueDisc := QueueDisc.init (coDelQueueDisc (coDelConfig cfg)) DEFAULT_QUOTA none

end FqCoDelQueueDisc

namespace FqCoDelState

open FqCoDelQueueDisc

def init : FqCoDelState where
  classes := []
  newFlows := []
  oldFlows := []
  flowsIndices := ∅
  tags := ∅
  failure := none

def fail (state : FqCoDelState) (failure : Failure) : FqCoDelState :=
  { state with failure := some failure }

def setFlow (state : FqCoDelState) (pos : Nat) (flow : FqCoDelFlow) : FqCoDelState :=
  { state with classes := state.classes.set pos flow }

def onFlow (state : FqCoDelState) (pos : Nat) (change : FqCoDelFlow → FqCoDelFlow) :
    FqCoDelState :=
  match state.classes[pos]? with
  | some flow => state.setFlow pos (change flow)
  | none => state

def findOrCreate (state : FqCoDelState) (cfg : FqCoDelConfig) (h : Nat) :
    Nat × FqCoDelState :=
  match state.flowsIndices.lookup h with
  | some pos => (pos, state)
  | none => (state.classes.length, { state with
      classes := state.classes ++ [newFlow cfg h]
      flowsIndices := state.flowsIndices.insert h state.classes.length })

def activate (state : FqCoDelState) (cfg : FqCoDelConfig) (pos : Nat) : FqCoDelState :=
  match state.classes[pos]? with
  | some flow =>
    if flow.status = .inactive then
      { state.setFlow pos { flow with status := .newFlow, deficit := int32 cfg.quantum }
        with newFlows := state.newFlows ++ [pos] }
    else state
  | none => state

def increaseDeficit (state : FqCoDelState) (pos : Nat) (deficit : Int) : FqCoDelState :=
  state.onFlow pos fun flow => { flow with deficit := int32 (flow.deficit + deficit) }

def setStatus (state : FqCoDelState) (pos : Nat) (status : FlowStatus) : FqCoDelState :=
  state.onFlow pos fun flow => { flow with status }

def getDeficit (state : FqCoDelState) (pos : Nat) : Int :=
  (state.classes[pos]?).elim 0 FqCoDelFlow.deficit

def moveToOld (state : FqCoDelState) (pos : Nat) : FqCoDelState :=
  let marked := state.setStatus pos .oldFlow
  { marked with oldFlows := marked.oldFlows ++ [pos], newFlows := marked.newFlows.tail }

def rotateOld (state : FqCoDelState) (pos : Nat) : FqCoDelState :=
  { state with oldFlows := (state.oldFlows ++ [pos]).tail }

/-- A flow without a packet leaves the list it was selected from. -/
def retire (state : FqCoDelState) (pos : Nat) : FqCoDelState :=
  if state.newFlows ≠ [] then state.moveToOld pos
  else
    let marked := state.setStatus pos .inactive
    { marked with oldFlows := marked.oldFlows.tail }

def owed (state : FqCoDelState) : Nat :=
  (state.oldFlows.map fun pos => (1 - state.getDeficit pos).toNat).sum

end FqCoDelState

namespace FqCoDelQueueDisc

/-- `Enqueue` of the queue disc of a flow. -/
def enqueueFlow (cfg : FqCoDelConfig) (env : Env Unit) (item : QueueDiscItem)
    (pos : Nat) (state : FqCoDelState) : Outcome FqCoDelState Bool :=
  match state.classes[pos]? with
  | none => ⟨false, state, []⟩
  | some flow =>
    let stored := flow.queueDisc.enqueueChild (coDelQueueDisc (coDelConfig cfg)) env item
    ⟨stored.result, state.setFlow pos { flow with queueDisc := stored.state },
      stored.reports⟩

/-- `Dequeue` of the queue disc of a flow. -/
def dequeueFlow (cfg : FqCoDelConfig) (env : Env Unit) (pos : Nat)
    (state : FqCoDelState) : Outcome FqCoDelState (Option QueueDiscItem) :=
  match state.classes[pos]? with
  | none => ⟨none, state, []⟩
  | some flow =>
    let served := flow.queueDisc.dequeueChild (coDelQueueDisc (coDelConfig cfg)) env
    ⟨served.result, state.setFlow pos { flow with queueDisc := served.state },
      served.reports⟩

def fattest : List FqCoDelFlow → (i index maxBacklog : Nat) → Nat × Nat
  | [], _, index, maxBacklog => (index, maxBacklog)
  | flow :: rest, i, index, maxBacklog =>
    let bytes := flow.queueDisc.base.nBytes
    if bytes > maxBacklog then fattest rest (i + 1) i bytes
    else fattest rest (i + 1) index maxBacklog

/-- The loop of `FqCoDelDrop` with the drops that may follow: false when it meets a null item. -/
def dropHeads (threshold : Nat) : (more len : Nat) → QueueDisc CoDelState →
    Outcome (QueueDisc CoDelState) Bool
  | more, len, child =>
    let taken := child.dequeueInternal
    match taken.result with
    | none => ⟨false, taken.state, taken.reports⟩
    | some item =>
      let reports := taken.reports ++ [.dropAfterDequeue item OVERLIMIT_DROP]
      match more with
      | 0 => ⟨true, taken.state, reports⟩
      | more + 1 =>
        if uint32 (len + item.size) < threshold then
          let later := dropHeads threshold more (uint32 (len + item.size)) taken.state
          ⟨later.result, later.state, reports ++ later.reports⟩
        else ⟨true, taken.state, reports⟩

def fqCoDelDrop (cfg : FqCoDelConfig) (state : FqCoDelState) : Outcome FqCoDelState Nat :=
  let (index, maxBacklog) := fattest state.classes 0 0 0
  match state.classes[index]? with
  | none => ⟨index, state.fail .nullItem, []⟩
  | some flow =>
    let dropped := dropHeads (maxBacklog >>> 1) (cfg.dropBatchSize - 1) 0 flow.queueDisc
    let next := state.setFlow index { flow with queueDisc := dropped.state }
    ⟨index, if dropped.result then next else next.fail .nullItem, dropped.reports⟩

def doEnqueue (cfg : FqCoDelConfig) (classifier : Classifier) (env : Env Unit)
    (occupancy : Occupancy) (item : QueueDiscItem) (state : FqCoDelState) :
    Outcome FqCoDelState Bool :=
  match flowHash cfg classifier item.toPacket with
  | none => ⟨false, state, [.dropBeforeEnqueue item UNCLASSIFIED_DROP]⟩
  | some hash =>
    if cfg.flows = 0 then ⟨false, state.fail .divisionByZero, []⟩
    else
      let (h, tagged) := selectQueue cfg hash state
      let (pos, created) := tagged.findOrCreate cfg h
      let stored := enqueueFlow cfg env item pos (created.activate cfg pos)
      if (occupancy.after stored.reports).nPackets > cfg.maxSize then
        let dropped := fqCoDelDrop cfg stored.state
        ⟨true, dropped.state, stored.reports ++ dropped.reports⟩
      else ⟨true, stored.state, stored.reports⟩

/-- The first loop of `DoDequeue`: the first new flow with a positive deficit. -/
def findNew (cfg : FqCoDelConfig) : Nat → FqCoDelState → Option Nat × FqCoDelState
  | 0, state => (none, state)
  | flows + 1, state =>
    match state.newFlows with
    | [] => (none, state)
    | flow :: _ =>
      if state.getDeficit flow ≤ 0 then
        findNew cfg flows
          ((state.increaseDeficit flow (int32 cfg.quantum)).moveToOld flow)
      else (some flow, state)

def findOld (cfg : FqCoDelConfig) : Nat → FqCoDelState → Option Nat × FqCoDelState
  | 0, state => (none, state.fail .endlessLoop)
  | passes + 1, state =>
    match state.oldFlows with
    | [] => (none, state)
    | flow :: _ =>
      if state.getDeficit flow ≤ 0 then
        findOld cfg passes
          ((state.increaseDeficit flow (int32 cfg.quantum)).rotateOld flow)
      else (some flow, state)

def findFlow (cfg : FqCoDelConfig) (state : FqCoDelState) : Option Nat × FqCoDelState :=
  let found := findNew cfg state.newFlows.length state
  match found.1 with
  | some flow => (some flow, found.2)
  | none => findOld cfg (found.2.owed + 1) found.2

/-- The outer loop of `DoDequeue` with a bound on its passes. -/
def serve (cfg : FqCoDelConfig) (env : Env Unit) : Nat → FqCoDelState →
    Outcome FqCoDelState (Option QueueDiscItem)
  | 0, state => ⟨none, state.fail .endlessLoop, []⟩
  | passes + 1, state =>
    let found := findFlow cfg state
    match found.1 with
    | none => ⟨none, found.2, []⟩
    | some flow =>
      let served := dequeueFlow cfg env flow found.2
      match served.result with
      | some item => ⟨some item,
          served.state.increaseDeficit flow (int32 (uint32OfInt (-item.size))), served.reports⟩
      | none =>
        let later := serve cfg env passes (served.state.retire flow)
        ⟨later.result, later.state, served.reports ++ later.reports⟩

/-- Every pass that finds no packet takes a flow out of the new or of the old list. -/
def doDequeue (cfg : FqCoDelConfig) (env : Env Unit) (_occupancy : Occupancy)
    (state : FqCoDelState) : Outcome FqCoDelState (Option QueueDiscItem) :=
  serve cfg env (2 * state.newFlows.length + state.oldFlows.length + 1) state

end FqCoDelQueueDisc

open FqCoDelQueueDisc in
def fqCoDelQueueDisc (cfg : FqCoDelConfig) (classifier : Classifier) :
    Discipline FqCoDelState Unit where
  init := .init
  doEnqueue := doEnqueue cfg classifier
  doDequeue := doDequeue cfg
  doPeek := none

end HomaSird.TrafficControl
