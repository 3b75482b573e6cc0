import HomaSird.Data.Word
import HomaSird.Core.ListScheduler

/-! # The simulator

Every event of a scheduler gets the next value of a 32-bit counter as its uid; the uids decide the
order of the events of one time and whether an event has expired. Everything happens in the main
thread, so no events with a context wait.
-/

namespace HomaSird.Core

open Transition

def int64 (value : Int) : Int := value.bmod (2 ^ 64)

def int32 (value : Int) : Int := value.bmod (2 ^ 32)

/-- `impl` is the pointer to the event implementation. -/
structure EventId where
  impl : Nat
  ts : Nat
  context : Nat
  uid : Nat
deriving DecidableEq

def EventId.event (id : EventId) : Event := ⟨id.impl, ⟨id.ts, id.uid, id.context⟩⟩

/-- The implementations whose `m_cancel` is set, and the pointer that the next one gets. -/
structure DefaultSimulatorImpl {Kind : Type} (Queue : Kind → Type) where
  events : Sigma Queue
  uid : Nat := 4
  currentUid : Nat := 0
  currentTs : Nat := 0
  currentContext : Nat := 0xffffffff
  unscheduledEvents : Int := 0
  eventCount : Nat := 0
  destroyEvents : List EventId := []
  cancelled : List Nat := []
  nextImpl : Nat := 0

namespace DefaultSimulatorImpl

variable {Kind : Type} {Queue : Kind → Type} (scheduler : ∀ kind, Scheduler (Queue kind))

def queued (sim : DefaultSimulatorImpl Queue) : List Event :=
  (scheduler sim.events.1).events sim.events.2

def now (sim : DefaultSimulatorImpl Queue) : Int := int64 sim.currentTs

def insertEvent (sim : DefaultSimulatorImpl Queue) (ts context : Nat) :
    Option (EventId × DefaultSimulatorImpl Queue) := do
  let id : EventId := ⟨sim.nextImpl, ts, context, sim.uid⟩
  let queue ← (scheduler sim.events.1).insert id.event sim.events.2
  return (id, { sim with
    events := ⟨sim.events.1, queue⟩
    uid := uint32 (sim.uid + 1)
    unscheduledEvents := int32 (sim.unscheduledEvents + 1)
    nextImpl := sim.nextImpl + 1 })

/-- `ScheduleWithContext`, called from the main thread -/
def scheduleWithContext (sim : DefaultSimulatorImpl Queue) (context : Nat) (delay : Int) :
    Option (EventId × DefaultSimulatorImpl Queue) :=
  let tAbsolute := int64 (delay + sim.now)
  sim.insertEvent scheduler (uint64OfInt tAbsolute) context

/-- `Schedule` asserts that the delay is not negative. -/
def schedule (sim : DefaultSimulatorImpl Queue) (delay : Int) :
    Option (EventId × DefaultSimulatorImpl Queue) :=
  if 0 ≤ delay then sim.scheduleWithContext scheduler sim.currentContext delay else none

def scheduleNow (sim : DefaultSimulatorImpl Queue) :
    Option (EventId × DefaultSimulatorImpl Queue) :=
  sim.insertEvent scheduler sim.currentTs sim.currentContext

def scheduleDestroy (sim : DefaultSimulatorImpl Queue) :
    EventId × DefaultSimulatorImpl Queue :=
  let id : EventId := ⟨sim.nextImpl, sim.currentTs, 0xffffffff, 2⟩
  (id, { sim with
    destroyEvents := sim.destroyEvents ++ [id]
    uid := uint32 (sim.uid + 1)
    nextImpl := sim.nextImpl + 1 })

def isExpired (sim : DefaultSimulatorImpl Queue) (id : EventId) : Bool :=
  if id.uid = 2 then
    sim.cancelled.contains id.impl || !sim.destroyEvents.contains id
  else
    id.ts < sim.currentTs || (id.ts = sim.currentTs && id.uid ≤ sim.currentUid) ||
      sim.cancelled.contains id.impl

def cancel (sim : DefaultSimulatorImpl Queue) (id : EventId) : DefaultSimulatorImpl Queue :=
  if sim.isExpired id then sim
  else { sim with cancelled := id.impl :: sim.cancelled }

def remove (sim : DefaultSimulatorImpl Queue) (id : EventId) :
    Option (DefaultSimulatorImpl Queue) :=
  if id.uid = 2 then
    some { sim with destroyEvents := sim.destroyEvents.erase id }
  else if sim.isExpired id then some sim
  else do
    let queue ← (scheduler sim.events.1).remove id.event sim.events.2
    return { sim with
      events := ⟨sim.events.1, queue⟩
      cancelled := id.impl :: sim.cancelled
      unscheduledEvents := int32 (sim.unscheduledEvents - 1) }

/-- The loop of `SetScheduler`, which moves the events over. -/
def moveEvents {Old New : Type} (source : Scheduler Old) (target : Scheduler New) :
    Nat → Old → New → Option New
  | 0, _, _ => none
  | fuel + 1, old, new =>
    if source.isEmpty old then some new
    else do
      let (next, old) ← source.removeNext old
      let new ← target.insert next new
      moveEvents source target fuel old new

def setScheduler (sim : DefaultSimulatorImpl Queue) (kind : Kind) :
    Option (DefaultSimulatorImpl Queue) := do
  let queue ← moveEvents (scheduler sim.events.1) (scheduler kind)
    ((sim.queued scheduler).length + 1) sim.events.2 (scheduler kind).empty
  return { sim with events := ⟨kind, queue⟩ }

def processOneEvent (sim : DefaultSimulatorImpl Queue) :
    Option (Event × DefaultSimulatorImpl Queue) := do
  let (next, queue) ← (scheduler sim.events.1).removeNext sim.events.2
  if sim.currentTs ≤ next.key.ts then
    return (next, { sim with
      events := ⟨sim.events.1, queue⟩
      unscheduledEvents := int32 (sim.unscheduledEvents - 1)
      eventCount := uint64 (sim.eventCount + 1)
      currentTs := next.key.ts
      currentContext := next.key.context
      currentUid := next.key.uid })
  else none

/-- `Invoke` notifies unless the implementation is cancelled. -/
def notifies (sim : DefaultSimulatorImpl Queue) (ev : Event) : Bool :=
  !sim.cancelled.contains ev.impl

end DefaultSimulatorImpl

/-! ## Runs -/

structure Scheduled where
  id : EventId
  time : Int
deriving DecidableEq

/-- A run of the simulator: the events as they were scheduled, the destroy events, the turns with
their times, the events that were cancelled or removed before their turn, and the invocations with
their times. -/
structure SimulatorRun {Kind : Type} (Queue : Kind → Type) where
  simulator : DefaultSimulatorImpl Queue
  scheduled : List Scheduled := []
  destroyed : List EventId := []
  turns : List (Nat × Int) := []
  gone : List Nat := []
  invoked : List (Nat × Int) := []

/-- `processOneEvent` is a round of the loop of `Run`; the calls that follow it are those of the
handler, those before the first one are made before `Run`. -/
inductive SimulatorCall (Kind : Type) where
  | schedule (delay : Int)
  | scheduleWithContext (context : Nat) (delay : Int)
  | scheduleNow
  | scheduleDestroy
  | cancel (id : EventId)
  | remove (id : EventId)
  | setScheduler (kind : Kind)
  | processOneEvent

namespace SimulatorRun

variable {Kind : Type} {Queue : Kind → Type} (scheduler : ∀ kind, Scheduler (Queue kind))

def scheduleStep (run : SimulatorRun Queue) (delay : Int)
    (result : Option (EventId × DefaultSimulatorImpl Queue)) : Except Unit (SimulatorRun Queue) :=
  match result with
  | none => .error ()
  | some (id, sim) => .ok { run with
      simulator := sim
      scheduled := run.scheduled ++ [⟨id, run.simulator.now + delay⟩] }

/-- The event was cancelled or removed, before its turn if it has had none. -/
def withdraw (run : SimulatorRun Queue) (id : EventId) : List Nat :=
  if id.impl ∈ run.turns.map Prod.fst then run.gone else id.impl :: run.gone

def step (run : SimulatorRun Queue) : SimulatorCall Kind → Except Unit (SimulatorRun Queue)
  | .schedule delay => run.scheduleStep delay (run.simulator.schedule scheduler delay)
  | .scheduleWithContext context delay =>
    run.scheduleStep delay (run.simulator.scheduleWithContext scheduler context delay)
  | .scheduleNow => run.scheduleStep 0 (run.simulator.scheduleNow scheduler)
  | .scheduleDestroy =>
    let (id, sim) := run.simulator.scheduleDestroy
    .ok { run with simulator := sim, destroyed := run.destroyed ++ [id] }
  | .cancel id =>
    .ok { run with simulator := run.simulator.cancel id, gone := run.withdraw id }
  | .remove id =>
    match run.simulator.remove scheduler id with
    | none => .error ()
    | some sim => .ok { run with simulator := sim, gone := run.withdraw id }
  | .setScheduler kind =>
    match run.simulator.setScheduler scheduler kind with
    | none => .error ()
    | some sim => .ok { run with simulator := sim }
  | .processOneEvent =>
    match run.simulator.processOneEvent scheduler with
    | none => .error ()
    | some (ev, sim) => .ok { run with
        simulator := sim
        turns := run.turns ++ [(ev.impl, sim.now)]
        invoked := if sim.notifies ev then run.invoked ++ [(ev.impl, sim.now)]
          else run.invoked }

def machine (kind : Kind) : Machine (SimulatorRun Queue) (SimulatorCall Kind) Unit where
  init := { simulator := { events := ⟨kind, (scheduler kind).empty⟩ } }
  step := step scheduler

/-- Delays are not negative, ids come from the functions that schedule, and the next event is
processed while there is one. -/
def offered (run : SimulatorRun Queue) : SimulatorCall Kind → Bool
  | .schedule delay | .scheduleWithContext _ delay => 0 ≤ delay && delay < 2 ^ 63
  | .cancel id | .remove id => (run.scheduled.map Scheduled.id).contains id ||
      run.destroyed.contains id
  | .processOneEvent => !(scheduler run.simulator.events.1).isEmpty run.simulator.events.2
  | _ => true

end SimulatorRun

end HomaSird.Core
