import HomaSird.TrafficControl.FqCoDelOrder

/-! # What an FQ-CoDel queue disc promises

A queue disc that is called only with packets whose flow stays together keeps every flow
in order and reachable. Set associative hashing may move a flow while its packets wait.
-/

namespace HomaSird.TrafficControl

open Callback FqCoDelQueueDisc FqCoDelState List

theorem Base.Holds.handOut {State : Type} {queueDisc : QueueDisc State} {waiting : List Packet}
    (hholds : queueDisc.base.Holds waiting) (item : Option QueueDiscItem) :
    (queueDisc.handOut item).base.Holds waiting where
  __ := hholds
  counted := { hholds.counted with }

namespace FqCoDelQueueDisc

variable {given cfg : FqCoDelConfig} {classifier : Classifier}
  {queueDisc : QueueDisc FqCoDelState} {quota : Nat} {iface : Option NetDeviceQueueInterface}

structure KeepsFlows (cfg : FqCoDelConfig) (classifier : Classifier)
    (queueDisc : QueueDisc FqCoDelState) : Prop where
  unfailed : queueDisc.inner.failure = none
  order : ∀ hash, (ofKey (flowHash cfg classifier) (some hash)
    (packets queueDisc.base.log.returned)).Sublist
      (ofKey (flowHash cfg classifier) (some hash) (packets queueDisc.base.log.enqueued))
  once : (queueDisc.inner.newFlows ++ queueDisc.inner.oldFlows).Nodup
  isNew : ∀ pos, pos ∈ queueDisc.inner.newFlows ↔
    queueDisc.inner.statusAt pos = some .newFlow
  isOld : ∀ pos, pos ∈ queueDisc.inner.oldFlows ↔
    queueDisc.inner.statusAt pos = some .oldFlow
  listed : ∀ (pos : Nat) (flow : FqCoDelFlow), queueDisc.inner.classes[pos]? = some flow →
    flow.queueDisc.waiting ≠ [] →
      pos ∈ queueDisc.inner.newFlows ∨ pos ∈ queueDisc.inner.oldFlows
  serves : ∀ env, (queueDisc.dequeue (fqCoDelQueueDisc cfg classifier) env).1 = none →
    ∀ flow ∈ queueDisc.inner.classes, flow.queueDisc.waiting = []
  limit : queueDisc.inner.queues.flatten.length ≤ cfg.maxSize

structure Intact (cfg : FqCoDelConfig) (classifier : Classifier)
    (queueDisc : QueueDisc FqCoDelState) : Prop where
  orderly : Orderly cfg classifier (packets queueDisc.base.log.enqueued)
    (packets queueDisc.base.log.returned) queueDisc.inner
  holds : queueDisc.base.Holds queueDisc.inner.queues.flatten
  limit : queueDisc.inner.queues.flatten.length ≤ cfg.maxSize

variable {state : FqCoDelState}

theorem listed_of_waiting (hflows : Flows cfg state) {pos : Nat} {flow : FqCoDelFlow}
    (hflow : state.classes[pos]? = some flow) (hwait : flow.queueDisc.waiting ≠ []) :
    pos ∈ state.newFlows ∨ pos ∈ state.oldFlows := by
  have hstatus : state.statusAt pos = some flow.status := by
    rw [statusAt, hflow]
    rfl
  cases hcase : flow.status with
  | inactive => exact absurd (hflows.idle flow (mem_of_getElem? hflow) hcase) hwait
  | newFlow =>
    rw [hcase] at hstatus
    exact .inl ((hflows.isNew pos).mpr hstatus)
  | oldFlow =>
    rw [hcase] at hstatus
    exact .inr ((hflows.isOld pos).mpr hstatus)

theorem empty_of_unlisted (hflows : Flows cfg state) (hnew : state.newFlows = [])
    (hold : state.oldFlows = []) : ∀ queue ∈ state.queues, queue = [] := by
  intro queue hq
  obtain ⟨flow, hmem, rfl⟩ := mem_map.mp hq
  obtain ⟨pos, hflow⟩ := mem_iff_getElem?.mp hmem
  by_contra hwait
  rcases listed_of_waiting hflows hflow hwait with hlisted | hlisted
  · rw [hnew] at hlisted
    cases hlisted
  · rw [hold] at hlisted
    cases hlisted

theorem dequeue_spec (hpos : 1 ≤ cfg.quantum) (hquant : cfg.quantum < 2 ^ 31)
    (hflows : Flows cfg state) (env : Env Unit) (occupancy : Occupancy) :
    let outcome := doDequeue cfg env occupancy state
    Flows cfg outcome.state ∧ SamePlaces state outcome.state ∧
      Served state.queues outcome.state.queues outcome.result outcome.reports ∧
      (outcome.result = none → outcome.state.newFlows = [] ∧ outcome.state.oldFlows = []) := by
  apply serve_spec hpos hquant env _ hflows
  rw [turns]
  omega

theorem Orderly.served {arrived handed : List Packet}
    {state after : FqCoDelState} (hord : Orderly cfg classifier arrived handed state)
    (hflows : Flows cfg after) (hplaces : SamePlaces state after) {result : Option QueueDiscItem}
    {reports : List Callback} (hserved : Served state.queues after.queues result reports) :
    Orderly cfg classifier arrived (handed ++ packets result.toList) after ∧ enqueuedOf reports =
    [] ∧ state.queues.flatten.Perm (packets (dequeuedOf reports) ++ after.queues.flatten) := by
  generalize hpre : state.queues = before at hserved
  generalize hleft : after.queues = left at hserved
  cases hserved with
  | nothing henq hdeq =>
    refine ⟨?_, henq, by rw [hdeq]; exact .refl _⟩
    simp only [Option.toList_none, packets_nil, append_nil]
    refine ⟨hflows, hord.placed.of_same hplaces, ?_, fun hplain => ?_⟩
    · rw [hleft, ← hpre]
      exact hord.order
    · rw [hplaces.indices, hleft, ← hpre]
      exact hord.bound hplain
  | taken hq hsub henq hmoved =>
    obtain ⟨rest, hall, hafter⟩ := flatten_set hq
    refine ⟨?_, henq, ?_⟩
    · subst hpre
      exact hord.remove hflows hplaces hq hsub hleft
    · refine hall.trans ?_
      refine (hmoved.append_right rest).trans ?_
      rw [append_assoc]
      exact (hafter _).symm.append_left _

namespace Intact

theorem init (cfg : FqCoDelConfig) (classifier : Classifier) (quota : Nat)
    (iface : Option NetDeviceQueueInterface) :
    Intact cfg classifier (QueueDisc.init (fqCoDelQueueDisc cfg classifier) quota iface) where
  orderly := .init cfg classifier
  holds := .init quota iface
  limit := Nat.zero_le _

theorem enqueue (hintact : Intact cfg classifier queueDisc) (env : Env Unit) {item : QueueDiscItem}
    (hadmits : admitsPacket cfg classifier item.toPacket queueDisc.inner = true) :
    Intact cfg classifier (queueDisc.enqueue (fqCoDelQueueDisc cfg classifier) env item).2 := by
  have hgot := hintact.holds.receive item
  have hcnt : (queueDisc.base.receive item).occupancy.nPackets =
    uint32 queueDisc.inner.queues.flatten.length := hgot.nPackets
  obtain ⟨hord, hmoved, hlim⟩ := doEnqueue_stores hintact.orderly hintact.limit env hcnt hadmits
  refine ⟨?_, hgot.callbacks hmoved, hlim⟩
  simp only [QueueDisc.enqueue, Base.callbacks_log, packets_append]
  exact hord

theorem dequeue (hintact : Intact cfg classifier queueDisc) (hpos : 1 ≤ cfg.quantum)
    (hquant : cfg.quantum < 2 ^ 31) (env : Env Unit) :
    let taken := queueDisc.dequeue (fqCoDelQueueDisc cfg classifier) env
    Intact cfg classifier (taken.2.handOut taken.1) := by
  obtain ⟨hflows, hplaces, hserved, -⟩ :=
    dequeue_spec hpos hquant hintact.orderly.flows env queueDisc.base.occupancy
  rw [QueueDisc.dequeue_of_none _ hintact.holds.requeued]
  dsimp only [fqCoDelQueueDisc]
  generalize doDequeue cfg env queueDisc.base.occupancy queueDisc.inner = outcome at *
  obtain ⟨hord, henq, hmoved⟩ := hintact.orderly.served hflows hplaces hserved
  have hholds : (queueDisc.base.callbacks outcome.reports).Holds outcome.state.queues.flatten := by
    apply hintact.holds.callbacks
    rw [henq, packets_nil, append_nil]
    exact hmoved
  have hfewer := hmoved.length_eq
  rw [length_append] at hfewer
  have hlim := hintact.limit
  refine ⟨?_, hholds.handOut _, ?_⟩
  · simp only [QueueDisc.handOut, Base.callbacks_log, henq, append_nil, packets_append]
    exact hord
  · change outcome.state.queues.flatten.length ≤ cfg.maxSize
    omega

theorem step (hintact : Intact cfg classifier queueDisc) (hpos : 1 ≤ cfg.quantum)
    (hquant : cfg.quantum < 2 ^ 31) {call : Call Unit}
    (hadmits : admits cfg classifier queueDisc call = true) :
    Intact cfg classifier (queueDisc.call (fqCoDelQueueDisc cfg classifier) call).2 := by
  cases call with
  | enqueue env packet dsField => exact hintact.enqueue env hadmits
  | dequeue env => exact hintact.dequeue hpos hquant env
  | peek env => cases hadmits
  | run rounds => cases hadmits
  | setStopped stopped => cases hadmits

theorem keepsFlows (hintact : Intact cfg classifier queueDisc) (hpos : 1 ≤ cfg.quantum)
    (hquant : cfg.quantum < 2 ^ 31) : KeepsFlows cfg classifier queueDisc where
  unfailed := hintact.orderly.flows.unfailed
  order hash := by
    have hsub := hintact.orderly.order.order (some hash)
    rw [ofKey_append] at hsub
    exact (sublist_append_left _ _).trans hsub
  once := hintact.orderly.flows.nodup
  isNew := hintact.orderly.flows.isNew
  isOld := hintact.orderly.flows.isOld
  listed _ _ hflow hwait := listed_of_waiting hintact.orderly.flows hflow hwait
  serves env hnone flow hflow := by
    rw [QueueDisc.dequeue_of_none _ hintact.holds.requeued] at hnone
    obtain ⟨hflows, hplaces, hserved, hlast⟩ :=
      dequeue_spec hpos hquant hintact.orderly.flows env queueDisc.base.occupancy
    obtain ⟨hnew, hold⟩ := hlast hnone
    apply empty_of_unlisted hflows hnew hold
    rw [hserved.queues_eq hnone]
    exact mem_map_of_mem hflow
  limit := hintact.limit

end Intact

theorem quantum_pos_of_checkConfig {mtu : Option Nat}
    (hacc : checkConfig given 0 0 mtu = some (true, cfg)) : 1 ≤ cfg.quantum := by
  unfold checkConfig at hacc
  rw [if_neg (lt_irrefl 0), if_neg (lt_irrefl 0)] at hacc
  generalize (if given.quantum = 0 then mtu.getD 0 else given.quantum) = quantum at hacc
  dsimp only at hacc
  split at hacc
  · cases hacc
  next hset =>
    split at hacc
    · cases hacc
    split at hacc
    · cases hacc
    split at hacc
    · cases hacc
    obtain rfl := (Prod.mk.inj (Option.some.inj hacc)).2
    exact Nat.pos_of_ne_zero hset

/-- In a run that keeps the packets of a flow together, every flow stays in order and reachable. -/
theorem keepsFlows_of_admitted {mtu : Option Nat}
    (haccepted : checkConfig given 0 0 mtu = some (true, cfg)) (hquantum : cfg.quantum < 2 ^ 31)
    (hreach : (QueueDisc.machine (fqCoDelQueueDisc cfg classifier) quota iface).ReachableUnder
      (fun state call => admits cfg classifier state call = true) queueDisc) :
    KeepsFlows cfg classifier queueDisc := by
  have hpos := quantum_pos_of_checkConfig haccepted
  have hintact : Intact cfg classifier queueDisc := by
    refine hreach.invariant (.init cfg classifier quota iface) ?_
    intro state call next hintact hadmits hstep
    cases hstep
    exact hintact.step hpos hquantum hadmits
  exact hintact.keepsFlows hpos hquantum

/-! ## A set of two queues -/

/-- The calls of `Enqueue` and `Dequeue`. -/
def isService : Call Unit → Bool
  | .enqueue .. => true
  | .dequeue _ => true
  | _ => false

def twoWays : FqCoDelConfig where
  useEcn := false
  interval := 100000000
  target := 5000000
  maxSize := 10240
  flows := 2
  dropBatchSize := 64
  perturbation := 0
  ceThreshold := maxTime
  enableSetAssociativeHash := true
  setWays := 2
  useL4s := false
  quantum := 100

def byTxQueue : Classifier where
  filters := []
  hash packet _ := packet.txQueueIndex

def twoWaysMachine : Transition.Machine (QueueDisc FqCoDelState) (Call Unit) Empty :=
  QueueDisc.machine (fqCoDelQueueDisc twoWays byTxQueue) 64 none

def lastOfThree : List (Call Unit) :=
  [.enqueue ⟨0, ()⟩ ⟨1, 100, 0⟩ none, .enqueue ⟨0, ()⟩ ⟨2, 100, 1⟩ none,
    .enqueue ⟨0, ()⟩ ⟨3, 100, 1⟩ none, .enqueue ⟨0, ()⟩ ⟨4, 100, 1⟩ none,
    .dequeue ⟨1, ()⟩, .dequeue ⟨1, ()⟩, .dequeue ⟨1, ()⟩]

theorem keepsFlows_of_admitted_lastOfThree :
    let queueDisc := twoWaysMachine.after (admits twoWays byTxQueue) lastOfThree twoWaysMachine.init
    KeepsFlows twoWays byTxQueue queueDisc ∧
      packets queueDisc.base.log.returned = [⟨1, 100, 0⟩, ⟨2, 100, 1⟩, ⟨3, 100, 1⟩] ∧
      queueDisc.inner.queues = [[], [⟨4, 100, 1⟩]] := by
  intro queueDisc
  refine ⟨?_, by decide +kernel, by decide +kernel⟩
  have haccepted : checkConfig twoWays 0 0 none = some (true, twoWays) := rfl
  apply keepsFlows_of_admitted haccepted (by decide)
  exact Transition.Machine.ReachableUnder.after (fun _ _ h => h) lastOfThree .init

/-- The queue of the first flow is inactive, so it takes the next packet of the second one, which
leaves before the one in the queue tagged with its flow. -/
theorem overtaken_in_inactive_queue :
    let calls := lastOfThree ++
      [.enqueue ⟨2, ()⟩ ⟨5, 100, 1⟩ none, .dequeue ⟨3, ()⟩, .dequeue ⟨3, ()⟩]
    let queueDisc := twoWaysMachine.after (fun _ call => isService call) calls twoWaysMachine.init
    checkConfig twoWays 0 0 none = some (true, twoWays) ∧
      twoWaysMachine.ReachableUnder (fun _ call => isService call = true) queueDisc ∧
      packets queueDisc.base.log.enqueued =
        [⟨1, 100, 0⟩, ⟨2, 100, 1⟩, ⟨3, 100, 1⟩, ⟨4, 100, 1⟩, ⟨5, 100, 1⟩] ∧
      packets queueDisc.base.log.returned =
        [⟨1, 100, 0⟩, ⟨2, 100, 1⟩, ⟨3, 100, 1⟩, ⟨5, 100, 1⟩, ⟨4, 100, 1⟩] ∧
      ¬ KeepsFlows twoWays byTxQueue queueDisc := by
  intro calls queueDisc
  have hreach : twoWaysMachine.ReachableUnder (fun _ call => isService call = true) queueDisc :=
    Transition.Machine.ReachableUnder.after (fun _ _ h => h) calls .init
  have henqueued : packets queueDisc.base.log.enqueued =
      [⟨1, 100, 0⟩, ⟨2, 100, 1⟩, ⟨3, 100, 1⟩, ⟨4, 100, 1⟩, ⟨5, 100, 1⟩] := by decide +kernel
  have hreturned : packets queueDisc.base.log.returned =
      [⟨1, 100, 0⟩, ⟨2, 100, 1⟩, ⟨3, 100, 1⟩, ⟨5, 100, 1⟩, ⟨4, 100, 1⟩] := by decide +kernel
  refine ⟨rfl, hreach, henqueued, hreturned, fun hkeeps => ?_⟩
  have horder := hkeeps.order 1
  rw [henqueued, hreturned] at horder
  revert horder
  decide +kernel

end FqCoDelQueueDisc

end HomaSird.TrafficControl
