import HomaSird.Data.StablePriority
import HomaSird.TrafficControl.QueueDisc

/-! # `PfifoHomaQueueDisc` is a bounded strict priority queue

The queue disc keeps one drop-tail queue a band, the total limit in the base
class's packet counter, and a limit of each band in its queue. The abstract queue
is one list of waiting packets in arrival order; every list of enqueues, dequeues
and peeks gets the same answers from both.
-/

namespace HomaSird.TrafficControl

open DropTailQueue QueueDisc List Base

/-- The attributes, and what the user added; internal queues are given by their capacities. -/
structure PfifoHomaConfig where
  maxSize : Nat
  numBands : Nat
  nQueueDiscClasses : Nat
  nPacketFilters : Nat
  internalQueues : List QueueSize

namespace PfifoHomaQueueDisc

def LIMIT_EXCEEDED_DROP : String := "Queue disc limit exceeded"

/-- The capacities of the internal queues once `CheckConfig` has created the missing ones. -/
def queueSizes (cfg : PfifoHomaConfig) : List QueueSize :=
  if cfg.internalQueues.length = 0 then
    List.replicate cfg.numBands ⟨.packets, cfg.maxSize⟩
  else cfg.internalQueues

def checkConfig (cfg : PfifoHomaConfig) : Bool :=
  cfg.nQueueDiscClasses == 0 && cfg.nPacketFilters == 0
    && (queueSizes cfg).length == cfg.numBands
    && (queueSizes cfg).all (·.unit == .packets)
    && (queueSizes cfg).all fun size => !decide (size.value < cfg.maxSize)

def priority (item : QueueDiscItem) : Nat :=
  match item.dsField with
  | some dsField => (dsField >>> 2).toNat
  | none => 0

def band (cfg : PfifoHomaConfig) (item : QueueDiscItem) : Nat :=
  if priority item ≥ cfg.numBands then cfg.numBands - 1 else priority item

def doEnqueue (cfg : PfifoHomaConfig) (_env : Env Unit) (occupancy : Occupancy)
    (item : QueueDiscItem) (queues : List DropTailQueue) : Outcome (List DropTailQueue) Bool :=
  if occupancy.nPackets ≥ cfg.maxSize then
    ⟨false, queues, [.dropBeforeEnqueue item LIMIT_EXCEEDED_DROP]⟩
  else
    match queues[band cfg item]? with
    | some queue =>
      let enqueued := queue.enqueue item
      ⟨enqueued.1, queues.set (band cfg item) enqueued.2,
        if enqueued.1 then [.packetEnqueued item]
        else [.dropBeforeEnqueue item INTERNAL_QUEUE_DROP]⟩
    -- `GetInternalQueue` asserts that the band has a queue
    | none => ⟨false, queues, []⟩

/-- The loop of `DoDequeue`: the first queue that yields an item. -/
def dequeueFirst : List DropTailQueue → Option QueueDiscItem × List DropTailQueue
  | [] => (none, [])
  | queue :: rest =>
    let dequeued := queue.dequeue
    match dequeued.1 with
    | some item => (some item, dequeued.2 :: rest)
    | none =>
      let later := dequeueFirst rest
      (later.1, dequeued.2 :: later.2)

def doDequeue (_env : Env Unit) (_occupancy : Occupancy) (queues : List DropTailQueue) :
    Outcome (List DropTailQueue) (Option QueueDiscItem) :=
  let dequeued := dequeueFirst queues
  ⟨dequeued.1, dequeued.2, dequeued.1.toList.map .packetDequeued⟩

/-- The loop of `DoPeek`. -/
def peekFirst : List DropTailQueue → Option QueueDiscItem
  | [] => none
  | queue :: rest =>
    match queue.peek with
    | some item => some item
    | none => peekFirst rest

def doPeek (_env : Env Unit) (_occupancy : Occupancy) (queues : List DropTailQueue) :
    Outcome (List DropTailQueue) (Option QueueDiscItem) :=
  ⟨peekFirst queues, queues, []⟩

end PfifoHomaQueueDisc

open PfifoHomaQueueDisc in
def pfifoHomaQueueDisc (cfg : PfifoHomaConfig) : Discipline (List DropTailQueue) Unit where
  init := (queueSizes cfg).map DropTailQueue.empty
  doEnqueue := doEnqueue cfg
  doDequeue := doDequeue
  doPeek := some doPeek

/-- The calls of a queue disc that only stores packets, with their times. -/
inductive StoreCall
  | enqueue (now : Nat) (packet : Packet) (dsField : Option UInt8)
  | dequeue (now : Nat)
  | peek (now : Nat)

namespace PfifoHomaQueueDisc

variable {cfg : PfifoHomaConfig}

def toCall : StoreCall → Call Unit
  | .enqueue now packet dsField => .enqueue ⟨now, ()⟩ packet dsField
  | .dequeue now => .dequeue ⟨now, ()⟩
  | .peek now => .peek ⟨now, ()⟩

def bandOf (cfg : PfifoHomaConfig) (item : QueueDiscItem) : Nat :=
  min (priority item) (cfg.numBands - 1)

/-- Of the waiting packets, in arrival order, the oldest of the lowest band is next; a full list
refuses. -/
def priorityCall (cfg : PfifoHomaConfig) (waiting : List QueueDiscItem) :
    StoreCall → Answer × List QueueDiscItem
  | .enqueue now packet dsField =>
    if waiting.length = cfg.maxSize then (.accepted false, waiting)
    else (.accepted true, waiting ++ [.arriving now packet dsField])
  | .dequeue _ =>
    match takeLeast (bandOf cfg) waiting with
    | some (item, others) => (.packet (some item), others)
    | none => (.packet none, waiting)
  | .peek _ => (.packet ((takeLeast (bandOf cfg) waiting).map Prod.fst), waiting)

def priorityCalls (cfg : PfifoHomaConfig) :
    List StoreCall → List QueueDiscItem → List Answer × List QueueDiscItem
  | [], waiting => ([], waiting)
  | first :: rest, waiting =>
    let answered := priorityCall cfg waiting first
    let later := priorityCalls cfg rest answered.2
    (answered.1 :: later.1, later.2)

theorem band_eq_bandOf (hbands : 1 ≤ cfg.numBands) : band cfg = bandOf cfg := by
  funext item
  unfold band bandOf
  split <;> omega

theorem band_lt (hbands : 1 ≤ cfg.numBands)
    (item : QueueDiscItem) : band cfg item < cfg.numBands := by
  rw [band_eq_bandOf hbands, bandOf]
  omega

theorem checkConfig_sizes (hcfg : checkConfig cfg = true) :
    (queueSizes cfg).length = cfg.numBands ∧
    ∀ size ∈ queueSizes cfg, size.unit = .packets ∧ cfg.maxSize ≤ size.value := by
  simp only [checkConfig, Bool.and_eq_true, beq_iff_eq, all_eq_true] at hcfg
  refine ⟨hcfg.1.1.2, ?_⟩
  intro size hsz
  have hroom := hcfg.2 size hsz
  simp only [Bool.not_eq_true', decide_eq_false_iff_not, not_lt] at hroom
  exact ⟨hcfg.1.2 size hsz, hroom⟩

theorem dequeueFirst_split {queues : List DropTailQueue} (hcnt : ∀ queue ∈ queues, queue.Counted) :
    (dequeueFirst queues = (none, queues) ∧ ∀ queue ∈ queues, queue.packets = []) ∨
      ∃ before queue after item rest,
        queues = before ++ queue :: after ∧ (∀ other ∈ before, other.packets = []) ∧
          queue.packets = item :: rest ∧
          dequeueFirst queues = (some item, before ++ queue.dequeue.2 :: after) := by
  induction queues with
  | nil => exact .inl ⟨rfl, by simp⟩
  | cons queue later ih =>
    have hq := hcnt queue mem_cons_self
    cases hpkts : queue.packets with
    | cons item rest =>
      refine .inr ⟨[], queue, later, item, rest, rfl, by simp, hpkts, ?_⟩
      simp only [dequeueFirst, (dequeue_cons hq hpkts).1, nil_append]
    | nil =>
      have hskip := dequeue_nil hq hpkts
      have hlater := ih fun other hother => hcnt other (.tail _ hother)
      rcases hlater with ⟨hnone, hempty⟩ | ⟨before, found, after, item, rest, rfl, hempty,
        hfound, hsome⟩
      · refine .inl ⟨?_, ?_⟩
        · simp only [dequeueFirst, hskip, hnone]
        · simpa [hpkts] using hempty
      · refine .inr ⟨queue :: before, found, after, item, rest, rfl, ?_, hfound, ?_⟩
        · simpa [hpkts] using hempty
        · simp only [dequeueFirst, hskip, hsome, cons_append]

theorem peekFirst_eq {queues : List DropTailQueue}
    (hcnt : ∀ queue ∈ queues, queue.Counted) : peekFirst queues = (dequeueFirst queues).1 := by
  induction queues with
  | nil => rfl
  | cons queue later ih =>
    have hq := hcnt queue mem_cons_self
    have hsame : queue.peek = queue.dequeue.1 := (peek_eq hq).trans (dequeue_fst hq).symm
    simp only [peekFirst, dequeueFirst, hsame]
    cases queue.dequeue.1 with
    | some item => rfl
    | none => exact ih fun other hother => hcnt other (.tail _ hother)

/-- The queue of a band holds its waiting packets in order, with the capacity that `CheckConfig`
accepted. -/
structure Banded (cfg : PfifoHomaConfig) (waiting : List QueueDiscItem)
    (queues : List DropTailQueue) : Prop where
  length : queues.length = cfg.numBands
  counted : ∀ queue ∈ queues, queue.Counted
  capacity : ∀ queue ∈ queues, queue.maxSize ∈ queueSizes cfg
  packets : ∀ index (hidx : index < queues.length),
    (queues[index]).packets = waiting.filter (band cfg · = index)

namespace Banded

variable {waiting : List QueueDiscItem} {queues : List DropTailQueue}

theorem init (hcfg : checkConfig cfg = true) :
    Banded cfg [] ((queueSizes cfg).map empty) where
  length := by rw [length_map, (checkConfig_sizes hcfg).1]
  counted queue hq := by
    obtain ⟨size, -, rfl⟩ := mem_map.mp hq
    exact empty_counted size
  capacity queue hq := by
    obtain ⟨size, hsz, rfl⟩ := mem_map.mp hq
    exact hsz
  packets index hidx := by simp [empty]

section

variable (hbanded : Banded cfg waiting queues)
include hbanded

theorem length_le {index : Nat}
    (hidx : index < queues.length) : (queues[index]).packets.length ≤ waiting.length := by
  rw [hbanded.packets index hidx]
  exact length_filter_le _ _

theorem enqueue (hcfg : checkConfig cfg = true) (hroom : waiting.length < cfg.maxSize)
    (hlim : cfg.maxSize < 2 ^ 32) (item : QueueDiscItem) (hidx : band cfg item < queues.length) :
    ((queues[band cfg item]).enqueue item).1 = true ∧
      Banded cfg (waiting ++ [item])
        (queues.set (band cfg item) ((queues[band cfg item]).enqueue item).2) := by
  have hmem := getElem_mem hidx
  have hcapacity := hbanded.capacity _ hmem
  have hsz := (checkConfig_sizes hcfg).2 _ hcapacity
  have hshort := hbanded.length_le hidx
  obtain ⟨hacc, hcnt, hpkts, hmax⟩ := enqueue_of_room
    (hbanded.counted _ hmem) hsz.1 (by omega) (by omega) item
  refine ⟨hacc, ⟨?_, ?_, ?_, ?_⟩⟩
  · rw [length_set, hbanded.length]
  · intro queue hq
    rcases mem_or_eq_of_mem_set hq with hold | rfl
    · exact hbanded.counted queue hold
    · exact hcnt
  · intro queue hq
    rcases mem_or_eq_of_mem_set hq with hold | rfl
    · exact hbanded.capacity queue hold
    · exact hmax ▸ hcapacity
  · intro index hother
    rw [length_set] at hother
    rw [getElem_set, filter_append]
    split
    next heq =>
      subst heq
      rw [hpkts, hbanded.packets _ hidx]
      simp
    next hne =>
      rw [hbanded.packets index hother]
      simp [hne]

theorem waiting_nil (hbands : 1 ≤ cfg.numBands)
    (hempty : ∀ queue ∈ queues, queue.packets = []) : waiting = [] := by
  apply eq_nil_iff_forall_not_mem.mpr
  intro item hitem
  have hidx : band cfg item < queues.length := hbanded.length ▸ band_lt hbands item
  have hnone : (queues[band cfg item]).packets = [] := hempty _ (getElem_mem hidx)
  rw [hbanded.packets _ hidx] at hnone
  have hmem : item ∈ waiting.filter (band cfg · = band cfg item) := by simp [hitem]
  rw [hnone] at hmem
  exact not_mem_nil hmem

theorem dequeue (hbands : 1 ≤ cfg.numBands) :
    (dequeueFirst queues).1 = (takeLeast (band cfg) waiting).map Prod.fst ∧
      Banded cfg (((takeLeast (band cfg) waiting).map Prod.snd).getD waiting)
        (dequeueFirst queues).2 := by
  rcases dequeueFirst_split hbanded.counted with ⟨hnone, hempty⟩ | ⟨before, queue, after, item,
    rest, rfl, hempty, hpkts, hsome⟩
  · have hwait := hbanded.waiting_nil hbands hempty
    subst hwait
    rw [hnone]
    exact ⟨rfl, hbanded⟩
  · have hidx : before.length < (before ++ queue :: after).length := by simp
    have hq : (before ++ queue :: after)[before.length] = queue := by simp
    have hscan := hbanded.packets _ hidx
    rw [hq, hpkts] at hscan
    -- the bands before this one have no waiting packets
    have hlower : ∀ other ∈ waiting, before.length ≤ band cfg other := by
      intro other hother
      by_contra hless
      have hearly : band cfg other < before.length := Nat.lt_of_not_le hless
      have hnone := hempty _ (getElem_mem hearly)
      have hband := hbanded.packets (band cfg other) (by simp; omega)
      rw [getElem_append_left hearly, hnone] at hband
      have hmem : other ∈ waiting.filter (band cfg · = band cfg other) := by simp [hother]
      rw [← hband] at hmem
      exact not_mem_nil hmem
    obtain ⟨others, htake, hsame, hothers⟩ := takeLeast_of_scan hlower hscan.symm
    obtain ⟨-, hcnt, hrest, hmax⟩ := dequeue_cons
      (hbanded.counted queue (by simp)) hpkts
    rw [htake, hsome]
    refine ⟨rfl, ⟨?_, ?_, ?_, ?_⟩⟩
    · rw [← hbanded.length]
      simp
    · intro other hother
      rcases mem_append.mp hother with hmem | hmem
      · exact hbanded.counted other (by simp [hmem])
      · rcases mem_cons.mp hmem with rfl | hmem
        · exact hcnt
        · exact hbanded.counted other (by simp [hmem])
    · intro other hother
      rcases mem_append.mp hother with hmem | hmem
      · exact hbanded.capacity other (by simp [hmem])
      · rcases mem_cons.mp hmem with rfl | hmem
        · rw [hmax]
          exact hbanded.capacity queue (by simp)
        · exact hbanded.capacity other (by simp [hmem])
    · intro index hother
      have hold : index < (before ++ queue :: after).length := by simpa using hother
      have hpre := hbanded.packets index hold
      simp only [Option.map_some, Option.getD_some]
      by_cases heq : index = before.length
      · subst heq
        simp [hrest, hsame]
      · rw [hothers index heq, ← hpre, getElem_append, getElem_append]
        split
        · rfl
        next hge =>
          rw [getElem_cons, getElem_cons]
          have hpos : index - before.length ≠ 0 := by omega
          rw [dif_neg hpos, dif_neg hpos]

end

end Banded

structure Represents (cfg : PfifoHomaConfig) (waiting : List QueueDiscItem)
    (queueDisc : QueueDisc (List DropTailQueue)) : Prop where
  requeued : queueDisc.base.requeued = none
  peeked : queueDisc.base.peeked = false
  nPackets : queueDisc.base.nPackets = waiting.length
  limit : waiting.length ≤ cfg.maxSize
  banded : Banded cfg waiting queueDisc.inner
  conserved : queueDisc.base.log.enqueued.Perm (queueDisc.base.log.handedOut ++ waiting)
  reasons : ∀ drop ∈ queueDisc.base.log.droppedBeforeEnqueue, drop.2 = LIMIT_EXCEEDED_DROP

theorem represents_init (hcfg : checkConfig cfg = true) (quota : Nat)
    (iface : Option NetDeviceQueueInterface) :
    Represents cfg [] (init (pfifoHomaQueueDisc cfg) quota iface) where
  requeued := rfl
  peeked := rfl
  nPackets := rfl
  limit := Nat.zero_le _
  banded := .init hcfg
  conserved := .refl _
  reasons _ hdrop := nomatch hdrop

section Step

variable {waiting : List QueueDiscItem} {self : QueueDisc (List DropTailQueue)}

section

variable (hself : Represents cfg waiting self)
include hself

section

variable (hcfg : checkConfig cfg = true) (hbands : 1 ≤ cfg.numBands) (hlim :
  cfg.maxSize < 2 ^ 32)
include hcfg hbands hlim

theorem represents_enqueue (env : Env Unit) (item : QueueDiscItem) :
    (self.enqueue (pfifoHomaQueueDisc cfg) env item).1 = !decide (waiting.length = cfg.maxSize) ∧
      Represents cfg (if waiting.length = cfg.maxSize then waiting else waiting ++ [item])
        (self.enqueue (pfifoHomaQueueDisc cfg) env item).2 := by
  obtain ⟨hrequ, hpeeked, hcnt, hfull, hbanded, hcons, hreasons⟩ := hself
  simp only [QueueDisc.enqueue, pfifoHomaQueueDisc, doEnqueue, occupancy, receive, hcnt]
  by_cases hequal : waiting.length = cfg.maxSize
  · simp only [hequal, ge_iff_le, le_refl, if_true, callbacks, foldl_cons,
      foldl_nil, callback, dropBeforeEnqueue]
    refine ⟨by simp, ⟨hrequ, hpeeked, hequal.symm, hfull, hbanded, hcons, ?_⟩⟩
    intro drop hdrop
    rcases mem_append.mp hdrop with hold | hnew
    · exact hreasons drop hold
    · rw [mem_singleton.mp hnew]
  · have hroom : waiting.length < cfg.maxSize := by omega
    have hidx : band cfg item < self.inner.length := hbanded.length ▸ band_lt hbands item
    obtain ⟨hacc, hnext⟩ := hbanded.enqueue hcfg hroom hlim item hidx
    have hmore : uint32 (waiting.length + 1) = waiting.length + 1 := uint32_of_lt (by omega)
    rw [if_neg (by omega), getElem?_eq_getElem hidx]
    simp only [hacc, if_true, if_neg hequal, callbacks, foldl_cons,
      foldl_nil, callback, packetEnqueued]
    refine ⟨by simp [hequal], ⟨hrequ, hpeeked, ?_, ?_, hnext, ?_, hreasons⟩⟩
    · simp [hmore]
    · rw [length_append, length_singleton]
      exact hroom
    · rw [← append_assoc]
      exact hcons.append_right [item]

omit hcfg hbands hlim in
theorem represents_dequeue (hbands : 1 ≤ cfg.numBands) (hlim : cfg.maxSize < 2 ^ 32)
    (env : Env Unit) :
    (self.dequeue (pfifoHomaQueueDisc cfg) env).1 = (takeLeast (band cfg) waiting).map Prod.fst ∧
      Represents cfg (((takeLeast (band cfg) waiting).map Prod.snd).getD waiting)
        ((self.dequeue (pfifoHomaQueueDisc cfg) env).2.handOut
          (self.dequeue (pfifoHomaQueueDisc cfg) env).1) := by
  obtain ⟨hrequ, hpeeked, hcnt, hfull, hbanded, hcons, hreasons⟩ := hself
  obtain ⟨hitem, hnext⟩ := hbanded.dequeue hbands
  simp only [QueueDisc.dequeue, hrequ, pfifoHomaQueueDisc, doDequeue]
  cases htake : takeLeast (band cfg) waiting with
  | none =>
    rw [htake] at hitem hnext
    rw [hitem]
    refine ⟨rfl, ⟨hrequ, hpeeked, hcnt, hfull, hnext, ?_, hreasons⟩⟩
    simpa [QueueDisc.handOut, callbacks] using hcons
  | some taken =>
    obtain ⟨least, others⟩ := taken
    rw [htake] at hitem hnext
    have hperm := takeLeast_perm htake
    have hlen : waiting.length = others.length + 1 := by simpa using hperm.length_eq
    have hless : uint32OfInt ((self.base.nPackets : Int) - 1) = others.length := by
      rw [hcnt, hlen, uint32OfInt]
      omega
    rw [hitem]
    simp only [Option.map_some, Option.toList_some, map_cons, map_nil,
      callbacks, foldl_cons, foldl_nil, callback, packetDequeued,
      hpeeked, Bool.false_eq_true, if_false, QueueDisc.handOut, Option.getD_some]
    refine ⟨trivial, ⟨hrequ, rfl, hless, by omega, hnext, ?_, hreasons⟩⟩
    rw [append_assoc, singleton_append]
    exact hcons.trans (hperm.append_left _)

omit hcfg hbands hlim in
theorem represents_peek (hbands : 1 ≤ cfg.numBands) (env : Env Unit) :
    (self.peek (pfifoHomaQueueDisc cfg) env).1 = (takeLeast (band cfg) waiting).map Prod.fst ∧
    (self.peek (pfifoHomaQueueDisc cfg) env).2 = self := by
  have hsame := peekFirst_eq hself.banded.counted
  have hfst := (hself.banded.dequeue hbands).1
  exact ⟨hsame.trans hfst, rfl⟩

theorem represents_call (input : StoreCall) :
    (self.call (pfifoHomaQueueDisc cfg) (toCall input)).1 = (priorityCall cfg waiting input).1 ∧
      Represents cfg (priorityCall cfg waiting input).2
        (self.call (pfifoHomaQueueDisc cfg) (toCall input)).2 := by
  cases input with
  | enqueue now packet dsField =>
    obtain ⟨hanswer, hnext⟩ := represents_enqueue hself hcfg hbands hlim ⟨now, ()⟩
      (.arriving now packet dsField)
    simp only [toCall, call, priorityCall, hanswer]
    by_cases hequal : waiting.length = cfg.maxSize
    · simpa [hequal] using hnext
    · simpa [hequal] using hnext
  | dequeue now =>
    obtain ⟨hanswer, hnext⟩ := represents_dequeue hself hbands hlim ⟨now, ()⟩
    rw [band_eq_bandOf hbands] at hanswer hnext
    simp only [toCall, call, priorityCall, hanswer] at hnext ⊢
    cases htake : takeLeast (bandOf cfg) waiting with
    | none => simpa [htake] using hnext
    | some taken => simpa [htake] using hnext
  | peek now =>
    obtain ⟨hanswer, hnext⟩ := represents_peek hself hbands ⟨now, ()⟩
    rw [band_eq_bandOf hbands] at hanswer
    simp only [toCall, call, priorityCall, hanswer, hnext]
    exact ⟨trivial, hself⟩

theorem represents_calls (inputs : List StoreCall) :
    (calls (pfifoHomaQueueDisc cfg) (inputs.map toCall) self).1 =
      (priorityCalls cfg inputs waiting).1 ∧
      Represents cfg (priorityCalls cfg inputs waiting).2
        (calls (pfifoHomaQueueDisc cfg) (inputs.map toCall) self).2 := by
  induction inputs generalizing waiting self with
  | nil => exact ⟨rfl, hself⟩
  | cons input later ih =>
    obtain ⟨hanswer, hnext⟩ := represents_call hself hcfg hbands hlim input
    obtain ⟨hans, hlast⟩ := ih hnext
    simp only [map_cons, calls, priorityCalls]
    exact ⟨by rw [hanswer, hans], hlast⟩

end

end

end Step

/-- Every list of calls gets the answers of the abstract queue; the packet counter counts its
packets, every accepted packet was handed out once or is one of them, and no internal queue has
refused a packet. -/
theorem strict_priority (hcfg : checkConfig cfg = true) (hbands : 1 ≤ cfg.numBands)
    (hlim : cfg.maxSize < 2 ^ 32) (quota : Nat) (iface : Option NetDeviceQueueInterface)
    (inputs : List StoreCall) :
    let disc := pfifoHomaQueueDisc cfg
    let ran := QueueDisc.calls disc (inputs.map toCall) (.init disc quota iface)
    let abstract := priorityCalls cfg inputs []
    ran.1 = abstract.1 ∧ ran.2.base.nPackets = abstract.2.length ∧
      ran.2.base.log.enqueued.Perm (ran.2.base.log.handedOut ++ abstract.2) ∧
      ∀ drop ∈ ran.2.base.log.droppedBeforeEnqueue, drop.2 = LIMIT_EXCEEDED_DROP := by
  intro disc ran abstract
  obtain ⟨hanswers, hlast⟩ :=
    represents_calls (represents_init hcfg quota iface) hcfg hbands hlim inputs
  exact ⟨hanswers, hlast.nPackets, hlast.conserved, hlast.reasons⟩

theorem strict_priority_two_bands :
    let cfg : PfifoHomaConfig := ⟨2, 2, 0, 0, []⟩
    let inputs : List StoreCall := [.enqueue 0 ⟨1, 100, 0⟩ (some 4),
      .enqueue 1 ⟨2, 100, 0⟩ (some 0), .enqueue 2 ⟨3, 100, 0⟩ none, .peek 3, .dequeue 4,
      .dequeue 5, .dequeue 6]
    let disc := pfifoHomaQueueDisc cfg
    let ran := QueueDisc.calls disc (inputs.map toCall) (.init disc 64 none)
    ran.1 = (priorityCalls cfg inputs []).1 ∧
      ran.1 = [.accepted true, .accepted true, .accepted false,
        .packet (some (.arriving 1 ⟨2, 100, 0⟩ (some 0))),
        .packet (some (.arriving 1 ⟨2, 100, 0⟩ (some 0))),
        .packet (some (.arriving 0 ⟨1, 100, 0⟩ (some 4))), .packet none] := by
  intro cfg inputs disc ran
  have hran : ran.1 = (priorityCalls cfg inputs []).1 :=
    (@strict_priority cfg (by decide) (by decide) (by decide) 64 none inputs).1
  exact ⟨hran, hran.trans (by decide)⟩

end PfifoHomaQueueDisc

end HomaSird.TrafficControl
