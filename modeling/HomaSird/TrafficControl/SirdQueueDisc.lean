import HomaSird.TrafficControl.PfifoHomaQueueDisc

/-! # `SirdQueueDisc` marks and drops by occupancy

One drop-tail queue behind a test of the base class's counters. A packet that the test admits
may be marked before the queue takes it, so the queue must not refuse it.
-/

namespace HomaSird.TrafficControl

open QueueDisc List Base

/-- The attributes, and what the user added; internal queues are given by their capacities. -/
structure SirdConfig where
  maxSize : QueueSize
  markThreshold : QueueSize
  useEcn : Bool
  nQueueDiscClasses : Nat
  nPacketFilters : Nat
  internalQueues : List QueueSize
  maxSize_lt : maxSize.value < 2 ^ 32
  internalQueues_lt : ∀ size ∈ internalQueues, size.value < 2 ^ 32

namespace SirdQueueDisc

def LIMIT_EXCEEDED_DROP : String := "Queue disc limit exceeded"

def THRESHOLD_MARK : String := "Threshold exceeded mark"

/-- `GetMaxSize`: the capacity of the internal queue if there is one. -/
def getMaxSize (cfg : SirdConfig) : QueueSize :=
  cfg.internalQueues.headD cfg.maxSize

/-- The capacities of the internal queues once `CheckConfig` has created one if there was none. -/
def queueSizes (cfg : SirdConfig) : List QueueSize :=
  if cfg.internalQueues.length = 0 then [getMaxSize cfg] else cfg.internalQueues

def checkConfig (cfg : SirdConfig) : Bool :=
  !decide (cfg.nQueueDiscClasses > 0) && !decide (cfg.nPacketFilters > 0)
    && !(decide (cfg.markThreshold.value > 0)
      && cfg.markThreshold.unit != (getMaxSize cfg).unit)
    && (queueSizes cfg).length == 1

def markItem (cfg : SirdConfig) (newSize : QueueSize) (item : QueueDiscItem) :
    Option QueueDiscItem :=
  if cfg.useEcn ∧ cfg.markThreshold.value > 0 ∧ newSize.value ≥ cfg.markThreshold.value
  then item.mark else none

def doEnqueue (cfg : SirdConfig) (_env : Env Unit) (occupancy : Occupancy)
    (item : QueueDiscItem) (queue : DropTailQueue) : Outcome DropTailQueue Bool :=
  let newSize := (queue.maxSize.current occupancy.nPackets occupancy.nBytes).add item.size
  if newSize.value > queue.maxSize.value then
    ⟨false, queue, [.dropBeforeEnqueue item LIMIT_EXCEEDED_DROP]⟩
  else
    let marked := markItem cfg newSize item
    let kept := marked.getD item
    let enqueued := queue.enqueue kept
    ⟨enqueued.1, enqueued.2, marked.toList.map (.mark · THRESHOLD_MARK) ++
      if enqueued.1 then [.packetEnqueued kept] else [.dropBeforeEnqueue kept INTERNAL_QUEUE_DROP]⟩

def doDequeue (_env : Env Unit) (_occupancy : Occupancy) (queue : DropTailQueue) :
    Outcome DropTailQueue (Option QueueDiscItem) :=
  let dequeued := queue.dequeue
  ⟨dequeued.1, dequeued.2, dequeued.1.toList.map .packetDequeued⟩

def doPeek (_env : Env Unit) (_occupancy : Occupancy) (queue : DropTailQueue) :
    Outcome DropTailQueue (Option QueueDiscItem) :=
  ⟨queue.peek, queue, []⟩

end SirdQueueDisc

open SirdQueueDisc in
def sirdQueueDisc (cfg : SirdConfig) : Discipline DropTailQueue Unit where
  init := .empty ((queueSizes cfg).headD cfg.maxSize)
  doEnqueue := doEnqueue cfg
  doDequeue := doDequeue
  doPeek := some doPeek

namespace SirdQueueDisc

open PfifoHomaQueueDisc (toCall)

/-! ## What it is for -/

def amount (unit : QueueSizeUnit) (item : QueueDiscItem) : Nat :=
  match unit with
  | .packets => 1
  | .bytes => item.size

def occupancy (unit : QueueSizeUnit) (items : List QueueDiscItem) : Nat :=
  (items.map (amount unit)).sum

def isCE (item : QueueDiscItem) : Prop := ∃ dsField, item.dsField = some dsField ∧ dsField &&& 3 = 3

def ecnCapable (item : QueueDiscItem) : Prop :=
  ∃ dsField, item.dsField = some dsField ∧ dsField &&& 3 ≠ 0

/-- A packet is dropped if the occupancy with it exceeds the maximum, and else queued; CE is set if
it arrived so, or if it is ECN capable and the occupancy with it has reached the threshold while
marking is on. The first packet is the next to leave. -/
def Serves (cfg : SirdConfig) (self : QueueDisc DropTailQueue) (input : StoreCall) : Prop :=
  let result := self.call (sirdQueueDisc cfg) (toCall input)
  let limit := getMaxSize cfg
  match input with
  | .enqueue now packet dsField =>
    let item := QueueDiscItem.arriving now packet dsField
    let newSize := occupancy limit.unit (self.inner.packets ++ [item])
    if limit.value < newSize then
      result.1 = .accepted false ∧ result.2.inner.packets = self.inner.packets
    else
      result.1 = .accepted true ∧ ∃ kept,
        result.2.inner.packets = self.inner.packets ++ [kept] ∧
        kept.toDatagram = item.toDatagram ∧
        (isCE kept ↔ isCE item ∨ (ecnCapable item ∧ cfg.useEcn = true ∧
          cfg.markThreshold.value ≠ 0 ∧ cfg.markThreshold.value ≤
            occupancy cfg.markThreshold.unit (self.inner.packets ++ [item])))
  | .dequeue _ =>
    result.1 = .packet self.inner.packets.head? ∧
      result.2.inner.packets = self.inner.packets.tail
  | .peek _ => result.1 = .packet self.inner.packets.head? ∧
      result.2.inner.packets = self.inner.packets

def after (cfg : SirdConfig) (quota : Nat) (iface : Option NetDeviceQueueInterface)
    (inputs : List StoreCall) : QueueDisc DropTailQueue :=
  (QueueDisc.calls (sirdQueueDisc cfg) (inputs.map toCall)
    (.init (sirdQueueDisc cfg) quota iface)).2

/-- Every call does what it should, the internal queue drops nothing, and what was accepted has
been handed out or waits, in order. -/
structure Faithful (cfg : SirdConfig) (quota : Nat) (iface : Option NetDeviceQueueInterface)
    (inputs : List StoreCall) : Prop where
  serves : ∀ front next back, inputs = front ++ next :: back →
    Serves cfg (after cfg quota iface front) next
  reasons : ∀ front back, inputs = front ++ back →
    ∀ drop ∈ (after cfg quota iface front).base.log.droppedBeforeEnqueue,
      drop.2 = LIMIT_EXCEEDED_DROP
  inOrder : ∀ front back, inputs = front ++ back →
    (after cfg quota iface front).base.log.enqueued =
      (after cfg quota iface front).base.log.handedOut ++
        (after cfg quota iface front).inner.packets

/-- `GetCurrentSize`. -/
def currentSize (cfg : SirdConfig) (self : QueueDisc DropTailQueue) : Nat :=
  ((getMaxSize cfg).current self.base.nPackets self.base.nBytes).value

def NoWrap (cfg : SirdConfig) (quota : Nat) (iface : Option NetDeviceQueueInterface)
    (inputs : List StoreCall) : Prop :=
  ∀ front now packet dsField back, inputs = front ++ .enqueue now packet dsField :: back →
    currentSize cfg (after cfg quota iface front) +
      amount (getMaxSize cfg).unit (.arriving now packet dsField) < 2 ^ 32

def Sized (inputs : List StoreCall) : Prop :=
  ∀ now packet dsField, .enqueue now packet dsField ∈ inputs →
    0 < packet.size ∧ packet.size < 2 ^ 32

variable {cfg : SirdConfig} {self : QueueDisc DropTailQueue} {item : QueueDiscItem}
  {queue : DropTailQueue}

/-! ## Occupancy -/

theorem occupancy_concat (unit : QueueSizeUnit) (items : List QueueDiscItem) (item : QueueDiscItem)
    : occupancy unit (items ++ [item]) = occupancy unit items + amount unit item := by
  simp [occupancy]

theorem occupancy_cons (unit : QueueSizeUnit) (item : QueueDiscItem)
    (items : List QueueDiscItem) :
    occupancy unit (item :: items) = amount unit item + occupancy unit items := rfl

theorem amount_pos {unit : QueueSizeUnit} (hsz : 0 < item.size) : 0 < amount unit item := by
  cases unit with
  | packets => exact Nat.one_pos
  | bytes => exact hsz

theorem length_le_occupancy (unit : QueueSizeUnit) {items : List QueueDiscItem}
    (hsized : ∀ item ∈ items, 0 < item.size) : items.length ≤ occupancy unit items := by
  induction items with
  | nil => exact Nat.zero_le _
  | cons item rest ih =>
    obtain ⟨hitem, hrest⟩ := forall_mem_cons.mp hsized
    have hpos : 0 < amount unit item := amount_pos hitem
    have hle := ih hrest
    rw [length_cons, occupancy_cons]
    omega

theorem value_add (size : QueueSize) (item : QueueDiscItem) :
    (size.add item.size).value = uint32 (size.value + amount size.unit item) := by
  unfold QueueSize.add amount
  cases size.unit <;> rfl

/-! ## What holds along runs -/

/-- The counters of the base class are those of the internal queue and exact; the occupancy is
within the limit. -/
structure Holds (cfg : SirdConfig) (queueDisc : QueueDisc DropTailQueue) : Prop where
  requeued : queueDisc.base.requeued = none
  peeked : queueDisc.base.peeked = false
  maxSize : queueDisc.inner.maxSize = getMaxSize cfg
  nPackets : queueDisc.base.nPackets = queueDisc.inner.packets.length
  nBytes : queueDisc.base.nBytes = uint32 (occupancy .bytes queueDisc.inner.packets)
  innerPackets : queueDisc.inner.nPackets = queueDisc.inner.packets.length
  innerBytes : queueDisc.inner.nBytes = uint32 (occupancy .bytes queueDisc.inner.packets)
  limit : occupancy (getMaxSize cfg).unit queueDisc.inner.packets ≤ (getMaxSize cfg).value
  sized : ∀ item ∈ queueDisc.inner.packets, 0 < item.size
  reasons : ∀ drop ∈ queueDisc.base.log.droppedBeforeEnqueue, drop.2 = LIMIT_EXCEEDED_DROP
  inOrder : queueDisc.base.log.enqueued = queueDisc.base.log.handedOut ++ queueDisc.inner.packets

theorem getMaxSize_lt (cfg : SirdConfig) : (getMaxSize cfg).value < 2 ^ 32 := by
  unfold getMaxSize
  cases hqs : cfg.internalQueues with
  | nil => exact cfg.maxSize_lt
  | cons size rest => exact cfg.internalQueues_lt size (hqs ▸ mem_cons_self)

theorem checkConfig_unit (hcfg : checkConfig cfg = true) (hne :
    cfg.markThreshold.value ≠ 0) : cfg.markThreshold.unit = (getMaxSize cfg).unit := by
  simp only [checkConfig, Bool.and_eq_true, Bool.not_eq_true', Bool.and_eq_false_iff,
    decide_eq_false_iff_not, bne_eq_false_iff_eq] at hcfg
  exact hcfg.1.2.resolve_left fun hzero => hzero (Nat.pos_of_ne_zero hne)

theorem queueSizes_headD (cfg : SirdConfig) :
    (queueSizes cfg).headD cfg.maxSize = getMaxSize cfg := by
  unfold queueSizes
  split
  · rfl
  · rfl

theorem holds_init (cfg : SirdConfig) (quota : Nat) (iface : Option NetDeviceQueueInterface) :
    Holds cfg (.init (sirdQueueDisc cfg) quota iface) where
  requeued := rfl
  peeked := rfl
  maxSize := queueSizes_headD cfg
  nPackets := rfl
  nBytes := rfl
  innerPackets := rfl
  innerBytes := rfl
  limit := Nat.zero_le _
  sized _ hitem := nomatch hitem
  reasons _ hdrop := nomatch hdrop
  inOrder := rfl

theorem Holds.currentSize_eq (hself : Holds cfg self) :
    currentSize cfg self = occupancy (getMaxSize cfg).unit self.inner.packets := by
  have hlim := hself.limit
  have hword := getMaxSize_lt cfg
  unfold currentSize QueueSize.current
  cases hunit : (getMaxSize cfg).unit with
  | packets =>
    simp only [hself.nPackets]
    induction self.inner.packets with
    | nil => rfl
    | cons first rest ih => rw [length_cons, occupancy_cons, ← ih, amount, add_comm]
  | bytes =>
    rw [hunit] at hlim
    simp only [hself.nBytes]
    exact uint32_of_lt (by omega)

/-! ## Marks -/

theorem isCE_of_mark {marked : QueueDiscItem} (hmark : item.mark = some marked) : isCE marked := by
  unfold QueueDiscItem.mark at hmark
  split at hmark
  next dsField hfield =>
    split at hmark
    · cases hmark
      refine ⟨dsField ||| 3, rfl, UInt8.toBitVec_inj.mp ?_⟩
      simp only [UInt8.toBitVec_and, UInt8.toBitVec_or]
      ext bit hbit
      rw [BitVec.getElem_and, BitVec.getElem_or]
      generalize dsField.toBitVec[bit] = before
      generalize (UInt8.toBitVec 3)[bit] = mask
      cases before <;> cases mask <;> rfl
    · cases hmark
  · cases hmark

theorem mark_isSome_iff (hheader : item.headersAdded = 0) :
    (∃ marked, item.mark = some marked) ↔ ecnCapable item := by
  unfold QueueDiscItem.mark ecnCapable
  cases item.dsField with
  | none => simp
  | some dsField => simp [hheader]

theorem isCE_kept_iff (hheader : item.headersAdded = 0) (newSize : QueueSize) :
    isCE ((markItem cfg newSize item).getD item) ↔
      isCE item ∨
        (ecnCapable item ∧ cfg.useEcn = true ∧ cfg.markThreshold.value ≠ 0 ∧
          cfg.markThreshold.value ≤ newSize.value) := by
  unfold markItem
  split
  next hreach =>
    obtain ⟨huse, hpos, hle⟩ := hreach
    cases hmark : item.mark with
    | some marked =>
      have hcapable := (mark_isSome_iff hheader).mp ⟨marked, hmark⟩
      exact iff_of_true (isCE_of_mark hmark)
        (.inr ⟨hcapable, huse, Nat.pos_iff_ne_zero.mp hpos, hle⟩)
    | none =>
      have hnot : ¬ ecnCapable item := fun hcapable => by
        obtain ⟨marked, hsome⟩ := (mark_isSome_iff hheader).mpr hcapable
        rw [hmark] at hsome
        cases hsome
      exact ⟨.inl, fun h => h.resolve_right fun hmarked => hnot hmarked.1⟩
  next hnot =>
    refine ⟨.inl, fun h => h.resolve_right ?_⟩
    rintro ⟨-, huse, hne, hle⟩
    exact hnot ⟨huse, Nat.pos_of_ne_zero hne, hle⟩

theorem kept_toDatagram (newSize : QueueSize) :
    ((markItem cfg newSize item).getD item).toDatagram = item.toDatagram := by
  unfold markItem
  split
  · cases hmark : item.mark with
    | none => rfl
    | some marked => exact QueueDiscItem.mark_toDatagram hmark
  · rfl

/-! ## Calls -/

def pushed (queue : DropTailQueue) (item : QueueDiscItem) : DropTailQueue :=
  { queue with
    packets := queue.packets ++ [item]
    nPackets := uint32 (queue.nPackets + 1)
    nBytes := uint32 (queue.nBytes + item.size) }

theorem enqueue_eq (queue : DropTailQueue) (item : QueueDiscItem) :
    queue.enqueue item = if (queue.getCurrentSize.add item.size).value > queue.maxSize.value then
      (false, queue) else (true, pushed queue item) := rfl

def newSize (self : QueueDisc DropTailQueue) (item : QueueDiscItem) : QueueSize :=
  (self.inner.maxSize.current self.base.nPackets self.base.nBytes).add item.size

theorem doEnqueue_eq (hself : Holds cfg self) (env : Env Unit) (item : QueueDiscItem) :
    doEnqueue cfg env self.base.occupancy item self.inner =
      if (newSize self item).value > self.inner.maxSize.value then
        ⟨false, self.inner, [.dropBeforeEnqueue item LIMIT_EXCEEDED_DROP]⟩
      else ⟨true, pushed self.inner ((markItem cfg (newSize self item) item).getD item),
          (markItem cfg (newSize self item) item).toList.map (.mark · THRESHOLD_MARK) ++
            [.packetEnqueued ((markItem cfg (newSize self item) item).getD item)]⟩ := by
  change (if (newSize self item).value > self.inner.maxSize.value then _ else _) = _
  by_cases hfull : (newSize self item).value > self.inner.maxSize.value
  · rw [if_pos hfull, if_pos hfull]
  · have hsame : self.inner.getCurrentSize.add
        ((markItem cfg (newSize self item) item).getD item).size = newSize self item := by
      rw [congrArg (fun datagram : Datagram => datagram.size) (kept_toDatagram (newSize self item)),
        newSize, DropTailQueue.getCurrentSize, hself.innerPackets, hself.innerBytes,
        hself.nPackets, hself.nBytes]
    have htaken : self.inner.enqueue ((markItem cfg (newSize self item) item).getD item) =
        (true, pushed self.inner ((markItem cfg (newSize self item) item).getD item)) := by
      rw [enqueue_eq, hsame, if_neg hfull]
    rw [if_neg hfull, if_neg hfull]
    simp only [newSize, Base.occupancy] at htaken ⊢
    simp only [htaken, if_true]

theorem newSize_value (hself : Holds cfg self) (item : QueueDiscItem) :
    (newSize self item).value =
      uint32 (currentSize cfg self + amount (getMaxSize cfg).unit item) := by
  have hunit : ((getMaxSize cfg).current self.base.nPackets self.base.nBytes).unit =
      (getMaxSize cfg).unit := by
    unfold QueueSize.current
    cases (getMaxSize cfg).unit <;> rfl
  rw [newSize, hself.maxSize, value_add, hunit]
  rfl

theorem callbacks_marks (base : Base) (marked : Option QueueDiscItem) (reports : List Callback) :
    ∃ stats, base.callbacks (marked.toList.map (.mark · THRESHOLD_MARK) ++ reports) =
      ({ base with stats := stats }).callbacks reports := by
  cases marked with
  | none => exact ⟨base.stats, rfl⟩
  | some item => exact ⟨base.stats.mark item.size THRESHOLD_MARK, rfl⟩

theorem enqueue_dropped (hself : Holds cfg self) (now : Nat) (packet : Packet)
    (dsField : Option UInt8)
    (hfull : (newSize self (.arriving now packet dsField)).value > (getMaxSize cfg).value) :
    let result := self.call (sirdQueueDisc cfg) (toCall (.enqueue now packet dsField))
    result.1 = .accepted false ∧ result.2.inner = self.inner ∧ Holds cfg result.2 := by
  intro result
  have hcall : result = (.accepted false, ⟨((self.base.receive
      (.arriving now packet dsField)).dropBeforeEnqueue (.arriving now packet dsField)
        LIMIT_EXCEEDED_DROP), self.inner⟩) := by
    have henq := doEnqueue_eq hself ⟨now, ()⟩ (.arriving now packet dsField)
    rw [hself.maxSize, if_pos hfull] at henq
    simp only [result, toCall, call, enqueue, sirdQueueDisc]
    change (Answer.accepted (doEnqueue cfg _ self.base.occupancy _ self.inner).result, _) = _
    simp only [Base.occupancy, Base.receive] at henq ⊢
    rw [henq]
    rfl
  rw [hcall]
  refine ⟨rfl, rfl, ?_⟩
  obtain ⟨hrequ, hpeeked, hmax, hcnt, hbytes, hinner, hinnerBytes, hlim, hsized, hreasons,
    horder⟩ := hself
  refine ⟨hrequ, hpeeked, hmax, hcnt, hbytes, hinner, hinnerBytes, hlim, hsized, ?_, horder⟩
  intro drop hdrop
  rcases mem_append.mp hdrop with hold | hnew
  · exact hreasons drop hold
  · rw [mem_singleton.mp hnew]

theorem enqueue_kept (hself : Holds cfg self) (now : Nat) (packet : Packet)
    (dsField : Option UInt8)
    (hroom : ¬ (newSize self (.arriving now packet dsField)).value > (getMaxSize cfg).value) :
    let item := QueueDiscItem.arriving now packet dsField
    let kept := (markItem cfg (newSize self item) item).getD item
    let result := self.call (sirdQueueDisc cfg) (toCall (.enqueue now packet dsField))
    result.1 = .accepted true ∧ result.2.inner = pushed self.inner kept ∧
      ∃ stats, result.2.base =
        ({ self.base.receive item with stats := stats }).packetEnqueued kept := by
  intro item kept result
  obtain ⟨stats, hmarks⟩ := callbacks_marks (self.base.receive item)
    (markItem cfg (newSize self item) item) [.packetEnqueued kept]
  have hcall : result = (.accepted true,
      ⟨({ self.base.receive item with stats := stats }).packetEnqueued kept,
        pushed self.inner kept⟩) := by
    have henq := doEnqueue_eq hself ⟨now, ()⟩ item
    rw [hself.maxSize, if_neg hroom] at henq
    simp only [result, toCall, call, enqueue, sirdQueueDisc]
    change (Answer.accepted (doEnqueue cfg _ self.base.occupancy _ self.inner).result, _) = _
    simp only [Base.occupancy, Base.receive] at henq hmarks ⊢
    rw [henq]
    simp only [kept, item] at hmarks ⊢
    rw [hmarks]
    rfl
  rw [hcall]
  exact ⟨rfl, rfl, stats, rfl⟩

theorem Holds.pushed {next : QueueDisc DropTailQueue} {kept : QueueDiscItem} {stats : Stats}
    (hself : Holds cfg self) (hsz : 0 < kept.size)
    (hfits : occupancy (getMaxSize cfg).unit (self.inner.packets ++ [kept]) ≤
      (getMaxSize cfg).value)
    (hinner : next.inner = pushed self.inner kept)
    (hbase : next.base = ({ self.base.receive item with stats := stats }).packetEnqueued kept) :
    Holds cfg next := by
  have hword := getMaxSize_lt cfg
  have hsized : ∀ item ∈ self.inner.packets ++ [kept], 0 < item.size := fun item hitem =>
    (mem_append.mp hitem).elim (hself.sized item) fun h => mem_singleton.mp h ▸ hsz
  have hmore := length_le_occupancy (getMaxSize cfg).unit hsized
  rw [length_append, length_singleton] at hmore
  have hcnt : uint32 (self.inner.packets.length + 1) = self.inner.packets.length + 1 :=
    uint32_of_lt (by omega)
  have hbytes : uint32 (uint32 (occupancy .bytes self.inner.packets) + kept.size) =
      uint32 (occupancy .bytes (self.inner.packets ++ [kept])) := by
    rw [occupancy_concat, amount]
    simp only [uint32]
    omega
  obtain ⟨base, inner⟩ := next
  simp only at hinner hbase
  subst hinner hbase
  exact {
    requeued := hself.requeued
    peeked := hself.peeked
    maxSize := hself.maxSize
    nPackets := by
      simp only [packetEnqueued, receive, SirdQueueDisc.pushed, hself.nPackets, hcnt,
        length_append, length_singleton]
    nBytes := by
      simp only [packetEnqueued, receive, SirdQueueDisc.pushed, hself.nBytes, hbytes]
    innerPackets := by
      simp only [SirdQueueDisc.pushed, hself.innerPackets, hcnt, length_append, length_singleton]
    innerBytes := by simp only [SirdQueueDisc.pushed, hself.innerBytes, hbytes]
    limit := hfits
    sized := hsized
    reasons := hself.reasons
    inOrder := by
      simp only [packetEnqueued, receive, SirdQueueDisc.pushed, hself.inOrder, append_assoc] }

theorem enqueue_serves (hcfg : checkConfig cfg = true) (hself : Holds cfg self) (now : Nat)
    (packet : Packet) (dsField : Option UInt8) (hsz : 0 < packet.size)
    (hword :
      currentSize cfg self + amount (getMaxSize cfg).unit (.arriving now packet dsField) < 2 ^ 32) :
    Serves cfg self (.enqueue now packet dsField) ∧
      Holds cfg (self.call (sirdQueueDisc cfg) (toCall (.enqueue now packet dsField))).2 := by
  have hnew : (newSize self (.arriving now packet dsField)).value =
      occupancy (getMaxSize cfg).unit
        (self.inner.packets ++ [.arriving now packet dsField]) := by
    rw [newSize_value hself, uint32_of_lt hword, hself.currentSize_eq, occupancy_concat]
  unfold Serves
  by_cases hfull : (newSize self (.arriving now packet dsField)).value > (getMaxSize cfg).value
  · obtain ⟨hanswer, hinner, hnext⟩ := enqueue_dropped hself now packet dsField hfull
    rw [hnew] at hfull
    simp only [if_pos (show (getMaxSize cfg).value < _ from hfull)]
    exact ⟨⟨hanswer, by rw [hinner]⟩, hnext⟩
  · obtain ⟨hanswer, hinner, stats, hbase⟩ := enqueue_kept hself now packet dsField hfull
    have hdatagram := @kept_toDatagram cfg (.arriving now packet dsField)
      (newSize self (.arriving now packet dsField))
    have hce := @isCE_kept_iff cfg (.arriving now packet dsField) rfl
      (newSize self (.arriving now packet dsField))
    generalize (markItem cfg (newSize self (.arriving now packet dsField))
      (.arriving now packet dsField)).getD (.arriving now packet dsField) = kept
      at hinner hbase hdatagram hce
    rw [hnew] at hfull hce
    simp only [if_neg (show ¬ (getMaxSize cfg).value < _ from hfull)]
    have hsame : kept.size = packet.size :=
      congrArg (fun datagram : Datagram => datagram.size) hdatagram
    have hreach : (cfg.markThreshold.value ≠ 0 ∧ cfg.markThreshold.value ≤
        occupancy (getMaxSize cfg).unit
          (self.inner.packets ++ [.arriving now packet dsField])) ↔
        cfg.markThreshold.value ≠ 0 ∧ cfg.markThreshold.value ≤
          occupancy cfg.markThreshold.unit
            (self.inner.packets ++ [.arriving now packet dsField]) :=
      and_congr_right fun hne => by rw [checkConfig_unit hcfg hne]
    rw [hreach] at hce
    refine ⟨⟨hanswer, kept, by rw [hinner]; rfl, hdatagram, hce⟩, ?_⟩
    refine hself.pushed (hsame ▸ hsz) ?_ hinner hbase
    rw [occupancy_concat] at hfull ⊢
    have hadded : amount (getMaxSize cfg).unit kept =
        amount (getMaxSize cfg).unit (.arriving now packet dsField) := by
      unfold amount
      cases (getMaxSize cfg).unit with
      | packets => rfl
      | bytes => exact hsame
    omega

theorem dequeue_serves (hself : Holds cfg self) (now : Nat) :
    Serves cfg self (.dequeue now) ∧
      Holds cfg (self.call (sirdQueueDisc cfg) (toCall (.dequeue now))).2 := by
  have hcall : self.call (sirdQueueDisc cfg) (toCall (.dequeue now)) =
      (.packet self.inner.dequeue.1,
        handOut ⟨self.base.callbacks (self.inner.dequeue.1.toList.map .packetDequeued),
          self.inner.dequeue.2⟩ self.inner.dequeue.1) := by
    simp only [toCall, call, dequeue_of_none _ hself.requeued]
    rfl
  unfold Serves
  rw [hcall]
  cases hpkts : self.inner.packets with
  | nil =>
    have hempty : self.inner.dequeue = (none, self.inner) := by
      rw [DropTailQueue.dequeue, hself.innerPackets, hpkts, length_nil, if_pos rfl]
    rw [hempty]
    refine ⟨⟨rfl, hpkts⟩, hself.requeued, hself.peeked, hself.maxSize, hself.nPackets,
      hself.nBytes, hself.innerPackets, hself.innerBytes, hself.limit, hself.sized,
      hself.reasons, ?_⟩
    simpa [handOut, callbacks] using hself.inOrder
  | cons first rest =>
    have hcnt := hself.innerPackets
    have hlim := hself.limit
    have hword := getMaxSize_lt cfg
    have hlen := length_le_occupancy (getMaxSize cfg).unit hself.sized
    rw [hpkts, length_cons] at hcnt hlen
    rw [hpkts] at hlim
    have hfewer : uint32OfInt (((rest.length + 1 : Nat) : Int) - 1) = rest.length := by
      rw [uint32OfInt]
      omega
    have hbytes : uint32OfInt ((uint32 (occupancy .bytes (first :: rest)) : Int) - first.size) =
        uint32 (occupancy .bytes rest) := by
      rw [occupancy_cons, amount]
      simp only [uint32, uint32OfInt]
      omega
    have hdequeue : self.inner.dequeue = (some first, { self.inner with
        packets := rest
        nPackets := rest.length
        nBytes := uint32 (occupancy .bytes rest) }) := by
      rw [DropTailQueue.dequeue, hcnt, if_neg (Nat.succ_ne_zero _), hpkts]
      simp only [hfewer, hself.innerBytes, hpkts, hbytes]
    have hbaseBytes := hself.nBytes
    have hbaseCount := hself.nPackets
    rw [hpkts] at hbaseBytes hbaseCount
    rw [hdequeue]
    refine ⟨⟨rfl, rfl⟩, ?_⟩
    have horder := hself.inOrder
    rw [hpkts] at horder
    simp only [Option.toList_some, map_cons, map_nil, callbacks, foldl_cons,
      foldl_nil, callback, packetDequeued, hself.peeked, Bool.false_eq_true,
      if_false, handOut]
    exact {
      requeued := hself.requeued
      peeked := rfl
      maxSize := hself.maxSize
      nPackets := by rw [hbaseCount, length_cons, hfewer]
      nBytes := by rw [hbaseBytes, hbytes]
      innerPackets := rfl
      innerBytes := rfl
      limit := Nat.le_trans (Nat.le_add_left _ _) hlim
      sized := fun item hitem => hself.sized item (hpkts ▸ mem_cons_of_mem _ hitem)
      reasons := hself.reasons
      inOrder := by rw [horder, append_assoc, singleton_append] }

theorem peek_serves (hself : Holds cfg self) (now : Nat) :
    Serves cfg self (.peek now) ∧
      (self.call (sirdQueueDisc cfg) (toCall (.peek now))).2 = self := by
  have hpeek : self.inner.peek = self.inner.packets.head? := by
    rw [DropTailQueue.peek, hself.innerPackets]
    cases self.inner.packets <;> rfl
  have hcall : self.call (sirdQueueDisc cfg) (toCall (.peek now)) =
      (.packet self.inner.peek, self) := rfl
  unfold Serves
  rw [hcall, hpeek]
  exact ⟨⟨rfl, rfl⟩, rfl⟩

/-! ## Runs -/

theorem calls_append {State Chance : Type} (disc : Discipline State Chance)
    (front back : List (Call Chance)) (self : QueueDisc State) :
    calls disc (front ++ back) self =
      ((calls disc front self).1 ++ (calls disc back (calls disc front self).2).1,
        (calls disc back (calls disc front self).2).2) := by
  induction front generalizing self with
  | nil => rfl
  | cons first rest ih => simp only [cons_append, calls, ih]

variable {quota : Nat} {iface : Option NetDeviceQueueInterface} {inputs front : List StoreCall}

theorem after_concat (front : List StoreCall) (next : StoreCall) :
    after cfg quota iface (front ++ [next]) =
      ((after cfg quota iface front).call (sirdQueueDisc cfg) (toCall next)).2 := by
  rw [after, map_append, calls_append]
  rfl

theorem call_serves (hcfg : checkConfig cfg = true) (hself : Holds cfg self) {next : StoreCall}
    (hsz : ∀ now packet dsField, next = .enqueue now packet dsField → 0 < packet.size)
    (hword : ∀ now packet dsField,
      next = .enqueue now packet dsField →
        currentSize cfg self + amount (getMaxSize cfg).unit (.arriving now packet dsField) <
          2 ^ 32) :
    Serves cfg self next ∧ Holds cfg (self.call (sirdQueueDisc cfg) (toCall next)).2 := by
  cases next with
  | enqueue now packet dsField =>
    exact enqueue_serves hcfg hself now packet dsField (hsz _ _ _ rfl) (hword _ _ _ rfl)
  | dequeue now => exact dequeue_serves hself now
  | peek now =>
    obtain ⟨hserves, hsame⟩ := peek_serves hself now
    exact ⟨hserves, hsame.symm ▸ hself⟩

theorem not_serves_of_wrap (hself : Holds cfg self) {now : Nat} {packet : Packet}
    {dsField : Option UInt8} (hsz : packet.size < 2 ^ 32)
    (hwrap :
      2 ^ 32 ≤ currentSize cfg self + amount (getMaxSize cfg).unit (.arriving now packet dsField)) :
    ¬ Serves cfg self (.enqueue now packet dsField) := by
  intro hserves
  have hword := getMaxSize_lt cfg
  have hlim := hself.limit
  have hcur := hself.currentSize_eq
  have hamount : amount (getMaxSize cfg).unit (.arriving now packet dsField) < 2 ^ 32 := by
    unfold amount
    cases (getMaxSize cfg).unit with
    | packets => exact Nat.one_lt_two_pow (by decide)
    | bytes => exact hsz
  have hroom : ¬ (newSize self (.arriving now packet dsField)).value >
      (getMaxSize cfg).value := by
    rw [newSize_value hself, uint32]
    omega
  obtain ⟨hanswer, -⟩ := enqueue_kept hself now packet dsField hroom
  unfold Serves at hserves
  simp only at hserves
  rw [if_pos (by rw [occupancy_concat]; omega)] at hserves
  have hboth := hanswer.symm.trans hserves.1
  cases hboth

section

variable (hcfg : checkConfig cfg = true) (hsized : Sized inputs)
include hcfg hsized

theorem holds_after (hnoWrap : NoWrap cfg quota iface inputs) :
    Holds cfg (after cfg quota iface inputs) := by
  induction inputs using reverseRecOn with
  | nil => exact holds_init cfg quota iface
  | append_singleton front next ih =>
    have hpre := ih (fun now packet dsField hmem =>
      hsized now packet dsField (mem_append_left _ hmem))
      fun inner now packet dsField back hsplit =>
        hnoWrap inner now packet dsField (back ++ [next]) (by rw [hsplit]; simp)
    rw [after_concat]
    refine (call_serves hcfg hpre ?_ ?_).2
    · rintro now packet dsField rfl
      exact (hsized now packet dsField (mem_append_right _ mem_cons_self)).1
    · rintro now packet dsField rfl
      exact hnoWrap front now packet dsField [] rfl

theorem noWrap_of_step
    (hstep : ∀ front now packet dsField back,
      inputs = front ++ .enqueue now packet dsField :: back →
        Holds cfg (after cfg quota iface front) →
        currentSize cfg (after cfg quota iface front) +
          amount (getMaxSize cfg).unit (.arriving now packet dsField) < 2 ^ 32) :
    NoWrap cfg quota iface inputs := by
  have hall : ∀ front call back, inputs = front ++ call :: back → ∀ now packet dsField,
      call = .enqueue now packet dsField →
        currentSize cfg (after cfg quota iface front) +
          amount (getMaxSize cfg).unit (.arriving now packet dsField) < 2 ^ 32 := by
    refine Transition.forall_calls ?_
    rintro front call back hsplit hearly now packet dsField rfl
    have hpre : NoWrap cfg quota iface front := fun inner now packet dsField rest hinner =>
      hearly inner _ rest hinner now packet dsField rfl
    have hfront : Sized front := fun now packet dsField hmem =>
      hsized now packet dsField (hsplit ▸ mem_append_left _ hmem)
    exact hstep front now packet dsField back hsplit (holds_after hcfg hfront hpre)
  exact fun front now packet dsField back hsplit =>
    hall front _ back hsplit now packet dsField rfl

theorem noWrap_of_serves (hserves : ∀ front next back, inputs = front ++ next :: back →
    Serves cfg (after cfg quota iface front) next) : NoWrap cfg quota iface inputs :=
  noWrap_of_step hcfg hsized fun front now packet dsField back hsplit hholds => by
    by_contra hwrap
    exact not_serves_of_wrap hholds
      (hsized now packet dsField (hsplit ▸ mem_append_right _ mem_cons_self)).2
      (not_lt.mp hwrap) (hserves front _ back hsplit)

theorem noWrap_of_room
    (hroom : ∀ now packet dsField,
      .enqueue now packet dsField ∈ inputs →
        (getMaxSize cfg).value + amount (getMaxSize cfg).unit (.arriving now packet dsField) <
          2 ^ 32) :
    NoWrap cfg quota iface inputs :=
  noWrap_of_step hcfg hsized fun front now packet dsField back hsplit hholds => by
    have hlim := hholds.limit
    have hadded := hroom now packet dsField
      (hsplit ▸ mem_append_right _ mem_cons_self)
    rw [hholds.currentSize_eq]
    omega

end

/-- In every accepted configuration and run, the queue disc marks and drops by occupancy and keeps
the order exactly if no arrival makes the size wrap. -/
theorem faithful_iff (cfg : SirdConfig) (hcfg : checkConfig cfg = true) (quota : Nat)
    (iface : Option NetDeviceQueueInterface) (inputs : List StoreCall) (hsized : Sized inputs) :
    Faithful cfg quota iface inputs ↔ NoWrap cfg quota iface inputs := by
  constructor
  · exact fun hfaithful => noWrap_of_serves hcfg hsized hfaithful.serves
  · intro hnoWrap
    have hholds : ∀ front back, inputs = front ++ back →
        Holds cfg (after cfg quota iface front) := by
      intro front back hsplit
      refine holds_after hcfg (fun now packet dsField hmem =>
        hsized now packet dsField (hsplit ▸ List.mem_append_left _ hmem)) ?_
      intro inner now packet dsField rest hinner
      exact hnoWrap inner now packet dsField (rest ++ back) (by rw [hsplit, hinner]; simp)
    refine ⟨fun front next back hsplit => ?_,
      fun front back hsplit => (hholds front back hsplit).reasons,
      fun front back hsplit => (hholds front back hsplit).inOrder⟩
    refine (call_serves hcfg (hholds front _ hsplit) ?_ ?_).1
    · rintro now packet dsField rfl
      exact (hsized now packet dsField
        (hsplit ▸ List.mem_append_right _ List.mem_cons_self)).1
    · rintro now packet dsField rfl
      exact hnoWrap front now packet dsField back hsplit

def threePackets : SirdConfig :=
  ⟨⟨.packets, 3⟩, ⟨.packets, 2⟩, true, 0, 0, [], by decide, by simp⟩

theorem faithful_iff_threePackets :
    Faithful threePackets 64 none [.enqueue 0 ⟨1, 100, 0⟩ (some 2), .enqueue 1 ⟨2, 100, 0⟩ (some 2),
        .dequeue 2, .dequeue 3] := by
  have hpkt : ∀ now packet dsField, StoreCall.enqueue now packet dsField ∈
      [.enqueue 0 ⟨1, 100, 0⟩ (some 2), .enqueue 1 ⟨2, 100, 0⟩ (some 2), .dequeue 2, .dequeue 3] →
      packet.size = 100 := by
    intro now packet dsField hmem
    rcases (by simpa using hmem : _ ∨ _) with ⟨-, rfl, -⟩ | ⟨-, rfl, -⟩ <;> rfl
  have hsized : Sized
      [.enqueue 0 ⟨1, 100, 0⟩ (some 2), .enqueue 1 ⟨2, 100, 0⟩ (some 2), .dequeue 2, .dequeue 3] :=
    fun now packet dsField hmem => by
      rw [hpkt now packet dsField hmem]
      decide
  exact (faithful_iff threePackets (by decide) 64 none _ hsized).mpr
    (noWrap_of_room (by decide) hsized fun _ _ _ _ => show 3 + 1 < 2 ^ 32 by decide)

def mostBytes : SirdConfig :=
  ⟨⟨.bytes, 0xffffffff⟩, ⟨.packets, 0⟩, true, 0, 0, [], by decide, by simp⟩

def largestPacket : StoreCall := .enqueue 0 ⟨1, 65535, 0⟩ none

theorem holds_filling (count : Nat) (hfits : count * 65535 ≤ 0xffffffff) :
    Holds mostBytes (after mostBytes 64 none (replicate count largestPacket)) ∧
      currentSize mostBytes (after mostBytes 64 none (replicate count largestPacket)) =
        count * 65535 := by
  induction count with
  | zero =>
    refine ⟨holds_init mostBytes 64 none, ?_⟩
    rw [Nat.zero_mul]
    rfl
  | succ count ih =>
    have hless : count * 65535 ≤ 0xffffffff :=
      Nat.le_trans (Nat.mul_le_mul_right _ (Nat.le_succ count)) hfits
    obtain ⟨hholds, hsz⟩ := ih hless
    have hadded : amount (getMaxSize mostBytes).unit (.arriving 0 ⟨1, 65535, 0⟩ none) = 65535 := rfl
    obtain ⟨hserves, hnext⟩ := enqueue_serves (by decide) hholds 0 ⟨1, 65535, 0⟩ none (by decide)
      (by rw [hsz, hadded]; omega)
    rw [replicate_succ', after_concat]
    refine ⟨hnext, ?_⟩
    unfold Serves at hserves
    have hcur := hholds.currentSize_eq
    have hlim : (getMaxSize mostBytes).value = 0xffffffff := rfl
    simp only at hserves
    rw [if_neg (by rw [occupancy_concat, hadded, hlim]; omega)] at hserves
    obtain ⟨-, kept, hpkts, hdatagram, -⟩ := hserves
    have hkept : amount (getMaxSize mostBytes).unit kept = 65535 :=
      congrArg (fun datagram : Datagram => datagram.size) hdatagram
    have hfinal := hnext.currentSize_eq
    rw [hpkts, occupancy_concat, hkept, ← hcur, hsz] at hfinal
    exact hfinal.trans (Nat.succ_mul count 65535).symm

/-- With a limit of 4294967295 bytes, 65537 packets of 65535 bytes fill the queue, and one more
makes the size wrap: it is accepted. -/
theorem full_queue_accepts :
    ¬ ∀ (cfg : SirdConfig) (quota : Nat) (iface : Option NetDeviceQueueInterface)
      (inputs : List StoreCall),
      checkConfig cfg = true → Sized inputs → Faithful cfg quota iface inputs := by
  intro hall
  have hsized : ∀ count, Sized (List.replicate count largestPacket) := by
    intro count now packet dsField hmem
    obtain ⟨-, rfl, -⟩ := StoreCall.enqueue.inj (List.eq_of_mem_replicate hmem)
    decide
  have hlast : ∀ count, count * 65535 ≤ 0xffffffff → count * 65535 + 65535 < 2 ^ 32 := by
    intro count hfits
    have hserves := (hall mostBytes 64 none _ (by decide) (hsized (count + 1))).serves
      (List.replicate count largestPacket) largestPacket [] List.replicate_succ'
    obtain ⟨hholds, hsz⟩ := holds_filling count hfits
    by_contra hwrap
    refine not_serves_of_wrap hholds (by decide) ?_ hserves
    rw [hsz]
    exact Nat.not_lt.mp hwrap
  exact absurd (hlast 65537 (by decide)) (by decide)

end SirdQueueDisc

end HomaSird.TrafficControl
