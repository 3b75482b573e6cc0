import HomaSird.TrafficControl.Contract

/-! # `CoDelQueueDisc`

A FIFO queue disc that keeps the base class's `DoPeek` and drops from the head
while packets have waited for too long. Whatever it decides to drop or mark, it
meets the contract of the base class and keeps the arrival order.
-/

namespace HomaSird.TrafficControl

open DropTailQueue

structure CoDelConfig where
  maxSize : QueueSize
  useEcn : Bool
  useL4s : Bool
  minBytes : Nat
  interval : Nat
  target : Nat
  ceThreshold : Nat

structure CoDelState where
  queue : DropTailQueue
  count : Nat
  lastCount : Nat
  dropping : Bool
  recInvSqrt : Nat
  firstAboveTime : Nat
  dropNext : Nat
  /-- A null item has been used, after which the program has no defined behaviour. -/
  nullUsed : Bool

namespace CoDelQueueDisc

def TARGET_EXCEEDED_DROP : String := "Target exceeded drop"

def OVERLIMIT_DROP : String := "Overlimit drop"

def TARGET_EXCEEDED_MARK : String := "Target exceeded mark"

def CE_THRESHOLD_EXCEEDED_MARK : String := "CE threshold exceeded mark"

def REC_INV_SQRT_SHIFT : Nat := 16

def CODEL_SHIFT : Nat := 10

def maxRecInvSqrt : Nat := uint16 ((2 ^ 32 - 1) >>> REC_INV_SQRT_SHIFT)

def reciprocalDivide (dividend reciprocal : Nat) : Nat := uint32 ((dividend * reciprocal) >>> 32)

def newtonStep (recInvSqrt count : Nat) : Nat :=
  let invsqrt := uint32 (recInvSqrt <<< REC_INV_SQRT_SHIFT)
  let invsqrt2 := uint32 (uint64 (invsqrt * invsqrt) >>> 32)
  let difference := uint64OfInt ((3 <<< 32 : Nat) - (uint64 (count * invsqrt2) : Int))
  let val := uint64 ((difference >>> 2) * invsqrt) >>> (32 - 2 + 1)
  uint16 (val >>> REC_INV_SQRT_SHIFT)

def controlLaw (time interval recInvSqrt : Nat) : Nat :=
  uint32 (time + reciprocalDivide interval (uint32 (recInvSqrt <<< REC_INV_SQRT_SHIFT)))

def time2CoDel (time : Int) : Nat := uint32OfInt (time / 2 ^ CODEL_SHIFT)

def sojourn (now : Nat) (item : QueueDiscItem) : Nat := time2CoDel ((now : Int) - item.timeStamp)

def init (cfg : CoDelConfig) : CoDelState where
  queue := .empty cfg.maxSize
  count := 0
  lastCount := 0
  dropping := false
  recInvSqrt := maxRecInvSqrt
  firstAboveTime := 0
  dropNext := 0
  nullUsed := false

def doEnqueue (cfg : CoDelConfig) (_env : Env Unit) (occupancy : Occupancy)
    (item : QueueDiscItem) (state : CoDelState) : Outcome CoDelState Bool :=
  let current := cfg.maxSize.current occupancy.nPackets occupancy.nBytes
  if (current.add item.size).value > cfg.maxSize.value then
    ⟨false, state, [.dropBeforeEnqueue item OVERLIMIT_DROP]⟩
  else
    let enqueued := state.queue.enqueue item
    ⟨enqueued.1, { state with queue := enqueued.2 },
      if enqueued.1 then [.packetEnqueued item]
      else [.dropBeforeEnqueue item INTERNAL_QUEUE_DROP]⟩

/-- `OkToDrop`: has the sojourn time been above the target for an interval? -/
def okToDrop (cfg : CoDelConfig) (now : Nat) (item : Option QueueDiscItem)
    (state : CoDelState) : Bool × CoDelState :=
  match item with
  | none => (false, { state with firstAboveTime := 0 })
  | some item =>
    if sojourn now item < time2CoDel cfg.target ∨ state.queue.nBytes < cfg.minBytes then
      (false, { state with firstAboveTime := 0 })
    else if state.firstAboveTime = 0 then
      (false, { state with
        firstAboveTime := uint32 (time2CoDel now + time2CoDel cfg.interval) })
    else (decide (time2CoDel now > state.firstAboveTime), state)

/-- The current item, the state of the queue disc, what it has reported, and whether the item has
been marked for its sojourn time. -/
structure Fetch where
  item : Option QueueDiscItem
  state : CoDelState
  reports : List Callback
  isMarked : Bool

namespace Fetch

/-- `Mark` on the current item; none when the item is not marked. -/
def mark (fetch : Fetch) (reason : String) : Option Fetch :=
  match fetch.item.bind QueueDiscItem.mark with
  | some marked =>
    some { fetch with item := some marked, reports := fetch.reports ++ [.mark marked reason] }
  | none => none

def dropAndDequeue (fetch : Fetch) : Fetch :=
  match fetch.item with
  | none => { fetch with state := { fetch.state with nullUsed := true } }
  | some item =>
    let dequeued := fetch.state.queue.dequeue
    { fetch with
      item := dequeued.1
      state := { fetch.state with queue := dequeued.2 }
      reports := fetch.reports ++ [.dropAfterDequeue item TARGET_EXCEEDED_DROP]
        ++ dequeued.1.toList.map .packetDequeued }

def setState (fetch : Fetch) (state : CoDelState) : Fetch := { fetch with state }

end Fetch

def dropOnce (cfg : CoDelConfig) (now : Nat) (fetch : Fetch) : Bool × Fetch :=
  let count := uint32 (fetch.state.count + 1)
  let recInvSqrt := newtonStep fetch.state.recInvSqrt count
  let counted := fetch.setState { fetch.state with count, recInvSqrt }
  match if cfg.useEcn then counted.mark TARGET_EXCEEDED_MARK else none with
  | some marked =>
    (true, { marked.setState { marked.state with
        dropNext := controlLaw (time2CoDel now) (time2CoDel cfg.interval) recInvSqrt }
      with isMarked := true })
  | none =>
    let dropped := counted.dropAndDequeue
    let checked := okToDrop cfg now dropped.item dropped.state
    if checked.1 then
      (false, dropped.setState { checked.2 with
        dropNext := controlLaw checked.2.dropNext (time2CoDel cfg.interval)
          checked.2.recInvSqrt })
    else (false, dropped.setState { checked.2 with dropping := false })

/-- The loop in the dropping state. Every pass that stays takes a packet, which bounds the passes.
-/
def dropWhile (cfg : CoDelConfig) (now : Nat) : Nat → Fetch → Fetch
  | 0, fetch => fetch
  | remaining + 1, fetch =>
    if fetch.state.dropping ∧ time2CoDel now ≥ fetch.state.dropNext then
      let passed := dropOnce cfg now fetch
      if passed.1 then passed.2 else dropWhile cfg now remaining passed.2
    else fetch

/-- Enter the dropping state: the control law starts over, or from the last rate if that ended
recently. -/
def startDropping (cfg : CoDelConfig) (now : Nat) (state : CoDelState) : CoDelState :=
  let delta := uint32OfInt ((state.count : Int) - state.lastCount)
  let recent := uint32OfInt ((time2CoDel now : Int) - state.dropNext)
    < uint32 (16 * time2CoDel cfg.interval)
  -- `delta` is signed
  let (count, recInvSqrt) :=
    if (1 < delta ∧ delta < 2 ^ 31) ∧ recent then (delta, newtonStep state.recInvSqrt delta)
    else (1, maxRecInvSqrt)
  { state with
    dropping := true, count, recInvSqrt, lastCount := count
    dropNext := controlLaw (time2CoDel now) (time2CoDel cfg.interval) recInvSqrt }

def enterDropping (cfg : CoDelConfig) (now : Nat) (fetch : Fetch) : Fetch :=
  match if cfg.useEcn then fetch.mark TARGET_EXCEEDED_MARK else none with
  | some marked =>
    { marked.setState (startDropping cfg now marked.state) with isMarked := true }
  | none =>
    let dropped := fetch.dropAndDequeue
    let checked := okToDrop cfg now dropped.item dropped.state
    dropped.setState (startDropping cfg now checked.2)

/-- The end of `DoDequeue`, which reads the item's time stamp. -/
def finish (cfg : CoDelConfig) (now : Nat) (fetch : Fetch) : Fetch :=
  match fetch.item with
  | none => fetch.setState { fetch.state with nullUsed := true }
  | some item =>
    if !fetch.isMarked && !cfg.useL4s && cfg.useEcn
        && decide (sojourn now item > time2CoDel cfg.ceThreshold) then
      (fetch.mark CE_THRESHOLD_EXCEEDED_MARK).getD fetch
    else fetch

/-- With L4S, a packet with the ECT1 or CE codepoint is only ever marked. -/
def isL4s (cfg : CoDelConfig) (item : QueueDiscItem) : Bool :=
  cfg.useL4s && match item.dsField with
    | some tosByte => tosByte &&& 3 == 1 || tosByte &&& 3 == 3
    | none => false

/-- `DoDequeue` once the first item has been taken from the queue. -/
def decideItem (cfg : CoDelConfig) (now : Nat) (item : QueueDiscItem) (fetch : Fetch) : Fetch :=
  if isL4s cfg item then
    if sojourn now item > time2CoDel cfg.ceThreshold then
      (fetch.mark CE_THRESHOLD_EXCEEDED_MARK).getD fetch
    else fetch
  else
    let checked := okToDrop cfg now fetch.item fetch.state
    let fetched := fetch.setState checked.2
    finish cfg now <|
      if fetched.state.dropping then
        if !checked.1 then fetched.setState { fetched.state with dropping := false }
        else dropWhile cfg now (fetched.state.queue.packets.length + 1) fetched
      else if checked.1 then enterDropping cfg now fetched
      else fetched

def doDequeue (cfg : CoDelConfig) (env : Env Unit) (_occupancy : Occupancy)
    (state : CoDelState) : Outcome CoDelState (Option QueueDiscItem) :=
  let dequeued := state.queue.dequeue
  match dequeued.1 with
  | none => ⟨none, { state with queue := dequeued.2, dropping := false }, []⟩
  | some item =>
    let decided := decideItem cfg env.now item
      ⟨some item, { state with queue := dequeued.2 }, [.packetDequeued item], false⟩
    ⟨decided.item, decided.state, decided.reports⟩

end CoDelQueueDisc

open CoDelQueueDisc in
def coDelQueueDisc (cfg : CoDelConfig) : Discipline CoDelState Unit where
  init := init cfg
  doEnqueue := doEnqueue cfg
  doDequeue := doDequeue cfg
  doPeek := none

namespace CoDelQueueDisc

open Callback

variable {cfg : CoDelConfig}

theorem okToDrop_queue (cfg : CoDelConfig) (now : Nat) (item : Option QueueDiscItem)
    (state : CoDelState) : (okToDrop cfg now item state).2.queue = state.queue := by
  unfold okToDrop
  split
  · rfl
  · split_ifs <;> rfl

theorem startDropping_queue (cfg : CoDelConfig) (now : Nat) (state : CoDelState) :
    (startDropping cfg now state).queue = state.queue := by
  simp only [startDropping]

/-- The property depends on the queue only, and marking the current item and dropping it keep it.
-/
structure KeptByParts (holds : Fetch → Prop) : Prop where
  setState : ∀ {fetch : Fetch} {state : CoDelState}, holds fetch →
    state.queue = fetch.state.queue → holds (fetch.setState state)
  isMarked : ∀ {fetch : Fetch} (isMarked : Bool), holds fetch →
    holds { fetch with isMarked := isMarked }
  mark : ∀ {fetch marked : Fetch} {reason : String}, holds fetch →
    fetch.mark reason = some marked → holds marked
  dropAndDequeue : ∀ {fetch : Fetch}, holds fetch → holds fetch.dropAndDequeue

namespace KeptByParts

variable {holds : Fetch → Prop} {fetch : Fetch}

section

variable (hkept : KeptByParts holds) (hfetch : holds fetch)
include hkept hfetch

theorem markOrKeep (reason : String) : holds ((fetch.mark reason).getD fetch) := by
  cases hmark : fetch.mark reason with
  | none => exact hfetch
  | some marked => exact hkept.mark hfetch hmark

theorem dropOnce (now : Nat) : holds (CoDelQueueDisc.dropOnce cfg now fetch).2 := by
  have hcnt : holds (fetch.setState { fetch.state with
      count := uint32 (fetch.state.count + 1)
      recInvSqrt := newtonStep fetch.state.recInvSqrt (uint32 (fetch.state.count + 1)) }) :=
    hkept.setState hfetch rfl
  simp only [CoDelQueueDisc.dropOnce]
  split
  next marked hmark =>
    split at hmark
    · apply hkept.isMarked
      exact hkept.setState (hkept.mark hcnt hmark) rfl
    · cases hmark
  · have hdrop := hkept.dropAndDequeue hcnt
    split
    · exact hkept.setState hdrop (okToDrop_queue cfg now _ _)
    · exact hkept.setState hdrop (okToDrop_queue cfg now _ _)

theorem dropWhile
    (now remaining : Nat) : holds (CoDelQueueDisc.dropWhile cfg now remaining fetch) := by
  induction remaining generalizing fetch with
  | zero => exact hfetch
  | succ remaining ih =>
    simp only [CoDelQueueDisc.dropWhile]
    split
    · have hpassed := @dropOnce cfg holds fetch hkept hfetch now
      split
      · exact hpassed
      · exact ih hpassed
    · exact hfetch

theorem enterDropping (now : Nat) : holds (CoDelQueueDisc.enterDropping cfg now fetch) := by
  simp only [CoDelQueueDisc.enterDropping]
  split
  next marked hmark =>
    split at hmark
    · apply hkept.isMarked
      exact hkept.setState (hkept.mark hfetch hmark) (startDropping_queue cfg now _)
    · cases hmark
  · apply hkept.setState (hkept.dropAndDequeue hfetch)
    rw [startDropping_queue, okToDrop_queue]

theorem finish (now : Nat) : holds (CoDelQueueDisc.finish cfg now fetch) := by
  unfold CoDelQueueDisc.finish
  split
  · exact hkept.setState hfetch rfl
  · split
    · exact hkept.markOrKeep hfetch _
    · exact hfetch

theorem decideItem (now : Nat)
    (item : QueueDiscItem) : holds (CoDelQueueDisc.decideItem cfg now item fetch) := by
  have hcheck : holds (fetch.setState (okToDrop cfg now fetch.item fetch.state).2) :=
    hkept.setState hfetch (okToDrop_queue cfg now _ _)
  simp only [CoDelQueueDisc.decideItem]
  split
  · split
    · exact hkept.markOrKeep hfetch _
    · exact hfetch
  · apply hkept.finish
    split
    · split
      · exact hkept.setState hcheck rfl
      · exact hkept.dropWhile hcheck now _
    · split
      · exact hkept.enterDropping hcheck now
      · exact hcheck

end

end KeptByParts

def InOrder (before : List Datagram) (fetch : Fetch) : Prop :=
  (datagrams fetch.item.toList ++ datagrams fetch.state.queue.packets).Sublist before

namespace InOrder

variable {before : List Datagram} {fetch : Fetch}

theorem mark (horder : InOrder before fetch) {reason : String} {marked : Fetch}
    (hmark : fetch.mark reason = some marked) : InOrder before marked := by
  unfold Fetch.mark at hmark
  split at hmark
  next item hitem =>
    rw [← Option.some.inj hmark]
    obtain ⟨old, hold, hnew⟩ := Option.bind_eq_some_iff.mp hitem
    have hsame : datagrams (some item).toList = datagrams fetch.item.toList := by
      simp [hold, datagrams, QueueDiscItem.mark_toDatagram hnew]
    unfold InOrder at horder ⊢
    rw [← hsame] at horder
    exact horder
  · cases hmark

theorem dropAndDequeue (horder : InOrder before fetch) : InOrder before fetch.dropAndDequeue := by
  unfold Fetch.dropAndDequeue
  split
  · exact horder
  · have hhead := congrArg datagrams fetch.state.queue.dequeue_append
    rw [datagrams, List.map_append] at hhead
    have hq := (List.sublist_append_right (datagrams fetch.item.toList) _).trans horder
    rw [← hhead] at hq
    exact hq

theorem keptByParts (before : List Datagram) : KeptByParts (InOrder before) where
  setState := fun horder hq => by
    unfold InOrder at horder ⊢
    rw [← hq] at horder
    exact horder
  isMarked := fun _ horder => horder
  mark := fun horder hmark => horder.mark hmark
  dropAndDequeue := dropAndDequeue

end InOrder

theorem doDequeue_order (cfg : CoDelConfig) (env : Env Unit) (occupancy : Occupancy)
    (state : CoDelState) :
    let outcome := doDequeue cfg env occupancy state
    (datagrams outcome.result.toList ++ datagrams outcome.state.queue.packets).Sublist
      (datagrams state.queue.packets) := by
  have hhead := congrArg datagrams state.queue.dequeue_append
  rw [datagrams, List.map_append] at hhead
  unfold doDequeue
  dsimp only
  split
  next hnone =>
    rw [hnone] at hhead
    exact hhead ▸ List.Sublist.refl _
  next item hitem =>
    rw [hitem] at hhead
    have hfst : InOrder (datagrams state.queue.packets)
        ⟨some item, { state with queue := state.queue.dequeue.2 }, [.packetDequeued item],
          false⟩ := by
      unfold InOrder
      rw [← hhead]
      exact List.Sublist.refl _
    exact (InOrder.keptByParts _).decideItem hfst env.now item

/-- `DoDequeue` has taken the current item and dropped what it reported, and what is left is in
order. -/
structure Taken (cfg : CoDelConfig) (before : List Datagram) (fetch : Fetch) : Prop where
  counted : fetch.state.queue.Counted
  maxSize : fetch.state.queue.maxSize = cfg.maxSize
  removes : Removes before (datagrams fetch.state.queue.packets) fetch.item.toList fetch.reports
  order : (datagrams fetch.item.toList ++ datagrams fetch.state.queue.packets).Sublist before

namespace Taken

variable {before : List Datagram} {fetch : Fetch}

theorem setState (htaken : Taken cfg before fetch) {state : CoDelState}
    (hq : state.queue = fetch.state.queue) : Taken cfg before (fetch.setState state) where
  counted := hq ▸ htaken.counted
  maxSize := hq ▸ htaken.maxSize
  removes := by
    simpa only [Fetch.setState, hq] using htaken.removes
  order := by
    simpa only [Fetch.setState, hq] using htaken.order

theorem isMarked (htaken : Taken cfg before fetch) (isMarked : Bool) :
    Taken cfg before { fetch with isMarked := isMarked } where
  __ := htaken

theorem mark (htaken : Taken cfg before fetch) {reason : String} {marked : Fetch}
    (hmark : fetch.mark reason = some marked) : Taken cfg before marked := by
  have horder := @InOrder.mark before fetch htaken.order reason marked hmark
  unfold Fetch.mark at hmark
  split at hmark
  next item hitem =>
    cases hmark
    obtain ⟨old, hold, hnew⟩ := Option.bind_eq_some_iff.mp hitem
    have hsame : datagrams (some item).toList = datagrams fetch.item.toList := by
      simp [hold, datagrams, QueueDiscItem.mark_toDatagram hnew]
    obtain ⟨hcnt, hmax, ⟨henq, hrefuse, hdeq, hcont⟩, -⟩ := htaken
    refine ⟨hcnt, hmax, ⟨?_, ?_, ?_, ?_⟩, horder⟩
    · simpa [enqueuedOf] using henq
    · simpa [droppedBeforeOf] using hrefuse
    · rw [← hsame] at hdeq
      simpa [dequeuedOf, droppedAfterOf] using hdeq
    · rw [← hsame] at hcont
      simpa [droppedAfterOf] using hcont
  · cases hmark

theorem dropAndDequeue (htaken : Taken cfg before fetch) :
    Taken cfg before fetch.dropAndDequeue := by
  have hnext := @InOrder.dropAndDequeue before fetch htaken.order
  obtain ⟨hcnt, hmax, ⟨henq, hrefuse, hdeq, hcont⟩, horder⟩ := htaken
  unfold Fetch.dropAndDequeue at hnext ⊢
  cases hitem : fetch.item with
  | none =>
    simp only [hitem] at hdeq hcont horder
    exact ⟨hcnt, hmax, ⟨henq, hrefuse, by simpa [hitem] using hdeq,
      by simpa [hitem] using hcont⟩, by simpa [hitem] using horder⟩
  | some item =>
    rw [hitem] at hdeq hcont hnext
    cases hpkts : fetch.state.queue.packets with
    | nil =>
      rw [dequeue_nil hcnt hpkts] at hnext ⊢
      rw [hpkts] at hcont
      refine ⟨hcnt, hmax, ⟨?_, ?_, ?_, ?_⟩, hnext⟩
      · simpa [enqueuedOf] using henq
      · simpa [droppedBeforeOf] using hrefuse
      · simpa [dequeuedOf, droppedAfterOf, datagrams] using hdeq
      · simpa [droppedAfterOf, datagrams, hpkts] using hcont
    | cons next rest =>
      obtain ⟨hhead, hcounts, hrest, hsame⟩ := dequeue_cons hcnt hpkts
      rw [hpkts] at hcont
      simp only [hhead] at hnext ⊢
      refine ⟨hcounts, hsame.trans hmax, ⟨?_, ?_, ?_, ?_⟩, hnext⟩
      · simpa [enqueuedOf] using henq
      · simpa [droppedBeforeOf] using hrefuse
      · have hmore := hdeq.append_right [next.toDatagram]
        simpa [dequeuedOf, droppedAfterOf, datagrams] using hmore
      · simp only [hrest]
        simp only [datagrams, droppedAfterOf, List.perm_iff_count] at hcont ⊢
        intro datagram
        have hold := hcont datagram
        simp [List.count_cons] at hold ⊢
        omega

theorem keptByParts (cfg : CoDelConfig) (before : List Datagram) :
    KeptByParts (Taken cfg before) where
  setState := fun htaken hq => htaken.setState hq
  isMarked := fun flag htaken => htaken.isMarked flag
  mark := fun htaken hmark => htaken.mark hmark
  dropAndDequeue := dropAndDequeue

end Taken

variable {state : CoDelState}

theorem doDequeue_taken (env : Env Unit) (occupancy : Occupancy)
    (hcnt : state.queue.Counted) (hmax : state.queue.maxSize = cfg.maxSize) :
    let outcome := doDequeue cfg env occupancy state
    Taken cfg (datagrams state.queue.packets)
      ⟨outcome.result, outcome.state, outcome.reports, false⟩ := by
  unfold doDequeue
  cases hpkts : state.queue.packets with
  | nil =>
    rw [dequeue_nil hcnt hpkts]
    refine ⟨hcnt, hmax, ⟨rfl, rfl, .refl _, ?_⟩, ?_⟩
    · simp [datagrams, hpkts, droppedAfterOf]
    · simp [datagrams, hpkts]
  | cons item rest =>
    obtain ⟨hitem, hcounts, hrest, hsame⟩ := dequeue_cons hcnt hpkts
    simp only [hitem]
    apply Taken.isMarked
    apply (Taken.keptByParts cfg _).decideItem
    refine ⟨hcounts, hsame.trans hmax, ⟨rfl, rfl, .refl _, ?_⟩, ?_⟩
    · simp only [hrest]
      simpa [datagrams, droppedAfterOf] using (List.perm_append_singleton _ _).symm
    · simp only [hrest]
      simp [datagrams]

structure Within (cfg : CoDelConfig) (state : CoDelState) : Prop where
  counted : state.queue.Counted
  maxSize : state.queue.maxSize = cfg.maxSize
  limit : state.queue.packets.length ≤ cfg.maxSize.value

theorem doEnqueue_stores (hunit : cfg.maxSize.unit = .packets)
    (hlim : cfg.maxSize.value + 1 < 2 ^ 32) (env : Env Unit) (occupancy : Occupancy)
    (item : QueueDiscItem) (hwithin : Within cfg state) :
    let outcome := doEnqueue cfg env occupancy item state
    Within cfg outcome.state ∧
      Stores (datagrams state.queue.packets) (datagrams outcome.state.queue.packets) item
        outcome.result outcome.reports ∧
      datagrams outcome.state.queue.packets =
        datagrams state.queue.packets ++ datagrams (enqueuedOf outcome.reports) := by
  obtain ⟨hcnt, hmax, hfull⟩ := hwithin
  have henq := enqueue_cases hcnt (hmax ▸ hunit) (hmax ▸ hfull)
    (hmax ▸ hlim) item
  simp only [doEnqueue]
  split
  · refine ⟨⟨hcnt, hmax, hfull⟩, ⟨rfl, rfl, .refl _, .refl _⟩, ?_⟩
    simp [enqueuedOf, datagrams]
  · rcases henq with hrefuse | ⟨hacc, hcounts, hpkts, hsame, hmore⟩
    · simp only [hrefuse, Bool.false_eq_true, if_false]
      refine ⟨⟨hcnt, hmax, hfull⟩, ⟨rfl, rfl, .refl _, .refl _⟩, ?_⟩
      simp [enqueuedOf, datagrams]
    · simp only [hacc, if_true]
      refine ⟨⟨hcounts, hsame.trans hmax, ?_⟩, ⟨rfl, rfl, .refl _, ?_⟩, ?_⟩
      · simp only [hpkts]
        exact hmax ▸ hmore
      · simp [hpkts, enqueuedOf, droppedAfterOf, datagrams]
      · simp [hpkts, enqueuedOf, datagrams]

theorem doDequeue_within (env : Env Unit) (occupancy : Occupancy) (hwithin : Within cfg state) :
    Within cfg (doDequeue cfg env occupancy state).state := by
  have htaken := doDequeue_taken env occupancy hwithin.counted hwithin.maxSize
  refine ⟨htaken.counted, htaken.maxSize, ?_⟩
  have hshorter := htaken.order.length_le
  simp only [datagrams, List.length_append, List.length_map] at hshorter
  exact le_trans (by omega) hwithin.limit

/-- A CoDel queue disc in packet mode meets the contract while its packet counter has room for one
more. -/
def contract (cfg : CoDelConfig) (hunit : cfg.maxSize.unit = .packets)
    (hlim : cfg.maxSize.value + 1 < 2 ^ 32) : Contract (coDelQueueDisc cfg) where
  contents state := datagrams state.queue.packets
  Valid := Within cfg
  init_valid := ⟨DropTailQueue.empty_counted _, rfl, Nat.zero_le _⟩
  init_contents := rfl
  enqueue_valid env occupancy item _ hwithin :=
    (doEnqueue_stores hunit hlim env occupancy item hwithin).1
  enqueue_stores env occupancy item _ hwithin :=
    (doEnqueue_stores hunit hlim env occupancy item hwithin).2.1
  dequeue_valid env occupancy _ hwithin := doDequeue_within env occupancy hwithin
  dequeue_removes env occupancy _ hwithin :=
    (doDequeue_taken env occupancy hwithin.counted hwithin.maxSize).removes
  peek_valid _ hpeek := nomatch hpeek
  peek_removes _ hpeek := nomatch hpeek

theorem contract_fifo (cfg : CoDelConfig) (hunit : cfg.maxSize.unit = .packets)
    (hlim : cfg.maxSize.value + 1 < 2 ^ 32) : (contract cfg hunit hlim).Fifo where
  enqueue env occupancy item _ hwithin := by
    have hstored := (doEnqueue_stores hunit hlim env occupancy item hwithin).2.2
    exact (congrArg (List.Sublist _) hstored).mp (List.Sublist.refl _)
  dequeue env occupancy _ hwithin :=
    (doDequeue_taken env occupancy hwithin.counted hwithin.maxSize).order
  peek _ hpeek := nomatch hpeek

end CoDelQueueDisc

def quietCoDel : CoDelConfig where
  maxSize := ⟨.packets, 1000⟩
  useEcn := false
  useL4s := false
  minBytes := 1500
  interval := 100000000
  target := 5000000
  ceThreshold := 2 ^ 63 - 1

end HomaSird.TrafficControl
