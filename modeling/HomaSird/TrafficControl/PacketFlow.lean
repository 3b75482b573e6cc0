import HomaSird.TrafficControl.Contract

/-! # Where the packets of a queue disc are

Every packet a queue disc has accepted is stored, kept in the slot, handed out or
dropped. The invariant says so between the calls, and within a `Run` with the
packet that is on its way from the queue disc to the device.
-/

namespace HomaSird.TrafficControl

open Callback Base Contract QueueDisc List

variable {State Chance : Type} {disc : Discipline State Chance}

def Base.heldByPeek (base : Base) : List Packet :=
  if base.peeked then packets base.requeued.toList else []

def Base.awaitingDevice (base : Base) : List Packet :=
  if base.peeked then [] else packets base.requeued.toList

namespace Contract

def stored (contract : Contract disc) (state : State) : List Packet :=
  (contract.contents state).map Datagram.toPacket

def owned (contract : Contract disc) (queueDisc : QueueDisc State) : List Packet :=
  contract.stored queueDisc.inner ++ queueDisc.base.heldByPeek

end Contract

/-- A `Run` from here finds a packet that a peek put in the slot, and its device queue is not
stopped. -/
def QueueDisc.takesPeeked (self : QueueDisc State) : Bool :=
  match self.base.requeued with
  | some item => self.base.peeked && !self.base.isStopped item.txQueueIndex
  | none => false

/-- The invariant; `inFlight` is what `DequeuePacket` returned and `Transmit` has not dealt with.
-/
structure Flow (contract : Contract disc) (inFlight : List Packet)
    (queueDisc : QueueDisc State) : Prop where
  valid : contract.Valid queueDisc.inner
  counted : queueDisc.base.Counted
  received : (packets queueDisc.base.log.received).Perm (packets queueDisc.base.log.enqueued
    ++ packets (queueDisc.base.log.droppedBeforeEnqueue.map Prod.fst))
  enqueued : (packets queueDisc.base.log.enqueued).Perm
    (packets queueDisc.base.log.dequeued ++ contract.owned queueDisc)
  dequeued : (packets queueDisc.base.log.dequeued).Perm
    (packets queueDisc.base.log.handedOut ++ inFlight ++ queueDisc.base.awaitingDevice
      ++ packets queueDisc.base.log.droppedAfterDequeue)
  held : queueDisc.base.peeked = true → queueDisc.base.requeued.isSome = true
  order : contract.Fifo → (packets queueDisc.base.log.handedOut ++ inFlight
    ++ packets queueDisc.base.requeued.toList ++ contract.stored queueDisc.inner).Sublist
      (packets queueDisc.base.log.enqueued)
  bare : ∀ datagram ∈ contract.contents queueDisc.inner, datagram.headersAdded = 0
  slotHeaders : ∀ item, queueDisc.base.requeued = some item →
    item.headersAdded = if queueDisc.base.peeked then 0 else 1

namespace Flow

variable {contract : Contract disc} {queueDisc : QueueDisc State} {inFlight : List Packet}

theorem init (contract : Contract disc) (quota : Nat) (iface : Option NetDeviceQueueInterface) :
    Flow contract [] (QueueDisc.init disc quota iface) where
  valid := contract.init_valid
  counted := ⟨rfl, rfl, rfl, rfl, rfl, rfl, rfl, rfl, rfl, rfl, rfl, rfl⟩
  received := .refl _
  enqueued := by
    simp [QueueDisc.init, owned, stored, contract.init_contents, heldByPeek]
  dequeued := by simp [QueueDisc.init, awaitingDevice]
  held hpeeked := nomatch hpeeked
  order _ := by simp [QueueDisc.init, stored, contract.init_contents]
  bare datagram hmem := by
    rw [QueueDisc.init, contract.init_contents] at hmem
    exact nomatch hmem
  slotHeaders item hitem := nomatch hitem

section

variable {before after : List Datagram} {taken : List QueueDiscItem} {reports : List Callback}
  (hrem : Removes before after taken reports)
include hrem

theorem stored_perm :
    (before.map Datagram.toPacket).Perm
      (after.map Datagram.toPacket ++ packets (droppedAfterOf reports) ++ packets taken) := by
  have hperm := hrem.contents.map Datagram.toPacket
  rw [map_append, map_append, map_datagrams, map_datagrams] at hperm
  exact hperm

theorem dequeued_perm :
    (packets (dequeuedOf reports)).Perm (packets (droppedAfterOf reports) ++ packets taken) := by
  have hperm := hrem.dequeued.map Datagram.toPacket
  rw [map_append, map_datagrams, map_datagrams, map_datagrams] at hperm
  exact hperm

theorem bare_of_removes (hbare : ∀ datagram ∈ before, datagram.headersAdded = 0) :
    (∀ datagram ∈ after, datagram.headersAdded = 0) ∧ ∀ item ∈ taken, item.headersAdded = 0 := by
  constructor
  · intro datagram hmem
    apply hbare
    apply hrem.contents.mem_iff.mpr
    simp [hmem]
  · intro item hmem
    apply hbare item.toDatagram
    apply hrem.contents.mem_iff.mpr
    have htaken : item.toDatagram ∈ datagrams taken := mem_map_of_mem hmem
    simp [htaken]

end

theorem enqueue (hflow : Flow contract [] queueDisc) (env : Env Chance) {item : QueueDiscItem}
    (hitem : item.headersAdded = 0) : Flow contract [] (queueDisc.enqueue disc env item).2 := by
  obtain ⟨base, inner⟩ := queueDisc
  obtain ⟨hvalid, hcnt, hgot, henq, hdeq, hheld, horder, hbare, hslot⟩ := hflow
  have hnext := contract.enqueue_valid env (base.receive item).occupancy item inner hvalid
  have hstores := contract.enqueue_stores env (base.receive item).occupancy item inner hvalid
  have hfifo := fun hfifo : contract.Fifo =>
    hfifo.enqueue env (base.receive item).occupancy item inner hvalid
  have hrecv : (base.receive item).log =
      { base.log with received := base.log.received ++ [item] } := rfl
  have hsame : (base.receive item).requeued = base.requeued ∧
      (base.receive item).peeked = base.peeked := ⟨rfl, rfl⟩
  have hcounts := hcnt.receive item
  simp only [enqueue]
  generalize disc.doEnqueue env (base.receive item).occupancy item inner = outcome at *
  generalize base.receive item = received at *
  have hlog := received.callbacks_log outcome.reports
  obtain ⟨hrequ, hpeeked, -⟩ := received.callbacks_frame outcome.reports
  rw [hrecv, hsame.2] at hlog
  rw [hsame.1] at hrequ
  rw [hsame.2] at hpeeked
  -- the dequeues reported are those of packets dropped to make room
  have hdropped : (packets (countedOf base.peeked outcome.reports)).Perm
      (packets (droppedAfterOf outcome.reports)) := by
    have hperm := hstores.dequeued.map Datagram.toPacket
    rw [map_datagrams, map_datagrams] at hperm
    unfold countedOf
    split
    · exact .refl _
    · exact hperm
  have hcont := hstores.contents.map Datagram.toPacket
  rw [map_append, map_append, map_datagrams, map_datagrams] at hcont
  refine ⟨hnext, hcounts.callbacks _, ?_, ?_, ?_, ?_, ?_, ?_, ?_⟩
  · simp only [hlog, packets_append, map_append, hstores.refused]
    have hmore := hgot.append_right [item.toPacket]
    cases hres : outcome.result with
    | true =>
      simp only [hstores.enqueued, hres, if_true, packets_cons, packets_nil, append_nil]
      rw [append_assoc] at hmore ⊢
      exact hmore.trans (perm_append_comm.append_left _)
    | false => simpa [hstores.enqueued, hres] using hmore
  · simp only [hlog, packets_append, owned, stored,
      heldByPeek, hrequ, hpeeked] at henq ⊢
    rw [perm_iff_count] at henq hdropped hcont ⊢
    intro packet
    have hold := henq packet
    have hdrop := hdropped packet
    have hmoved := hcont packet
    simp only [count_append] at hold hmoved ⊢
    omega
  · simp only [hlog, packets_append, awaitingDevice, hrequ,
      hpeeked] at hdeq ⊢
    rw [← append_assoc]
    exact hdeq.append hdropped
  · simpa only [hrequ, hpeeked] using hheld
  · intro hcontract
    have hstored := (hfifo hcontract).map Datagram.toPacket
    rw [map_append, map_datagrams] at hstored
    have hold :=
      (horder hcontract).append (List.Sublist.refl (packets (enqueuedOf outcome.reports)))
    simp only [hlog, hrequ, packets_append, stored] at hold ⊢
    refine List.Sublist.trans ?_ hold
    rw [append_assoc _ (map _ _)]
    exact hstored.append_left _
  · intro datagram hmem
    have hpre : datagram ∈ contract.contents inner ++ datagrams (enqueuedOf outcome.reports) :=
      hstores.contents.mem_iff.mpr (mem_append_left _ hmem)
    rcases mem_append.mp hpre with hmem | hmem
    · exact hbare datagram hmem
    · rw [hstores.enqueued] at hmem
      cases hres : outcome.result with
      | false => simp [hres, datagrams] at hmem
      | true =>
        have heq : datagram = item.toDatagram := by simpa [hres, datagrams] using hmem
        rw [heq, hitem]
  · simpa only [hrequ, hpeeked] using hslot

section Removal

variable {base : Base} {inner after : State} {reports : List Callback}

section

variable (hflow : Flow contract [] ⟨base, inner⟩)
include hflow

theorem remove {taken : List QueueDiscItem} (hvalid : contract.Valid after)
    (hrem : Removes (contract.contents inner) (contract.contents after) taken reports)
    (hfifo : contract.Fifo →
      (datagrams taken ++ contract.contents after).Sublist (contract.contents inner))
    (hfree : taken = [] ∨ base.requeued = none) :
    Flow contract (packets taken) ⟨base.callbacks reports, after⟩ := by
  have hlog := base.callbacks_log reports
  obtain ⟨hrequ, hpeeked, -⟩ := base.callbacks_frame reports
  obtain ⟨-, hcounted, hgot, henq, hdeq, hheld, horder, hbare, hslot⟩ := hflow
  have hstored := stored_perm hrem
  have hcnt : (packets (countedOf base.peeked reports)).Perm
      (packets (droppedAfterOf reports) ++ packets taken) := by
    cases hpeek : base.peeked with
    | false => exact dequeued_perm hrem
    | true =>
      -- a peeked packet is in the slot, so nothing is returned
      have hsome := hheld hpeek
      have hnone : taken = [] := hfree.resolve_right fun heq => by simp [heq] at hsome
      rw [hnone]
      simp [countedOf]
  refine ⟨hvalid, hcounted.callbacks _, ?_, ?_, ?_, ?_, ?_, ?_, ?_⟩
  · simpa only [hlog, hrem.enqueued, hrem.refused, append_nil] using hgot
  · simp only [hlog, hrem.enqueued, append_nil, packets_append, owned,
      stored, heldByPeek, hrequ, hpeeked] at henq ⊢
    rw [perm_iff_count] at henq hcnt hstored ⊢
    intro packet
    have hold := henq packet
    have hdrop := hcnt packet
    have hmoved := hstored packet
    simp only [count_append] at hold hdrop hmoved ⊢
    omega
  · simp only [hlog, packets_append, awaitingDevice, hrequ, hpeeked] at hdeq ⊢
    rw [perm_iff_count] at hdeq hcnt ⊢
    intro packet
    have hold := hdeq packet
    have hdrop := hcnt packet
    simp only [count_append, count_nil] at hold hdrop ⊢
    omega
  · simpa only [hrequ, hpeeked] using hheld
  · intro hcontract
    have htaken := (hfifo hcontract).map Datagram.toPacket
    rw [map_append, map_datagrams] at htaken
    have hold := horder hcontract
    simp only [hlog, hrequ, hrem.enqueued, append_nil, stored] at hold ⊢
    refine List.Sublist.trans ?_ hold
    rcases hfree with rfl | hnone
    · rw [packets_nil, nil_append] at htaken
      simpa using htaken
    · simp only [hnone, Option.toList_none, packets_nil, append_nil, append_assoc]
      exact htaken.append_left _
  · exact (bare_of_removes hrem hbare).1
  · simpa only [hrequ, hpeeked] using hslot

theorem hold {taken : Option QueueDiscItem} (hvalid : contract.Valid after)
    (hrem : Removes (contract.contents inner) (contract.contents after) taken.toList reports)
    (hfifo : contract.Fifo →
      (datagrams taken.toList ++ contract.contents after).Sublist (contract.contents inner))
    (hnone : base.requeued = none) :
    Flow contract []
      ⟨{ callbacks { base with peeked := true } reports with
        requeued := taken, peeked := taken.isSome }, after⟩ := by
  have hlog := callbacks_log { base with peeked := true } reports
  obtain ⟨-, hcnt, hgot, henq, hdeq, hheld, horder, hbare, -⟩ := hflow
  -- the slot is empty, so nothing is held by a peek yet
  have hpeeked : base.peeked = false := by
    cases hpeek : base.peeked with
    | false => rfl
    | true =>
      have hsome := hheld hpeek
      simp [hnone] at hsome
  have hstored := stored_perm hrem
  have hslot : (if taken.isSome then packets taken.toList else []) = packets taken.toList := by
    cases taken <;> rfl
  refine ⟨hvalid, ((hcnt.slot base.requeued true).callbacks reports).slot taken taken.isSome,
    ?_, ?_, ?_, ?_, ?_, ?_, ?_⟩
  · simpa only [hlog, hrem.enqueued, hrem.refused, append_nil] using hgot
  · simp only [hlog, hrem.enqueued, append_nil, packets_append, owned,
      stored, heldByPeek, hpeeked, hslot, countedOf, if_true, Bool.false_eq_true,
      if_false] at henq ⊢
    rw [perm_iff_count] at henq hstored ⊢
    intro packet
    have hold := henq packet
    have hmoved := hstored packet
    simp only [count_append] at hold hmoved ⊢
    omega
  · have hempty : (if taken.isSome then [] else packets taken.toList) = [] := by
      cases taken <;> rfl
    simp only [hlog]
    simp only [packets_append, awaitingDevice, hnone, hpeeked, hempty, countedOf, if_true,
      Bool.false_eq_true, if_false, Option.toList_none, packets_nil,
      append_nil] at hdeq ⊢
    rw [← append_assoc]
    exact hdeq.append_right _
  · exact fun hsome => hsome
  · intro hcontract
    have htaken := (hfifo hcontract).map Datagram.toPacket
    rw [map_append, map_datagrams] at htaken
    have hold := horder hcontract
    simp only [hlog]
    simp only [hrem.enqueued, append_nil, hnone, Option.toList_none, packets_nil,
      stored, append_assoc] at hold ⊢
    exact (htaken.append_left _).trans hold
  · exact (bare_of_removes hrem hbare).1
  · intro item hitem
    have htaken : taken = some item := hitem
    have hzero := (bare_of_removes hrem hbare).2 item (by simp [htaken])
    simp [htaken, hzero]

theorem takeRequeued {item : QueueDiscItem} (hrequ : base.requeued = some item) :
    Flow contract (packets [item]) ⟨base.takeRequeued item, inner⟩ := by
  obtain ⟨hvalid, hcnt, hgot, henq, hdeq, -, horder, hbare, -⟩ := hflow
  have hcounts := hcnt.takeRequeued item
  unfold Base.takeRequeued at hcounts ⊢
  cases hpeeked : base.peeked with
  | true =>
    simp only [hpeeked, if_true] at hcounts ⊢
    refine ⟨hvalid, hcounts, hgot, ?_, ?_, ?_, ?_, hbare, ?_⟩
    · simp only [Base.packetDequeued, owned, Base.heldByPeek, hpeeked, hrequ,
        if_true, Bool.false_eq_true, if_false, Option.toList_some, packets_append,
        append_nil] at henq ⊢
      rw [append_assoc]
      exact henq.trans (perm_append_comm.append_left _)
    · simp only [Base.packetDequeued, Base.awaitingDevice, hpeeked, if_true,
        Bool.false_eq_true, if_false, Option.toList_none, packets_append, packets_nil,
        append_nil] at hdeq ⊢
      rw [append_assoc]
      exact (hdeq.append_right _).trans
        (by rw [append_assoc]; exact perm_append_comm.append_left _)
    · simp [Base.packetDequeued]
    · intro hcontract
      have hold := horder hcontract
      simpa [Base.packetDequeued, hrequ] using hold
    · simp [Base.packetDequeued]
  | false =>
    simp only [hpeeked, Bool.false_eq_true, if_false] at hcounts ⊢
    refine ⟨hvalid, hcounts, hgot, ?_, ?_, ?_, ?_, hbare, ?_⟩
    · simpa [owned, Base.heldByPeek, hpeeked] using henq
    · simpa [Base.awaitingDevice, hpeeked, hrequ] using hdeq
    · simp
    · intro hcontract
      have hold := horder hcontract
      simpa [hrequ] using hold
    · simp

end

end Removal

theorem peeked_of_requeued_none (hflow : Flow contract inFlight queueDisc)
    (hnone : queueDisc.base.requeued = none) : queueDisc.base.peeked = false := by
  cases hpeeked : queueDisc.base.peeked with
  | false => rfl
  | true =>
    have hsome := hflow.held hpeeked
    simp [hnone] at hsome

theorem takeRequeued_slot (base : Base) (item : QueueDiscItem) :
    (base.takeRequeued item).requeued = none ∧ (base.takeRequeued item).peeked = false ∧
    (base.takeRequeued item).devQueueIface = base.devQueueIface := by
  unfold Base.takeRequeued
  cases hpeeked : base.peeked with
  | true => simp [Base.packetDequeued]
  | false => simp

section

variable (hflow : Flow contract [] queueDisc) (env : Env Chance)
include hflow

theorem dequeue :
    Flow contract (packets (queueDisc.dequeue disc env).1.toList) (queueDisc.dequeue disc env).2 ∧
      (queueDisc.dequeue disc env).2.base.requeued = none ∧
      (queueDisc.dequeue disc env).2.base.devQueueIface = queueDisc.base.devQueueIface := by
  obtain ⟨base, inner⟩ := queueDisc
  cases hrequ : base.requeued with
  | some item =>
    rw [dequeue_of_some disc hrequ env]
    obtain ⟨hnone, -, hiface⟩ := takeRequeued_slot base item
    exact ⟨hflow.takeRequeued hrequ, hnone, hiface⟩
  | none =>
    rw [dequeue_of_none disc hrequ env]
    obtain ⟨hslot, -, -, -, hiface⟩ :=
      base.callbacks_frame (disc.doDequeue env base.occupancy inner).reports
    refine ⟨?_, hslot.trans hrequ, hiface⟩
    exact hflow.remove (contract.dequeue_valid env base.occupancy inner hflow.valid)
      (contract.dequeue_removes env base.occupancy inner hflow.valid)
      (fun hfifo => hfifo.dequeue env base.occupancy inner hflow.valid) (.inr hrequ)

theorem doPeek : Flow contract [] (queueDisc.doPeek disc env).2 := by
  obtain ⟨base, inner⟩ := queueDisc
  unfold QueueDisc.doPeek
  cases hrequ : base.requeued with
  | some item => exact hflow
  | none =>
    have hnone : QueueDisc.dequeue disc ⟨{ base with peeked := true }, inner⟩ env = _ :=
      QueueDisc.dequeue_of_none disc hrequ env
    simp only [hnone]
    exact hflow.hold (contract.dequeue_valid env base.occupancy inner hflow.valid)
      (contract.dequeue_removes env base.occupancy inner hflow.valid)
      (fun hfifo => hfifo.dequeue env base.occupancy inner hflow.valid) hrequ

theorem peek : Flow contract [] (queueDisc.peek disc env).2 := by
  unfold QueueDisc.peek
  split
  · exact hflow.doPeek env
  next peekOwn hpeek =>
    obtain ⟨base, inner⟩ := queueDisc
    have hrem := contract.peek_removes peekOwn hpeek env base.occupancy inner hflow.valid
    exact hflow.remove (contract.peek_valid peekOwn hpeek env base.occupancy inner hflow.valid)
      hrem
        (fun hfifo => hfifo.peek peekOwn hpeek env base.occupancy inner hflow.valid) (.inl rfl)

end

theorem handOut {item : Option QueueDiscItem}
    (hflow : Flow contract (packets item.toList) queueDisc) :
    Flow contract [] (queueDisc.handOut item) where
  __ := hflow
  counted := { hflow.counted with }
  dequeued := by
    have hsame : (queueDisc.handOut item).base.awaitingDevice = queueDisc.base.awaitingDevice := rfl
    rw [hsame]
    simpa only [QueueDisc.handOut, packets_append, append_nil] using hflow.dequeued
  order hfifo := by
    simpa only [QueueDisc.handOut, packets_append, append_nil] using hflow.order hfifo

theorem dequeuePacket (hflow : Flow contract [] queueDisc) (env : Env Chance) :
    Flow contract (packets (queueDisc.dequeuePacket disc env).1.toList)
      (queueDisc.dequeuePacket disc env).2 ∧
      (queueDisc.dequeuePacket disc env).2.base.devQueueIface = queueDisc.base.devQueueIface ∧
      ∀ item,
        (queueDisc.dequeuePacket disc env).1 = some item →
          (queueDisc.dequeuePacket disc env).2.base.requeued = none ∧
            (item.headersAdded = if queueDisc.takesPeeked then 0 else 1) ∧
            (queueDisc.takesPeeked = true →
              queueDisc.base.isStopped item.txQueueIndex = false) := by
  cases hrequ : queueDisc.base.requeued with
  | some held =>
    cases hstop : queueDisc.base.isStopped held.txQueueIndex with
    | true =>
      simp only [QueueDisc.dequeuePacket, hrequ, hstop, if_true]
      exact ⟨hflow, trivial, by simp⟩
    | false =>
      simp only [QueueDisc.dequeuePacket, hrequ, hstop, Bool.false_eq_true, if_false]
      obtain ⟨hnone, -, hiface⟩ := takeRequeued_slot queueDisc.base held
      refine ⟨hflow.takeRequeued hrequ, hiface, ?_⟩
      intro item hitem
      obtain rfl : held = item := Option.some.inj hitem
      refine ⟨hnone, ?_, fun _ => hstop⟩
      simpa [QueueDisc.takesPeeked, hrequ, hstop] using hflow.slotHeaders held hrequ
  | none =>
    have hfresh : queueDisc.takesPeeked = false := by simp [QueueDisc.takesPeeked, hrequ]
    cases hmay : queueDisc.base.mayDequeue with
    | false =>
      simp only [QueueDisc.dequeuePacket, hrequ, hmay, Bool.false_eq_true, if_false]
      exact ⟨hflow, trivial, by simp⟩
    | true =>
      simp only [QueueDisc.dequeuePacket, hrequ, hmay, if_true]
      obtain ⟨hnext, hnone, hiface⟩ := hflow.dequeue env
      have hpkts :
          packets ((queueDisc.dequeue disc env).1.map QueueDiscItem.addHeader).toList
          = packets (queueDisc.dequeue disc env).1.toList := by
        cases (queueDisc.dequeue disc env).1 <;> simp
      refine ⟨hpkts ▸ hnext, hiface, ?_⟩
      intro item hitem
      obtain ⟨taken, htaken, rfl⟩ := Option.map_eq_some_iff.mp hitem
      refine ⟨hnone, ?_, by simp [hfresh]⟩
      -- a fresh packet comes from the queue disc without a header
      rw [QueueDisc.dequeue_of_none disc hrequ env] at htaken
      have hrem := contract.dequeue_removes env queueDisc.base.occupancy queueDisc.inner
        hflow.valid
      have hres := Option.mem_toList.mpr htaken
      have hzero := (bare_of_removes hrem hflow.bare).2 taken hres
      simp [hfresh, hzero]

theorem transmit {item : QueueDiscItem}
    (hflow : Flow contract (packets [item]) queueDisc) (hnone : queueDisc.base.requeued = none)
    (hhdrs : queueDisc.base.isStopped item.txQueueIndex = true → item.headersAdded = 1)
    (stoppedAfter : Nat → Bool) : Flow contract [] (queueDisc.transmit item stoppedAfter).2 := by
  have hpeeked := hflow.peeked_of_requeued_none hnone
  obtain ⟨hvalid, hcnt, hgot, henq, hdeq, -, horder, hbare, -⟩ := hflow
  unfold QueueDisc.transmit
  cases hstop : queueDisc.base.isStopped item.txQueueIndex with
  | true =>
    simp only [if_true]
    refine ⟨hvalid, { hcnt with }, hgot, ?_, ?_, ?_, ?_, hbare, ?_⟩
    · simpa [requeue, owned, heldByPeek, hpeeked] using henq
    · simpa [requeue, awaitingDevice, hpeeked, hnone] using hdeq
    · simp [requeue]
    · intro hfifo
      have hold := horder hfifo
      simpa [requeue, hnone] using hold
    · intro other hother
      obtain rfl : item = other := Option.some.inj hother
      simpa [requeue, hpeeked] using hhdrs hstop
  | false =>
    simp only [Bool.false_eq_true, if_false]
    refine ⟨hvalid, { hcnt with }, hgot, ?_, ?_, ?_, ?_, hbare, ?_⟩
    · simpa [send, setStopped, owned, heldByPeek, hpeeked] using henq
    · simpa [send, setStopped, awaitingDevice, hpeeked, hnone] using hdeq
    · simp [send, setStopped, hpeeked]
    · intro hfifo
      have hold := horder hfifo
      simpa [send, setStopped, hnone] using hold
    · simp [send, setStopped, hnone]

theorem restart (hflow : Flow contract [] queueDisc)
    (round : Round Chance) : Flow contract [] (queueDisc.restart disc round).2 := by
  obtain ⟨hnext, hiface, hitem⟩ := hflow.dequeuePacket round.env
  simp only [QueueDisc.restart]
  cases htaken : (queueDisc.dequeuePacket disc round.env).1 with
  | none =>
    rw [htaken] at hnext
    exact hnext
  | some item =>
    obtain ⟨hnone, hhdrs, hrun⟩ := hitem item htaken
    rw [htaken] at hnext
    apply hnext.transmit hnone
    intro hstop
    -- a packet held by a peek is only taken when its queue runs
    have hsame : queueDisc.base.isStopped item.txQueueIndex = true := by
      simpa only [isStopped, hiface] using hstop
    cases htakes : queueDisc.takesPeeked with
    | true => simp [hrun htakes] at hsame
    | false => simpa [htakes] using hhdrs

theorem restarts (hflow : Flow contract [] queueDisc) (rounds : Nat → Round Chance)
    (remaining : Nat) : Flow contract [] (restarts disc rounds remaining queueDisc) := by
  induction remaining generalizing queueDisc with
  | zero => exact hflow
  | succ remaining ih =>
    have hnext := hflow.restart (rounds remaining)
    simp only [restarts]
    split
    · exact ih hnext
    · exact hnext

theorem running (hflow : Flow contract inFlight queueDisc) (running : Bool) :
    Flow contract inFlight
      { queueDisc with base := { queueDisc.base with running := running } } where
  __ := hflow
  counted := { hflow.counted with }

theorem run (hflow : Flow contract [] queueDisc) (rounds : Nat → Round Chance) :
    Flow contract [] (queueDisc.run disc rounds) := by
  unfold QueueDisc.run
  split
  · exact hflow
  · exact ((hflow.running true).restarts rounds _).running false

theorem call (hflow : Flow contract [] queueDisc)
    (input : Call Chance) : Flow contract [] (queueDisc.call disc input).2 := by
  cases input with
  | enqueue env packet dsField => exact hflow.enqueue env rfl
  | dequeue env => exact (hflow.dequeue env).1.handOut
  | peek env => exact hflow.peek env
  | run rounds => exact hflow.run rounds
  | setStopped stopped =>
    exact { hflow with counted := { hflow.counted with } }

theorem of_reachable {quota : Nat} {iface : Option NetDeviceQueueInterface}
    {allowed : QueueDisc State → Call Chance → Prop} (contract : Contract disc)
    (hreach : (machine disc quota iface).ReachableUnder allowed queueDisc) :
    Flow contract [] queueDisc := by
  apply hreach.invariant
  · exact .init contract quota iface
  · intro state input next hflow _ hstep
    rw [← Except.ok.inj hstep]
    exact hflow.call input

end Flow

end HomaSird.TrafficControl
