import HomaSird.TrafficControl.CoDelQueueDisc
import HomaSird.TrafficControl.PacketFlow

/-! # The statistics of a queue disc balance unless a peek holds a packet

Between the calls every counter but the sent ones is right while no word
overflows. The sent figures subtract whatever is in the slot, and a packet that a
peek put there has not been counted as dequeued.
-/

namespace HomaSird.TrafficControl

open Base

variable {State Chance : Type} {disc : Discipline State Chance}

/-- The counters and the reported statistics agree with each other and with what the queue disc
owns, was given and has handed out. -/
structure Balanced (contract : Contract disc) (queueDisc : QueueDisc State) : Prop where
  nPackets : queueDisc.base.nPackets = (contract.owned queueDisc).length
  nBytes : queueDisc.base.nBytes = bytes (contract.owned queueDisc)
  received : queueDisc.base.getStats.nTotalReceivedPackets = queueDisc.base.log.received.length
  receivedBytes :
    queueDisc.base.getStats.nTotalReceivedBytes = bytes (packets queueDisc.base.log.received)
  stored : queueDisc.base.getStats.nTotalReceivedPackets =
    queueDisc.base.getStats.nTotalEnqueuedPackets
      + queueDisc.base.getStats.nTotalDroppedPacketsBeforeEnqueue
  storedBytes : queueDisc.base.getStats.nTotalReceivedBytes =
    queueDisc.base.getStats.nTotalEnqueuedBytes
      + queueDisc.base.getStats.nTotalDroppedBytesBeforeEnqueue
  kept : queueDisc.base.getStats.nTotalEnqueuedPackets =
    queueDisc.base.getStats.nTotalDequeuedPackets + queueDisc.base.nPackets
  keptBytes : queueDisc.base.getStats.nTotalEnqueuedBytes =
    queueDisc.base.getStats.nTotalDequeuedBytes + queueDisc.base.nBytes
  sent : queueDisc.base.getStats.nTotalSentPackets = queueDisc.base.log.handedOut.length
  sentBytes :
    queueDisc.base.getStats.nTotalSentBytes = bytes (packets queueDisc.base.log.handedOut)
  dequeued : queueDisc.base.getStats.nTotalDequeuedPackets =
    queueDisc.base.getStats.nTotalSentPackets
      + queueDisc.base.getStats.nTotalDroppedPacketsAfterDequeue
      + queueDisc.base.awaitingDevice.length
  dequeuedBytes : queueDisc.base.getStats.nTotalDequeuedBytes =
    queueDisc.base.getStats.nTotalSentBytes
      + queueDisc.base.getStats.nTotalDroppedBytesAfterDequeue
      + bytes queueDisc.base.awaitingDevice

structure Fits (contract : Contract disc) (queueDisc : QueueDisc State) : Prop where
  received : queueDisc.base.log.received.length < 2 ^ 32
  receivedBytes : bytes (packets queueDisc.base.log.received) < 2 ^ 64
  ownedBytes : bytes (contract.owned queueDisc) < 2 ^ 32

namespace Flow

variable {contract : Contract disc} {queueDisc : QueueDisc State}

theorem lengths (hflow : Flow contract [] queueDisc) :
    queueDisc.base.log.received.length =
      queueDisc.base.log.enqueued.length + queueDisc.base.log.droppedBeforeEnqueue.length ∧
      queueDisc.base.log.enqueued.length =
        queueDisc.base.log.dequeued.length + (contract.owned queueDisc).length ∧
      queueDisc.base.log.dequeued.length = queueDisc.base.log.handedOut.length +
          queueDisc.base.awaitingDevice.length + queueDisc.base.log.droppedAfterDequeue.length := by
  have hgot := hflow.received.length_eq
  have henq := hflow.enqueued.length_eq
  have hdeq := hflow.dequeued.length_eq
  simp only [List.length_append, length_packets, List.length_map, List.length_nil] at *
  omega

theorem byteSums (hflow : Flow contract [] queueDisc) :
    bytes (packets queueDisc.base.log.received) = bytes (packets queueDisc.base.log.enqueued) +
        bytes (packets (queueDisc.base.log.droppedBeforeEnqueue.map Prod.fst)) ∧
      bytes (packets queueDisc.base.log.enqueued) =
        bytes (packets queueDisc.base.log.dequeued) + bytes (contract.owned queueDisc) ∧
      bytes (packets queueDisc.base.log.dequeued) =
        bytes (packets queueDisc.base.log.handedOut) + bytes queueDisc.base.awaitingDevice +
          bytes (packets queueDisc.base.log.droppedAfterDequeue) := by
  have hgot := bytes_perm hflow.received
  have henq := bytes_perm hflow.enqueued
  have hdeq := bytes_perm hflow.dequeued
  simp only [bytes_append, bytes_nil] at *
  omega

theorem awaitingDevice_of_unpeeked {base : Base} (hpeeked : base.peeked = false) :
    base.awaitingDevice.length = base.requeuedPackets ∧
      bytes base.awaitingDevice = base.requeuedBytes := by
  unfold awaitingDevice requeuedPackets requeuedBytes
  rw [hpeeked]
  cases base.requeued with
  | none => simp
  | some item => simp

theorem sent_of_unpeeked (hflow : Flow contract [] queueDisc)
    (hfits : Fits contract queueDisc) (hpeeked : queueDisc.base.peeked = false) :
    queueDisc.base.getStats.nTotalSentPackets = queueDisc.base.log.handedOut.length ∧
    queueDisc.base.getStats.nTotalSentBytes = bytes (packets queueDisc.base.log.handedOut) := by
  obtain ⟨hgot, henq, hdeq⟩ := hflow.lengths
  obtain ⟨hreceivedBytes, henqueuedBytes, hdequeuedBytes⟩ := hflow.byteSums
  obtain ⟨hslot, hslotBytes⟩ := awaitingDevice_of_unpeeked hpeeked
  have hwidth := hfits.received
  have hwidthBytes := hfits.receivedBytes
  simp only [getStats, hflow.counted.dequeued, hflow.counted.dequeuedBytes,
    hflow.counted.dropped, hflow.counted.droppedBytes, uint32, uint64, uint32OfInt, uint64OfInt]
  omega

theorem sent_of_peeked (hflow : Flow contract [] queueDisc) (hpeeked : queueDisc.base.peeked = true)
    : queueDisc.base.getStats.nTotalSentPackets ≠ queueDisc.base.log.handedOut.length := by
  obtain ⟨-, -, hdeq⟩ := hflow.lengths
  obtain ⟨item, hitem⟩ := Option.isSome_iff_exists.mp (hflow.held hpeeked)
  have hnone : queueDisc.base.awaitingDevice.length = 0 := by
    simp [awaitingDevice, hpeeked]
  have hone : queueDisc.base.requeuedPackets = 1 := by
    simp [requeuedPackets, hitem]
  simp only [getStats, hflow.counted.dequeued, hflow.counted.dropped, hone, uint32, uint32OfInt]
  omega

theorem balanced (hflow : Flow contract [] queueDisc) (hfits : Fits contract queueDisc)
    (hpeeked : queueDisc.base.peeked = false) : Balanced contract queueDisc := by
  obtain ⟨hgot, henq, hdeq⟩ := hflow.lengths
  obtain ⟨hreceivedBytes, henqueuedBytes, hdequeuedBytes⟩ := hflow.byteSums
  obtain ⟨hsent, hsentBytes⟩ := hflow.sent_of_unpeeked hfits hpeeked
  obtain ⟨hwidth, hwidthBytes, howned⟩ := hfits
  have hcnt := hflow.counted
  have hnPackets : queueDisc.base.nPackets = (contract.owned queueDisc).length := by
    rw [hcnt.nPackets, uint32OfInt]
    omega
  have hnBytes : queueDisc.base.nBytes = bytes (contract.owned queueDisc) := by
    rw [hcnt.nBytes, uint32OfInt]
    omega
  -- no counter has wrapped
  have hreceivedExact := hcnt.received.trans (uint32_of_lt hwidth)
  have hreceivedBytesExact := hcnt.receivedBytes.trans (uint64_of_lt hwidthBytes)
  have henqueuedExact := hcnt.enqueued.trans (uint32_of_lt (by omega))
  have henqueuedBytesExact := hcnt.enqueuedBytes.trans (uint64_of_lt (by omega))
  have hdequeuedExact := hcnt.dequeued.trans (uint32_of_lt (by omega))
  have hdequeuedBytesExact := hcnt.dequeuedBytes.trans (uint64_of_lt (by omega))
  have hrefusedExact := hcnt.refused.trans (uint32_of_lt (by omega))
  have hrefusedBytesExact := hcnt.refusedBytes.trans (uint64_of_lt (by omega))
  have hdroppedExact := hcnt.dropped.trans (uint32_of_lt (by omega))
  have hdroppedBytesExact := hcnt.droppedBytes.trans (uint64_of_lt (by omega))
  refine ⟨hnPackets, hnBytes, hreceivedExact, hreceivedBytesExact, ?_, ?_, ?_, ?_, hsent,
    hsentBytes, ?_, ?_⟩
  · simp only [getStats, hreceivedExact, henqueuedExact, hrefusedExact]
    exact hgot
  · simp only [getStats, hreceivedBytesExact, henqueuedBytesExact, hrefusedBytesExact]
    exact hreceivedBytes
  · simp only [getStats, henqueuedExact, hdequeuedExact, hnPackets]
    exact henq
  · simp only [getStats, henqueuedBytesExact, hdequeuedBytesExact, hnBytes]
    exact henqueuedBytes
  · rw [hsent]
    simp only [getStats, hdequeuedExact, hdroppedExact]
    omega
  · rw [hsentBytes]
    simp only [getStats, hdequeuedBytesExact, hdroppedBytesExact]
    omega

theorem fits (hflow : Flow contract [] queueDisc)
    (hbal : Balanced contract queueDisc) : Fits contract queueDisc where
  received := by
    rw [← hbal.received]
    simp only [getStats, hflow.counted.received, uint32]
    omega
  receivedBytes := by
    rw [← hbal.receivedBytes]
    simp only [getStats, hflow.counted.receivedBytes, uint64]
    omega
  ownedBytes := by
    rw [← hbal.nBytes, hflow.counted.nBytes, uint32OfInt]
    omega

end Flow

/-- Between the calls the statistics balance exactly when no peek holds a packet and the counters
hold the true figures. -/
theorem balanced_iff_not_peeked (contract : Contract disc)
    {quota : Nat} {iface : Option NetDeviceQueueInterface} {queueDisc : QueueDisc State}
    (hreach : (QueueDisc.machine disc quota iface).Reachable queueDisc) :
    Balanced contract queueDisc ↔ queueDisc.base.peeked = false ∧ Fits contract queueDisc := by
  have hflow := Flow.of_reachable contract hreach
  constructor
  · intro hbalanced
    refine ⟨?_, hflow.fits hbalanced⟩
    by_contra hheld
    exact hflow.sent_of_peeked (by simpa using hheld) hbalanced.sent
  · intro hst
    exact hflow.balanced hst.2 hst.1

theorem balanced_iff_not_peeked_requeued :
    let disc := coDelQueueDisc quietCoDel
    let iface : NetDeviceQueueInterface := ⟨2, fun txQueueIndex => txQueueIndex == 1⟩
    let inputs : List (Call Unit) := [.enqueue ⟨0, ()⟩ ⟨1, 100, 1⟩ none,
      .enqueue ⟨0, ()⟩ ⟨2, 200, 0⟩ none, .run fun _ => ⟨⟨1, ()⟩, fun _ => false⟩]
    let queueDisc := (QueueDisc.machine disc 64 (some iface)).after (fun _ _ => true) inputs
      (QueueDisc.init disc 64 (some iface))
    Balanced (CoDelQueueDisc.contract quietCoDel rfl (by decide)) queueDisc ∧
      queueDisc.base.nPackets = 1 ∧ queueDisc.base.requeued.isSome := by
  intro disc iface inputs queueDisc
  have hreach : (QueueDisc.machine disc 64 (some iface)).Reachable queueDisc :=
    Transition.Machine.ReachableUnder.after (fun _ _ _ => trivial) inputs .init
  refine ⟨?_, by decide +kernel, by decide +kernel⟩
  apply (balanced_iff_not_peeked _ hreach).mpr
  exact ⟨by decide +kernel, ⟨by decide +kernel, by decide +kernel, by decide +kernel⟩⟩

/-- A packet is enqueued and peeked: nothing was sent, and the statistics report the largest word.
-/
theorem unbalanced_after_peek :
    let disc := coDelQueueDisc quietCoDel
    let inputs : List (Call Unit) := [.enqueue ⟨0, ()⟩ ⟨1, 100, 0⟩ none, .peek ⟨1, ()⟩]
    let queueDisc := (QueueDisc.machine disc 64 none).after (fun _ _ => true) inputs
      (QueueDisc.init disc 64 none)
    (QueueDisc.machine disc 64 none).Reachable queueDisc ∧
      queueDisc.base.log.handedOut = [] ∧
      queueDisc.base.getStats.nTotalSentPackets = 2 ^ 32 - 1 ∧
      ¬ Balanced (CoDelQueueDisc.contract quietCoDel rfl (by decide)) queueDisc := by
  intro disc inputs queueDisc
  have hnone : queueDisc.base.log.handedOut = [] := by decide +kernel
  have hsent : queueDisc.base.getStats.nTotalSentPackets = 2 ^ 32 - 1 := by decide +kernel
  refine ⟨?_, hnone, hsent, ?_⟩
  · exact Transition.Machine.ReachableUnder.after (fun _ _ _ => trivial) inputs .init
  · intro hbalanced
    have hclaimed := hbalanced.sent
    rw [hsent, hnone] at hclaimed
    cases hclaimed

end HomaSird.TrafficControl
