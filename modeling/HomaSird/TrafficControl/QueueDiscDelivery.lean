import HomaSird.TrafficControl.CoDelQueueDisc
import HomaSird.TrafficControl.PacketFlow

/-! # A queue disc hands out each packet once, in order

Whichever path supplies a packet, it is handed out once and in arrival order. A
fresh packet gets its header in `DequeuePacket` and a requeued one already has it,
but one that a peek left in the slot goes to the device without.
-/

namespace HomaSird.TrafficControl

open QueueDisc List

variable {State Chance : Type} {disc : Discipline State Chance}

structure Departures where
  sent : List QueueDiscItem
  returned : List QueueDiscItem
  handedOut : List QueueDiscItem
  running : Bool

def Base.departures (base : Base) : Departures :=
  ⟨base.log.sent, base.log.returned, base.log.handedOut, base.running⟩

theorem Base.callbacks_departures (base : Base)
    (reports : List Callback) : (base.callbacks reports).departures = base.departures := by
  obtain ⟨-, -, hrun, -⟩ := base.callbacks_frame reports
  simp only [Base.departures, base.callbacks_log reports, hrun]

theorem Base.takeRequeued_departures (base : Base)
    (item : QueueDiscItem) : (base.takeRequeued item).departures = base.departures := by
  unfold Base.takeRequeued
  split
  · simp [Base.packetDequeued, Base.departures]
  · rfl

namespace QueueDisc

variable (self : QueueDisc State)

theorem enqueue_departures (env : Env Chance) (item : QueueDiscItem) :
    (self.enqueue disc env item).2.base.departures = self.base.departures :=
  (self.base.receive item).callbacks_departures _

theorem dequeue_departures (env : Env Chance) :
    (self.dequeue disc env).2.base.departures = self.base.departures := by
  unfold dequeue
  split
  · exact self.base.takeRequeued_departures _
  · exact self.base.callbacks_departures _

theorem peek_departures (env : Env Chance) :
    (self.peek disc env).2.base.departures = self.base.departures := by
  unfold peek
  split
  · unfold doPeek
    split
    · rfl
    · exact dequeue_departures { self with base := { self.base with peeked := true } } env
  · exact self.base.callbacks_departures _

theorem dequeuePacket_departures (env : Env Chance) :
    (self.dequeuePacket disc env).2.base.departures = self.base.departures := by
  unfold dequeuePacket
  split
  · split
    · rfl
    · exact self.base.takeRequeued_departures _
  · split
    · exact self.dequeue_departures env
    · rfl

end QueueDisc

theorem QueueDisc.dequeuePacket_of_takesPeeked {queueDisc : QueueDisc State}
    (htakes : queueDisc.takesPeeked = true)
    (env : Env Chance) : ∃ item, (queueDisc.dequeuePacket disc env).1 = some item := by
  cases hrequ : queueDisc.base.requeued with
  | none => simp [takesPeeked, hrequ] at htakes
  | some item =>
    simp only [takesPeeked, hrequ, Bool.and_eq_true, Bool.not_eq_true'] at htakes
    simp only [dequeuePacket, hrequ, htakes.2]
    exact ⟨item, rfl⟩

theorem Flow.restart_sends {contract : Contract disc} {queueDisc : QueueDisc State}
    (hflow : Flow contract [] queueDisc) (round : Round Chance) :
    ((queueDisc.restart disc round).2.base.departures = queueDisc.base.departures ∧
        (queueDisc.restart disc round).1 = false ∧ queueDisc.takesPeeked = false) ∨
      ∃ item, (queueDisc.restart disc round).2.base.departures =
          { queueDisc.base.departures with
            sent := queueDisc.base.departures.sent ++ [item]
            handedOut := queueDisc.base.departures.handedOut ++ [item] } ∧
        (queueDisc.restart disc round).2.base.requeued = none ∧
        (item.headersAdded = if queueDisc.takesPeeked then 0 else 1) := by
  obtain ⟨-, hiface, hitem⟩ := hflow.dequeuePacket round.env
  have hsame : (queueDisc.dequeuePacket disc round.env).2.base.departures = _ :=
    queueDisc.dequeuePacket_departures round.env
  simp only [QueueDisc.restart]
  cases htaken : (queueDisc.dequeuePacket disc round.env).1 with
  | none =>
    refine .inl ⟨hsame, rfl, ?_⟩
    by_contra htakes
    obtain ⟨item, hsome⟩ := queueDisc.dequeuePacket_of_takesPeeked (by simpa using htakes) round.env
    rw [htaken] at hsome
    cases hsome
  | some item =>
    obtain ⟨hnone, hhdrs, hrun⟩ := hitem item htaken
    have hstopped : (queueDisc.dequeuePacket disc round.env).2.base.isStopped item.txQueueIndex
        = queueDisc.base.isStopped item.txQueueIndex := by
      simp only [Base.isStopped, hiface]
    simp only [QueueDisc.transmit, hstopped]
    split
    next hstop =>
      refine .inl ⟨hsame, rfl, ?_⟩
      by_contra htakes
      rw [hrun (by simpa using htakes)] at hstop
      cases hstop
    · refine .inr ⟨item, ?_, hnone, hhdrs⟩
      rw [← hsame]
      rfl

/-- The departures add up, and each packet sent has the number of headers that is allowed. -/
structure Departed (allowed : Nat → Prop) (departures : Departures) : Prop where
  together : departures.handedOut.Perm (departures.sent ++ departures.returned)
  inOrder : departures.sent.Sublist departures.handedOut
  headers : ∀ item ∈ departures.sent, allowed item.headersAdded

theorem Departed.send {allowed : Nat → Prop} {departures : Departures}
    (hgone : Departed allowed departures) {item : QueueDiscItem}
    (hitem : allowed item.headersAdded) :
    Departed allowed { departures with
      sent := departures.sent ++ [item], handedOut := departures.handedOut ++ [item] } where
  together := by
    have hmore := hgone.together.append_right [item]
    rw [append_assoc] at hmore ⊢
    exact hmore.trans (perm_append_comm.append_left _)
  inOrder := hgone.inOrder.append (.refl _)
  headers other hother := by
    rcases mem_append.mp hother with hold | hnew
    · exact hgone.headers other hold
    · rwa [mem_singleton.mp hnew]

theorem Flow.restarts_departed {contract : Contract disc} {allowed : Nat → Prop}
    {queueDisc : QueueDisc State} (hone : allowed 1) (hflow : Flow contract [] queueDisc)
    (hgone : Departed allowed queueDisc.base.departures) (hfst :
    queueDisc.takesPeeked = true → allowed 0) (rounds : Nat → Round Chance) (remaining : Nat) :
    Departed allowed (QueueDisc.restarts disc rounds remaining queueDisc).base.departures := by
  induction remaining generalizing queueDisc with
  | zero => exact hgone
  | succ remaining ih =>
    have hnext := hflow.restart (rounds remaining)
    simp only [QueueDisc.restarts]
    rcases hflow.restart_sends (rounds remaining) with ⟨hsame, hstop, -⟩ | ⟨item, hmore, hnone,
      hhdrs⟩
    · rw [hstop]
      simp only [Bool.false_eq_true, if_false]
      exact hsame ▸ hgone
    · have hallow : allowed item.headersAdded := by
        rw [hhdrs]
        split
        next htakes => exact hfst htakes
        · exact hone
      have hsent : Departed allowed
          (queueDisc.restart disc (rounds remaining)).2.base.departures :=
        hmore ▸ hgone.send hallow
      split
      · apply ih hnext hsent
        intro htakes
        simp [QueueDisc.takesPeeked, hnone] at htakes
      · exact hsent

theorem Flow.restarts_sent {contract : Contract disc} {queueDisc : QueueDisc State}
    (hflow : Flow contract [] queueDisc) (rounds : Nat → Round Chance) (remaining : Nat) :
    (∀ item ∈ queueDisc.base.departures.sent,
      item ∈ (QueueDisc.restarts disc rounds remaining queueDisc).base.departures.sent) ∧
      (QueueDisc.restarts disc rounds remaining queueDisc).base.departures.running =
        queueDisc.base.departures.running := by
  induction remaining generalizing queueDisc with
  | zero => exact ⟨fun _ hitem => hitem, rfl⟩
  | succ remaining ih =>
    have hlater := ih (hflow.restart (rounds remaining))
    simp only [QueueDisc.restarts]
    rcases hflow.restart_sends (rounds remaining) with ⟨hsame, hstop, -⟩ | ⟨item, hmore, -, -⟩
    · rw [hstop]
      simp only [Bool.false_eq_true, if_false]
      rw [hsame]
      exact ⟨fun _ hitem => hitem, rfl⟩
    · rw [hmore] at hlater
      split
      · exact ⟨fun other hother => hlater.1 other (mem_append_left _ hother), hlater.2⟩
      · rw [hmore]
        exact ⟨fun other hother => mem_append_left _ hother, rfl⟩

section Call

variable {contract : Contract disc} {queueDisc : QueueDisc State}

theorem Flow.run_takesPeeked (hflow : Flow contract [] queueDisc)
    (hidle : queueDisc.base.running = false) (htakes : queueDisc.takesPeeked = true) (rounds : Nat →
    Round Chance) : ∃ item ∈ (queueDisc.run disc rounds).base.log.sent, item.headersAdded = 0 := by
  have hstart := hflow.running true
  simp only [QueueDisc.run, hidle, Bool.false_eq_true, if_false, QueueDisc.restartLimit,
    QueueDisc.restarts]
  generalize uint32OfInt ((queueDisc.base.quota : Int) - 1) = remaining
  rcases hstart.restart_sends (rounds remaining) with ⟨-, -, hfresh⟩ | ⟨item, hmore, -, hhdrs⟩
  · have hsame : queueDisc.takesPeeked = false := hfresh
    rw [htakes] at hsame
    cases hsame
  · have hbare : item.headersAdded = 0 := by
      rw [hhdrs]
      exact if_pos htakes
    have hlater := (hstart.restart (rounds remaining)).restarts_sent rounds remaining
    rw [hmore] at hlater
    refine ⟨item, ?_, hbare⟩
    split
    · exact hlater.1 item (by simp)
    · have hsent := congrArg Departures.sent hmore
      simp only [Base.departures] at hsent
      rw [hsent]
      simp

theorem Flow.call_departed {allowed : Nat → Prop} (hone : allowed 1)
    (hflow : Flow contract [] queueDisc) (hgone : Departed allowed queueDisc.base.departures)
    (input : Call Chance) (hinp : ∀ rounds, input = .run rounds → queueDisc.takesPeeked = true →
    allowed 0) : Departed allowed (queueDisc.call disc input).2.base.departures := by
  cases input with
  | enqueue env packet dsField => exact (queueDisc.enqueue_departures env _).symm ▸ hgone
  | dequeue env =>
    have hsame : (queueDisc.dequeue disc env).2.base.departures = _ :=
      queueDisc.dequeue_departures env
    rw [← hsame] at hgone
    refine ⟨?_, ?_, hgone.headers⟩
    · have hmore := hgone.together.append_right (queueDisc.dequeue disc env).1.toList
      rw [append_assoc] at hmore
      exact hmore
    · exact hgone.inOrder.trans (sublist_append_left _ _)
  | peek env => exact (queueDisc.peek_departures env).symm ▸ hgone
  | run rounds =>
    simp only [QueueDisc.call, QueueDisc.run]
    split
    · exact hgone
    · have hran := (hflow.running true).restarts_departed hone { hgone with }
        (hinp rounds rfl) rounds (QueueDisc.restartLimit queueDisc.base.quota)
      exact { hran with }
  | setStopped stopped => exact hgone

omit contract in
theorem QueueDisc.call_idle (hidle : queueDisc.base.running = false)
    (input : Call Chance) : (queueDisc.call disc input).2.base.running = false := by
  cases input with
  | enqueue env packet dsField =>
    exact (congrArg Departures.running (queueDisc.enqueue_departures env _)).trans hidle
  | dequeue env =>
    exact (congrArg Departures.running (queueDisc.dequeue_departures env)).trans hidle
  | peek env => exact (congrArg Departures.running (queueDisc.peek_departures env)).trans hidle
  | run rounds =>
    simp only [QueueDisc.call, QueueDisc.run, hidle]
    rfl
  | setStopped stopped => exact hidle

end Call

/-- Every accepted packet was handed out, to the device or to a caller of `Dequeue`, or dropped
later, or is in the queue disc, and no two of these; what was handed out, the slot and what is
stored are in the order of acceptance. -/
structure DeliveredOnce (contract : Contract disc) (queueDisc : QueueDisc State) : Prop where
  conserved : (packets queueDisc.base.log.enqueued).Perm
    (packets queueDisc.base.log.handedOut ++ packets queueDisc.base.requeued.toList
      ++ contract.stored queueDisc.inner ++ packets queueDisc.base.log.droppedAfterDequeue)
  order : (packets queueDisc.base.log.handedOut ++ packets queueDisc.base.requeued.toList
    ++ contract.stored queueDisc.inner).Sublist (packets queueDisc.base.log.enqueued)
  together : queueDisc.base.log.handedOut.Perm
    (queueDisc.base.log.sent ++ queueDisc.base.log.returned)
  sentInOrder : queueDisc.base.log.sent.Sublist queueDisc.base.log.handedOut

theorem Flow.deliveredOnce {contract : Contract disc} {queueDisc : QueueDisc State}
    {allowed : Nat → Prop} (hflow : Flow contract [] queueDisc) (hfifo : contract.Fifo)
    (hdeparted : Departed allowed queueDisc.base.departures) :
    DeliveredOnce contract queueDisc where
  conserved := by
    have henq := hflow.enqueued
    have hdeq := hflow.dequeued
    -- the slot holds either a peeked packet or one that waits for the device
    have hslot : (packets queueDisc.base.requeued.toList).Perm
        (queueDisc.base.heldByPeek ++ queueDisc.base.awaitingDevice) := by
      unfold Base.heldByPeek Base.awaitingDevice
      split <;> simp
    rw [Contract.owned] at henq
    rw [perm_iff_count] at henq hdeq hslot ⊢
    intro packet
    have hkept := henq packet
    have hgone := hdeq packet
    have hheld := hslot packet
    simp only [count_append, count_nil] at hkept hgone hheld ⊢
    omega
  order := by
    simpa using hflow.order hfifo
  together := hdeparted.together
  sentInOrder := hdeparted.inOrder

def runsPeeked (queueDisc : QueueDisc State) : Call Chance → Bool
  | .run _ => queueDisc.takesPeeked
  | _ => false

theorem departed_of_reachable (contract : Contract disc) {allowed : Nat → Prop} (hone : allowed 1)
    {quota : Nat} {iface : Option NetDeviceQueueInterface} {queueDisc : QueueDisc State}
    (hreach : (machine disc quota iface).ReachableUnder
      (fun state input => runsPeeked state input = true → allowed 0) queueDisc) :
    Departed allowed queueDisc.base.departures := by
  apply hreach.invariant_of (fun _ hprior => Flow.of_reachable contract hprior)
  · exact ⟨.refl _, .refl _, by simp [machine, init, Base.departures]⟩
  · intro state input next hflow hgone hinp hstep
    rw [← Except.ok.inj hstep]
    apply hflow.call_departed hone hgone
    intro rounds hrun htakes
    subst hrun
    exact hinp htakes

theorem idle_of_reachable {quota : Nat}
    {iface : Option NetDeviceQueueInterface} {queueDisc : QueueDisc State} (hreach :
    (machine disc quota iface).Reachable queueDisc) : queueDisc.base.running = false := by
  apply hreach.invariant
  · rfl
  · intro state input next hidle _ hstep
    rw [← Except.ok.inj hstep]
    exact call_idle hidle input

/-- Each accepted packet that is not dropped leaves a FIFO queue disc once and in order. The device
gets every packet with one header in the runs in which no `Run` finds a packet held by a peek that
it can send; a `Run` that does sends one without. -/
theorem delivered_with_header (contract : Contract disc) (hfifo : contract.Fifo) (quota : Nat)
    (iface : Option NetDeviceQueueInterface) :
    (∀ queueDisc,
      (QueueDisc.machine disc quota iface).Reachable queueDisc → DeliveredOnce contract queueDisc) ∧
      (∀ queueDisc,
        (QueueDisc.machine disc quota iface).ReachableUnder
          (fun state input => runsPeeked state input = false) queueDisc →
          ∀ item ∈ queueDisc.base.log.sent, item.headersAdded = 1) ∧
      ∀ queueDisc,
        (QueueDisc.machine disc quota iface).Reachable queueDisc →
          ∀ rounds,
            runsPeeked queueDisc (Call.run rounds) = true →
              ∃ item ∈ (queueDisc.run disc rounds).base.log.sent, item.headersAdded = 0 := by
  refine ⟨?_, ?_, ?_⟩
  · intro queueDisc hreach
    have hwider : (QueueDisc.machine disc quota iface).ReachableUnder
        (fun state input => runsPeeked state input = true → True) queueDisc := by
      apply hreach.mono
      intro state input _ _
      trivial
    have hdeparted := @departed_of_reachable _ _ _ contract (fun _ => True) trivial _ _ _ hwider
    exact (Flow.of_reachable contract hreach).deliveredOnce hfifo hdeparted
  · intro queueDisc hreach
    have hfresh : (QueueDisc.machine disc quota iface).ReachableUnder
        (fun state input => runsPeeked state input = true → 0 = 1) queueDisc := by
      apply hreach.mono
      intro state input hfresh hpeeked
      rw [hfresh] at hpeeked
      cases hpeeked
    have hdeparted :=
      @departed_of_reachable _ _ _ contract (fun headers => headers = 1) rfl _ _ _ hfresh
    exact hdeparted.headers
  · intro queueDisc hreach rounds hpeeked
    exact (Flow.of_reachable contract hreach).run_takesPeeked (idle_of_reachable hreach) hpeeked
      rounds

theorem delivered_with_header_requeued :
    let disc := coDelQueueDisc quietCoDel
    let iface : NetDeviceQueueInterface := ⟨2, fun txQueueIndex => txQueueIndex == 1⟩
    let inputs : List (Call Unit) := [.enqueue ⟨0, ()⟩ ⟨1, 100, 1⟩ none,
      .run fun _ => ⟨⟨1, ()⟩, fun _ => false⟩, .enqueue ⟨2, ()⟩ ⟨2, 200, 1⟩ none, .peek ⟨3, ()⟩,
      .setStopped fun _ => false, .run fun _ => ⟨⟨4, ()⟩, fun _ => false⟩]
    let queueDisc := (QueueDisc.machine disc 64 (some iface)).after
      (fun state input => !runsPeeked state input) inputs (QueueDisc.init disc 64 (some iface))
    packets queueDisc.base.log.sent = [⟨1, 100, 1⟩, ⟨2, 200, 1⟩] ∧
      ∀ item ∈ queueDisc.base.log.sent, item.headersAdded = 1 := by
  intro disc iface inputs queueDisc
  refine ⟨by decide +kernel, ?_⟩
  apply (delivered_with_header _ (CoDelQueueDisc.contract_fifo quietCoDel rfl (by decide)) 64
    (some iface)).2.1
  exact Transition.Machine.ReachableUnder.after (fun _ _ hcheck => by simpa using hcheck) inputs
    .init

theorem sent_without_header :
    let disc := coDelQueueDisc quietCoDel
    let inputs : List (Call Unit) := [.enqueue ⟨0, ()⟩ ⟨1, 100, 0⟩ none, .peek ⟨1, ()⟩,
      .run fun _ => ⟨⟨2, ()⟩, fun _ => false⟩]
    let queueDisc := (QueueDisc.machine disc 64 none).after (fun _ _ => true) inputs
      (QueueDisc.init disc 64 none)
    (QueueDisc.machine disc 64 none).Reachable queueDisc ∧
      packets queueDisc.base.log.sent = [⟨1, 100, 0⟩] ∧
      ¬ ∀ item ∈ queueDisc.base.log.sent, item.headersAdded = 1 := by
  intro disc inputs queueDisc
  refine ⟨?_, by decide +kernel, by decide +kernel⟩
  exact Transition.Machine.ReachableUnder.after (fun _ _ _ => trivial) inputs .init

end HomaSird.TrafficControl
