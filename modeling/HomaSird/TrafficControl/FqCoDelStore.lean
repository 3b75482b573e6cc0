import HomaSird.TrafficControl.FqCoDelFlows

/-! # What an enqueue does to the flows

An enqueue finds or creates the queue of the packet, puts it into the list of new flows
when it is inactive, and stores the packet. When more packets wait than there may, heads
of the queue with the most bytes are dropped.
-/

namespace HomaSird.TrafficControl

open Callback FqCoDelQueueDisc FqCoDelState List

namespace FqCoDelState

variable {cfg : FqCoDelConfig} {state before after : FqCoDelState} {pos : Nat}
  {flow : FqCoDelFlow}

/-! ## Overload -/

theorem fattest_spec (flows : List FqCoDelFlow) (i index maxBacklog : Nat) :
    (fattest flows i index maxBacklog = (index, maxBacklog) ∧
      ∀ flow ∈ flows, flow.queueDisc.base.nBytes ≤ maxBacklog) ∨
      ∃ place flow,
        flows[place]? = some flow ∧ maxBacklog < flow.queueDisc.base.nBytes ∧
          fattest flows i index maxBacklog = (i + place, flow.queueDisc.base.nBytes) := by
  induction flows generalizing i index maxBacklog with
  | nil => exact .inl ⟨rfl, fun _ hmem => nomatch hmem⟩
  | cons flow rest ih =>
    rw [fattest]
    split
    next hmore =>
      right
      rcases ih (i + 1) i flow.queueDisc.base.nBytes with
        ⟨hfattest, -⟩ | ⟨place, other, hother, hless, hfattest⟩
      · exact ⟨0, flow, rfl, hmore, hfattest⟩
      · exact ⟨place + 1, other, hother, lt_trans hmore hless,
          hfattest.trans (Prod.ext (Nat.succ_add i place) rfl)⟩
    next hless =>
      rcases ih (i + 1) index maxBacklog with
        ⟨hfattest, hothers⟩ | ⟨place, other, hother, hmore, hfattest⟩
      · left
        refine ⟨hfattest, fun other hmem => ?_⟩
        rcases mem_cons.mp hmem with rfl | hlater
        · exact Nat.le_of_not_lt hless
        · exact hothers other hlater
      · exact .inr ⟨place + 1, other, hother, hmore,
          hfattest.trans (Prod.ext (Nat.succ_add i place) rfl)⟩

theorem dropHeads_spec {cfg : CoDelConfig} {threshold : Nat} (more len : Nat)
    {child : QueueDisc CoDelState} (hchild : CoDelChild cfg child)
    (hpkt : child.waiting ≠ []) (hreach : threshold ≤ uint32 (len + bytes child.waiting)) :
    let dropped := dropHeads threshold more len child
    dropped.result = true ∧ CoDelChild cfg dropped.state ∧ enqueuedOf dropped.reports = [] ∧
      ∃ heads, heads ≠ [] ∧ child.waiting = heads ++ dropped.state.waiting ∧
        packets (dequeuedOf dropped.reports) = heads := by
  induction more generalizing len child with
  | zero =>
    obtain ⟨packet, rest, hwait⟩ := exists_cons_of_ne_nil hpkt
    obtain ⟨item, hitem, hres, hrep, hrest, hafter⟩ := hchild.dequeueInternal hwait
    rw [dropHeads]
    simp only [hres, hrep]
    refine ⟨trivial, hafter, rfl, [packet], cons_ne_nil _ _, ?_, ?_⟩
    · rw [hwait, hrest]
      rfl
    · rw [← hitem]
      rfl
  | succ more ih =>
    obtain ⟨packet, rest, hwait⟩ := exists_cons_of_ne_nil hpkt
    obtain ⟨item, hitem, hres, hrep, hrest, hafter⟩ := hchild.dequeueInternal hwait
    have hsz : item.size = packet.size := congrArg Packet.size hitem
    rw [dropHeads]
    simp only [hres, hrep]
    split
    next hless =>
      have htotal : uint32 (uint32 (len + item.size) + bytes rest) =
          uint32 (len + bytes child.waiting) := by
        rw [hwait, bytes_cons, hsz, uint32, uint32, uint32]
        omega
      -- below the threshold the child cannot be empty: all its bytes reach it
      have hmore : child.dequeueInternal.state.waiting ≠ [] := by
        intro hnil
        rw [hrest] at hnil
        subst hnil
        rw [bytes_nil, add_zero] at htotal
        have hword : uint32 (uint32 (len + item.size)) = uint32 (len + item.size) := Nat.mod_mod _ _
        omega
      obtain ⟨hok, hlater, hnone, heads, -, hheads, hdeq⟩ := ih
        (uint32 (len + item.size)) hafter hmore (by rw [hrest, htotal]; exact hreach)
      refine ⟨hok, hlater, ?_, packet :: heads, cons_ne_nil _ _, ?_, ?_⟩
      · rw [enqueuedOf_append, hnone]
        rfl
      · rw [hwait, cons_append, ← hheads, hrest]
      · rw [dequeuedOf_append, packets_append, hdeq, ← hitem]
        rfl
    · refine ⟨rfl, hafter, rfl, [packet], cons_ne_nil _ _, ?_, ?_⟩
      · rw [hwait, hrest]
        rfl
      · rw [← hitem]
        rfl

theorem fqCoDelDrop_spec (hflows : Flows cfg state)
    (hcounts : ∃ flow ∈ state.classes, flow.queueDisc.base.nBytes ≠ 0) :
    let dropped := fqCoDelDrop cfg state
    Flows cfg dropped.state ∧ SamePlaces state dropped.state ∧
      enqueuedOf dropped.reports = [] ∧ ∃ place heads left, heads ≠ [] ∧
        state.queues[place]? = some (heads ++ left) ∧
        dropped.state.queues = state.queues.set place left ∧
        packets (dequeuedOf dropped.reports) = heads := by
  obtain ⟨counted, hcounted, hbytes⟩ := hcounts
  rcases fattest_spec state.classes 0 0 0 with ⟨-, hnone⟩ | ⟨place, flow, hflow, hpos, hfattest⟩
  · exact absurd (Nat.le_zero.mp (hnone counted hcounted)) hbytes
  · have hchild := hflows.child flow (mem_of_getElem? hflow)
    have hcnt := hchild.holds.nBytes
    have hpkt : flow.queueDisc.waiting ≠ [] := by
      intro hnil
      rw [hcnt, hnil] at hpos
      simp [uint32] at hpos
    have hreach : flow.queueDisc.base.nBytes >>> 1 ≤ uint32 (0 + bytes flow.queueDisc.waiting) := by
      rw [zero_add, ← hcnt, Nat.shiftRight_one]
      exact Nat.div_le_self _ _
    obtain ⟨hok, hafter, hnone, heads, hsome, hheads, hdeq⟩ :=
      dropHeads_spec (cfg.dropBatchSize - 1) 0 hchild hpkt hreach
    rw [zero_add] at hfattest
    have hdrop : fqCoDelDrop cfg state = ⟨place,
        state.setFlow place { flow with queueDisc := (dropHeads
          (flow.queueDisc.base.nBytes >>> 1) (cfg.dropBatchSize - 1) 0 flow.queueDisc).state },
        (dropHeads (flow.queueDisc.base.nBytes >>> 1) (cfg.dropBatchSize - 1) 0
          flow.queueDisc).reports⟩ := by
      simp only [fqCoDelDrop, hfattest, hflow, hok, if_true]
    rw [hdrop]
    dsimp only
    generalize dropHeads _ _ 0 flow.queueDisc = dropped at *
    refine ⟨hflows.setQueueDisc hflow hafter ?_, samePlaces_setQueueDisc hflow _, hnone, place,
      heads, _, hsome, ?_, queues_setFlow _ _ _, hdeq⟩
    · intro hidle
      have hempty := hflows.idle flow (mem_of_getElem? hflow) hidle
      exact absurd hempty hpkt
    · rw [getElem?_queues hflow, hheads]

/-! ## The queue of a packet -/

def Placed (state : FqCoDelState) : Prop :=
  ∀ h pos, state.flowsIndices.lookup h = some pos ↔
    (state.classes.map FqCoDelFlow.index)[pos]? = some h

theorem Placed.of_same (hplaced : before.Placed) (hsame : SamePlaces before after) :
    after.Placed := by
  intro h pos
  rw [hsame.flowsIndices, hsame.indices]
  exact hplaced h pos

/-- The flow of a queue stands at its place, and a flow that is created holds nothing yet. -/
structure Opened (before after : FqCoDelState) (h : Nat) : Prop where
  indices : after.classes.map FqCoDelFlow.index = before.classes.map FqCoDelFlow.index ∧
      after.queues = before.queues ∨
    after.classes.map FqCoDelFlow.index = before.classes.map FqCoDelFlow.index ++ [h] ∧
      after.queues = before.queues ++ [[]] ∧ h ∉ before.classes.map FqCoDelFlow.index

theorem placed_init : (init).Placed := by
  intro h pos
  simp [init]

theorem Listed.findOrCreate (hlisted : Listed state) (h : Nat) :
    Listed (state.findOrCreate cfg h).2 := by
  rw [FqCoDelState.findOrCreate]
  split
  · exact hlisted
  · have hstatus : ∀ place status, status ≠ .inactive →
        ((state.classes ++ [newFlow cfg h])[place]?.map FqCoDelFlow.status = some status ↔
          state.statusAt place = some status) := by
      intro place status hactive
      rw [statusAt, Option.map_eq_some_iff, Option.map_eq_some_iff]
      refine exists_congr fun flow => and_congr_left fun hflow => ?_
      rw [getElem?_concat_iff]
      refine ⟨fun hplace => hplace.resolve_right ?_, .inl⟩
      rintro ⟨-, rfl⟩
      exact hactive hflow.symm
    refine ⟨hlisted.nodup, fun place => ?_, fun place => ?_⟩
    · exact (hlisted.isNew place).trans (hstatus place .newFlow (by simp)).symm
    · exact (hlisted.isOld place).trans (hstatus place .oldFlow (by simp)).symm

theorem findOrCreate_spec (hflows : Flows cfg state) (hplaced : state.Placed) (h : Nat) :
    let found := state.findOrCreate cfg h
    Flows cfg found.2 ∧ found.2.Placed ∧ Opened state found.2 h ∧
      ∃ flow, found.2.classes[found.1]? = some flow ∧ flow.index = h := by
  rw [findOrCreate]
  split
  next pos hpos =>
    have hidx := (hplaced h pos).mp hpos
    rw [getElem?_map] at hidx
    obtain ⟨flow, hflow, hsame⟩ := Option.map_eq_some_iff.mp hidx
    exact ⟨hflows, hplaced, ⟨.inl ⟨rfl, rfl⟩⟩, flow, hflow, hsame⟩
  next hnone =>
    -- the index map has no entry for the hash, so no flow has it
    have hfresh : h ∉ state.classes.map FqCoDelFlow.index := by
      intro hmem
      obtain ⟨pos, hpos⟩ := mem_iff_getElem?.mp hmem
      have hfound := (hplaced h pos).mpr hpos
      rw [hnone] at hfound
      cases hfound
    have hlisted := @Listed.findOrCreate cfg state hflows.listed h
    rw [findOrCreate, hnone] at hlisted
    refine ⟨⟨hlisted.nodup, hlisted.isNew, hlisted.isOld, ?_, ?_, ?_, hflows.unfailed⟩, ?_,
      ⟨.inr ⟨?_, ?_, hfresh⟩⟩, newFlow cfg h, getElem?_concat_length, rfl⟩
    · intro flow hmem
      rcases mem_append.mp hmem with hold | hnew
      · exact hflows.child flow hold
      · rw [mem_singleton.mp hnew]
        exact CoDelChild.init _ _ _
    · intro flow hmem
      rcases mem_append.mp hmem with hold | hnew
      · exact hflows.idle flow hold
      · rw [mem_singleton.mp hnew]
        exact fun _ => rfl
    · intro flow hmem
      rcases mem_append.mp hmem with hold | hnew
      · exact hflows.word flow hold
      · rw [mem_singleton.mp hnew]
        simp [newFlow]
    · intro other pos
      dsimp only
      rw [UnorderedMap.lookup_insert, map_append, map_singleton]
      rw [getElem?_concat_iff, length_map]
      by_cases hsame : other = h
      · subst hsame
        rw [if_pos rfl, Option.some.injEq]
        constructor
        · exact fun heq => .inr ⟨heq.symm, rfl⟩
        · rintro (hold | ⟨heq, -⟩)
          · exact absurd (mem_of_getElem? hold) hfresh
          · exact heq.symm
      · rw [if_neg hsame]
        exact (hplaced other pos).trans
          ⟨.inl, fun hidx => hidx.resolve_right fun hnew => hsame hnew.2.symm⟩
    · rw [map_append]
      rfl
    · rw [queues, map_append]
      rfl

theorem activate_eq (hflow : state.classes[pos]? = some flow)
    (hidle : flow.status = .inactive) :
    state.activate cfg pos =
      { (state.onFlow pos fun old =>
          { old with deficit := int32 cfg.quantum }).setStatus pos .newFlow with
        newFlows := state.newFlows ++ [pos], oldFlows := state.oldFlows } := by
  have hpaid : (state.onFlow pos fun old =>
      { old with deficit := int32 cfg.quantum }).classes[pos]? =
        some { flow with deficit := int32 cfg.quantum } := by
    rw [getElem?_onFlow, hflow, Option.map_some, if_pos rfl]
  rw [activate, hflow]
  dsimp only
  rw [if_pos hidle, setStatus, FqCoDelState.onFlow, hpaid]
  simp only [setFlow, FqCoDelState.onFlow, hflow, set_set]

theorem Listed.activate (hlisted : Listed state) (hflow : state.classes[pos]? = some flow)
    (hidle : flow.status = .inactive) : Listed (state.activate cfg pos) := by
  rw [activate_eq hflow hidle]
  have hpaid : Listed (state.onFlow pos fun old =>
      { old with deficit := int32 cfg.quantum }) := hlisted.onFlow fun _ => rfl
  have hunlisted : pos ∉ state.newFlows ∧ pos ∉ state.oldFlows := by
    rw [hlisted.isNew, hlisted.isOld, statusAt, hflow]
    simp [hidle]
  have hjoined := @Listed.join _ pos { flow with deficit := int32 cfg.quantum } hpaid
    (by rw [getElem?_onFlow, hflow, Option.map_some, if_pos rfl])
    (by rw [onFlow_eq]; exact hunlisted)
  rw [onFlow_eq] at hjoined ⊢
  exact hjoined

theorem activate_spec (hflows : Flows cfg state) (hflow : state.classes[pos]? = some flow) :
    let ready := state.activate cfg pos
    Flows cfg ready ∧ Kept state ready ∧
      ∃ active, ready.classes[pos]? = some active ∧ active.status ≠ .inactive := by
  dsimp only
  by_cases hidle : flow.status = .inactive
  · let paid := state.onFlow pos fun old => { old with deficit := int32 cfg.quantum }
    have hpaid : paid.classes[pos]? = some { flow with deficit := int32 cfg.quantum } := by
      rw [getElem?_onFlow, hflow, Option.map_some, if_pos rfl]
    have hflowsPaid : Flows cfg paid :=
      @Flows.onDeficit cfg state hflows pos (fun _ => int32 cfg.quantum)
        fun _ => int32_word _
    have hpaidKept : Kept state paid := .onFlow (fun _ => rfl) fun _ => rfl
    have hkept := hpaidKept.trans (kept_setStatus paid pos .newFlow)
    have hlisted := @Listed.activate cfg state pos flow hflows.listed hflow hidle
    rw [activate_eq hflow hidle] at hlisted ⊢
    refine ⟨hflowsPaid.relist hpaid hlisted nofun, ⟨hkept.queueDiscs, hkept.indices,
      hkept.flowsIndices, hkept.tags⟩,
      { flow with status := .newFlow, deficit := int32 cfg.quantum }, ?_, nofun⟩
    dsimp only
    rw [setStatus, getElem?_onFlow, hpaid, Option.map_some, if_pos rfl]
  · rw [activate, hflow]
    dsimp only
    rw [if_neg hidle]
    exact ⟨hflows, .refl _, flow, hflow, hidle⟩

theorem enqueueFlow_spec (hflows : Flows cfg state)
    (hflow : state.classes[pos]? = some flow) (hactive : flow.status ≠ .inactive)
    (hfit : flow.queueDisc.waiting.length + 1 < 2 ^ 32) (env : Env Unit) (item : QueueDiscItem) :
    let stored := enqueueFlow cfg env item pos state
    Flows cfg stored.state ∧ SamePlaces state stored.state ∧
      ((∃ reason, stored.reports = [.dropBeforeEnqueue item reason] ∧
          stored.state.queues = state.queues) ∨
        stored.reports = [.packetEnqueued item] ∧ stored.state.queues =
          state.queues.set pos (flow.queueDisc.waiting ++ [item.toPacket])) := by
  obtain ⟨hchild, hstored⟩ := (hflows.child flow (mem_of_getElem? hflow)).enqueue hfit env item
  rw [enqueueFlow, hflow]
  dsimp only
  generalize flow.queueDisc.enqueueChild _ env item = stored at *
  refine ⟨hflows.setQueueDisc hflow hchild fun hidle => absurd hidle hactive,
    samePlaces_setQueueDisc hflow _, ?_⟩
  rw [queues_setFlow]
  rcases hstored with ⟨reason, hrep, hsame⟩ | ⟨hrep, hmore⟩
  · refine .inl ⟨reason, hrep, ?_⟩
    obtain ⟨hlt, hget⟩ := List.getElem?_eq_some_iff.mp (getElem?_queues hflow)
    rw [hsame, ← hget]
    exact set_getElem_self hlt
  · exact .inr ⟨hrep, by rw [hmore]⟩

end FqCoDelState

end HomaSird.TrafficControl
