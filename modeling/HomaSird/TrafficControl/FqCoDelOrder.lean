import HomaSird.TrafficControl.FqCoDelStore

/-! # The order of the flows of an FQ-CoDel queue disc

Packets with the same hash leave in the order in which they came as long as the queue that
the next one goes to is the one in which the others wait. Set associative hashing does not
see to that.
-/

namespace HomaSird.TrafficControl

open Callback FqCoDelQueueDisc FqCoDelState List

namespace FqCoDelQueueDisc

variable {cfg : FqCoDelConfig} {classifier : Classifier} {state after : FqCoDelState}
  {hash i : Nat}

/-! ## The queue of a hash -/

def comesFirst (cfg : FqCoDelConfig) (hash : Nat) (state : FqCoDelState) (i : Nat) : Bool :=
  if (setQueues cfg hash).any (canUse state hash) then
    decide (i ∈ setQueues cfg hash) && canUse state hash i &&
      (setQueues cfg hash).all fun j => decide (i ≤ j) || !canUse state hash j
  else decide (i = outerHash cfg hash)

def takes (cfg : FqCoDelConfig) (hash : Nat) (state : FqCoDelState) (i : Nat) : Bool :=
  if cfg.enableSetAssociativeHash then comesFirst cfg hash state i
  else decide (i = hash % cfg.flows)

theorem comesFirst_iff :
    comesFirst cfg hash state i = true ↔
      i = ((setQueues cfg hash).find? (canUse state hash)).getD (outerHash cfg hash) := by
  unfold comesFirst
  cases hfind : (setQueues cfg hash).find? (canUse state hash) with
  | none =>
    have hnone : (setQueues cfg hash).any (canUse state hash) = false := by
      rw [any_eq_false]
      exact find?_eq_none.mp hfind
    rw [hnone]
    simp
  | some first =>
    have hsome : (setQueues cfg hash).any (canUse state hash) = true :=
      any_eq_true.mpr ⟨first, mem_of_find?_eq_some hfind, find?_some hfind⟩
    obtain ⟨huse, hmem, hpre⟩ := find?_range'_eq_some.mp hfind
    rw [if_pos hsome, Bool.and_eq_true, Bool.and_eq_true, decide_eq_true_eq,
      all_eq_true, Option.getD_some]
    constructor
    · rintro ⟨⟨hin, hcan⟩, hleast⟩
      have hle : i ≤ first := by
        have hfst := hleast first hmem
        rw [huse] at hfst
        simpa using hfst
      by_contra hne
      have hunused := hpre i (mem_range'_1.mp hin).1 (by omega)
      rw [hcan] at hunused
      cases hunused
    · rintro rfl
      refine ⟨⟨hmem, huse⟩, fun j hj => ?_⟩
      by_cases hle : i ≤ j
      · simp [hle]
      · have hunused := hpre j (mem_range'_1.mp hj).1 (by omega)
        simp [hunused]

theorem takes_iff : takes cfg hash state i = true ↔ i = (selectQueue cfg hash state).1 := by
  unfold takes selectQueue
  split
  · exact comesFirst_iff
  · exact decide_eq_true_iff

/-! ## What an enqueue asks for -/

def staysTogether (cfg : FqCoDelConfig) (classifier : Classifier) (hash : Nat)
    (state : FqCoDelState) : Bool :=
  !cfg.enableSetAssociativeHash || state.classes.all fun flow =>
    takes cfg hash state flow.index ||
      flow.queueDisc.waiting.all fun packet =>
        decide (flowHash cfg classifier packet ≠ some hash)

def countsBytes (cfg : FqCoDelConfig) (hash size : Nat) (state : FqCoDelState) : Bool :=
  state.classes.any (fun flow => decide (uint32 (bytes flow.queueDisc.waiting +
      if takes cfg hash state flow.index then size else 0) ≠ 0)) ||
    (!state.classes.any (fun flow => takes cfg hash state flow.index) &&
      decide (uint32 size ≠ 0))

/-- There are queues, packets with this hash stay together, the number of packets stays in its
word, and a full queue disc has a queue with bytes to drop from. -/
def admitsPacket (cfg : FqCoDelConfig) (classifier : Classifier) (packet : Packet)
    (state : FqCoDelState) : Bool :=
  (flowHash cfg classifier packet).all fun hash =>
    decide (cfg.flows ≠ 0) && staysTogether cfg classifier hash state &&
      decide (state.queues.flatten.length + 1 < 2 ^ 32) &&
      (decide (state.queues.flatten.length < cfg.maxSize) ||
        countsBytes cfg hash packet.size state)

/-- The calls of `Enqueue` and `Dequeue` that keep the flows in order. -/
def admits (cfg : FqCoDelConfig) (classifier : Classifier) (self : QueueDisc FqCoDelState) :
    Call Unit → Bool
  | .enqueue _ packet _ => admitsPacket cfg classifier packet self.inner
  | .dequeue _ => true
  | _ => false

/-! ## The flows and their packets -/

def Bound (cfg : FqCoDelConfig) (classifier : Classifier) (indices : List Nat)
    (queues : List (List Packet)) : Prop :=
  ∀ (place index : Nat) (queue : List Packet), indices[place]? = some index →
    queues[place]? = some queue → ∀ packet ∈ queue, ∀ hash,
      flowHash cfg classifier packet = some hash → index = hash % cfg.flows

structure Orderly (cfg : FqCoDelConfig) (classifier : Classifier) (arrived handed : List Packet)
    (state : FqCoDelState) : Prop where
  flows : Flows cfg state
  placed : state.Placed
  order : KeyedOrder (flowHash cfg classifier) arrived handed state.queues
  bound : cfg.enableSetAssociativeHash = false →
    Bound cfg classifier (state.classes.map FqCoDelFlow.index) state.queues

variable {place : Nat}

theorem flatten_set {Item : Type} {queues : List (List Item)} {queue : List Item}
    (hq : queues[place]? = some queue) :
    ∃ rest,
      queues.flatten.Perm (queue ++ rest) ∧
        ∀ other, (queues.set place other).flatten.Perm (other ++ rest) := by
  obtain ⟨before, behind, hqs, -, hset⟩ := set_around hq
  have hmove : ∀ other : List Item,
      (before ++ other :: behind).flatten.Perm (other ++ (before ++ behind).flatten) := by
    intro other
    rw [flatten_append, flatten_append, flatten_cons, ← append_assoc, ← append_assoc]
    exact perm_append_comm.append_right _
  exact ⟨_, hqs ▸ hmove queue, fun other => hset other ▸ hmove other⟩

theorem Bound.set {indices : List Nat} {queues : List (List Packet)} {left : List Packet}
    (hbd : Bound cfg classifier indices queues)
    (hleft : ∀ index,
      indices[place]? = some index →
        ∀ packet ∈ left, ∀ hash,
          flowHash cfg classifier packet = some hash → index = hash % cfg.flows) :
    Bound cfg classifier indices (queues.set place left) := by
  intro other index queue hindex hq
  rw [getElem?_set] at hq
  split at hq
  next hsame =>
    subst hsame
    split at hq
    · cases hq
      exact hleft index hindex
    · cases hq
  · exact hbd other index queue hindex hq

namespace Orderly

variable {arrived handed : List Packet}

theorem init (cfg : FqCoDelConfig) (classifier : Classifier) :
    Orderly cfg classifier [] [] .init where
  flows := flows_init cfg
  placed := placed_init
  order := .empty _
  bound _ _ _ _ hindex := nomatch hindex

theorem remove (hord : Orderly cfg classifier arrived handed state)
    (hflows : Flows cfg after) (hplaces : SamePlaces state after) {place : Nat}
    {queue taken left : List Packet} (hq : state.queues[place]? = some queue)
    (hsub : (taken ++ left).Sublist queue) (hqs : after.queues = state.queues.set place left) :
    Orderly cfg classifier arrived (handed ++ taken) after where
  flows := hflows
  placed := hord.placed.of_same hplaces
  order := hqs ▸ hord.order.remove hq hsub
  bound hplain := by
    rw [hplaces.indices, hqs]
    refine (hord.bound hplain).set fun index hindex packet hmem => ?_
    exact hord.bound hplain place index queue hindex hq packet
      (hsub.subset (mem_append_right _ hmem))

theorem opened (hord : Orderly cfg classifier arrived handed state)
    (hflows : Flows cfg after) (hplaced : after.Placed) {h : Nat}
    (hopened : Opened state after h) : Orderly cfg classifier arrived handed after := by
  rcases hopened.indices with ⟨hidx, hqs⟩ | ⟨hidx, hqs, -⟩
  · refine ⟨hflows, hplaced, hqs ▸ hord.order, fun hplain => ?_⟩
    rw [hidx, hqs]
    exact hord.bound hplain
  · refine ⟨hflows, hplaced, hqs ▸ hord.order.addQueue, fun hplain => ?_⟩
    rw [hidx, hqs]
    intro place index queue hindex hq packet hmem
    rcases getElem?_concat_iff.mp hq with hold | ⟨-, rfl⟩
    · have hlen : place < (state.classes.map FqCoDelFlow.index).length := by
        obtain ⟨hlt, -⟩ := List.getElem?_eq_some_iff.mp hold
        simpa [queues] using hlt
      rw [List.getElem?_append_left hlen] at hindex
      exact hord.bound hplain place index queue hindex hold packet hmem
    · cases hmem

theorem append (hord : Orderly cfg classifier arrived handed state) (hflows : Flows cfg after)
    (hplaces : SamePlaces state after) {place : Nat} {queue : List Packet} {packet : Packet}
    (hq : state.queues[place]? = some queue)
    (hqs : after.queues = state.queues.set place (queue ++ [packet]))
    (htogether : ∀ (other : Nat) (waiting : List Packet),
      state.queues[other]? = some waiting →
        ∀ earlier ∈ waiting,
          flowHash cfg classifier earlier = flowHash cfg classifier packet → other = place)
    (hbd : cfg.enableSetAssociativeHash = false →
      ∀ hash,
        flowHash cfg classifier packet = some hash →
          (state.classes.map FqCoDelFlow.index)[place]? = some (hash % cfg.flows)) :
    Orderly cfg classifier (arrived ++ [packet]) handed after where
  flows := hflows
  placed := hord.placed.of_same hplaces
  order := hqs ▸ hord.order.append hq htogether
  bound hplain := by
    rw [hplaces.indices, hqs]
    refine (hord.bound hplain).set fun index hindex waiting hmem hash hhash => ?_
    rcases mem_append.mp hmem with hold | hnew
    · exact hord.bound hplain place index queue hindex hq waiting hold hash hhash
    · rw [mem_singleton.mp hnew] at hhash
      exact Option.some.inj (hindex.symm.trans (hbd hplain hash hhash))

end Orderly

/-! ## An enqueue -/

theorem selectQueue_tags (cfg : FqCoDelConfig) (hash : Nat) (state : FqCoDelState) :
    ∃ tags, (selectQueue cfg hash state).2 = { state with tags } := by
  unfold selectQueue
  split
  · exact ⟨_, rfl⟩
  · exact ⟨state.tags, rfl⟩

structure Ready (cfg : FqCoDelConfig) (state ready : FqCoDelState) (h pos : Nat)
    (flow : FqCoDelFlow) : Prop where
  flows : Flows cfg ready
  placed : ready.Placed
  opened : Opened state ready h
  getElem? : ready.classes[pos]? = some flow
  index_eq : flow.index = h
  active : flow.status ≠ .inactive

/-- The body of `DoEnqueue` from the queue of the packet on. -/
def storeIn (cfg : FqCoDelConfig) (env : Env Unit) (occupancy : Occupancy)
    (item : QueueDiscItem) (pos : Nat) (ready : FqCoDelState) : Outcome FqCoDelState Bool :=
  let stored := enqueueFlow cfg env item pos ready
  if (occupancy.after stored.reports).nPackets > cfg.maxSize then
    let dropped := fqCoDelDrop cfg stored.state
    ⟨true, dropped.state, stored.reports ++ dropped.reports⟩
  else ⟨true, stored.state, stored.reports⟩

theorem doEnqueue_ready (hzero : cfg.flows ≠ 0) (hflows : Flows cfg state) (hplaced : state.Placed)
    (env : Env Unit) (occupancy : Occupancy) {item : QueueDiscItem}
    (hhash : flowHash cfg classifier item.toPacket = some hash) :
    ∃ ready pos flow,
      Ready cfg state ready (selectQueue cfg hash state).1 pos flow ∧
        doEnqueue cfg classifier env occupancy item state =
          storeIn cfg env occupancy item pos ready := by
  obtain ⟨tags, htags⟩ := selectQueue_tags cfg hash state
  have htagged : Flows cfg (selectQueue cfg hash state).2 := by
    rw [htags]
    exact ⟨hflows.nodup, hflows.isNew, hflows.isOld, hflows.child, hflows.idle, hflows.word,
      hflows.unfailed⟩
  have hplacedTagged : (selectQueue cfg hash state).2.Placed := by
    rw [htags]
    exact hplaced
  obtain ⟨hmade, hplacedCreated, hopened, flow, hflow, hindex⟩ :=
    findOrCreate_spec htagged hplacedTagged (selectQueue cfg hash state).1
  have hequation : doEnqueue cfg classifier env occupancy item state =
      storeIn cfg env occupancy item
        ((selectQueue cfg hash state).2.findOrCreate cfg (selectQueue cfg hash state).1).1
        (((selectQueue cfg hash state).2.findOrCreate cfg
          (selectQueue cfg hash state).1).2.activate cfg
          ((selectQueue cfg hash state).2.findOrCreate cfg
            (selectQueue cfg hash state).1).1) := by
    simp only [doEnqueue, hhash, hzero, if_false]
    rfl
  generalize (selectQueue cfg hash state).2.findOrCreate cfg _ = created at *
  obtain ⟨hactive, hkept, active, hgot, hstatus⟩ := activate_spec hmade hflow
  refine ⟨_, _, active, ⟨hactive, hplacedCreated.of_same hkept.samePlaces, ?_, hgot, ?_, hstatus⟩,
    hequation⟩
  · rw [htags] at hopened
    rcases hopened.indices with ⟨hidx, hqs⟩ | ⟨hidx, hqs, hfresh⟩
    · exact ⟨.inl ⟨hkept.indices.trans hidx, hkept.queues_eq.trans hqs⟩⟩
    · exact ⟨.inr ⟨hkept.indices.trans hidx, hkept.queues_eq.trans hqs, hfresh⟩⟩
  · have hidx := congrArg (·[created.1]?) hkept.indices
    simp only [getElem?_map, hflow, hgot, Option.map_some, Option.some.injEq] at hidx
    exact hidx.trans hindex

namespace Ready

variable {ready : FqCoDelState} {h pos : Nat} {flow : FqCoDelFlow}

section

variable (hready : Ready cfg state ready h pos flow)
include hready

variable {place : Nat}

theorem place_eq (hplace : (ready.classes.map FqCoDelFlow.index)[place]? = some h) :
    place = pos := by
  have hindex : (ready.classes.map FqCoDelFlow.index)[pos]? = some h := by
    rw [getElem?_map, hready.getElem?, Option.map_some, hready.index_eq]
  exact Option.some.inj
    (((hready.placed h place).mpr hplace).symm.trans ((hready.placed h pos).mpr hindex))

theorem getElem?_old {old : FqCoDelFlow} (hold : state.classes[place]? = some old) :
    (ready.classes.map FqCoDelFlow.index)[place]? = some old.index ∧
    ready.queues[place]? = some old.queueDisc.waiting := by
  have hq := getElem?_queues hold
  have hindex : (state.classes.map FqCoDelFlow.index)[place]? = some old.index := by
    rw [getElem?_map, hold]
    rfl
  rcases hready.opened.indices with ⟨hidx, hqs⟩ | ⟨hidx, hqs, -⟩
  · rw [hidx, hqs]
    exact ⟨hindex, hq⟩
  · rw [hidx, hqs, getElem?_concat_iff, getElem?_concat_iff]
    exact ⟨.inl hindex, .inl hq⟩

theorem old_of_mem {waiting : List Packet} (hwait : ready.queues[place]? = some waiting) (hsome :
    waiting ≠ []) : ∃ old, state.classes[place]? = some old ∧ waiting = old.queueDisc.waiting := by
  have hpre : state.queues[place]? = some waiting := by
    rcases hready.opened.indices with ⟨-, hqs⟩ | ⟨-, hqs, -⟩
    · rw [← hqs]
      exact hwait
    · rw [hqs, getElem?_concat_iff] at hwait
      exact hwait.resolve_right fun hnew => hsome hnew.2.symm
  rw [queues, getElem?_map] at hpre
  obtain ⟨old, hold, heq⟩ := Option.map_eq_some_iff.mp hpre
  exact ⟨old, hold, heq.symm⟩

theorem flatten_eq : ready.queues.flatten = state.queues.flatten := by
  rcases hready.opened.indices with ⟨-, hqs⟩ | ⟨-, hqs, -⟩
  · rw [hqs]
  · rw [hqs]
    simp

end

theorem exists_bytes {size : Nat}
    (hready : Ready cfg state ready (selectQueue cfg hash state).1 pos flow)
    (hcounts : countsBytes cfg hash size state = true) :
    ∃ place waiting,
      ready.queues[place]? = some waiting ∧
        uint32 (bytes waiting + if place = pos then size else 0) ≠ 0 := by
  rw [countsBytes, Bool.or_eq_true, Bool.and_eq_true] at hcounts
  rcases hcounts with hold | ⟨hnone, hsz⟩
  · obtain ⟨old, hmem, hbytes⟩ := any_eq_true.mp hold
    obtain ⟨place, hplace⟩ := mem_iff_getElem?.mp hmem
    obtain ⟨hindex, hq⟩ := hready.getElem?_old hplace
    refine ⟨place, _, hq, ?_⟩
    have hsame : takes cfg hash state old.index = true ↔ place = pos := by
      rw [takes_iff]
      constructor
      · intro heq
        rw [heq] at hindex
        exact hready.place_eq hindex
      · rintro rfl
        rw [getElem?_map, hready.getElem?, Option.map_some, Option.some.injEq] at hindex
        exact hindex.symm.trans hready.index_eq
    rw [decide_eq_true_eq] at hbytes
    simp only [hsame] at hbytes
    exact hbytes
  · refine ⟨pos, _, getElem?_queues hready.getElem?, ?_⟩
    have hempty : flow.queueDisc.waiting = [] := by
      by_contra hsome
      obtain ⟨old, hplace, -⟩ := hready.old_of_mem (getElem?_queues hready.getElem?) hsome
      obtain ⟨hindex, -⟩ := hready.getElem?_old hplace
      rw [getElem?_map, hready.getElem?, Option.map_some, Option.some.injEq,
        hready.index_eq] at hindex
      have htakes := any_eq_false.mp (by simpa using hnone) old (mem_of_getElem? hplace)
      exact htakes (takes_iff.mpr hindex.symm)
    rw [hempty, bytes_nil, zero_add, if_pos rfl]
    exact of_decide_eq_true hsz

end Ready

variable {arrived handed : List Packet}

theorem together_of_staysTogether (hord : Orderly cfg classifier arrived handed state)
    (htogether : staysTogether cfg classifier hash state = true) {ready : FqCoDelState} {pos : Nat}
    {flow : FqCoDelFlow} (hready : Ready cfg state ready (selectQueue cfg hash state).1 pos flow)
    {waiting : List Packet} (hwait : ready.queues[place]? = some waiting) {earlier : Packet}
    (hmem : earlier ∈ waiting) (hhash : flowHash cfg classifier earlier = some hash) :
    place = pos := by
  obtain ⟨old, hold, rfl⟩ := hready.old_of_mem hwait (ne_nil_of_mem hmem)
  obtain ⟨hindex, -⟩ := hready.getElem?_old hold
  apply hready.place_eq
  rw [hindex, Option.some.injEq, ← takes_iff]
  cases hplain : cfg.enableSetAssociativeHash with
  | false =>
    have hplace := hord.bound hplain place old.index old.queueDisc.waiting
      (by rw [getElem?_map, hold]; rfl) (getElem?_queues hold) earlier hmem hash hhash
    rw [takes, hplain]
    exact decide_eq_true hplace
  | true =>
    rw [staysTogether, hplain, Bool.not_true, Bool.false_or, all_eq_true] at htogether
    have hflow := htogether old (mem_of_getElem? hold)
    rw [Bool.or_eq_true, all_eq_true] at hflow
    refine hflow.resolve_right fun hnone => ?_
    exact of_decide_eq_true (hnone earlier hmem) hhash

structure Stores (cfg : FqCoDelConfig) (classifier : Classifier) (arrived handed : List Packet)
    (before after : FqCoDelState) (reports : List Callback) : Prop where
  orderly : Orderly cfg classifier (arrived ++ packets (enqueuedOf reports)) handed after
  moved : (before.queues.flatten ++ packets (enqueuedOf reports)).Perm
    (packets (dequeuedOf reports) ++ after.queues.flatten)
  limit : after.queues.flatten.length ≤ cfg.maxSize

theorem Stores.dropped {stored : FqCoDelState} {reports : List Callback}
    (hord : Orderly cfg classifier (arrived ++ packets (enqueuedOf reports)) handed stored)
    (hmoved : (state.queues.flatten ++ packets (enqueuedOf reports)).Perm
      (packets (dequeuedOf reports) ++ stored.queues.flatten))
    (hlim : stored.queues.flatten.length ≤ cfg.maxSize + 1)
    (hcounts : ∃ queue ∈ stored.queues, uint32 (bytes queue) ≠ 0) :
    Stores cfg classifier arrived handed state (fqCoDelDrop cfg stored).state
      (reports ++ (fqCoDelDrop cfg stored).reports) := by
  have hflow : ∃ flow ∈ stored.classes, flow.queueDisc.base.nBytes ≠ 0 := by
    obtain ⟨queue, hmem, hbytes⟩ := hcounts
    obtain ⟨flow, hflow, rfl⟩ := mem_map.mp hmem
    refine ⟨flow, hflow, ?_⟩
    rw [(hord.flows.child flow hflow).holds.nBytes]
    exact hbytes
  obtain ⟨hflows, hplaces, hnone, place, heads, left, hsome, hq, hqs, hdeq⟩ :=
    fqCoDelDrop_spec hord.flows hflow
  obtain ⟨rest, hpre, hafter⟩ := flatten_set hq
  have hrem := hord.remove hflows hplaces hq
    (sublist_append_right heads left : ([] ++ left).Sublist _) hqs
  rw [append_nil] at hrem
  refine ⟨?_, ?_, ?_⟩
  · rw [enqueuedOf_append, hnone, append_nil]
    exact hrem
  · rw [enqueuedOf_append, hnone, append_nil, dequeuedOf_append, packets_append, hdeq,
      append_assoc]
    refine hmoved.trans (List.Perm.append_left _ ?_)
    rw [hqs]
    refine hpre.trans ?_
    rw [append_assoc]
    exact ((hafter left).symm).append_left _
  · have hlost := hpre.length_eq
    have hkept := (hafter left).length_eq
    have hone := length_pos_of_ne_nil hsome
    rw [hqs]
    simp only [length_append] at hlost hkept
    omega

theorem doEnqueue_stores (hord : Orderly cfg classifier arrived handed state)
    (hlim : state.queues.flatten.length ≤ cfg.maxSize) (env : Env Unit) {occupancy : Occupancy}
    (hcnt : occupancy.nPackets = uint32 state.queues.flatten.length) {item : QueueDiscItem}
    (hadmits : admitsPacket cfg classifier item.toPacket state = true) :
    Stores cfg classifier arrived handed state
      (doEnqueue cfg classifier env occupancy item state).state
      (doEnqueue cfg classifier env occupancy item state).reports := by
  cases hhash : flowHash cfg classifier item.toPacket with
  | none =>
    have hrefuse : doEnqueue cfg classifier env occupancy item state =
        ⟨false, state, [.dropBeforeEnqueue item UNCLASSIFIED_DROP]⟩ := by
      simp only [doEnqueue, hhash]
    rw [hrefuse]
    refine ⟨?_, ?_, hlim⟩
    · simpa [enqueuedOf] using hord
    · simp [enqueuedOf, dequeuedOf]
  | some hash =>
    rw [admitsPacket, hhash, Option.all_some, Bool.and_eq_true, Bool.and_eq_true,
      Bool.and_eq_true, decide_eq_true_eq, decide_eq_true_eq, Bool.or_eq_true,
      decide_eq_true_eq] at hadmits
    obtain ⟨⟨⟨hzero, htogether⟩, hfit⟩, hroom⟩ := hadmits
    obtain ⟨ready, pos, flow, hready, hequation⟩ :=
      doEnqueue_ready hzero hord.flows hord.placed env occupancy hhash
    have hopen := hord.opened hready.flows hready.placed hready.opened
    have hq := getElem?_queues hready.getElem?
    obtain ⟨rest, hpre, hafter⟩ := flatten_set hq
    have hlen := hpre.length_eq
    rw [hready.flatten_eq, length_append] at hlen
    obtain ⟨hflows, hplaces, hstored⟩ := enqueueFlow_spec hready.flows hready.getElem?
      hready.active (by omega) env item
    rw [hequation, storeIn]
    dsimp only
    generalize enqueueFlow cfg env item pos ready = stored at *
    have hword : uint32 (state.queues.flatten.length) = state.queues.flatten.length :=
      uint32_of_lt (by omega)
    rcases hstored with ⟨reason, hrep, hqs⟩ | ⟨hrep, hqs⟩
    · -- the queue of the packet has dropped it
      have hcalm : ¬ (occupancy.after stored.reports).nPackets > cfg.maxSize := by
        rw [hrep]
        simp only [Occupancy.after]
        omega
      rw [if_neg hcalm]
      have hsame := hopen.remove hflows hplaces hq (List.Sublist.refl _ :
        ([] ++ flow.queueDisc.waiting).Sublist _) (by
          obtain ⟨hlt, hget⟩ := List.getElem?_eq_some_iff.mp hq
          rw [hqs, ← hget, set_getElem_self])
      rw [append_nil] at hsame
      refine ⟨?_, ?_, ?_⟩
      · simpa [hrep, enqueuedOf] using hsame
      · rw [hrep, hqs, hready.flatten_eq]
        simp [enqueuedOf, dequeuedOf]
      · rw [hqs, hready.flatten_eq]
        exact hlim
    · have happend := hopen.append hflows hplaces hq hqs (by
        intro other waiting hwait earlier hmem hsame
        exact together_of_staysTogether hord htogether hready hwait hmem
          (hsame.trans hhash)) (by
        intro hplain other hother
        obtain rfl := Option.some.inj (hhash.symm.trans hother)
        rw [List.getElem?_map, hready.getElem?, Option.map_some, hready.index_eq, selectQueue,
          hplain]
        rfl)
      have harr : packets (enqueuedOf stored.reports) = [item.toPacket] := by
        rw [hrep]
        rfl
      have hstays : packets (dequeuedOf stored.reports) = [] := by
        rw [hrep]
        rfl
      have hmoved : (state.queues.flatten ++ packets (enqueuedOf stored.reports)).Perm
          (packets (dequeuedOf stored.reports) ++ stored.state.queues.flatten) := by
        rw [harr, hstays, hqs, ← hready.flatten_eq, nil_append]
        refine (hpre.append_right _).trans ((List.Perm.trans ?_ (hafter _).symm))
        rw [append_assoc, append_assoc]
        exact perm_append_comm.append_left _
      have hlonger := hmoved.length_eq
      rw [harr, hstays, length_append, length_singleton, nil_append] at hlonger
      have hnPackets : (occupancy.after stored.reports).nPackets =
          state.queues.flatten.length + 1 := by
        rw [hrep]
        simp only [Occupancy.after, hcnt, hword]
        exact uint32_of_lt hfit
      rw [← harr] at happend
      split
      next hover =>
        have hcounts := hroom.resolve_left (by omega)
        obtain ⟨place, waiting, hwait, hbytes⟩ := hready.exists_bytes hcounts
        refine .dropped happend hmoved (by omega) ?_
        by_cases hplace : place = pos
        · subst hplace
          obtain rfl := Option.some.inj (hq.symm.trans hwait)
          obtain ⟨hlt, -⟩ := List.getElem?_eq_some_iff.mp hq
          refine ⟨_, mem_of_getElem? (hqs ▸ List.getElem?_set_self hlt), ?_⟩
          rw [bytes_append, bytes_cons, bytes_nil, add_zero]
          rwa [if_pos rfl] at hbytes
        · rw [if_neg hplace, add_zero] at hbytes
          refine ⟨waiting, mem_of_getElem? (i := place) ?_, hbytes⟩
          rw [hqs, List.getElem?_set_ne (Ne.symm hplace)]
          exact hwait
      next hcalm =>
        refine ⟨happend, hmoved, ?_⟩
        dsimp only
        omega

end FqCoDelQueueDisc

end HomaSird.TrafficControl
