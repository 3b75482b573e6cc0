import HomaSird.Data.KeyedQueues
import HomaSird.TrafficControl.FqCoDelQueueDisc

/-! # The flow lists of an FQ-CoDel queue disc

Between two calls a flow is in the list that its status names, and in no list when it is
inactive and its queue is empty. The loops of a dequeue end because each pass pays off
what the old flows owe or takes a flow out of a list.
-/

namespace HomaSird.TrafficControl

open Callback FqCoDelQueueDisc List

namespace FqCoDelState

def queues (state : FqCoDelState) : List (List Packet) :=
  state.classes.map fun flow => flow.queueDisc.waiting

def statusAt (state : FqCoDelState) (pos : Nat) : Option FlowStatus :=
  state.classes[pos]?.map FqCoDelFlow.status

/-- What a change of the lists, the statuses and the deficits leaves alone. -/
structure Kept (before after : FqCoDelState) : Prop where
  queueDiscs : after.classes.map FqCoDelFlow.queueDisc = before.classes.map FqCoDelFlow.queueDisc
  indices : after.classes.map FqCoDelFlow.index = before.classes.map FqCoDelFlow.index
  flowsIndices : after.flowsIndices = before.flowsIndices
  tags : after.tags = before.tags

variable {cfg : FqCoDelConfig} {state before after : FqCoDelState} {pos other : Nat}
  {flow : FqCoDelFlow} {change : FqCoDelFlow → FqCoDelFlow}

theorem Kept.refl (state : FqCoDelState) : Kept state state := ⟨rfl, rfl, rfl, rfl⟩

theorem Kept.trans {last : FqCoDelState} (hfst : Kept before after) (hsnd : Kept after last) :
    Kept before last where
  queueDiscs := hsnd.queueDiscs.trans hfst.queueDiscs
  indices := hsnd.indices.trans hfst.indices
  flowsIndices := hsnd.flowsIndices.trans hfst.flowsIndices
  tags := hsnd.tags.trans hfst.tags

theorem Kept.queues_eq (hkept : Kept before after) : after.queues = before.queues := by
  have hqs (state : FqCoDelState) :
      state.queues = (state.classes.map FqCoDelFlow.queueDisc).map QueueDisc.waiting := by
    rw [map_map]
    rfl
  rw [hqs, hqs, hkept.queueDiscs]

/-! ## One flow -/

theorem onFlow_eq (state : FqCoDelState) (pos : Nat) (change : FqCoDelFlow → FqCoDelFlow) :
    state.onFlow pos change =
      { state with classes := state.classes.modify pos change } := by
  unfold onFlow
  rw [modify_eq_set_getElem?]
  cases state.classes[pos]? with
  | none => rfl
  | some flow => rfl

theorem getElem?_onFlow (state : FqCoDelState) (pos other : Nat)
    (change : FqCoDelFlow → FqCoDelFlow) :
    (state.onFlow pos change).classes[other]? =
      state.classes[other]?.map fun flow => if pos = other then change flow else flow := by
  rw [onFlow_eq]
  exact getElem?_modify change pos state.classes other

theorem map_onFlow {Image : Type} {image : FqCoDelFlow → Image}
    (hsame : ∀ flow, image (change flow) = image flow) :
    (state.onFlow pos change).classes.map image = state.classes.map image := by
  apply ext_getElem?
  intro place
  rw [getElem?_map, getElem?_map, getElem?_onFlow, Option.map_map]
  congr 1
  funext flow
  dsimp only [Function.comp]
  split
  · exact hsame flow
  · rfl

theorem Kept.onFlow (hqueueDisc : ∀ flow, (change flow).queueDisc = flow.queueDisc)
    (hidx : ∀ flow, (change flow).index = flow.index) :
    Kept state (state.onFlow pos change) where
  queueDiscs := map_onFlow hqueueDisc
  indices := map_onFlow hidx
  flowsIndices := by rw [onFlow_eq]
  tags := by rw [onFlow_eq]

theorem getDeficit_onFlow (hflow : state.classes[pos]? = some flow) (other : Nat) :
    (state.onFlow pos change).getDeficit other =
      if pos = other then (change flow).deficit else state.getDeficit other := by
  unfold getDeficit
  rw [getElem?_onFlow]
  by_cases hsame : pos = other
  · subst hsame
    simp [hflow]
  · cases hother : state.classes[other]? with
    | none => simp [hsame]
    | some _ => simp [hsame]

theorem getDeficit_keeps (hchange : ∀ flow, (change flow).deficit = flow.deficit)
    (other : Nat) : (state.onFlow pos change).getDeficit other = state.getDeficit other := by
  unfold getDeficit
  rw [getElem?_onFlow]
  cases state.classes[other]? with
  | none => rfl
  | some flow =>
    simp only [Option.map_some, Option.elim_some]
    split
    · exact hchange flow
    · rfl

theorem int32_add {deficit : Int} (hword : -2 ^ 31 ≤ deficit) (hspent : deficit ≤ 0) {quantum : Nat}
    (hquant : quantum < 2 ^ 31) : int32 (deficit + int32 quantum) = deficit + quantum := by
  unfold int32
  omega

theorem getDeficit_grant (hflow : state.classes[pos]? = some flow) (hword : -2 ^ 31 ≤ flow.deficit)
    (hspent : state.getDeficit pos ≤ 0) (hquant : cfg.quantum < 2 ^ 31) (other : Nat) :
    (state.increaseDeficit pos (int32 cfg.quantum)).getDeficit other =
      if pos = other then flow.deficit + cfg.quantum else state.getDeficit other := by
  have hdef : state.getDeficit pos = flow.deficit := by
    rw [getDeficit, hflow]
    rfl
  rw [hdef] at hspent
  rw [increaseDeficit, getDeficit_onFlow hflow]
  dsimp only
  rw [int32_add hword hspent hquant]

/-! ## The lists and the statuses -/

structure Listed (state : FqCoDelState) : Prop where
  nodup : (state.newFlows ++ state.oldFlows).Nodup
  isNew : ∀ pos, pos ∈ state.newFlows ↔ state.statusAt pos = some .newFlow
  isOld : ∀ pos, pos ∈ state.oldFlows ↔ state.statusAt pos = some .oldFlow

namespace Listed

theorem init : Listed init where
  nodup := nodup_nil
  isNew _ := by simp [FqCoDelState.init, statusAt]
  isOld _ := by simp [FqCoDelState.init, statusAt]

theorem exists_of_mem (hlisted : Listed state) (hmem : pos ∈ state.newFlows ∨ pos ∈
    state.oldFlows) : ∃ flow, state.classes[pos]? = some flow := by
  rcases hmem with hnew | hold
  · obtain ⟨flow, hflow, -⟩ := Option.map_eq_some_iff.mp ((hlisted.isNew pos).mp hnew)
    exact ⟨flow, hflow⟩
  · obtain ⟨flow, hflow, -⟩ := Option.map_eq_some_iff.mp ((hlisted.isOld pos).mp hold)
    exact ⟨flow, hflow⟩

theorem onFlow (hlisted : Listed state) (hchange : ∀ flow, (change flow).status = flow.status) :
    Listed (state.onFlow pos change) := by
  have hstatus : ∀ place, (state.onFlow pos change).statusAt place = state.statusAt place := by
    intro place
    unfold statusAt
    rw [getElem?_onFlow, Option.map_map]
    congr 1
    funext flow
    dsimp only [Function.comp]
    split
    · exact hchange flow
    · rfl
  have hlists := onFlow_eq state pos change
  refine ⟨?_, fun place => ?_, fun place => ?_⟩
  · rw [hlists]
    exact hlisted.nodup
  · rw [hstatus, hlists]
    exact hlisted.isNew place
  · rw [hstatus, hlists]
    exact hlisted.isOld place

theorem relist (hlisted : Listed state) (hflow : state.classes[pos]? = some flow)
    {status : FlowStatus} {newFlows oldFlows : List Nat} (hnodup : (newFlows ++ oldFlows).Nodup)
    (hnew :
      ∀ place, place ∈ newFlows ↔ if pos = place then status = .newFlow else place ∈ state.newFlows)
    (hold : ∀ place,
      place ∈ oldFlows ↔ if pos = place then status = .oldFlow else place ∈ state.oldFlows) :
    Listed { state.setStatus pos status with newFlows, oldFlows } := by
  have hstatus : ∀ place, (state.setStatus pos status).statusAt place =
      if pos = place then some status else state.statusAt place := by
    intro place
    unfold statusAt setStatus
    rw [getElem?_onFlow]
    by_cases hsame : pos = place
    · subst hsame
      simp [hflow]
    · cases state.classes[place]? with
      | none => simp [hsame]
      | some _ => simp [hsame]
  refine ⟨hnodup, fun place => ?_, fun place => ?_⟩
  · refine (hnew place).trans (Iff.trans ?_ (iff_of_eq (congrArg (· = _) (hstatus place).symm)))
    split
    · simp
    · exact hlisted.isNew place
  · refine (hold place).trans (Iff.trans ?_ (iff_of_eq (congrArg (· = _) (hstatus place).symm)))
    split
    · simp
    · exact hlisted.isOld place

theorem moveToOld_eq {rest : List Nat} (hhead : state.newFlows = pos :: rest) :
    state.moveToOld pos = { state.setStatus pos .oldFlow with
      newFlows := rest, oldFlows := state.oldFlows ++ [pos] } := by
  unfold FqCoDelState.moveToOld setStatus
  rw [onFlow_eq]
  simp [hhead]

theorem moveToOld (hlisted : Listed state) {rest : List Nat}
    (hhead : state.newFlows = pos :: rest) : Listed (state.moveToOld pos) := by
  obtain ⟨flow, hflow⟩ := hlisted.exists_of_mem (.inl (hhead ▸ mem_cons_self))
  have hnodup := hlisted.nodup
  rw [hhead, cons_append, nodup_cons, mem_append, not_or] at hnodup
  obtain ⟨⟨hrest, hold⟩, hlists⟩ := hnodup
  rw [moveToOld_eq hhead]
  apply hlisted.relist hflow
  · rw [← append_assoc, nodup_append]
    refine ⟨hlists, nodup_singleton _, fun place hmem other hother => ?_⟩
    rw [mem_singleton.mp hother]
    rintro rfl
    exact (mem_append.mp hmem).elim hrest hold
  · intro place
    by_cases hsame : pos = place
    · subst hsame
      simp [hrest]
    · rw [if_neg hsame, hhead, mem_cons]
      exact ⟨.inr, fun hmem => hmem.resolve_left (Ne.symm hsame)⟩
  · intro place
    by_cases hsame : pos = place
    · subst hsame
      simp
    · simp [hsame, Ne.symm hsame]

theorem retireOld_eq {rest : List Nat} (hhead : state.oldFlows = pos :: rest)
    (hnone : state.newFlows = []) :
    state.retire pos = { state.setStatus pos .inactive with
      newFlows := [], oldFlows := rest } := by
  unfold FqCoDelState.retire setStatus
  rw [onFlow_eq]
  simp [hhead, hnone]

theorem retireOld (hlisted : Listed state) {rest : List Nat} (hhead : state.oldFlows = pos :: rest)
    (hnone : state.newFlows = []) :
    Listed (state.retire pos) := by
  obtain ⟨flow, hflow⟩ := hlisted.exists_of_mem (.inr (hhead ▸ mem_cons_self))
  have hnodup := hlisted.nodup
  rw [hhead, hnone, nil_append, nodup_cons] at hnodup
  rw [retireOld_eq hhead hnone]
  apply hlisted.relist hflow
  · exact hnodup.2
  · intro place
    simp [hnone]
  · intro place
    by_cases hsame : pos = place
    · subst hsame
      simp [hnodup.1]
    · rw [if_neg hsame, hhead, mem_cons]
      exact ⟨.inr, fun hmem => hmem.resolve_left (Ne.symm hsame)⟩

theorem rotateOld (hlisted : Listed state) {rest : List Nat} (hhead :
    state.oldFlows = pos :: rest) : Listed (state.rotateOld pos) where
  nodup := by
    have hperm : (state.rotateOld pos).oldFlows.Perm state.oldFlows := by
      simp only [FqCoDelState.rotateOld, hhead, cons_append, tail_cons]
      exact perm_append_singleton _ _
    exact (hperm.append_left _).nodup_iff.mpr hlisted.nodup
  isNew := hlisted.isNew
  isOld place := by
    refine Iff.trans ?_ (hlisted.isOld place)
    simp only [FqCoDelState.rotateOld, hhead, cons_append, tail_cons, mem_append,
      mem_cons, not_mem_nil, or_false]
    exact or_comm

theorem join (hlisted : Listed state) (hflow : state.classes[pos]? = some flow)
    (hunlisted : pos ∉ state.newFlows ∧ pos ∉ state.oldFlows) :
    Listed { state.setStatus pos .newFlow with
      newFlows := state.newFlows ++ [pos], oldFlows := state.oldFlows } := by
  refine hlisted.relist hflow ?_ (fun place => ?_) fun place => ?_
  · have hmore : (state.newFlows ++ state.oldFlows ++ [pos]).Nodup := by
      rw [nodup_append]
      refine ⟨hlisted.nodup, nodup_singleton _, fun place hmem other hother => ?_⟩
      rw [mem_singleton.mp hother]
      rintro rfl
      exact (mem_append.mp hmem).elim hunlisted.1 hunlisted.2
    rw [append_assoc] at hmore ⊢
    exact (perm_append_comm.append_left _).nodup_iff.mp hmore
  · by_cases hsame : pos = place
    · subst hsame
      simp
    · simp [hsame, Ne.symm hsame]
  · by_cases hsame : pos = place
    · subst hsame
      simp [hunlisted.2]
    · simp [hsame]

end Listed

/-! ## The flows between two calls -/

structure Flows (cfg : FqCoDelConfig) (state : FqCoDelState) : Prop where
  nodup : (state.newFlows ++ state.oldFlows).Nodup
  isNew : ∀ pos, pos ∈ state.newFlows ↔ state.statusAt pos = some .newFlow
  isOld : ∀ pos, pos ∈ state.oldFlows ↔ state.statusAt pos = some .oldFlow
  child : ∀ flow ∈ state.classes, CoDelChild (coDelConfig cfg) flow.queueDisc
  idle : ∀ flow ∈ state.classes, flow.status = .inactive → flow.queueDisc.waiting = []
  word : ∀ flow ∈ state.classes, -2 ^ 31 ≤ flow.deficit ∧ flow.deficit < 2 ^ 31
  unfailed : state.failure = none

theorem flows_init (cfg : FqCoDelConfig) : Flows cfg init where
  nodup := nodup_nil
  isNew _ := by simp [init, statusAt]
  isOld _ := by simp [init, statusAt]
  child _ hmem := nomatch hmem
  idle _ hmem := nomatch hmem
  word _ hmem := nomatch hmem
  unfailed := rfl

theorem int32_word (value : Int) : -2 ^ 31 ≤ int32 value ∧ int32 value < 2 ^ 31 := by
  unfold int32
  omega

theorem mem_onFlow (hmem : flow ∈ (state.onFlow pos change).classes) :
    ∃ old ∈ state.classes, flow = old ∨ flow = change old ∧ state.classes[pos]? = some old := by
  obtain ⟨place, hplace⟩ := mem_iff_getElem?.mp hmem
  rw [getElem?_onFlow] at hplace
  obtain ⟨old, hold, heq⟩ := Option.map_eq_some_iff.mp hplace
  refine ⟨old, mem_of_getElem? hold, ?_⟩
  split at heq
  next hsame => exact .inr ⟨heq.symm, hsame ▸ hold⟩
  · exact .inl heq.symm

namespace Flows

section

variable (hflows : Flows cfg state)
include hflows

theorem listed : Listed state :=
  ⟨hflows.nodup, hflows.isNew, hflows.isOld⟩

theorem exists_of_mem (hmem : pos ∈ state.newFlows ∨ pos ∈ state.oldFlows) :
    ∃ flow, state.classes[pos]? = some flow :=
  hflows.listed.exists_of_mem hmem

theorem onDeficit (pos : Nat) {grow : Int → Int}
    (hgrow : ∀ deficit, -2 ^ 31 ≤ grow deficit ∧ grow deficit < 2 ^ 31) :
    Flows cfg (state.onFlow pos fun flow => { flow with deficit := grow flow.deficit }) := by
  have hlisted : Listed (state.onFlow pos fun flow =>
      { flow with deficit := grow flow.deficit }) := hflows.listed.onFlow fun _ => rfl
  have hlists := onFlow_eq state pos fun flow => { flow with deficit := grow flow.deficit }
  refine ⟨hlisted.nodup, hlisted.isNew, hlisted.isOld, ?_, ?_, ?_, ?_⟩
  · intro flow hmem
    obtain ⟨old, hold, rfl | ⟨rfl, -⟩⟩ := mem_onFlow hmem
    · exact hflows.child _ hold
    · have hchild := hflows.child old hold
      exact hchild
  · intro flow hmem
    obtain ⟨old, hold, rfl | ⟨rfl, -⟩⟩ := mem_onFlow hmem
    · exact hflows.idle _ hold
    · have hidle := hflows.idle old hold
      exact hidle
  · intro flow hmem
    obtain ⟨old, hold, rfl | ⟨rfl, -⟩⟩ := mem_onFlow hmem
    · exact hflows.word _ hold
    · exact hgrow _
  · rw [hlists]
    exact hflows.unfailed

theorem increaseDeficit (pos : Nat)
    (amount : Int) : Flows cfg (state.increaseDeficit pos amount) := by
  have hword : ∀ deficit, -2 ^ 31 ≤ int32 (deficit + amount) ∧ int32 (deficit + amount) < 2 ^ 31 :=
    fun _ => int32_word _
  exact hflows.onDeficit pos hword

theorem relist (hflow : state.classes[pos]? = some flow) {status : FlowStatus}
    {newFlows oldFlows : List Nat}
    (hlisted : Listed { state.setStatus pos status with newFlows, oldFlows })
    (hidle : status = .inactive → flow.queueDisc.waiting = []) :
    Flows cfg { state.setStatus pos status with newFlows, oldFlows } := by
  refine ⟨hlisted.nodup, hlisted.isNew, hlisted.isOld, ?_, ?_, ?_, ?_⟩
  · intro later hmem
    obtain ⟨old, hpre, rfl | ⟨rfl, -⟩⟩ := mem_onFlow hmem
    · exact hflows.child _ hpre
    · have hchild := hflows.child old hpre
      exact hchild
  · intro later hmem
    obtain ⟨old, hpre, rfl | ⟨rfl, hat⟩⟩ := mem_onFlow hmem
    · exact hflows.idle _ hpre
    · obtain rfl := Option.some.inj (hflow.symm.trans hat)
      exact hidle
  · intro later hmem
    obtain ⟨old, hpre, rfl | ⟨rfl, -⟩⟩ := mem_onFlow hmem
    · exact hflows.word _ hpre
    · have hword := hflows.word old hpre
      exact hword
  · have hfailure : (state.setStatus pos status).failure = state.failure := by
      unfold setStatus
      rw [onFlow_eq]
    exact hfailure.trans hflows.unfailed

variable {rest : List Nat}

theorem moveToOld (hhead : state.newFlows = pos :: rest) :
    Flows cfg (state.moveToOld pos) := by
  obtain ⟨flow, hflow⟩ := hflows.exists_of_mem (.inl (hhead ▸ mem_cons_self))
  have hlisted := hflows.listed.moveToOld hhead
  rw [Listed.moveToOld_eq hhead] at hlisted ⊢
  exact hflows.relist hflow hlisted nofun

theorem retireOld (hhead : state.oldFlows = pos :: rest)
    (hnone : state.newFlows = []) (hflow : state.classes[pos]? = some flow)
    (hempty : flow.queueDisc.waiting = []) : Flows cfg (state.retire pos) := by
  have hlisted := hflows.listed.retireOld hhead hnone
  rw [Listed.retireOld_eq hhead hnone] at hlisted ⊢
  exact hflows.relist hflow hlisted fun _ => hempty

theorem rotateOld (hhead : state.oldFlows = pos :: rest) :
    Flows cfg (state.rotateOld pos) := by
  have hlisted := hflows.listed.rotateOld hhead
  exact ⟨hlisted.nodup, hlisted.isNew, hlisted.isOld, hflows.child, hflows.idle, hflows.word,
    hflows.unfailed⟩

end

end Flows

/-! ## The flow that is served next -/

theorem lists_increaseDeficit (state : FqCoDelState) (pos : Nat) (amount : Int) :
    (state.increaseDeficit pos amount).newFlows = state.newFlows ∧
      (state.increaseDeficit pos amount).oldFlows = state.oldFlows := by
  unfold increaseDeficit
  rw [onFlow_eq]
  exact ⟨rfl, rfl⟩

theorem kept_increaseDeficit (state : FqCoDelState)
    (pos : Nat) (amount : Int) : Kept state (state.increaseDeficit pos amount) :=
  .onFlow (fun _ => rfl) fun _ => rfl

theorem kept_setStatus (state : FqCoDelState)
    (pos : Nat) (status : FlowStatus) : Kept state (state.setStatus pos status) :=
  .onFlow (fun _ => rfl) fun _ => rfl

theorem lists_moveToOld (state : FqCoDelState) (pos : Nat) :
    (state.moveToOld pos).newFlows = state.newFlows.tail ∧
      (state.moveToOld pos).oldFlows = state.oldFlows ++ [pos] := by
  unfold moveToOld setStatus
  rw [onFlow_eq]
  exact ⟨rfl, rfl⟩

theorem kept_moveToOld (state : FqCoDelState)
    (pos : Nat) : Kept state (state.moveToOld pos) := by
  have hkept := kept_setStatus state pos .oldFlow
  exact ⟨hkept.queueDiscs, hkept.indices, hkept.flowsIndices, hkept.tags⟩

theorem kept_retire (state : FqCoDelState)
    (pos : Nat) : Kept state (state.retire pos) := by
  unfold retire
  split
  · exact kept_moveToOld state pos
  · have hkept := kept_setStatus state pos .inactive
    exact ⟨hkept.queueDiscs, hkept.indices, hkept.flowsIndices, hkept.tags⟩

/-- How many turns the flows in the lists have left to be found empty. -/
def turns (state : FqCoDelState) : Nat := 2 * state.newFlows.length + state.oldFlows.length

theorem findNew_spec (cfg : FqCoDelConfig) (count : Nat) (hflows : Flows cfg state)
    (hcnt : state.newFlows.length ≤ count) :
    let found := findNew cfg count state
    Flows cfg found.2 ∧ Kept state found.2 ∧ found.2.turns ≤ state.turns ∧
      (found.1 = none → found.2.newFlows = []) ∧
      ∀ pos, found.1 = some pos → ∃ rest, found.2.newFlows = pos :: rest := by
  induction count generalizing state with
  | zero =>
    refine ⟨hflows, .refl _, le_rfl, fun _ => ?_, nofun⟩
    exact length_eq_zero_iff.mp (Nat.le_zero.mp hcnt)
  | succ count ih =>
    rw [findNew]
    split
    next hnone => exact ⟨hflows, .refl _, le_rfl, fun _ => hnone, nofun⟩
    next pos rest hhead =>
      split
      · obtain ⟨hnew, hold⟩ := lists_increaseDeficit state pos (int32 cfg.quantum)
        have hgrown := hflows.increaseDeficit pos (int32 cfg.quantum)
        obtain ⟨hrest, hmore⟩ :=
          lists_moveToOld (state.increaseDeficit pos (int32 cfg.quantum)) pos
        rw [hnew, hhead, tail_cons] at hrest
        rw [hold] at hmore
        rw [hhead, length_cons] at hcnt
        obtain ⟨hfound, hkept, hturns, hlast⟩ :=
          ih (hgrown.moveToOld (hnew.trans hhead)) (by rw [hrest]; omega)
        have hfst := (kept_increaseDeficit state pos (int32 cfg.quantum)).trans
          (kept_moveToOld _ pos)
        refine ⟨hfound, hfst.trans hkept, hturns.trans ?_, hlast⟩
        rw [turns, turns, hrest, hmore, hhead]
        simp only [length_append, length_cons, length_nil]
        omega
      · refine ⟨hflows, .refl _, le_rfl, nofun, fun found hfound => ?_⟩
        cases hfound
        exact ⟨rest, hhead⟩

theorem owed_rotateOld (hflows : Flows cfg state) {rest : List Nat}
    (hhead : state.oldFlows = pos :: rest) (hspent : state.getDeficit pos ≤ 0)
    (hpos : 1 ≤ cfg.quantum) (hquant : cfg.quantum < 2 ^ 31) :
    ((state.increaseDeficit pos (int32 cfg.quantum)).rotateOld pos).owed < state.owed := by
  obtain ⟨flow, hflow⟩ := hflows.exists_of_mem (.inr (hhead ▸ mem_cons_self))
  have hword := hflows.word flow (mem_of_getElem? hflow)
  have hnodup := hflows.nodup
  rw [hhead] at hnodup
  have hrest := (nodup_cons.mp (nodup_append.mp hnodup).2.1).1
  have hgrown := getDeficit_grant hflow hword.1 hspent hquant
  have hdef : state.getDeficit pos = flow.deficit := by
    rw [getDeficit, hflow]
    rfl
  rw [hdef] at hspent
  have hothers : rest.map (fun place =>
      (1 - (state.increaseDeficit pos (int32 cfg.quantum)).getDeficit place).toNat) =
      rest.map fun place => (1 - state.getDeficit place).toNat := by
    apply map_congr_left
    intro place hmem
    have hne : pos ≠ place := by
      rintro rfl
      exact hrest hmem
    rw [hgrown, if_neg hne]
  have hlists := (lists_increaseDeficit state pos (int32 cfg.quantum)).2
  have howed : ((state.increaseDeficit pos (int32 cfg.quantum)).rotateOld pos).owed =
      (rest.map fun place => (1 - state.getDeficit place).toNat).sum +
        (1 - (flow.deficit + cfg.quantum)).toNat := by
    have hrotated : ((state.increaseDeficit pos (int32 cfg.quantum)).rotateOld
        pos).oldFlows = rest ++ [pos] := by
      rw [rotateOld, hlists, hhead]
      rfl
    rw [owed, hrotated, map_append, sum_append, ← hothers, map_singleton, sum_singleton]
    have hlast := hgrown pos
    rw [if_pos rfl] at hlast
    rw [← hlast]
    rfl
  rw [howed, owed, hhead, map_cons, sum_cons, hdef]
  omega

theorem findOld_spec (hpos : 1 ≤ cfg.quantum) (hquant : cfg.quantum < 2 ^ 31)
    (passes : Nat) (hflows : Flows cfg state) (hnone : state.newFlows = [])
    (hpasses : state.owed < passes) :
    let found := findOld cfg passes state
    Flows cfg found.2 ∧ Kept state found.2 ∧ found.2.turns = state.turns ∧
      found.2.newFlows = [] ∧ (found.1 = none → found.2.oldFlows = []) ∧
      ∀ pos, found.1 = some pos → ∃ rest, found.2.oldFlows = pos :: rest := by
  induction passes generalizing state with
  | zero => omega
  | succ passes ih =>
    rw [findOld]
    split
    next hempty => exact ⟨hflows, .refl _, rfl, hnone, fun _ => hempty, nofun⟩
    next pos rest hhead =>
      split
      next hspent =>
        have howed := owed_rotateOld hflows hhead hspent hpos hquant
        obtain ⟨hnew, hold⟩ := lists_increaseDeficit state pos (int32 cfg.quantum)
        have hgrown := hflows.increaseDeficit pos (int32 cfg.quantum)
        obtain ⟨hfound, hkept, hturns, hlast⟩ := ih (hgrown.rotateOld (hold.trans hhead))
          (hnew.trans hnone) (by omega)
        have hfst := kept_increaseDeficit state pos (int32 cfg.quantum)
        refine ⟨hfound, ⟨hkept.queueDiscs.trans hfst.queueDiscs,
          hkept.indices.trans hfst.indices, hkept.flowsIndices.trans hfst.flowsIndices,
          hkept.tags.trans hfst.tags⟩, hturns.trans ?_, hlast⟩
        rw [turns, turns, rotateOld, hold, hhead, hnew]
        simp
      · refine ⟨hflows, .refl _, rfl, hnone, nofun, fun found hfound => ?_⟩
        cases hfound
        exact ⟨rest, hhead⟩

theorem findFlow_spec (hpos : 1 ≤ cfg.quantum) (hquant : cfg.quantum < 2 ^ 31)
    (hflows : Flows cfg state) :
    let found := findFlow cfg state
    Flows cfg found.2 ∧ Kept state found.2 ∧ found.2.turns ≤ state.turns ∧
      (found.1 = none → found.2.newFlows = [] ∧ found.2.oldFlows = []) ∧
      ∀ pos, found.1 = some pos → (∃ rest, found.2.newFlows = pos :: rest) ∨
        found.2.newFlows = [] ∧ ∃ rest, found.2.oldFlows = pos :: rest := by
  obtain ⟨hnew, hkept, hturns, hnone, hhead⟩ :=
    findNew_spec cfg state.newFlows.length hflows (le_rfl)
  rw [findFlow]
  dsimp only
  split
  next pos hfound =>
    refine ⟨hnew, hkept, hturns, nofun, fun found hsame => .inl ?_⟩
    cases hsame
    exact hhead _ hfound
  next hnothing =>
    obtain ⟨hold, hmore, hleft, hempty, hlast, hfst⟩ :=
      findOld_spec hpos hquant _ hnew (hnone hnothing) (Nat.lt_succ_self _)
    exact ⟨hold, hkept.trans hmore, hleft ▸ hturns, fun hsame => ⟨hempty, hlast hsame⟩,
      fun pos hsame => .inr ⟨hempty, hfst pos hsame⟩⟩

/-! ## What a dequeue does -/

structure SamePlaces (before after : FqCoDelState) : Prop where
  indices : after.classes.map FqCoDelFlow.index = before.classes.map FqCoDelFlow.index
  flowsIndices : after.flowsIndices = before.flowsIndices
  tags : after.tags = before.tags

theorem SamePlaces.trans {last : FqCoDelState} (hfst : SamePlaces before after)
    (hsnd : SamePlaces after last) : SamePlaces before last where
  indices := hsnd.indices.trans hfst.indices
  flowsIndices := hsnd.flowsIndices.trans hfst.flowsIndices
  tags := hsnd.tags.trans hfst.tags

theorem Kept.samePlaces (hkept : Kept before after) : SamePlaces before after :=
  ⟨hkept.indices, hkept.flowsIndices, hkept.tags⟩

theorem queues_setFlow (state : FqCoDelState) (pos : Nat) (flow : FqCoDelFlow) :
    (state.setFlow pos flow).queues = state.queues.set pos flow.queueDisc.waiting := by
  unfold queues setFlow
  rw [map_set]

theorem getElem?_queues (hflow : state.classes[pos]? = some flow) :
    state.queues[pos]? = some flow.queueDisc.waiting := by
  rw [queues, getElem?_map, hflow]
  rfl

theorem setQueueDisc_eq (hflow : state.classes[pos]? = some flow)
    (queueDisc : QueueDisc CoDelState) :
    state.setFlow pos { flow with queueDisc } =
      state.onFlow pos fun old => { old with queueDisc } := by
  unfold onFlow
  rw [hflow]

theorem Listed.setQueueDisc (hlisted : Listed state)
    (hflow : state.classes[pos]? = some flow) (queueDisc : QueueDisc CoDelState) :
    Listed (state.setFlow pos { flow with queueDisc }) := by
  rw [setQueueDisc_eq hflow]
  exact hlisted.onFlow fun _ => rfl

theorem Flows.setQueueDisc (hflows : Flows cfg state)
    (hflow : state.classes[pos]? = some flow) {queueDisc : QueueDisc CoDelState}
    (hchild : CoDelChild (coDelConfig cfg) queueDisc) (hidle : flow.status = .inactive →
    queueDisc.waiting = []) : Flows cfg (state.setFlow pos { flow with queueDisc }) := by
  have hlisted := hflows.listed.setQueueDisc hflow queueDisc
  refine ⟨hlisted.nodup, hlisted.isNew, hlisted.isOld, ?_, ?_, ?_, hflows.unfailed⟩
  · intro later hmem
    rw [setQueueDisc_eq hflow] at hmem
    obtain ⟨old, hpre, rfl | ⟨rfl, -⟩⟩ := mem_onFlow hmem
    · exact hflows.child _ hpre
    · exact hchild
  · intro later hmem
    rw [setQueueDisc_eq hflow] at hmem
    obtain ⟨old, hpre, rfl | ⟨rfl, hat⟩⟩ := mem_onFlow hmem
    · exact hflows.idle _ hpre
    · obtain rfl := Option.some.inj (hflow.symm.trans hat)
      exact hidle
  · intro later hmem
    rw [setQueueDisc_eq hflow] at hmem
    obtain ⟨old, hpre, rfl | ⟨rfl, -⟩⟩ := mem_onFlow hmem
    · exact hflows.word _ hpre
    · have hword := hflows.word old hpre
      exact hword

theorem samePlaces_setQueueDisc (hflow : state.classes[pos]? = some flow) (queueDisc :
    QueueDisc CoDelState) : SamePlaces state (state.setFlow pos { flow with queueDisc }) where
  indices := by
    rw [setQueueDisc_eq hflow]
    apply map_onFlow
    exact fun _ => rfl
  flowsIndices := rfl
  tags := rfl

inductive Served (before : List (List Packet)) :
    List (List Packet) → Option QueueDiscItem → List Callback → Prop where
  | nothing {reports : List Callback} (henqueued : enqueuedOf reports = [])
      (hdequeued : dequeuedOf reports = []) : Served before before none reports
  | taken {i : Nat} {queue left : List Packet} {item : QueueDiscItem} {reports : List Callback}
      (hq : before[i]? = some queue) (hsub : (item.toPacket :: left).Sublist queue)
      (henqueued : enqueuedOf reports = [])
      (hmoved : queue.Perm (packets (dequeuedOf reports) ++ left)) :
      Served before (before.set i left) (some item) reports

theorem Served.behind {before after : List (List Packet)}
    {result : Option QueueDiscItem} {reports earlier : List Callback}
    (hserved : Served before after result reports) (henq : enqueuedOf earlier = [])
    (hdeq : dequeuedOf earlier = []) : Served before after result (earlier ++ reports) := by
  cases hserved with
  | nothing hnone hleft =>
    exact .nothing (by rw [enqueuedOf_append, henq, hnone, nil_append])
      (by rw [dequeuedOf_append, hdeq, hleft, nil_append])
  | taken hq hsub hnone hmoved =>
    refine .taken hq hsub (by rw [enqueuedOf_append, henq, hnone, nil_append]) ?_
    rw [dequeuedOf_append, hdeq, nil_append]
    exact hmoved

theorem Served.queues_eq {before left : List (List Packet)}
    {result : Option QueueDiscItem} {reports : List Callback}
    (hserved : Served before left result reports) (hnone : result = none) : left = before := by
  cases hserved with
  | nothing => rfl
  | taken => cases hnone

theorem retire_spec (hflows : Flows cfg state) (hflow : state.classes[pos]? = some flow)
    (hempty : flow.queueDisc.waiting = [])
    (hhead : (∃ rest, state.newFlows = pos :: rest) ∨
      state.newFlows = [] ∧ ∃ rest, state.oldFlows = pos :: rest) :
    Flows cfg (state.retire pos) ∧ (state.retire pos).turns < state.turns := by
  rcases hhead with ⟨rest, hnew⟩ | ⟨hnone, rest, hold⟩
  · have hretired : state.retire pos = state.moveToOld pos := by
      rw [retire, if_pos (by rw [hnew]; exact cons_ne_nil _ _)]
    obtain ⟨hrest, hmore⟩ := lists_moveToOld state pos
    rw [hretired]
    refine ⟨hflows.moveToOld hnew, ?_⟩
    rw [turns, turns, hrest, hmore, hnew]
    simp only [tail_cons, length_append, length_cons, length_nil]
    omega
  · refine ⟨hflows.retireOld hold hnone hflow hempty, ?_⟩
    have hlists : (state.retire pos).newFlows = [] ∧
        (state.retire pos).oldFlows = rest := by
      rw [retire, if_neg (by simp [hnone]), setStatus, onFlow_eq]
      simp [hnone, hold]
    rw [turns, turns, hlists.1, hlists.2, hnone, hold]
    simp

theorem serve_spec (hpos : 1 ≤ cfg.quantum) (hquant : cfg.quantum < 2 ^ 31)
    (env : Env Unit) (passes : Nat) (hflows : Flows cfg state)
    (hpasses : state.turns < passes) :
    let outcome := serve cfg env passes state
    Flows cfg outcome.state ∧ SamePlaces state outcome.state ∧
      Served state.queues outcome.state.queues outcome.result outcome.reports ∧
      (outcome.result = none → outcome.state.newFlows = [] ∧ outcome.state.oldFlows = []) := by
  induction passes generalizing state with
  | zero => omega
  | succ passes ih =>
    obtain ⟨hfound, hkept, hturns, hnone, hhead⟩ := findFlow_spec hpos hquant hflows
    rw [serve]
    dsimp only
    split
    next hnothing =>
      refine ⟨hfound, hkept.samePlaces, ?_, fun _ => hnone hnothing⟩
      rw [hkept.queues_eq]
      exact .nothing rfl rfl
    next pos hposition =>
      have hturn := hhead pos hposition
      have hlisted : pos ∈ (findFlow cfg state).2.newFlows ∨
          pos ∈ (findFlow cfg state).2.oldFlows := by
        rcases hturn with ⟨rest, hnew⟩ | ⟨-, rest, hold⟩
        · exact .inl (hnew ▸ mem_cons_self)
        · exact .inr (hold ▸ mem_cons_self)
      obtain ⟨flow, hflow⟩ := hfound.exists_of_mem hlisted
      have hchild := hfound.child flow (mem_of_getElem? hflow)
      obtain ⟨hafter, hsome, hsub, henq, hmoved⟩ := hchild.dequeue (show 1 ≤ 1500 by decide) env
      have hdeq : dequeueFlow cfg env pos (findFlow cfg state).2 =
          ⟨(flow.queueDisc.dequeueChild (coDelQueueDisc (coDelConfig cfg)) env).result,
            (findFlow cfg state).2.setFlow pos { flow with queueDisc :=
              (flow.queueDisc.dequeueChild (coDelQueueDisc (coDelConfig cfg)) env).state },
            (flow.queueDisc.dequeueChild (coDelQueueDisc (coDelConfig cfg)) env).reports⟩ := by
        rw [dequeueFlow, hflow]
      rw [hdeq]
      dsimp only
      have hq := getElem?_queues hflow
      rw [hkept.queues_eq] at hq
      generalize flow.queueDisc.dequeueChild _ env = served at *
      have hidle : flow.status = .inactive → served.state.waiting = [] := by
        intro hinactive
        have hempty := hfound.idle flow (mem_of_getElem? hflow) hinactive
        rw [hempty, sublist_nil, append_eq_nil_iff] at hsub
        exact hsub.2
      have hset := hfound.setQueueDisc hflow hafter hidle
      have hplaces := hkept.samePlaces.trans (samePlaces_setQueueDisc hflow served.state)
      have hqs := queues_setFlow (findFlow cfg state).2 pos
        { flow with queueDisc := served.state }
      rw [hkept.queues_eq] at hqs
      split
      next item hitem =>
        have hgrown := kept_increaseDeficit ((findFlow cfg state).2.setFlow pos
          { flow with queueDisc := served.state }) pos (int32 (uint32OfInt (-item.size)))
        refine ⟨hset.increaseDeficit _ _, hplaces.trans hgrown.samePlaces, ?_, nofun⟩
        rw [hgrown.queues_eq, hqs]
        rw [hitem] at hsub
        exact .taken hq hsub henq hmoved
      next hitem =>
        -- the flow was empty and stays empty
        have hempty : flow.queueDisc.waiting = [] := by
          by_contra hne
          have hpkt := hsome.mpr hne
          rw [hitem] at hpkt
          cases hpkt
        rw [hempty, sublist_nil, append_eq_nil_iff] at hsub
        rw [hempty, hsub.2, append_nil, nil_perm, packets, map_eq_nil_iff]
          at hmoved
        have hsame : ((findFlow cfg state).2.setFlow pos
            { flow with queueDisc := served.state }).queues = state.queues := by
          obtain ⟨hlt, hget⟩ := List.getElem?_eq_some_iff.mp hq
          rw [hqs, hsub.2, ← hempty, ← hget]
          exact set_getElem_self hlt
        obtain ⟨hlt, -⟩ := List.getElem?_eq_some_iff.mp hflow
        obtain ⟨hretired, hfewer⟩ := retire_spec hset
          (List.getElem?_set_self hlt) hsub.2 hturn
        have hkeeps := kept_retire ((findFlow cfg state).2.setFlow pos
          { flow with queueDisc := served.state }) pos
        obtain ⟨hlater, hlaterPlaces, hserves, hlast⟩ := ih hretired (by
          have hturnsSet : ((findFlow cfg state).2.setFlow pos
            { flow with queueDisc := served.state }).turns =
              (findFlow cfg state).2.turns := rfl
          omega)
        refine ⟨hlater, (hplaces.trans hkeeps.samePlaces).trans hlaterPlaces, ?_, hlast⟩
        rw [hkeeps.queues_eq, hsame] at hserves
        exact hserves.behind henq hmoved

end FqCoDelState

end HomaSird.TrafficControl
