import HomaSird.Data.RoundRobin
import HomaSird.TrafficControl.FqCoDelFlows

/-! # The turns of the flows

What the loops of a dequeue do to the flows, one thing at a time: a flow without a deficit
is given a quantum and goes to the end of the old flows, a flow without a packet leaves its
place, and in the end a flow may send. The old flows take their turns round robin, so that
deficits and places together say how much two of them may send.
-/

namespace HomaSird.TrafficControl

open FqCoDelQueueDisc RoundRobin

namespace FqCoDelQueueDisc

/-- The flow that sends the packet which the outer loop of `DoDequeue` ends with. -/
def servedFlow (cfg : FqCoDelConfig) (env : Env Unit) : Nat → FqCoDelState → Option Nat
  | 0, _ => none
  | passes + 1, state =>
    let found := findFlow cfg state
    match found.1 with
    | none => none
    | some flow =>
      let served := dequeueFlow cfg env flow found.2
      if served.result.isSome then some flow
      else servedFlow cfg env passes (served.state.retire flow)

end FqCoDelQueueDisc

namespace FqCoDelState

variable {cfg : FqCoDelConfig} {state before after : FqCoDelState} {pos : Nat}
  {flow : FqCoDelFlow}

def Heads (state : FqCoDelState) (pos : Nat) : Prop :=
  (∃ rest, state.newFlows = pos :: rest) ∨
    state.newFlows = [] ∧ ∃ rest, state.oldFlows = pos :: rest

/-- One thing that the loops of `DoDequeue` do. -/
inductive Turn (cfg : FqCoDelConfig) : FqCoDelState → FqCoDelState → Prop where
  | grantNew {state : FqCoDelState} {pos : Nat} {rest : List Nat}
      (hhead : state.newFlows = pos :: rest) (hspent : state.getDeficit pos ≤ 0) :
      Turn cfg state
        ((state.increaseDeficit pos (int32 cfg.quantum)).moveToOld pos)
  | grantOld {state : FqCoDelState} {pos : Nat} {rest : List Nat}
      (hhead : state.oldFlows = pos :: rest) (hspent : state.getDeficit pos ≤ 0) :
      Turn cfg state
        ((state.increaseDeficit pos (int32 cfg.quantum)).rotateOld pos)
  | ask {state : FqCoDelState} {pos : Nat} {flow : FqCoDelFlow}
      (hflow : state.classes[pos]? = some flow) (queueDisc : QueueDisc CoDelState)
      (hsub : queueDisc.waiting ⊆ flow.queueDisc.waiting) :
      Turn cfg state (state.setFlow pos { flow with queueDisc })
  | retire {state : FqCoDelState} {pos : Nat} (hheads : state.Heads pos) :
      Turn cfg state (state.retire pos)
  | fail (state : FqCoDelState) (failure : Failure) : Turn cfg state (state.fail failure)

/-- How `DoDequeue` ends: without a packet, or with one that a flow with a deficit pays for. -/
inductive Ended (turned : FqCoDelState) :
    Option Nat → Option QueueDiscItem → FqCoDelState → Prop where
  | nothing : Ended turned none none turned
  | sent {pos : Nat} {flow : FqCoDelFlow} {item : QueueDiscItem}
      (hheads : turned.Heads pos) (hflow : turned.classes[pos]? = some flow)
      (hdeficit : 0 < flow.deficit) (queueDisc : QueueDisc CoDelState)
      (hsub : item.toPacket :: queueDisc.waiting ⊆ flow.queueDisc.waiting) :
      Ended turned (some pos) (some item)
        ((turned.setFlow pos { flow with queueDisc }).increaseDeficit pos
          (int32 (uint32OfInt (-item.size))))

/-! ## The loops -/

abbrev Turns (cfg : FqCoDelConfig) : FqCoDelState → FqCoDelState → Prop :=
  Relation.ReflTransGen (Turn cfg)

theorem findNew_turns (cfg : FqCoDelConfig) (count : Nat) (state : FqCoDelState) :
    let found := findNew cfg count state
    Turns cfg state found.2 ∧
      (found.1 = none → state.newFlows.length ≤ count → found.2.newFlows = []) ∧
      ∀ pos, found.1 = some pos →
        0 < found.2.getDeficit pos ∧ ∃ rest, found.2.newFlows = pos :: rest := by
  induction count generalizing state with
  | zero =>
    refine ⟨.refl, fun _ hcnt => ?_, by rintro _ ⟨⟩⟩
    exact List.length_eq_zero_iff.mp (Nat.le_zero.mp hcnt)
  | succ count ih =>
    rw [findNew]
    split
    next hnone => exact ⟨.refl, fun _ _ => hnone, by simp⟩
    next pos rest hhead =>
      split
      next hspent =>
        obtain ⟨hturns, hlast, hfound⟩ :=
          ih ((state.increaseDeficit pos (int32 cfg.quantum)).moveToOld pos)
        refine ⟨.head (.grantNew hhead hspent) hturns, fun hnone hcnt => ?_, hfound⟩
        apply hlast hnone
        rw [(lists_moveToOld _ pos).1, (lists_increaseDeficit state pos _).1, hhead]
        rw [hhead, List.length_cons] at hcnt
        exact Nat.le_of_succ_le_succ hcnt
      next hleft =>
        refine ⟨.refl, by simp, fun found hfound => ?_⟩
        cases hfound
        exact ⟨Int.not_le.mp hleft, rest, hhead⟩

theorem findOld_turns (cfg : FqCoDelConfig) (passes : Nat) (state : FqCoDelState) :
    let found := findOld cfg passes state
    Turns cfg state found.2 ∧ found.2.newFlows = state.newFlows ∧
      ∀ pos, found.1 = some pos →
        0 < found.2.getDeficit pos ∧ ∃ rest, found.2.oldFlows = pos :: rest := by
  induction passes generalizing state with
  | zero => exact ⟨.single (.fail state .endlessLoop), rfl, by rintro _ ⟨⟩⟩
  | succ passes ih =>
    rw [findOld]
    split
    · exact ⟨.refl, rfl, by simp⟩
    next pos rest hhead =>
      split
      next hspent =>
        obtain ⟨hturns, hnew, hfound⟩ :=
          ih ((state.increaseDeficit pos (int32 cfg.quantum)).rotateOld pos)
        refine ⟨.head (.grantOld hhead hspent) hturns, hnew.trans ?_, hfound⟩
        exact (lists_increaseDeficit state pos _).1
      next hleft =>
        refine ⟨.refl, rfl, fun found hfound => ?_⟩
        cases hfound
        exact ⟨Int.not_le.mp hleft, rest, hhead⟩

theorem findFlow_turns (cfg : FqCoDelConfig) (state : FqCoDelState) :
    let found := findFlow cfg state
    Turns cfg state found.2 ∧ ∀ pos, found.1 = some pos →
      0 < found.2.getDeficit pos ∧ found.2.Heads pos := by
  obtain ⟨hnew, hnone, hfst⟩ := findNew_turns cfg state.newFlows.length state
  rw [findFlow]
  dsimp only
  split
  next pos hfound =>
    refine ⟨hnew, fun found hsame => ?_⟩
    cases hsame
    obtain ⟨hdef, hhead⟩ := hfst _ hfound
    exact ⟨hdef, .inl hhead⟩
  next hnothing =>
    obtain ⟨hold, hsame, hlast⟩ := findOld_turns cfg
      ((findNew cfg state.newFlows.length state).2.owed + 1)
      (findNew cfg state.newFlows.length state).2
    refine ⟨hnew.trans hold, fun pos hfound => ?_⟩
    obtain ⟨hdef, hhead⟩ := hlast pos hfound
    exact ⟨hdef, .inr ⟨hsame.trans (hnone hnothing (le_rfl)), hhead⟩⟩

theorem serve_turns (cfg : FqCoDelConfig) (env : Env Unit) (passes : Nat) (state : FqCoDelState) :
    ∃ turned,
      Turns cfg state turned ∧
        Ended turned (servedFlow cfg env passes state) (serve cfg env passes state).result
          (serve cfg env passes state).state := by
  induction passes generalizing state with
  | zero => exact ⟨_, .single (.fail state .endlessLoop), .nothing⟩
  | succ passes ih =>
    obtain ⟨hfound, hheads⟩ := findFlow_turns cfg state
    rw [serve, servedFlow]
    generalize findFlow cfg state = found at *
    cases hpos : found.1 with
    | none => exact ⟨_, hfound, .nothing⟩
    | some pos =>
      obtain ⟨hdef, hhead⟩ := hheads pos hpos
      obtain ⟨flow, hflow⟩ : ∃ flow, found.2.classes[pos]? = some flow := by
        rw [getDeficit] at hdef
        cases hflow : found.2.classes[pos]? with
        | none =>
          rw [hflow] at hdef
          cases hdef
        | some flow => exact ⟨flow, rfl⟩
      have horder := flow.queueDisc.dequeueChild_order (coDelConfig cfg) env
      simp only [dequeueFlow, hflow]
      rw [getDeficit, hflow] at hdef
      dsimp only at horder
      generalize flow.queueDisc.dequeueChild _ env = served at *
      cases hres : served.result with
      | some item =>
        rw [hres] at horder
        exact ⟨_, hfound, .sent hhead hflow hdef served.state horder.subset⟩
      | none =>
        rw [hres] at horder
        let asked := found.2.setFlow pos { flow with queueDisc := served.state }
        have hasked : Turn cfg found.2 asked := .ask hflow served.state horder.subset
        have hretired : Turn cfg asked (asked.retire pos) := .retire hhead
        obtain ⟨turned, hturns, hended⟩ := ih (asked.retire pos)
        exact ⟨turned, ((hfound.tail hasked).tail hretired).trans hturns, hended⟩

end FqCoDelState

end HomaSird.TrafficControl
