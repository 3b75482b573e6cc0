import HomaSird.TrafficControl.FqCoDelContract
import HomaSird.TrafficControl.FqCoDelTurns

/-! # Fair shares of an FQ-CoDel queue disc

As long as no packet is so large that its size is charged as a credit, the deficits of the
listed flows stay between the size of a packet and the quantum. What two old flows may
still send differs by their deficits and by at most one quantum, for the one that comes
first, and a quantum for one of them is followed by a quantum for the other.
-/

namespace HomaSird.TrafficControl

open FqCoDelQueueDisc RoundRobin List

namespace FqCoDelState

variable {cfg : FqCoDelConfig} {classifier : Classifier} {limit : Nat}
  {state before after turned : FqCoDelState} {pos first second : Nat} {flow : FqCoDelFlow}

/-- The largest size that is charged as a debt by the signed words of the deficits. -/
def maxCharge : Nat := 2 ^ 31 + 1

structure Balanced (cfg : FqCoDelConfig) (limit : Nat) (state : FqCoDelState) : Prop where
  listed : Listed state
  deficit : ∀ pos, pos ∈ state.newFlows ∨ pos ∈ state.oldFlows →
    -(limit : Int) < state.getDeficit pos ∧ state.getDeficit pos ≤ cfg.quantum
  sizes : ∀ queue ∈ state.queues, ∀ packet ∈ queue, packet.size ≤ limit

theorem balanced_init (cfg : FqCoDelConfig) (limit : Nat) : Balanced cfg limit init where
  listed := .init
  deficit _ hmem := by simp [init] at hmem
  sizes _ hmem := nomatch hmem

/-! ## What the turns leave alone -/

theorem getDeficit_moveToOld (state : FqCoDelState) (pos other : Nat) :
    (state.moveToOld pos).getDeficit other = state.getDeficit other := by
  have hkeeps := @getDeficit_keeps state pos (fun flow => { flow with status := .oldFlow })
    (fun _ => rfl) other
  exact hkeeps

theorem getDeficit_retire (state : FqCoDelState)
    (pos other : Nat) : (state.retire pos).getDeficit other = state.getDeficit other := by
  have hkeeps := @getDeficit_keeps state pos (fun flow => { flow with status := .inactive })
    (fun _ => rfl) other
  unfold retire
  split
  · exact getDeficit_moveToOld state pos other
  · exact hkeeps

theorem getDeficit_setQueueDisc (hflow : state.classes[pos]? = some flow)
    (queueDisc : QueueDisc CoDelState) (other : Nat) :
    (state.setFlow pos { flow with queueDisc }).getDeficit other = state.getDeficit other := by
  rw [setQueueDisc_eq hflow]
  apply getDeficit_keeps
  exact fun _ => rfl

theorem retire_of_new {rest : List Nat} (hhead : state.newFlows = pos :: rest) :
    state.retire pos = state.moveToOld pos := by
  rw [retire, if_pos (by rw [hhead]; exact cons_ne_nil _ _)]

theorem lists_retire (hheads : state.Heads pos) :
    (∃ rest,
      state.newFlows = pos :: rest ∧ (state.retire pos).newFlows = rest ∧
        (state.retire pos).oldFlows = state.oldFlows ++ [pos]) ∨
      ∃ rest,
        state.newFlows = [] ∧ state.oldFlows = pos :: rest ∧ (state.retire pos).newFlows = [] ∧
          (state.retire pos).oldFlows = rest := by
  rcases hheads with ⟨rest, hhead⟩ | ⟨hnone, rest, hhead⟩
  · left
    rw [retire_of_new hhead, Listed.moveToOld_eq hhead]
    exact ⟨rest, hhead, rfl, rfl⟩
  · right
    rw [Listed.retireOld_eq hhead hnone]
    exact ⟨rest, hnone, hhead, rfl, rfl⟩

namespace Balanced

theorem exists_flow (hbal : Balanced cfg limit state)
    (hmem : pos ∈ state.newFlows ∨ pos ∈ state.oldFlows) :
    ∃ flow, state.classes[pos]? = some flow ∧ flow.deficit = state.getDeficit pos := by
  obtain ⟨flow, hflow⟩ := hbal.listed.exists_of_mem hmem
  refine ⟨flow, hflow, ?_⟩
  rw [getDeficit, hflow]
  rfl

theorem getDeficit_grant (hbal : Balanced cfg limit state) (hlim : limit ≤ maxCharge)
    (hquantum : cfg.quantum < 2 ^ 31) (hmem : pos ∈ state.newFlows ∨ pos ∈ state.oldFlows)
    (hspent : state.getDeficit pos ≤ 0) (other : Nat) :
    (state.increaseDeficit pos (int32 cfg.quantum)).getDeficit other =
      if pos = other then state.getDeficit pos + cfg.quantum else state.getDeficit other := by
  obtain ⟨flow, hflow, hdef⟩ := hbal.exists_flow hmem
  have hlow := (hbal.deficit pos hmem).1
  rw [← hdef] at hlow ⊢
  rw [maxCharge] at hlim
  exact FqCoDelState.getDeficit_grant hflow (by omega) hspent hquantum other

theorem grant (hbal : Balanced cfg limit state) (hlim : limit ≤ maxCharge)
    (hquantum : cfg.quantum < 2 ^ 31) (hmem : pos ∈ state.newFlows ∨ pos ∈ state.oldFlows)
    (hspent : state.getDeficit pos ≤ 0) :
    Balanced cfg limit (state.increaseDeficit pos (int32 cfg.quantum)) where
  listed := hbal.listed.onFlow fun _ => rfl
  deficit other hother := by
    obtain ⟨hnew, hold⟩ := lists_increaseDeficit state pos (int32 cfg.quantum)
    rw [hnew, hold] at hother
    rw [hbal.getDeficit_grant hlim hquantum hmem hspent]
    split
    · have hlow := (hbal.deficit pos hmem).1
      omega
    · exact hbal.deficit other hother
  sizes := by
    rw [(kept_increaseDeficit state pos _).queues_eq]
    exact hbal.sizes

theorem move (hbal : Balanced cfg limit before) (hlisted : Listed after) (hdef : ∀ pos,
    after.getDeficit pos = before.getDeficit pos) (hmem : ∀ pos, pos ∈
    after.newFlows ∨ pos ∈ after.oldFlows → pos ∈ before.newFlows ∨ pos ∈
    before.oldFlows) (hqs : after.queues = before.queues) : Balanced cfg limit after where
  listed := hlisted
  deficit pos hposition := by
    rw [hdef]
    exact hbal.deficit pos (hmem pos hposition)
  sizes := by
    rw [hqs]
    exact hbal.sizes

theorem moveToOld (hbal : Balanced cfg limit state) {rest : List Nat} (hhead :
    state.newFlows = pos :: rest) : Balanced cfg limit (state.moveToOld pos) := by
  refine hbal.move (hbal.listed.moveToOld hhead) (getDeficit_moveToOld state pos)
    (fun other hother => ?_) (kept_moveToOld state pos).queues_eq
  obtain ⟨hnew, hold⟩ := lists_moveToOld state pos
  rw [hnew, hold, hhead, tail_cons, mem_append, mem_singleton] at hother
  rw [hhead, mem_cons]
  rcases hother with hlater | hearly | rfl
  · exact .inl (.inr hlater)
  · exact .inr hearly
  · exact .inl (.inl rfl)

theorem rotateOld (hbal : Balanced cfg limit state) {rest : List Nat} (hhead :
    state.oldFlows = pos :: rest) : Balanced cfg limit (state.rotateOld pos) := by
  refine hbal.move (hbal.listed.rotateOld hhead) (fun _ => rfl) (fun other hother => ?_)
    rfl
  rw [FqCoDelState.rotateOld, hhead] at hother
  rw [hhead]
  simpa [or_comm] using hother

theorem retire (hbal : Balanced cfg limit state)
    (hheads : state.Heads pos) : Balanced cfg limit (state.retire pos) := by
  rcases hheads with ⟨rest, hhead⟩ | ⟨hnone, rest, hhead⟩
  · rw [retire_of_new hhead]
    exact hbal.moveToOld hhead
  · refine hbal.move (hbal.listed.retireOld hhead hnone)
      (getDeficit_retire state pos) (fun other hother => ?_)
      (kept_retire state pos).queues_eq
    rw [Listed.retireOld_eq hhead hnone] at hother
    rw [hhead]
    exact .inr (mem_cons_of_mem _ (hother.resolve_left not_mem_nil))

theorem setQueueDisc (hbal : Balanced cfg limit state)
    (hflow : state.classes[pos]? = some flow) {queueDisc : QueueDisc CoDelState}
    (hsizes : ∀ packet ∈ queueDisc.waiting, packet.size ≤ limit) :
    Balanced cfg limit (state.setFlow pos { flow with queueDisc }) where
  listed := hbal.listed.setQueueDisc hflow queueDisc
  deficit other hother := by
    rw [getDeficit_setQueueDisc hflow]
    exact hbal.deficit other hother
  sizes queue hmem := by
    rw [queues_setFlow] at hmem
    rcases mem_or_eq_of_mem_set hmem with hother | rfl
    · exact hbal.sizes queue hother
    · exact hsizes

theorem size_le (hbal : Balanced cfg limit state) (hflow : state.classes[pos]? = some flow)
    {packet : Packet} (hmem : packet ∈ flow.queueDisc.waiting) :
    packet.size ≤ limit :=
  hbal.sizes _ (mem_of_getElem? (getElem?_queues hflow)) packet hmem

theorem turn (hbal : Balanced cfg limit before) (hlim : limit ≤ maxCharge) (hquantum :
    cfg.quantum < 2 ^ 31) (hturn : Turn cfg before after) : Balanced cfg limit after := by
  cases hturn with
  | grantNew hhead hspent =>
    have hgrant := hbal.grant hlim hquantum (.inl (hhead ▸ mem_cons_self)) hspent
    exact hgrant.moveToOld ((lists_increaseDeficit before _ _).1.trans hhead)
  | grantOld hhead hspent =>
    have hgrant := hbal.grant hlim hquantum (.inr (hhead ▸ mem_cons_self)) hspent
    exact hgrant.rotateOld ((lists_increaseDeficit before _ _).2.trans hhead)
  | ask hflow queueDisc hsub =>
    exact hbal.setQueueDisc hflow fun packet hmem => hbal.size_le hflow (hsub hmem)
  | retire hheads => exact hbal.retire hheads
  | fail failure =>
    exact ⟨⟨hbal.listed.nodup, hbal.listed.isNew, hbal.listed.isOld⟩,
      hbal.deficit, hbal.sizes⟩

end Balanced

/-! ## Two old flows -/

theorem Turn.step (hturn : Turn cfg before after) (hbal : Balanced cfg limit before)
    (hlim : limit ≤ maxCharge) (hquantum : cfg.quantum < 2 ^ 31) :
    ∃ turn,
      Step before.oldFlows turn after.oldFlows ∧
        ∀ pos ∈ before.oldFlows,
          after.getDeficit pos = before.getDeficit pos + cfg.quantum * taken turn pos := by
  cases hturn with
  | @grantNew head rest hhead hspent =>
    have hmem : head ∈ before.newFlows := hhead ▸ mem_cons_self
    refine ⟨none, ?_, fun pos hposition => ?_⟩
    · rw [(lists_moveToOld _ _).2, (lists_increaseDeficit before _ _).2]
      exact .joins head before.oldFlows
    · have hnodup := disjoint_of_nodup_append hbal.listed.nodup
      have hother : head ≠ pos := by
        rintro rfl
        exact hnodup hmem hposition
      rw [getDeficit_moveToOld, hbal.getDeficit_grant hlim hquantum (.inl hmem) hspent,
        if_neg hother]
      simp [taken]
  | @grantOld head rest hhead hspent =>
    have hmem : head ∈ before.oldFlows := hhead ▸ mem_cons_self
    refine ⟨some head, ?_, fun pos _ => ?_⟩
    · rw [rotateOld, (lists_increaseDeficit before _ _).2, hhead]
      exact .turn head rest
    · have hgrant := hbal.getDeficit_grant hlim hquantum (.inr hmem) hspent pos
      refine hgrant.trans ?_
      by_cases hsame : head = pos
      · subst hsame
        simp [taken]
      · simp [taken, hsame]
  | ask hflow queueDisc =>
    refine ⟨none, .stays _, fun pos _ => ?_⟩
    rw [getDeficit_setQueueDisc hflow]
    simp [taken]
  | @retire head hheads =>
    refine ⟨none, ?_, fun pos _ => ?_⟩
    · rcases lists_retire hheads with ⟨rest, -, -, hold⟩ | ⟨rest, -, hhead, -, hold⟩
      · rw [hold]
        exact .joins head before.oldFlows
      · rw [hold, hhead]
        exact .leaves head rest
    · rw [getDeficit_retire]
      simp [taken]
  | fail failure => exact ⟨none, .stays _, fun pos _ => by
    simp [taken, FqCoDelState.fail, getDeficit]⟩

theorem Turn.old_of_mem (hturn : Turn cfg before after) (hnew : pos ∉ before.newFlows) :
    pos ∉ after.newFlows ∧ (pos ∈ after.oldFlows → pos ∈ before.oldFlows) := by
  cases hturn with
  | @grantNew head rest hhead =>
    rw [hhead, mem_cons, not_or] at hnew
    obtain ⟨hfst, hlast⟩ := lists_moveToOld
      (before.increaseDeficit head (int32 cfg.quantum)) head
    obtain ⟨hnewSame, holdSame⟩ := lists_increaseDeficit before head (int32 cfg.quantum)
    rw [hfst, hlast, hnewSame, holdSame, hhead, tail_cons, mem_append, mem_singleton]
    exact ⟨hnew.2, fun hmem => hmem.resolve_right hnew.1⟩
  | @grantOld head rest hhead =>
    obtain ⟨hnewSame, holdSame⟩ := lists_increaseDeficit before head (int32 cfg.quantum)
    simp only [rotateOld, hnewSame, holdSame, hhead]
    refine ⟨hnew, fun hmem => ?_⟩
    simpa [or_comm] using hmem
  | ask => exact ⟨hnew, id⟩
  | @retire head hheads =>
    rcases lists_retire hheads with
      ⟨rest, hhead, hfst, hlast⟩ | ⟨rest, hnone, hhead, hfst, hlast⟩
    · rw [hhead, mem_cons, not_or] at hnew
      rw [hfst, hlast, mem_append, mem_singleton]
      exact ⟨hnew.2, fun hmem => hmem.resolve_right hnew.1⟩
    · rw [hfst, hlast, hhead]
      exact ⟨not_mem_nil, mem_cons_of_mem _⟩
  | fail => exact ⟨hnew, id⟩

/-- How much more the first flow may send than the second one until each has had its turn. -/
def lead (cfg : FqCoDelConfig) (state : FqCoDelState) (first second : Nat) : Int :=
  state.getDeficit first - state.getDeficit second +
    cfg.quantum * ahead state.oldFlows first second

structure Tied (cfg : FqCoDelConfig) (first second : Nat) (amount : Int)
    (state : FqCoDelState) : Prop where
  first_notNew : first ∉ state.newFlows
  second_notNew : second ∉ state.newFlows
  lead_eq : first ∈ state.oldFlows → second ∈ state.oldFlows →
    state.lead cfg first second = amount

theorem Tied.turn {amount : Int} (htied : Tied cfg first second amount before)
    (hne : first ≠ second) (hbal : Balanced cfg limit before)
    (hlim : limit ≤ maxCharge) (hquantum : cfg.quantum < 2 ^ 31)
    (hturn : Turn cfg before after) : Tied cfg first second amount after := by
  obtain ⟨hfst, hfirstOld⟩ := hturn.old_of_mem htied.first_notNew
  obtain ⟨hsnd, hsecondOld⟩ := hturn.old_of_mem htied.second_notNew
  refine ⟨hfst, hsnd, fun hone htwo => ?_⟩
  obtain ⟨turn, hstep, hdef⟩ := hturn.step hbal hlim hquantum
  have hnodup : before.oldFlows.Nodup := (nodup_append.mp hbal.listed.nodup).2.1
  have hahead := hstep.ahead_eq hnodup hne ⟨hfirstOld hone, hone⟩ ⟨hsecondOld htwo, htwo⟩
  rw [← htied.lead_eq (hfirstOld hone) (hsecondOld htwo), lead, lead, ← hahead,
    hdef first (hfirstOld hone), hdef second (hsecondOld htwo), Int.mul_add, Int.mul_sub]
  omega

theorem Balanced.turns (hbal : Balanced cfg limit before) (hlim : limit ≤ maxCharge)
    (hquantum : cfg.quantum < 2 ^ 31) (hturns : Turns cfg before after) :
    Balanced cfg limit after ∧ ∀ first second amount, first ≠ second →
    Tied cfg first second amount before → Tied cfg first second amount after := by
  induction hturns with
  | refl => exact ⟨hbal, fun _ _ _ _ htied => htied⟩
  | tail _ hturn ih =>
    exact ⟨ih.1.turn hlim hquantum hturn, fun first second amount hne htied =>
      (ih.2 first second amount hne htied).turn hne ih.1 hlim hquantum hturn⟩

/-! ## The packet that is sent -/

def sentBy (served : Option Nat) (result : Option QueueDiscItem) (pos : Nat) : Nat :=
  if served = some pos then result.elim 0 fun item => item.size else 0

theorem int32_charge {deficit : Int}
    (hpos : 0 < deficit) (hword : deficit < 2 ^ 31) {size : Nat} (hsz : size ≤ maxCharge) :
    int32 (deficit + int32 (uint32OfInt (-size))) = deficit - size := by
  unfold maxCharge at hsz
  unfold int32 uint32OfInt
  omega

theorem Ended.pays {served : Option Nat} {result : Option QueueDiscItem} {last : FqCoDelState}
    (hended : Ended turned served result last) (hbal : Balanced cfg limit turned)
    (hlim : limit ≤ maxCharge) (hquantum : cfg.quantum < 2 ^ 31) :
    Balanced cfg limit last ∧ last.newFlows = turned.newFlows ∧ last.oldFlows = turned.oldFlows ∧
      ∀ pos, last.getDeficit pos = turned.getDeficit pos - sentBy served result pos := by
  cases hended with
  | nothing => exact ⟨hbal, rfl, rfl, fun pos => by simp [sentBy]⟩
  | @sent pos flow item hheads hflow hpositive queueDisc hsub =>
    have hmem : pos ∈ turned.newFlows ∨ pos ∈ turned.oldFlows := by
      rcases hheads with ⟨rest, hhead⟩ | ⟨-, rest, hhead⟩
      · exact .inl (hhead ▸ mem_cons_self)
      · exact .inr (hhead ▸ mem_cons_self)
    have hsz : item.size ≤ limit := hbal.size_le hflow (hsub mem_cons_self)
    have hdef : turned.getDeficit pos = flow.deficit := by
      rw [getDeficit, hflow]
      rfl
    have hmost := (hbal.deficit pos hmem).2
    rw [hdef] at hmost
    have hasked := hbal.setQueueDisc hflow fun packet hpkt =>
      hbal.size_le hflow (hsub (.tail _ hpkt))
    have hset : (turned.setFlow pos { flow with queueDisc }).classes[pos]? =
        some { flow with queueDisc } :=
      List.getElem?_set_self (List.getElem?_eq_some_iff.mp hflow).1
    have hcharge : ∀ other, ((turned.setFlow pos { flow with queueDisc }).increaseDeficit
        pos (int32 (uint32OfInt (-item.size)))).getDeficit other =
          turned.getDeficit other - sentBy (some pos) (some item) other := by
      intro other
      rw [increaseDeficit, getDeficit_onFlow hset, getDeficit_setQueueDisc hflow]
      dsimp only
      rw [int32_charge hpositive (by omega) (by omega)]
      by_cases hsame : pos = other
      · subst hsame
        simp [sentBy, hdef]
      · simp [sentBy, hsame]
    obtain ⟨hnew, hold⟩ := lists_increaseDeficit (turned.setFlow pos
      { flow with queueDisc }) pos (int32 (uint32OfInt (-item.size)))
    refine ⟨⟨hasked.listed.onFlow fun _ => rfl, fun other hother => ?_, ?_⟩, hnew, hold, hcharge⟩
    · rw [hnew, hold] at hother
      rw [hcharge]
      obtain ⟨hlow, hhigh⟩ := hbal.deficit other hother
      by_cases hsame : pos = other
      · subst hsame
        simp only [sentBy, if_true, Option.elim_some]
        omega
      · simp only [sentBy, Option.some.injEq, hsame, if_false]
        omega
    · rw [(kept_increaseDeficit _ pos _).queues_eq]
      exact hasked.sizes

theorem Balanced.doDequeue (hbal : Balanced cfg limit state) (hlim : limit ≤ maxCharge)
    (hquantum : cfg.quantum < 2 ^ 31) (env : Env Unit) (passes : Nat) :
    let outcome := serve cfg env passes state
    let served := servedFlow cfg env passes state
    Balanced cfg limit outcome.state ∧ ∀ first second, first ≠ second →
      first ∈ state.oldFlows ∧ first ∈ outcome.state.oldFlows →
      second ∈ state.oldFlows ∧ second ∈ outcome.state.oldFlows →
      outcome.state.lead cfg first second +
          (sentBy served outcome.result first - sentBy served outcome.result second) =
        state.lead cfg first second := by
  obtain ⟨turned, hturns, hended⟩ := serve_turns cfg env passes state
  obtain ⟨hturned, hties⟩ := hbal.turns hlim hquantum hturns
  obtain ⟨hlast, -, hold, hdef⟩ := hended.pays hturned hlim hquantum
  refine ⟨hlast, fun first second hne hfst hsnd => ?_⟩
  have hdisj := disjoint_of_nodup_append hbal.listed.nodup
  have htied := hties first second (state.lead cfg first second) hne
    ⟨fun hmem => hdisj hmem hfst.1, fun hmem => hdisj hmem hsnd.1, fun _ _ => rfl⟩
  rw [hold] at hfst hsnd
  rw [← htied.lead_eq hfst.2 hsnd.2, lead, lead, hold, hdef, hdef]
  omega

/-! ## Enqueues -/

structure Grown (cfg : FqCoDelConfig) (limit : Nat) (before after : FqCoDelState) : Prop where
  balanced : Balanced cfg limit after
  oldFlows : after.oldFlows = before.oldFlows
  deficit : ∀ pos ∈ before.oldFlows, after.getDeficit pos = before.getDeficit pos

theorem Grown.trans {last : FqCoDelState} (hfst : Grown cfg limit before after)
    (hsnd : Grown cfg limit after last) : Grown cfg limit before last where
  balanced := hsnd.balanced
  oldFlows := hsnd.oldFlows.trans hfst.oldFlows
  deficit pos hmem :=
    (hsnd.deficit pos (hfst.oldFlows ▸ hmem)).trans (hfst.deficit pos hmem)

namespace Balanced

section

variable (hbal : Balanced cfg limit state)
include hbal

theorem grown : Grown cfg limit state state :=
  ⟨hbal, rfl, fun _ _ => rfl⟩

theorem fail (failure : Failure) : Grown cfg limit state (state.fail failure) :=
  ⟨⟨⟨hbal.listed.nodup, hbal.listed.isNew, hbal.listed.isOld⟩, hbal.deficit,
    hbal.sizes⟩, rfl, fun _ _ => rfl⟩

theorem takeQueueDisc (hflow : state.classes[pos]? = some flow)
    {queueDisc : QueueDisc CoDelState} (hsizes : ∀ packet ∈ queueDisc.waiting, packet.size ≤ limit)
    : Grown cfg limit state (state.setFlow pos { flow with queueDisc }) :=
  ⟨hbal.setQueueDisc hflow hsizes, rfl, fun other _ => getDeficit_setQueueDisc hflow _ other⟩

theorem findOrCreate (h : Nat) : Grown cfg limit state (state.findOrCreate cfg h).2 := by
  have hlisted := @Listed.findOrCreate cfg state hbal.listed h
  rw [FqCoDelState.findOrCreate] at hlisted ⊢
  split
  · exact hbal.grown
  next hnone =>
    rw [hnone] at hlisted
    have hdef : ∀ pos, pos ∈ state.newFlows ∨ pos ∈ state.oldFlows →
        ((state.classes ++ [newFlow cfg h])[pos]?).elim 0 FqCoDelFlow.deficit =
          state.getDeficit pos := by
      intro pos hmem
      obtain ⟨flow, hflow⟩ := hbal.listed.exists_of_mem hmem
      have hlen := (List.getElem?_eq_some_iff.mp hflow).1
      rw [getDeficit, hflow, List.getElem?_append_left hlen, hflow]
    refine ⟨⟨hlisted, fun pos hmem => ?_, fun queue hmem => ?_⟩, rfl, fun pos hmem => ?_⟩
    · rw [getDeficit, hdef pos hmem]
      exact hbal.deficit pos hmem
    · rw [queues, map_append, mem_append] at hmem
      rcases hmem with hold | hnew
      · exact hbal.sizes queue hold
      · rw [mem_singleton.mp hnew]
        exact List.forall_mem_nil _
    · exact hdef pos (.inr hmem)

theorem activate (hpos : 1 ≤ cfg.quantum) (hquantum : cfg.quantum < 2 ^ 31)
    (pos : Nat) : Grown cfg limit state (state.activate cfg pos) := by
  cases hflow : state.classes[pos]? with
  | none =>
    rw [FqCoDelState.activate, hflow]
    exact hbal.grown
  | some flow =>
    by_cases hidle : flow.status = .inactive
    · have hlisted := @Listed.activate cfg state pos flow hbal.listed hflow hidle
      have hunlisted : pos ∉ state.newFlows ∧ pos ∉ state.oldFlows := by
        rw [hbal.listed.isNew, hbal.listed.isOld, statusAt, hflow]
        simp [hidle]
      have hword : int32 cfg.quantum = cfg.quantum := by
        unfold int32
        omega
      have hqs : (state.activate cfg pos).queues = state.queues := by
        rw [activate_eq hflow hidle]
        have hpaid : Kept state (state.onFlow pos fun old =>
            { old with deficit := int32 cfg.quantum }) := .onFlow (fun _ => rfl) fun _ => rfl
        exact (hpaid.trans (kept_setStatus _ pos .newFlow)).queues_eq
      have hdef : ∀ other, (state.activate cfg pos).getDeficit other =
          if pos = other then (cfg.quantum : Int) else state.getDeficit other := by
        intro other
        have hpaid := @getDeficit_onFlow state pos flow
          (fun old => { old with deficit := int32 cfg.quantum }) hflow other
        have hkeeps := @getDeficit_keeps (state.onFlow pos fun old =>
          { old with deficit := int32 cfg.quantum }) pos
          (fun old => { old with status := .newFlow }) (fun _ => rfl) other
        rw [activate_eq hflow hidle]
        refine Eq.trans hkeeps (hpaid.trans ?_)
        rw [hword]
      have hlists : (state.activate cfg pos).newFlows = state.newFlows ++ [pos] ∧
          (state.activate cfg pos).oldFlows = state.oldFlows := by
        rw [activate_eq hflow hidle]
        exact ⟨rfl, rfl⟩
      refine ⟨⟨hlisted, fun other hother => ?_, ?_⟩, hlists.2, fun other hother => ?_⟩
      · rw [hdef]
        split
        · omega
        next hne =>
          rw [hlists.1, hlists.2, mem_append, mem_singleton] at hother
          apply hbal.deficit
          exact hother.imp_left fun hmem => hmem.resolve_right (Ne.symm hne)
      · rw [hqs]
        exact hbal.sizes
      · rw [hdef, if_neg]
        rintro rfl
        exact hunlisted.2 hother
    · rw [FqCoDelState.activate, hflow]
      dsimp only
      rw [if_neg hidle]
      exact hbal.grown

theorem enqueueFlow (env : Env Unit) {item : QueueDiscItem} (hsz : item.size ≤ limit) (pos :
    Nat) : Grown cfg limit state (enqueueFlow cfg env item pos state).state := by
  rw [FqCoDelQueueDisc.enqueueFlow]
  split
  · exact hbal.grown
  next flow hflow =>
    apply hbal.takeQueueDisc hflow
    intro packet hpkt
    rcases flow.queueDisc.enqueueChild_waiting (coDelConfig cfg) env item with hsame | hmore
    · rw [hsame] at hpkt
      exact hbal.size_le hflow hpkt
    · rw [hmore, mem_append, mem_singleton] at hpkt
      rcases hpkt with hold | rfl
      · exact hbal.size_le hflow hold
      · exact hsz

end

end Balanced

theorem dropHeads_subset (threshold more len : Nat) (child : QueueDisc CoDelState) :
    (dropHeads threshold more len child).state.waiting ⊆ child.waiting := by
  induction more generalizing len child with
  | zero =>
    have hrest := child.dequeueInternal_order ▸ subset_append_right _ _
    rw [dropHeads]
    dsimp only
    split
    · exact hrest
    · exact hrest
  | succ more ih =>
    have hrest := child.dequeueInternal_order ▸ subset_append_right _ _
    rw [dropHeads]
    dsimp only
    split
    · exact hrest
    next item hitem =>
      split
      · exact List.Subset.trans (ih _ _) hrest
      · exact hrest

theorem Balanced.fqCoDelDrop (hbal : Balanced cfg limit state) :
    Grown cfg limit state (fqCoDelDrop cfg state).state := by
  rw [FqCoDelQueueDisc.fqCoDelDrop]
  dsimp only
  split
  · exact hbal.fail _
  next flow hflow =>
    generalize fattest state.classes 0 0 0 = found at *
    have hdrop := hbal.takeQueueDisc hflow fun packet hmem => hbal.size_le hflow
      (dropHeads_subset (found.2 >>> 1) (cfg.dropBatchSize - 1) 0 flow.queueDisc hmem)
    dsimp only
    split
    · exact hdrop
    · exact hdrop.trans (hdrop.balanced.fail _)

theorem Balanced.doEnqueue (hbal : Balanced cfg limit state)
    (hpos : 1 ≤ cfg.quantum) (hquantum : cfg.quantum < 2 ^ 31)
    (env : Env Unit) (occupancy : Occupancy) {item : QueueDiscItem} (hsz : item.size ≤ limit) :
    Grown cfg limit state (doEnqueue cfg classifier env occupancy item state).state := by
  rw [FqCoDelQueueDisc.doEnqueue]
  split
  · exact hbal.grown
  next hash hhash =>
    split
    · exact hbal.fail _
    · obtain ⟨tags, htags⟩ := selectQueue_tags cfg hash state
      have htagged : Grown cfg limit state (selectQueue cfg hash state).2 := by
        rw [htags]
        exact ⟨⟨⟨hbal.listed.nodup, hbal.listed.isNew, hbal.listed.isOld⟩,
          hbal.deficit, hbal.sizes⟩, rfl, fun _ _ => rfl⟩
      generalize selectQueue cfg hash state = selected at *
      have hmade := htagged.trans (htagged.balanced.findOrCreate selected.1)
      dsimp only
      generalize selected.2.findOrCreate cfg selected.1 = created at *
      have hactive := hmade.trans (hmade.balanced.activate hpos hquantum created.1)
      have hstored := hactive.trans (hactive.balanced.enqueueFlow env hsz created.1)
      split
      · exact hstored.trans hstored.balanced.fqCoDelDrop
      · exact hstored

end FqCoDelState

open FqCoDelState

/-! ## Runs -/

inductive FqCoDelCall
  | enqueue (env : Env Unit) (occupancy : Occupancy) (item : QueueDiscItem)
  | dequeue (env : Env Unit) (occupancy : Occupancy)

namespace FqCoDelCall

variable (cfg : FqCoDelConfig) (classifier : Classifier)

def size : FqCoDelCall → Nat
  | .enqueue _ _ item => item.size
  | .dequeue _ _ => 0

def next (state : FqCoDelState) : FqCoDelCall → FqCoDelState
  | .enqueue env occupancy item => (doEnqueue cfg classifier env occupancy item state).state
  | .dequeue env occupancy => (doDequeue cfg env occupancy state).state

def sent (state : FqCoDelState) (pos : Nat) : FqCoDelCall → Nat
  | .enqueue .. => 0
  | .dequeue env occupancy =>
    sentBy (servedFlow cfg env (2 * state.newFlows.length + state.oldFlows.length + 1) state)
      (doDequeue cfg env occupancy state).result pos

end FqCoDelCall

namespace FqCoDelQueueDisc

variable (cfg : FqCoDelConfig) (classifier : Classifier)

def machine : Transition.Machine FqCoDelState FqCoDelCall Empty where
  init := .init
  step state call := .ok (call.next cfg classifier state)

def visited : List FqCoDelCall → FqCoDelState → List FqCoDelState
  | [], state => [state]
  | call :: calls, state => state :: visited calls (call.next cfg classifier state)

def sentIn (pos : Nat) : List FqCoDelCall → FqCoDelState → Nat
  | [], _ => 0
  | call :: calls, state =>
    call.sent cfg state pos + sentIn pos calls (call.next cfg classifier state)

/-- The deficits of the listed flows stay in range, and two that stay among the old ones send about
as much. -/
structure Fair (limit : Nat) (start : FqCoDelState) (calls : List FqCoDelCall) : Prop where
  deficits : ∀ state ∈ visited cfg classifier calls start, ∀ pos,
    pos ∈ state.newFlows ∨ pos ∈ state.oldFlows →
      -(limit : Int) < state.getDeficit pos ∧ state.getDeficit pos ≤ cfg.quantum
  shares : ∀ first second, (∀ state ∈ visited cfg classifier calls start,
      first ∈ state.oldFlows ∧ second ∈ state.oldFlows) →
    ((sentIn cfg classifier first calls start : Int) -
      sentIn cfg classifier second calls start).natAbs ≤ 3 * cfg.quantum + 2 * limit

variable {cfg classifier} {limit : Nat} {state : FqCoDelState} {call : FqCoDelCall}
  {first second : Nat}

theorem start_mem_visited (calls : List FqCoDelCall)
    (state : FqCoDelState) : state ∈ visited cfg classifier calls state := by
  cases calls <;> exact mem_cons_self

section

variable (hbal : Balanced cfg limit state) (hpos : 1 ≤ cfg.quantum) (hquantum :
  cfg.quantum < 2 ^ 31) (hlim : limit ≤ maxCharge) (hsz : call.size ≤ limit)
include hbal hpos hquantum hlim hsz

theorem balanced_next : Balanced cfg limit (call.next cfg classifier state) := by
  cases call with
  | enqueue env occupancy item =>
    exact (hbal.doEnqueue hpos hquantum env occupancy hsz).balanced
  | dequeue env occupancy => exact (hbal.doDequeue hlim hquantum env _).1

theorem lead_next (hne : first ≠ second)
    (hfst : first ∈ state.oldFlows ∧ first ∈ (call.next cfg classifier state).oldFlows)
    (hsnd : second ∈ state.oldFlows ∧ second ∈ (call.next cfg classifier state).oldFlows) :
    (call.next cfg classifier state).lead cfg first second +
      (call.sent cfg state first - call.sent cfg state second) = state.lead cfg first second := by
  cases call with
  | enqueue env occupancy item =>
    obtain ⟨-, hold, hdef⟩ := @Balanced.doEnqueue cfg classifier limit state hbal
      hpos hquantum env occupancy item hsz
    dsimp only [FqCoDelCall.next, FqCoDelCall.sent]
    rw [lead, lead, hold, hdef first hfst.1, hdef second hsnd.1]
    simp
  | dequeue env occupancy =>
    exact (hbal.doDequeue hlim hquantum env _).2 first second hne hfst hsnd

end

theorem exists_lead_eq (hpos : 1 ≤ cfg.quantum) (hquantum : cfg.quantum < 2 ^ 31)
    (hlim : limit ≤ maxCharge) (hne : first ≠ second) (calls : List FqCoDelCall)
    (hbal : Balanced cfg limit state) (hsizes : ∀ call ∈ calls, call.size ≤ limit)
    (hstay : ∀ later ∈ visited cfg classifier calls state,
      first ∈ later.oldFlows ∧ second ∈ later.oldFlows) :
    ∃ last,
      Balanced cfg limit last ∧ first ∈ last.oldFlows ∧ second ∈ last.oldFlows ∧
        last.lead cfg first second +
          (sentIn cfg classifier first calls state - sentIn cfg classifier second calls state) =
          state.lead cfg first second := by
  induction calls generalizing state with
  | nil =>
    obtain ⟨hfst, hsnd⟩ := hstay state mem_cons_self
    exact ⟨state, hbal, hfst, hsnd, by simp [sentIn]⟩
  | cons call calls ih =>
    obtain ⟨hfst, hsnd⟩ := hstay state mem_cons_self
    have hlater : ∀ later ∈ visited cfg classifier calls (call.next cfg classifier state),
        first ∈ later.oldFlows ∧ second ∈ later.oldFlows :=
      fun later hmem => hstay later (.tail _ hmem)
    obtain ⟨hfirstNext, hsecondNext⟩ := hlater _ (start_mem_visited calls _)
    have hsz := hsizes call mem_cons_self
    have hnext := lead_next hbal hpos hquantum hlim hsz hne ⟨hfst, hfirstNext⟩
      ⟨hsnd, hsecondNext⟩
    obtain ⟨last, hlast, hone, htwo, hlead⟩ :=
      ih (balanced_next hbal hpos hquantum hlim hsz)
        (fun later hmem => hsizes later (.tail _ hmem)) hlater
    refine ⟨last, hlast, hone, htwo, ?_⟩
    rw [← hnext, ← hlead, sentIn, sentIn]
    push_cast
    omega

/-- While no packet is too large for the signed words, the flows get fair shares. -/
theorem fair_of_sizes (hpos : 1 ≤ cfg.quantum) (hquantum : cfg.quantum < 2 ^ 31)
    (hlim : limit ≤ maxCharge) {start : FqCoDelState}
    (hreach : (machine cfg classifier).ReachableUnder (fun _ call => call.size ≤ limit) start)
    (calls : List FqCoDelCall) (hsizes : ∀ call ∈ calls, call.size ≤ limit) :
    Fair cfg classifier limit start calls := by
  have hstart : Balanced cfg limit start := by
    refine hreach.invariant (balanced_init cfg limit) ?_
    intro state call next hbal hsz hstep
    cases hstep
    exact balanced_next hbal hpos hquantum hlim hsz
  have hvisited : ∀ state ∈ visited cfg classifier calls start, Balanced cfg limit state := by
    clear hreach
    induction calls generalizing start with
    | nil =>
      intro state hmem
      rw [List.mem_singleton.mp hmem]
      exact hstart
    | cons call calls ih =>
      intro state hmem
      rcases List.mem_cons.mp hmem with rfl | hlater
      · exact hstart
      · exact ih (fun later hmem => hsizes later (.tail _ hmem))
          (balanced_next hstart hpos hquantum hlim (hsizes call List.mem_cons_self)) state
          hlater
  refine ⟨fun state hmem => (hvisited state hmem).deficit, fun first second hstay => ?_⟩
  by_cases hne : first = second
  · subst hne
    simp
  · obtain ⟨last, hlast, hone, htwo, hlead⟩ :=
      exists_lead_eq hpos hquantum hlim hne calls hstart hsizes hstay
    obtain ⟨hfst, hsnd⟩ := hstay start (start_mem_visited calls start)
    have hpre := hstart.deficit first (.inr hfst)
    have hbefore' := hstart.deficit second (.inr hsnd)
    have hafter := hlast.deficit first (.inr hone)
    have hafter' := hlast.deficit second (.inr htwo)
    have hahead := ahead_le_one start.oldFlows first second
    have hahead' := ahead_le_one last.oldFlows first second
    unfold lead at hlead
    generalize ahead start.oldFlows first second = aheadStart at *
    generalize ahead last.oldFlows first second = aheadLast at *
    obtain rfl | rfl : aheadStart = 0 ∨ aheadStart = 1 := by omega
    · obtain rfl | rfl : aheadLast = 0 ∨ aheadLast = 1 := by omega
      · omega
      · omega
    · obtain rfl | rfl : aheadLast = 0 ∨ aheadLast = 1 := by omega
      · omega
      · omega

/-! ## Two flows -/

def twoQueues : FqCoDelConfig := { twoWays with enableSetAssociativeHash := false }

def arrival (occupancy : Occupancy) (uid size queue : Nat) : FqCoDelCall :=
  .enqueue ⟨0, ()⟩ occupancy ⟨⟨⟨uid, size, queue⟩, 0⟩, none, 0⟩

def evenStart : List FqCoDelCall :=
  [arrival ⟨0, 0⟩ 0 100 0, arrival ⟨1, 100⟩ 1 100 1, arrival ⟨2, 200⟩ 2 100 0,
    arrival ⟨3, 300⟩ 3 100 0, arrival ⟨4, 400⟩ 4 100 1, arrival ⟨5, 500⟩ 5 100 1,
    .dequeue ⟨1, ()⟩ ⟨6, 600⟩, .dequeue ⟨1, ()⟩ ⟨5, 500⟩, .dequeue ⟨1, ()⟩ ⟨4, 400⟩]

theorem fair_of_sizes_even :
    ∃ start,
      (machine twoQueues byTxQueue).run evenStart .init = .ok start ∧
        (∀ state ∈ visited twoQueues byTxQueue [.dequeue ⟨2, ()⟩ ⟨3, 300⟩] start,
          0 ∈ state.oldFlows ∧ 1 ∈ state.oldFlows) ∧
        Fair twoQueues byTxQueue 100 start [.dequeue ⟨2, ()⟩ ⟨3, 300⟩] := by
  refine ⟨_, rfl, by decide +kernel, ?_⟩
  apply fair_of_sizes (by decide) (by decide) (by decide) _ _ (by decide)
  have hsizes : ∀ call ∈ evenStart, call.size ≤ 100 := by decide
  exact Transition.Machine.ReachableUnder.run .init (fun call hmem _ => hsizes call hmem) rfl

/-- After a quantum of each flow, the first one has packets of the largest size there is. -/
def hugeStart : List FqCoDelCall :=
  [arrival ⟨0, 0⟩ 0 100 0, arrival ⟨1, 100⟩ 1 100 1, arrival ⟨2, 200⟩ 2 4294967295 0,
    arrival ⟨3, 199⟩ 3 4294967295 0, arrival ⟨4, 198⟩ 4 4294967295 0,
    arrival ⟨5, 197⟩ 5 4294967295 0, arrival ⟨6, 196⟩ 6 4294967295 0, arrival ⟨7, 195⟩ 7 100 1,
    .dequeue ⟨1, ()⟩ ⟨8, 295⟩, .dequeue ⟨1, ()⟩ ⟨7, 195⟩, .dequeue ⟨1, ()⟩ ⟨6, 95⟩]

def hugeCalls : List FqCoDelCall :=
  [.dequeue ⟨2, ()⟩ ⟨5, 96⟩, .dequeue ⟨2, ()⟩ ⟨4, 97⟩, .dequeue ⟨2, ()⟩ ⟨3, 98⟩]

/-- Each of these packets is charged as a credit of one byte. -/
theorem unfair_hugePackets :
    ∃ start,
      (machine twoQueues byTxQueue).run hugeStart .init = .ok start ∧
        (∀ call ∈ hugeStart ++ hugeCalls, call.size ≤ 2 ^ 32 - 1) ∧
        (∀ state ∈ visited twoQueues byTxQueue hugeCalls start, ∀ pos ∈ [0, 1],
          pos ∈ state.oldFlows ∧ state.queues[pos]? ≠ some []) ∧
        ¬ Fair twoQueues byTxQueue (2 ^ 32 - 1) start hugeCalls := by
  refine ⟨_, rfl, by decide, by decide +kernel, fun hfair => ?_⟩
  have hshares := hfair.shares 0 1 (by decide +kernel)
  revert hshares
  decide +kernel

end FqCoDelQueueDisc

end HomaSird.TrafficControl
