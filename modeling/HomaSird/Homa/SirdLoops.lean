import HomaSird.Control.Aimd
import HomaSird.Homa.SirdLedger

/-! # The control loops of a SIRD receiver

The maps of `SirdState` hold two loops for every sender: CE marks drive the net budget, CSN marks
the host budget. A DATA packet is one item of both loops of its sender, and nothing else moves
them.
-/

namespace HomaSird.Homa

open Transition Transition.Machine Control

/-- What a DATA packet reports: congestion in the network, or at its sender. -/
inductive Signal where
  | ce
  | csn
deriving DecidableEq

/-- The attributes of the loops, as their checkers allow. The loops read neither step. -/
structure SirdConfig extends Config where
  sirdEcnAiStep : ℚ
  sirdSenderAiStep : ℚ
  alphaGain_nonneg : 0 ≤ sirdEcnAlphaGain
  alphaGain_le_one : sirdEcnAlphaGain ≤ 1
  ecnAiStep_nonneg : 0 ≤ sirdEcnAiStep
  senderAiStep_nonneg : 0 ≤ sirdSenderAiStep

def SirdConfig.aiStep (cfg : SirdConfig) : Signal → ℚ
  | .ce => cfg.sirdEcnAiStep
  | .csn => cfg.sirdSenderAiStep

theorem SirdConfig.aiStep_nonneg (cfg : SirdConfig)
    (signal : Signal) : 0 ≤ cfg.aiStep signal := by
  cases signal with
  | ce => exact cfg.ecnAiStep_nonneg
  | csn => exact cfg.senderAiStep_nonneg

/-- Both loops as the code runs them: they increase by one packet. -/
def Config.loopParams (cfg : Config) : Aimd.Params ℚ where
  gain := cfg.sirdEcnAlphaGain
  increase := 1
  ceiling := cfg.baseBudgetPkts
  epoch := cfg.baseBudgetPkts

theorem SirdConfig.loopParams_valid (cfg : SirdConfig) : cfg.loopParams.Valid where
  gain_nonneg := cfg.alphaGain_nonneg
  gain_le_one := cfg.alphaGain_le_one
  one_le_ceiling := SirdState.one_le_baseBudgetPkts cfg.toConfig
  epoch_pos := Nat.le_max_left 1 cfg.rttPackets

def Packet.marked (packet : Packet) : Signal → Bool
  | .ce => decide (packet.ipv4Header.ecn = .ce)
  | .csn => packet.homaHeader.hasCsn

namespace SirdState

variable {cfg : Config} {sird : SirdState}

def budgets (sird : SirdState) : Signal → UnorderedMap Ipv4Address ℚ
  | .ce => sird.senderBudgetNetPkts
  | .csn => sird.senderBudgetHostPkts

def alphas (sird : SirdState) : Signal → UnorderedMap Ipv4Address ℚ
  | .ce => sird.senderNetAlpha
  | .csn => sird.senderHostAlpha

def epochMarks (sird : SirdState) : Signal → UnorderedMap Ipv4Address Nat
  | .ce => sird.senderEpochCeMarks
  | .csn => sird.senderEpochCsnMarks

def loopOf (cfg : Config) (sird : SirdState) (signal : Signal) (sender : Ipv4Address) :
    Aimd.Loop ℚ where
  budget := (sird.budgets signal).getD sender cfg.baseBudgetPkts
  alpha := (sird.alphas signal).getD sender 0
  items := sird.senderEpochDataPkts.getD sender 0
  marks := (sird.epochMarks signal).getD sender 0

/-! ## What a DATA packet does to the loops -/

theorem loopOf_initSender (senderKey : Ipv4Address) (signal : Signal) (sender : Ipv4Address) :
    (sird.initSender cfg senderKey).loopOf cfg signal sender =
      sird.loopOf cfg signal sender := by
  cases signal with
  | ce => simp [loopOf, budgets, alphas, epochMarks, initSender, getD_initEntry]
  | csn => simp [loopOf, budgets, alphas, epochMarks, initSender, getD_initEntry]

theorem lookup_initEntry {Value : Type}
    (map : UnorderedMap Ipv4Address Value) (senderKey : Ipv4Address)
    (value : Value) : ((initEntry map senderKey value).lookup senderKey).isSome = true := by
  unfold initEntry
  split
  · simp
  next hsome => simp [hsome]

theorem getD_bump (map : UnorderedMap Ipv4Address Nat) (senderKey other : Ipv4Address)
    (flag : Bool) :
    (bump map senderKey flag).getD other 0 =
      map.getD other 0 + if other = senderKey then flag.toNat else 0 := by
  cases flag with
  | false => simp [bump]
  | true =>
    rw [bump, if_pos rfl, UnorderedMap.getD_insert]
    split
    next heq => rw [heq, Bool.toNat_true]
    · rfl

theorem loopOf_observe (senderKey : Ipv4Address) (ceMarked senderCsn : Bool) (signal : Signal)
    (sender : Ipv4Address) :
    (sird.observe cfg senderKey ceMarked senderCsn).loopOf cfg signal sender =
      if sender = senderKey then
        Aimd.count (sird.loopOf cfg signal sender)
          (match signal with | .ce => ceMarked | .csn => senderCsn)
      else sird.loopOf cfg signal sender := by
  cases signal with
  | ce =>
    by_cases heq : sender = senderKey
    · simp [loopOf, budgets, alphas, epochMarks, observe, getD_bump, Aimd.count, heq]
    · simp [loopOf, budgets, alphas, epochMarks, observe, getD_bump, heq]
  | csn =>
    by_cases heq : sender = senderKey
    · simp [loopOf, budgets, alphas, epochMarks, observe, getD_bump, Aimd.count, heq]
    · simp [loopOf, budgets, alphas, epochMarks, observe, getD_bump, heq]

theorem loopOf_reclaim (senderKey : Ipv4Address) (signal : Signal) (sender : Ipv4Address) :
    (sird.reclaim senderKey).loopOf cfg signal sender = sird.loopOf cfg signal sender := by
  unfold reclaim
  split
  · cases signal <;> rfl
  · rfl

def HasBudgets (sird : SirdState) (senderKey : Ipv4Address) : Prop :=
  ∀ signal, ((sird.budgets signal).lookup senderKey).isSome = true

theorem hasBudgets_initSender (senderKey : Ipv4Address) :
    (sird.initSender cfg senderKey).HasBudgets senderKey := by
  intro signal
  cases signal with
  | ce => exact lookup_initEntry _ _ _
  | csn => exact lookup_initEntry _ _ _

def storedLoop (sird : SirdState) (signal : Signal) (senderKey : Ipv4Address) : Aimd.Loop ℚ where
  budget := (sird.budgets signal).getD senderKey 0
  alpha := (sird.alphas signal).getD senderKey 0
  items := sird.senderEpochDataPkts.getD senderKey 0
  marks := (sird.epochMarks signal).getD senderKey 0

variable {senderKey : Ipv4Address}

theorem HasBudgets.storedLoop_eq (hbudgets : sird.HasBudgets senderKey)
    (signal : Signal) : sird.storedLoop signal senderKey = sird.loopOf cfg signal senderKey := by
  obtain ⟨budget, hbudget⟩ := Option.isSome_iff_exists.mp (hbudgets signal)
  simp [storedLoop, loopOf, UnorderedMap.getD, hbudget]

def endedLoop (cfg : Config) (sird : SirdState) (signal : Signal) (senderKey : Ipv4Address) :
    Aimd.Loop ℚ :=
  Aimd.endEpoch cfg.loopParams (sird.storedLoop signal senderKey)

theorem endEpoch_of_long
    (hlong : cfg.baseBudgetPkts ≤ sird.senderEpochDataPkts.getD senderKey 0)
    (signal : Signal) :
    let next := sird.endEpoch cfg senderKey
    let ended := sird.endedLoop cfg signal senderKey
    next.budgets signal = (sird.budgets signal).insert senderKey ended.budget ∧
      next.alphas signal = (sird.alphas signal).insert senderKey ended.alpha ∧
      next.senderEpochDataPkts = sird.senderEpochDataPkts.insert senderKey 0 ∧
      next.epochMarks signal = (sird.epochMarks signal).insert senderKey 0 := by
  intro next ended
  have hnext : next = _ := if_pos hlong
  rw [hnext]
  cases signal with
  | ce => exact ⟨rfl, rfl, rfl, rfl⟩
  | csn => exact ⟨rfl, rfl, rfl, rfl⟩

theorem loopOf_endEpoch (hbudgets : sird.HasBudgets senderKey) (signal : Signal)
    (sender : Ipv4Address) :
    (sird.endEpoch cfg senderKey).loopOf cfg signal sender =
      if sender = senderKey ∧ cfg.loopParams.epoch ≤ (sird.loopOf cfg signal sender).items then
        Aimd.endEpoch cfg.loopParams (sird.loopOf cfg signal sender)
      else sird.loopOf cfg signal sender := by
  by_cases hlong : cfg.baseBudgetPkts ≤ sird.senderEpochDataPkts.getD senderKey 0
  · obtain ⟨hbudget, halpha, hitems, hmarks⟩ := endEpoch_of_long hlong signal
    by_cases heq : sender = senderKey
    · subst heq
      rw [if_pos ⟨rfl, hlong⟩, ← hbudgets.storedLoop_eq signal]
      simp [loopOf, hbudget, halpha, hitems, hmarks, endedLoop, Aimd.endEpoch]
    · rw [if_neg fun hboth => heq hboth.1]
      simp [loopOf, hbudget, halpha, hitems, hmarks, UnorderedMap.getD_insert, heq]
  · have hsame : sird.endEpoch cfg senderKey = sird := if_neg hlong
    rw [hsame, if_neg]
    rintro ⟨rfl, hitems⟩
    exact hlong hitems

theorem loopOf_receiveData (cfg : Config) (sird : SirdState) (packet : Packet) (signal : Signal)
    (sender : Ipv4Address) :
    (sird.receiveData cfg packet).loopOf cfg signal sender =
      if sender = packet.ipv4Header.source then
        Aimd.observe cfg.loopParams (sird.loopOf cfg signal sender) (packet.marked signal)
      else sird.loopOf cfg signal sender := by
  let senderKey := packet.ipv4Header.source
  let observed := (sird.initSender cfg senderKey).observe cfg senderKey
    (packet.marked .ce) (packet.marked .csn)
  let reclaimed := if packet.payload.isEmpty then observed else observed.reclaim senderKey
  have hrecv : sird.receiveData cfg packet = reclaimed.endEpoch cfg senderKey := rfl
  have hobs : ∀ signal sender, observed.loopOf cfg signal sender =
      if sender = senderKey then
        Aimd.count (sird.loopOf cfg signal sender) (packet.marked signal)
      else sird.loopOf cfg signal sender := by
    intro signal sender
    rw [loopOf_observe, loopOf_initSender]
    cases signal <;> rfl
  have hreclaimed : ∀ signal sender,
      reclaimed.loopOf cfg signal sender = observed.loopOf cfg signal sender := by
    intro signal sender
    dsimp only [reclaimed]
    split
    · rfl
    · exact loopOf_reclaim senderKey signal sender
  have hbudgets : reclaimed.HasBudgets senderKey := by
    intro signal
    have hinit : ((sird.initSender cfg senderKey).HasBudgets senderKey) :=
      hasBudgets_initSender senderKey
    dsimp only [reclaimed, reclaim]
    cases signal with
    | ce => split_ifs <;> exact hinit .ce
    | csn => split_ifs <;> exact hinit .csn
  rw [hrecv, loopOf_endEpoch hbudgets, hreclaimed, hobs]
  by_cases hsender : sender = senderKey
  · rw [if_pos hsender, if_pos hsender]
    simp only [hsender, true_and]
    rfl
  · simp only [hsender, false_and, if_false]
    exact (if_neg hsender).symm

structure LoopsBounded (cfg : Config) (sird : SirdState) : Prop where
  loops : ∀ signal sender, Aimd.Within cfg.loopParams (sird.loopOf cfg signal sender)
  ewma : 0 ≤ sird.ceRatioEwma ∧ sird.ceRatioEwma ≤ 1

theorem loopsBounded_initial (cfg : SirdConfig) : initial.LoopsBounded cfg.toConfig := by
  refine ⟨?_, le_rfl, zero_le_one⟩
  intro signal sender
  have hstart : initial.loopOf cfg.toConfig signal sender =
      Aimd.start cfg.loopParams := by
    cases signal <;> rfl
  rw [hstart]
  exact Aimd.within_start cfg.loopParams_valid

theorem ceRatioEwma_receiveData (cfg : Config) (sird : SirdState) (packet : Packet) :
    (sird.receiveData cfg packet).ceRatioEwma =
      smooth cfg.sirdEcnAlphaGain sird.ceRatioEwma (if packet.marked .ce then 1 else 0) := by
  have hepoch : ∀ (state : SirdState) (senderKey : Ipv4Address),
      (state.endEpoch cfg senderKey).ceRatioEwma = state.ceRatioEwma := by
    intro state senderKey
    unfold endEpoch
    dsimp only
    split <;> rfl
  have hreclaim : ∀ (state : SirdState) (senderKey : Ipv4Address),
      (state.reclaim senderKey).ceRatioEwma = state.ceRatioEwma := by
    intro state senderKey
    unfold reclaim
    split <;> rfl
  unfold receiveData
  dsimp only
  rw [hepoch]
  split
  · rfl
  · exact hreclaim _ _

theorem loopsBounded_receiveData (cfg : SirdConfig) (hbd : sird.LoopsBounded cfg.toConfig)
    (packet : Packet) : (sird.receiveData cfg.toConfig packet).LoopsBounded cfg.toConfig := by
  refine ⟨?_, ?_⟩
  · intro signal sender
    rw [loopOf_receiveData]
    split
    · exact Aimd.within_observe cfg.loopParams_valid (hbd.loops signal sender) _
    · exact hbd.loops signal sender
  · rw [ceRatioEwma_receiveData]
    apply smooth_mem ⟨cfg.alphaGain_nonneg, cfg.alphaGain_le_one⟩ hbd.ewma
    split
    · exact ⟨zero_le_one, le_rfl⟩
    · exact ⟨le_rfl, zero_le_one⟩

structure SameLoops (cfg : Config) (before after : SirdState) : Prop where
  loops : ∀ signal sender, after.loopOf cfg signal sender = before.loopOf cfg signal sender
  ewma : after.ceRatioEwma = before.ceRatioEwma

theorem SameLoops.refl (cfg : Config) (sird : SirdState) : SameLoops cfg sird sird :=
  ⟨fun _ _ => rfl, rfl⟩

theorem SameLoops.trans {first second third : SirdState} (hfst : SameLoops cfg first second)
    (hsnd : SameLoops cfg second third) : SameLoops cfg first third :=
  ⟨fun signal sender => (hsnd.loops signal sender).trans (hfst.loops signal sender),
    hsnd.ewma.trans hfst.ewma⟩

theorem SameLoops.bounded {before after : SirdState} (hsame : SameLoops cfg before after)
    (hbd : before.LoopsBounded cfg) : after.LoopsBounded cfg := by
  refine ⟨fun signal sender => ?_, ?_⟩
  · rw [hsame.loops]
    exact hbd.loops signal sender
  · rw [hsame.ewma]
    exact hbd.ewma

theorem sameLoops_openAccount (senderKey : Ipv4Address) :
    SameLoops cfg sird (sird.openAccount senderKey) :=
  ⟨fun signal _ => by cases signal <;> rfl, rfl⟩

theorem sameLoops_charge (senderKey : Ipv4Address) :
    SameLoops cfg sird (sird.charge senderKey) :=
  ⟨fun signal _ => by cases signal <;> rfl, rfl⟩

end SirdState

/-! ## The loops along the runs of a receiver -/

namespace HomaRecvScheduler

variable {cfg : Config} {sched next : HomaRecvScheduler} {events : List Event}

open SirdState

theorem sameLoops_visit {busySenders : Finset Ipv4Address} {before after : GrantRound}
    {currentMsg msg : HomaInboundMsg}
    (hvisit : GrantRound.Visit cfg busySenders before currentMsg after msg) :
    SameLoops cfg before.sird after.sird := by
  cases hvisit with
  | pass =>
    rw [GrantRound.clampPrio_sird]
    exact .refl cfg before.sird
  | hold => exact sameLoops_openAccount _
  | homaGrant =>
    have hsird : ((before.clampPrio cfg).issue
        (currentMsg.setCurrentlyScheduled false)).1.sird = before.sird :=
      GrantRound.clampPrio_sird before
    rw [hsird]
    exact .refl cfg before.sird
  | sirdGrant => exact (sameLoops_openAccount _).trans (sameLoops_charge _)

theorem sameLoops_loop {busySenders : Finset Ipv4Address} (msgs : List HomaInboundMsg)
    (round : GrantRound) :
    SameLoops cfg round.sird (GrantRound.loop (grantStep cfg busySenders) round msgs).1.sird := by
  induction msgs generalizing round with
  | nil => exact .refl cfg round.sird
  | cons msg rest ih =>
    have hvisit := GrantRound.grantStep_visit cfg busySenders round msg
    exact (sameLoops_visit hvisit).trans (ih _)

theorem sird_expireRtxTimeout {timer : Nat} (hexpire :
    sched.expireRtxTimeout cfg timer = .ok (next, events)) : next.sird = sched.sird := by
  unfold expireRtxTimeout at hexpire
  split at hexpire
  · cases hexpire
  · split at hexpire
    · cases hexpire
    · dsimp only at hexpire
      -- every branch keeps the credits: it stores a message or drops one
      repeat' split at hexpire
      all_goals
        obtain ⟨rfl, -⟩ := Prod.mk.inj (Except.ok.inj hexpire)
        rfl

def dataOf : RecvInput → Option Packet
  | .packet packet => if packet.hasFlag .data then some packet else none
  | .creditTick => none
  | .rtxExpire _ => none

theorem sird_handle (hsird : cfg.sirdEnabled = true) {input : RecvInput}
    (hhandle : sched.handle cfg input = .ok (next, events)) :
    SameLoops cfg ((dataOf input).elim sched.sird (sched.sird.receiveData cfg)) next.sird := by
  cases input with
  | packet packet =>
    have hrecv := (handle_packet hhandle).2
    by_cases hdata : packet.hasFlag .data = true
    · obtain ⟨inboundMsg, others, hgot⟩ := receivePacket_data hdata hrecv
      rw [hgot.sird_eq, fedSird, if_pos hsird, dataOf, if_pos hdata]
      exact .refl cfg _
    · obtain ⟨-, -, hsame, -⟩ := receivePacket_not_data (by simpa using hdata) hrecv
      rw [hsame, dataOf, if_neg hdata]
      exact .refl cfg _
  | creditTick =>
    obtain ⟨-, rfl, -⟩ := handle_creditTick hhandle
    exact sameLoops_loop sched.inboundMsgs (GrantRound.start cfg sched.sird)
  | rtxExpire timer =>
    rw [sird_expireRtxTimeout hhandle]
    exact .refl cfg sched.sird

end HomaRecvScheduler

end HomaSird.Homa
