import HomaSird.Credit.Ledger
import HomaSird.Homa.ReceiverStep

/-! # The receiver's credits are a bounded ledger

Every receiver mirrors a credit ledger whose account limit is one BDP and whose total limit is the
credit budget: a GRANT is a charge, an arriving payload a reclaim. Budgets that shrink only stop
further charges.
-/

namespace HomaSird.Homa

open Transition Transition.Machine Credit SirdState UnorderedMap

namespace SirdState

variable {cfg : Config} {sird : SirdState}

/-! ## The credits in use after each operation -/

theorem getD_initEntry {Value : Type}
    (map : UnorderedMap Ipv4Address Value) (senderKey other : Ipv4Address)
    (value : Value) : (initEntry map senderKey value).getD other value = map.getD other value := by
  unfold initEntry
  split
  next hnone =>
    rw [getD_insert]
    split
    next hsame => rw [hsame, getD, hnone, Option.getD_none]
    · rfl
  · rfl

@[simp] theorem creditsInUse_openAccount (sird : SirdState) (senderKey other : Ipv4Address) :
    (sird.openAccount senderKey).creditsInUse other = sird.creditsInUse other :=
  getD_initEntry _ _ _ _

theorem creditsInUse_charge (sird : SirdState) (senderKey other : Ipv4Address) :
    (sird.charge senderKey).creditsInUse other =
      if other = senderKey then sird.creditsInUse senderKey + 1 else sird.creditsInUse other :=
  getD_insert _ _ _ _ _

theorem creditsInUse_reclaim (sird : SirdState) (senderKey other : Ipv4Address) :
    (sird.reclaim senderKey).creditsInUse other =
      if other = senderKey then sird.creditsInUse senderKey - 1 else sird.creditsInUse other := by
  unfold reclaim
  split
  · exact getD_insert _ _ _ _ _
  next hzero =>
    split
    next hsame =>
      subst hsame
      omega
    · rfl

structure SameCredits (before after : SirdState) : Prop where
  credits_eq : after.senderCreditsInUsePkts = before.senderCreditsInUsePkts
  global_eq : after.globalCreditsInUsePkts = before.globalCreditsInUsePkts

theorem sameCredits_endEpoch (cfg : Config) (sird : SirdState)
    (senderKey : Ipv4Address) : SameCredits sird (sird.endEpoch cfg senderKey) := by
  unfold endEpoch
  dsimp only
  split
  · exact ⟨rfl, rfl⟩
  · exact ⟨rfl, rfl⟩

theorem sameCredits_reclaim {before after : SirdState} (hsame : SameCredits before after)
    (senderKey : Ipv4Address) :
    SameCredits (before.reclaim senderKey) (after.reclaim senderKey) := by
  obtain ⟨hcred, hglobal⟩ := hsame
  unfold reclaim creditsInUse
  rw [hcred, hglobal]
  by_cases hpos : 0 < before.senderCreditsInUsePkts.getD senderKey 0
  · simp only [hpos, if_true]
    exact ⟨rfl, rfl⟩
  · simp only [hpos, if_false]
    exact ⟨hcred, hglobal⟩

theorem SameCredits.trans {first second third : SirdState} (hfst : SameCredits first second)
    (hsnd : SameCredits second third) : SameCredits first third :=
  ⟨hsnd.credits_eq.trans hfst.credits_eq, hsnd.global_eq.trans hfst.global_eq⟩

theorem sameCredits_receiveData (cfg : Config) (sird : SirdState) (packet : Packet) :
    SameCredits (if packet.payload = [] then sird else sird.reclaim packet.ipv4Header.source)
      (sird.receiveData cfg packet) := by
  have hepoch := fun state => sameCredits_endEpoch cfg state packet.ipv4Header.source
  have hobs : SameCredits sird ((sird.initSender cfg packet.ipv4Header.source).observe
      cfg packet.ipv4Header.source (decide (packet.ipv4Header.ecn = .ce))
      packet.homaHeader.hasCsn) := ⟨rfl, rfl⟩
  simp only [receiveData, List.isEmpty_iff]
  split
  · exact hobs.trans (hepoch _)
  · exact (sameCredits_reclaim hobs _).trans (hepoch _)

/-! ## Budgets stay within a BDP -/

structure BudgetsWithin (cfg : Config) (sird : SirdState) : Prop where
  net : ∀ sender budget, sird.senderBudgetNetPkts.lookup sender = some budget →
    budget ≤ cfg.baseBudgetPkts
  host : ∀ sender budget, sird.senderBudgetHostPkts.lookup sender = some budget →
    budget ≤ cfg.baseBudgetPkts

theorem one_le_baseBudgetPkts (cfg : Config) : (1 : ℚ) ≤ cfg.baseBudgetPkts := by
  exact_mod_cast Nat.le_max_left 1 cfg.rttPackets

theorem clampBudget_le (cfg : Config)
    (budget : ℚ) : clampBudget cfg budget ≤ cfg.baseBudgetPkts :=
  max_le (one_le_baseBudgetPkts cfg) (min_le_left _ _)

theorem forall_initEntry {Value : Type} {map : UnorderedMap Ipv4Address Value}
    {holds : Value → Prop} {senderKey : Ipv4Address} {value : Value}
    (hmap : ∀ other stored, map.lookup other = some stored → holds stored) (hval : holds value)
    {other : Ipv4Address} {stored : Value}
    (hlook : (initEntry map senderKey value).lookup other = some stored) :
    holds stored := by
  unfold initEntry at hlook
  split at hlook
  · exact forall_insert hmap hval hlook
  · exact hmap other stored hlook

theorem budgetsWithin_receiveData (hwithin : sird.BudgetsWithin cfg)
    (packet : Packet) : (sird.receiveData cfg packet).BudgetsWithin cfg := by
  have hobs : ((sird.initSender cfg packet.ipv4Header.source).observe cfg
      packet.ipv4Header.source (decide (packet.ipv4Header.ecn = .ce))
      packet.homaHeader.hasCsn).BudgetsWithin cfg :=
    ⟨fun _ _ => forall_initEntry hwithin.net le_rfl,
      fun _ _ => forall_initEntry hwithin.host le_rfl⟩
  have hreclaim : ∀ state : SirdState, state.BudgetsWithin cfg →
      (state.reclaim packet.ipv4Header.source).BudgetsWithin cfg := by
    intro state hst
    unfold reclaim
    split
    · exact ⟨hst.net, hst.host⟩
    · exact hst
  have hepoch : ∀ state : SirdState, state.BudgetsWithin cfg →
      (state.endEpoch cfg packet.ipv4Header.source).BudgetsWithin cfg := by
    intro state hst
    unfold endEpoch
    dsimp only
    split
    · exact ⟨fun _ _ => forall_insert hst.net (clampBudget_le _ _),
        fun _ _ => forall_insert hst.host (clampBudget_le _ _)⟩
    · exact hst
  unfold receiveData
  dsimp only
  split
  · exact hepoch _ hobs
  · exact hepoch _ (hreclaim _ hobs)

theorem getD_le_base {map : UnorderedMap Ipv4Address ℚ} (hmap : ∀ sender budget,
    map.lookup sender = some budget → budget ≤ cfg.baseBudgetPkts) (senderKey : Ipv4Address) :
    map.getD senderKey cfg.baseBudgetPkts ≤ cfg.baseBudgetPkts := by
  unfold getD
  cases hlook : map.lookup senderKey with
  | none => exact le_rfl
  | some budget => exact hmap senderKey budget hlook

theorem senderBudgetPkts_le (hwithin : sird.BudgetsWithin cfg)
    (senderKey : Ipv4Address) : sird.senderBudgetPkts cfg senderKey ≤ cfg.baseBudgetPkts := by
  have hnet := getD_le_base hwithin.net senderKey
  have hle : max 1 (min (sird.senderBudgetNetPkts.getD senderKey (cfg.baseBudgetPkts : ℚ))
      (sird.senderBudgetHostPkts.getD senderKey (cfg.baseBudgetPkts : ℚ))) ≤
      ((cfg.baseBudgetPkts : ℤ) : ℚ) :=
    max_le (by exact_mod_cast one_le_baseBudgetPkts cfg)
      ((min_le_left _ _).trans (by exact_mod_cast hnet))
  have hfloor := Rat.floor_monotone hle
  rw [Rat.floor_intCast] at hfloor
  simp only [senderBudgetPkts]
  omega

/-! ## The ledger -/

structure Mirrors (sird : SirdState) (ledger : Ledger Ipv4Address) : Prop where
  accounts_eq : ledger.accounts = sird.senderCreditsInUsePkts
  total_eq : ledger.total = sird.globalCreditsInUsePkts

section

variable {ledger : Ledger Ipv4Address} (hmirrors : sird.Mirrors ledger) (senderKey : Ipv4Address)
include hmirrors

theorem Mirrors.held_eq : ledger.held senderKey = sird.creditsInUse senderKey := by
  rw [Ledger.held, hmirrors.accounts_eq, creditsInUse]

theorem mirrors_reclaim : (sird.reclaim senderKey).Mirrors (ledger.reclaim senderKey) := by
  have hheld := hmirrors.held_eq senderKey
  unfold reclaim
  split
  next hpos =>
    have hglobal : 0 < sird.globalCreditsInUsePkts := by
      have hle := ledger.held_le_total senderKey
      have htotal := hmirrors.total_eq
      omega
    refine ⟨?_, ?_⟩
    · rw [Ledger.accounts_reclaim (hheld ▸ hpos), hmirrors.accounts_eq, hheld]
    · rw [Ledger.total_reclaim (hheld ▸ hpos), hmirrors.total_eq, if_pos hglobal]
  next hzero =>
    rw [Ledger.reclaim_of_held_eq_zero (by omega)]
    exact hmirrors

theorem mirrors_charge : (sird.charge senderKey).Mirrors (ledger.charge senderKey) := by
  have hheld := hmirrors.held_eq senderKey
  refine ⟨?_, ?_⟩
  · simp only [charge, Ledger.charge, hmirrors.accounts_eq, hheld]
  · simp only [charge, Ledger.charge, hmirrors.total_eq]

end

/-- The state is that of a ledger run within all limits, and no budget exceeds the account limit.
-/
structure Bounded (cfg : Config) (sird : SirdState) : Prop where
  budgets : sird.BudgetsWithin cfg
  ledger : ∃ ledger, (Ledger.machine cfg.baseBudgetPkts cfg.globalBudgetPkts).Reachable
    ledger ∧ sird.Mirrors ledger

theorem bounded_initial (cfg : Config) : initial.Bounded cfg := by
  refine ⟨⟨?_, ?_⟩, Ledger.empty, .init, rfl, rfl⟩
  · intro sender budget hlook
    cases hlook
  · intro sender budget hlook
    cases hlook

theorem bounded_receiveData (hbd : sird.Bounded cfg)
    (packet : Packet) : (sird.receiveData cfg packet).Bounded cfg := by
  refine ⟨budgetsWithin_receiveData hbd.budgets packet, ?_⟩
  obtain ⟨ledger, hreach, hmirrors⟩ := hbd.ledger
  have hcred := sameCredits_receiveData cfg sird packet
  by_cases hempty : packet.payload = []
  · rw [if_pos hempty] at hcred
    exact ⟨ledger, hreach, hmirrors.accounts_eq.trans hcred.credits_eq.symm,
      hmirrors.total_eq.trans hcred.global_eq.symm⟩
  · rw [if_neg hempty] at hcred
    have hnext := mirrors_reclaim hmirrors packet.ipv4Header.source
    have hstep : (Ledger.machine cfg.baseBudgetPkts cfg.globalBudgetPkts).step ledger
        (.reclaim packet.ipv4Header.source) = .ok (ledger.reclaim packet.ipv4Header.source) := rfl
    refine ⟨ledger.reclaim packet.ipv4Header.source, hreach.step trivial hstep, ?_⟩
    exact ⟨hnext.accounts_eq.trans hcred.credits_eq.symm, hnext.total_eq.trans hcred.global_eq.symm⟩

theorem bounded_openAccount (hbd : sird.Bounded cfg)
    (senderKey : Ipv4Address) : (sird.openAccount senderKey).Bounded cfg := by
  refine ⟨⟨hbd.budgets.net, hbd.budgets.host⟩, ?_⟩
  obtain ⟨ledger, hreach, hmirrors⟩ := hbd.ledger
  unfold openAccount initEntry
  split
  next hnone =>
    have hzero : sird.creditsInUse senderKey = 0 := by
      rw [creditsInUse, getD, hnone, Option.getD_none]
    have hstep : (Ledger.machine cfg.baseBudgetPkts cfg.globalBudgetPkts).step ledger
        (.openAccount senderKey) = .ok (ledger.openAccount senderKey) := rfl
    refine ⟨ledger.openAccount senderKey, hreach.step trivial hstep, ?_, hmirrors.total_eq⟩
    rw [← hzero, ← hmirrors.held_eq, ← hmirrors.accounts_eq]
    rfl
  · exact ⟨ledger, hreach, hmirrors⟩

theorem bounded_charge (hbd : sird.Bounded cfg) {senderKey : Ipv4Address} (hcredit :
    sird.hasCredit cfg senderKey = true) : (sird.charge senderKey).Bounded cfg := by
  refine ⟨⟨hbd.budgets.net, hbd.budgets.host⟩, ?_⟩
  obtain ⟨ledger, hreach, hmirrors⟩ := hbd.ledger
  have hbudget := senderBudgetPkts_le hbd.budgets senderKey
  simp only [hasCredit, Bool.and_eq_true, decide_eq_true_eq] at hcredit
  have haccount : ¬ cfg.baseBudgetPkts ≤ ledger.held senderKey := by
    rw [hmirrors.held_eq]
    omega
  have htotal : ¬ cfg.globalBudgetPkts ≤ ledger.total := by
    rw [hmirrors.total_eq]
    omega
  have hstep : (Ledger.machine cfg.baseBudgetPkts cfg.globalBudgetPkts).step ledger
      (.charge senderKey) = .ok (ledger.charge senderKey) := by
    simp [Ledger.machine, Ledger.apply, haccount, htotal]
  exact ⟨ledger.charge senderKey, hreach.step trivial hstep, mirrors_charge hmirrors senderKey⟩

end SirdState

namespace HomaRecvScheduler

variable {cfg : Config} {sched next : HomaRecvScheduler} {events : List Event}

theorem bounded_visit {busySenders : Finset Ipv4Address} {before after : GrantRound}
    {currentMsg msg : HomaInboundMsg} (hbd : before.sird.Bounded cfg)
    (hvisit : GrantRound.Visit cfg busySenders before currentMsg after msg) :
    after.sird.Bounded cfg := by
  cases hvisit with
  | pass => simpa using hbd
  | hold => exact bounded_openAccount hbd _
  | homaGrant => simpa [GrantRound.issue] using hbd
  | sirdGrant _ _ _ hcredit =>
    exact bounded_charge (bounded_openAccount hbd _) hcredit

theorem bounded_loop {busySenders : Finset Ipv4Address}
    {round : GrantRound} (msgs : List HomaInboundMsg) (hbd : round.sird.Bounded cfg) :
    (GrantRound.loop (grantStep cfg busySenders) round msgs).1.sird.Bounded cfg := by
  induction msgs generalizing round with
  | nil => exact hbd
  | cons msg rest ih =>
    have hvisit := GrantRound.grantStep_visit cfg busySenders round msg
    exact ih (bounded_visit hbd hvisit)

theorem bounded_handle (hwf : sched.WellFormed cfg)
    (hbd : sched.sird.Bounded cfg) {input : RecvInput}
    (hhandle : sched.handle cfg input = .ok (next, events)) : next.sird.Bounded cfg := by
  cases handled hwf hhandle with
  | @data packet _ inboundMsg others hdata hgot =>
    rw [hgot.sird_eq, fedSird]
    split
    · exact bounded_receiveData hbd packet
    · exact hbd
  | control _ _ hsird =>
    exact hsird ▸ hbd
  | creditTick hnext =>
    subst hnext
    exact bounded_loop sched.inboundMsgs hbd
  | rtxExpire hexpired =>
    cases hexpired with
    | dropped _ _ hnext => exact hnext ▸ hbd
    | rearmed _ _ _ hnext => exact hnext ▸ hbd

end HomaRecvScheduler

namespace Receiver

open HomaRecvScheduler

variable {cfg : Config}

theorem bounded_of_reachable {allowed : Receiver → RecvInput → Prop} {receiver : Receiver} (hreach :
    (machine cfg).ReachableUnder allowed receiver) : receiver.sched.sird.Bounded cfg := by
  apply hreach.invariant_of (fun _ => wellFormed_of_reachable)
  · exact bounded_initial cfg
  · intro state input next hwf hbd _ hstep
    obtain ⟨events, hhandle, -⟩ := step_eq_ok hstep
    exact bounded_handle hwf hbd hhandle

theorem sameCredits_packet {receiver next : Receiver} {packet : Packet}
    (hstep : (machine cfg).step receiver (.packet packet) = .ok next) :
    SirdState.SameCredits receiver.sched.sird next.sched.sird ∨
      SirdState.SameCredits (receiver.sched.sird.reclaim packet.ipv4Header.source)
        next.sched.sird := by
  obtain ⟨events, hhandle, -⟩ := step_eq_ok hstep
  have hrecv := (handle_packet hhandle).2
  by_cases hdata : packet.hasFlag .data = true
  · obtain ⟨inboundMsg, others, hgot⟩ := receivePacket_data hdata hrecv
    rw [hgot.sird_eq, fedSird]
    split
    · have hcred := sameCredits_receiveData cfg receiver.sched.sird packet
      split at hcred
      · exact Or.inl hcred
      · exact Or.inr hcred
    · exact Or.inl ⟨rfl, rfl⟩
  · obtain ⟨-, -, hsird, -⟩ := receivePacket_not_data (by simpa using hdata) hrecv
    rw [hsird]
    exact Or.inl ⟨rfl, rfl⟩

theorem SameCredits.creditsInUse_eq {before after : SirdState}
    (hsame : SirdState.SameCredits before after) (sender : Ipv4Address) :
    after.creditsInUse sender = before.creditsInUse sender := by
  rw [creditsInUse, hsame.credits_eq, creditsInUse]

theorem credits_packet {receiver next : Receiver} {packet : Packet}
    (hbd : receiver.sched.sird.Bounded cfg)
    (hstep : (machine cfg).step receiver (.packet packet) = .ok next) :
    ∃ reclaimed ≤ 1,
      receiver.sched.sird.globalCreditsInUsePkts =
        next.sched.sird.globalCreditsInUsePkts + reclaimed ∧
        ∀ sender, receiver.sched.sird.creditsInUse sender = next.sched.sird.creditsInUse sender +
              if sender = packet.ipv4Header.source then reclaimed else 0 := by
  obtain ⟨ledger, -, hmirrors⟩ := hbd.ledger
  have hle := ledger.held_le_total packet.ipv4Header.source
  rw [hmirrors.held_eq, hmirrors.total_eq] at hle
  rcases sameCredits_packet hstep with hsame | hsame
  · refine ⟨0, Nat.zero_le 1, hsame.global_eq.symm, fun sender => ?_⟩
    rw [SameCredits.creditsInUse_eq hsame, ite_self, Nat.add_zero]
  · by_cases hpos : 0 < receiver.sched.sird.creditsInUse packet.ipv4Header.source
    · refine ⟨1, le_rfl, ?_, fun sender => ?_⟩
      · rw [hsame.global_eq, reclaim, if_pos hpos]
        dsimp only
        split <;> omega
      · rw [SameCredits.creditsInUse_eq hsame, creditsInUse_reclaim]
        split
        next heq =>
          subst heq
          omega
        · rfl
    · refine ⟨0, Nat.zero_le 1, ?_, fun sender => ?_⟩
      · rw [hsame.global_eq, reclaim, if_neg hpos, Nat.add_zero]
      · rw [SameCredits.creditsInUse_eq hsame, reclaim, if_neg hpos, ite_self,
          Nat.add_zero]

/-- In every reachable state the global counter is the sum of the sender counters, no sender holds
more than a BDP and all together no more than the budget; and a packet that arrives then takes the
same off the global counter as off its sender's, and nothing off the others. -/
theorem sird_ledger_consistent {receiver : Receiver}
    (hreachable : (machine cfg).Reachable receiver) :
    receiver.sched.sird.globalCreditsInUsePkts = receiver.sched.sird.senderCreditsInUsePkts.total ∧
      (∀ sender, receiver.sched.sird.creditsInUse sender ≤ max 1 cfg.rttPackets) ∧
      receiver.sched.sird.globalCreditsInUsePkts ≤ max 1 cfg.sirdCreditBudgetPkts ∧
      ∀ packet next,
        (machine cfg).step receiver (.packet packet) = .ok next →
          ∃ reclaimed ≤ 1,
            receiver.sched.sird.globalCreditsInUsePkts =
              next.sched.sird.globalCreditsInUsePkts + reclaimed ∧
              ∀ sender, receiver.sched.sird.creditsInUse sender =
                  next.sched.sird.creditsInUse sender +
                    if sender = packet.ipv4Header.source then reclaimed else 0 := by
  have hbounded := bounded_of_reachable hreachable
  obtain ⟨ledger, hledger, hmirrors⟩ := hbounded.ledger
  have hwithin := Ledger.within_of_reachable hledger
  refine ⟨?_, ?_, ?_, fun packet next hstep => credits_packet hbounded hstep⟩
  · rw [← hmirrors.total_eq, ledger.total_eq, hmirrors.accounts_eq]
  · intro sender
    rw [← hmirrors.held_eq]
    exact hwithin.account sender
  · rw [← hmirrors.total_eq]
    exact hwithin.total

theorem sird_ledger_consistent_granted :
    let receiver := (machine Config.oneByteSird).after (fun _ _ => true)
      [.packet (samplePacket 3 0 []), .creditTick] (machine Config.oneByteSird).init
    receiver.sched.sird.creditsInUse 1 = 1 ∧
      receiver.sched.sird.globalCreditsInUsePkts =
        receiver.sched.sird.senderCreditsInUsePkts.total := by
  intro receiver
  have hreachable : (machine Config.oneByteSird).Reachable receiver :=
    ReachableUnder.after (fun _ _ _ => trivial) _ .init
  have hused : receiver.sched.sird.creditsInUse 1 = 1 := by decide +kernel
  exact ⟨hused, (sird_ledger_consistent hreachable).1⟩

end Receiver

end HomaSird.Homa
