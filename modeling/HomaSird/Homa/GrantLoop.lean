import HomaSird.Homa.InboundSound
import HomaSird.Homa.RecvScheduler

/-! # What one granting round does

An iteration of `SendAppropriateGrants` passes a message by, looks at it without
granting it, or grants it. The rules below carry a property of the round along
the loop.
-/

namespace HomaSird.Homa.HomaRecvScheduler.GrantRound

variable {cfg : Config} {busySenders : Finset Ipv4Address}

/-- The message as an iteration sees it: not scheduled, its window perhaps opened by a credit. -/
inductive Opened (cfg : Config) (currentMsg : HomaInboundMsg) : HomaInboundMsg → Prop where
  | asIs : Opened cfg currentMsg (currentMsg.setCurrentlyScheduled false)
  | byCredit (hsird : cfg.sirdEnabled = true) (hungranted : currentMsg.isFullyGranted = false)
      (hwaiting : currentMsg.isGrantable = false) :
      Opened cfg currentMsg
        ((currentMsg.setCurrentlyScheduled false).advanceGrantableWindow 1).1

inductive Visit (cfg : Config) (busySenders : Finset Ipv4Address) (round : GrantRound)
    (currentMsg : HomaInboundMsg) : GrantRound → HomaInboundMsg → Prop where
  | pass :
      Visit cfg busySenders round currentMsg (round.clampPrio cfg)
        (currentMsg.setCurrentlyScheduled false)
  | hold {msg : HomaInboundMsg} (hsird : cfg.sirdEnabled = true)
      (hopened : Opened cfg currentMsg msg)
      (hconsiders : (round.clampPrio cfg).considers busySenders currentMsg = true) :
      Visit cfg busySenders round currentMsg
        { round.clampPrio cfg with
          sird := round.sird.openAccount currentMsg.getSrcAddress } msg
  | homaGrant (hplain : cfg.sirdEnabled = false)
      (hconsiders : (round.clampPrio cfg).considers busySenders currentMsg = true)
      (hgrantable : currentMsg.isGrantable = true) :
      Visit cfg busySenders round currentMsg
        ((round.clampPrio cfg).issue (currentMsg.setCurrentlyScheduled false)).1
        ((round.clampPrio cfg).issue (currentMsg.setCurrentlyScheduled false)).2
  | sirdGrant {msg : HomaInboundMsg} (hsird : cfg.sirdEnabled = true)
      (hopened : Opened cfg currentMsg msg)
      (hconsiders : (round.clampPrio cfg).considers busySenders currentMsg = true)
      (hcredit : (round.sird.openAccount currentMsg.getSrcAddress).hasCredit cfg
        currentMsg.getSrcAddress = true)
      (hgrantable : msg.isGrantable = true) :
      Visit cfg busySenders round currentMsg
        { ((round.clampPrio cfg).issue msg).1 with
          sird := (round.sird.openAccount currentMsg.getSrcAddress).charge
            currentMsg.getSrcAddress }
        ((round.clampPrio cfg).issue msg).2

@[simp] theorem clampPrio_sird (round : GrantRound) :
    (round.clampPrio cfg).sird = round.sird := by
  unfold clampPrio
  split <;> rfl

@[simp] theorem clampPrio_sent (round : GrantRound) :
    (round.clampPrio cfg).sent = round.sent := by
  unfold clampPrio
  split <;> rfl

@[simp] theorem clampPrio_considers (round : GrantRound) (msg : HomaInboundMsg) :
    (round.clampPrio cfg).considers busySenders msg = round.considers busySenders msg := by
  unfold clampPrio
  split <;> rfl

@[simp] theorem clampPrio_overcommitDue (round : GrantRound) :
    (round.clampPrio cfg).overcommitDue = round.overcommitDue := by
  unfold clampPrio
  split <;> rfl

@[simp] theorem clampPrio_grantedSenders (round : GrantRound) :
    (round.clampPrio cfg).grantedSenders = round.grantedSenders := by
  unfold clampPrio
  split <;> rfl

variable {round : GrantRound}

theorem isFullyGranted_of_considers {msg : HomaInboundMsg}
    (hcons : round.considers busySenders msg = true) : msg.isFullyGranted = false := by
  simp only [considers, Bool.and_eq_true, Bool.not_eq_true'] at hcons
  exact hcons.1.1.2

theorem homaStep_visit (hplain : cfg.sirdEnabled = false) (round : GrantRound)
    (currentMsg : HomaInboundMsg) :
    Visit cfg busySenders round currentMsg (homaStep cfg busySenders round currentMsg).1
      (homaStep cfg busySenders round currentMsg).2 := by
  unfold homaStep
  dsimp only
  split
  next hgrant =>
    obtain ⟨hcons, hgrantable⟩ := Bool.and_eq_true_iff.mp hgrant
    exact .homaGrant hplain hcons hgrantable
  · exact .pass

theorem sirdStep_visit (hsird : cfg.sirdEnabled = true) (round : GrantRound)
    (currentMsg : HomaInboundMsg) :
    Visit cfg busySenders round currentMsg (sirdStep cfg busySenders round currentMsg).1
      (sirdStep cfg busySenders round currentMsg).2 := by
  unfold sirdStep
  dsimp only
  rw [clampPrio_sird]
  split
  next hcons =>
    have hleft := isFullyGranted_of_considers hcons
    split
    next hcredit =>
      split
      next hasIs => exact .sirdGrant hsird .asIs hcons hcredit hasIs
      next hwait =>
        have hclosed : currentMsg.isGrantable = false := Bool.eq_false_iff.mpr hwait
        have hopened : Opened cfg currentMsg _ := .byCredit hsird hleft hclosed
        split
        next hgrant => exact .sirdGrant hsird hopened hcons hcredit hgrant
        · exact .hold hsird hopened hcons
    · exact .hold hsird .asIs hcons
  · exact .pass

theorem grantStep_visit (cfg : Config) (busySenders : Finset Ipv4Address) (round : GrantRound)
    (currentMsg : HomaInboundMsg) :
    Visit cfg busySenders round currentMsg (grantStep cfg busySenders round currentMsg).1
      (grantStep cfg busySenders round currentMsg).2 := by
  unfold grantStep
  split
  next hsird => exact sirdStep_visit hsird round currentMsg
  next hplain => exact homaStep_visit (by simpa using hplain) round currentMsg

/-! ## Rules for the loop -/

theorem loop_rule {step : GrantRound → HomaInboundMsg → GrantRound × HomaInboundMsg}
    (holds : GrantRound → List HomaInboundMsg → List HomaInboundMsg → Prop)
    (hkeep : ∀ round visited msg rest, holds round visited (msg :: rest) →
    holds (step round msg).1 (visited ++ [(step round msg).2]) rest) {rest : List HomaInboundMsg}
    {visited : List HomaInboundMsg} (hstart : holds round visited rest) :
    holds (loop step round rest).1 (visited ++ (loop step round rest).2) [] := by
  induction rest generalizing round visited with
  | nil => simpa [loop] using hstart
  | cons msg rest ih =>
    have hnext := ih (hkeep round visited msg rest hstart)
    rw [loop]
    simpa using hnext

theorem visit_sent_mono {round next : GrantRound} {currentMsg msg : HomaInboundMsg}
    (hvisit : Visit cfg busySenders round currentMsg next msg) : round.sent <+: next.sent := by
  cases hvisit with
  | pass => simp
  | hold => simp
  | homaGrant => simp [issue]
  | sirdGrant => simp [issue]

theorem loop_sent_mono (msgs : List HomaInboundMsg) (round : GrantRound) :
    round.sent <+: (loop (grantStep cfg busySenders) round msgs).1.sent := by
  induction msgs generalizing round with
  | nil => exact List.prefix_rfl
  | cons msg rest ih =>
    have hvisit := grantStep_visit cfg busySenders round msg
    exact (visit_sent_mono hvisit).trans (ih _)

theorem mem_loop {msgs : List HomaInboundMsg} {visited : HomaInboundMsg}
    (hmem : visited ∈ (loop (grantStep cfg busySenders) round msgs).2) :
    ∃ msg ∈ msgs, ∃ before next, Visit cfg busySenders before msg next visited ∧
    next.sent <+: (loop (grantStep cfg busySenders) round msgs).1.sent := by
  induction msgs generalizing round with
  | nil => cases hmem
  | cons msg rest ih =>
    rw [loop] at hmem ⊢
    rcases List.mem_cons.mp hmem with rfl | hlater
    · exact ⟨msg, List.mem_cons_self, round, _, grantStep_visit _ _ _ _, loop_sent_mono _ _⟩
    · obtain ⟨other, hother, hvisit⟩ := ih hlater
      exact ⟨other, List.mem_cons_of_mem _ hother, hvisit⟩

end HomaSird.Homa.HomaRecvScheduler.GrantRound
