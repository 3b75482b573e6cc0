import HomaSird.Homa.RtxProgress
import HomaSird.Homa.Stranded

/-! # Messages of which nothing arrives any more

The timer of a message that a grant round has scheduled asks for its missing packets or counts its
expiries up to the limit. The count starts over when GRANTs have moved the window.
-/

namespace HomaSird.Homa

open Transition Transition.Machine HomaRecvScheduler GrantLog HomaInboundMsg

/-- One message is watched: how often its timer has fired, how often, besides the first time, the
window had moved, and whether it was asked for a missing packet or given up. -/
structure Stall where
  receiver : Receiver
  expiries : Nat
  moves : Nat
  done : Bool

namespace Stall

/-- The event asks for a granted packet that is missing, or gives the message up. -/
def answers (sched : HomaRecvScheduler) (key : MsgKey) : Event → Bool
  | .sendDown packet => packet.hasFlag .resend && decide (packet.ctrlKey = key) &&
      (pending sched key).any fun msg =>
        decide (packet.homaHeader.pktOffset ∈ msg.grantedOffsets) &&
          decide (msg.receivedPackets[packet.homaHeader.pktOffset]? = some false)
  | .rtxLimit given _ => decide (given = key)
  | _ => false

def windowMoved (sched : HomaRecvScheduler) (key : MsgKey) : Bool :=
  (pending sched key).any fun msg => decide (msg.lastRtxGrntIdx < msg.maxGrantableIdx)

def fires (key : MsgKey) (state : Stall) (input : RecvInput) : Bool :=
  !state.done && state.receiver.sched.expires key input

def step (cfg : Config) (key : MsgKey) (state : Stall) (input : RecvInput) :
    Except Fault Stall := do
  let (sched, events) ← state.receiver.sched.handle cfg input
  .ok {
    receiver := ⟨sched, state.receiver.trace ++ events⟩
    expiries := if state.fires key input then state.expiries + 1 else state.expiries
    moves :=
      if state.fires key input && decide (0 < state.expiries) &&
          windowMoved state.receiver.sched key then
        state.moves + 1
      else state.moves
    done := state.done || events.any (answers state.receiver.sched key) }

def machine (cfg : Config) (key : MsgKey) (receiver : Receiver) :
    Machine Stall RecvInput Fault where
  init := ⟨receiver, 0, 0, false⟩
  step := step cfg key

def quiet (key : MsgKey) : RecvInput → Bool
  | .packet packet => !(packet.hasFlag .data && decide (packet.key = key))
  | _ => true

def keepsScheduled (key : MsgKey) (state : Stall) (input : RecvInput) : Bool :=
  quiet key input && (!state.fires key input ||
    (pending state.receiver.sched key).any HomaInboundMsg.currentlyScheduled)

variable {cfg : Config} {key : MsgKey} {state next : Stall} {input : RecvInput}
  {sched after : HomaRecvScheduler} {msg prior : HomaInboundMsg} {events : List Event}

theorem step_eq_ok {receiver : Receiver}
    (hstep : (machine cfg key receiver).step state input = .ok next) :
    ∃ events, state.receiver.sched.handle cfg input = .ok (next.receiver.sched, events) ∧
      next = {
        receiver := ⟨next.receiver.sched, state.receiver.trace ++ events⟩
        expiries := if state.fires key input then state.expiries + 1 else state.expiries
        moves :=
          if state.fires key input && decide (0 < state.expiries) &&
              windowMoved state.receiver.sched key then
            state.moves + 1
          else state.moves
        done := state.done || events.any (answers state.receiver.sched key) } := by
  obtain ⟨⟨sched, events⟩, hhandle, hok⟩ := bind_eq_ok.mp hstep
  cases hok
  exact ⟨events, hhandle, rfl⟩

/-! ## The window of the message -/

theorem grantable_opened (hsound : prior.Sound cfg) (hopened :
    GrantRound.Opened cfg prior msg) : prior.maxGrantableIdx ≤ msg.maxGrantableIdx := by
  cases hopened with
  | asIs => exact le_rfl
  | byCredit _ hleft =>
    rw [advanceGrantableWindow_eq
      (sound_setCurrentlyScheduled hsound false) hleft]
    change prior.maxGrantableIdx ≤ if prior.hasGrantedData then
      max prior.maxGrantableIdx (prior.maxGrantedIdx + 1) else prior.maxGrantableIdx
    split
    · exact Nat.le_max_left _ _
    · exact le_rfl

theorem grantable_moved (hsound : prior.Sound cfg)
    (hmoved : Moved cfg input prior msg) : prior.maxGrantableIdx ≤ msg.maxGrantableIdx := by
  cases hmoved with
  | idle => exact le_rfl
  | receive _ _ _ hrecv =>
    rcases receiveDataPacket_eq_ok hrecv with ⟨rfl, -⟩ | ⟨rfl, -, -⟩
    · exact le_rfl
    · rw [openWindow_eq (sound_store hsound)]
      change prior.maxGrantableIdx ≤ if prior.creditDrivenGrantWindow ∨
        prior.msgSizePkts ≤ prior.maxGrantableIdx + 1 then prior.maxGrantableIdx
        else prior.maxGrantableIdx + 1
      split
      · exact le_rfl
      · exact Nat.le_succ _
  | visit _ hvisit =>
    cases hvisit with
    | pass => exact le_rfl
    | hold _ hopened => exact grantable_opened hsound hopened
    | homaGrant => exact le_rfl
    | sirdGrant _ hopened =>
      have hle := grantable_opened hsound hopened
      exact hle
  | rearm => exact le_rfl

theorem grantable_quiet (hplain : cfg.sirdEnabled = false)
    (hquiet : quiet prior.key input = true)
    (hmoved : Moved cfg input prior msg) : msg.maxGrantableIdx = prior.maxGrantableIdx := by
  cases hmoved with
  | idle => rfl
  | receive hinp hdata hkey =>
    subst hinp
    simp [quiet, hdata, hkey] at hquiet
  | visit _ hvisit =>
    cases hvisit with
    | pass => rfl
    | hold hsird => simp [hplain] at hsird
    | homaGrant => rfl
    | sirdGrant hsird => simp [hplain] at hsird
  | rearm => rfl

/-! ## The expiries of the message -/

theorem answers_of_settles (hwf : sched.WellFormed cfg) (hquiet : quiet key input = true)
    (hhandle : sched.handle cfg input = .ok (after, events)) {event : Event} (hev :
    event ∈ events) (hsettles : event.settles key = true) : answers sched key event = true := by
  cases event with
  | rtxLimit => exact hsettles
  | forwardUp settled origin message =>
    exfalso
    cases emitted hwf hhandle hev with
    | forwardUp hdata htaken =>
      rw [quiet, hdata, ← htaken.key_eq] at hquiet
      simp [of_decide_eq_true hsettles] at hquiet
  | _ => cases hsettles

/-- What the watch knows of a message that nothing has answered yet. -/
structure Counted (cfg : Config) (key : MsgKey) (state : Stall) (msg : HomaInboundMsg) :
    Prop where
  mem : msg ∈ state.receiver.sched.inboundMsgs
  key_eq : msg.key = key
  expiries_le :
    state.expiries ≤ cfg.maxNumRtxPerMsg * state.moves + msg.numRtxWithoutProgress + 1
  count_le : 0 < state.expiries → msg.numRtxWithoutProgress ≤ cfg.maxNumRtxPerMsg
  moves_le : state.moves ≤ msg.lastRtxGrntIdx
  window : msg.lastRtxGrntIdx ≤ msg.maxGrantableIdx
  still : cfg.sirdEnabled = false →
    state.moves = 0 ∧ (0 < state.expiries → msg.maxGrantableIdx ≤ msg.lastRtxGrntIdx)

theorem counted_rearmed (hcounted : Counted cfg key state prior) (hsched :
    prior.currentlyScheduled = true) (hbelow : prior.numRtxWithoutProgress < cfg.maxNumRtxPerMsg)
    (hnext : next.expiries = state.expiries + 1) (hmoves : next.moves = if 0 < state.expiries ∧
    prior.lastRtxGrntIdx < prior.maxGrantableIdx then state.moves + 1 else state.moves)
    (hmem : rearmRtx prior ∈ next.receiver.sched.inboundMsgs) :
    Counted cfg key next (rearmRtx prior) := by
  have hcnt := numRtxWithoutProgress_rearmRtx hsched hbelow
  have hwin := hcounted.window
  have hexpiries := hcounted.expiries_le
  have hmoved := hcounted.moves_le
  have hlast : (rearmRtx prior).lastRtxGrntIdx = prior.maxGrantableIdx := rfl
  have hstill := hcounted.still
  refine ⟨hmem, hcounted.key_eq, ?_, fun _ => ?_, ?_, Nat.le_refl _, fun hplain => ⟨?_, fun _ =>
    Nat.le_refl _⟩⟩
  · rw [hcnt, hnext, hmoves]
    by_cases hfst : state.expiries = 0
    · omega
    · by_cases hmove : prior.lastRtxGrntIdx < prior.maxGrantableIdx
      · rw [if_pos ⟨Nat.pos_of_ne_zero hfst, hmove⟩, if_pos hmove, Nat.mul_succ]
        omega
      · rw [if_neg fun hboth => hmove hboth.2, if_neg hmove]
        omega
  · rw [hcnt]
    split
    · exact Nat.zero_le _
    · exact hbelow
  · rw [hmoves, hlast]
    split
    · omega
    · omega
  · rw [hmoves, if_neg]
    · exact (hstill hplain).1
    · rintro ⟨hpos, hmove⟩
      exact Nat.not_lt.mpr ((hstill hplain).2 hpos) hmove

theorem counted_step {receiver : Receiver} (hwf : state.receiver.sched.WellFormed cfg)
    (hcounted : state.done = false → ∃ msg, Counted cfg key state msg)
    (hkeeps : keepsScheduled key state input = true)
    (hstep : (machine cfg key receiver).step state input = .ok next) :
    next.done = false → ∃ msg, Counted cfg key next msg := by
  obtain ⟨events, hhandle, hnext⟩ := step_eq_ok hstep
  intro hdone
  have hopen : state.done = false ∧ events.any (answers state.receiver.sched key) = false := by
    rw [hnext] at hdone
    simpa using hdone
  obtain ⟨prior, hprior⟩ := hcounted hopen.1
  rw [keepsScheduled, Bool.and_eq_true, fires, hopen.1] at hkeeps
  obtain ⟨hquiet, hsched⟩ := hkeeps
  have hpend : pending state.receiver.sched key = some prior :=
    hprior.key_eq ▸ pending_eq_some hwf hprior.mem
  rw [hpend] at hsched
  -- the message is still pending
  have hholds : next.receiver.sched.Holds key := by
    refine holds_handle hwf hhandle (.inl (List.mem_map.mpr ⟨prior, hprior.mem, hprior.key_eq⟩)) ?_
    intro event hev
    refine Bool.eq_false_iff.mpr fun hsettles => ?_
    have hans := answers_of_settles hwf hquiet hhandle hev hsettles
    have hnone := List.any_eq_false.mp hopen.2 event hev
    exact hnone hans
  obtain ⟨msg, hmem, hkey⟩ := List.mem_map.mp hholds
  have hsame : ∀ other ∈ state.receiver.sched.inboundMsgs, other.key = key → other = prior :=
    fun other hother hotherKey => List.inj_on_of_nodup_map hwf.nodup hother hprior.mem
      (hotherKey.trans hprior.key_eq.symm)
  refine ⟨msg, ?_⟩
  cases handle_paced hwf hhandle hmem with
  | started hstart =>
    obtain ⟨packet, created, hinp, hdata, hcreate, hmsg⟩ := hstart.origin
    exfalso
    have hmade : msg.key = packet.key := by
      subst hmsg
      rcases create_eq_ok hcreate with ⟨-, rfl⟩ | ⟨-, -, rfl⟩
      · rfl
      · rfl
    subst hinp
    simp [quiet, hdata, ← hmade, hkey] at hquiet
  | @kept before hpre hmoved hother hcnt hlast =>
    obtain rfl := hsame before hpre ((moved_key hmoved).symm.trans hkey)
    have hidle : state.fires key input = false := by
      rw [fires, ← hprior.key_eq, hother, Bool.and_false]
    rw [hidle] at hnext
    have hexpiries : next.expiries = state.expiries := by
      rw [hnext]
      rfl
    have hmoves : next.moves = state.moves := by
      rw [hnext]
      rfl
    refine ⟨hmem, hkey, ?_, ?_, ?_, ?_, fun hplain => ?_⟩
    · rw [hexpiries, hmoves, hcnt]
      exact hprior.expiries_le
    · rw [hexpiries, hcnt]
      exact hprior.count_le
    · rw [hmoves, hlast]
      exact hprior.moves_le
    · rw [hlast]
      exact hprior.window.trans (grantable_moved (hwf.sound _ hpre) hmoved)
    · rw [hmoves, hexpiries, hlast, grantable_quiet hplain (hprior.key_eq ▸ hquiet) hmoved]
      exact hprior.still hplain
  | @rearmed before hpre hown hbelow hmsg =>
    subst hmsg
    obtain rfl := hsame before hpre hkey
    rw [hprior.key_eq] at hown
    have hfires : state.fires key input = true := by
      rw [fires, hopen.1, hown]
      rfl
    rw [hown] at hsched
    rw [hfires] at hnext
    refine counted_rearmed hprior (by simpa using hsched) hbelow ?_ ?_ hmem
    · rw [hnext]
      rfl
    · rw [hnext, windowMoved, hpend]
      simp

/-! ## The message is answered -/

/-- The message is pending, its timer can fire, and its expiries are not used up: the limit, and
again for each move of its window, none without SIRD and at most its packets. -/
structure Waits (cfg : Config) (key : MsgKey) (state : Stall) : Prop where
  armed : ∃ timer msg outcome, state.receiver.sched.inboundMsgs[timer]? = some msg ∧
    msg.key = key ∧ state.moves ≤ msg.msgSizePkts ∧
    state.receiver.sched.handle cfg (.rtxExpire timer) = .ok outcome
  expiries_le : state.expiries ≤ cfg.maxNumRtxPerMsg * (state.moves + 1) + 1
  moves_eq : cfg.sirdEnabled = false → state.moves = 0

theorem waits_of_counted (hwf : state.receiver.sched.WellFormed cfg)
    (hcounted : Counted cfg key state msg) : state.Waits cfg key := by
  obtain ⟨timer, htimer⟩ := List.mem_iff_getElem?.mp hcounted.mem
  obtain ⟨outcome, hexpire⟩ := expireRtxTimeout_isOk hwf htimer
  have hsz := (hwf.sound msg hcounted.mem).grantable_le
  have hmoves := hcounted.moves_le.trans (hcounted.window.trans hsz)
  refine ⟨⟨timer, msg, outcome, htimer, hcounted.key_eq, hmoves, hexpire⟩, ?_,
    fun hplain => (hcounted.still hplain).1⟩
  have hexpiries := hcounted.expiries_le
  rw [Nat.mul_succ]
  by_cases hfst : state.expiries = 0
  · omega
  · have hcnt := hcounted.count_le (Nat.pos_of_ne_zero hfst)
    omega

end Stall

theorem Receiver.lastRtxGrntIdx_le {cfg : Config}
    {receiver : Receiver} (hreach : (Receiver.machine cfg).Reachable receiver) :
    ∀ msg ∈ receiver.sched.inboundMsgs, msg.lastRtxGrntIdx ≤ msg.maxGrantableIdx := by
  apply hreach.invariant_of (fun _ => wellFormed_of_reachable)
  · intro msg hmem
    cases hmem
  · intro state input next hwf hwin _ hstep msg hmem
    obtain ⟨events, hhandle, -⟩ := step_eq_ok hstep
    cases handle_paced hwf hhandle hmem with
    | started hstart =>
      obtain ⟨packet, created, -, -, hcreate, rfl⟩ := hstart.origin
      rcases create_eq_ok hcreate with ⟨-, rfl⟩ | ⟨-, -, rfl⟩
      · exact le_rfl
      · exact le_rfl
    | kept hprior hmoved _ _ hlast =>
      rw [hlast]
      exact (hwin _ hprior).trans (Stall.grantable_moved (hwf.sound _ hprior) hmoved)
    | rearmed _ _ _ hmsg =>
      subst hmsg
      exact le_rfl

namespace Stall

variable {cfg : Config} {key : MsgKey} {state : Stall} {receiver : Receiver}
  {msg : HomaInboundMsg}

/-- A pending message of which nothing arrives and whose expiries find it scheduled is asked for or
given up, whatever happens to others. -/
theorem done_or_waits (hreachable : (Receiver.machine cfg).Reachable receiver)
    (hpending : receiver.sched.Holds key)
    (hrun : (machine cfg key receiver).ReachableUnder
      (fun state input => keepsScheduled key state input = true) state) :
    state.done = true ∨ state.Waits cfg key := by
  have hinvariant : state.receiver.sched.WellFormed cfg ∧
      (state.done = false → ∃ msg, Counted cfg key state msg) := by
    induction hrun with
    | init =>
      obtain ⟨msg, hmem, hkey⟩ := List.mem_map.mp hpending
      have hwin := Receiver.lastRtxGrntIdx_le hreachable msg hmem
      have hnone : ¬ 0 < (machine cfg key receiver).init.expiries := Nat.lt_irrefl 0
      exact ⟨Receiver.wellFormed_of_reachable hreachable, fun _ => ⟨msg, hmem, hkey,
        Nat.zero_le _, fun hpos => absurd hpos hnone, Nat.zero_le _, hwin,
        fun _ => ⟨rfl, fun hpos => absurd hpos hnone⟩⟩⟩
    | step _ hkeeps hstep ih =>
      obtain ⟨events, hhandle, -⟩ := step_eq_ok hstep
      exact ⟨wellFormed_handle ih.1 hhandle, counted_step ih.1 ih.2 hkeeps hstep⟩
  cases hdone : state.done with
  | true => exact .inl rfl
  | false =>
    obtain ⟨later, hlater⟩ := hinvariant.2 hdone
    exact .inr (waits_of_counted hinvariant.1 hlater)

def lastMissing : Receiver :=
  (Receiver.machine .oneByte).after (fun _ _ => true)
    ((List.range 10).map (fun pktOffset => .packet (samplePacket 11 pktOffset [7])) ++
      [.creditTick]) (Receiver.machine .oneByte).init

theorem done_or_waits_lastMissing :
    let machine := machine .oneByte ⟨1, 2, 5, 6, 0⟩ lastMissing
    let state := machine.after (keepsScheduled ⟨1, 2, 5, 6, 0⟩)
      (List.replicate 5 (.rtxExpire 0)) machine.init
    (state.done = true ∨ state.Waits .oneByte ⟨1, 2, 5, 6, 0⟩) ∧ state.expiries = 5 ∧
      state.done = false ∧ (machine.after (keepsScheduled ⟨1, 2, 5, 6, 0⟩)
        [.rtxExpire 0] state).done = true := by
  intro machine state
  have hreachable : (Receiver.machine .oneByte).Reachable lastMissing :=
    ReachableUnder.after (fun _ _ _ => trivial) _ .init
  have hpending : lastMissing.sched.Holds ⟨1, 2, 5, 6, 0⟩ := by
    unfold Holds
    decide +kernel
  have hrun : machine.ReachableUnder (fun state input =>
      keepsScheduled ⟨1, 2, 5, 6, 0⟩ state input = true) state :=
    ReachableUnder.after (fun _ _ hcheck => hcheck) _ .init
  exact ⟨done_or_waits hreachable hpending hrun, by decide +kernel, by decide +kernel,
    by decide +kernel⟩

/-! ## Messages that are left alone -/

theorem idle_run (count : Nat) (hwf : state.receiver.sched.WellFormed cfg) {timer : Nat}
    (hmsg : state.receiver.sched.inboundMsgs[timer]? = some msg) (hkey : msg.key = key)
    (hdone : state.done = false) (hidle : msg.currentlyScheduled = false)
    (hbelow : msg.numRtxWithoutProgress < cfg.maxNumRtxPerMsg) :
    ∃ final,
      (machine cfg key receiver).run (List.replicate count (.rtxExpire timer)) state = .ok final ∧
        final.expiries = state.expiries + count ∧ final.done = false := by
  induction count generalizing state msg with
  | zero => exact ⟨state, rfl, rfl, hdone⟩
  | succ count ih =>
    obtain ⟨⟨sched, events⟩, hexpire⟩ := expireRtxTimeout_isOk hwf hmsg
    have hnext := @wellFormed_handle cfg _ sched events (.rtxExpire timer) hwf hexpire
    have hown : state.receiver.sched.expires key (.rtxExpire timer) = true :=
      hkey ▸ (expires_iff hwf hmsg).mpr rfl
    cases expireRtxTimeout_eq_ok hwf hexpire with
    | dropped hexp hlim =>
      obtain rfl := Option.some.inj (hmsg.symm.trans hexp)
      omega
    | rearmed hexp _ _ hsched hevs =>
      obtain rfl := Option.some.inj (hmsg.symm.trans hexp)
      have hsilent : events = [] := by simp [hevs, resends, hidle]
      have hstep : ∃ next : Stall, (machine cfg key receiver).step state
          (.rtxExpire timer) = .ok next ∧ next.receiver.sched = sched ∧
          next.expiries = state.expiries + 1 ∧ next.done = false := by
        refine ⟨_, bind_eq_ok.mpr ⟨_, hexpire, rfl⟩, rfl, ?_, ?_⟩
        · simp [fires, hdone, hown]
        · simp [hdone, hsilent]
      obtain ⟨next, hstep, hrecv, hexpiries, hopen⟩ := hstep
      obtain ⟨hlt, -⟩ := List.getElem?_eq_some_iff.mp hmsg
      have hrearmed : next.receiver.sched.inboundMsgs[timer]? = some (rearmRtx msg) := by
        rw [hrecv, hsched]
        exact List.getElem?_set_self hlt
      have hcnt : (rearmRtx msg).numRtxWithoutProgress < cfg.maxNumRtxPerMsg := by
        simp only [rearmRtx, hidle, Bool.false_eq_true, if_false]
        split
        · exact Nat.zero_lt_of_lt hbelow
        · exact hbelow
      obtain ⟨final, hrun, htotal, hlast⟩ := ih (hrecv ▸ hnext) hrearmed hkey hopen hidle hcnt
      refine ⟨final, run_cons_ok.mpr ⟨next, hstep, hrun⟩, ?_, hlast⟩
      omega

def neverScheduled : Receiver :=
  (Receiver.machine .oneByte).after (fun _ _ => true) [.packet (samplePacket 3 0 [7])]
    (Receiver.machine .oneByte).init

def tenCredits : Config := { Config.oneByteSird with sirdCreditBudgetPkts := 10 }

def arrivedAhead : Receiver :=
  (Receiver.machine tenCredits).after (fun _ _ => true)
    (.packet (samplePacket 6 0 []) :: (List.range 5).map fun pktOffset =>
      .packet (samplePacket 6 pktOffset [7])) (Receiver.machine tenCredits).init

def grantsBetween : List RecvInput :=
  (.creditTick :: List.replicate 4 (.rtxExpire 0)) ++
    (List.replicate 4 (.creditTick :: List.replicate 5 (.rtxExpire 0))).flatten

/-- A message that is not scheduled is never answered, one that is need not be soon. -/
theorem stalled_unanswered :
    ((Receiver.machine .oneByte).Reachable neverScheduled ∧
      neverScheduled.sched.Holds ⟨1, 2, 5, 6, 0⟩ ∧ neverScheduled.sched.busySenders = ∅ ∧
      ∀ count, ∃ final, (machine .oneByte ⟨1, 2, 5, 6, 0⟩ neverScheduled).run
          (List.replicate count (.rtxExpire 0))
          (machine .oneByte ⟨1, 2, 5, 6, 0⟩ neverScheduled).init = .ok final ∧
        final.expiries = count ∧ final.done = false) ∧
    (Receiver.machine tenCredits).Reachable arrivedAhead ∧
      arrivedAhead.sched.Holds ⟨1, 2, 5, 6, 0⟩ ∧ arrivedAhead.sched.busySenders = ∅ ∧
      let machine := machine tenCredits ⟨1, 2, 5, 6, 0⟩ arrivedAhead
      let final := machine.after (keepsScheduled ⟨1, 2, 5, 6, 0⟩) grantsBetween machine.init
      final.expiries = 4 * (tenCredits.maxNumRtxPerMsg + 1) ∧ final.done = false := by
  refine ⟨⟨ReachableUnder.after (fun _ _ _ => trivial) _ .init, ?_, ?_, fun count => ?_⟩,
    ReachableUnder.after (fun _ _ _ => trivial) _ .init, ?_, ?_, ?_, ?_⟩
  · unfold Holds
    decide +kernel
  · decide +kernel
  · have hstored : neverScheduled.sched.inboundMsgs[0]?.any (fun msg =>
        decide (msg.key = ⟨1, 2, 5, 6, 0⟩) && !msg.currentlyScheduled &&
          decide (msg.numRtxWithoutProgress = 0)) = true := by
      decide +kernel
    obtain ⟨msg, hmsg, hst⟩ := (Option.any_eq_true _ _).mp hstored
    simp only [Bool.and_eq_true, decide_eq_true_eq, Bool.not_eq_true'] at hst
    obtain ⟨⟨hkey, hidle⟩, hzero⟩ := hst
    have hreachable : (Receiver.machine .oneByte).Reachable neverScheduled :=
      ReachableUnder.after (fun _ _ _ => trivial) _ .init
    have hbelow : msg.numRtxWithoutProgress < Config.oneByte.maxNumRtxPerMsg := by
      rw [hzero]
      decide
    obtain ⟨final, hrun, hcnt, hopen⟩ := @idle_run .oneByte ⟨1, 2, 5, 6, 0⟩
      (machine .oneByte ⟨1, 2, 5, 6, 0⟩ neverScheduled).init neverScheduled msg count
      (Receiver.wellFormed_of_reachable hreachable) 0 hmsg hkey rfl hidle hbelow
    exact ⟨final, hrun, hcnt.trans (Nat.zero_add _), hopen⟩
  · unfold Holds
    decide +kernel
  · decide +kernel
  · decide +kernel
  · decide +kernel

end Stall

end HomaSird.Homa
