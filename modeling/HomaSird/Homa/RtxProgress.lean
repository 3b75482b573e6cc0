import HomaSird.Homa.GrantHistory

/-! # Expiries without progress

The timer of an inbound message infers from the end of its window whether packets arrive. Beside
the receiver stands what really arrived: how many expiries in a row each message has been silent
for.
-/

namespace HomaSird.Homa

open Transition Transition.Machine List

namespace HomaRecvScheduler

variable {cfg : Config} {sched next : HomaRecvScheduler} {events : List Event}
  {input : RecvInput} {msg prior : HomaInboundMsg}

def expires (sched : HomaRecvScheduler) (key : MsgKey) : RecvInput → Bool
  | .rtxExpire timer => decide (sched.inboundMsgs[timer]?.map HomaInboundMsg.key = some key)
  | _ => false

/-- How the timer of a message that is pending after an event has fared in it. -/
inductive Paced (cfg : Config) (sched : HomaRecvScheduler) (input : RecvInput)
    (msg : HomaInboundMsg) : Prop where
  | started (hstarted : Started cfg input msg)
  | kept {prior : HomaInboundMsg} (hprior : prior ∈ sched.inboundMsgs)
      (hmoved : Moved cfg input prior msg) (hother : sched.expires prior.key input = false)
      (hcnt : msg.numRtxWithoutProgress = prior.numRtxWithoutProgress)
      (hlast : msg.lastRtxGrntIdx = prior.lastRtxGrntIdx)
  | rearmed {prior : HomaInboundMsg} (hprior : prior ∈ sched.inboundMsgs)
      (hown : sched.expires prior.key input = true)
      (hbelow : prior.numRtxWithoutProgress < cfg.maxNumRtxPerMsg)
      (hmsg : msg = rearmRtx prior)

theorem expires_iff (hwf : sched.WellFormed cfg)
    {index timer : Nat} (hidx : sched.inboundMsgs[index]? = some msg) :
    sched.expires msg.key (.rtxExpire timer) = true ↔ timer = index := by
  rw [expires, decide_eq_true_eq]
  constructor
  · intro htimer
    obtain ⟨other, hother, hkey⟩ := Option.map_eq_some_iff.mp htimer
    have hfound := hwf.getInboundMsg_eq hother
    rw [hkey, hwf.getInboundMsg_eq hidx] at hfound
    exact (Option.some.inj hfound).symm
  · rintro rfl
    rw [hidx]
    rfl

theorem rtx_moved (hmoved : Moved cfg input prior msg) (hinp : ∀ timer, input ≠ .rtxExpire timer) :
    msg.numRtxWithoutProgress = prior.numRtxWithoutProgress ∧
      msg.lastRtxGrntIdx = prior.lastRtxGrntIdx := by
  cases hmoved with
  | idle => exact ⟨rfl, rfl⟩
  | receive _ _ _ hrecv =>
    rcases HomaInboundMsg.receiveDataPacket_eq_ok hrecv with ⟨rfl, -⟩ | ⟨rfl, -, -⟩
    · exact ⟨rfl, rfl⟩
    · unfold HomaInboundMsg.openWindow
      split
      · exact ⟨rfl, rfl⟩
      · exact ⟨rfl, rfl⟩
  | visit _ hvisit =>
    obtain ⟨_, _, _, _, _, rfl⟩ := visit_frame hvisit
    exact ⟨rfl, rfl⟩
  | rearm hexpire => exact absurd hexpire (hinp _)

theorem handle_paced (hwf : sched.WellFormed cfg)
    (hhandle : sched.handle cfg input = .ok (next, events)) (hmem : msg ∈ next.inboundMsgs) :
    Paced cfg sched input msg := by
  have hquiet : (∀ timer, input ≠ .rtxExpire timer) → Paced cfg sched input msg := by
    intro hinp
    rcases handle_moved hwf hhandle hmem with ⟨prior, hprior, hmoved⟩ | hstart
    · obtain ⟨hcnt, hlast⟩ := rtx_moved hmoved hinp
      refine .kept hprior hmoved ?_ hcnt hlast
      cases input with
      | rtxExpire timer => exact absurd rfl (hinp timer)
      | _ => rfl
    · exact .started hstart
  cases input with
  | packet => exact hquiet nofun
  | creditTick => exact hquiet nofun
  | rtxExpire timer =>
    -- a message at another place than the timer's
    have helse : ∀ index, index ≠ timer → sched.inboundMsgs[index]? = some msg →
        Paced cfg sched (.rtxExpire timer) msg := by
      intro index hne hidx
      refine .kept (List.mem_of_getElem? hidx) (.idle msg) ?_ rfl rfl
      exact Bool.eq_false_iff.mpr fun hown => hne ((expires_iff hwf hidx).mp hown).symm
    cases expireRtxTimeout_eq_ok hwf hhandle with
    | dropped _ _ hnext =>
      subst hnext
      obtain ⟨index, hne, hidx⟩ := List.mem_eraseIdx_iff_getElem?.mp hmem
      exact helse index hne hidx
    | @rearmed expired _ hexp hbelow _ hnext =>
      subst hnext
      obtain ⟨index, hidx⟩ := List.mem_iff_getElem?.mp hmem
      by_cases hsame : timer = index
      · subst hsame
        obtain ⟨hlt, -⟩ := List.getElem?_eq_some_iff.mp hexp
        have hmsg : some (rearmRtx expired) = some msg :=
          (List.getElem?_set_self hlt).symm.trans hidx
        exact .rearmed (List.mem_of_getElem? hexp) ((expires_iff hwf hexp).mpr rfl)
          hbelow (Option.some.inj hmsg).symm
      · exact helse index (Ne.symm hsame) ((List.getElem?_set_ne hsame).symm.trans hidx)

theorem limit_of_rtxLimit (hwf : sched.WellFormed cfg)
    (hhandle : sched.handle cfg input = .ok (next, events)) {key : MsgKey} {origin : Nat}
    (hlim : .rtxLimit key origin ∈ events) :
    ∃ msg ∈ sched.inboundMsgs, msg.key = key ∧ cfg.maxNumRtxPerMsg ≤ msg.numRtxWithoutProgress := by
  cases emitted hwf hhandle hlim with
  | rtxLimit hmsg hreach => exact ⟨_, mem_of_getElem? hmsg, rfl, hreach⟩

end HomaRecvScheduler

namespace HomaInboundMsg

def takesNew (msg : HomaInboundMsg) : HomaRecvScheduler.RecvInput → Bool
  | .packet packet => packet.hasFlag .data && decide (packet.key = msg.key) &&
      !packet.payload.isEmpty &&
      decide (msg.receivedPackets[packet.homaHeader.pktOffset]? = some false)
  | _ => false

end HomaInboundMsg

/-- For how many expiries in a row a message has been silent, and whether a new packet has come
since the last. -/
structure Silence where
  expiries : Nat
  arrived : Bool

structure RtxLog where
  receiver : Receiver
  silence : MsgKey → Silence

namespace RtxLog

open HomaRecvScheduler GrantLog

def note (silence : MsgKey → Silence) (sched : HomaRecvScheduler) (input : RecvInput)
    (key : MsgKey) : Silence :=
  match pending sched key with
  | none => ⟨0, false⟩
  | some msg =>
    if sched.expires key input then
      ⟨if (silence key).arrived then 0 else (silence key).expiries + 1, false⟩
    else ⟨(silence key).expiries, (silence key).arrived || msg.takesNew input⟩

def step (cfg : Config) (state : RtxLog) (input : RecvInput) : Except Fault RtxLog := do
  let (sched, events) ← state.receiver.sched.handle cfg input
  .ok ⟨⟨sched, state.receiver.trace ++ events⟩, note state.silence state.receiver.sched input⟩

def machine (cfg : Config) : Machine RtxLog RecvInput Fault where
  init := ⟨(Receiver.machine cfg).init, fun _ => ⟨0, false⟩⟩
  step := step cfg

/-- A message is given up only after so many silent expiries in a row. -/
def AbandonsSilent (cfg : Config) (state : RtxLog) : Prop :=
  ∀ input sched events, state.receiver.sched.handle cfg input = .ok (sched, events) →
    ∀ key origin, .rtxLimit key origin ∈ events →
      cfg.maxNumRtxPerMsg ≤ (state.silence key).expiries

/-- A timer that fires after a new packet and does not give up finds that the window has moved, or
counts nothing and has counted nothing. -/
def noticesArrivals (cfg : Config) (state : RtxLog) : RecvInput → Bool
  | .rtxExpire timer => state.receiver.sched.inboundMsgs[timer]?.all fun msg =>
    !(state.silence msg.key).arrived ||
      decide (cfg.maxNumRtxPerMsg ≤ msg.numRtxWithoutProgress) ||
      decide (msg.lastRtxGrntIdx < msg.maxGrantableIdx) ||
      (!msg.currentlyScheduled && decide (msg.numRtxWithoutProgress = 0))
  | _ => true

variable {cfg : Config} {state next : RtxLog} {input : RecvInput} {msg prior : HomaInboundMsg}

theorem step_eq_ok (hstep : (machine cfg).step state input = .ok next) :
    ∃ events,
      state.receiver.sched.handle cfg input = .ok (next.receiver.sched, events) ∧
        next.receiver.trace = state.receiver.trace ++ events ∧
        next.silence = note state.silence state.receiver.sched input := by
  obtain ⟨⟨sched, events⟩, hhandle, hok⟩ := bind_eq_ok.mp hstep
  cases hok
  exact ⟨events, hhandle, rfl, rfl⟩

theorem reachable_receiver {allowed : RtxLog → RecvInput → Prop}
    (hreach : (machine cfg).ReachableUnder allowed state) :
    (Receiver.machine cfg).Reachable state.receiver := by
  apply hreach.observed RtxLog.receiver rfl
  intro state input next hstep
  obtain ⟨events, hhandle, htrace, -⟩ := step_eq_ok hstep
  refine bind_eq_ok.mpr ⟨_, hhandle, ?_⟩
  dsimp only
  rw [← htrace]

def CountsSilent (state : RtxLog) : Prop :=
  ∀ msg ∈ state.receiver.sched.inboundMsgs,
    msg.numRtxWithoutProgress ≤ (state.silence msg.key).expiries

theorem numRtxWithoutProgress_rearmRtx_le (silence : Silence)
    (hcnt : msg.numRtxWithoutProgress ≤ silence.expiries)
    (hnote : silence.arrived = true →
      msg.lastRtxGrntIdx < msg.maxGrantableIdx ∨
        msg.currentlyScheduled = false ∧ msg.numRtxWithoutProgress = 0) :
    (rearmRtx msg).numRtxWithoutProgress ≤ if silence.arrived then 0 else silence.expiries + 1 := by
  simp only [rearmRtx]
  split
  · exact Nat.zero_le _
  next hstill =>
    have hword : uint16 (msg.numRtxWithoutProgress + 1) ≤ msg.numRtxWithoutProgress + 1 :=
      Nat.mod_le _ _
    cases harr : silence.arrived with
    | true =>
      obtain ⟨hidle, hzero⟩ := (hnote harr).resolve_left hstill
      simp [hidle, hzero]
    | false =>
      simp only [Bool.false_eq_true, if_false]
      split
      · exact hword.trans (Nat.succ_le_succ hcnt)
      · exact hcnt.trans (Nat.le_succ _)

theorem countsSilent_step (hwf : state.receiver.sched.WellFormed cfg)
    (hcounts : state.CountsSilent) (hnote : noticesArrivals cfg state input = true)
    (hstep : (machine cfg).step state input = .ok next) : next.CountsSilent := by
  obtain ⟨events, hhandle, -, hsilence⟩ := step_eq_ok hstep
  intro msg hmem
  rw [hsilence]
  cases handle_paced hwf hhandle hmem with
  | started hstart =>
    obtain ⟨packet, created, -, -, hcreate, rfl⟩ := hstart.origin
    have hzero : created.numRtxWithoutProgress = 0 := by
      rcases HomaInboundMsg.create_eq_ok hcreate with ⟨-, rfl⟩ | ⟨-, -, rfl⟩
      · rfl
      · rfl
    exact hzero ▸ Nat.zero_le _
  | kept hprior hmoved hother hcnt =>
    rw [hcnt, moved_key hmoved, note, pending_eq_some hwf hprior]
    dsimp only
    rw [hother, if_neg Bool.false_ne_true]
    exact hcounts _ hprior
  | @rearmed prior hprior hown hbelow hmsg =>
    subst hmsg
    have hkey : (rearmRtx prior).key = prior.key := rfl
    rw [hkey, note, pending_eq_some hwf hprior]
    dsimp only
    rw [hown, if_pos rfl]
    refine numRtxWithoutProgress_rearmRtx_le _ (hcounts _ hprior) fun harr => ?_
    cases input with
    | rtxExpire timer =>
      obtain ⟨index, hidx⟩ := mem_iff_getElem?.mp hprior
      obtain rfl := (expires_iff hwf hidx).mp hown
      rw [noticesArrivals, hidx, Option.all_some, harr] at hnote
      simp only [Bool.not_true, Bool.false_or, Bool.or_eq_true, Bool.and_eq_true,
        decide_eq_true_eq, Bool.not_eq_true'] at hnote
      exact (or_assoc.mp hnote).resolve_left (Nat.not_le_of_lt hbelow)
    | _ => cases hown

/-- No message is given up before it was silent for the limit of expiries in a row, if timers
notice what has arrived. -/
theorem abandonsSilent_of_noticesArrivals
    (hreachable : (machine cfg).ReachableUnder
      (fun state input => noticesArrivals cfg state input = true) state) :
    state.AbandonsSilent cfg := by
  have hwf := Receiver.wellFormed_of_reachable (reachable_receiver hreachable)
  have hcounts : state.CountsSilent := by
    refine hreachable.invariant_of (fun _ hprior => Receiver.wellFormed_of_reachable
      (reachable_receiver hprior)) ?_ ?_
    · intro msg hmem
      cases hmem
    · intro before input after hwf hcounts hnotices hstep
      exact countsSilent_step hwf hcounts hnotices hstep
  intro input sched events hhandle key origin hlim
  obtain ⟨msg, hmem, rfl, hreached⟩ := limit_of_rtxLimit hwf hhandle hlim
  exact hreached.trans (hcounts msg hmem)

def givesUp (cfg : Config) (state : RtxLog) (key : MsgKey) (timer : Nat) : Bool :=
  match state.receiver.sched.handle cfg (.rtxExpire timer) with
  | .ok (_, events) => decide (.rtxLimit key 0 ∈ events)
  | .error _ => false

theorem handle_of_givesUp {key : MsgKey} {timer : Nat}
    (hgives : state.givesUp cfg key timer = true) :
    ∃ sched events,
      state.receiver.sched.handle cfg (.rtxExpire timer) = .ok (sched, events) ∧
        .rtxLimit key 0 ∈ events := by
  unfold givesUp at hgives
  split at hgives
  next sched events hhandle => exact ⟨sched, events, hhandle, of_decide_eq_true hgives⟩
  · cases hgives

theorem abandonsSilent_eleven :
    let state := (machine .oneByte).after (noticesArrivals .oneByte)
      ([.packet (samplePacket 11 0 [7]), .creditTick] ++ List.replicate 5 (.rtxExpire 0))
      (machine .oneByte).init
    state.AbandonsSilent .oneByte ∧ state.givesUp .oneByte ⟨1, 2, 5, 6, 0⟩ 0 = true ∧
      (state.silence ⟨1, 2, 5, 6, 0⟩).expiries = 5 := by
  intro state
  have hreachable : (machine .oneByte).ReachableUnder (fun state input =>
      noticesArrivals .oneByte state input = true) state :=
    ReachableUnder.after (fun _ _ hcheck => hcheck) _ .init
  exact ⟨abandonsSilent_of_noticesArrivals hreachable, by decide +kernel, by decide +kernel⟩

def slowArrivals : RtxLog :=
  (machine .oneByte).after (fun _ _ => true)
    ([.packet (samplePacket 11 0 [7]), .creditTick] ++
      [1, 2, 3, 4, 5].flatMap (fun pktOffset =>
        [.packet (samplePacket 11 pktOffset [7]), .rtxExpire 0]) ++
      [.packet (samplePacket 11 6 [7])])
    (machine .oneByte).init

theorem slow_message_abandoned :
    (machine .oneByte).Reachable slowArrivals ∧
      (slowArrivals.silence ⟨1, 2, 5, 6, 0⟩).expiries = 0 ∧
      slowArrivals.givesUp .oneByte ⟨1, 2, 5, 6, 0⟩ 0 = true ∧
      ¬ slowArrivals.AbandonsSilent .oneByte := by
  have hsilence : (slowArrivals.silence ⟨1, 2, 5, 6, 0⟩).expiries = 0 := by decide +kernel
  have hgives : slowArrivals.givesUp .oneByte ⟨1, 2, 5, 6, 0⟩ 0 = true := by decide +kernel
  refine ⟨ReachableUnder.after (fun _ _ _ => trivial) _ .init, hsilence, hgives, fun hsilent => ?_⟩
  obtain ⟨sched, events, hhandle, hlim⟩ := handle_of_givesUp hgives
  have hle := hsilent _ _ _ hhandle _ _ hlim
  rw [hsilence] at hle
  cases hle

end RtxLog

end HomaSird.Homa
