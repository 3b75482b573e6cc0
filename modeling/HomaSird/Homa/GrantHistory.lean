import HomaSird.Homa.ResendComplete

/-! # The grants of a message

Beside the receiver stands a log of the offsets that each pending message has been
granted: the last one of its unscheduled packets, if it has any, and the offset of each
GRANT since.
-/

namespace HomaSird.Homa

open Transition Transition.Machine HomaRecvScheduler HomaInboundMsg List

def grantOf (key : MsgKey) (packet : Packet) : Option Nat :=
  if packet.hasFlag .grant ∧ packet.ctrlKey = key then some packet.homaHeader.grantOffset
  else none

def grantsIn (key : MsgKey) (events : List Event) : List Nat :=
  events.filterMap fun
    | .sendDown packet => grantOf key packet
    | _ => none

theorem grantsIn_sendDown (key : MsgKey) (packets : List Packet) :
    grantsIn key (packets.map .sendDown) = packets.filterMap (grantOf key) := by
  rw [grantsIn, filterMap_map]
  rfl

namespace HomaRecvScheduler.GrantRound

variable {cfg : Config} {busySenders : Finset Ipv4Address}

/-! ## What one round grants to a message -/

/-- A visit sends nothing and leaves the granted offset, or it sends the GRANT of the next one. -/
inductive Sends (prior msg : HomaInboundMsg) : List Packet → Prop where
  | nothing (hdata : msg.hasGrantedData = prior.hasGrantedData)
      (hgranted : msg.maxGrantedIdx = prior.maxGrantedIdx) : Sends prior msg []
  | grant {packet : Packet} (hgrant : grantOf prior.key packet = some msg.maxGrantedIdx)
      (hkey : packet.ctrlKey = prior.key) (hdata : msg.hasGrantedData = true)
      (hungranted : prior.isFullyGranted = false)
      (hnext : msg.maxGrantedIdx =
        if prior.hasGrantedData then
          max (prior.maxGrantedIdx + 1) (min prior.maxGrantableIdx (prior.msgSizePkts - 1))
        else 0) : Sends prior msg [packet]

section

variable {currentMsg msg : HomaInboundMsg} (hsound : currentMsg.Sound cfg)
  (hopened : Opened cfg currentMsg msg) (hungranted : currentMsg.isFullyGranted = false)
  (hgrantable : msg.isGrantable = true)
include hsound hopened hungranted hgrantable

theorem maxGrantableIdx_opened :
    min msg.maxGrantableIdx (currentMsg.msgSizePkts - 1) = if currentMsg.hasGrantedData then
        max (currentMsg.maxGrantedIdx + 1)
          (min currentMsg.maxGrantableIdx (currentMsg.msgSizePkts - 1))
      else 0 := by
  have hidle := sound_setCurrentlyScheduled hsound false
  cases hdata : currentMsg.hasGrantedData with
  | true =>
    have hnext : currentMsg.maxGrantedIdx + 1 < currentMsg.msgSizePkts := by
      simpa [isFullyGranted, hdata] using hungranted
    cases hopened with
    | asIs =>
      have hless : currentMsg.maxGrantedIdx < currentMsg.maxGrantableIdx := by
        simpa [isGrantable, setCurrentlyScheduled, hdata]
          using hgrantable
      simp only [setCurrentlyScheduled, if_true]
      omega
    | byCredit _ _ hwait =>
      rw [advanceGrantableWindow_eq hidle hungranted]
      simp only [setCurrentlyScheduled, hdata, if_true]
      omega
  | false =>
    have hzero := (hsound.closed hdata).1
    cases hopened with
    | asIs => simp [setCurrentlyScheduled, hzero]
    | byCredit =>
      rw [advanceGrantableWindow_eq hidle hungranted]
      simp [setCurrentlyScheduled, hdata, hzero]

theorem sends_generateGrant (prio : Nat) (scheduled : Bool) :
    Sends currentMsg ((msg.generateGrant prio).2.setCurrentlyScheduled scheduled)
      [(msg.generateGrant prio).1] := by
  have hoff := (sound_opened hsound hopened).grantOffset_eq
  have hwin := maxGrantableIdx_opened hsound hopened hungranted hgrantable
  obtain ⟨grantable, rfl⟩ := opened_frame hopened
  refine .grant ?_ rfl rfl hungranted ?_
  · have hflag : (generateGrant { currentMsg with
        maxGrantableIdx := grantable, currentlyScheduled := false } prio).1.hasFlag .grant = true :=
      hasFlag_ctrlPacket _ .grant _ _ _ .grant
    exact if_pos ⟨hflag, rfl⟩
  · rw [← hwin]
    exact hoff

end

theorem visit_sends {before after : GrantRound} {prior msg : HomaInboundMsg}
    (hsound : prior.Sound cfg) (hvisit : Visit cfg busySenders before prior after msg) :
    ∃ own, after.sent = before.sent ++ own ∧ Sends prior msg own := by
  cases hvisit with
  | pass => exact ⟨[], by simp, .nothing rfl rfl⟩
  | hold _ hopened =>
    obtain ⟨grantable, rfl⟩ := opened_frame hopened
    exact ⟨[], by simp, .nothing rfl rfl⟩
  | homaGrant _ hcons hgrantable =>
    refine ⟨_, ?_, sends_generateGrant hsound .asIs (isFullyGranted_of_considers hcons)
      hgrantable _ true⟩
    rw [issue, clampPrio_sent]
  | sirdGrant _ hopened hcons _ hgrantable =>
    refine ⟨_, ?_, sends_generateGrant hsound hopened (isFullyGranted_of_considers hcons)
      hgrantable _ true⟩
    rw [issue, clampPrio_sent]

theorem ctrlKey_of_sends {prior msg : HomaInboundMsg} {own : List Packet}
    (hsends : Sends prior msg own) : ∀ packet ∈ own, packet.ctrlKey = prior.key := by
  cases hsends with
  | nothing => exact fun _ hmem => nomatch hmem
  | grant _ hkey =>
    intro packet hmem
    rw [mem_singleton.mp hmem]
    exact hkey

theorem loop_sent {msgs : List HomaInboundMsg} (hsound : ∀ msg ∈ msgs, msg.Sound cfg)
    (round : GrantRound) :
    ∃ later,
      (loop (grantStep cfg busySenders) round msgs).1.sent = round.sent ++ later ∧
        ∀ packet ∈ later, packet.ctrlKey ∈ msgs.map key := by
  induction msgs generalizing round with
  | nil => exact ⟨[], (append_nil _).symm, fun _ hmem => nomatch hmem⟩
  | cons msg rest ih =>
    have hvisit := grantStep_visit cfg busySenders round msg
    obtain ⟨own, hown, hsends⟩ := visit_sends (hsound msg mem_cons_self) hvisit
    obtain ⟨later, hlater, hkeys⟩ := ih (fun other hother =>
      hsound other (.tail _ hother)) (grantStep cfg busySenders round msg).1
    refine ⟨own ++ later, ?_, ?_⟩
    · rw [loop, ← append_assoc, ← hown]
      exact hlater
    · intro packet hmem
      rcases mem_append.mp hmem with hhere | hthere
      · exact ctrlKey_of_sends hsends packet hhere ▸ mem_cons_self
      · exact mem_cons_of_mem _ (hkeys packet hthere)

theorem filterMap_grantOf_of_ne {key : MsgKey} {packets : List Packet}
    (hother : ∀ packet ∈ packets, packet.ctrlKey ≠ key) : packets.filterMap (grantOf key) = [] := by
  rw [filterMap_eq_nil_iff]
  intro packet hmem
  exact if_neg fun hboth => hother packet hmem hboth.2

def grantsOnly (admitted : HomaInboundMsg → Bool)
    (step : GrantRound → HomaInboundMsg → GrantRound × HomaInboundMsg) :
    GrantRound → List HomaInboundMsg → Bool
  | _, [] => true
  | round, msg :: rest =>
    (decide ((step round msg).1.sent = round.sent) || admitted msg) &&
      grantsOnly admitted step (step round msg).1 rest

theorem mem_loop_sends {msgs : List HomaInboundMsg} (hsound : ∀ msg ∈ msgs, msg.Sound cfg)
    (hnodup : (msgs.map key).Nodup) {admitted : HomaInboundMsg → Bool} {round : GrantRound}
    (honly : grantsOnly admitted (grantStep cfg busySenders) round msgs = true)
    {msg : HomaInboundMsg} (hmem : msg ∈ (loop (grantStep cfg busySenders) round msgs).2) :
    ∃ prior ∈ msgs, ∃ before after own,
      Visit cfg busySenders before prior after msg ∧ Sends prior msg own ∧
        (own = [] ∨ admitted prior = true) ∧
        (loop (grantStep cfg busySenders) round msgs).1.sent.filterMap (grantOf prior.key) =
          round.sent.filterMap (grantOf prior.key) ++ own.filterMap (grantOf prior.key) := by
  induction msgs generalizing round with
  | nil => cases hmem
  | cons first rest ih =>
    have hvisit := grantStep_visit cfg busySenders round first
    obtain ⟨own, hown, hsends⟩ := visit_sends (hsound first mem_cons_self) hvisit
    have hrest : ∀ other ∈ rest, other.Sound cfg := fun other hother =>
      hsound other (.tail _ hother)
    rw [map_cons, nodup_cons] at hnodup
    rw [grantsOnly, Bool.and_eq_true, Bool.or_eq_true, decide_eq_true_eq] at honly
    rw [loop] at hmem ⊢
    rcases mem_cons.mp hmem with rfl | hlater
    · have hadm : own = [] ∨ admitted first = true := by
        rcases honly.1 with hquiet | hadm
        · rw [hown] at hquiet
          exact .inl (append_right_eq_self.mp hquiet)
        · exact .inr hadm
      -- what comes later is for messages with other keys
      obtain ⟨later, hsent, hkeys⟩ := @loop_sent cfg busySenders rest hrest
        (grantStep cfg busySenders round first).1
      refine ⟨first, mem_cons_self, round, _, own, hvisit, hsends, hadm, ?_⟩
      dsimp only
      rw [hsent, hown, filterMap_append, filterMap_append,
        @filterMap_grantOf_of_ne first.key later fun packet hpkt heq =>
          hnodup.1 (heq ▸ hkeys packet hpkt), append_nil]
    · obtain ⟨prior, hprior, before, after, sent, hthere, hgrants, hadm, hround⟩ :=
        ih hrest hnodup.2 honly.2 hlater
      refine ⟨prior, mem_cons_of_mem _ hprior, before, after, sent, hthere, hgrants, hadm, ?_⟩
      have hne : first.key ≠ prior.key := fun heq =>
        hnodup.1 (heq ▸ mem_map_of_mem hprior)
      dsimp only
      rw [hround, hown, filterMap_append,
        @filterMap_grantOf_of_ne prior.key own fun packet hpkt heq =>
          hne ((ctrlKey_of_sends hsends packet hpkt).symm.trans heq), append_nil]

end HomaRecvScheduler.GrantRound

namespace HomaInboundMsg

/-- The last offset that may be transmitted without a GRANT, if there is one. -/
def openingGrant (cfg : Config) (msg : HomaInboundMsg) : List Nat :=
  if isLongSirdMsg cfg msg.msgSizePkts then []
  else [unscheduledIdx cfg msg.msgSizePkts]

end HomaInboundMsg

structure GrantLog where
  receiver : Receiver
  granted : MsgKey → List Nat

namespace GrantLog

def pending (sched : HomaRecvScheduler) (key : MsgKey) : Option HomaInboundMsg :=
  sched.inboundMsgs.find? fun msg => msg.key = key

/-- What an event adds to the log of a key: the offsets granted to a pending message, or the
opening of a log. -/
def note (cfg : Config) (granted : MsgKey → List Nat) (sched next : HomaRecvScheduler)
    (events : List Event) (key : MsgKey) : List Nat :=
  match pending sched key with
  | some _ => granted key ++ grantsIn key events
  | none => ((pending next key).map (HomaInboundMsg.openingGrant cfg)).getD []

def step (cfg : Config) (state : GrantLog) (input : RecvInput) : Except Fault GrantLog := do
  let (sched, events) ← state.receiver.sched.handle cfg input
  .ok ⟨⟨sched, state.receiver.trace ++ events⟩,
    note cfg state.granted state.receiver.sched sched events⟩

def machine (cfg : Config) : Machine GrantLog RecvInput Fault where
  init := ⟨(Receiver.machine cfg).init, fun _ => []⟩
  step := step cfg

variable {cfg : Config} {state next : GrantLog} {sched after : HomaRecvScheduler}
  {msg prior : HomaInboundMsg} {events : List Event} {input : RecvInput}

theorem step_eq_ok (hstep : (machine cfg).step state input = .ok next) :
    ∃ events,
      state.receiver.sched.handle cfg input = .ok (next.receiver.sched, events) ∧
        next.receiver.trace = state.receiver.trace ++ events ∧
        next.granted = note cfg state.granted state.receiver.sched next.receiver.sched events := by
  obtain ⟨⟨sched, events⟩, hhandle, hok⟩ := bind_eq_ok.mp hstep
  cases hok
  exact ⟨events, hhandle, rfl, rfl⟩

variable {allowed : GrantLog → RecvInput → Prop} {packet : Packet}

theorem reachable_receiver (hreach : (machine cfg).ReachableUnder allowed state) :
    (Receiver.machine cfg).Reachable state.receiver := by
  apply hreach.observed GrantLog.receiver rfl
  intro state input next hstep
  obtain ⟨events, hhandle, htrace, -⟩ := step_eq_ok hstep
  refine bind_eq_ok.mpr ⟨_, hhandle, ?_⟩
  dsimp only
  rw [← htrace]

theorem pending_eq_some (hwf : sched.WellFormed cfg)
    (hmem : msg ∈ sched.inboundMsgs) : pending sched msg.key = some msg := by
  cases hfind : pending sched msg.key with
  | none => exact absurd (decide_eq_true rfl) (find?_eq_none.mp hfind msg hmem)
  | some found =>
    have hkey : found.key = msg.key := by simpa using find?_some hfind
    rw [inj_on_of_nodup_map hwf.nodup (mem_of_find?_eq_some hfind) hmem hkey]

theorem pending_eq_none {key : MsgKey}
    (hnew : ∀ msg ∈ sched.inboundMsgs, msg.key ≠ key) : pending sched key = none :=
  find?_eq_none.mpr fun msg hmem => by simpa using hnew msg hmem

/-! ## What one event grants to a pending message -/

theorem grantsIn_of_not_tick (hwf : sched.WellFormed cfg)
    (hinp : input ≠ .creditTick) (hhandle : sched.handle cfg input = .ok (after, events))
    (key : MsgKey) : grantsIn key events = [] := by
  rw [grantsIn, filterMap_eq_nil_iff]
  intro event hev
  cases emitted hwf hhandle hev with
  | forwardUp => rfl
  | @ack _ inboundMsg =>
    have hflag : (inboundMsg.generateAck cfg.numUnschedPrioBands).hasFlag .grant = false :=
      hasFlag_ctrlPacket _ .ack _ _ _ .grant
    exact if_neg (by simp [hflag])
  | dataRecv => rfl
  | grant => exact absurd rfl hinp
  | rtxLimit => rfl
  | resend => exact if_neg (by simp [hasFlag_ctrlPacket])

def ticksOnly (cfg : Config) (admitted : HomaInboundMsg → Bool) (sched : HomaRecvScheduler) :
    RecvInput → Bool
  | .creditTick => GrantRound.grantsOnly admitted (grantStep cfg sched.busySenders)
      (GrantRound.start cfg sched.sird) sched.inboundMsgs
  | _ => true

inductive Advanced (cfg : Config) (admitted : HomaInboundMsg → Bool)
    (sched : HomaRecvScheduler) (log : List Nat) (msg : HomaInboundMsg) : List Nat → Prop where
  | kept {prior : HomaInboundMsg} {own : List Packet} (hprior : prior ∈ sched.inboundMsgs)
      (hkey : prior.key = msg.key) (hsz : msg.msgSizePkts = prior.msgSizePkts)
      (hsends : GrantRound.Sends prior msg own) (hadmitted : own = [] ∨ admitted prior = true) :
      Advanced cfg admitted sched log msg (log ++ own.filterMap (grantOf prior.key))
  | opened {packet : Packet} {created : HomaInboundMsg}
      (hcreate : HomaInboundMsg.create cfg packet = .ok created)
      (hmsg : msg = { created with rtxEvent := some created.maxGrantedIdx }) :
      Advanced cfg admitted sched log msg (msg.openingGrant cfg)

theorem sends_receive {payload : Payload}
    {pktOffset : Nat} (hrecv : prior.receiveDataPacket cfg payload pktOffset = .ok msg) :
    GrantRound.Sends prior msg [] ∧ msg.msgSizePkts = prior.msgSizePkts := by
  rcases receiveDataPacket_eq_ok hrecv with ⟨rfl, -⟩ | ⟨rfl, -, -⟩
  · exact ⟨.nothing rfl rfl, rfl⟩
  · unfold openWindow
    split
    · exact ⟨.nothing rfl rfl, rfl⟩
    · exact ⟨.nothing rfl rfl, rfl⟩

theorem note_of_pending (hwf : sched.WellFormed cfg) (hprior : prior ∈ sched.inboundMsgs)
    (granted : MsgKey → List Nat) :
    note cfg granted sched after events prior.key =
      granted prior.key ++ grantsIn prior.key events := by
  rw [note, pending_eq_some hwf hprior]

theorem advanced_of_handle (hwf : sched.WellFormed cfg) {admitted : HomaInboundMsg → Bool}
    (hcheck : ticksOnly cfg admitted sched input = true)
    (hhandle : sched.handle cfg input = .ok (after, events)) (hmem : msg ∈ after.inboundMsgs)
    (granted : MsgKey → List Nat) :
    Advanced cfg admitted sched (granted msg.key) msg
      (note cfg granted sched after events msg.key) := by
  have hwfAfter := wellFormed_handle hwf hhandle
  -- a message that stays pending and is granted nothing
  have hstays {prior : HomaInboundMsg} (hinp : input ≠ .creditTick)
      (hprior : prior ∈ sched.inboundMsgs) (hkey : prior.key = msg.key)
      (hsz : msg.msgSizePkts = prior.msgSizePkts) (hsends : GrantRound.Sends prior msg []) :
      Advanced cfg admitted sched (granted msg.key) msg
        (note cfg granted sched after events msg.key) := by
    rw [← hkey, note_of_pending hwf hprior, grantsIn_of_not_tick hwf hinp hhandle]
    exact .kept hprior hkey hsz hsends (.inl rfl)
  cases handled hwf hhandle with
  | @data packet _ inboundMsg others hdata hgot =>
    obtain ⟨before, hset, -⟩ := hgot.settled
    have hothers : msg ∈ others → msg ∈ sched.inboundMsgs := by
      intro hother
      cases hgot.taken with
      | pending hperm => exact hperm.mem_iff.mpr (.tail _ hother)
      | fresh heq => exact heq ▸ hother
    cases hset with
    | complete _ hmsgs =>
      exact hstays nofun (hothers (hmsgs ▸ hmem)) rfl rfl (.nothing rfl rfl)
    | waiting _ hmsgs =>
      rcases mem_cons.mp (hmsgs.mem_iff.mp hmem) with rfl | hother
      · cases hgot.taken with
        | pending hperm _ hmove =>
          obtain ⟨hsends, hsz⟩ := sends_receive hmove
          exact hstays nofun (hperm.mem_iff.mpr mem_cons_self)
            (receiveDataPacket_frame hmove).1.symm hsz hsends
        | fresh _ hnew hcreate hmsg =>
          have hnone : pending sched msg.key = none := by
            rw [hgot.taken.key_eq]
            exact pending_eq_none hnew
          rw [note, hnone, pending_eq_some hwfAfter hmem]
          exact .opened hcreate hmsg
      · exact hstays nofun (hothers hother) rfl rfl (.nothing rfl rfl)
  | control _ hmsgs =>
    exact hstays nofun (hmsgs ▸ hmem) rfl rfl (.nothing rfl rfl)
  | creditTick hnext =>
    subst hnext
    obtain ⟨prior, hprior, before, after, own, hvisit, hsends, hadm, hgrants⟩ :=
      GrantRound.mem_loop_sends hwf.sound hwf.nodup hcheck hmem
    have hkey := visit_key before prior after msg hvisit
    have hsz : msg.msgSizePkts = prior.msgSizePkts := by
      obtain ⟨_, _, _, _, _, rfl⟩ := visit_frame hvisit
      rfl
    rw [hkey, note_of_pending hwf hprior, grantsIn_sendDown, ← hkey]
    have hround : (sched.creditTick cfg).2.filterMap (grantOf prior.key) =
        own.filterMap (grantOf prior.key) := hgrants
    rw [hkey, hround]
    exact .kept hprior hkey.symm hsz hsends hadm
  | rtxExpire hexpired =>
    cases hexpired with
    | dropped _ _ hnext =>
      subst hnext
      exact hstays nofun (mem_of_mem_eraseIdx hmem) rfl rfl (.nothing rfl rfl)
    | @rearmed expired _ hmsg _ _ hnext =>
      subst hnext
      rcases mem_or_eq_of_mem_set hmem with hold | rfl
      · exact hstays nofun hold rfl rfl (.nothing rfl rfl)
      · exact hstays nofun (mem_of_getElem? hmsg) rfl rfl (.nothing rfl rfl)

/-! ## The grants of a message increase -/

structure Logged (log : List Nat) (msg : HomaInboundMsg) : Prop where
  increasing : log.Pairwise (· < ·)
  getLast?_eq : log.getLast? = if msg.hasGrantedData then some msg.maxGrantedIdx else none

theorem pairwise_concat {log : List Nat} {last : Nat} (hlog : log.Pairwise (· < ·))
    (hless : ∀ earlier, log.getLast? = some earlier → earlier < last) :
    (log ++ [last]).Pairwise (· < ·) := by
  rw [pairwise_append]
  refine ⟨hlog, pairwise_singleton _ _, fun offset hoff final hfinal => ?_⟩
  rw [mem_singleton.mp hfinal]
  cases hend : log.getLast? with
  | none =>
    rw [getLast?_eq_none_iff.mp hend] at hoff
    cases hoff
  | some earlier =>
    obtain ⟨before, rfl⟩ := getLast?_eq_some_iff.mp hend
    have hlast := hless earlier hend
    rcases mem_append.mp hoff with hpre | hhere
    · have horder := (pairwise_append.mp hlog).2.2 offset hpre earlier
        mem_cons_self
      omega
    · rw [mem_singleton.mp hhere]
      exact hlast

theorem Logged.sends {log : List Nat} {own : List Packet} (hlogged : Logged log prior) (hsends :
    GrantRound.Sends prior msg own) : Logged (log ++ own.filterMap (grantOf prior.key)) msg := by
  cases hsends with
  | nothing hdata hgranted =>
    rw [filterMap_nil, append_nil]
    exact ⟨hlogged.increasing, by rw [hlogged.getLast?_eq, hdata, hgranted]⟩
  | grant hgrant _ hdata _ hnext =>
    rw [filterMap_cons_some hgrant, filterMap_nil]
    refine ⟨pairwise_concat hlogged.increasing fun earlier hearly => ?_, ?_⟩
    · rw [hlogged.getLast?_eq] at hearly
      split at hearly
      next hprior =>
        cases hearly
        rw [if_pos hprior] at hnext
        omega
      · cases hearly
    · rw [getLast?_concat, if_pos hdata]

end GrantLog

end HomaSird.Homa
