import HomaSird.Homa.ReceiverStep

/-! # What an expired timer asks for again

Beside the receiver stand the offsets that had been granted to each message when its timer
was armed. An expiry names all of them that are missing but the last one.
-/

namespace HomaSird.Homa

open Transition Transition.Machine HomaRecvScheduler HomaInboundMsg List

namespace HomaInboundMsg

def grantedOffsets (msg : HomaInboundMsg) : List Nat :=
  if msg.hasGrantedData then List.range (msg.maxGrantedIdx + 1) else []

end HomaInboundMsg

structure TimedReceiver where
  receiver : Receiver
  armed : MsgKey → List Nat

namespace TimedReceiver

def armsTimer (sched : HomaRecvScheduler) : RecvInput → Option MsgKey
  | .packet packet =>
    match sched.getInboundMsg packet.key with
    | none => some packet.key
    | some _ => none
  | .creditTick => none
  | .rtxExpire timer => (sched.inboundMsgs[timer]?).map HomaInboundMsg.key

def grantedTo (sched : HomaRecvScheduler) (key : MsgKey) : List Nat :=
  match sched.inboundMsgs.find? fun msg => msg.key = key with
  | some msg => msg.grantedOffsets
  | none => []

def step (cfg : Config) (state : TimedReceiver) (input : RecvInput) :
    Except Fault TimedReceiver := do
  let next ← Receiver.step cfg state.receiver input
  .ok ⟨next, fun key =>
    if armsTimer state.receiver.sched input = some key then grantedTo next.sched key
    else state.armed key⟩

def machine (cfg : Config) : Machine TimedReceiver RecvInput Fault where
  init := ⟨(Receiver.machine cfg).init, fun _ => []⟩
  step := step cfg

variable {cfg : Config} {state next : TimedReceiver} {msg prior : HomaInboundMsg}
  {sched : HomaRecvScheduler} {timer : Nat}

/-! ## What was granted when the timer was armed -/

/-- The timer of a message knows what had been granted, or nothing had been. -/
structure Timed (armed : List Nat) (msg : HomaInboundMsg) : Prop where
  timer : ∃ last, msg.rtxEvent = some last ∧ last ≤ msg.maxGrantedIdx ∧
    (armed = [] ∨ armed = List.range (last + 1))
  scheduled : msg.currentlyScheduled = true → msg.hasGrantedData = true

variable {armed : List Nat}

theorem Timed.of_same (htimed : Timed armed prior)
    (htimer : msg.rtxEvent = prior.rtxEvent) (hgrant : prior.maxGrantedIdx ≤ msg.maxGrantedIdx)
    (hsched : msg.currentlyScheduled = true → msg.hasGrantedData = true) : Timed armed msg := by
  obtain ⟨last, hlast, hle, harmed⟩ := htimed.timer
  exact ⟨⟨last, htimer.trans hlast, hle.trans hgrant, harmed⟩, hsched⟩

theorem Timed.of_armed (htimer : msg.rtxEvent = some msg.maxGrantedIdx) (hsched :
    msg.currentlyScheduled = true → msg.hasGrantedData = true) : Timed msg.grantedOffsets msg := by
  refine ⟨⟨msg.maxGrantedIdx, htimer, le_rfl, ?_⟩, hsched⟩
  rw [grantedOffsets]
  split
  · exact .inr rfl
  · exact .inl rfl

theorem timed_receive {payload : Payload}
    {pktOffset : Nat} {received : HomaInboundMsg} (htimed : Timed armed msg) (hrecv :
    msg.receiveDataPacket cfg payload pktOffset = .ok received) : Timed armed received := by
  rcases receiveDataPacket_eq_ok hrecv with ⟨rfl, -⟩ | ⟨rfl, -, -⟩
  · exact htimed
  · unfold openWindow
    split
    · exact htimed.of_same rfl (le_rfl) htimed.scheduled
    · exact htimed.of_same rfl (le_rfl) htimed.scheduled

theorem timed_opened (htimed : Timed armed prior)
    (hopened : GrantRound.Opened cfg prior msg) : Timed armed msg := by
  obtain ⟨grantable, rfl⟩ := opened_frame hopened
  exact htimed.of_same rfl (le_rfl) fun hsched => by cases hsched

theorem timed_granted {grant : GrantRound}
    (htimed : Timed armed msg) (hsound : msg.Sound cfg) : Timed armed (grant.issue msg).2 := by
  have hgrant := hsound.granted_le
  have hsz := hsound.granted_lt
  refine htimed.of_same rfl ?_ fun _ => rfl
  change msg.maxGrantedIdx ≤ msg.grantOffset
  rw [hsound.grantOffset_eq]
  omega

theorem timed_visit {busySenders : Finset Ipv4Address}
    {before after : GrantRound} (htimed : Timed armed prior) (hsound : prior.Sound cfg)
    (hvisit : GrantRound.Visit cfg busySenders before prior after msg) : Timed armed msg := by
  cases hvisit with
  | pass => exact timed_opened htimed (.asIs : GrantRound.Opened cfg prior _)
  | hold _ hopened => exact timed_opened htimed hopened
  | homaGrant =>
    have hidle := sound_setCurrentlyScheduled hsound false
    exact timed_granted (timed_opened htimed (.asIs : GrantRound.Opened cfg prior _)) hidle
  | sirdGrant _ hopened =>
    exact timed_granted (timed_opened htimed hopened) (sound_opened hsound hopened)

def AllTimed (state : TimedReceiver) : Prop :=
  ∀ msg ∈ state.receiver.sched.inboundMsgs, Timed (state.armed msg.key) msg

theorem grantedTo_eq (hwf : sched.WellFormed cfg)
    (hmem : msg ∈ sched.inboundMsgs) : grantedTo sched msg.key = msg.grantedOffsets := by
  rw [grantedTo]
  cases hfind : sched.inboundMsgs.find? fun other => other.key = msg.key with
  | none => exact absurd (decide_eq_true rfl) (find?_eq_none.mp hfind msg hmem)
  | some found =>
    have hkey : found.key = msg.key := by simpa using find?_some hfind
    rw [inj_on_of_nodup_map hwf.nodup (mem_of_find?_eq_some hfind) hmem hkey]

variable {packet : Packet}

theorem armsTimer_packet (hmem : msg ∈ sched.inboundMsgs) :
    armsTimer sched (.packet packet) ≠ some msg.key := by
  rw [armsTimer]
  cases hfound : sched.getInboundMsg packet.key with
  | some index => exact nofun
  | none =>
    have hnew := findIdx?_eq_none_iff.mp hfound msg hmem
    intro hsame
    simp [Option.some.inj hsame] at hnew

theorem timed_created {created : HomaInboundMsg} (hcreate : create cfg packet = .ok created)
    (hmsg : msg = { created with rtxEvent := some created.maxGrantedIdx }) :
    Timed msg.grantedOffsets msg := by
  subst hmsg
  refine .of_armed rfl fun hsched => ?_
  rcases create_eq_ok hcreate with ⟨-, rfl⟩ | ⟨-, -, rfl⟩
  · cases hsched
  · cases hsched

theorem getInboundMsg_eq_none {key : MsgKey}
    (hnew : ∀ msg ∈ sched.inboundMsgs, msg.key ≠ key) : sched.getInboundMsg key = none :=
  findIdx?_eq_none_iff.mpr fun msg hmem => by simpa using hnew msg hmem

theorem timed_packet {events : List Event} {after : HomaRecvScheduler} (hwf : after.WellFormed cfg)
    (htimed : AllTimed state)
    (hrecv : state.receiver.sched.receivePacket cfg packet = .ok (after, events))
    (hmem : msg ∈ after.inboundMsgs) :
    Timed (if armsTimer state.receiver.sched (.packet packet) = some msg.key then
        grantedTo after msg.key
      else state.armed msg.key) msg := by
  have hold : ∀ other ∈ state.receiver.sched.inboundMsgs,
      Timed (if armsTimer state.receiver.sched (.packet packet) = some other.key
        then grantedTo after other.key else state.armed other.key) other := by
    intro other hother
    rw [if_neg (armsTimer_packet hother)]
    exact htimed other hother
  by_cases hdata : packet.hasFlag .data = true
  · obtain ⟨inboundMsg, others, hgot⟩ := receivePacket_data hdata hrecv
    obtain ⟨before, hset, -⟩ := hgot.settled
    have hothers : ∀ other ∈ others, other ∈ state.receiver.sched.inboundMsgs := by
      intro other hother
      cases hgot.taken with
      | pending hperm => exact hperm.mem_iff.mpr (.tail _ hother)
      | fresh heq => exact heq ▸ hother
    cases hset with
    | complete _ hmsgs => exact hold msg (hothers msg (hmsgs ▸ hmem))
    | waiting _ hmsgs =>
      rcases mem_cons.mp (hmsgs.mem_iff.mp hmem) with rfl | hother
      · cases hgot.taken with
        | @pending prior hperm _ hmove =>
          have hprior := hperm.mem_iff.mpr mem_cons_self
          have hkey := (receiveDataPacket_frame hmove).1
          rw [hkey, if_neg (armsTimer_packet hprior)]
          exact timed_receive (htimed prior hprior) hmove
        | fresh _ hnew hcreate hmsg =>
          have hkey := hgot.taken.key_eq
          rw [if_pos (by rw [armsTimer, getInboundMsg_eq_none hnew, hkey]), grantedTo_eq hwf hmem]
          exact timed_created hcreate hmsg
      · exact hold msg (hothers msg hother)
  · obtain ⟨-, hmsgs, -⟩ := receivePacket_not_data (by simpa using hdata) hrecv
    exact hold msg (hmsgs ▸ hmem)

theorem timed_expire {events : List Event} {after : HomaRecvScheduler}
    (hwf : state.receiver.sched.WellFormed cfg) (hwfAfter : after.WellFormed cfg)
    (htimed : AllTimed state)
    (hexpire : state.receiver.sched.expireRtxTimeout cfg timer = .ok (after, events))
    (hmem : msg ∈ after.inboundMsgs) :
    Timed (if armsTimer state.receiver.sched (.rtxExpire timer) = some msg.key then
        grantedTo after msg.key
      else state.armed msg.key) msg := by
  -- the other messages have other keys
  have hold : ∀ expired, state.receiver.sched.inboundMsgs[timer]? = some expired →
      ∀ other ∈ state.receiver.sched.inboundMsgs.eraseIdx timer,
        Timed (if armsTimer state.receiver.sched (.rtxExpire timer) = some other.key
          then grantedTo after other.key else state.armed other.key) other := by
    intro expired hexp other hother
    obtain ⟨hlt, rfl⟩ := List.getElem?_eq_some_iff.mp hexp
    have hnodup := ((getElem_cons_eraseIdx_perm hlt).map key).nodup_iff.mpr
      hwf.nodup
    rw [map_cons, nodup_cons] at hnodup
    have hne : armsTimer state.receiver.sched (.rtxExpire timer) ≠ some other.key := by
      rw [armsTimer, hexp, Option.map_some]
      intro hsame
      exact hnodup.1 (Option.some.inj hsame ▸ mem_map_of_mem hother)
    rw [if_neg hne]
    exact htimed other (mem_of_mem_eraseIdx hother)
  cases expireRtxTimeout_eq_ok hwf hexpire with
  | @dropped expired hmsg _ hnext =>
    subst hnext
    exact hold expired hmsg msg hmem
  | @rearmed expired _ hmsg _ _ hnext =>
    subst hnext
    obtain ⟨hlt, -⟩ := List.getElem?_eq_some_iff.mp hmsg
    have hperm := set_perm_cons_eraseIdx hlt (rearmRtx expired)
    rcases mem_cons.mp (hperm.mem_iff.mp hmem) with rfl | hother
    · rw [if_pos (by rw [armsTimer, hmsg]; rfl), grantedTo_eq hwfAfter hmem]
      exact .of_armed rfl (htimed expired (mem_of_getElem? hmsg)).scheduled
    · exact hold expired hmsg msg hother

theorem step_eq_ok {input : RecvInput} (hstep : (machine cfg).step state input = .ok next) :
    (Receiver.machine cfg).step state.receiver input = .ok next.receiver ∧
      next.armed = fun key => if armsTimer state.receiver.sched input = some key then
            grantedTo next.receiver.sched key
          else state.armed key := by
  obtain ⟨receiver, hrecv, hok⟩ := bind_eq_ok.mp hstep
  cases hok
  exact ⟨hrecv, rfl⟩

theorem reachable_receiver (hreach : (machine cfg).Reachable state) :
    (Receiver.machine cfg).Reachable state.receiver :=
  hreach.observed TimedReceiver.receiver rfl fun _ _ _ hstep => (step_eq_ok hstep).1

theorem allTimed_of_reachable (hreach : (machine cfg).Reachable state) : AllTimed state := by
  refine hreach.invariant_of (fun _ hreach => Receiver.wellFormed_of_reachable
    (reachable_receiver hreach)) (fun _ hmem => absurd hmem not_mem_nil) ?_
  intro state input next hwf htimed _ hstep msg hmem
  obtain ⟨hrecv, harmed⟩ := step_eq_ok hstep
  obtain ⟨events, hhandle, -⟩ := Receiver.step_eq_ok hrecv
  have hwfNext := wellFormed_handle hwf hhandle
  rw [harmed]
  dsimp only
  cases input with
  | packet packet => exact timed_packet hwfNext htimed (handle_packet hhandle).2 hmem
  | creditTick =>
    obtain ⟨-, hnext, -⟩ := handle_creditTick hhandle
    rw [hnext] at hmem
    obtain ⟨prior, hprior, before, after, hvisit, -⟩ := GrantRound.mem_loop hmem
    have hkey := visit_key before prior after msg hvisit
    rw [if_neg (by exact nofun), hkey]
    exact timed_visit (htimed prior hprior) (hwf.sound prior hprior) hvisit
  | rtxExpire timer => exact timed_expire hwf hwfNext htimed hhandle hmem

/-! ## The RESENDs of an expiry -/

def resentOffset (key : MsgKey) : Event → Option Nat
  | .sendDown packet =>
    if packet.hasFlag .resend ∧ packet.ctrlKey = key then some packet.homaHeader.pktOffset
    else none
  | _ => none

structure ResendsComplete (armed : List Nat) (msg : HomaInboundMsg) (resent : List Nat) : Prop where
  once : ∀ pktOffset ∈ armed, msg.receivedPackets[pktOffset]? = some false →
    resent.count pktOffset = 1
  only : ∀ pktOffset ∈ resent, msg.receivedPackets[pktOffset]? = some false ∧
    pktOffset ∈ msg.grantedOffsets

def LastReceived (armed : List Nat) (msg : HomaInboundMsg) : Prop :=
  ∀ last, armed.getLast? = some last → msg.receivedPackets[last]? = some true

structure Resends (cfg : Config) (state : TimedReceiver) (timer : Nat) (msg : HomaInboundMsg) :
    Prop where
  pending : state.receiver.sched.inboundMsgs[timer]? = some msg
  below : msg.numRtxWithoutProgress < cfg.maxNumRtxPerMsg
  idle : msg.getSrcAddress ∉ state.receiver.sched.busySenders
  scheduled : msg.currentlyScheduled = true

theorem resentOffsets_eq (msg : HomaInboundMsg) (grantOffset prio : Nat) (pktOffsets : List Nat) :
    (pktOffsets.map fun pktOffset => Event.sendDown
      (msg.ctrlPacket .resend pktOffset grantOffset prio)).filterMap (resentOffset msg.key) =
      pktOffsets := by
  induction pktOffsets with
  | nil => rfl
  | cons pktOffset rest ih =>
    have hresend : resentOffset msg.key
        (.sendDown (msg.ctrlPacket .resend pktOffset grantOffset prio)) = some pktOffset := by
      rw [resentOffset, hasFlag_ctrlPacket]
      exact if_pos ⟨rfl, rfl⟩
    rw [map_cons, filterMap_cons_some hresend, ih]

section

variable {last : Nat} (hsound : msg.Sound cfg) (hle : last ≤ msg.maxGrantedIdx) (hgrant :
  msg.hasGrantedData = true)
include hsound hle hgrant

theorem resends_eq (hidle : msg.getSrcAddress ∉ sched.busySenders)
    (hsched : msg.currentlyScheduled = true) :
    ((sched.resends msg last).map Event.sendDown).filterMap (resentOffset msg.key) =
      (range last).filter fun pktOffset => msg.receivedPackets[pktOffset]? = some false := by
  have hlt := hsound.granted_lt
  rw [HomaRecvScheduler.resends, if_pos ⟨hidle, hsched⟩, generateResends,
    if_pos hgrant, min_eq_left (hle.trans (le_of_lt hlt)), min_eq_left hle, map_map]
  exact resentOffsets_eq msg _ _ _

theorem resendsComplete_iff_last {armed : List Nat}
    (harmed : armed = [] ∨ armed = range (last + 1)) :
    ResendsComplete armed msg
      ((range last).filter fun pktOffset => msg.receivedPackets[pktOffset]? = some false) ↔
      LastReceived armed msg := by
  have hlen : last < msg.receivedPackets.length := by
    rw [hsound.length_eq]
    exact lt_of_le_of_lt hle hsound.granted_lt
  have honly : ∀ pktOffset ∈ (range last).filter
      (fun pktOffset => msg.receivedPackets[pktOffset]? = some false),
        msg.receivedPackets[pktOffset]? = some false ∧ pktOffset ∈ msg.grantedOffsets := by
    intro pktOffset hmem
    obtain ⟨hrng, hmiss⟩ := mem_filter.mp hmem
    have hlt := mem_range.mp hrng
    rw [grantedOffsets, if_pos hgrant]
    exact ⟨of_decide_eq_true hmiss, mem_range.mpr (by omega)⟩
  rcases harmed with rfl | rfl
  · exact ⟨(fun _ _ hnone => nomatch hnone), fun _ => ⟨(fun _ hmem => nomatch hmem), honly⟩⟩
  · have hlast : (range (last + 1)).getLast? = some last := by
      rw [range_succ, getLast?_append, getLast?_singleton]
      rfl
    constructor
    · intro hfull found hfound
      obtain rfl := Option.some.inj (hlast.symm.trans hfound)
      -- the last offset is beyond those that the loop looks at
      have hnot : ((range last).filter
          fun pktOffset => msg.receivedPackets[pktOffset]? = some false).count last = 0 :=
        count_eq_zero.mpr fun hmem =>
          lt_irrefl _ (mem_range.mp (mem_filter.mp hmem).1)
      cases hgot : msg.receivedPackets[last] with
      | true => rw [getElem?_eq_getElem hlen, hgot]
      | false =>
        have honce := hfull.once last (mem_range.mpr (Nat.lt_succ_self _))
          (by rw [getElem?_eq_getElem hlen, hgot])
        exact absurd (hnot.symm.trans honce) (by decide)
    · refine fun hgot => ⟨fun pktOffset hmem hmiss => ?_, honly⟩
      have hne : pktOffset ≠ last := by
        rintro rfl
        rw [hgot pktOffset hlast] at hmiss
        cases hmiss
      have hlt : pktOffset < last := by
        have hrng := mem_range.mp hmem
        omega
      refine count_eq_one_of_mem (nodup_range.filter _) (mem_filter.mpr
        ⟨mem_range.mpr hlt, decide_eq_true hmiss⟩)

end

theorem expire_resends (hreach : (machine cfg).Reachable state)
    (hresend : Resends cfg state timer msg) :
    ∃ next events last,
      (machine cfg).step state (.rtxExpire timer) = .ok next ∧
        next.receiver.trace = state.receiver.trace ++ events ∧
        events.filterMap (resentOffset msg.key) =
          ((range last).filter fun pktOffset => msg.receivedPackets[pktOffset]? = some false) ∧
        (ResendsComplete (state.armed msg.key) msg (events.filterMap (resentOffset msg.key)) ↔
          LastReceived (state.armed msg.key) msg) ∧
        msg.rtxEvent = some last := by
  have hwf := Receiver.wellFormed_of_reachable (reachable_receiver hreach)
  have hmem := mem_of_getElem? hresend.pending
  have hsound := hwf.sound msg hmem
  have htimed := allTimed_of_reachable hreach msg hmem
  have hgrant := htimed.scheduled hresend.scheduled
  obtain ⟨last, htimer, hle, harmed⟩ := htimed.timer
  have hexpire : state.receiver.sched.expireRtxTimeout cfg timer =
      .ok ({ state.receiver.sched with
        inboundMsgs := state.receiver.sched.inboundMsgs.set timer (rearmRtx msg) },
        (state.receiver.sched.resends msg last).map .sendDown) := by
    simp only [expireRtxTimeout, hresend.pending, htimer, hwf.incomplete msg hmem,
      hwf.getInboundMsg_eq hresend.pending, if_neg (not_le.mpr hresend.below)]
    rfl
  have hresent := resends_eq hsound hle hgrant hresend.idle hresend.scheduled
  refine ⟨_, _, last, bind_eq_ok.mpr ⟨_, bind_eq_ok.mpr ⟨_, hexpire, rfl⟩, rfl⟩, rfl, hresent, ?_,
    htimer⟩
  rw [hresent]
  exact resendsComplete_iff_last hsound hle hgrant harmed

/-- An expiry that sends RESENDs asks for everything granted when its timer was armed and missing
just when the last of it is not. -/
theorem resendsComplete_iff (hreach : (machine cfg).Reachable state)
    (hresends : Resends cfg state timer msg) :
    ∃ next events,
      (machine cfg).step state (.rtxExpire timer) = .ok next ∧
        next.receiver.trace = state.receiver.trace ++ events ∧
        (ResendsComplete (state.armed msg.key) msg (events.filterMap (resentOffset msg.key)) ↔
          LastReceived (state.armed msg.key) msg) := by
  obtain ⟨next, events, last, hstep, htrace, -, hiff, -⟩ := expire_resends hreach hresends
  exact ⟨next, events, hstep, htrace, hiff⟩

/-- A packet of a message of twelve has arrived, ten of which need no GRANT, and one more is
granted. -/
def waiting (pktOffset : Nat) : TimedReceiver :=
  (machine Config.oneByte).after (fun _ _ => true)
    [.packet (samplePacket 12 pktOffset [7]), .creditTick] (machine Config.oneByte).init

theorem reachable_waiting (pktOffset : Nat) :
    (machine Config.oneByte).Reachable (waiting pktOffset) :=
  ReachableUnder.after (fun _ _ _ => trivial) _ .init

def waitingMsg (pktOffset : Nat) : HomaInboundMsg :=
  ((waiting pktOffset).receiver.sched.inboundMsgs[0]?).getD
    (.blank Config.oneByte (samplePacket 12 pktOffset []))

theorem resendsComplete_iff_arrived :
    Resends Config.oneByte (waiting 9) 0 (waitingMsg 9) ∧
      ∃ next events,
        (machine Config.oneByte).step (waiting 9) (.rtxExpire 0) = .ok next ∧
          next.receiver.trace = (waiting 9).receiver.trace ++ events ∧
          (ResendsComplete ((waiting 9).armed (waitingMsg 9).key) (waitingMsg 9)
            (events.filterMap (resentOffset (waitingMsg 9).key)) ↔
            LastReceived ((waiting 9).armed (waitingMsg 9).key) (waitingMsg 9)) := by
  have hresends : Resends Config.oneByte (waiting 9) 0 (waitingMsg 9) :=
    ⟨by decide +kernel, by decide +kernel, by decide +kernel, by decide +kernel⟩
  exact ⟨hresends, resendsComplete_iff (reachable_waiting 9) hresends⟩

theorem last_granted_not_resent :
    (machine Config.oneByte).Reachable (waiting 0) ∧
      Resends Config.oneByte (waiting 0) 0 (waitingMsg 0) ∧
      ∃ next events,
        (machine Config.oneByte).step (waiting 0) (.rtxExpire 0) = .ok next ∧
          next.receiver.trace = (waiting 0).receiver.trace ++ events ∧
          events.filterMap (resentOffset (waitingMsg 0).key) = [1, 2, 3, 4, 5, 6, 7, 8] ∧
          ¬ResendsComplete ((waiting 0).armed (waitingMsg 0).key) (waitingMsg 0)
            (events.filterMap (resentOffset (waitingMsg 0).key)) := by
  have hresends : Resends Config.oneByte (waiting 0) 0 (waitingMsg 0) :=
    ⟨by decide +kernel, by decide +kernel, by decide +kernel, by decide +kernel⟩
  obtain ⟨next, events, last, hstep, htrace, hresent, hiff, htimer⟩ :=
    expire_resends (reachable_waiting 0) hresends
  have hlast : (waitingMsg 0).rtxEvent = some 9 := by decide +kernel
  obtain rfl := Option.some.inj (htimer.symm.trans hlast)
  refine ⟨reachable_waiting 0, hresends, next, events, hstep, htrace, ?_, fun hcomplete => ?_⟩
  · rw [hresent]
    decide +kernel
  · have hreceived := hiff.mp hcomplete 9 (by decide +kernel)
    revert hreceived
    decide +kernel

end TimedReceiver

end HomaSird.Homa
