import HomaSird.Homa.ReceiverStep
import Mathlib.Data.Finset.Card

/-! # One BDP in flight

Without SIRD a message that does not fit into one BDP is granted one packet for
each packet that has arrived, so what is granted and has not arrived never
exceeds a BDP. What has arrived is noted beside the receiver, from the packets themselves.
-/

namespace HomaSird.Homa

open Transition Transition.Machine

namespace HomaInboundMsg

variable {cfg : Config} {msg : HomaInboundMsg}

theorem numReceived_store (cfg : Config)
    {pktOffset : Nat} (payload : Payload) (hnew : msg.receivedPackets[pktOffset]? = some false) :
    (msg.store cfg pktOffset payload).numReceived = msg.numReceived + 1 := by
  obtain ⟨hlt, hval⟩ := List.getElem?_eq_some_iff.mp hnew
  simp [store, numReceived, List.count_set hlt, hval]

/-- The window that data alone opens: one place beyond the unscheduled packets for each packet
received. -/
structure DataDriven (cfg : Config) (msg : HomaInboundMsg) : Prop where
  driven : msg.creditDrivenGrantWindow = false
  window_eq : cfg.rttPackets < msg.msgSizePkts →
    msg.maxGrantableIdx = min (msg.msgSizePkts - 1) (cfg.rttPackets - 1 + msg.numReceived)

theorem dataDriven_create (hplain : cfg.sirdEnabled = false) (hrtt : 1 ≤ cfg.rttPackets)
    {packet : Packet} {created : HomaInboundMsg} (hload : packet.payload ≠ [])
    (hcreate : create cfg packet = .ok created) : created.DataDriven cfg := by
  rcases create_eq_ok hcreate with ⟨hempty, _⟩ | ⟨_, hrng, rfl⟩
  · exact (hload hempty).elim
  · have hlt := packetCount_lt packet.homaHeader.msgSizeBytes cfg.maxPayloadSize
    have hshort : ∀ size, isLongSirdMsg cfg size = false := fun size => by
      rw [isLongSirdMsg, hplain, Bool.false_and]
    refine ⟨hshort _, fun hlong => ?_⟩
    have hnew : (blank cfg packet).receivedPackets[packet.homaHeader.pktOffset]? =
        some false := by
      rw [List.getElem?_eq_getElem hrng]
      simp [blank]
    have hnone : (blank cfg packet).numReceived = 0 := by
      simp [blank, numReceived, List.count_replicate]
    rw [numReceived_store cfg packet.payload hnew, hnone]
    simp only [store, blank, hshort, Bool.false_eq_true, if_false, unscheduledIdx,
      Config.lastUnscheduledIdx_of_pos cfg hrtt, uint16] at hlong ⊢
    omega

theorem dataDriven_receiveDataPacket {payload : Payload} {pktOffset : Nat}
    {received : HomaInboundMsg} (hsound : msg.Sound cfg) (hdriven : msg.DataDriven cfg)
    (hrecv : msg.receiveDataPacket cfg payload pktOffset = .ok received) :
    received.DataDriven cfg := by
  rcases receiveDataPacket_eq_ok hrecv with ⟨rfl, _⟩ | ⟨rfl, _, hnew⟩
  · exact hdriven
  · have hcnt : (msg.store cfg pktOffset payload).openWindow.numReceived =
        msg.numReceived + 1 := by
      rw [← numReceived_store cfg payload hnew, openWindow_eq (sound_store hsound)]
      rfl
    have hstored : (msg.store cfg pktOffset payload).creditDrivenGrantWindow = false :=
      hdriven.driven
    refine ⟨?_, ?_⟩
    · rw [openWindow_eq (sound_store hsound)]
      exact hdriven.driven
    · rw [hcnt, openWindow_eq (sound_store hsound)]
      intro hlong
      have hwin := hdriven.window_eq hlong
      simp only [hstored, Bool.false_eq_true, false_or]
      simp only [store] at hlong ⊢
      by_cases hend : msg.msgSizePkts ≤ msg.maxGrantableIdx + 1
      · simp only [hend, if_true]
        omega
      · simp only [hend, if_false]
        omega

/-! ## What has arrived -/

/-- The offsets noted for a message are the ones whose packets it has. -/
structure Counts (arrived : Finset Nat) (msg : HomaInboundMsg) : Prop where
  mem_iff : ∀ offset, offset ∈ arrived ↔ msg.receivedPackets[offset]? = some true
  card_eq : arrived.card = msg.numReceived

variable {arrived : Finset Nat}

theorem Counts.of_same {next : HomaInboundMsg} (hcnt : Counts arrived msg)
    (hsame : next.receivedPackets = msg.receivedPackets) : Counts arrived next := by
  refine ⟨fun offset => ?_, ?_⟩
  · rw [hsame]
    exact hcnt.mem_iff offset
  · rw [numReceived, hsame]
    exact hcnt.card_eq

theorem Counts.store (hcnt : Counts arrived msg) {pktOffset : Nat} (payload : Payload)
    (hnew : msg.receivedPackets[pktOffset]? = some false) :
    Counts (insert pktOffset arrived) (msg.store cfg pktOffset payload) := by
  have hlt := (List.getElem?_eq_some_iff.mp hnew).1
  refine ⟨fun offset => ?_, ?_⟩
  · rw [Finset.mem_insert, hcnt.mem_iff, HomaInboundMsg.store, List.getElem?_set]
    split
    next hsame => simp [← hsame, hlt]
    next hne => exact or_iff_right (Ne.symm hne)
  · have hnot : pktOffset ∉ arrived := by
      rw [hcnt.mem_iff, hnew]
      simp
    rw [Finset.card_insert_of_notMem hnot, hcnt.card_eq, numReceived_store cfg payload hnew]

theorem receivedPackets_openWindow (msg : HomaInboundMsg) :
    msg.openWindow.receivedPackets = msg.receivedPackets := by
  unfold openWindow
  split
  · rfl
  · rfl

theorem Counts.receive (hcnt : Counts arrived msg) {payload : Payload} {pktOffset : Nat}
    {received : HomaInboundMsg} (hload : payload ≠ [])
    (hrecv : msg.receiveDataPacket cfg payload pktOffset = .ok received) :
    Counts (insert pktOffset arrived) received := by
  rcases receiveDataPacket_eq_ok hrecv with ⟨rfl, hempty | hold⟩ | ⟨rfl, -, hnew⟩
  · exact absurd hempty hload
  · rwa [Finset.insert_eq_of_mem ((hcnt.mem_iff _).mpr hold)]
  · exact (hcnt.store payload hnew).of_same (receivedPackets_openWindow _)

theorem counts_create {packet : Packet} {created : HomaInboundMsg} (hload : packet.payload ≠ [])
    (hcreate : create cfg packet = .ok created) :
    Counts (insert packet.homaHeader.pktOffset ∅) created := by
  rcases create_eq_ok hcreate with ⟨hempty, -⟩ | ⟨-, hrng, rfl⟩
  · exact absurd hempty hload
  · have hblank : Counts ∅ (blank cfg packet) := by
      refine ⟨fun offset => ?_, ?_⟩
      · simp [blank, List.getElem?_replicate]
      · simp [blank, numReceived, List.count_replicate]
    refine hblank.store packet.payload ?_
    rw [List.getElem?_eq_getElem hrng]
    simp [blank]

end HomaInboundMsg

namespace HomaRecvScheduler

variable {cfg : Config}

theorem dataDriven_visit (hplain : cfg.sirdEnabled = false) {busySenders : Finset Ipv4Address}
    {before after : GrantRound} {prior msg : HomaInboundMsg} (hdriven : prior.DataDriven cfg)
    (hvisit : GrantRound.Visit cfg busySenders before prior after msg) :
    msg.DataDriven cfg := by
  cases hvisit with
  | pass => exact ⟨hdriven.driven, hdriven.window_eq⟩
  | hold hsird => cases hplain.symm.trans hsird
  | homaGrant => exact ⟨hdriven.driven, hdriven.window_eq⟩
  | sirdGrant hsird => cases hplain.symm.trans hsird

theorem dataDriven_moved (hplain : cfg.sirdEnabled = false) {input : RecvInput}
    {prior msg : HomaInboundMsg} (hsound : prior.Sound cfg) (hdriven : prior.DataDriven cfg)
    (hmoved : Moved cfg input prior msg) : msg.DataDriven cfg := by
  cases hmoved with
  | idle => exact hdriven
  | receive _ _ _ hrecv =>
    exact HomaInboundMsg.dataDriven_receiveDataPacket hsound hdriven hrecv
  | visit _ hvisit => exact dataDriven_visit hplain hdriven hvisit
  | rearm => exact ⟨hdriven.driven, hdriven.window_eq⟩

end HomaRecvScheduler

/-- A receiver, and beside it for each message the offsets of the DATA that came for it while it
was pending. -/
structure ArrivalLog where
  receiver : Receiver
  arrived : MsgKey → Finset Nat

namespace ArrivalLog

open HomaRecvScheduler HomaInboundMsg

/-- The offsets that came for the message of a key, after one more input. -/
def arrivals (offsets : Finset Nat) (key : MsgKey) : RecvInput → Finset Nat
  | .packet packet =>
    if packet.hasFlag .data ∧ packet.payload ≠ [] ∧ packet.key = key then
      insert packet.homaHeader.pktOffset offsets
    else offsets
  | .creditTick => offsets
  | .rtxExpire _ => offsets

/-- What came for a message is forgotten with the message. -/
def note (arrived : MsgKey → Finset Nat) (next : HomaRecvScheduler) (input : RecvInput)
    (key : MsgKey) : Finset Nat :=
  if next.getInboundMsg key = none then ∅ else arrivals (arrived key) key input

def step (cfg : Config) (state : ArrivalLog) (input : RecvInput) : Except Fault ArrivalLog := do
  let (sched, events) ← state.receiver.sched.handle cfg input
  .ok ⟨⟨sched, state.receiver.trace ++ events⟩, note state.arrived sched input⟩

def machine (cfg : Config) : Machine ArrivalLog RecvInput Fault where
  init := ⟨(Receiver.machine cfg).init, fun _ => ∅⟩
  step := step cfg

/-- Every DATA packet carries a payload; without SIRD none requests credit. -/
def CarriesPayload (_ : ArrivalLog) : RecvInput → Prop
  | .packet packet => packet.hasFlag .data = true → packet.payload ≠ []
  | _ => True

variable {cfg : Config} {state next : ArrivalLog} {input : RecvInput}

theorem step_eq_ok (hstep : (machine cfg).step state input = .ok next) :
    ∃ events, state.receiver.sched.handle cfg input = .ok (next.receiver.sched, events) ∧
      next.receiver.trace = state.receiver.trace ++ events ∧
      next.arrived = note state.arrived next.receiver.sched input := by
  obtain ⟨⟨sched, events⟩, hhandle, hok⟩ := bind_eq_ok.mp hstep
  cases hok
  exact ⟨events, hhandle, rfl, rfl⟩

theorem reachable_receiver {allowed : ArrivalLog → RecvInput → Prop}
    (hreach : (machine cfg).ReachableUnder allowed state) :
    (Receiver.machine cfg).Reachable state.receiver := by
  apply hreach.observed ArrivalLog.receiver rfl
  intro state input next hstep
  obtain ⟨events, hhandle, htrace, -⟩ := step_eq_ok hstep
  refine bind_eq_ok.mpr ⟨_, hhandle, ?_⟩
  dsimp only
  rw [← htrace]

theorem dataDriven_of_reachable (hplain : cfg.sirdEnabled = false) (hrtt : 1 ≤ cfg.rttPackets)
    (hreach : (machine cfg).ReachableUnder CarriesPayload state) :
    ∀ msg ∈ state.receiver.sched.inboundMsgs, msg.DataDriven cfg := by
  apply hreach.invariant_of
    (fun _ hlog => Receiver.wellFormed_of_reachable (reachable_receiver hlog))
  · intro msg hmem
    cases hmem
  · intro state input next hwf hdriven hallow hstep msg hmem
    obtain ⟨events, hhandle, -⟩ := step_eq_ok hstep
    rcases handle_moved hwf hhandle hmem with ⟨prior, hprior, hmoved⟩ | hstart
    · exact dataDriven_moved hplain (hwf.sound prior hprior) (hdriven prior hprior) hmoved
    · obtain ⟨packet, created, rfl, hdata, hcreate, rfl⟩ := hstart.origin
      have hmade := HomaInboundMsg.dataDriven_create hplain hrtt (hallow hdata) hcreate
      exact ⟨hmade.driven, hmade.window_eq⟩

/-! ## The notes and the messages -/

structure Agrees (state : ArrivalLog) : Prop where
  counts : ∀ msg ∈ state.receiver.sched.inboundMsgs, Counts (state.arrived msg.key) msg
  absent : ∀ key, state.receiver.sched.getInboundMsg key = none → state.arrived key = ∅

theorem getInboundMsg_eq_none_iff {sched : HomaRecvScheduler} {key : MsgKey} :
    sched.getInboundMsg key = none ↔ ∀ msg ∈ sched.inboundMsgs, msg.key ≠ key := by
  simp [getInboundMsg]

theorem note_of_mem {arrived : MsgKey → Finset Nat} {sched : HomaRecvScheduler}
    {msg : HomaInboundMsg} (hmem : msg ∈ sched.inboundMsgs) (input : RecvInput) :
    note arrived sched input msg.key = arrivals (arrived msg.key) msg.key input :=
  if_neg fun hnone => getInboundMsg_eq_none_iff.mp hnone msg hmem rfl

theorem bits_moved {prior msg : HomaInboundMsg} (hmoved : Moved cfg input prior msg)
    (hinp : ∀ packet, input ≠ .packet packet) :
    msg.receivedPackets = prior.receivedPackets ∧ msg.key = prior.key := by
  cases hmoved with
  | idle => exact ⟨rfl, rfl⟩
  | receive hpkt => exact absurd hpkt (hinp _)
  | visit _ hvisit =>
    obtain ⟨_, _, _, _, _, rfl⟩ := visit_frame hvisit
    exact ⟨rfl, rfl⟩
  | rearm =>
    unfold rearmRtx
    split <;> exact ⟨rfl, rfl⟩

/-- DATA reaches the message of its key and no other one. -/
theorem counts_data {sched final : HomaRecvScheduler} {arrived : MsgKey → Finset Nat}
    {packet : Packet} {events : List Event} {inboundMsg msg : HomaInboundMsg}
    {others : List HomaInboundMsg} (hwf : sched.WellFormed cfg)
    (hcnts : ∀ msg ∈ sched.inboundMsgs, Counts (arrived msg.key) msg)
    (habsent : ∀ key, sched.getInboundMsg key = none → arrived key = ∅)
    (hdata : packet.hasFlag .data = true) (hload : packet.payload ≠ [])
    (hgot : Received cfg sched packet final events inboundMsg others)
    (hmem : msg ∈ final.inboundMsgs) :
    Counts (note arrived final (.packet packet) msg.key) msg := by
  rw [note_of_mem hmem, arrivals]
  have hothers : ∀ other ∈ others, other ∈ sched.inboundMsgs ∧ packet.key ≠ other.key := by
    intro other hother
    cases hgot.taken with
    | @pending found hperm hkey =>
      have hnodup := (hperm.map HomaInboundMsg.key).nodup_iff.mp hwf.nodup
      rw [List.map_cons, List.nodup_cons] at hnodup
      refine ⟨hperm.mem_iff.mpr (.tail _ hother), fun hsame => hnodup.1 ?_⟩
      rw [hkey, hsame]
      exact List.mem_map_of_mem hother
    | fresh heq hnew =>
      rw [heq] at hother
      exact ⟨hother, (hnew other hother).symm⟩
  have hrest : msg ∈ others → Counts (if packet.hasFlag .data = true ∧ packet.payload ≠ [] ∧
      packet.key = msg.key then insert packet.homaHeader.pktOffset (arrived msg.key)
      else arrived msg.key) msg := by
    intro hother
    obtain ⟨hprior, hne⟩ := hothers msg hother
    rw [if_neg fun hall => hne hall.2.2]
    exact hcnts msg hprior
  obtain ⟨before, hset, -⟩ := hgot.settled
  cases hset with
  | complete _ hmsgs => exact hrest (hmsgs ▸ hmem)
  | waiting _ hmsgs =>
    rcases List.mem_cons.mp (hmsgs.mem_iff.mp hmem) with rfl | hother
    swap
    · exact hrest hother
    cases hgot.taken with
    | @pending found hperm hkey hrecv =>
      have hprior := hcnts found (hperm.mem_iff.mpr List.mem_cons_self)
      have hsame : msg.key = found.key := by
        rcases receiveDataPacket_eq_ok hrecv with ⟨rfl, -⟩ | ⟨rfl, -⟩
        · rfl
        · unfold openWindow
          split <;> rfl
      rw [if_pos ⟨hdata, hload, hkey.symm.trans hsame.symm⟩, hsame]
      exact hprior.receive hload hrecv
    | fresh _ hnew hcreate hmsg =>
      have hmade := counts_create hload hcreate
      have hsame : msg.key = packet.key := by
        rw [hmsg]
        rcases create_eq_ok hcreate with ⟨-, rfl⟩ | ⟨-, -, rfl⟩
        · rfl
        · rfl
      rw [if_pos ⟨hdata, hload, hsame.symm⟩, hsame,
        habsent _ (getInboundMsg_eq_none_iff.mpr hnew), hmsg]
      exact hmade.of_same rfl

theorem agrees_of_reachable (hreach : (machine cfg).ReachableUnder CarriesPayload state) :
    Agrees state := by
  apply hreach.invariant_of
    (fun _ hlog => Receiver.wellFormed_of_reachable (reachable_receiver hlog))
  · exact ⟨fun _ hmem => absurd hmem List.not_mem_nil, fun _ _ => rfl⟩
  · intro state input next hwf hagrees hallow hstep
    obtain ⟨events, hhandle, -, harr⟩ := step_eq_ok hstep
    have habsent : ∀ key, next.receiver.sched.getInboundMsg key = none →
        next.arrived key = ∅ := by
      intro key hnone
      rw [harr]
      exact if_pos hnone
    refine ⟨fun msg hmem => ?_, habsent⟩
    rw [harr]
    have hstay : (∀ packet, input ≠ .packet packet) →
        Counts (note state.arrived next.receiver.sched input msg.key) msg := by
      intro hinp
      have hnote : arrivals (state.arrived msg.key) msg.key input = state.arrived msg.key := by
        cases input with
        | packet packet => exact absurd rfl (hinp packet)
        | creditTick => rfl
        | rtxExpire => rfl
      rw [note_of_mem hmem, hnote]
      rcases handle_moved hwf hhandle hmem with ⟨prior, hprior, hmoved⟩ | hstart
      · obtain ⟨hbits, hkey⟩ := bits_moved hmoved hinp
        rw [hkey]
        exact (hagrees.counts prior hprior).of_same hbits
      · obtain ⟨packet, -, heq, -⟩ := hstart.origin
        exact absurd heq (hinp packet)
    cases handled hwf hhandle with
    | @data packet _ _ _ hdata hgot =>
      exact counts_data hwf hagrees.counts hagrees.absent hdata (hallow hdata) hgot hmem
    | control hdata hmsgs =>
      rw [note_of_mem hmem, arrivals, if_neg fun hall => by simp [hdata] at hall]
      exact hagrees.counts msg (hmsgs ▸ hmem)
    | creditTick => exact hstay (by simp)
    | rtxExpire => exact hstay (by simp)

/-- Without SIRD, the window of a pending message longer than a BDP is one BDP ahead of the count
of the distinct offsets that came for it, grants stay within the window and the message, and the
packets granted and not received are at most a BDP. -/
theorem homa_window (hplain : cfg.sirdEnabled = false) (hrtt : 1 ≤ cfg.rttPackets)
    (hreach : (machine cfg).ReachableUnder CarriesPayload state) {msg : HomaInboundMsg}
    (hmem : msg ∈ state.receiver.sched.inboundMsgs) :
    (cfg.rttPackets < msg.msgSizePkts →
      msg.maxGrantableIdx =
        min (msg.msgSizePkts - 1) (cfg.rttPackets - 1 + (state.arrived msg.key).card)) ∧
      msg.maxGrantedIdx ≤ min msg.maxGrantableIdx (msg.msgSizePkts - 1) ∧
      msg.maxGrantedIdx + 1 - (state.arrived msg.key).card ≤ cfg.rttPackets := by
  have hsound := (Receiver.wellFormed_of_reachable (reachable_receiver hreach)).sound msg hmem
  have hwin := (dataDriven_of_reachable hplain hrtt hreach msg hmem).window_eq
  rw [((agrees_of_reachable hreach).counts msg hmem).card_eq]
  have hbelow := hsound.granted_lt
  have hgranted := hsound.granted_le
  refine ⟨hwin, ?_, ?_⟩
  · omega
  · rcases Nat.lt_or_ge cfg.rttPackets msg.msgSizePkts with hlong | hshort
    · rw [hwin hlong] at hgranted
      omega
    · omega

theorem homa_window_twelve :
    let state := (machine Config.oneByte).after
      (fun _ input => match input with
        | .packet packet => !packet.payload.isEmpty
        | _ => true)
      [.packet (samplePacket 12 4 [7]), .packet (samplePacket 12 0 [7]),
        .packet (samplePacket 12 4 [7]), .creditTick] (machine Config.oneByte).init
    ∃ msg ∈ state.receiver.sched.inboundMsgs, msg.maxGrantedIdx = 11 ∧
      (state.arrived msg.key).card = 2 ∧
      msg.maxGrantedIdx + 1 - (state.arrived msg.key).card ≤ 10 := by
  intro state
  have hreach : (machine Config.oneByte).ReachableUnder CarriesPayload state := by
    refine ReachableUnder.after ?_ _ .init
    intro state input hcheck
    cases input with
    | packet packet =>
      intro _ hempty
      simp [hempty] at hcheck
    | creditTick => trivial
    | rtxExpire timer => trivial
  obtain ⟨msg, hmsgs⟩ : ∃ msg, state.receiver.sched.inboundMsgs.head? = some msg :=
    Option.isSome_iff_exists.mp (by decide +kernel)
  have hgranted : (state.receiver.sched.inboundMsgs.head?.map fun msg =>
      (msg.maxGrantedIdx, (state.arrived msg.key).card)) = some (11, 2) := by
    decide +kernel
  rw [hmsgs] at hgranted
  obtain ⟨hidx, hcard⟩ := Prod.mk.inj (Option.some.inj hgranted)
  have hmem := List.mem_of_mem_head? hmsgs
  exact ⟨msg, hmem, hidx, hcard, (homa_window rfl (by decide) hreach hmem).2.2⟩

end ArrivalLog

end HomaSird.Homa
