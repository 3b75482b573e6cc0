import HomaSird.Data.FifoLink
import HomaSird.Homa.NetworkStep

/-! # Data is paced to the rate of the link

`SendDown` reckons when the packets it has handed down will have left the host, and `TxDataPacket`
waits for that moment, while control packets go down at once. It is when a first-come-first-served
link would finish, and that link is idle whenever a DATA packet goes down.
-/

namespace HomaSird.Homa

open Transition Transition.Machine FifoLink HomaL4Protocol HomaSendScheduler List

/-- `PppHeader::GetSerializedSize`. -/
def pppSerializedSize : Nat := 2

def Packet.linkSize (packet : Packet) : Nat :=
  uint32 (HomaHeader.serializedSize + packet.payload.length +
    (ipv4SerializedSize + pppSerializedSize))

/-- A host with the time, the moment of its pending `TxDataPacket` event, and the packets handed
down with their serialization times. -/
structure TimedHost extends HomaL4Protocol where
  now : Nat
  nextTimeTxQueWillBeEmpty : Nat
  txEvent : Option Nat
  handedDown : List (Job Packet Nat)

/-- The clock moves on, one of the host's events runs, or a packet arrives. -/
inductive TimedInput where
  | elapse (moment : Nat)
  | send (message : Payload) (daddr : Ipv4Address) (sport dport : Nat)
  | txDataPacket (order : List Nat)
  | creditTick
  | rtxExpire (timer : Nat)
  | receive (packet : Packet) (platform : Platform)

namespace TimedHost

def initial (start : Nat) : TimedHost where
  toHomaL4Protocol := .initial
  now := start
  nextTimeTxQueWillBeEmpty := start
  txEvent := none
  handedDown := []

/-- `SendDown` over a link that needs `txTime` for a number of bytes. -/
def sendDown (txTime : Nat → Nat) (timed : TimedHost) (packet : Packet) : TimedHost :=
  let timeToSerialize := txTime packet.linkSize
  { timed with
    nextTimeTxQueWillBeEmpty :=
      if timed.now ≤ timed.nextTimeTxQueWillBeEmpty then
        timed.nextTimeTxQueWillBeEmpty + timeToSerialize
      else timed.now + timeToSerialize
    handedDown := timed.handedDown ++ [⟨packet, timed.now, timeToSerialize⟩] }

def getTimeToDrainTxQueue (timed : TimedHost) : Nat :=
  if timed.now < timed.nextTimeTxQueWillBeEmpty then
    timed.nextTimeTxQueWillBeEmpty - timed.now
  else 0

/-- The transmit event asked for is due when the link has drained; a pending one stays. -/
def scheduleTx (timed : TimedHost) : TimedHost :=
  if timed.sendScheduler.txEventPending ∧ timed.txEvent = none then
    { timed with txEvent := some (timed.now + timed.getTimeToDrainTxQueue) }
  else timed

def settle (txTime : Nat → Nat) (timed : TimedHost) (moved : HomaL4Protocol × List Event) :
    TimedHost :=
  ((Network.sentPackets moved.2).foldl (sendDown txTime)
    { timed with toHomaL4Protocol := moved.1 }).scheduleTx

def mayElapse (timed : TimedHost) (moment : Nat) : Bool :=
  decide (timed.now ≤ moment) && timed.txEvent.all fun due => decide (moment ≤ due)

def step (cfg : Config) (addr : Ipv4Address) (txTime : Nat → Nat) (timed : TimedHost) :
    TimedInput → Except Fault TimedHost
  | .elapse moment =>
    if timed.mayElapse moment then .ok { timed with now := moment } else .error .notPending
  | .send message daddr sport dport => do
    let moved ← timed.act cfg addr (.send message daddr sport dport)
    .ok (timed.settle txTime moved)
  | .txDataPacket order =>
    if timed.txEvent = some timed.now then do
      let drained := decide (timed.getTimeToDrainTxQueue = 0)
      let moved ← timed.act cfg addr (.txDataPacket drained order)
      .ok ({ timed with txEvent := none }.settle txTime moved)
    else .error .notPending
  | .creditTick => do
    let moved ← timed.act cfg addr .creditTick
    .ok (timed.settle txTime moved)
  | .rtxExpire timer => do
    let moved ← timed.act cfg addr (.rtxExpire timer)
    .ok (timed.settle txTime moved)
  | .receive packet platform => do
    let moved ← timed.receive cfg packet platform
    .ok (timed.settle txTime moved)

/-- A host that is handed arbitrary packets and messages at arbitrary times. -/
def machine (cfg : Config) (addr : Ipv4Address) (txTime : Nat → Nat) (start : Nat) :
    Transition.Machine TimedHost TimedInput Fault where
  init := initial start
  step := step cfg addr txTime

def IsLinkOf (timed : TimedHost) (served : List (Served Packet Nat)) : Prop :=
  Serves served ∧ served.map Served.toJob = timed.handedDown

/-- DATA is handed down while the link is idle: all packets before it have left. -/
def DataPaced (served : List (Served Packet Nat)) : Prop :=
  served.Pairwise fun earlier job =>
    job.item.hasFlag .data = true → earlier.finish ≤ job.arrival

variable {cfg : Config} {addr : Ipv4Address} {txTime : Nat → Nat} {start : Nat}
  {timed next : TimedHost} {events : List Event}

/-! ## Handing packets down -/

structure Linked (start : Nat) (timed : TimedHost) : Prop where
  started : start ≤ timed.now
  since : ∀ job ∈ timed.handedDown, start ≤ job.arrival
  past : ∀ job ∈ timed.handedDown, job.arrival ≤ timed.now
  paced : ∃ served, timed.IsLinkOf served ∧ DataPaced served ∧
    timed.nextTimeTxQueWillBeEmpty = lastFinish start served

theorem Linked.frame (hlnk : Linked start timed) (hnow : next.now = timed.now)
    (hestimate : next.nextTimeTxQueWillBeEmpty = timed.nextTimeTxQueWillBeEmpty)
    (hdown : next.handedDown = timed.handedDown) : Linked start next where
  started := hnow ▸ hlnk.started
  since := hdown ▸ hlnk.since
  past := by
    rw [hdown, hnow]
    exact hlnk.past
  paced := by
    simp only [IsLinkOf, hdown, hestimate]
    exact hlnk.paced

theorem Linked.sendDown (hlnk : Linked start timed) (txTime : Nat → Nat) {packet : Packet}
    (hidle : packet.hasFlag .data = true → timed.nextTimeTxQueWillBeEmpty ≤ timed.now) :
    Linked start (timed.sendDown txTime packet) := by
  obtain ⟨served, ⟨hserves, hjobs⟩, hdata, hestimate⟩ := hlnk.paced
  have hmem : ∀ {job : Served Packet Nat}, job ∈ served → job.toJob ∈ timed.handedDown :=
    fun hjob => hjobs ▸ mem_map_of_mem hjob
  refine ⟨hlnk.started, ?_, ?_, ?_⟩
  · intro job hjob
    rcases mem_append.mp hjob with hpre | hlast
    · exact hlnk.since job hpre
    · rw [mem_singleton.mp hlast]
      exact hlnk.started
  · intro job hjob
    rcases mem_append.mp hjob with hpre | hlast
    · exact hlnk.past job hpre
    · rw [mem_singleton.mp hlast]
      exact le_rfl
  · have hextended := @Serves.extend _ _ _ _ _ served start hserves
      ⟨packet, timed.now, txTime packet.linkSize⟩ (fun job hjob => hlnk.past _ (hmem hjob))
      hlnk.started
    refine ⟨_, ⟨hextended, ?_⟩, ?_, ?_⟩
    · rw [map_append, hjobs]
      rfl
    · refine pairwise_append.mpr ⟨hdata, pairwise_singleton _ _, ?_⟩
      intro earlier hearly job hjob hflag
      rw [mem_singleton.mp hjob] at hflag ⊢
      have hfree := hidle hflag
      rw [hestimate] at hfree
      exact (hserves.finish_le hearly).trans hfree
    · rw [lastFinish_append, Served.finish, ← hestimate]
      simp only [TimedHost.sendDown]
      split
      next hbusy => rw [max_eq_left hbusy]
      next hfree => rw [max_eq_right (by omega)]

theorem Linked.sendControl (txTime : Nat → Nat) {packets : List Packet}
    (hcontrol : ∀ packet ∈ packets, packet.hasFlag .data = false) (hlnk : Linked start timed) :
    Linked start (packets.foldl (TimedHost.sendDown txTime) timed) := by
  induction packets generalizing timed with
  | nil => exact hlnk
  | cons packet rest ih =>
    apply ih (fun other hother => hcontrol other (.tail _ hother))
    apply hlnk.sendDown txTime
    intro hflag
    rw [hcontrol packet mem_cons_self] at hflag
    cases hflag

theorem Linked.scheduleTx (hlnk : Linked start timed) : Linked start timed.scheduleTx := by
  unfold TimedHost.scheduleTx
  split
  · exact hlnk.frame rfl rfl rfl
  · exact hlnk

theorem le_now_of_drained (hdrain : timed.getTimeToDrainTxQueue = 0) :
    timed.nextTimeTxQueWillBeEmpty ≤ timed.now := by
  unfold getTimeToDrainTxQueue at hdrain
  split at hdrain <;> omega

/-! ## What the schedulers hand down -/

variable {order : List Nat}

theorem events_of_not_drained {sched moved : HomaSendScheduler} (hhandle :
    sched.handle cfg (.txDataPacket false order) = .ok (moved, events)) : events = [] := by
  obtain ⟨packet?, -, htx, rfl⟩ := handle_txDataPacket hhandle
  obtain ⟨-, rfl⟩ := Prod.mk.inj (Except.ok.inj htx)
  rfl

theorem single_of_transmit {sched moved : HomaSendScheduler} (hwf : sched.WellFormed cfg)
    {drained : Bool}
    (hhandle : sched.handle cfg (.txDataPacket drained order) = .ok (moved, events)) :
    events = [] ∨ ∃ packet, events = [.sendDown packet] := by
  cases handle_outcome hwf hhandle with
  | idle _ _ hevs => exact .inl hevs
  | transmitted _ _ _ _ hevs => exact .inr ⟨_, hevs⟩

/-! ## Runs -/

structure Kept (cfg : Config) (start : Nat) (timed : TimedHost) : Prop where
  sender : timed.sendScheduler.WellFormed cfg
  receiver : timed.recvScheduler.WellFormed cfg
  linked : Linked start timed

theorem toHomaL4Protocol_foldl_sendDown (txTime : Nat → Nat) (packets : List Packet)
    (timed : TimedHost) :
    (packets.foldl (TimedHost.sendDown txTime) timed).toHomaL4Protocol =
      timed.toHomaL4Protocol := by
  induction packets generalizing timed with
  | nil => rfl
  | cons packet rest ih => exact ih _

@[simp] theorem toHomaL4Protocol_settle (txTime : Nat → Nat) (timed : TimedHost) (moved :
    HomaL4Protocol × List Event) : (timed.settle txTime moved).toHomaL4Protocol = moved.1 := by
  rw [settle, scheduleTx]
  split <;> exact toHomaL4Protocol_foldl_sendDown ..

theorem Kept.settle (hkept : Kept cfg start timed) (txTime : Nat → Nat)
    {moved : HomaL4Protocol} (hsender : moved.sendScheduler.WellFormed cfg)
    (hrecv : moved.recvScheduler.WellFormed cfg)
    (hcontrol : ∀ packet ∈ Network.sentPackets events, packet.hasFlag .data = false) :
    Kept cfg start (timed.settle txTime (moved, events)) where
  sender := by simpa using hsender
  receiver := by simpa using hrecv
  linked := by
    apply Linked.scheduleTx
    apply Linked.sendControl txTime hcontrol
    exact hkept.linked.frame rfl rfl rfl

variable {moved : HomaL4Protocol × List Event}

theorem Kept.runReceiver (hkept : Kept cfg start timed) (txTime : Nat → Nat)
    {input : HomaRecvScheduler.RecvInput} (hrun : timed.runReceiver cfg input = .ok moved) :
    Kept cfg start (timed.settle txTime moved) := by
  obtain ⟨hhandle, hframe⟩ := runReceiver_eq_ok hrun
  apply hkept.settle txTime
  · rw [hframe]
    exact hkept.sender
  · exact HomaRecvScheduler.wellFormed_handle hkept.receiver hhandle
  · exact Network.control_of_receiver hkept.receiver hhandle

theorem Kept.runSender (hkept : Kept cfg start timed)
    (txTime : Nat → Nat) {input : HomaSendScheduler.SendInput}
    (hinp : ∀ drained order, input ≠ .txDataPacket drained order) (hrun :
    timed.runSender cfg input = .ok moved) : Kept cfg start (timed.settle txTime moved) := by
  obtain ⟨hhandle, hframe⟩ := runSender_eq_ok hrun
  apply hkept.settle txTime
  · exact wellFormed_handle hkept.sender hhandle
  · rw [hframe]
    exact hkept.receiver
  · exact Network.control_of_sender hkept.sender hinp hhandle

theorem Kept.transmit (hkept : Kept cfg start timed) (txTime : Nat → Nat)
    (hrun : timed.runSender cfg (.txDataPacket (decide (timed.getTimeToDrainTxQueue = 0)) order) =
      .ok moved) :
    Kept cfg start ({ timed with txEvent := none }.settle txTime moved) := by
  obtain ⟨moved, events⟩ := moved
  obtain ⟨hhandle, hframe⟩ := runSender_eq_ok hrun
  have hlnk : Linked start
      { timed with toHomaL4Protocol := moved, txEvent := none } :=
    hkept.linked.frame rfl rfl rfl
  refine ⟨?_, ?_, Linked.scheduleTx ?_⟩
  · simpa using wellFormed_handle hkept.sender hhandle
  · rw [toHomaL4Protocol_settle, hframe]
    exact hkept.receiver
  · rcases single_of_transmit hkept.sender hhandle with rfl | ⟨packet, rfl⟩
    · exact hlnk
    · apply hlnk.sendDown txTime
      intro _
      by_cases hdrain : timed.getTimeToDrainTxQueue = 0
      · exact le_now_of_drained hdrain
      · rw [decide_eq_false hdrain] at hhandle
        cases events_of_not_drained hhandle

theorem Kept.step (hkept : Kept cfg start timed) {input : TimedInput}
    (hstep : step cfg addr txTime timed input = .ok next) : Kept cfg start next := by
  cases input with
  | elapse moment =>
    simp only [TimedHost.step] at hstep
    split at hstep
    -- time moves on no further than to the end of the transmission
    next hmay =>
      cases hstep
      simp only [mayElapse, Bool.and_eq_true, decide_eq_true_eq] at hmay
      have hlnk := hkept.linked
      exact ⟨hkept.sender, hkept.receiver, hlnk.started.trans hmay.1, hlnk.since,
        fun job hjob => (hlnk.past job hjob).trans hmay.1, hlnk.paced⟩
    · cases hstep
  | send message daddr sport dport =>
    obtain ⟨sent, hact, hok⟩ := bind_eq_ok.mp hstep
    cases hok
    obtain ⟨⟨moved, events⟩, hrun, hsent⟩ := bind_eq_ok.mp hact
    cases hsent
    obtain ⟨hhandle, hframe⟩ := runSender_eq_ok hrun
    apply hkept.settle txTime
    · exact wellFormed_handle hkept.sender hhandle
    · rw [hframe]
      exact hkept.receiver
    · exact Network.control_of_sender hkept.sender (fun _ _ heq => by cases heq) hhandle
  | txDataPacket order =>
    simp only [TimedHost.step] at hstep
    split at hstep
    · obtain ⟨moved, hact, hok⟩ := bind_eq_ok.mp hstep
      cases hok
      exact hkept.transmit txTime hact
    · cases hstep
  | creditTick =>
    obtain ⟨moved, hact, hok⟩ := bind_eq_ok.mp hstep
    cases hok
    exact hkept.runReceiver txTime hact
  | rtxExpire timer =>
    obtain ⟨moved, hact, hok⟩ := bind_eq_ok.mp hstep
    cases hok
    exact hkept.runReceiver txTime hact
  | receive packet platform =>
    obtain ⟨moved, hrecv, hok⟩ := bind_eq_ok.mp hstep
    cases hok
    simp only [receive] at hrecv
    split at hrecv
    · exact hkept.runReceiver txTime hrecv
    · split at hrecv
      · exact hkept.runSender txTime (fun _ _ heq => by cases heq) hrecv
      · cases hrecv
        exact hkept.settle txTime hkept.sender hkept.receiver
          fun packet hpkt => (not_mem_nil hpkt).elim

theorem kept_of_reachable (hreach : (machine cfg addr txTime start).Reachable timed) :
    Kept cfg start timed := by
  apply hreach.invariant
  · refine ⟨wellFormed_initial cfg,
      HomaRecvScheduler.wellFormed_initial cfg, le_rfl,
      fun _ hjob => (not_mem_nil hjob).elim, fun _ hjob => (not_mem_nil hjob).elim,
      [], ⟨serves_nil, rfl⟩, .nil, rfl⟩
  · intro state input moved hkept _ hstep
    exact hkept.step hstep

/-- At any time the packets handed down get one service from a work-conserving link. The link is
taken to be free when it ends, and each DATA packet went down when the service of all before had
ended. -/
theorem txQueue_refines_link (hreachable : (machine cfg addr txTime start).Reachable timed) :
    (∃ served, timed.IsLinkOf served) ∧ ∀ served, timed.IsLinkOf served →
    timed.nextTimeTxQueWillBeEmpty = lastFinish start served ∧ DataPaced served := by
  have hlnk := (kept_of_reachable hreachable).linked
  obtain ⟨paced, hlink, hdata, hestimate⟩ := hlnk.paced
  refine ⟨⟨paced, hlink⟩, fun served hother => ?_⟩
  obtain rfl : paced = served := by
    apply hlink.1.unique hother.1 (hlink.2.trans hother.2.symm)
    intro job hjob
    exact hlnk.since job.toJob (hlink.2 ▸ List.mem_map_of_mem hjob)
  exact ⟨hestimate, hdata⟩

theorem txQueue_refines_link_twoPackets :
    let timed := (machine Config.oneByte 1 id 0).after (fun _ _ => true)
      [.send [7, 8] 2 5 6, .txDataPacket [0], .elapse 44, .txDataPacket [0]] (initial 0)
    timed.handedDown.map Job.arrival = [0, 44] ∧
      ∀ served, timed.IsLinkOf served → lastFinish 0 served = 88 ∧ DataPaced served := by
  intro timed
  have hreachable : (machine Config.oneByte 1 id 0).Reachable timed :=
    ReachableUnder.after (fun _ _ _ => trivial) _ .init
  have harrivals : timed.handedDown.map Job.arrival = [0, 44] := by decide +kernel
  have hestimate : timed.nextTimeTxQueWillBeEmpty = 88 := by decide +kernel
  refine ⟨harrivals, fun served hlink => ?_⟩
  obtain ⟨hfinish, hdata⟩ := (txQueue_refines_link hreachable).2 served hlink
  exact ⟨hfinish.symm.trans hestimate, hdata⟩

end TimedHost

end HomaSird.Homa
