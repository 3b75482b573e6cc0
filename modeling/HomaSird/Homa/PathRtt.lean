import HomaSird.Homa.NetworkStep

/-! # Path RTT samples

A table that all hosts share has an entry for each message: when a trigger, its first packet,
first went down and first arrived, and which GRANTs and ACKs its receiver has sent since. A
response that arrives is looked up by three fields of its header and yields at most one sample:
how long the sender has waited since its trigger, less how long the receiver has taken.
-/

namespace HomaSird.Homa

open Transition Transition.Machine

inductive PathRttTriggerKind where
  | initialCreditRequest
  | firstData
deriving DecidableEq

structure PathRttResponseTxState where
  flags : Nat
  grantOffset : Nat
  pktOffset : Nat
  txTime : Nat
deriving DecidableEq

structure PathRttFlowState where
  haveTriggerTx : Bool := false
  triggerTxTime : Nat := 0
  haveTriggerRx : Bool := false
  triggerRxTime : Nat := 0
  triggerKind : PathRttTriggerKind := .firstData
  sampleEmitted : Bool := false
  responseTxStates : List PathRttResponseTxState := []

/-- The arguments of `m_pathRttTrace`; the key has the addresses and ports. -/
structure PathRttSample where
  key : MsgKey
  triggerKind : PathRttTriggerKind
  ctrlFlags : Nat
  pathRtt : Int
deriving DecidableEq

namespace HomaHeader

def isPathRttTriggerPacket (header : HomaHeader) : Bool :=
  header.hasFlag .data && decide (header.pktOffset = 0)

def getPathRttTriggerKind (header : HomaHeader) : PathRttTriggerKind :=
  if header.payloadSize = 0 then .initialCreditRequest else .firstData

def isPathRttResponsePacket (header : HomaHeader) : Bool :=
  header.hasFlag .grant || header.hasFlag .ack

end HomaHeader

namespace PathRttFlowState

def triggerSent (now : Nat) (header : HomaHeader) (state : PathRttFlowState) :
    PathRttFlowState :=
  if !state.sampleEmitted && !state.haveTriggerTx then
    { state with
      haveTriggerTx := true
      triggerTxTime := now
      triggerKind := header.getPathRttTriggerKind }
  else state

def triggerReceived (now : Nat) (header : HomaHeader) (state : PathRttFlowState) :
    PathRttFlowState :=
  if !state.sampleEmitted && !state.haveTriggerRx then
    { state with
      haveTriggerRx := true
      triggerRxTime := now
      triggerKind := header.getPathRttTriggerKind }
  else state

def responseSent (now : Nat) (header : HomaHeader) (state : PathRttFlowState) :
    PathRttFlowState :=
  if !state.sampleEmitted && state.haveTriggerRx then
    { state with
      responseTxStates := state.responseTxStates ++
        [⟨header.flags, header.grantOffset, header.pktOffset, now⟩] }
  else state

/-- The first response on record like the one that arrives, once both times of the trigger are
known and while there is no sample. -/
def matching (header : HomaHeader) (state : PathRttFlowState) : Option PathRttResponseTxState :=
  if !state.sampleEmitted && state.haveTriggerTx && state.haveTriggerRx then
    state.responseTxStates.find? fun response =>
      decide (response.flags = header.flags) &&
        decide (response.grantOffset = header.grantOffset) &&
        decide (response.pktOffset = header.pktOffset)
  else none

def pathRtt (now : Nat) (response : PathRttResponseTxState) (state : PathRttFlowState) : Int :=
  let receiverDelay : Int := response.txTime - state.triggerRxTime
  (now - state.triggerTxTime) - receiverDelay

def sampled (state : PathRttFlowState) : PathRttFlowState :=
  { state with sampleEmitted := true, responseTxStates := [] }

end PathRttFlowState

/-- `g_pathRttFlowStates`. -/
abbrev PathRttFlowStates := UnorderedMap MsgKey PathRttFlowState

namespace PathRttFlowStates

/-- What `operator[]` reads. -/
def entry (flows : PathRttFlowStates) (key : MsgKey) : PathRttFlowState :=
  UnorderedMap.getD flows key {}

/-- What `SendDown` notes of a packet. -/
def sendDown (now : Nat) (flows : PathRttFlowStates) (packet : Packet) : PathRttFlowStates :=
  if packet.hasFlag .data then
    if packet.homaHeader.isPathRttTriggerPacket then
      flows.insert packet.key ((entry flows packet.key).triggerSent now packet.homaHeader)
    else flows
  else if packet.homaHeader.isPathRttResponsePacket then
    match flows.lookup packet.ctrlKey with
    | some state => flows.insert packet.ctrlKey (state.responseSent now packet.homaHeader)
    | none => flows
  else flows

/-- What `Receive` notes, and the sample of a response; a negative one is dropped. -/
def receive (now : Nat) (flows : PathRttFlowStates) (packet : Packet) :
    PathRttFlowStates × Option PathRttSample :=
  if packet.hasFlag .data then
    if packet.homaHeader.isPathRttTriggerPacket then
      (flows.insert packet.key ((entry flows packet.key).triggerReceived now packet.homaHeader),
        none)
    else (flows, none)
  else if packet.homaHeader.isPathRttResponsePacket then
    match flows.lookup packet.ctrlKey with
    | some state =>
      match state.matching packet.homaHeader with
      | some response =>
        let pathRtt := state.pathRtt now response
        (flows.insert packet.ctrlKey state.sampled,
          if 0 ≤ pathRtt then
            some ⟨packet.ctrlKey, state.triggerKind, packet.homaHeader.flags, pathRtt⟩
          else none)
      | none => (flows, none)
    | none => (flows, none)
  else (flows, none)

/-- The erasures of `ClearStateForMsg`. -/
def clear (flows : PathRttFlowStates) (keys : List MsgKey) : PathRttFlowStates :=
  keys.foldl (fun rest key => rest.erase key) flows

end PathRttFlowStates

namespace HomaSendScheduler

def clearedKeys (before after : HomaSendScheduler) : List MsgKey :=
  before.outboundMsgs.entries.filterMap fun stored =>
    if (after.outboundMsgs.lookup stored.1).isNone then some (stored.2.key stored.1) else none

/-- The serial number of the message that a sender holds under a key. -/
def holder (sched : HomaSendScheduler) (key : MsgKey) : Option Nat :=
  match sched.outboundMsgs.lookup key.txMsgId with
  | some msg => if msg.key key.txMsgId = key then some msg.origin else none
  | none => none

end HomaSendScheduler

/-- The serial number of the message that its sender holds under a key. -/
def Network.holder (net : Network) (key : MsgKey) : Option Nat :=
  (net.hosts key.saddr).sendScheduler.holder key

structure Delivery where
  packet : Packet
  sentAt : Nat
  receivedAt : Nat

namespace Delivery

def delay (delivery : Delivery) : Int := delivery.receivedAt - delivery.sentAt

def IsTriggerOf (delivery : Delivery) (key : MsgKey) (origin : Nat) : Prop :=
  delivery.packet.homaHeader.isPathRttTriggerPacket = true ∧ delivery.packet.key = key ∧
    delivery.packet.origin = origin

def IsResponseTo (delivery : Delivery) (key : MsgKey) (origin : Nat) : Prop :=
  delivery.packet.homaHeader.isPathRttResponsePacket = true ∧ delivery.packet.ctrlKey = key ∧
    delivery.packet.origin = origin

end Delivery

/-- A sample, with the serial number of the message its sender held under the key. -/
structure EmittedSample extends PathRttSample where
  origin : Option Nat

/-- The network with a clock, the table, the samples, when each packet under way was handed down,
and all arrivals. -/
structure RttNetwork where
  net : Network
  now : Nat
  flows : PathRttFlowStates
  samples : List EmittedSample
  sentAt : List Nat
  deliveries : List Delivery

inductive RttAction where
  | elapse (moment : Nat)
  | act (action : Network.Action)

namespace RttNetwork

def initial : RttNetwork where
  net := .initial
  now := 0
  flows := ∅
  samples := []
  sentAt := []
  deliveries := []

/-- A packet leaves the network, and `Receive` looks at it. -/
def arrive (timed : RttNetwork) (index : Nat) (packet : Packet) (sentAt : Nat) : RttNetwork :=
  let (flows, sample?) := timed.flows.receive timed.now packet
  { timed with
    net := timed.net.remove index
    flows
    samples := timed.samples ++ (sample?.map fun sample =>
      { toPathRttSample := sample, origin := timed.net.holder sample.key }).toList
    sentAt := timed.sentAt.eraseIdx index
    deliveries := timed.deliveries ++ [⟨packet, sentAt, timed.now⟩] }

/-- A host has moved: messages it clears lose their entries before it hands anything down. -/
def settle (timed : RttNetwork) (addr : Ipv4Address) (moved : HomaL4Protocol × List Event) :
    RttNetwork :=
  let cleared := (timed.net.hosts addr).sendScheduler.clearedKeys moved.1.sendScheduler
  let sent := Network.sentPackets moved.2
  { timed with
    net := timed.net.update addr moved
    flows := sent.foldl (PathRttFlowStates.sendDown timed.now) (timed.flows.clear cleared)
    sentAt := timed.sentAt ++ sent.map fun _ => timed.now }

def step (setting : Setting) (timed : RttNetwork) : RttAction → Except Fault RttNetwork
  | .elapse moment =>
    if timed.now ≤ moment then .ok { timed with now := moment } else .error .notPending
  | .act (.host addr input) => do
    let moved ← (timed.net.hosts addr).act (setting.config addr) addr input
    .ok (timed.settle addr moved)
  | .act (.deliver index congested platform) =>
    match timed.net.inFlight[index]?, timed.sentAt[index]? with
    | some packet, some sentAt => do
      let addr := packet.ipv4Header.destination
      let moved ← (timed.net.hosts addr).receive (setting.config addr)
        (packet.mark congested) platform
      -- the table reads nothing that a queue disc marks
      .ok ((timed.arrive index packet sentAt).settle addr moved)
    | _, _ => .error .notPending
  | .act (.lose index) =>
    match timed.net.inFlight[index]? with
    | some _ =>
      .ok { timed with net := timed.net.remove index, sentAt := timed.sentAt.eraseIdx index }
    | none => .error .notPending

/-- A network whose packets take arbitrary times, arrive in any order or are lost. -/
def machine (setting : Setting) : Transition.Machine RttNetwork RttAction Fault where
  init := initial
  step := step setting

/-! ## The clocked network runs as the network does -/

variable {setting : Setting} {timed next : RttNetwork}

theorem step_act {action : Network.Action} (hstep : step setting timed (.act action) = .ok next) :
    Network.step setting timed.net action = .ok next.net := by
  cases action with
  | host addr input =>
    obtain ⟨moved, hact, hok⟩ := bind_eq_ok.mp hstep
    cases hok
    exact bind_eq_ok.mpr ⟨moved, hact, rfl⟩
  | deliver index congested platform =>
    simp only [step] at hstep
    split at hstep
    next packet sentAt hpkt _ =>
      obtain ⟨moved, hrecv, hok⟩ := bind_eq_ok.mp hstep
      cases hok
      simp only [Network.step, hpkt]
      exact bind_eq_ok.mpr ⟨moved, hrecv, rfl⟩
    · cases hstep
  | lose index =>
    simp only [step] at hstep
    split at hstep
    next packet hpkt =>
      cases hstep
      simp only [Network.step, hpkt]
    · cases hstep

theorem net_reachable {allowed : RttNetwork → RttAction → Prop}
    (hreach : (machine setting).ReachableUnder allowed timed) :
    (Network.machine setting).Reachable timed.net := by
  apply hreach.simulation RttNetwork.net rfl
  intro state input moved _ _ _ hstep
  cases input with
  | elapse moment =>
    simp only [machine, step] at hstep
    split at hstep
    · cases hstep
      exact ⟨[], rfl⟩
    · cases hstep
  | act action => exact ⟨[action], run_cons_ok.mpr ⟨moved.net, step_act hstep, rfl⟩⟩

end RttNetwork

end HomaSird.Homa
