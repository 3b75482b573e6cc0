import HomaSird.Homa.InboundMsg
import HomaSird.Homa.SirdState
import HomaSird.Transition.Machine
import Mathlib.Data.Finset.Basic

/-! # The receive scheduler

`HomaRecvScheduler` keeps the pending inbound messages in scheduling order, issues GRANTs one
credit tick at a time and runs the timers. Time is left out: a pending event may run at any
moment.
-/

namespace HomaSird.Homa

/-- `HomaRecvScheduler`. -/
structure HomaRecvScheduler where
  inboundMsgs : List HomaInboundMsg
  busySenders : Finset Ipv4Address
  sird : SirdState
  /-- Whether a `CreditTick` event is pending (`m_creditTickEvent`). -/
  creditTickPending : Bool

namespace HomaRecvScheduler

def initial : HomaRecvScheduler where
  inboundMsgs := []
  busySenders := ∅
  sird := .initial
  creditTickPending := false

/-! ## Grant opportunities and credit ticks -/

/-- The body of the loop in `HasGrantOpportunity`. -/
def canGrant (cfg : Config) (sched : HomaRecvScheduler) (msg : HomaInboundMsg) : Bool :=
  !msg.isFullyGranted && decide (msg.getSrcAddress ∉ sched.busySenders) &&
    decide (sched.sird.creditsInUse msg.getSrcAddress <
      sched.sird.senderBudgetPkts cfg msg.getSrcAddress)

def hasGrantOpportunity (cfg : Config) (sched : HomaRecvScheduler) : Bool :=
  decide (sched.sird.globalCreditsInUsePkts < cfg.globalBudgetPkts) &&
    sched.inboundMsgs.any (sched.canGrant cfg)

def ensureCreditTickScheduled (cfg : Config) (sched : HomaRecvScheduler) :
    HomaRecvScheduler :=
  { sched with
    creditTickPending := sched.creditTickPending || sched.hasGrantOpportunity cfg }

/-- The local variables of `SendAppropriateGrants`, its SIRD state and the GRANTs sent. -/
structure GrantRound where
  grantedSenders : Finset Ipv4Address
  grantingPrio : Nat
  overcommitDue : Nat
  sird : SirdState
  sent : List Packet

namespace GrantRound

def start (cfg : Config) (sird : SirdState) : GrantRound where
  grantedSenders := ∅
  grantingPrio := cfg.numUnschedPrioBands
  overcommitDue := cfg.overcommitLevel
  sird := sird
  sent := []

/-- The overcommitment is not used up, the message not fully granted, and its sender neither
granted already nor busy. -/
def considers (round : GrantRound) (busySenders : Finset Ipv4Address) (msg : HomaInboundMsg) :
    Bool :=
  decide (0 < round.overcommitDue) && !msg.isFullyGranted &&
    decide (msg.getSrcAddress ∉ round.grantedSenders) &&
    decide (msg.getSrcAddress ∉ busySenders)

def clampPrio (cfg : Config) (round : GrantRound) : GrantRound :=
  if 0 < round.overcommitDue then
    { round with
      grantingPrio := min round.grantingPrio (uint8 (cfg.numTotalPrioBands + 2 ^ 8 - 1)) }
  else round

def issue (round : GrantRound) (msg : HomaInboundMsg) : GrantRound × HomaInboundMsg :=
  let (grant, granted) := msg.generateGrant round.grantingPrio
  ({ round with
      grantedSenders := insert msg.getSrcAddress round.grantedSenders
      grantingPrio := uint8 (round.grantingPrio + 1)
      overcommitDue := round.overcommitDue - 1
      sent := round.sent ++ [grant] },
    granted.setCurrentlyScheduled true)

def homaStep (cfg : Config) (busySenders : Finset Ipv4Address) (round : GrantRound)
    (currentMsg : HomaInboundMsg) : GrantRound × HomaInboundMsg :=
  let msg := currentMsg.setCurrentlyScheduled false
  let round := round.clampPrio cfg
  if round.considers busySenders msg && msg.isGrantable then round.issue msg
  else (round, msg)

/-- One iteration with SIRD: a credit, not the arrival of data, opens a window that is not
grantable. -/
def sirdStep (cfg : Config) (busySenders : Finset Ipv4Address) (round : GrantRound)
    (currentMsg : HomaInboundMsg) : GrantRound × HomaInboundMsg :=
  let msg := currentMsg.setCurrentlyScheduled false
  let round := round.clampPrio cfg
  if round.considers busySenders msg then
    let senderKey := msg.getSrcAddress
    let opened := { round with sird := round.sird.openAccount senderKey }
    if opened.sird.hasCredit cfg senderKey then
      let msg := if msg.isGrantable then msg else (msg.advanceGrantableWindow 1).1
      if msg.isGrantable then
        let (issued, granted) := opened.issue msg
        ({ issued with sird := opened.sird.charge senderKey }, granted)
      else (opened, msg)
    else (opened, msg)
  else (round, msg)

/-- The loop of `SendAppropriateGrants` over the messages in list order. -/
def loop (step : GrantRound → HomaInboundMsg → GrantRound × HomaInboundMsg) :
    GrantRound → List HomaInboundMsg → GrantRound × List HomaInboundMsg
  | round, [] => (round, [])
  | round, msg :: rest =>
    let (next, updated) := step round msg
    let (final, others) := loop step next rest
    (final, updated :: others)

end GrantRound

def grantStep (cfg : Config) (busySenders : Finset Ipv4Address) :
    GrantRound → HomaInboundMsg → GrantRound × HomaInboundMsg :=
  if cfg.sirdEnabled then GrantRound.sirdStep cfg busySenders
  else GrantRound.homaStep cfg busySenders

/-- `SendAppropriateGrants`: the state left and the GRANTs sent; true when there is one. -/
def sendAppropriateGrants (cfg : Config) (sched : HomaRecvScheduler) :
    HomaRecvScheduler × List Packet :=
  let (round, msgs) := GrantRound.loop (grantStep cfg sched.busySenders)
    (GrantRound.start cfg sched.sird) sched.inboundMsgs
  ({ sched with inboundMsgs := msgs, sird := round.sird }, round.sent)

/-- `CreditTick`, run when its event fires. -/
def creditTick (cfg : Config) (sched : HomaRecvScheduler) : HomaRecvScheduler × List Packet :=
  let (granted, sent) := sched.sendAppropriateGrants cfg
  ({ granted with
      creditTickPending := !sent.isEmpty && granted.hasGrantOpportunity cfg }, sent)

/-! ## Arriving packets -/

/-- `GetInboundMsg`: the index of the first pending message with the key. -/
def getInboundMsg (sched : HomaRecvScheduler) (key : MsgKey) : Option Nat :=
  sched.inboundMsgs.findIdx? fun msg => msg.key = key

def insertByRemaining (inboundMsg : HomaInboundMsg) : List HomaInboundMsg → List HomaInboundMsg
  | [] => [inboundMsg]
  | msg :: rest =>
    if inboundMsg.remainingBytes < msg.remainingBytes then inboundMsg :: msg :: rest
    else msg :: insertByRemaining inboundMsg rest

def eraseMsg (msgs : List HomaInboundMsg) : Option Nat → List HomaInboundMsg
  | none => msgs
  | some msgIdx => msgs.eraseIdx msgIdx

def scheduleMsgAtIdx (cfg : Config) (sched : HomaRecvScheduler) (inboundMsg : HomaInboundMsg)
    (msgIdx : Option Nat) : HomaRecvScheduler :=
  let others := eraseMsg sched.inboundMsgs msgIdx
  { sched with
    inboundMsgs :=
      if cfg.useSrrScheduling then others ++ [inboundMsg]
      else insertByRemaining inboundMsg others }

/-- `ClearStateForMsg`: the timer of the message goes with it. -/
def clearStateForMsg (sched : HomaRecvScheduler) (msgIdx : Option Nat) : HomaRecvScheduler :=
  { sched with inboundMsgs := eraseMsg sched.inboundMsgs msgIdx }

/-- `ForwardUp`: hand the message up, acknowledge it and clear its state. -/
def forwardUp (cfg : Config) (sched : HomaRecvScheduler) (inboundMsg : HomaInboundMsg)
    (msgIdx : Option Nat) : HomaRecvScheduler × List Event :=
  (sched.clearStateForMsg msgIdx,
    [.forwardUp inboundMsg.key inboundMsg.origin (inboundMsg.getReassembledMsg cfg),
      .sendDown (inboundMsg.generateAck cfg.numUnschedPrioBands)])

/-- The message of a DATA packet once it has the packet, and its index if it was pending. A new one
gets a timer. -/
def takeData (cfg : Config) (sched : HomaRecvScheduler) (packet : Packet) :
    Except Fault (HomaInboundMsg × Option Nat) :=
  match sched.getInboundMsg packet.key with
  | some msgIdx =>
    match sched.inboundMsgs[msgIdx]? with
    | none => .error .unknownMsg
    | some inboundMsg => do
      let received ← inboundMsg.receiveDataPacket cfg packet.payload
        packet.homaHeader.pktOffset
      .ok (received, some msgIdx)
  | none => do
    let created ← HomaInboundMsg.create cfg packet
    .ok ({ created with rtxEvent := some created.maxGrantedIdx }, none)

def receiveDataPacket (cfg : Config) (sched : HomaRecvScheduler) (packet : Packet) :
    Except Fault (HomaRecvScheduler × List Event) := do
  let (inboundMsg, msgIdx) ← sched.takeData cfg packet
  .ok (if inboundMsg.isFullyReceived then sched.forwardUp cfg inboundMsg msgIdx
    else (sched.scheduleMsgAtIdx cfg inboundMsg msgIdx, []))

/-- `ReceivePacket`, for DATA and BUSY packets. -/
def receivePacket (cfg : Config) (sched : HomaRecvScheduler) (packet : Packet) :
    Except Fault (HomaRecvScheduler × List Event) :=
  let senderKey := packet.ipv4Header.source
  if packet.hasFlag .data then do
    let fed :=
      if cfg.sirdEnabled then { sched with sird := sched.sird.receiveData cfg packet }
      else sched
    let (received, events) ← fed.receiveDataPacket cfg packet
    let idle := { received with busySenders := received.busySenders.erase senderKey }
    .ok (idle.ensureCreditTickScheduled cfg, events ++ [.dataRecv packet])
  else if packet.hasFlag .busy then
    let busy := { sched with busySenders := insert senderKey sched.busySenders }
    .ok (busy.ensureCreditTickScheduled cfg, [])
  else .ok (sched.ensureCreditTickScheduled cfg, [])

/-! ## Retransmission timers -/

def resends (sched : HomaRecvScheduler) (inboundMsg : HomaInboundMsg) (maxRsndPktOffset : Nat) :
    List Packet :=
  if inboundMsg.getSrcAddress ∉ sched.busySenders ∧ inboundMsg.currentlyScheduled then
    inboundMsg.generateResends maxRsndPktOffset
  else []

def rearmRtx (inboundMsg : HomaInboundMsg) : HomaInboundMsg :=
  { inboundMsg with
    rtxEvent := some inboundMsg.maxGrantedIdx
    numRtxWithoutProgress :=
      if inboundMsg.lastRtxGrntIdx < inboundMsg.maxGrantableIdx then 0
      else if inboundMsg.currentlyScheduled then uint16 (inboundMsg.numRtxWithoutProgress + 1)
      else inboundMsg.numRtxWithoutProgress
    lastRtxGrntIdx := inboundMsg.maxGrantableIdx }

/-- `ExpireRtxTimeout` for the message at index `timer`, which is looked up by its key before it is
dropped or armed. -/
def expireRtxTimeout (cfg : Config) (sched : HomaRecvScheduler) (timer : Nat) :
    Except Fault (HomaRecvScheduler × List Event) :=
  match sched.inboundMsgs[timer]? with
  | none => .error .notPending
  | some inboundMsg =>
    match inboundMsg.rtxEvent with
    | none => .error .notPending
    | some maxRsndPktOffset =>
      let put (msg : HomaInboundMsg) : HomaRecvScheduler :=
        { sched with inboundMsgs := sched.inboundMsgs.set timer msg }
      let expired := { inboundMsg with rtxEvent := none }
      if inboundMsg.isFullyReceived then .ok (put expired, [])
      else
        match sched.getInboundMsg inboundMsg.key with
        | none => .ok (put expired, [])
        | some msgIdx =>
          if cfg.maxNumRtxPerMsg ≤ inboundMsg.numRtxWithoutProgress then
            .ok ((put expired).clearStateForMsg (some msgIdx),
              [.rtxLimit inboundMsg.key inboundMsg.origin])
          else
            .ok (put (rearmRtx inboundMsg),
              (sched.resends inboundMsg maxRsndPktOffset).map .sendDown)

/-! ## The receiver as a machine -/

inductive RecvInput where
  | packet (packet : Packet)
  | creditTick
  | rtxExpire (timer : Nat)

/-- One event at the receiver. `HomaL4Protocol::Receive` checks the payload size of a packet. -/
def handle (cfg : Config) (sched : HomaRecvScheduler) :
    RecvInput → Except Fault (HomaRecvScheduler × List Event)
  | .packet packet =>
    if packet.payload.length = packet.homaHeader.payloadSize then
      sched.receivePacket cfg packet
    else .error .payloadSize
  | .creditTick =>
    if sched.creditTickPending then
      let (ticked, sent) := sched.creditTick cfg
      .ok (ticked, sent.map .sendDown)
    else .error .notPending
  | .rtxExpire timer => sched.expireRtxTimeout cfg timer

end HomaRecvScheduler

/-- A receiver together with everything it has done so far, oldest first. -/
structure Receiver where
  sched : HomaRecvScheduler
  trace : List Event

namespace Receiver

open HomaRecvScheduler

def step (cfg : Config) (receiver : Receiver) (input : RecvInput) : Except Fault Receiver := do
  let (sched, events) ← receiver.sched.handle cfg input
  .ok { sched, trace := receiver.trace ++ events }

/-- A receiver fed with arbitrary packets, its events run in any order. -/
def machine (cfg : Config) : Transition.Machine Receiver RecvInput Fault where
  init := { sched := .initial, trace := [] }
  step := step cfg

end Receiver

end HomaSird.Homa
