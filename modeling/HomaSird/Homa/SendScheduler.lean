import HomaSird.Transition.Machine
import HomaSird.Homa.OutboundMsg

/-! # The send scheduler

`HomaSendScheduler` assigns message ids, picks the next message to transmit and applies control
packets. The iteration order of the unordered map is an input, and so is the uninitialised
variable that `CtrlPktRecvdForOutboundMsg` reads when no message is selected.
-/

namespace HomaSird.Homa

structure HomaSendScheduler where
  /-- Whether a `TxDataPacket` event is pending (`m_txEvent`). -/
  txEventPending : Bool
  txMsgIdFreeList : List Nat
  outboundMsgs : UnorderedMap Nat HomaOutboundMsg

/-- What is left to the platform: the order of the map of outbound messages, and an uninitialised
`uint16_t`. -/
structure Platform where
  order : List Nat
  uninitialised : Nat

namespace HomaSendScheduler

/-- `MAX_N_MSG`. -/
def maxNMsg : Nat := 2560

def initial : HomaSendScheduler where
  txEventPending := false
  txMsgIdFreeList := List.range maxNMsg
  outboundMsgs := ∅

/-- `ScheduleNewMsg`; no id is returned when the free list is empty. -/
def scheduleNewMsg (sched : HomaSendScheduler) (outMsg : HomaOutboundMsg) :
    HomaSendScheduler × Option Nat :=
  match sched.txMsgIdFreeList with
  | [] => (sched, none)
  | txMsgId :: rest =>
    ({ txEventPending := true
       txMsgIdFreeList := rest
       outboundMsgs := sched.outboundMsgs.insert txMsgId outMsg }, some txMsgId)

def clearStateForMsg (sched : HomaSendScheduler) (txMsgId : Nat) : HomaSendScheduler :=
  { sched with
    txMsgIdFreeList := sched.txMsgIdFreeList ++ [txMsgId]
    outboundMsgs := sched.outboundMsgs.erase txMsgId }

/-- When `GetNextMsgId` accepts a message that has fewer remaining bytes than the best so far. -/
def isSendable (msg : HomaOutboundMsg) : Bool :=
  msg.needsInitialCreditRequest || msg.getNextPktOffset.isSome

/-- The loop of `GetNextMsgId` over the messages in traversal order. -/
def selectMsg : List (Nat × HomaOutboundMsg) → Nat → Option Nat → Option Nat
  | [], _, selected => selected
  | (txMsgId, msg) :: rest, minRemainingBytes, selected =>
    if !msg.isExpired && decide (msg.remainingBytes < minRemainingBytes) && isSendable msg then
      selectMsg rest msg.remainingBytes (some txMsgId)
    else selectMsg rest minRemainingBytes selected

def entriesIn (sched : HomaSendScheduler) (order : List Nat) : List (Nat × HomaOutboundMsg) :=
  order.filterMap fun txMsgId => (sched.outboundMsgs.lookup txMsgId).map (txMsgId, ·)

/-- `GetNextMsgId`: the selected id, and the state without the expired messages met on the way. -/
def getNextMsgId (sched : HomaSendScheduler) (order : List Nat) :
    HomaSendScheduler × Option Nat :=
  let entries := sched.entriesIn order
  let expired := (entries.filter fun entry => entry.2.isExpired).map Prod.fst
  (expired.foldl clearStateForMsg sched, selectMsg entries (2 ^ 32 - 1) none)

def getAccumulatedCreditPkts (sched : HomaSendScheduler) : Nat :=
  uint32 (sched.outboundMsgs.entries.map fun entry => entry.2.senderHeldCreditPkts).sum

def dataPacket (cfg : Config) (msg : HomaOutboundMsg) (txMsgId pktOffset : Nat)
    (payload : Payload) (csn : Bool) : Packet where
  ipv4Header := {
    source := msg.saddr
    destination := msg.daddr
    ecn := if cfg.sirdEnabled then .ect0 else .notECT }
  homaHeader := {
    dstPort := msg.dport
    srcPort := msg.sport
    txMsgId
    flags := Flag.data.mask
    msgSizeBytes := msg.msgSizeBytes
    pktOffset
    grantOffset := msg.maxGrantedIdx
    payloadSize := uint16 payload.length
    feedbackFlags := if csn then feedbackCsn else 0
    prio := msg.getPrio cfg }
  payload
  origin := msg.origin

/-- `GetNextPktOfMsg`: the credit request that is owed, else the next granted packet, else nothing.
-/
def getNextPktOfMsg (cfg : Config) (sched : HomaSendScheduler) (txMsgId : Nat) :
    Except Fault (HomaSendScheduler × Option Packet) :=
  match sched.outboundMsgs.lookup txMsgId with
  | none => .error .unknownMsg
  | some msg =>
    if msg.needsInitialCreditRequest then
      let packet := msg.generateInitialCreditRequest txMsgId
      .ok ({ sched with outboundMsgs :=
              sched.outboundMsgs.insert txMsgId msg.markInitialCreditRequestSent },
        some packet)
    else
      match msg.getNextPktOffset with
      | none => .ok (sched, none)
      | some pktOffset => do
        let csn := cfg.sirdEnabled &&
          decide (cfg.sirdSenderCsnThreshold < sched.getAccumulatedCreditPkts)
        let (payload, removed) ← msg.removeNextPktFromTxQ cfg pktOffset
        let packet := dataPacket cfg removed txMsgId pktOffset payload csn
        let spent := if cfg.sirdEnabled then removed.consumeSenderCredit else removed
        .ok ({ sched with outboundMsgs := sched.outboundMsgs.insert txMsgId spent },
          some packet)

/-- `TxDataPacket`; `drained` tells whether the link has finished the packets handed down before.
-/
def txDataPacket (cfg : Config) (sched : HomaSendScheduler) (drained : Bool)
    (order : List Nat) : Except Fault (HomaSendScheduler × Option Packet) :=
  if drained then
    match sched.getNextMsgId order with
    | (cleared, none) => .ok ({ cleared with txEventPending := false }, none)
    | (cleared, some txMsgId) => do
      let (sent, packet?) ← cleared.getNextPktOfMsg cfg txMsgId
      match packet? with
      | none => .error .gotPkt
      | some packet => .ok ({ sent with txEventPending := true }, some packet)
  else .ok ({ sched with txEventPending := true }, none)

/-- `CtrlPktRecvdForOutboundMsg` for a live message whose 4-tuple matches; the BUSY that answers a
RESEND, if any, is returned. -/
def applyCtrlPkt (cfg : Config) (sched : HomaSendScheduler) (platform : Platform)
    (msg : HomaOutboundMsg) (header : HomaHeader) :
    Except Fault (HomaSendScheduler × Option Packet) :=
  if header.hasFlag .grant then do
    let granted ← msg.handleGrantOffset cfg header
    .ok ({ sched with
            txEventPending := true
            outboundMsgs := sched.outboundMsgs.insert header.txMsgId granted }, none)
  else if header.hasFlag .resend then do
    let granted ← msg.handleGrantOffset cfg header
    let queued ← granted.handleResend header
    let updated := { sched with outboundMsgs := sched.outboundMsgs.insert header.txMsgId queued }
    let (cleared, selected) := updated.getNextMsgId platform.order
    let nextTxMsgId := selected.getD platform.uninitialised
    let busy :=
      if nextTxMsgId = header.txMsgId then none else some (queued.generateBusy nextTxMsgId)
    .ok ({ cleared with txEventPending := true }, busy)
  else if header.hasFlag .ack then do
    let acked ← msg.handleAck header
    let updated := { sched with outboundMsgs := sched.outboundMsgs.insert header.txMsgId acked }
    .ok ({ updated.clearStateForMsg header.txMsgId with txEventPending := true }, none)
  else .ok (sched, none)

/-- `CtrlPktRecvdForOutboundMsg`. Unknown ids are dropped, and an expired message is cleared
without looking at the packet. -/
def ctrlPktRecvdForOutboundMsg (cfg : Config) (sched : HomaSendScheduler)
    (platform : Platform) (packet : Packet) :
    Except Fault (HomaSendScheduler × Option Packet) :=
  let targetTxMsgId := packet.homaHeader.txMsgId
  match sched.outboundMsgs.lookup targetTxMsgId with
  | none => .ok (sched, none)
  | some msg =>
    if msg.isExpired then .ok (sched.clearStateForMsg targetTxMsgId, none)
    else if msg.key targetTxMsgId = packet.ctrlKey then
      sched.applyCtrlPkt cfg platform msg packet.homaHeader
    else .error .fourTuple

/-! ## The sender as a machine -/

inductive SendInput where
  | send (message : Payload) (saddr daddr : Ipv4Address) (sport dport origin : Nat)
  | ctrlPkt (packet : Packet) (platform : Platform)
  | txDataPacket (drained : Bool) (order : List Nat)

/-- `HomaL4Protocol::Send` of one message. -/
def send (cfg : Config) (sched : HomaSendScheduler) (message : Payload)
    (saddr daddr : Ipv4Address) (sport dport origin : Nat) :
    Except Fault (HomaSendScheduler × List Event) := do
  let outMsg ← HomaOutboundMsg.create cfg message saddr daddr sport dport origin
  match sched.scheduleNewMsg outMsg with
  | (refused, none) => .ok (refused, [])
  | (scheduled, some txMsgId) =>
    .ok (scheduled, [.msgBegin (outMsg.key txMsgId) origin outMsg.msgSizeBytes])

def isTraversal (sched : HomaSendScheduler) (order : List Nat) : Bool :=
  decide (order.Perm sched.outboundMsgs.keys)

def sentEvents (packet? : Option Packet) : List Event := (packet?.map Event.sendDown).toList

def handle (cfg : Config) (sched : HomaSendScheduler) :
    SendInput → Except Fault (HomaSendScheduler × List Event)
  | .send message saddr daddr sport dport origin =>
    sched.send cfg message saddr daddr sport dport origin
  | .ctrlPkt packet platform =>
    if packet.payload.length = packet.homaHeader.payloadSize then
      if sched.isTraversal platform.order then do
        let (next, busy?) ← sched.ctrlPktRecvdForOutboundMsg cfg platform packet
        .ok (next, sentEvents busy?)
      else .error .traversal
    else .error .payloadSize
  | .txDataPacket drained order =>
    if sched.txEventPending then
      if sched.isTraversal order then do
        let (next, packet?) ← sched.txDataPacket cfg drained order
        .ok (next, sentEvents packet?)
      else .error .traversal
    else .error .notPending

/-- A sender that is asked to send, gets arbitrary control packets and runs its events in any
order. -/
def machine (cfg : Config) : Transition.Machine HomaSendScheduler SendInput Fault where
  init := initial
  step sched input := do
    let (next, _) ← sched.handle cfg input
    .ok next

end HomaSendScheduler

end HomaSird.Homa
