import HomaSird.Data.MinQueue
import HomaSird.Homa.Header

/-! # Outbound messages

The sender's state of one message: its packets, the queue of offsets to
transmit, and the highest offset it has been granted.
-/

namespace HomaSird.Homa

/-- `HomaOutboundMsg`; its rtx event is never scheduled, so `isExpired` never changes. -/
structure HomaOutboundMsg where
  saddr : Ipv4Address
  daddr : Ipv4Address
  sport : Nat
  dport : Nat
  packets : List Payload
  pktSizes : List Nat
  pktTxQ : MinQueue Nat
  msgSizeBytes : Nat
  maxPayloadSize : Nat
  remainingBytes : Nat
  maxGrantedIdx : Nat
  senderHeldCreditPkts : Nat
  prio : Nat
  prioSetByReceiver : Bool
  waitForFirstGrant : Bool
  initialCreditRequestSent : Bool
  isExpired : Bool
  origin : Nat

namespace HomaOutboundMsg

/-- The packetization loop: cut full payloads off while bytes remain. -/
def packetize (maxPayloadSize : Nat) : Nat → Payload → List Payload
  | 0, _ => []
  | fuel + 1, message =>
    if message.isEmpty then []
    else message.take maxPayloadSize ::
      packetize maxPayloadSize fuel (message.drop maxPayloadSize)

/-- The initial `m_maxGrantedIdx` and `m_waitForFirstGrant` of the constructor. -/
def initialWindow (cfg : Config) (numPkts : Nat) : Nat × Bool :=
  if numPkts = 0 then (0, false)
  else if cfg.sirdEnabled then
    if cfg.unschThresholdPkts < numPkts then (0, true)
    else (min cfg.lastUnscheduledIdx (numPkts - 1), false)
  else (min cfg.lastUnscheduledIdx numPkts, false)

/-- The constructor; the assertion compares the `uint16_t` with the exact number of packets. -/
def create (cfg : Config) (message : Payload) (saddr daddr : Ipv4Address)
    (sport dport origin : Nat) : Except Fault HomaOutboundMsg :=
  let msgSizeBytes := message.length
  let maxPayloadSize := cfg.maxPayloadSize
  let fragments := packetize maxPayloadSize msgSizeBytes message
  let numPkts := uint16 fragments.length
  let window := initialWindow cfg numPkts
  if numPkts = msgSizeBytes / maxPayloadSize +
      (if msgSizeBytes % maxPayloadSize ≠ 0 then 1 else 0) then
    .ok {
      saddr, daddr, sport, dport
      packets := if cfg.memIsOptimized then [] else fragments
      pktSizes := if cfg.memIsOptimized then fragments.map List.length else []
      pktTxQ := MinQueue.range numPkts
      msgSizeBytes, maxPayloadSize
      remainingBytes := msgSizeBytes
      maxGrantedIdx := window.1
      senderHeldCreditPkts :=
        if window.2 = false ∧ 0 < numPkts then min (uint16 (window.1 + 1)) numPkts else 0
      prio := 0
      prioSetByReceiver := false
      waitForFirstGrant := window.2
      initialCreditRequestSent := false
      isExpired := false
      origin }
  else .error .packetCount

def getMsgSizePkts (msg : HomaOutboundMsg) : Nat :=
  packetCount msg.msgSizeBytes msg.maxPayloadSize

def key (msg : HomaOutboundMsg) (txMsgId : Nat) : MsgKey where
  saddr := msg.saddr
  daddr := msg.daddr
  sport := msg.sport
  dport := msg.dport
  txMsgId := txMsgId

def getPrio (cfg : Config) (msg : HomaOutboundMsg) : Nat :=
  if msg.prioSetByReceiver then msg.prio
  else if msg.getMsgSizePkts < 13 then 0
  else uint8 (cfg.numUnschedPrioBands + 2 ^ 8 - 1)

def getNextPktOffset (msg : HomaOutboundMsg) : Option Nat :=
  if msg.waitForFirstGrant then none
  else
    match msg.pktTxQ.top? with
    | none => none
    | some nextPktOffset =>
      if nextPktOffset ≤ msg.maxGrantedIdx ∧ nextPktOffset < msg.getMsgSizePkts then
        some nextPktOffset
      else none

def needsInitialCreditRequest (msg : HomaOutboundMsg) : Bool :=
  msg.waitForFirstGrant && !msg.initialCreditRequestSent

def markInitialCreditRequestSent (msg : HomaOutboundMsg) : HomaOutboundMsg :=
  { msg with initialCreditRequestSent := true }

def generateInitialCreditRequest (msg : HomaOutboundMsg) (txMsgId : Nat) : Packet where
  ipv4Header := { source := msg.saddr, destination := msg.daddr, ecn := .ect0 }
  homaHeader := {
    dstPort := msg.dport
    srcPort := msg.sport
    txMsgId
    flags := Flag.data.mask
    msgSizeBytes := msg.msgSizeBytes
    pktOffset := 0
    grantOffset := 0
    payloadSize := 0
    feedbackFlags := 0
    prio := 0 }
  payload := []
  origin := msg.origin

/-- Take the head of the queue out, with every copy of its offset. In memory-optimized mode the
packet is rebuilt from its size. -/
def removeNextPktFromTxQ (cfg : Config) (msg : HomaOutboundMsg) (pktOffset : Nat) :
    Except Fault (Payload × HomaOutboundMsg) :=
  if msg.pktTxQ.top? = some pktOffset then
    let payload :=
      if cfg.memIsOptimized then List.replicate (msg.pktSizes.getD pktOffset 0) 0
      else msg.packets.getD pktOffset []
    .ok (payload, { msg with pktTxQ := msg.pktTxQ.popWhileTop pktOffset })
  else .error .txQueueHead

def consumeSenderCredit (msg : HomaOutboundMsg) : HomaOutboundMsg :=
  if 0 < msg.senderHeldCreditPkts then
    { msg with senderHeldCreditPkts := msg.senderHeldCreditPkts - 1 }
  else msg

/-- The number of granted packets that `HandleGrantOffset` counts credits by. -/
def grantedPkts (msg : HomaOutboundMsg) : Nat :=
  if msg.waitForFirstGrant then 0 else min (uint16 (msg.maxGrantedIdx + 1)) msg.getMsgSizePkts

/-- The bytes left once packets up to `grantOffset` are granted, estimated in `uint32_t`. -/
def remainingEstimate (cfg : Config) (msg : HomaOutboundMsg) (grantOffset : Nat) : Nat :=
  uint32OfInt (msg.msgSizeBytes - (grantOffset + 1 - cfg.rttPackets) * msg.maxPayloadSize)

def raiseGrant (cfg : Config) (msg : HomaOutboundMsg) (header : HomaHeader) :
    HomaOutboundMsg :=
  let firstGrant := msg.waitForFirstGrant && decide (msg.maxGrantedIdx ≤ header.grantOffset)
  let opened := { msg with waitForFirstGrant := msg.waitForFirstGrant && !firstGrant }
  if msg.maxGrantedIdx < header.grantOffset then
    { opened with
      maxGrantedIdx := header.grantOffset
      prio := header.prio
      prioSetByReceiver := true
      remainingBytes := msg.remainingEstimate cfg header.grantOffset }
  else if firstGrant then { opened with prio := header.prio, prioSetByReceiver := true }
  else opened

def handleGrantOffset (cfg : Config) (msg : HomaOutboundMsg) (header : HomaHeader) :
    Except Fault HomaOutboundMsg :=
  if header.grantOffset < msg.getMsgSizePkts then
    let raised := msg.raiseGrant cfg header
    let newCredit := raised.grantedPkts - msg.grantedPkts
    .ok (if msg.grantedPkts < raised.grantedPkts then
        { raised with senderHeldCreditPkts := uint16 (msg.senderHeldCreditPkts + newCredit) }
      else raised)
  else .error .grantOffset

def handleResend (msg : HomaOutboundMsg) (header : HomaHeader) : Except Fault HomaOutboundMsg :=
  let queued := { msg with pktTxQ := msg.pktTxQ.push header.pktOffset }
  if header.grantOffset < msg.getMsgSizePkts then
    .ok (if msg.maxGrantedIdx < header.grantOffset then
        { queued with
          maxGrantedIdx := header.grantOffset
          prio := header.prio
          prioSetByReceiver := true }
      else queued)
  else .error .grantOffset

def handleAck (msg : HomaOutboundMsg) (header : HomaHeader) : Except Fault HomaOutboundMsg :=
  if header.pktOffset = msg.getMsgSizePkts then
    .ok { msg with remainingBytes := 0, senderHeldCreditPkts := 0 }
  else .error .ackOffset

def generateBusy (msg : HomaOutboundMsg) (targetTxMsgId : Nat) : Packet where
  ipv4Header := { source := msg.saddr, destination := msg.daddr, ecn := .notECT }
  homaHeader := {
    srcPort := msg.sport
    dstPort := msg.dport
    txMsgId := targetTxMsgId
    msgSizeBytes := msg.msgSizeBytes
    pktOffset := (msg.pktTxQ.top?).getD msg.getMsgSizePkts
    grantOffset := msg.maxGrantedIdx
    prio := msg.prio
    payloadSize := 0
    flags := Flag.busy.mask }
  payload := []
  origin := msg.origin

end HomaOutboundMsg

end HomaSird.Homa
