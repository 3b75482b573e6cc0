import HomaSird.Homa.Header

/-! # Inbound messages

The receiver's state of one message: what has arrived, how far it has been granted and how far the
window lets it be. Sizes and offsets are `uint16_t`; sums promoted to `int` are left unreduced.
-/

namespace HomaSird.Homa

/-- `HomaInboundMsg`; `rtxEvent` is the argument of its pending `ExpireRtxTimeout` event. -/
structure HomaInboundMsg where
  ipv4Header : Ipv4Header
  sport : Nat
  dport : Nat
  txMsgId : Nat
  packets : List Payload
  pktSizes : List Nat
  receivedPackets : List Bool
  remainingBytes : Nat
  msgSizeBytes : Nat
  msgSizePkts : Nat
  maxGrantableIdx : Nat
  maxGrantedIdx : Nat
  prio : Nat
  hasGrantedData : Bool
  creditDrivenGrantWindow : Bool
  currentlyScheduled : Bool
  rtxEvent : Option Nat
  lastRtxGrntIdx : Nat
  numRtxWithoutProgress : Nat
  origin : Nat
deriving DecidableEq

namespace HomaInboundMsg

/-- The 4-tuple and id that `GetInboundMsg` compares. -/
def key (msg : HomaInboundMsg) : MsgKey where
  saddr := msg.ipv4Header.source
  daddr := msg.ipv4Header.destination
  sport := msg.sport
  dport := msg.dport
  txMsgId := msg.txMsgId

def getSrcAddress (msg : HomaInboundMsg) : Ipv4Address := msg.ipv4Header.source

def setCurrentlyScheduled (msg : HomaInboundMsg) (currentlyScheduled : Bool) : HomaInboundMsg :=
  { msg with currentlyScheduled }

/-- Record a payload: its size in memory-optimized mode and the payload otherwise. -/
def store (cfg : Config) (msg : HomaInboundMsg) (pktOffset : Nat) (payload : Payload) :
    HomaInboundMsg :=
  { msg with
    packets := if cfg.memIsOptimized then msg.packets else msg.packets.set pktOffset payload
    pktSizes :=
      if cfg.memIsOptimized then msg.pktSizes.set pktOffset payload.length else msg.pktSizes
    receivedPackets := msg.receivedPackets.set pktOffset true
    remainingBytes := uint32OfInt (msg.remainingBytes - payload.length) }

/-- The test `longSirdMsg` of the constructor. -/
def isLongSirdMsg (cfg : Config) (msgSizePkts : Nat) : Bool :=
  cfg.sirdEnabled && decide (cfg.unschThresholdPkts < msgSizePkts)

/-- `std::min<uint16_t> (rttPackets - 1, m_msgSizePkts - 1)`, the last offset free of GRANTs. -/
def unscheduledIdx (cfg : Config) (msgSizePkts : Nat) : Nat :=
  min cfg.lastUnscheduledIdx (uint16 (msgSizePkts + 2 ^ 16 - 1))

/-- The message as the constructor sets it up before it looks at the payload. -/
def blank (cfg : Config) (packet : Packet) : HomaInboundMsg :=
  let header := packet.homaHeader
  let msgSizePkts := packetCount header.msgSizeBytes cfg.maxPayloadSize
  let long := isLongSirdMsg cfg msgSizePkts
  let maxGrantedIdx := if long then 0 else unscheduledIdx cfg msgSizePkts
  let maxGrantableIdx := if long then 0 else uint16 (maxGrantedIdx + 1)
  { ipv4Header := packet.ipv4Header
    sport := header.srcPort
    dport := header.dstPort
    txMsgId := header.txMsgId
    packets := if cfg.memIsOptimized then [] else List.replicate msgSizePkts []
    pktSizes := if cfg.memIsOptimized then List.replicate msgSizePkts 0 else []
    receivedPackets := List.replicate msgSizePkts false
    remainingBytes := header.msgSizeBytes
    msgSizeBytes := header.msgSizeBytes
    msgSizePkts
    maxGrantableIdx
    maxGrantedIdx
    prio := 0
    hasGrantedData := !long
    creditDrivenGrantWindow := long
    currentlyScheduled := false
    rtxEvent := none
    lastRtxGrntIdx := maxGrantableIdx
    numRtxWithoutProgress := 0
    origin := packet.origin }

/-- The constructor. A payload is stored at the packet's offset, which must lie
inside the buffer. -/
def create (cfg : Config) (packet : Packet) : Except Fault HomaInboundMsg :=
  let msg := blank cfg packet
  if packet.payload.isEmpty then .ok msg
  else if packet.homaHeader.pktOffset < msg.receivedPackets.length then
    .ok (msg.store cfg packet.homaHeader.pktOffset packet.payload)
  else .error .pktOffsetRange

/-- `IsFullyGranted`, compared in `int`: without packets the last index is -1. -/
def isFullyGranted (msg : HomaInboundMsg) : Bool :=
  msg.hasGrantedData && decide (msg.msgSizePkts ≤ msg.maxGrantedIdx + 1)

def isGrantable (msg : HomaInboundMsg) : Bool :=
  if msg.hasGrantedData then decide (msg.maxGrantedIdx < msg.maxGrantableIdx)
  else decide (0 < msg.msgSizePkts) && decide (msg.maxGrantableIdx < msg.msgSizePkts)

def isFullyReceived (msg : HomaInboundMsg) : Bool := msg.receivedPackets.all id

def creditWindow (msg : HomaInboundMsg) (credits : Nat) : Nat :=
  min (msg.msgSizePkts - 1)
    (if msg.hasGrantedData then msg.maxGrantedIdx + max 1 credits else max 1 credits - 1)

def capGrantableWindow (msg : HomaInboundMsg) (grantWindowPkts : Nat) : HomaInboundMsg :=
  if msg.msgSizePkts = 0 then msg
  else { msg with
    maxGrantableIdx := min msg.maxGrantableIdx (uint16 (msg.creditWindow grantWindowPkts)) }

def advanceGrantableWindow (msg : HomaInboundMsg) (grantPkts : Nat) : HomaInboundMsg × Bool :=
  if msg.msgSizePkts = 0 ∨ msg.isFullyGranted then (msg, false)
  else if msg.creditWindow grantPkts ≤ msg.maxGrantableIdx then (msg, false)
  else ({ msg with maxGrantableIdx := uint16 (msg.creditWindow grantPkts) }, true)

/-- The window move of `ReceiveDataPacket` after a first arrival. -/
def openWindow (msg : HomaInboundMsg) : HomaInboundMsg :=
  if msg.creditDrivenGrantWindow ∨ msg.msgSizePkts ≤ msg.maxGrantableIdx + 1 then msg
  else { msg with maxGrantableIdx := uint16 (msg.maxGrantableIdx + 1) }

/-- `ReceiveDataPacket`. A credit request changes nothing, nor does an offset received before. -/
def receiveDataPacket (cfg : Config) (msg : HomaInboundMsg) (payload : Payload)
    (pktOffset : Nat) : Except Fault HomaInboundMsg :=
  if payload.isEmpty then .ok msg
  else
    match msg.receivedPackets[pktOffset]? with
    | none => .error .pktOffsetRange
    | some true => .ok msg
    | some false => .ok (msg.store cfg pktOffset payload).openWindow

/-- What the application gets; in memory-optimized mode an all-zero packet of the summed size. -/
def getReassembledMsg (cfg : Config) (msg : HomaInboundMsg) : Payload :=
  if cfg.memIsOptimized then List.replicate (uint32 msg.pktSizes.sum) 0
  else msg.packets.flatten

def ackNo (msg : HomaInboundMsg) : Nat := msg.receivedPackets.idxOf false

def grantOffset (msg : HomaInboundMsg) : Nat :=
  if msg.msgSizePkts = 0 then 0 else min msg.maxGrantableIdx (msg.msgSizePkts - 1)

/-- A control packet of the receiver, its ports swapped, as `SendDown` addresses it. -/
def ctrlPacket (msg : HomaInboundMsg) (flag : Flag) (pktOffset grantOffset prio : Nat) :
    Packet where
  ipv4Header := {
    source := msg.ipv4Header.destination
    destination := msg.ipv4Header.source
    ecn := .notECT }
  homaHeader := {
    srcPort := msg.dport
    dstPort := msg.sport
    txMsgId := msg.txMsgId
    msgSizeBytes := msg.msgSizeBytes
    pktOffset
    grantOffset
    prio
    payloadSize := 0
    flags := flag.mask }
  payload := []
  origin := msg.origin

theorem hasFlag_ctrlPacket (msg : HomaInboundMsg) (flag : Flag)
    (pktOffset grantOffset prio : Nat) (other : Flag) :
    (msg.ctrlPacket flag pktOffset grantOffset prio).hasFlag other = decide (flag = other) :=
  HomaHeader.hasFlag_mask rfl other

/-- `GenerateGrantOrAck` for a GRANT; its callers test `IsGrantable` first. -/
def generateGrant (msg : HomaInboundMsg) (grantedPrio : Nat) : Packet × HomaInboundMsg :=
  (msg.ctrlPacket .grant msg.ackNo msg.grantOffset grantedPrio,
    { msg with prio := grantedPrio, maxGrantedIdx := msg.grantOffset, hasGrantedData := true })

/-- `GenerateGrantOrAck` for an ACK. -/
def generateAck (msg : HomaInboundMsg) (grantedPrio : Nat) : Packet :=
  msg.ctrlPacket .ack msg.ackNo msg.grantOffset grantedPrio

/-- `GenerateResends`: a RESEND for each missing offset below the given and the granted one. -/
def generateResends (msg : HomaInboundMsg) (maxRsndPktOffset : Nat) : List Packet :=
  if msg.hasGrantedData then
    ((List.range (min (min maxRsndPktOffset msg.msgSizePkts) msg.maxGrantedIdx)).filter
      fun pktOffset => msg.receivedPackets[pktOffset]? = some false).map
      fun pktOffset => msg.ctrlPacket .resend pktOffset msg.maxGrantedIdx msg.prio
  else []

def numReceived (msg : HomaInboundMsg) : Nat := msg.receivedPackets.count true

end HomaInboundMsg

end HomaSird.Homa
