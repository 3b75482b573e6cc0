import HomaSird.Data.Word
import HomaSird.Data.UnorderedMap
import Mathlib.Data.Rat.Defs

/-! # Homa headers, packets and protocol attributes

The fields of `HomaHeader`, what the end hosts read of the IPv4 header, and the attributes of
`HomaL4Protocol`. The priority in the IP TOS byte is read by the queue discs only and left out;
its ECN bits are kept.
-/

namespace HomaSird.Homa

abbrev Ipv4Address := Nat

/-- The bytes of an `ns3::Packet` once its headers are taken off. -/
abbrev Payload := List UInt8

inductive EcnType where
  | notECT
  | ect1
  | ect0
  | ce
deriving DecidableEq

structure Ipv4Header where
  source : Ipv4Address
  destination : Ipv4Address
  ecn : EcnType
deriving DecidableEq

/-- `HomaHeader::Flags_t`, the values an end host acts on. -/
inductive Flag where
  | data
  | grant
  | resend
  | ack
  | busy
deriving DecidableEq

namespace Flag

def bit : Flag → Nat
  | data => 0
  | grant => 1
  | resend => 2
  | ack => 3
  | busy => 4

def mask (flag : Flag) : Nat := 2 ^ flag.bit

end Flag

/-- `FeedbackFlags_t::FEEDBACK_CSN`. -/
def feedbackCsn : Nat := 1

/-- `HomaHeader`, with the defaults of its constructor. -/
structure HomaHeader where
  srcPort : Nat := 0xfffd
  dstPort : Nat := 0xfffd
  txMsgId : Nat := 0
  flags : Nat := 0
  prio : Nat := 0xff
  feedbackFlags : Nat := 0
  msgSizeBytes : Nat := 0
  pktOffset : Nat := 0
  grantOffset : Nat := 0
  payloadSize : Nat := 0
  generation : Nat := 1
deriving DecidableEq

namespace HomaHeader

/-- `HomaHeader::GetSerializedSize`. -/
def serializedSize : Nat := 21

/-- The test `flags & flag` of the protocol. -/
def hasFlag (header : HomaHeader) (flag : Flag) : Bool := header.flags.testBit flag.bit

/-- The test `GetFeedbackFlags () & FEEDBACK_CSN`. -/
def hasCsn (header : HomaHeader) : Bool := header.feedbackFlags.testBit 0

theorem hasFlag_mask {header : HomaHeader} {set : Flag} (hflags : header.flags = set.mask)
    (flag : Flag) : header.hasFlag flag = decide (set = flag) := by
  rw [hasFlag, hflags]
  cases set <;> cases flag <;> rfl

end HomaHeader

/-- `Ipv4Header::GetSerializedSize` without options. -/
def ipv4SerializedSize : Nat := 20

/-- The 4-tuple of a message together with its `txMsgId`. -/
structure MsgKey where
  saddr : Ipv4Address
  daddr : Ipv4Address
  sport : Nat
  dport : Nat
  txMsgId : Nat
deriving DecidableEq

/-- A packet as the IP layer hands it over. No function reads `origin`, the serial number at the
sending host of the message for which it was generated. -/
structure Packet where
  ipv4Header : Ipv4Header
  homaHeader : HomaHeader
  payload : Payload
  origin : Nat
deriving DecidableEq

namespace Packet

def hasFlag (packet : Packet) (flag : Flag) : Bool := packet.homaHeader.hasFlag flag

/-- The message a DATA packet belongs to, as `GetInboundMsg` compares it. -/
def key (packet : Packet) : MsgKey where
  saddr := packet.ipv4Header.source
  daddr := packet.ipv4Header.destination
  sport := packet.homaHeader.srcPort
  dport := packet.homaHeader.dstPort
  txMsgId := packet.homaHeader.txMsgId

/-- The message a control packet speaks about: its addresses and ports read backwards. -/
def ctrlKey (packet : Packet) : MsgKey where
  saddr := packet.ipv4Header.destination
  daddr := packet.ipv4Header.source
  sport := packet.homaHeader.dstPort
  dport := packet.homaHeader.srcPort
  txMsgId := packet.homaHeader.txMsgId

end Packet

def samplePacket (msgSizeBytes pktOffset : Nat) (payload : Payload) : Packet where
  ipv4Header := { source := 1, destination := 2, ecn := .ect0 }
  homaHeader := {
    srcPort := 5
    dstPort := 6
    flags := Flag.data.mask
    msgSizeBytes
    pktOffset
    payloadSize := payload.length }
  payload
  origin := 0

/-- The attributes of `HomaL4Protocol` that its end-host logic reads, with the
ranges of their types that matter and an MTU that leaves room for a payload.
`double` attributes are exact rationals. -/
structure Config where
  mtu : Nat
  rttPackets : Nat
  numTotalPrioBands : Nat
  numUnschedPrioBands : Nat
  overcommitLevel : Nat
  useSrrScheduling : Bool
  sirdEnabled : Bool
  sirdCreditBudgetPkts : Nat
  sirdUnschThresholdPkts : Nat
  sirdEcnAlphaGain : ℚ
  sirdSenderCsnThreshold : Nat
  maxNumRtxPerMsg : Nat
  memIsOptimized : Bool
  mtu_gt : HomaHeader.serializedSize + ipv4SerializedSize < mtu
  mtu_lt : mtu < 2 ^ 16
  rttPackets_lt : rttPackets < 2 ^ 16
  maxNumRtxPerMsg_lt : maxNumRtxPerMsg < 2 ^ 16

namespace Config

def defaults (mtu : Nat) (mtu_gt : HomaHeader.serializedSize + ipv4SerializedSize < mtu)
    (mtu_lt : mtu < 2 ^ 16) : Config where
  mtu := mtu
  rttPackets := 10
  numTotalPrioBands := 8
  numUnschedPrioBands := 2
  overcommitLevel := 1
  useSrrScheduling := false
  sirdEnabled := false
  sirdCreditBudgetPkts := 12
  sirdUnschThresholdPkts := 12
  sirdEcnAlphaGain := 1 / 8
  sirdSenderCsnThreshold := 20
  maxNumRtxPerMsg := 5
  memIsOptimized := true
  mtu_gt := mtu_gt
  mtu_lt := mtu_lt
  rttPackets_lt := by decide
  maxNumRtxPerMsg_lt := by decide

def oneByte : Config := defaults 42 (by decide) (by decide)

/-- The same link with SIRD, one credit for all senders and no unscheduled packets for messages
longer than one. -/
def oneByteSird : Config :=
  { oneByte with sirdEnabled := true, sirdCreditBudgetPkts := 1, sirdUnschThresholdPkts := 1 }

variable (cfg : Config)

def maxPayloadSize : Nat :=
  cfg.mtu - HomaHeader.serializedSize - ipv4SerializedSize

theorem maxPayloadSize_pos : 0 < cfg.maxPayloadSize := by
  have hmtu := cfg.mtu_gt
  unfold maxPayloadSize
  omega

theorem maxPayloadSize_lt : cfg.maxPayloadSize < 2 ^ 16 := by
  have hmtu := cfg.mtu_lt
  unfold maxPayloadSize
  omega

/-- Messages of more packets than this wait for a GRANT when SIRD is enabled. -/
def unschThresholdPkts : Nat := max 1 cfg.sirdUnschThresholdPkts

/-- `std::max<uint16_t> (1, GetBdp ())`, the base of every sender budget. -/
def baseBudgetPkts : Nat := max 1 cfg.rttPackets

/-- `std::max<uint32_t> (1, GetSirdCreditBudgetPkts ())`. -/
def globalBudgetPkts : Nat := max 1 cfg.sirdCreditBudgetPkts

/-- The `uint16_t` value of `GetBdp () - 1`, which wraps for a zero BDP. -/
def lastUnscheduledIdx : Nat := uint16 (cfg.rttPackets + 2 ^ 16 - 1)

theorem lastUnscheduledIdx_of_pos (hrtt : 1 ≤ cfg.rttPackets) :
    cfg.lastUnscheduledIdx = cfg.rttPackets - 1 := by
  have hlt := cfg.rttPackets_lt
  unfold lastUnscheduledIdx uint16
  omega

end Config

/-- Packets of a message of the given size, as a `uint16_t`. -/
def packetCount (msgSizeBytes maxPayloadSize : Nat) : Nat :=
  uint16 (msgSizeBytes / maxPayloadSize + if msgSizeBytes % maxPayloadSize ≠ 0 then 1 else 0)

theorem packetCount_lt (msgSizeBytes maxPayloadSize : Nat) :
    packetCount msgSizeBytes maxPayloadSize < 2 ^ 16 := uint16_lt _

/-- What can be seen of a host: the packets it hands down, the messages it accepts and hands up,
its `DataPktArrival` trace, and the retransmission limit of a message being reached. -/
inductive Event where
  | sendDown (packet : Packet)
  | msgBegin (key : MsgKey) (origin msgSizeBytes : Nat)
  | forwardUp (key : MsgKey) (origin : Nat) (message : Payload)
  | dataRecv (packet : Packet)
  | rtxLimit (key : MsgKey) (origin : Nat)
deriving DecidableEq

/-- Why a step does not happen: an `NS_ASSERT` fails, an access is outside a vector, an event is
not pending, or an order is no traversal of the map. -/
inductive Fault where
  | notPending
  | traversal
  | packetCount
  | payloadSize
  | pktOffsetRange
  | unknownMsg
  | txQueueHead
  | fourTuple
  | grantOffset
  | ackOffset
  | gotPkt
deriving DecidableEq

end HomaSird.Homa
