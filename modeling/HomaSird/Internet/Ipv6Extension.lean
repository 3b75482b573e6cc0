import Mathlib.Tactic.Common

/-! # IPv6 extension headers and local delivery

A packet is its bytes, without the IPv6 header. Every `Process` method is given the packet and
the offset of its header, and says how long the header is and what comes next. What the
methods send and report is collected in order. Reading behind the end of a packet, a header
of size zero and a loop that does not end have no result.
-/

namespace HomaSird.Internet

abbrev Ipv6Address := List UInt8

def Ipv6Address.isMulticast (address : Ipv6Address) : Bool := address.head? == some 0xff

structure Ipv6Header where
  sourceAddress : Ipv6Address
  destinationAddress : Ipv6Address
  hopLimit : UInt8
  nextHeader : UInt8
  payloadLength : UInt16
deriving DecidableEq

namespace Ipv6Header

def IPV6_EXT_HOP_BY_HOP : UInt8 := 0

def IPV6_EXT_ROUTING : UInt8 := 43

def IPV6_EXT_FRAGMENTATION : UInt8 := 44

def IPV6_EXT_DESTINATION : UInt8 := 60

def getSerializedSize : Nat := 40

end Ipv6Header

open Ipv6Header

inductive Ipv6Fault where
  | readPastEnd
  | zeroSizeHeader
  | nullPointer
  | goesOn
deriving DecidableEq

inductive Ipv6DropReason where
  | unknownOption
  | malformedHeader
  | unknownProtocol
deriving DecidableEq

inductive Icmpv6Code where
  | malformedHeader
  | unknownNextHeader
  | unknownOption
  | hopLimit
  | portUnreachable
deriving DecidableEq

/-- What can be seen of the node. `visit` notes a call of a `Process` method and its position. -/
inductive Ipv6Event where
  | visit (nextHeader : UInt8) (pos : UInt8)
  | receive (protocol : UInt8) (pos : UInt8) (packet : List UInt8)
  | drop (reason : Option Ipv6DropReason)
  | sendErrorParameterError (dst : Ipv6Address) (code : Icmpv6Code) (ptr : Nat)
  | sendErrorTimeExceeded (dst : Ipv6Address) (code : Icmpv6Code)
  | sendErrorDestinationUnreachable (dst : Ipv6Address) (code : Icmpv6Code)
  | sendRealOut (packet : List UInt8) (header : Ipv6Header)
deriving DecidableEq

/-- The reference parameters of `Process`; a reason that was not set is not known. -/
structure Ipv6Flags where
  stopProcessing : Bool := false
  isDropped : Bool := false
  dropReason : Option Ipv6DropReason := none
deriving DecidableEq

/-- What a `Process` method leaves: the size it reports, the next header and the packet if changed,
the flags, and what was sent. -/
structure Processed where
  step : UInt8
  nextHeader : UInt8
  packet : List UInt8
  flags : Ipv6Flags
  events : List Ipv6Event
deriving DecidableEq

inductive RxStatus where
  | ok
  | csumFailed
  | endpointClosed
  | endpointUnreach
deriving DecidableEq

/-- What is on a node: its upper-layer protocols, routes, and `Ipv6ExtensionFragment::Process`. -/
structure Ipv6Node where
  getProtocol : UInt8 → Bool
  receive : UInt8 → List UInt8 → RxStatus
  routeOutput : List UInt8 → Ipv6Header → Bool
  processFragment : List UInt8 → UInt8 → Ipv6Header → UInt8 → Ipv6Flags → Processed

def readU8 (packet : List UInt8) (pos : Nat) : Except Ipv6Fault UInt8 :=
  match packet[pos]? with
  | some byte => .ok byte
  | none => .error .readPastEnd

def readBytes (packet : List UInt8) (pos count : Nat) : Except Ipv6Fault (List UInt8) :=
  if pos + count ≤ packet.length then .ok ((packet.drop pos).take count)
  else .error .readPastEnd

/-! ## Options -/

/-- The options of `RegisterOptions`. -/
inductive Ipv6Option where
  | pad1
  | padn
  | jumbogram
  | routerAlert
deriving DecidableEq

namespace Ipv6Option

/-- `OPT_NUMBER` -/
def getOptionNumber : Ipv6Option → UInt8
  | pad1 => 0
  | padn => 60
  | jumbogram => 44
  | routerAlert => 43

/-- `Ipv6OptionDemux::GetOption` -/
def getOption (optionType : UInt8) : Option Ipv6Option :=
  [pad1, padn, jumbogram, routerAlert].find? fun option => option.getOptionNumber == optionType

/-- How many bytes `Deserialize` reads. -/
def deserializedSize : Ipv6Option → Nat
  | pad1 => 1
  | padn => 2
  | jumbogram => 4
  | routerAlert => 4

/-- `GetSerializedSize` of an option that was deserialized; the packet is not changed. -/
def process (option : Ipv6Option) (packet : List UInt8) (offset : UInt8) :
    Except Ipv6Fault UInt8 := do
  let bytes ← readBytes packet offset.toNat option.deserializedSize
  match option with
  | pad1 => return 1
  | _ => return (← readU8 bytes 1) + 2

end Ipv6Option

def unknownOption (data : List UInt8) (processedSize : UInt8) (header : Ipv6Header)
    (ptr : Nat) (optionType : UInt8) (flags : Ipv6Flags) :
    Except Ipv6Fault (UInt8 × Ipv6Flags × List Ipv6Event) :=
  let dropped : Ipv6Flags := ⟨true, true, some .unknownOption⟩
  let error : Ipv6Event := .sendErrorParameterError header.sourceAddress .unknownOption ptr
  if optionType >>> 6 = 0 then do
    return ((← readU8 data (processedSize.toNat + 1)) + 2, flags, [])
  else if optionType >>> 6 = 1 then .ok (0, dropped, [])
  else if optionType >>> 6 = 2 then .ok (0, dropped, [error])
  else .ok (0, dropped, if header.destinationAddress.isMulticast then [] else [error])

def processOption (packet : List UInt8) (offset : UInt8) (header : Ipv6Header)
    (processedSize : UInt8) (flags : Ipv6Flags) :
    Except Ipv6Fault (UInt8 × Ipv6Flags × List Ipv6Event) := do
  let data := packet.drop offset.toNat
  let optionType ← readU8 data processedSize.toNat
  match Ipv6Option.getOption optionType with
  | some option =>
    let optionLength ← option.process packet (offset + processedSize)
    return (optionLength, { flags with isDropped := false }, [])
  | none =>
    unknownOption data processedSize header (offset.toNat + processedSize.toNat) optionType flags

/-- The loop of `ProcessOptions`, for as many passes as there is fuel. -/
def processOptions (packet : List UInt8) (offset length : UInt8) (header : Ipv6Header) :
    Nat → UInt8 → Ipv6Flags → Except Ipv6Fault (UInt8 × Ipv6Flags × List Ipv6Event)
  | 0, _, _ => .error .goesOn
  | fuel + 1, processedSize, flags =>
    if length > processedSize ∧ !flags.isDropped then do
      let (optionLength, flags, sent) ← processOption packet offset header processedSize flags
      let (processedSize, flags, later) ←
        processOptions packet offset length header fuel (processedSize + optionLength) flags
      return (processedSize, flags, sent ++ later)
    else .ok (processedSize, flags, [])

/-! ## Extension headers -/

/-- `GetLength` of a header with its length byte. -/
def getLength (lengthByte : UInt8) : Nat := (lengthByte.toNat + 1) * 8

/-- `GetOptionsOffset` -/
def getOptionsOffset : Nat := 2

def processOptionsHeader (fuel : Nat) (packet : List UInt8) (offset : UInt8) (header : Ipv6Header)
    (flags : Ipv6Flags) : Except Ipv6Fault Processed := do
  let p := packet.drop offset.toNat
  let nextHeader ← readU8 p 0
  let lengthByte ← readU8 p 1
  let _ ← readBytes p getOptionsOffset (getLength lengthByte - 2)
  let length := UInt8.ofNat (getLength lengthByte - getOptionsOffset)
  let (optionsSize, flags, events) ← processOptions packet
    (offset + UInt8.ofNat getOptionsOffset) length header fuel 0 flags
  return ⟨UInt8.ofNat getOptionsOffset + optionsSize, nextHeader, packet, flags, events⟩

/-- `Ipv6ExtensionHopByHop::Process` -/
def processHopByHop := processOptionsHeader

/-- `Ipv6ExtensionDestination::Process` -/
def processDestination := processOptionsHeader

/-- What `Ipv6ExtensionLooseRouting::Process` reads of its header. -/
structure LooseRoutingHeader where
  nextHeader : UInt8
  length : UInt8
  typeRouting : UInt8
  segmentsLeft : UInt8
  routersAddress : List Ipv6Address
deriving DecidableEq

namespace LooseRoutingHeader

def getSerializedSize (routing : LooseRoutingHeader) : Nat := 8 + routing.routersAddress.length * 16

def readAddresses (p : List UInt8) (pos : Nat) :
    Nat → Except Ipv6Fault (List Ipv6Address)
  | 0 => .ok []
  | count + 1 => do
    let address ← readBytes p pos 16
    let later ← readAddresses p (pos + 16) count
    return address :: later

def deserialize (p : List UInt8) : Except Ipv6Fault LooseRoutingHeader := do
  let nextHeader ← readU8 p 0
  let length ← readU8 p 1
  let typeRouting ← readU8 p 2
  let segmentsLeft ← readU8 p 3
  let _ ← readBytes p 4 4
  let routersAddress ← readAddresses p 8 (length / 2).toNat
  return ⟨nextHeader, length, typeRouting, segmentsLeft, routersAddress⟩

def serialize (routing : LooseRoutingHeader) : List UInt8 :=
  [routing.nextHeader, UInt8.ofNat (routing.routersAddress.length * 2), routing.typeRouting,
    routing.segmentsLeft, 0, 0, 0, 0] ++ routing.routersAddress.flatten

end LooseRoutingHeader

/-- `Ipv6ExtensionLooseRouting::Process`, called without a place for the next header. -/
def processLooseRouting (node : Ipv6Node) (packet : List UInt8) (offset : UInt8)
    (header : Ipv6Header) (nextHeader : UInt8) (flags : Ipv6Flags) :
    Except Ipv6Fault Processed := do
  let p := packet.drop offset.toNat
  let routing ← LooseRoutingHeader.deserialize p
  let rest := p.drop routing.getSerializedSize
  let step := UInt8.ofNat routing.getSerializedSize
  let nbAddress := routing.length / 2
  let malformed : Ipv6Flags := ⟨true, true, some .malformedHeader⟩
  let error (ptr : Nat) : Ipv6Event :=
    .sendErrorParameterError header.sourceAddress .malformedHeader ptr
  if routing.segmentsLeft = 0 then
    return ⟨step, nextHeader, packet, { flags with isDropped := false }, []⟩
  else if routing.length % 2 ≠ 0 then
    return ⟨step, nextHeader, packet, malformed, [error (offset.toNat + 1)]⟩
  else if routing.segmentsLeft > nbAddress then
    return ⟨step, nextHeader, packet, malformed, [error (offset.toNat + 3)]⟩
  else
    let nextAddressIndex := (nbAddress - routing.segmentsLeft).toNat
    match routing.routersAddress[nextAddressIndex]? with
    | none => throw .readPastEnd
    | some nextAddress =>
      if nextAddress.isMulticast || header.destinationAddress.isMulticast then
        return ⟨step, nextHeader, packet, malformed, []⟩
      else if header.hopLimit ≤ 1 then
        return ⟨step, nextHeader, packet, malformed,
          [.sendErrorTimeExceeded header.sourceAddress .hopLimit]⟩
      else
        let forwarded := { header with
          destinationAddress := nextAddress
          hopLimit := header.hopLimit - 1 }
        let routed := { routing with
          segmentsLeft := routing.segmentsLeft - 1
          routersAddress := routing.routersAddress.set nextAddressIndex header.destinationAddress }
        let sent := routed.serialize ++ rest
        return ⟨step, nextHeader, packet, { flags with isDropped := true },
          if node.routeOutput sent forwarded then [.sendRealOut sent forwarded] else []⟩

/-- `TYPE_ROUTING` of the one routing extension that is registered. -/
def TYPE_ROUTING : UInt8 := 0

/-- `Ipv6ExtensionRouting::Process`, which reads the start of the packet. -/
def processRouting (node : Ipv6Node) (packet : List UInt8) (offset : UInt8) (header : Ipv6Header)
    (flags : Ipv6Flags) : Except Ipv6Fault Processed := do
  let routingNextHeader ← readU8 packet 0
  let routingLength ← readU8 packet 1
  let routingTypeRouting ← readU8 packet 2
  let routingSegmentsLeft ← readU8 packet 3
  if routingTypeRouting = TYPE_ROUTING then
    processLooseRouting node packet offset header routingNextHeader flags
  else if routingSegmentsLeft = 0 then
    return ⟨routingLength, routingNextHeader, packet, { flags with isDropped := false }, []⟩
  else
    return ⟨routingLength, routingNextHeader, packet, ⟨true, true, some .malformedHeader⟩,
      [.sendErrorParameterError header.sourceAddress .malformedHeader (offset.toNat + 1)]⟩

/-- `Ipv6ExtensionDemux::GetExtension` and then `Process`, if an extension is registered. -/
def processExtension (node : Ipv6Node) (fuel : Nat) (packet : List UInt8) (offset : UInt8)
    (header : Ipv6Header) (nextHeader : UInt8) (flags : Ipv6Flags) :
    Option (Except Ipv6Fault Processed) :=
  if nextHeader = IPV6_EXT_HOP_BY_HOP then some (processHopByHop fuel packet offset header flags)
  else if nextHeader = IPV6_EXT_DESTINATION then
    some (processDestination fuel packet offset header flags)
  else if nextHeader = IPV6_EXT_FRAGMENTATION then
    some (.ok (node.processFragment packet offset header nextHeader flags))
  else if nextHeader = IPV6_EXT_ROUTING then
    some (processRouting node packet offset header flags)
  else none

/-! ## Local delivery -/

/-- What follows a `Receive`. -/
def unreachable (header : Ipv6Header) : RxStatus → List Ipv6Event
  | .endpointUnreach =>
    if header.destinationAddress.isMulticast then []
    else [.sendErrorDestinationUnreachable header.sourceAddress .portUnreachable]
  | _ => []

def deliverUp (node : Ipv6Node) (packet : List UInt8) (header : Ipv6Header) (pos : UInt8)
    (nextHeader : UInt8) : List Ipv6Event :=
  if node.getProtocol nextHeader then
    let payload := packet.drop pos.toNat
    .receive nextHeader pos payload :: unreachable header (node.receive nextHeader payload)
  else
    let ptr := getSerializedSize + pos.toNat
    [.sendErrorParameterError header.destinationAddress .unknownNextHeader ptr,
      .drop (some .unknownProtocol)]

/-- The loop of `LocalDeliver`, for as many headers as there is fuel. -/
def walk (node : Ipv6Node) (header : Ipv6Header) :
    Nat → List UInt8 → UInt8 → UInt8 → Ipv6Flags → Except Ipv6Fault (List Ipv6Event)
  | 0, _, _, _, _ => .error .goesOn
  | fuel + 1, packet, pos, nextHeader, flags =>
    match processExtension node fuel packet pos header nextHeader flags with
    | none => .ok (deliverUp node packet header pos nextHeader)
    | some result => do
      let processed ← result
      let dropped := if processed.flags.isDropped then
        [Ipv6Event.drop processed.flags.dropReason] else []
      let seen := .visit nextHeader pos :: processed.events ++ dropped
      if processed.flags.stopProcessing then return seen
      else if processed.step = 0 ∧ nextHeader ≠ IPV6_EXT_FRAGMENTATION then
        throw .zeroSizeHeader
      else
        let later ← walk node header fuel processed.packet (pos + processed.step)
          processed.nextHeader processed.flags
        return seen ++ later

/-- `Ipv6L3Protocol::LocalDeliver` -/
def localDeliver (node : Ipv6Node) (fuel : Nat) (packet : List UInt8) (header : Ipv6Header) :
    Except Ipv6Fault (List Ipv6Event) :=
  if header.nextHeader = IPV6_EXT_HOP_BY_HOP then do
    if (← readU8 packet 0) = IPV6_EXT_HOP_BY_HOP then return []
    else walk node header fuel packet 0 header.nextHeader {}
  else walk node header fuel packet 0 header.nextHeader {}

end HomaSird.Internet
