import HomaSird.Data.Word
import HomaSird.Internet.Ipv6ExtensionChain

/-! # IPv6 fragmentation

`GetFragments` takes the unfragmentable extension headers off a packet, cuts what remains into
pieces, and puts the headers in front of each piece. It counts the headers in 8 bits each.
-/

namespace HomaSird.Internet

open Ipv6Header Transition

/-- `Ipv6ExtensionHopByHopHeader` and `Ipv6ExtensionDestinationHeader` -/
structure OptionsHeader where
  nextHeader : UInt8
  length : UInt8
  optionData : List UInt8
deriving DecidableEq

namespace OptionsHeader

/-- `CalculatePad`, to a multiple of eight bytes. -/
def calculatePad (header : OptionsHeader) : Nat :=
  uint32OfInt (0 - (header.optionData.length + getOptionsOffset)) % 8

def getSerializedSize (header : OptionsHeader) : Nat :=
  2 + (header.optionData.length + header.calculatePad)

def fill : Nat → List UInt8
  | 0 => []
  | 1 => [0]
  | pad + 2 => [1, UInt8.ofNat pad] ++ List.replicate pad 0

def serialize (header : OptionsHeader) : List UInt8 :=
  [header.nextHeader, UInt8.ofNat (header.getSerializedSize / 8 - 1)] ++ header.optionData ++
    fill header.calculatePad

def deserialize (p : List UInt8) : Except Ipv6Fault OptionsHeader := do
  let nextHeader ← readU8 p 0
  let length ← readU8 p 1
  let optionData ← readBytes p 2 (getLength length - 2)
  return ⟨nextHeader, length, optionData⟩

end OptionsHeader

inductive UnfragmentableHeader where
  | hopByHop (header : OptionsHeader)
  | routing (header : LooseRoutingHeader)
  | destination (header : OptionsHeader)
deriving DecidableEq

namespace UnfragmentableHeader

def getNextHeader : UnfragmentableHeader → UInt8
  | hopByHop header => header.nextHeader
  | routing header => header.nextHeader
  | destination header => header.nextHeader

def setNextHeader (nextHeader : UInt8) : UnfragmentableHeader → UnfragmentableHeader
  | hopByHop header => hopByHop { header with nextHeader := nextHeader }
  | routing header => routing { header with nextHeader := nextHeader }
  | destination header => destination { header with nextHeader := nextHeader }

/-- `GetLength`, from the length byte that was read. -/
def getLength : UnfragmentableHeader → Nat
  | hopByHop header => Internet.getLength header.length
  | routing header => Internet.getLength header.length
  | destination header => Internet.getLength header.length

def getSerializedSize : UnfragmentableHeader → Nat
  | hopByHop header => header.getSerializedSize
  | routing header => header.getSerializedSize
  | destination header => header.getSerializedSize

def serialize : UnfragmentableHeader → List UInt8
  | hopByHop header => header.serialize
  | routing header => header.serialize
  | destination header => header.serialize

def deserialize (nextHeader : UInt8) (p : List UInt8) : Except Ipv6Fault UnfragmentableHeader :=
  if nextHeader = IPV6_EXT_HOP_BY_HOP then do return hopByHop (← OptionsHeader.deserialize p)
  else if nextHeader = IPV6_EXT_ROUTING then do return routing (← LooseRoutingHeader.deserialize p)
  else do return destination (← OptionsHeader.deserialize p)

end UnfragmentableHeader

namespace Ipv6ExtensionFragment

def moreHeader (nextHeader : UInt8) (p : List UInt8) : Except Ipv6Fault Bool :=
  if nextHeader = IPV6_EXT_HOP_BY_HOP ∨ nextHeader = IPV6_EXT_ROUTING then .ok true
  else if nextHeader = IPV6_EXT_DESTINATION then do
    return (← readU8 p 0) == IPV6_EXT_ROUTING
  else .ok false

structure UnfragmentablePart where
  headers : List UnfragmentableHeader
  size : Nat
  nextHeader : UInt8
  p : List UInt8
deriving DecidableEq

def UnfragmentablePart.addHeader (header : UnfragmentableHeader) (part : UnfragmentablePart) :
    UnfragmentablePart where
  headers :=
    (if part.headers.isEmpty then header.setNextHeader IPV6_EXT_FRAGMENTATION else header) ::
      part.headers
  size := (UInt8.ofNat header.getLength).toNat + part.size
  nextHeader := part.nextHeader
  p := part.p

def unfragmentablePart : Nat → UInt8 → List UInt8 → Except Ipv6Fault UnfragmentablePart
  | 0, _, _ => .error .goesOn
  | fuel + 1, nextHeader, p => do
    match ← moreHeader nextHeader p with
    | false => return ⟨[], 0, nextHeader, p⟩
    | true =>
      let header ← UnfragmentableHeader.deserialize nextHeader p
      let part ← unfragmentablePart fuel header.getNextHeader (p.drop header.getSerializedSize)
      return part.addHeader header

end Ipv6ExtensionFragment

structure Ipv6ExtensionFragmentHeader where
  nextHeader : UInt8 := 0
  offset : UInt16 := 0
  identification : UInt32 := 0
deriving DecidableEq

namespace Ipv6ExtensionFragmentHeader

def getSerializedSize : Nat := 8

def setOffset (header : Ipv6ExtensionFragmentHeader) (offset : UInt16) :
    Ipv6ExtensionFragmentHeader :=
  { header with offset := (header.offset &&& 1) ||| (offset &&& ~~~7) }

def getOffset (header : Ipv6ExtensionFragmentHeader) : UInt16 := header.offset &&& ~~~1

def setMoreFragment (header : Ipv6ExtensionFragmentHeader) (moreFragment : Bool) :
    Ipv6ExtensionFragmentHeader :=
  { header with offset := if moreFragment then header.offset ||| 1 else header.offset &&& ~~~1 }

def getMoreFragment (header : Ipv6ExtensionFragmentHeader) : Bool := header.offset &&& 1 != 0

def serialize (header : Ipv6ExtensionFragmentHeader) : List UInt8 :=
  [header.nextHeader, 0, (header.offset >>> 8).toUInt8, header.offset.toUInt8,
    (header.identification >>> 24).toUInt8, (header.identification >>> 16).toUInt8,
    (header.identification >>> 8).toUInt8, header.identification.toUInt8]

def deserialize (p : List UInt8) : Except Ipv6Fault Ipv6ExtensionFragmentHeader := do
  let nextHeader ← readU8 p 0
  let _ ← readU8 p 1
  let high ← readU8 p 2
  let low ← readU8 p 3
  let first ← readU8 p 4
  let second ← readU8 p 5
  let third ← readU8 p 6
  let fourth ← readU8 p 7
  return ⟨nextHeader, (high.toUInt16 <<< 8) ||| low.toUInt16, (first.toUInt32 <<< 24) |||
    (second.toUInt32 <<< 16) ||| (third.toUInt32 <<< 8) ||| fourth.toUInt32⟩

end Ipv6ExtensionFragmentHeader

namespace Ipv6ExtensionFragment

/-- `Ipv6PayloadHeaderPair` -/
structure Ipv6Fragment where
  packet : List UInt8
  header : Ipv6Header
deriving DecidableEq

/-- `CreateFragment`, which must lie in the packet. -/
def createFragment (p : List UInt8) (start length : Nat) : Except Ipv6Fault (List UInt8) :=
  readBytes p start length

def addHeaders (part : UnfragmentablePart) (identification : UInt32) (offset : Nat)
    (moreFragment : Bool) (piece : List UInt8) : List UInt8 :=
  let fragmentHeader : Ipv6ExtensionFragmentHeader :=
    { nextHeader := part.nextHeader, identification := identification }
  -- `SetOffset` keeps the flag of the fragment before, which is then set anew
  let fragmentHeader :=
    (fragmentHeader.setOffset (UInt16.ofNat offset)).setMoreFragment moreFragment
  part.headers.foldl (fun fragment header => header.serialize ++ fragment)
    (fragmentHeader.serialize ++ piece)

/-- `currentFragmentablePartSize` where more fragments follow. -/
def alignedSize (maxFragmentablePartSize : Nat) : Nat :=
  maxFragmentablePartSize - maxFragmentablePartSize % 8

def fragmentLoop (part : UnfragmentablePart) (identification : UInt32) (ipv6Header : Ipv6Header)
    (maxFragmentablePartSize : Nat) : Nat → Nat → Except Ipv6Fault (List Ipv6Fragment)
  | 0, _ => .error .goesOn
  | fuel + 1, offset =>
    let fragment (moreFragment : Bool) (piece : List UInt8) : Ipv6Fragment :=
      let packet := addHeaders part identification offset moreFragment piece
      ⟨packet, { ipv6Header with payloadLength := UInt16.ofNat packet.length }⟩
    if part.p.length > uint32 (offset + maxFragmentablePartSize) then do
      let size := alignedSize maxFragmentablePartSize
      let piece ← createFragment part.p offset size
      let later ← fragmentLoop part identification ipv6Header maxFragmentablePartSize fuel
        (uint16 (offset + size))
      return fragment true piece :: later
    else do
      let piece ← createFragment part.p offset (uint32OfInt (part.p.length - offset))
      return [fragment false piece]

/-- `maxFragmentablePartSize` -/
def maxFragmentablePartSize (maxFragmentSize : Nat) (part : UnfragmentablePart) : Nat :=
  uint32OfInt (maxFragmentSize - Ipv6Header.getSerializedSize - part.size -
    Ipv6ExtensionFragmentHeader.getSerializedSize)

/-- `Ipv6ExtensionFragment::GetFragments`, with the identification that it draws. -/
def getFragments (fuel : Nat) (identification : UInt32) (packet : List UInt8)
    (ipv6Header : Ipv6Header) (maxFragmentSize : Nat) : Except Ipv6Fault (List Ipv6Fragment) := do
  let part ← unfragmentablePart fuel ipv6Header.nextHeader packet
  let ipv6Header := if part.headers.isEmpty then
    { ipv6Header with nextHeader := IPV6_EXT_FRAGMENTATION } else ipv6Header
  fragmentLoop part identification ipv6Header (maxFragmentablePartSize maxFragmentSize part) fuel 0

end Ipv6ExtensionFragment

end HomaSird.Internet
