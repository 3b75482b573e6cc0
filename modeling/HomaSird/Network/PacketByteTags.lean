import HomaSird.Network.ByteTagList

/-! # The byte tags of packets

Of the bytes of a packet only their number is kept here. Beside each packet a reference
gives every byte its own tags.
-/

namespace HomaSird.Network

open HomaSird.Transition

structure TaggedPacket where
  size : Nat := 0
  byteTagList : ByteTagList := {}

namespace TaggedPacket

def addByteTagRange (heap : ByteTagHeap) (packet : TaggedPacket) (tag : ByteTag)
    (start stop : Nat) : Except ByteTagFault (ByteTagHeap × TaggedPacket) := do
  if stop < start then throw .assertion
  else
    let (heap, list) ← packet.byteTagList.addTag heap tag (int32 start) (int32 stop)
    return (heap, { packet with byteTagList := list })

/-- `AddByteTag` on the whole packet. -/
def addByteTag (heap : ByteTagHeap) (packet : TaggedPacket) (tag : ByteTag) :
    Except ByteTagFault (ByteTagHeap × TaggedPacket) := do
  let (heap, list) ← packet.byteTagList.addTag heap tag 0 (int32 packet.size)
  return (heap, { packet with byteTagList := list })

def addHeader (heap : ByteTagHeap) (packet : TaggedPacket) (size : Nat) :
    Except ByteTagFault (ByteTagHeap × TaggedPacket) := do
  let list ← packet.byteTagList.adjust (int32 size)
  let (heap, list) ← list.addAtStart heap (int32 size)
  return (heap, ⟨packet.size + size, list⟩)

def removeAtStart (packet : TaggedPacket) (size : Nat) : Except ByteTagFault TaggedPacket := do
  let list ← packet.byteTagList.adjust (int32 (-size))
  return ⟨packet.size - size, list⟩

def removeHeader (packet : TaggedPacket) (deserialized : Nat) :
    Except ByteTagFault TaggedPacket := packet.removeAtStart deserialized

def addPaddingAtEnd (heap : ByteTagHeap) (packet : TaggedPacket) (size : Nat) :
    Except ByteTagFault (ByteTagHeap × TaggedPacket) := do
  let (heap, list) ← packet.byteTagList.addAtEnd heap (int32 packet.size)
  return (heap, ⟨packet.size + size, list⟩)

def addTrailer (heap : ByteTagHeap) (packet : TaggedPacket) (size : Nat) :
    Except ByteTagFault (ByteTagHeap × TaggedPacket) := packet.addPaddingAtEnd heap size

def removeAtEnd (packet : TaggedPacket) (size : Nat) : TaggedPacket :=
  { packet with size := packet.size - size }

def removeTrailer (packet : TaggedPacket) (deserialized : Nat) : TaggedPacket :=
  packet.removeAtEnd deserialized

def createFragment (heap : ByteTagHeap) (packet : TaggedPacket) (start length : Nat) :
    Except ByteTagFault (ByteTagHeap × TaggedPacket) := do
  let (heap, byteTagList) := packet.byteTagList.copy heap
  let byteTagList ← byteTagList.adjust (int32 (-start))
  if start + length ≤ packet.size then
    let (heap, list) := byteTagList.copy heap
    return (heap.deallocate byteTagList.data, ⟨length, list⟩)
  else throw .assertion

/-- What is appended of another packet's tags: its list, cut at its first byte, moved to the end of
the packet, added and destroyed. -/
def appendTags (heap : ByteTagHeap) (packet : TaggedPacket) (o : ByteTagList) :
    Except ByteTagFault (ByteTagHeap × ByteTagList) := do
  let (heap, copy) := o.copy heap
  let (heap, copy) ← copy.addAtStart heap 0
  let copy ← copy.adjust (int32 packet.size)
  let (heap, list) ← packet.byteTagList.addList heap copy
  return (heap.deallocate copy.data, list)

/-- What `GetByteTagIterator` gives. -/
def byteTags (heap : ByteTagHeap) (packet : TaggedPacket) :
    Except ByteTagFault (List ByteTagList.Item) :=
  let iterator := packet.byteTagList.begin 0 (int32 packet.size)
  iterator.itemsLoop heap iterator.fuel

end TaggedPacket

/-! ## Packets and their references -/

abbrev PacketId := Nat

structure PacketStore where
  heap : ByteTagHeap := {}
  packets : UnorderedMap PacketId TaggedPacket := ∅

structure TaggedBytes where
  size : Nat := 0
  tags : Nat → List ByteTag := fun _ => []

abbrev TaggedReference := UnorderedMap PacketId TaggedBytes

inductive PacketCall where
  | create (packet : PacketId) (size : Nat)
  | copy (packet o : PacketId)
  | destroy (packet : PacketId)
  | addByteTag (packet : PacketId) (tag : ByteTag)
  | addByteTagRange (packet : PacketId) (tag : ByteTag) (start stop : Nat)
  | addHeader (packet : PacketId) (size : Nat)
  | removeHeader (packet : PacketId) (deserialized : Nat)
  | addTrailer (packet : PacketId) (size : Nat)
  | removeTrailer (packet : PacketId) (deserialized : Nat)
  | addPaddingAtEnd (packet : PacketId) (size : Nat)
  | addAtEnd (packet o : PacketId)
  | removeAtStart (packet : PacketId) (size : Nat)
  | removeAtEnd (packet : PacketId) (size : Nat)
  | createFragment (fragment packet : PacketId) (start length : Nat)

namespace PacketStore

def find (store : PacketStore) (packet : PacketId) : Except ByteTagFault TaggedPacket :=
  match store.packets.lookup packet with
  | some found => .ok found
  | none => .error .danglingPointer

def put (store : PacketStore) (packet : PacketId) (result : ByteTagHeap × TaggedPacket) :
    PacketStore :=
  ⟨result.1, store.packets.insert packet result.2⟩

def addAtEnd (store : PacketStore) (packet o : PacketId) : Except ByteTagFault PacketStore := do
  let found ← store.find packet
  let (heap, list) ← found.byteTagList.addAtEnd store.heap (int32 found.size)
  let store := store.put packet (heap, { found with byteTagList := list })
  -- the other packet may be the packet itself
  let other ← store.find o
  let (heap, list) ← TaggedPacket.appendTags store.heap ⟨found.size, list⟩ other.byteTagList
  return store.put packet (heap, ⟨found.size + other.size, list⟩)

end PacketStore

namespace PacketCall

def perform (store : PacketStore) : PacketCall → Except ByteTagFault PacketStore
  | create packet size => .ok (store.put packet (store.heap, ⟨size, {}⟩))
  | copy packet o => do
    let found ← store.find o
    let (heap, list) := found.byteTagList.copy store.heap
    return store.put packet (heap, ⟨found.size, list⟩)
  | destroy packet => do
    let found ← store.find packet
    return ⟨store.heap.deallocate found.byteTagList.data, store.packets.erase packet⟩
  | addByteTag packet tag => do
    let found ← store.find packet
    return store.put packet (← found.addByteTag store.heap tag)
  | addByteTagRange packet tag start stop => do
    let found ← store.find packet
    return store.put packet (← found.addByteTagRange store.heap tag start stop)
  | addHeader packet size => do
    let found ← store.find packet
    return store.put packet (← found.addHeader store.heap size)
  | removeHeader packet deserialized => do
    let found ← store.find packet
    return store.put packet (store.heap, ← found.removeHeader deserialized)
  | addTrailer packet size => do
    let found ← store.find packet
    return store.put packet (← found.addTrailer store.heap size)
  | removeTrailer packet deserialized => do
    let found ← store.find packet
    return store.put packet (store.heap, found.removeTrailer deserialized)
  | addPaddingAtEnd packet size => do
    let found ← store.find packet
    return store.put packet (← found.addPaddingAtEnd store.heap size)
  | addAtEnd packet o => store.addAtEnd packet o
  | removeAtStart packet size => do
    let found ← store.find packet
    return store.put packet (store.heap, ← found.removeAtStart size)
  | removeAtEnd packet size => do
    let found ← store.find packet
    return store.put packet (store.heap, found.removeAtEnd size)
  | createFragment fragment packet start length => do
    let found ← store.find packet
    return store.put fragment (← found.createFragment store.heap start length)

end PacketCall

/-! ## What every byte owns -/

namespace TaggedBytes

def addByteTag (bytes : TaggedBytes) (tag : ByteTag) (start stop : Nat) : TaggedBytes :=
  { bytes with tags := fun byte =>
      if start ≤ byte ∧ byte < stop then bytes.tags byte ++ [tag] else bytes.tags byte }

def addAtStart (bytes : TaggedBytes) (size : Nat) : TaggedBytes :=
  ⟨bytes.size + size, fun byte => if byte < size then [] else bytes.tags (byte - size)⟩

def append (bytes o : TaggedBytes) : TaggedBytes :=
  ⟨bytes.size + o.size,
    fun byte => if byte < bytes.size then bytes.tags byte else o.tags (byte - bytes.size)⟩

def removeAtStart (bytes : TaggedBytes) (size : Nat) : TaggedBytes :=
  ⟨bytes.size - size, fun byte => bytes.tags (byte + size)⟩

def removeAtEnd (bytes : TaggedBytes) (size : Nat) : TaggedBytes :=
  { bytes with size := bytes.size - size }

end TaggedBytes

namespace PacketCall

def bytesOf (reference : TaggedReference) (packet : PacketId) : TaggedBytes :=
  reference.getD packet {}

def expect (reference : TaggedReference) : PacketCall → TaggedReference
  | create packet size => reference.insert packet ⟨size, fun _ => []⟩
  | copy packet o => reference.insert packet (bytesOf reference o)
  | destroy packet => reference.erase packet
  | addByteTag packet tag =>
    reference.insert packet
      ((bytesOf reference packet).addByteTag tag 0 (bytesOf reference packet).size)
  | addByteTagRange packet tag start stop =>
    reference.insert packet ((bytesOf reference packet).addByteTag tag start stop)
  | addHeader packet size => reference.insert packet ((bytesOf reference packet).addAtStart size)
  | addTrailer packet size | addPaddingAtEnd packet size =>
    reference.insert packet ((bytesOf reference packet).append ⟨size, fun _ => []⟩)
  | addAtEnd packet o =>
    reference.insert packet ((bytesOf reference packet).append (bytesOf reference o))
  | removeHeader packet size | removeAtStart packet size =>
    reference.insert packet ((bytesOf reference packet).removeAtStart size)
  | removeTrailer packet size | removeAtEnd packet size =>
    reference.insert packet ((bytesOf reference packet).removeAtEnd size)
  | createFragment fragment packet start length =>
    reference.insert fragment
      { (bytesOf reference packet).removeAtStart start with size := length }

/-- Packets have fewer than `2 ^ 31` bytes, what is taken off as a header or trailer is there, and
so are the bytes of a fragment. -/
def Offered (reference : TaggedReference) : PacketCall → Prop
  | create packet size => packet ∉ reference ∧ size < 2 ^ 31
  | copy packet o => packet ∉ reference ∧ o ∈ reference
  | destroy packet | addByteTag packet _ => packet ∈ reference
  | addByteTagRange packet _ start stop => packet ∈ reference ∧ start ≤ stop
  | addHeader packet size | addTrailer packet size | addPaddingAtEnd packet size =>
    packet ∈ reference ∧ (bytesOf reference packet).size + size < 2 ^ 31
  | addAtEnd packet o => packet ∈ reference ∧ o ∈ reference ∧
      (bytesOf reference packet).size + (bytesOf reference o).size < 2 ^ 31
  | removeHeader packet size | removeTrailer packet size =>
    packet ∈ reference ∧ size ≤ (bytesOf reference packet).size
  | removeAtStart packet size | removeAtEnd packet size => packet ∈ reference ∧ size < 2 ^ 31
  | createFragment fragment packet start length => fragment ∉ reference ∧ packet ∈ reference ∧
      start + length ≤ (bytesOf reference packet).size

instance (reference : TaggedReference) : DecidablePred (Offered reference)
  | create _ _ | copy _ _ | addByteTagRange _ _ _ _ | addHeader _ _ | addTrailer _ _ |
    addPaddingAtEnd _ _ | removeHeader _ _ | removeTrailer _ _ | removeAtStart _ _ |
    removeAtEnd _ _ => inferInstanceAs (Decidable (_ ∧ _))
  | destroy _ | addByteTag _ _ => inferInstanceAs (Decidable (_ ∈ _))
  | addAtEnd _ _ | createFragment _ _ _ _ => inferInstanceAs (Decidable (_ ∧ _ ∧ _))

end PacketCall

structure TaggedPackets where
  store : PacketStore := {}
  reference : TaggedReference := ∅

namespace TaggedPackets

def step (world : TaggedPackets) (call : PacketCall) : Except ByteTagFault TaggedPackets := do
  let store ← call.perform world.store
  return ⟨store, call.expect world.reference⟩

def machine : Machine TaggedPackets PacketCall ByteTagFault := ⟨{}, step⟩

end TaggedPackets

end HomaSird.Network
