import HomaSird.Data.NetworkOrder
import HomaSird.Data.SharedBlocks
import HomaSird.Transition.Machine

/-! # Byte tag lists

The tags of a packet stand one behind the other in a byte array that lists share. An
assertion that fails, an access to memory that is not there and an overflow of a signed
computation have no result.
-/

namespace HomaSird.Network

open HomaSird.Transition

structure ByteTag where
  tid : UInt16
  data : List UInt8
deriving DecidableEq

/-- A byte array of which the first `dirty` bytes are in use; its `size` is its length. -/
structure ByteTagListData where
  data : List UInt8
  dirty : Nat
deriving DecidableEq

/-- The arrays in use, and those kept to be used again, last one first. -/
structure ByteTagHeap where
  memory : BlockHeap ByteTagListData := {}
  freeList : List (List UInt8) := []
  maxSize : Nat := 0

structure ByteTagList where
  minStart : Int := 2 ^ 31 - 1
  maxEnd : Int := -2 ^ 31
  adjustment : Int := 0
  used : Nat := 0
  data : Option Nat := none
deriving DecidableEq

inductive ByteTagFault where
  | danglingPointer
  | assertion
  | signedOverflow
  | outOfFuel
deriving DecidableEq

def signed (value : Int) : Except ByteTagFault Int :=
  if InInt32 value then .ok value else .error .signedOverflow

structure TagBuffer where
  block : Nat
  current : Nat
  stop : Nat

namespace ByteTagHeap

def deref (heap : ByteTagHeap) (address : Nat) :
    Except ByteTagFault (Block ByteTagListData) :=
  match heap.memory.blocks.lookup address with
  | some block => .ok block
  | none => .error .danglingPointer

/-- The loop over the free list: arrays that are too small are deleted. -/
def takeFree (size : Nat) : List (List UInt8) → Option (List UInt8) × List (List UInt8)
  | [] => (none, [])
  | data :: rest => if data.length ≥ size then (some data, rest) else takeFree size rest

def allocate (heap : ByteTagHeap) (size : Nat) : Nat × ByteTagHeap :=
  let found := takeFree size heap.freeList
  -- a new array holds whatever was in memory
  let data := found.1.getD (List.replicate size 0)
  (heap.memory.fresh, { heap with memory := heap.memory.alloc ⟨data, 0⟩, freeList := found.2 })

def deallocate (heap : ByteTagHeap) : Option Nat → ByteTagHeap
  | none => heap
  | some address =>
    match heap.memory.contentOf address with
    | none => heap
    | some content =>
      let maxSize := max heap.maxSize content.data.length
      let memory := heap.memory.release address
      let freeList :=
        if memory.countOf address = 0 then
          if heap.freeList.length > 1000 ∨ content.data.length < maxSize then heap.freeList
          else content.data :: heap.freeList
        else heap.freeList
      ⟨memory, freeList, maxSize⟩

end ByteTagHeap

def overwriteAt (data : List UInt8) (pos : Nat) (bytes : List UInt8) : List UInt8 :=
  data.take pos ++ bytes ++ data.drop (pos + bytes.length)

def TagBuffer.write (heap : ByteTagHeap) (buf : TagBuffer) (bytes : List UInt8) :
    Except ByteTagFault (ByteTagHeap × TagBuffer) := do
  if buf.current + bytes.length ≤ buf.stop then
    let block ← heap.deref buf.block
    if buf.current + bytes.length ≤ block.content.data.length then
      let data := overwriteAt block.content.data buf.current bytes
      let memory := heap.memory.put buf.block ⟨data, block.content.dirty⟩
      return ({ heap with memory := memory },
        { buf with current := buf.current + bytes.length })
    else throw .danglingPointer
  else throw .assertion

namespace ByteTagList

def copy (heap : ByteTagHeap) (o : ByteTagList) : ByteTagHeap × ByteTagList :=
  match o.data with
  | none => (heap, o)
  | some address => ({ heap with memory := heap.memory.retain address }, o)

/-- The array that `Add` writes to. -/
def unshare (heap : ByteTagHeap) (list : ByteTagList) (spaceNeeded : Nat) :
    Except ByteTagFault (Nat × ByteTagHeap × ByteTagList) :=
  match list.data with
  | none =>
    let (address, heap) := heap.allocate spaceNeeded
    .ok (address, heap, { list with data := some address, used := 0 })
  | some address => do
    let block ← heap.deref address
    if block.content.data.length < spaceNeeded ∨
        block.count ≠ 1 ∧ block.content.dirty ≠ list.used then
      let (newData, heap) := heap.allocate spaceNeeded
      let (heap, _) ← TagBuffer.write heap ⟨newData, 0, spaceNeeded⟩
        (block.content.data.take list.used)
      return (newData, heap.deallocate (some address), { list with data := some newData })
    else return (address, heap, list)

def entryHeader (tid : UInt16) (bufferSize : Nat) (start stop : Int) : List UInt8 :=
  u32Bytes tid.toNat ++ u32Bytes bufferSize ++ u32Bytes (uint32OfInt start) ++
    u32Bytes (uint32OfInt stop)

/-- `Add`, with the buffer that the caller writes the tag to. -/
def add (heap : ByteTagHeap) (list : ByteTagList) (tid : UInt16) (bufferSize : Nat)
    (start stop : Int) : Except ByteTagFault (TagBuffer × ByteTagHeap × ByteTagList) := do
  let spaceNeeded := uint32 (list.used + bufferSize + 4 + 4 + 4 + 4)
  if list.used ≤ spaceNeeded then
    let (address, heap, list) ← unshare heap list spaceNeeded
    let start ← signed (start - list.adjustment)
    let stop ← signed (stop - list.adjustment)
    let (heap, tag) ← TagBuffer.write heap ⟨address, list.used, spaceNeeded⟩
      (entryHeader tid bufferSize start stop)
    let block ← heap.deref address
    let memory := heap.memory.put address ⟨block.content.data, spaceNeeded⟩
    return (tag, { heap with memory := memory },
      ⟨min start list.minStart, max stop list.maxEnd, list.adjustment, spaceNeeded, list.data⟩)
  else throw .assertion

/-- `Add` and the tag itself. -/
def addTag (heap : ByteTagHeap) (list : ByteTagList) (tag : ByteTag) (start stop : Int) :
    Except ByteTagFault (ByteTagHeap × ByteTagList) := do
  let (buf, heap, list) ← add heap list tag.tid tag.data.length start stop
  let (heap, _) ← buf.write heap tag.data
  return (heap, list)

/-! ## Iterators -/

structure Item where
  tag : ByteTag
  start : Int
  stop : Int
deriving DecidableEq

/-- `current` and `stop` are positions in the array. -/
structure Iterator where
  block : Option Nat
  current : Nat
  stop : Nat
  offsetStart : Int
  offsetEnd : Int
  adjustment : Int

def begin (list : ByteTagList) (offsetStart offsetEnd : Int) : Iterator :=
  match list.data with
  | none => ⟨none, 0, 0, offsetStart, offsetEnd, 0⟩
  | some address => ⟨some address, 0, list.used, offsetStart, offsetEnd, list.adjustment⟩

/-- `OFFSET_MAX` -/
def offsetMax : Int := 2 ^ 31 - 1

def beginAll (list : ByteTagList) : Iterator := list.begin 0 offsetMax

namespace Iterator

def view (heap : ByteTagHeap) (iterator : Iterator) : Except ByteTagFault (List UInt8) :=
  match iterator.block with
  | none => .error .danglingPointer
  | some address => do
    let block ← heap.deref address
    if iterator.stop ≤ block.content.data.length then
      return (block.content.data.take iterator.stop).drop iterator.current
    else throw .danglingPointer

def word (bytes : List UInt8) : Except ByteTagFault (Nat × List UInt8) :=
  match readU32 bytes with
  | some result => .ok result
  | none => .error .assertion

/-- The next item in range, if there is one: the loop of `PrepareForNext`, then `Next`. -/
def next (heap : ByteTagHeap) : Nat → Iterator → Except ByteTagFault (Option (Item × Iterator))
  | 0, _ => .error .outOfFuel
  | fuel + 1, iterator => do
    if iterator.current < iterator.stop then
      let bytes ← view heap iterator
      let (tid, bytes) ← word bytes
      let (size, bytes) ← word bytes
      let (start, bytes) ← word bytes
      let (stop, bytes) ← word bytes
      -- the sums are unsigned, their conversions signed
      let nextStart := int32 (start + iterator.adjustment)
      let nextEnd := int32 (stop + iterator.adjustment)
      let rest := { iterator with current := iterator.current + (4 + 4 + 4 + 4 + size) }
      if nextStart ≥ iterator.offsetEnd ∨ nextEnd ≤ iterator.offsetStart then
        next heap fuel rest
      else if size ≤ bytes.length then
        return some (⟨⟨UInt16.ofNat tid, bytes.take size⟩, max nextStart iterator.offsetStart,
          min nextEnd iterator.offsetEnd⟩, rest)
      else throw .assertion
    else return none

/-- As many turns as a loop over the items can take. -/
def fuel (iterator : Iterator) : Nat := iterator.stop + 1

def itemsLoop (heap : ByteTagHeap) : Nat → Iterator → Except ByteTagFault (List Item)
  | 0, _ => .error .outOfFuel
  | fuel + 1, iterator => do
    match ← iterator.next heap iterator.fuel with
    | none => return []
    | some (item, iterator) =>
      let items ← itemsLoop heap fuel iterator
      return item :: items

end Iterator

/-- The loop of `Add (o)`, `AddAtEnd` and `AddAtStart`: the items of an iterator are added to a
list. -/
def addLoop (keep : Item → Option Item) : Nat → ByteTagHeap → ByteTagList → Iterator →
    Except ByteTagFault (ByteTagHeap × ByteTagList)
  | 0, _, _, _ => .error .outOfFuel
  | fuel + 1, heap, list, iterator => do
    match ← iterator.next heap iterator.fuel with
    | none => return (heap, list)
    | some (item, iterator) =>
      match keep item with
      | none => addLoop keep fuel heap list iterator
      | some item =>
        let (heap, list) ← addTag heap list item.tag item.start item.stop
        addLoop keep fuel heap list iterator

/-- `Add (o)` -/
def addList (heap : ByteTagHeap) (list o : ByteTagList) :
    Except ByteTagFault (ByteTagHeap × ByteTagList) :=
  addLoop some o.beginAll.fuel heap list o.beginAll

def rebuild (keep : Item → Option Item) (heap : ByteTagHeap) (list : ByteTagList) :
    Except ByteTagFault (ByteTagHeap × ByteTagList) := do
  let (heap, kept) ← addLoop keep list.beginAll.fuel heap {} list.beginAll
  let heap := heap.deallocate list.data
  let (heap, list) := copy heap kept
  return (heap.deallocate kept.data, list)

def adjust (list : ByteTagList) (adjustment : Int) : Except ByteTagFault ByteTagList := do
  let adjustment ← signed (list.adjustment + adjustment)
  return { list with adjustment := adjustment }

def cutBehind (offset : Int) (item : Item) : Option Item :=
  if item.start ≥ offset then none else some { item with stop := min item.stop offset }

def cutBefore (offset : Int) (item : Item) : Option Item :=
  if item.stop ≤ offset then none else some { item with start := max item.start offset }

def addAtEnd (heap : ByteTagHeap) (list : ByteTagList) (appendOffset : Int) :
    Except ByteTagFault (ByteTagHeap × ByteTagList) := do
  let bound ← signed (appendOffset - list.adjustment)
  if list.maxEnd ≤ bound then return (heap, list)
  else rebuild (cutBehind appendOffset) heap list

def addAtStart (heap : ByteTagHeap) (list : ByteTagList) (prependOffset : Int) :
    Except ByteTagFault (ByteTagHeap × ByteTagList) := do
  let bound ← signed (prependOffset - list.adjustment)
  if list.minStart ≥ bound then return (heap, list)
  else rebuild (cutBefore prependOffset) heap list

end ByteTagList

end HomaSird.Network
