import HomaSird.Tcp.Segment
import HomaSird.Tcp.SequenceNumber

/-! # The receive buffer of a TCP socket

`TcpRxBuffer` stores the segments that arrive, in any order and overlapping, and
hands their bytes over in sequence. Every assertion of the code can stop a call.
-/

namespace HomaSird.Tcp

/-- `TcpOptionSack::SackBlock` -/
structure SackBlock where
  first : SequenceNumber32
  second : SequenceNumber32
deriving DecidableEq

/-- `std::map<SequenceNumber32, Ptr<Packet>>`, in the order of `operator<`. -/
abbrev BlockMap : Type := List (SequenceNumber32 × List UInt8)

namespace BlockMap

/-- `m_data[key] = packet` -/
def insert (key : SequenceNumber32) (packet : List UInt8) : BlockMap → BlockMap
  | [] => [(key, packet)]
  | block :: rest =>
    if key.lt block.1 then (key, packet) :: block :: rest
    else if block.1.lt key then block :: insert key packet rest
    else (block.1, packet) :: rest

/-- `find (key) != end ()` -/
def contains (data : BlockMap) (key : SequenceNumber32) : Bool :=
  data.any fun block => !key.lt block.1 && !block.1.lt key

end BlockMap

structure RxBuffer where
  sackList : List SackBlock
  nextRxSeq : SequenceNumber32
  finSeq : SequenceNumber32
  gotFin : Bool
  size : Nat
  maxBuffer : Nat
  availBytes : Nat
  data : BlockMap
deriving DecidableEq

namespace RxBuffer

def create (n : SequenceNumber32) : RxBuffer where
  sackList := []
  nextRxSeq := n
  finSeq := .of 0
  gotFin := false
  size := 0
  maxBuffer := 32768
  availBytes := 0
  data := []

def setMaxBufferSize (buf : RxBuffer) (s : Nat) : RxBuffer := { buf with maxBuffer := s }

def maxRxSequence (buf : RxBuffer) : SequenceNumber32 :=
  if buf.gotFin then buf.finSeq
  else
    match buf.data with
    | block :: _ =>
      if buf.nextRxSeq.gt block.1 then block.1 + .of buf.maxBuffer
      else buf.nextRxSeq + .of buf.maxBuffer
    | [] => buf.nextRxSeq + .of buf.maxBuffer

def setFinSequence (buf : RxBuffer) (s : SequenceNumber32) : RxBuffer :=
  { buf with
    gotFin := true
    finSeq := s
    nextRxSeq := if buf.nextRxSeq = s then buf.nextRxSeq.succ else buf.nextRxSeq }

def finished (buf : RxBuffer) : Bool := buf.gotFin && buf.finSeq.lt buf.nextRxSeq

/-! ## The SACK list -/

/-- The first block that touches `begin`, merged with it, and the other blocks. -/
def mergeTouching (begin : SackBlock) :
    List SackBlock → Except Fault (Option (SackBlock × List SackBlock))
  | [] => .ok none
  | current :: rest =>
    if begin.first = current.second then do
      assert (current.first.lt begin.second)
      return some (⟨current.first, begin.second⟩, rest)
    else if begin.second = current.first then do
      assert (begin.first.lt current.second)
      return some (⟨begin.first, current.second⟩, rest)
    else do
      let found ← mergeTouching begin rest
      return found.map fun merged => (merged.1, current :: merged.2)

/-- The loop of `UpdateSackList`: after a merge it starts over, at most once for every other block.
-/
def mergeAll : Nat → SackBlock → List SackBlock → Except Fault (List SackBlock)
  | 0, begin, others => .ok (begin :: others)
  | rounds + 1, begin, others => do
    match ← mergeTouching begin others with
    | none => return begin :: others
    | some (merged, rest) => mergeAll rounds merged rest

def updateSackList (buf : RxBuffer) (head tail : SequenceNumber32) : Except Fault RxBuffer := do
  assert (head.gt buf.nextRxSeq)
  let sackList ← mergeAll buf.sackList.length ⟨head, tail⟩ buf.sackList
  return { buf with sackList := if 4 < sackList.length then sackList.dropLast else sackList }

/-- `ClearSackList`, on the list. -/
def clearSackList (seq : SequenceNumber32) : List SackBlock → Except Fault (List SackBlock)
  | [] => .ok []
  | block :: rest => do
    assert (block.first.lt block.second)
    let cleared ← clearSackList seq rest
    return if block.second.le seq then cleared else block :: cleared

/-! ## Adding a segment -/

/-- A part of a segment from `head` to `tail`, to be placed among the stored blocks. -/
structure Placement where
  data : BlockMap
  size : Nat
  head : SequenceNumber32
  tail : SequenceNumber32

/-- The bounds of the segment after "Trim packet to fit Rx window specification". -/
def trim (buf : RxBuffer) (headSeq tailSeq : SequenceNumber32) :
    SequenceNumber32 × SequenceNumber32 :=
  let headSeq := if headSeq.lt buf.nextRxSeq then buf.nextRxSeq else headSeq
  match buf.data with
  | [] => (headSeq, tailSeq)
  | block :: _ =>
    let maxSeq := block.1 + .of buf.maxBuffer
    let tailSeq := if maxSeq.lt tailSeq then maxSeq else tailSeq
    (if tailSeq.lt headSeq then tailSeq else headSeq, tailSeq)

def removeOverlap (size : Nat) (headSeq tailSeq : SequenceNumber32) : BlockMap → Placement
  | [] => ⟨[], size, headSeq, tailSeq⟩
  | block :: rest =>
    if block.1.le tailSeq then
      let lastByteSeq := block.1 + .of block.2.length
      if lastByteSeq.gt headSeq then
        if block.1.gt headSeq && lastByteSeq.lt tailSeq then
          -- the stored block is embedded fully in the new packet
          removeOverlap (uint32OfInt (size - block.2.length)) headSeq tailSeq rest
        else
          let placed := removeOverlap size
            (if block.1.le headSeq then lastByteSeq else headSeq)
            (if lastByteSeq.ge tailSeq then block.1 else tailSeq) rest
          { placed with data := block :: placed.data }
      else
        let placed := removeOverlap size headSeq tailSeq rest
        { placed with data := block :: placed.data }
    else ⟨block :: rest, size, headSeq, tailSeq⟩

/-- The loop that moves `m_nextRxSeq` over the blocks that became contiguous. -/
def advance (buf : RxBuffer) : BlockMap → Except Fault RxBuffer
  | [] => .ok buf
  | block :: rest =>
    if block.1.lt buf.nextRxSeq then advance buf rest
    else if block.1.gt buf.nextRxSeq then .ok buf
    else do
      let next := block.1 + .of block.2.length
      let sackList ← clearSackList next buf.sackList
      advance
        { buf with
          nextRxSeq := next
          availBytes := uint32 (buf.availBytes + block.2.length)
          sackList := sackList }
        rest

/-- `Add`: whether something was stored, and the buffer. -/
def add (buf : RxBuffer) (p : List UInt8) (seq : SequenceNumber32) :
    Except Fault (Bool × RxBuffer) := do
  let trimmed := buf.trim seq (seq + .of p.length)
  let placed := removeOverlap buf.size trimmed.1 trimmed.2 buf.data
  if placed.head.ge placed.tail then
    return (false, { buf with data := placed.data, size := placed.size })
  else
    let start := uint32OfInt (placed.head.sub seq)
    let length := uint32OfInt (placed.tail.sub placed.head)
    let fragment ← createFragment p start length
    assert (length == fragment.length)
    assert (!placed.data.contains placed.head)
    let data := placed.data.insert placed.head fragment
    let buf := { buf with data := data, size := placed.size }
    let buf ←
      (if placed.head.gt buf.nextRxSeq then buf.updateSackList placed.head placed.tail
      else .ok buf)
    let buf := { buf with size := uint32 (buf.size + fragment.length) }
    let buf ← buf.advance buf.data
    return (true,
      { buf with
        nextRxSeq :=
          if buf.gotFin && buf.nextRxSeq == buf.finSeq then buf.nextRxSeq.succ
          else buf.nextRxSeq })

/-! ## Extracting bytes -/

/-- The loop of `Extract`, on the bytes still to extract; `i` is the first block. -/
def extractLoop (extractSize : Nat) (outPkt : List UInt8) (buf : RxBuffer) :
    BlockMap → Except Fault (List UInt8 × RxBuffer)
  | [] =>
    if extractSize = 0 then .ok (outPkt, { buf with data := [] }) else .error .nullPointer
  | i :: rest =>
    if extractSize = 0 then .ok (outPkt, { buf with data := i :: rest })
    else do
      assert (i.1.le buf.nextRxSeq)
      let pktSize := i.2.length
      if pktSize ≤ extractSize then
        extractLoop (extractSize - pktSize) (outPkt ++ i.2)
          { buf with
            size := uint32OfInt (buf.size - pktSize)
            availBytes := uint32OfInt (buf.availBytes - pktSize) }
          rest
      else do
        let taken ← createFragment i.2 0 extractSize
        let left ← createFragment i.2 extractSize (pktSize - extractSize)
        let data := BlockMap.insert (i.1 + .of extractSize) left (i :: rest)
        return (outPkt ++ taken,
          { buf with
            data := data.erase i
            size := uint32OfInt (buf.size - extractSize)
            availBytes := uint32OfInt (buf.availBytes - extractSize) })

/-- `Extract`: the bytes returned (a null packet has none), and the buffer. -/
def extract (buf : RxBuffer) (maxSize : Nat) : Except Fault (List UInt8 × RxBuffer) :=
  let extractSize := min maxSize buf.availBytes
  if extractSize = 0 then .ok ([], buf)
  else do
    assert !buf.data.isEmpty
    extractLoop extractSize [] buf buf.data

end RxBuffer

end HomaSird.Tcp
