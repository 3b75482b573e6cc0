import HomaSird.Tcp.RxBuffer

/-! # The send buffer of a TCP socket

`TcpTxBuffer` keeps the application's bytes until they are acknowledged: items that
were sent, with their scoreboard flags, and items that were not. A failed assertion
stops a call, and an iterator is the list node it points to.
-/

namespace HomaSird.Tcp

/-- `TcpTxItem`; `node` is the node of the sent list that holds it. -/
structure TxItem where
  node : Nat
  startSeq : SequenceNumber32
  packet : List UInt8
  lost : Bool
  retrans : Bool
  sacked : Bool
  lastSent : Nat
deriving DecidableEq

/-- `Time::Max ()` -/
def timeMax : Nat := 2 ^ 63 - 1

namespace TxItem

def ofPacket (packet : List UInt8) : TxItem where
  node := 0
  startSeq := .of 0
  packet := packet
  lost := false
  retrans := false
  sacked := false
  lastSent := timeMax

/-- `m_packet->GetSize ()` -/
def size (item : TxItem) : Nat := item.packet.length

end TxItem

inductive ListIterator where
  | singular
  | atEnd
  | node (node : Nat)
deriving DecidableEq

structure TxBuffer where
  appList : List TxItem
  sentList : List TxItem
  maxBuffer : Nat
  size : Nat
  sentSize : Nat
  firstByteSeq : SequenceNumber32
  highestSack : ListIterator × SequenceNumber32
  lostOut : Nat
  sackedOut : Nat
  retrans : Nat
  dupAckThresh : Nat
  segmentSize : Nat
  renoSack : Bool
  sackEnabled : Bool
  /-- the node that the sent list allocates next -/
  nextNode : Nat
deriving DecidableEq

/-! ## Splitting and merging items -/

/-- `SplitItems`: a new item with the first `size` bytes, and what is left. -/
def splitItems (node : Nat) (item : TxItem) (size : Nat) : Except Fault (TxItem × TxItem) := do
  let packet ← createFragment item.packet 0 size
  return ({ item with node := node, packet := packet },
    { item with packet := item.packet.drop size, startSeq := item.startSeq + .of size })

/-- `MergeItems`: the count of retransmitted bytes, and the first item with both. -/
def mergeItems (retrans : Nat) (t1 t2 : TxItem) : Except Fault (Nat × TxItem) := do
  assert (t1.sacked == t2.sacked)
  assert (t1.lost == t2.lost)
  -- an item of which only a part was retransmitted does not count as such
  let count :=
    if t1.retrans == t2.retrans then retrans
    else uint32OfInt (retrans - (if t1.retrans then t1.size else t2.size))
  return (count,
    { t1 with
      retrans := if t1.retrans == t2.retrans then t1.retrans else false
      lastSent := if t1.lastSent < t2.lastSent then t2.lastSent else t1.lastSent
      packet := t1.packet ++ t2.packet })

/-- An item found in a list, what is before and after it, the retransmitted bytes and the next node
after the edits on the way. -/
structure Found where
  front : List TxItem
  item : TxItem
  back : List TxItem
  retrans : Nat
  nextNode : Nat

inductive Walk where
  | found (result : Found)
  | again (list : List TxItem) (retrans nextNode : Nat)

def Walk.behind (item : TxItem) : Walk → Walk
  | .found result => .found { result with front := item :: result.front }
  | .again list retrans nextNode => .again (item :: list) retrans nextNode

/-- The loop of `GetPacketFromList`, from an item at `begin` on. The item at `seq` is both the
current and the out item, so the branch that merges the current item with the previous one is never
taken. -/
def walkList (check : TxItem → Bool) (numBytes : Nat) (seq : SequenceNumber32)
    (retrans nextNode : Nat) : SequenceNumber32 → List TxItem → Except Fault Walk
  | _, [] => .error .abort
  | begin, current :: rest => do
    assert (check current)
    let next := begin + .of current.size
    if seq.lt next then
      if seq = begin then
        if (seq + .of numBytes).le next then
          if numBytes = current.size then
            return .found ⟨[], current, rest, retrans, nextNode⟩
          else if numBytes < current.size then do
            let parts ← splitItems nextNode current numBytes
            return .found ⟨[], parts.1, parts.2 :: rest, retrans, nextNode + 1⟩
          else .error .endless
        else
          match rest with
          | [] => return .found ⟨[], current, [], retrans, nextNode⟩
          | following :: others => do
            let merged ← mergeItems retrans current following
            return .again (merged.2 :: others) merged.1 nextNode
      else if seq.gt begin then do
        let parts ← splitItems nextNode current (uint32OfInt (seq.sub begin))
        return .again (parts.1 :: parts.2 :: rest) retrans (nextNode + 1)
      else .error .abort
    else do
      let walk ← walkList check numBytes seq retrans nextNode next rest
      return walk.behind current

/-- `GetPacketFromList` recurses after an edit: once to split the item that holds `seq`, and then
for each item merged into it. -/
def getPacketFromList (check : TxItem → Bool) (listStartFrom : SequenceNumber32)
    (numBytes : Nat) (seq : SequenceNumber32) :
    Nat → List TxItem → Nat → Nat → Except Fault Found
  | 0, _, _, _ => .error .endless
  | fuel + 1, list, retrans, nextNode => do
    match ← walkList check numBytes seq retrans nextNode listStartFrom list with
    | .found result => return result
    | .again list retrans nextNode =>
      getPacketFromList check listStartFrom numBytes seq fuel list retrans nextNode

namespace TxBuffer

def create (n : SequenceNumber32) (maxBuffer dupAckThresh segmentSize : Nat)
    (sackEnabled : Bool) : TxBuffer where
  appList := []
  sentList := []
  maxBuffer := maxBuffer
  size := 0
  sentSize := 0
  firstByteSeq := n
  highestSack := (.singular, .of 0)
  lostOut := 0
  sackedOut := 0
  retrans := 0
  dupAckThresh := dupAckThresh
  segmentSize := segmentSize
  renoSack := false
  sackEnabled := sackEnabled
  nextNode := 0

def tailSequence (buf : TxBuffer) : SequenceNumber32 := buf.firstByteSeq + .of buf.size

def available (buf : TxBuffer) : Nat := uint32OfInt (buf.maxBuffer - buf.size)

def sentEnd (buf : TxBuffer) : SequenceNumber32 := buf.firstByteSeq + .of buf.sentSize

def setHeadSequence (buf : TxBuffer) (seq : SequenceNumber32) : Except Fault TxBuffer := do
  assert buf.sentList.isEmpty
  return { buf with firstByteSeq := seq, highestSack := (.atEnd, .of 0) }

/-- `Add`: whether the packet fits, and the buffer. -/
def add (buf : TxBuffer) (p : List UInt8) : Bool × TxBuffer :=
  if p.length ≤ buf.available then
    if 0 < p.length then
      (true,
        { buf with
          appList := buf.appList ++ [.ofPacket p]
          size := uint32 (buf.size + p.length) })
    else (true, buf)
  else (false, buf)

def sizeFromSequence (buf : TxBuffer) (seq : SequenceNumber32) : Nat :=
  if buf.tailSequence.ge seq then uint32OfInt (buf.tailSequence.sub seq) else 0

/-! ## Handing out segments -/

/-- `GetNewSegment`: the item found in the app list moves to the end of the sent list. -/
def getNewSegment (buf : TxBuffer) (numBytes : Nat) : Except Fault (Found × TxBuffer) := do
  let startOfAppList := buf.sentEnd
  let found ← getPacketFromList (fun _ => true) startOfAppList numBytes startOfAppList
    (buf.appList.length + 2) buf.appList buf.retrans buf.nextNode
  let item := { found.item with node := found.nextNode, startSeq := startOfAppList }
  return (⟨buf.sentList, item, [], found.retrans, found.nextNode + 1⟩,
    { buf with
      appList := found.front ++ found.back
      sentSize := uint32 (buf.sentSize + item.size) })

/-- The loop of `GetTransmittedSegment`: at most the item at `seq` and the next one together, and
only when their flags allow it. -/
def mergeLimit (s : Nat) (seq : SequenceNumber32) : List TxItem → Nat
  | [] => s
  | item :: rest =>
    if item.startSeq = seq then
      match rest with
      | [] => min s item.size
      | next :: _ =>
        if !next.sacked && item.lost == next.lost then min s (uint32 (item.size + next.size))
        else min s item.size
    else mergeLimit s seq rest

def getTransmittedSegment (buf : TxBuffer) (numBytes : Nat) (seq : SequenceNumber32) :
    Except Fault (Found × TxBuffer) := do
  assert (seq.ge buf.firstByteSeq)
  assert (numBytes ≤ buf.sentSize)
  assert (1 ≤ buf.sentList.length)
  let s := mergeLimit numBytes seq buf.sentList
  let found ← getPacketFromList (fun item => item.startSeq.ge buf.firstByteSeq)
    buf.firstByteSeq s seq (buf.sentList.length + 2) buf.sentList buf.retrans
    buf.nextNode
  return (if found.item.retrans then found
    else { found with
      retrans := uint32 (found.retrans + found.item.size)
      item := { found.item with retrans := true } }, buf)

/-- The end of `CopyFromSequence`: the item takes its place in the sent list, with its time. -/
def handOut (now : Nat) (found : Found) (buf : TxBuffer) :
    Except Fault (Option TxItem × TxBuffer) := do
  let item := { found.item with lastSent := now }
  assert (item.startSeq.ge buf.firstByteSeq)
  return (some item,
    { buf with
      sentList := found.front ++ item :: found.back
      retrans := found.retrans
      nextNode := found.nextNode })

/-- The recursion of `CopyFromSequence`, with a smaller `numBytes` when only a part was sent
before. -/
def copyLoop (now : Nat) : Nat → TxBuffer → Nat → SequenceNumber32 →
    Except Fault (Option TxItem × TxBuffer)
  | 0, _, _, _ => .error .endless
  | fuel + 1, buf, numBytes, seq =>
    if buf.firstByteSeq.gt seq then .error .abort
    else
      let s := min numBytes (buf.sizeFromSequence seq)
      if s = 0 then .ok (none, buf)
      else if buf.sentEnd.ge (seq + .of s) then do
        let result ← buf.getTransmittedSegment s seq
        assert (!result.1.item.sacked)
        handOut now result.1 result.2
      else if buf.sentEnd.le seq then
        if buf.sentEnd ≠ seq then .error .abort
        else do
          let result ← buf.getNewSegment s
          assert (result.1.item.retrans == false)
          handOut now result.1 result.2
      else
        -- a part is a retransmission; the bounds are compared as plain numbers
        let sentEnd := uint32 (buf.firstByteSeq.value.toNat + buf.sentSize)
        if seq.value.toNat < sentEnd ∧ sentEnd < uint32 (seq.value.toNat + s) then
          copyLoop now fuel buf (sentEnd - seq.value.toNat) seq
        else .error .nullPointer

/-- `CopyFromSequence`: the item handed out (`none` for a null pointer), and the buffer. -/
def copyFromSequence (buf : TxBuffer) (now numBytes : Nat) (seq : SequenceNumber32) :
    Except Fault (Option TxItem × TxBuffer) :=
  copyLoop now (numBytes + 1) buf numBytes seq

/-! ## Cumulative acknowledgements -/

def removeFromCounts (buf : TxBuffer) (item : TxItem) (size : Nat) :
    Except Fault TxBuffer := do
  assert (!item.sacked || size ≤ buf.sackedOut)
  assert (!item.retrans || size ≤ buf.retrans)
  assert (!item.lost || size ≤ buf.lostOut)
  return { buf with
    sackedOut := if item.sacked then buf.sackedOut - size else buf.sackedOut
    retrans := if item.retrans then buf.retrans - size else buf.retrans
    lostOut := if item.lost then buf.lostOut - size else buf.lostOut }

/-- `m_size`, `m_sentSize` and `m_firstByteSeq` move over acknowledged bytes. -/
def acknowledge (buf : TxBuffer) (bytes : Nat) : TxBuffer :=
  { buf with
    size := uint32OfInt (buf.size - bytes)
    sentSize := uint32OfInt (buf.sentSize - bytes)
    firstByteSeq := buf.firstByteSeq + .of bytes }

/-- The loop of `DiscardUpTo`; every round but the last removes an item, so at most `offset`
rounds. -/
def discardLoop (now : Nat) : Nat → Nat → TxBuffer → Except Fault TxBuffer
  | 0, _, buf => .ok buf
  | rounds + 1, offset, buf =>
    if 0 < buf.size ∧ 0 < offset then do
      let buf ←
        (if buf.sentList.isEmpty then do
          let result ← buf.copyFromSequence now offset buf.firstByteSeq
          if result.1.isNone then .error .nullPointer else .ok result.2
        else .ok buf)
      match buf.sentList with
      | [] => .error .assertion
      | item :: rest => do
        assert (item.startSeq == buf.firstByteSeq)
        if item.size ≤ offset then do
          let buf ← (buf.acknowledge item.size).removeFromCounts item item.size
          discardLoop now rounds (offset - item.size) { buf with sentList := rest }
        else do
          let packet ← createFragment item.packet offset (item.size - offset)
          let left := { item with packet := packet, startSeq := item.startSeq + .of offset }
          let buf ← (buf.acknowledge offset).removeFromCounts left offset
          return { buf with sentList := left :: rest }
    else .ok buf

def sackFirst : List TxItem → Option (TxItem × List TxItem)
  | [] => none
  | item :: rest =>
    if item.sacked then (sackFirst rest).map fun found => (found.1, item :: found.2)
    else some (item, { item with sacked := true } :: rest)

def addRenoSack (buf : TxBuffer) : Except Fault TxBuffer := do
  assert (if buf.sackEnabled then 1 < buf.sentList.length else 0 < buf.sentList.length)
  let buf := { buf with renoSack := true }
  -- the head is never SACKed
  match buf.sentList with
  | [] => .error .nullPointer
  | head :: rest =>
    match sackFirst rest with
    | none => return buf
    | some (item, rest) =>
      return { buf with
        sentList := head :: rest
        sackedOut := uint32 (buf.sackedOut + item.size)
        highestSack := (.node item.node, item.startSeq) }

def markHeadAsLost (buf : TxBuffer) : TxBuffer :=
  match buf.sentList with
  | [] => buf
  | head :: rest =>
    { buf with
      sentList := { head with sacked := false, retrans := false, lost := true } :: rest
      sackedOut :=
        if head.sacked then uint32OfInt (buf.sackedOut - head.size) else buf.sackedOut
      retrans := if head.retrans then uint32OfInt (buf.retrans - head.size) else buf.retrans
      lostOut := if head.lost then buf.lostOut else uint32 (buf.lostOut + head.size) }

/-- The end of `DiscardUpTo`: a head that is SACKed was guessed wrong. -/
def repairHead (buf : TxBuffer) (seq : SequenceNumber32) : Except Fault TxBuffer :=
  match buf.sentList with
  | [] => .ok buf
  | head :: rest => do
    let buf ←
      (if head.sacked then do
        assert (!head.lost)
        let buf ← addRenoSack
          { buf with
            sentList := { head with sacked := false } :: rest
            sackedOut := uint32OfInt (buf.sackedOut - head.size) }
        return buf.markHeadAsLost
      else .ok buf)
    assert (head.startSeq == seq)
    return buf

def discardUpTo (buf : TxBuffer) (now : Nat) (seq : SequenceNumber32) :
    Except Fault TxBuffer :=
  if buf.firstByteSeq.ge seq then .ok buf
  else do
    let offset := uint32OfInt (seq.sub buf.firstByteSeq)
    let buf ← discardLoop now offset offset buf
    let buf := if buf.size = 0 then { buf with firstByteSeq := seq } else buf
    let buf ← buf.repairHead seq
    let buf :=
      if buf.highestSack.2.le buf.firstByteSeq then
        { buf with highestSack := (.atEnd, .of 0) }
      else buf
    assert (buf.firstByteSeq.ge seq)
    assert (uint32 (buf.sackedOut + buf.lostOut) ≤ buf.sentSize)
    return buf

end TxBuffer

end HomaSird.Tcp
