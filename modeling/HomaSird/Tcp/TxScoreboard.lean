import HomaSird.Tcp.TxBuffer

/-! # The scoreboard of the send buffer

What selective acknowledgements, timeouts and resets do to the flags of the sent
items, and the two counts of the bytes in flight.
-/

namespace HomaSird.Tcp

namespace TxBuffer

/-! ## Selective acknowledgements -/

/-- What the loop of `Update` adjusts while it walks the sent list. -/
structure Sacking where
  lostOut : Nat
  sackedOut : Nat
  bytesSacked : Nat
  highestSack : ListIterator × SequenceNumber32

/-- One block, from an item at `begin` on: the items it covers whole are SACKed, and the walk stops
behind its end. -/
def sackBlock (block : SackBlock) : SequenceNumber32 → List TxItem → Sacking →
    Except Fault (List TxItem × Sacking)
  | _, [], sacking => .ok ([], sacking)
  | begin, item :: rest, sacking =>
    let next := begin + .of item.size
    if begin.ge block.first && next.le block.second then
      if item.sacked then do
        assert (!item.lost)
        let walked ← sackBlock block next rest sacking
        return (item :: walked.1, walked.2)
      else do
        let walked ← sackBlock block next rest
          { lostOut :=
              if item.lost then uint32OfInt (sacking.lostOut - item.size) else sacking.lostOut
            sackedOut := uint32 (sacking.sackedOut + item.size)
            bytesSacked := uint32 (sacking.bytesSacked + item.size)
            highestSack :=
              if sacking.highestSack.1 = .atEnd || sacking.highestSack.2.le next then
                (.node item.node, begin)
              else sacking.highestSack }
        return ({ item with lost := false, sacked := true } :: walked.1, walked.2)
    else if next.gt block.second then .ok (item :: rest, sacking)
    else do
      let walked ← sackBlock block next rest sacking
      return (item :: walked.1, walked.2)

/-- The loop of `UpdateLostCount` backwards up to the highest SACKed item: the SACKed items, the
items walked, and the bytes lost. -/
def markLost (dupAckThresh : Nat) (item : TxItem) (walked : Nat × List TxItem × Nat) :
    Nat × List TxItem × Nat :=
  let sacked := walked.1 + if item.sacked then 1 else 0
  if dupAckThresh ≤ sacked ∧ item.sacked = false ∧ item.lost = false then
    (sacked, { item with lost := true } :: walked.2.1, uint32 (walked.2.2 + item.size))
  else (sacked, item :: walked.2.1, walked.2.2)

def splitAtNode (node : Nat) : List TxItem → Option (List TxItem × List TxItem)
  | [] => none
  | item :: rest =>
    if item.node = node then some ([item], rest)
    else (splitAtNode node rest).map fun parts => (item :: parts.1, parts.2)

def updateLostCount (buf : TxBuffer) : Except Fault TxBuffer :=
  match buf.highestSack.1, buf.sentList with
  | .node node, head :: rest =>
    match splitAtNode node (head :: rest) with
    | none => .error .nullPointer
    | some (upTo, behind) =>
      let walked := upTo.tail.foldr (markLost buf.dupAckThresh) (0, [], buf.lostOut)
      let headLost := buf.dupAckThresh ≤ walked.1
      .ok { buf with
        sentList :=
          { head with lost := if headLost then true else head.lost } :: walked.2.1 ++ behind
        lostOut :=
          if headLost ∧ head.lost = false then uint32 (walked.2.2 + head.size)
          else walked.2.2 }
  | _, _ => .error .nullPointer

/-- The loop of `Update`: whether it ran to the end, and what it leaves. It returns at a block that
starts behind what was sent. -/
def sackBlocks : List SackBlock → Nat → TxBuffer → Except Fault (Bool × Nat × TxBuffer)
  | [], bytesSacked, buf => .ok (true, bytesSacked, buf)
  | block :: rest, bytesSacked, buf =>
    if buf.sentEnd.lt block.first then .ok (false, bytesSacked, buf)
    else do
      let walked ← sackBlock block buf.firstByteSeq buf.sentList
        ⟨buf.lostOut, buf.sackedOut, bytesSacked, buf.highestSack⟩
      sackBlocks rest walked.2.bytesSacked
        { buf with
          sentList := walked.1
          lostOut := walked.2.lostOut
          sackedOut := walked.2.sackedOut
          highestSack := walked.2.highestSack }

/-- `Update`: the bytes newly SACKed, and the buffer. -/
def update (buf : TxBuffer) (list : List SackBlock) : Except Fault (Nat × TxBuffer) := do
  let (ranToEnd, bytesSacked, buf) ← sackBlocks list 0 buf
  if ranToEnd = false then return (bytesSacked, buf)
  else
    let buf ←
      (if 0 < bytesSacked then do
        assert (buf.highestSack.1 ≠ .atEnd)
        buf.updateLostCount
      else .ok buf)
    match buf.sentList with
    | [] => .error .nullPointer
    | head :: _ =>
      assert (!head.sacked)
      assert (uint32 (buf.sackedOut + buf.lostOut) ≤ buf.sentSize)
      return (bytesSacked, buf)

/-! ## Resets -/

def resetRenoSack (buf : TxBuffer) : TxBuffer :=
  { buf with
    sackedOut := 0
    sentList := buf.sentList.map fun item => { item with sacked := false }
    highestSack := (.atEnd, .of 0) }

/-- `ResetSentList`: everything that was sent goes back to the front of the app list. -/
def resetSentList (buf : TxBuffer) : TxBuffer :=
  { buf with
    appList :=
      (buf.sentList.map fun item =>
        { item with retrans := false, sacked := false, lost := false }) ++ buf.appList
    sentList := []
    sentSize := 0
    lostOut := 0
    retrans := 0
    sackedOut := 0
    highestSack := (.atEnd, .of 0) }

/-- `ResetLastSegmentSent`: the last item goes back as it is. -/
def resetLastSegmentSent (buf : TxBuffer) : TxBuffer :=
  match buf.sentList.getLast? with
  | none => buf
  | some item =>
    { buf with
      sentList := buf.sentList.dropLast
      sentSize := uint32OfInt (buf.sentSize - item.size)
      retrans := if item.retrans then uint32OfInt (buf.retrans - item.size) else buf.retrans
      appList := item :: buf.appList }

/-- The loop of `SetSentListLost` without `resetSack`: the items, and the bytes lost. -/
def loseUnsacked : List TxItem → Nat → List TxItem × Nat
  | [], lostOut => ([], lostOut)
  | item :: rest, lostOut =>
    if item.lost then
      let left := loseUnsacked rest (uint32 (lostOut + item.size))
      ({ item with retrans := false } :: left.1, left.2)
    else if item.sacked = false then
      let left := loseUnsacked rest (uint32 (lostOut + item.size))
      ({ item with lost := true, retrans := false } :: left.1, left.2)
    else
      let left := loseUnsacked rest lostOut
      ({ item with retrans := false } :: left.1, left.2)

def setSentListLost (buf : TxBuffer) (resetSack : Bool) : Except Fault TxBuffer := do
  let buf :=
    if resetSack then
      { buf with
        retrans := 0
        sackedOut := 0
        lostOut := buf.sentSize
        highestSack := (.atEnd, .of 0)
        sentList := buf.sentList.map fun item =>
          { item with sacked := false, lost := true, retrans := false } }
    else
      let left := loseUnsacked buf.sentList 0
      { buf with retrans := 0, sentList := left.1, lostOut := left.2 }
  assert (uint32 (buf.sackedOut + buf.lostOut) ≤ buf.sentSize)
  return buf

def deleteRetransmittedFlagFromHead (buf : TxBuffer) : Except Fault TxBuffer :=
  if buf.sentSize = 0 then .ok buf
  else
    match buf.sentList with
    | [] => .error .nullPointer
    | head :: rest =>
      if head.retrans then
        .ok { buf with
          sentList := { head with retrans := false } :: rest
          retrans := uint32OfInt (buf.retrans - head.size) }
      else .ok buf

/-! ## Bytes in flight -/

def bytesInFlight (buf : TxBuffer) : Except Fault Nat := do
  assert (uint32 (buf.sackedOut + buf.lostOut) ≤ buf.sentSize)
  let leftOut := uint32 (buf.sackedOut + buf.lostOut)
  return uint32 (buf.sentSize - leftOut + buf.retrans)

/-- The loop of `IsLostRFC`, with the SACKed items and bytes counted so far. -/
def isLostLoop (buf : TxBuffer) :
    SequenceNumber32 → Nat → Nat → List TxItem → Bool
  | _, _, _, [] => false
  | begin, count, bytes, item :: rest =>
    let count := if item.sacked then count + 1 else count
    let bytes := if item.sacked then uint32 (bytes + item.size) else bytes
    let limit := uint32OfInt (((buf.dupAckThresh : Int) - 1) * buf.segmentSize)
    if item.sacked && (decide (buf.dupAckThresh ≤ count) || decide (limit < bytes)) then true
    else if begin.ge buf.highestSack.2 then item.lost && !item.retrans
    else isLostLoop buf (begin + .of item.size) count bytes rest

/-- `IsLostRFC`, of the first item of a part of the sent list that starts at `seq`. -/
def isLostRFC (buf : TxBuffer) (seq : SequenceNumber32) (segment : List TxItem) : Bool :=
  match segment with
  | [] => false
  | item :: _ => !item.sacked && buf.isLostLoop seq 0 0 segment

/-- What `BytesInFlightRFC` counts. -/
structure Pipe where
  size : Nat
  sackedOut : Nat
  lostOut : Nat
  retrans : Nat
  totalSize : Nat

/-- The loop of `BytesInFlightRFC`, from an item that starts at `begin` on. -/
def pipeLoop (buf : TxBuffer) : SequenceNumber32 → List TxItem → Pipe → Pipe
  | _, [], pipe => pipe
  | begin, item :: rest, pipe =>
    let isLost := buf.isLostRFC begin (item :: rest)
    pipeLoop buf (begin + .of item.size) rest
      { size :=
          if !item.sacked && (!isLost || item.retrans) then uint32 (pipe.size + item.size)
          else pipe.size
        sackedOut := if item.sacked then uint32 (pipe.sackedOut + item.size) else pipe.sackedOut
        lostOut :=
          if !item.sacked && isLost then uint32 (pipe.lostOut + item.size) else pipe.lostOut
        retrans := if item.retrans then uint32 (pipe.retrans + item.size) else pipe.retrans
        totalSize := uint32 (pipe.totalSize + item.size) }

def bytesInFlightRFC (buf : TxBuffer) : Except Fault Nat := do
  let pipe := buf.pipeLoop buf.firstByteSeq buf.sentList ⟨0, 0, 0, 0, 0⟩
  assert (pipe.lostOut == buf.lostOut)
  assert (pipe.retrans == buf.retrans)
  assert (pipe.sackedOut == buf.sackedOut)
  assert (pipe.totalSize == buf.sentSize)
  return pipe.size

end TxBuffer

end HomaSird.Tcp
