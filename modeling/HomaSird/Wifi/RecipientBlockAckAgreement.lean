import HomaSird.Data.Word

/-! # The recipient of a block ack agreement

Sequence numbers go round a circle of 4096. A scoreboard notes what has been received, and
a buffer keeps what cannot be passed up yet, ordered from the start of its window. An
assertion that fails has no result.
-/

namespace HomaSird.Wifi

/-- `SEQNO_SPACE_SIZE` -/
def seqnoSpaceSize : Nat := 4096

/-- `SEQNO_SPACE_HALF_SIZE` -/
def seqnoSpaceHalfSize : Nat := seqnoSpaceSize / 2

inductive BlockAckFault where
  | assertion
deriving DecidableEq

structure Mpdu (Payload : Type) where
  sequenceNumber : Nat
  packet : Payload
deriving DecidableEq

def getDistance (seqNumber startingSeqNumber : Nat) : Except BlockAckFault Nat :=
  if seqNumber < seqnoSpaceSize ∧ startingSeqNumber < seqnoSpaceSize then
    .ok ((seqNumber + seqnoSpaceSize - startingSeqNumber) % seqnoSpaceSize)
  else .error .assertion

structure BlockAckWindow where
  winStart : Nat
  window : List Bool
  head : Nat
deriving DecidableEq

namespace BlockAckWindow

def init (winStart winSize : Nat) : BlockAckWindow := ⟨winStart, List.replicate winSize false, 0⟩

def winSize (scoreboard : BlockAckWindow) : Nat := scoreboard.window.length

def reset (scoreboard : BlockAckWindow) (winStart : Nat) : BlockAckWindow :=
  init winStart scoreboard.winSize

/-- `At (distance) = true` -/
def setAt (scoreboard : BlockAckWindow) (distance : Nat) : Except BlockAckFault BlockAckWindow :=
  if distance < scoreboard.winSize then
    .ok { scoreboard with
      window := scoreboard.window.set ((scoreboard.head + distance) % scoreboard.winSize) true }
  else .error .assertion

/-- The loop of `Advance`. -/
def clear (winSize : Nat) : Nat → List Bool × Nat → List Bool × Nat
  | 0, state => state
  | count + 1, (window, head) => clear winSize count (window.set head false, (head + 1) % winSize)

def advance (scoreboard : BlockAckWindow) (count : Nat) : BlockAckWindow :=
  let winStart := (scoreboard.winStart + count) % seqnoSpaceSize
  if count ≥ scoreboard.winSize then scoreboard.reset winStart
  else
    let (window, head) := clear scoreboard.winSize count (scoreboard.window, scoreboard.head)
    ⟨winStart, window, head⟩

/-- What `NotifyReceivedMpdu` does to the scoreboard. -/
def notifyReceivedMpdu (scoreboard : BlockAckWindow) (seqNumber : Nat) :
    Except BlockAckFault BlockAckWindow := do
  let distance ← getDistance seqNumber scoreboard.winStart
  if distance < scoreboard.winSize then scoreboard.setAt distance
  else if distance < seqnoSpaceHalfSize then
    (scoreboard.advance (distance - scoreboard.winSize + 1)).setAt (scoreboard.winSize - 1)
  else return scoreboard

/-- What `NotifyReceivedBar` does to the scoreboard. -/
def notifyReceivedBar (scoreboard : BlockAckWindow) (startingSequenceNumber : Nat) :
    Except BlockAckFault BlockAckWindow := do
  let distance ← getDistance startingSequenceNumber scoreboard.winStart
  if distance > 0 ∧ distance < scoreboard.winSize then
    let advanced := scoreboard.advance distance
    if advanced.winStart = startingSequenceNumber then return advanced else throw .assertion
  else if distance > 0 ∧ distance < seqnoSpaceHalfSize then
    return scoreboard.reset startingSequenceNumber
  else return scoreboard

end BlockAckWindow

/-- `bufferedMpdus` are in the order of `Compare`. -/
structure RecipientBlockAckAgreement (Payload : Type) where
  scoreboard : BlockAckWindow
  winStartB : Nat
  winSizeB : Nat
  bufferedMpdus : List (Mpdu Payload)
deriving DecidableEq

namespace RecipientBlockAckAgreement

variable {Payload : Type}

def create (bufferSize startingSeq : Nat) : RecipientBlockAckAgreement Payload :=
  ⟨.init startingSeq bufferSize, startingSeq, bufferSize, []⟩

/-- What `Compare` compares of a key. -/
def compareKey (winStartB seqNumber : Nat) : Int :=
  ((seqNumber : Int) - winStartB + seqnoSpaceSize).tmod seqnoSpaceSize

/-- `std::map::insert`: an MPDU with an equivalent key stays. -/
def insertMpdu (winStartB : Nat) (mpdu : Mpdu Payload) : List (Mpdu Payload) → List (Mpdu Payload)
  | [] => [mpdu]
  | first :: rest =>
    if compareKey winStartB mpdu.sequenceNumber < compareKey winStartB first.sequenceNumber then
      mpdu :: first :: rest
    else if compareKey winStartB first.sequenceNumber <
        compareKey winStartB mpdu.sequenceNumber then
      first :: insertMpdu winStartB mpdu rest
    else first :: rest

def assertNoneOld (agreement : RecipientBlockAckAgreement Payload) : Except BlockAckFault Unit :=
  match agreement.bufferedMpdus.getLast? with
  | none => .ok ()
  | some last => do
    let distance ← getDistance last.sequenceNumber agreement.winStartB
    if distance < seqnoSpaceHalfSize then return () else throw .assertion

/-- The loop of `PassBufferedMpdusUntilFirstLost`: the window's start, what is forwarded and what
stays. -/
def untilFirstLost : Nat → List (Mpdu Payload) → Nat × List (Mpdu Payload) × List (Mpdu Payload)
  | winStartB, [] => (winStartB, [], [])
  | winStartB, first :: rest =>
    if first.sequenceNumber = winStartB then
      let (winStartB, forwarded, kept) := untilFirstLost ((winStartB + 1) % seqnoSpaceSize) rest
      (winStartB, first :: forwarded, kept)
    else (winStartB, [], first :: rest)

def passBufferedMpdusUntilFirstLost (agreement : RecipientBlockAckAgreement Payload) :
    Except BlockAckFault (RecipientBlockAckAgreement Payload × List (Mpdu Payload)) := do
  agreement.assertNoneOld
  let (winStartB, forwarded, kept) := untilFirstLost agreement.winStartB agreement.bufferedMpdus
  return ({ agreement with winStartB, bufferedMpdus := kept }, forwarded)

/-- The loop of `PassBufferedMpdusWithSeqNumberLessThan`. -/
def seqNumberLessThan (newWinStartB winStartB : Nat) :
    List (Mpdu Payload) → Except BlockAckFault (List (Mpdu Payload) × List (Mpdu Payload))
  | [] => .ok ([], [])
  | first :: rest => do
    let distance ← getDistance first.sequenceNumber winStartB
    let limit ← getDistance newWinStartB winStartB
    if distance < limit then
      let (forwarded, kept) ← seqNumberLessThan newWinStartB winStartB rest
      return (first :: forwarded, kept)
    else return ([], first :: rest)

def passBufferedMpdusWithSeqNumberLessThan (agreement : RecipientBlockAckAgreement Payload)
    (newWinStartB : Nat) :
    Except BlockAckFault (RecipientBlockAckAgreement Payload × List (Mpdu Payload)) := do
  agreement.assertNoneOld
  let (forwarded, kept) ←
    seqNumberLessThan newWinStartB agreement.winStartB agreement.bufferedMpdus
  return ({ agreement with winStartB := newWinStartB, bufferedMpdus := kept }, forwarded)

def moveWindow (agreement : RecipientBlockAckAgreement Payload) (newWinStartB : Nat) :
    Except BlockAckFault (RecipientBlockAckAgreement Payload × List (Mpdu Payload)) := do
  let (agreement, before) ← agreement.passBufferedMpdusWithSeqNumberLessThan newWinStartB
  let (agreement, behind) ← agreement.passBufferedMpdusUntilFirstLost
  return (agreement, before ++ behind)

def notifyReceivedMpdu (agreement : RecipientBlockAckAgreement Payload) (mpdu : Mpdu Payload) :
    Except BlockAckFault (RecipientBlockAckAgreement Payload × List (Mpdu Payload)) := do
  let scoreboard ← agreement.scoreboard.notifyReceivedMpdu mpdu.sequenceNumber
  let distance ← getDistance mpdu.sequenceNumber agreement.winStartB
  let stored := { agreement with
    scoreboard
    bufferedMpdus := insertMpdu agreement.winStartB mpdu agreement.bufferedMpdus }
  if distance < agreement.winSizeB then stored.passBufferedMpdusUntilFirstLost
  else if distance < seqnoSpaceHalfSize then
    -- the difference is of type size_t and becomes a uint16_t
    stored.moveWindow (uint16 (uint64OfInt (mpdu.sequenceNumber - agreement.winSizeB + 1)))
  else return ({ agreement with scoreboard }, [])

def notifyReceivedBar (agreement : RecipientBlockAckAgreement Payload)
    (startingSequenceNumber : Nat) :
    Except BlockAckFault (RecipientBlockAckAgreement Payload × List (Mpdu Payload)) := do
  let scoreboard ← agreement.scoreboard.notifyReceivedBar startingSequenceNumber
  let distance ← getDistance startingSequenceNumber agreement.winStartB
  let noted := { agreement with scoreboard }
  if distance > 0 ∧ distance < seqnoSpaceHalfSize then noted.moveWindow startingSequenceNumber
  else return (noted, [])

end RecipientBlockAckAgreement

end HomaSird.Wifi
