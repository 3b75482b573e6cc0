import HomaSird.Data.NetworkOrder
import HomaSird.Homa.Header

/-! # The wire format of a Homa header

`Serialize` and `Deserialize` move an iterator over the same record of eleven
words, so a header is restored from its bytes and the bytes from their header.
-/

namespace HomaSird.Homa.HomaHeader

open BufferIterator

/-- The values of the fields are those of their C++ types. -/
structure InRange (header : HomaHeader) : Prop where
  srcPort : header.srcPort < 2 ^ 16
  dstPort : header.dstPort < 2 ^ 16
  txMsgId : header.txMsgId < 2 ^ 16
  flags : header.flags < 2 ^ 8
  prio : header.prio < 2 ^ 8
  feedbackFlags : header.feedbackFlags < 2 ^ 8
  msgSizeBytes : header.msgSizeBytes < 2 ^ 32
  pktOffset : header.pktOffset < 2 ^ 16
  grantOffset : header.grantOffset < 2 ^ 16
  payloadSize : header.payloadSize < 2 ^ 16
  generation : header.generation < 2 ^ 16

/-! ## The functions of the source -/

def writeU8 (value : Nat) (iter : BufferIterator) : Option BufferIterator := iter.write 1 value

def writeHtonU16 (value : Nat) (iter : BufferIterator) : Option BufferIterator := iter.write 2 value

def writeHtonU32 (value : Nat) (iter : BufferIterator) : Option BufferIterator := iter.write 4 value

def readU8 (iter : BufferIterator) : Option (Nat × BufferIterator) := iter.read 1

def readNtohU16 (iter : BufferIterator) : Option (Nat × BufferIterator) := iter.read 2

def readNtohU32 (iter : BufferIterator) : Option (Nat × BufferIterator) := iter.read 4

/-- `Serialize`, with the iterator where it stops. -/
def serialize (header : HomaHeader) (start : BufferIterator) : Option BufferIterator := do
  let i ← writeHtonU16 header.srcPort start
  let i ← writeHtonU16 header.dstPort i
  let i ← writeHtonU16 header.txMsgId i
  let i ← writeU8 header.flags i
  let i ← writeU8 header.prio i
  let i ← writeU8 header.feedbackFlags i
  let i ← writeHtonU32 header.msgSizeBytes i
  let i ← writeHtonU16 header.pktOffset i
  let i ← writeHtonU16 header.grantOffset i
  let i ← writeHtonU16 header.payloadSize i
  writeHtonU16 header.generation i

/-- `Deserialize`, with the iterator where it stops; it returns
`GetSerializedSize ()`. -/
def deserialize (start : BufferIterator) : Option (HomaHeader × BufferIterator × Nat) := do
  let (srcPort, i) ← readNtohU16 start
  let (dstPort, i) ← readNtohU16 i
  let (txMsgId, i) ← readNtohU16 i
  let (flags, i) ← readU8 i
  let (prio, i) ← readU8 i
  let (feedbackFlags, i) ← readU8 i
  let (msgSizeBytes, i) ← readNtohU32 i
  let (pktOffset, i) ← readNtohU16 i
  let (grantOffset, i) ← readNtohU16 i
  let (payloadSize, i) ← readNtohU16 i
  let (generation, i) ← readNtohU16 i
  some ({
    srcPort, dstPort, txMsgId, flags, prio, feedbackFlags, msgSizeBytes, pktOffset,
    grantOffset, payloadSize, generation }, i, serializedSize)

/-! ## The record behind them -/

def words (header : HomaHeader) : List Word :=
  [(2, header.srcPort), (2, header.dstPort), (2, header.txMsgId), (1, header.flags),
    (1, header.prio), (1, header.feedbackFlags), (4, header.msgSizeBytes),
    (2, header.pktOffset), (2, header.grantOffset), (2, header.payloadSize),
    (2, header.generation)]

def widths : List Nat := [2, 2, 2, 1, 1, 1, 4, 2, 2, 2, 2]

theorem fits_words_iff (header : HomaHeader) : FitWidths header.words ↔ header.InRange := by
  simp only [FitWidths, words, List.forall_mem_cons, List.not_mem_nil, false_implies, implies_true,
    and_true]
  constructor
  · rintro ⟨h1, h2, h3, h4, h5, h6, h7, h8, h9, h10, h11⟩
    exact ⟨h1, h2, h3, h4, h5, h6, h7, h8, h9, h10, h11⟩
  · rintro ⟨h1, h2, h3, h4, h5, h6, h7, h8, h9, h10, h11⟩
    exact ⟨h1, h2, h3, h4, h5, h6, h7, h8, h9, h10, h11⟩

theorem serialize_eq (header : HomaHeader) (start : BufferIterator) :
    header.serialize start = writeRecord header.words start := by
  simp [serialize, words, writeRecord, writeHtonU16, writeHtonU32, writeU8]

def ofValues : List Nat → Option HomaHeader
  | [srcPort, dstPort, txMsgId, flags, prio, feedbackFlags, msgSizeBytes, pktOffset,
      grantOffset, payloadSize, generation] =>
      some {
        srcPort, dstPort, txMsgId, flags, prio, feedbackFlags, msgSizeBytes, pktOffset,
        grantOffset, payloadSize, generation }
  | _ => none

/-- What `Deserialize` makes of the values it has read. -/
def ofRecord (values : List Nat) (iter : BufferIterator) :
    Option (HomaHeader × BufferIterator × Nat) :=
  (ofValues values).map fun header => (header, iter, serializedSize)

theorem deserialize_eq (start : BufferIterator) :
    deserialize start =
      (readRecord widths start).bind fun record => ofRecord record.1 record.2 := by
  have hwords : deserialize start = readThen widths ofRecord start := rfl
  rw [hwords, readThen_eq]

theorem exists_words {record : List Word} (hwidths : record.map Prod.fst = widths) :
    ∃ header : HomaHeader, header.words = record := by
  simp only [widths, List.map_eq_cons_iff, List.map_eq_nil_iff] at hwidths
  obtain ⟨⟨_, srcPort⟩, _, rfl, rfl, ⟨_, dstPort⟩, _, rfl, rfl, ⟨_, txMsgId⟩, _, rfl, rfl,
    ⟨_, flags⟩, _, rfl, rfl, ⟨_, prio⟩, _, rfl, rfl, ⟨_, feedbackFlags⟩, _, rfl, rfl,
    ⟨_, msgSizeBytes⟩, _, rfl, rfl, ⟨_, pktOffset⟩, _, rfl, rfl, ⟨_, grantOffset⟩, _, rfl, rfl,
    ⟨_, payloadSize⟩, _, rfl, rfl, ⟨_, generation⟩, _, rfl, rfl, rfl⟩ := hwidths
  exact ⟨{
    srcPort, dstPort, txMsgId, flags, prio, feedbackFlags, msgSizeBytes, pktOffset,
    grantOffset, payloadSize, generation }, rfl⟩

theorem serialize_append (header : HomaHeader) {room : List UInt8}
    (hroom : room.length = serializedSize) (passed ahead : List UInt8) :
    header.serialize ⟨passed, room ++ ahead⟩ =
      some ⟨passed ++ recordBytes header.words, ahead⟩ := by
  rw [serialize_eq]
  exact writeRecord_append header.words hroom passed ahead

/-- Anywhere in a buffer, a header whose fields have values of their types is restored from the
bytes it is serialized to, and one that is deserialized is serialized to the bytes read. Each way
the iterator passes `GetSerializedSize ()` bytes. -/
theorem wire_round_trip (passed ahead : List UInt8) :
    (∀ header : HomaHeader,
      header.InRange →
        ∀ room : List UInt8,
          room.length = serializedSize →
            ∃ bytes : List UInt8,
              bytes.length = serializedSize ∧
                header.serialize ⟨passed, room ++ ahead⟩ = some ⟨passed ++ bytes, ahead⟩ ∧
                deserialize ⟨passed, bytes ++ ahead⟩ =
                  some (header, ⟨passed ++ bytes, ahead⟩, serializedSize)) ∧
      ∀ bytes : List UInt8,
        bytes.length = serializedSize →
          ∃ header : HomaHeader,
            header.InRange ∧
              deserialize ⟨passed, bytes ++ ahead⟩ =
                some (header, ⟨passed ++ bytes, ahead⟩, serializedSize) ∧
              ∀ room : List UInt8,
                room.length = serializedSize →
                  header.serialize ⟨passed, room ++ ahead⟩ = some ⟨passed ++ bytes, ahead⟩ := by
  refine ⟨?_, ?_⟩
  · intro header hrng room hroom
    refine ⟨recordBytes header.words, length_recordBytes header.words,
      serialize_append header hroom passed ahead, ?_⟩
    have hread := readRecord_recordBytes ((fits_words_iff header).mpr hrng) passed ahead
    have hwidths : header.words.map Prod.fst = widths := rfl
    rw [hwidths] at hread
    rw [deserialize_eq, hread]
    rfl
  · intro bytes hbytes
    obtain ⟨record, hwidths, hfits, hrecord, hread⟩ := readRecord_append widths hbytes passed ahead
    obtain ⟨header, rfl⟩ := exists_words hwidths
    refine ⟨header, (fits_words_iff header).mp hfits, ?_, ?_⟩
    · rw [deserialize_eq, hread]
      rfl
    · intro room hroom
      rw [serialize_append header hroom, hrecord]

end HomaSird.Homa.HomaHeader
