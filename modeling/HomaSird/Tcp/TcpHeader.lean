import HomaSird.Tcp.TcpOption

/-! # The TCP header and its size

Options are appended to a header and the header is written in front of a payload and read again.
A well-formed option area is a list of options of legal lengths, which an END and some padding
may close. `Deserialize` keeps the END and forgets the padding, and computes the size that it
returns from the options it has kept.
-/

namespace HomaSird.Tcp

open BufferIterator TcpOption

structure TcpFields where
  sourcePort : UInt16 := 0
  destinationPort : UInt16 := 0
  sequenceNumber : SequenceNumber32 := .of 0
  ackNumber : SequenceNumber32 := .of 0
  flags : UInt8 := 0
  windowSize : UInt16 := 0xffff
  urgentPointer : UInt16 := 0
deriving DecidableEq

structure Address where
  isIpv4 : Bool
  bytes : List UInt8
deriving DecidableEq

/-- The length is in words; `optionsLen` counts bytes. -/
structure TcpHeader extends TcpFields where
  length : Nat := 5
  calcChecksum : Bool := false
  goodChecksum : Bool := true
  source : Address := ⟨true, []⟩
  destination : Address := ⟨true, []⟩
  protocol : UInt8 := 0
  options : List TcpOption := []
  optionsLen : Nat := 0
deriving DecidableEq

def maxOptionsLen : Nat := 40

/-! ## Checksums -/

def sumWords : List UInt8 → Nat
  | [] => 0
  | [byte] => byte.toNat
  | low :: high :: later => low.toNat + 2 ^ 8 * high.toNat + sumWords later

def foldCarries (sum : Nat) : Nat :=
  if sum < 2 ^ 16 then sum else foldCarries (sum % 2 ^ 16 + sum / 2 ^ 16)

/-- `CalculateIpChecksum` of so many bytes -/
def calculateIpChecksum (bytes : List UInt8) (size initialChecksum : Nat) : Nat :=
  2 ^ 16 - 1 - foldCarries (uint32 (initialChecksum + sumWords (bytes.take (uint16 size))))

namespace TcpHeader

variable (header : TcpHeader)

def calculateHeaderChecksum (size : Nat) : Nat :=
  let sizeBytes := toBytes 2 size
  let buf := header.source.bytes ++ header.destination.bytes ++
    if header.source.isIpv4 then [0, header.protocol] ++ sizeBytes
    else [0, 0] ++ sizeBytes ++ [0, 0, 0, header.protocol]
  2 ^ 16 - 1 - calculateIpChecksum buf (if header.source.isIpv4 then 12 else 40) 0

/-! ## Writing -/

def calculateHeaderLength (options : List TcpOption) : Nat :=
  let len := uint32 (20 + (options.map getSerializedSize).sum)
  uint8 ((if len % 4 ≠ 0 then len + (4 - len % 4) else len) / 4)

def getSerializedSize : Nat := calculateHeaderLength header.options * 4

def appendOption (option : TcpOption) : TcpHeader × Bool :=
  if uint32 (header.optionsLen + option.getSerializedSize) ≤ maxOptionsLen then
    if isKindKnown option.getKind = false then (header, false)
    else if option.getKind ≠ END then
      let optionsLen := uint8 (header.optionsLen + option.getSerializedSize)
      ({ header with
        options := header.options ++ [option]
        optionsLen := optionsLen
        length := uint8 ((20 + 3 + optionsLen) / 4) }, true)
    else (header, true)
  else (header, false)

def fixedWords : List Word :=
  [(2, header.sourcePort.toNat), (2, header.destinationPort.toNat),
    (4, header.sequenceNumber.value.toNat), (4, header.ackNumber.value.toNat),
    (2, uint16 (header.length * 2 ^ 12 ||| header.flags.toNat)), (2, header.windowSize.toNat),
    (2, 0), (2, header.urgentPointer.toNat)]

def writeOptions : List TcpOption → BufferIterator → Option BufferIterator
  | [], i => some i
  | option :: later, i => do
    let written ← i.put option.serialize
    writeOptions later (← written.next option.getSerializedSize)

def padding (optionLen : Nat) : List UInt8 := List.replicate ((4 - optionLen % 4) % 4) END

def writeChecksum (i : BufferIterator) : BufferIterator :=
  let buffer := i.passed ++ i.ahead
  let checksum := calculateIpChecksum buffer buffer.length
    (header.calculateHeaderChecksum (uint16 buffer.length))
  ⟨i.passed.take 16 ++ [UInt8.ofNat checksum, UInt8.ofNat (checksum / 2 ^ 8)] ++ i.passed.drop 18,
    i.ahead⟩

/-- `Serialize`, with the bytes it has passed and those behind the padding. -/
def serialize (buffer : List UInt8) : Option BufferIterator := do
  let i ← writeRecord header.fixedWords ⟨[], buffer⟩
  let i ← writeOptions header.options i
  let fill := padding (header.options.map TcpOption.getSerializedSize).sum
  let i ← (← i.put fill).next fill.length
  return if header.calcChecksum then header.writeChecksum i else i

/-! ## Reading -/

/-- The loop over the bytes of options that are left, for as many passes as there is fuel. -/
def readOptions : Nat → Nat → BufferIterator → List TcpOption → Nat →
    Option (List TcpOption × Nat)
  | 0, _, _, _, _ => none
  | fuel + 1, optionLen, i, options, optionsLen =>
    if optionLen = 0 then some (options, optionsLen)
    else do
      let (op, optionSize) ← TcpOption.deserialize i
      if optionSize ≠ op.getSerializedSize ∨ optionLen < optionSize then
        return (options, optionsLen)
      else
        let i ← i.next optionSize
        if op.getKind = END then
          let _ ← i.next (optionLen - optionSize)
          return (options ++ [op], optionsLen + optionLen)
        else
          readOptions fuel (optionLen - optionSize) i (options ++ [op]) (optionsLen + optionSize)

/-- `Deserialize` into a header that keeps its addresses -/
def deserialize (fuel : Nat) (buffer : List UInt8) : Option (TcpHeader × Nat) := do
  let (values, i) ← readRecord [2, 2, 4, 4, 2, 2, 2, 2] ⟨[], buffer⟩
  let [sourcePort, destinationPort, sequenceNumber, ackNumber, field, windowSize, _,
    urgentPointer] := values | none
  let length : Nat := field / 2 ^ 12
  let header := { header with
    sourcePort := .ofNat sourcePort
    destinationPort := .ofNat destinationPort
    sequenceNumber := .of sequenceNumber
    ackNumber := .of ackNumber
    flags := .ofNat field
    windowSize := .ofNat windowSize
    urgentPointer := .ofNat urgentPointer
    length := length
    options := []
    optionsLen := 0 }
  let optionLen := uint32OfInt (((length : Int) - 5) * 4)
  if maxOptionsLen < optionLen then return (header, 20)
  else
    let (options, optionsLen) ← readOptions fuel optionLen i [] 0
    let checksum := calculateIpChecksum buffer buffer.length
      (header.calculateHeaderChecksum (uint16 buffer.length))
    let header := { header with
      options := options
      optionsLen := uint8 optionsLen
      goodChecksum := if header.calcChecksum then checksum = 0 else header.goodChecksum }
    return (header, header.getSerializedSize)

end TcpHeader

open List

namespace TcpHeader

/-! ## Option areas -/

def closingBytes : Option (List UInt8) → List UInt8
  | none => []
  | some padding => END :: padding

def closingOptions : Option (List UInt8) → List TcpOption
  | none => []
  | some _ => [endOption]

def optionBytes (options : List TcpOption) : List UInt8 := options.flatMap TcpOption.serialize

def optionArea (options : List TcpOption) (closing : Option (List UInt8)) : List UInt8 :=
  optionBytes options ++ closingBytes closing

section

variable {items : List TcpOption} (hlegal : ∀ option ∈ items, option.Legal)
include hlegal

theorem readOptions_eq (closing : Option (List UInt8)) {fuel : Nat}
    (hfuel : items.length + 1 < fuel) (passed ahead : List UInt8) (options : List TcpOption)
    (optionsLen : Nat) :
    readOptions fuel (optionArea items closing).length ⟨passed, optionArea items closing ++ ahead⟩
      options optionsLen = some (options ++ items ++ closingOptions closing,
          optionsLen + (optionArea items closing).length) := by
  induction items generalizing fuel passed options optionsLen with
  | nil =>
    obtain ⟨fuel, rfl⟩ := Nat.exists_eq_succ_of_ne_zero (ne_of_gt (Nat.zero_lt_of_lt hfuel))
    cases closing with
    | none => simp [readOptions, optionArea, optionBytes, closingBytes, closingOptions]
    | some padding =>
      have hend : TcpOption.deserialize ⟨passed, END :: (padding ++ ahead)⟩ =
          some (endOption, 1) := rfl
      have hnext : BufferIterator.next 1 ⟨passed, END :: (padding ++ ahead)⟩ =
          some ⟨passed ++ [END], padding ++ ahead⟩ := next_append [END] passed _
      change readOptions (fuel + 1) (padding.length + 1) ⟨passed, END :: (padding ++ ahead)⟩ _ _ = _
      rw [readOptions, if_neg (Nat.succ_ne_zero _), hend]
      simp only [Option.bind_eq_bind, Option.bind_some]
      rw [if_neg (by simp [TcpOption.getSerializedSize]), hnext, Option.bind_some,
        if_pos (by rfl), Nat.add_sub_cancel, next_append, Option.bind_some, append_nil]
      rfl
  | cons option later ih =>
    obtain ⟨hhead, hlater⟩ := forall_mem_cons.mp hlegal
    obtain ⟨fuel, rfl⟩ := Nat.exists_eq_succ_of_ne_zero (ne_of_gt (Nat.zero_lt_of_lt hfuel))
    have hbytes : optionArea (option :: later) closing =
        option.serialize ++ optionArea later closing := by
      simp [optionArea, optionBytes]
    have hpos := hhead.pos
    have hlen := congrArg List.length hbytes
    rw [length_append] at hlen
    rw [readOptions, if_neg (by omega), hbytes, append_assoc, hhead.deserialize]
    simp only [Option.bind_eq_bind, Option.bind_some]
    rw [if_neg (by rw [hhead.getSerializedSize, length_append]; omega), next_append,
      Option.bind_some, if_neg hhead.getKind_ne, length_append, Nat.add_sub_cancel_left,
      ih hlater (by simpa using hfuel), ← add_assoc]
    simp

theorem sum_getSerializedSize :
    (items.map TcpOption.getSerializedSize).sum = (optionBytes items).length := by
  rw [optionBytes, length_flatMap]
  exact congrArg sum (map_congr_left fun option hmem =>
    (hlegal option hmem).getSerializedSize)

theorem length_le_optionBytes : items.length ≤ (optionBytes items).length := by
  induction items with
  | nil => exact Nat.zero_le _
  | cons option later ih =>
    obtain ⟨hhead, hlater⟩ := forall_mem_cons.mp hlegal
    have hpos := hhead.pos
    have hrest := ih hlater
    simp only [optionBytes, flatMap_cons, length_append, length_cons] at hrest ⊢
    omega

end

theorem calculateHeaderLength_eq {options : List TcpOption}
    (hsum : (options.map TcpOption.getSerializedSize).sum ≤ 40) :
    calculateHeaderLength options =
      (20 + (options.map TcpOption.getSerializedSize).sum + 3) / 4 := by
  rw [calculateHeaderLength, uint32_of_lt (by omega), uint8]
  split <;> omega

theorem calculateHeaderLength_kept {items : List TcpOption}
    (hlegal : ∀ option ∈ items, option.Legal) {closing : Option (List UInt8)}
    (hshort : (optionBytes items).length + (closingOptions closing).length ≤ 40) :
    calculateHeaderLength (items ++ closingOptions closing) =
      (20 + ((optionBytes items).length + (closingOptions closing).length) + 3) / 4 := by
  have hsum : ((items ++ closingOptions closing).map TcpOption.getSerializedSize).sum =
      (optionBytes items).length + (closingOptions closing).length := by
    rw [map_append, sum_append, sum_getSerializedSize hlegal]
    cases closing with
    | none => rfl
    | some padding => rfl
  rw [calculateHeaderLength_eq (by omega), hsum]

/-! ## The fixed part -/

def headerWords (sourcePort destinationPort sequenceNumber ackNumber field windowSize checksum
    urgentPointer : Nat) : List Word :=
  [(2, sourcePort), (2, destinationPort), (4, sequenceNumber), (4, ackNumber), (2, field),
    (2, windowSize), (2, checksum), (2, urgentPointer)]

section Words

variable {sourcePort destinationPort sequenceNumber ackNumber field windowSize checksum
  urgentPointer : Nat}

theorem deserialize_eq (header : TcpHeader)
    (hfits : FitWidths (headerWords sourcePort destinationPort sequenceNumber ackNumber field
        windowSize checksum urgentPointer)) {items : List TcpOption}
    (hlegal : ∀ option ∈ items, option.Legal) {closing : Option (List UInt8)}
    (hoff : 4 * (field / 2 ^ 12) = 20 + (optionArea items closing).length) {fuel : Nat}
    (hfuel : 41 < fuel) (payload : List UInt8) :
    ∃ decoded : TcpHeader,
      header.deserialize fuel (recordBytes (headerWords sourcePort destinationPort sequenceNumber
            ackNumber field windowSize checksum urgentPointer) ++
          (optionArea items closing ++ payload)) = some (decoded, decoded.getSerializedSize) ∧
        decoded.options = items ++ closingOptions closing ∧ decoded.length = field / 2 ^ 12 ∧
        decoded.toTcpFields = ⟨.ofNat sourcePort, .ofNat destinationPort, .of sequenceNumber,
            .of ackNumber, .ofNat field, .ofNat windowSize, .ofNat urgentPointer⟩ := by
  have hfield : field < 2 ^ 16 := hfits (2, field) (by simp [headerWords])
  have hshort := length_le_optionBytes hlegal
  have harea : (optionBytes items).length ≤ (optionArea items closing).length := by
    rw [optionArea, length_append]
    exact Nat.le_add_right _ _
  have hread := readRecord_recordBytes hfits [] (optionArea items closing ++ payload)
  generalize recordBytes (headerWords sourcePort destinationPort sequenceNumber ackNumber field
    windowSize checksum urgentPointer) = front at hread ⊢
  have hlen : uint32OfInt ((((field / 2 ^ 12 : Nat) : Int) - 5) * 4) =
      (optionArea items closing).length := by
    rw [uint32OfInt]
    omega
  simp only [headerWords, map_cons, map_nil, nil_append] at hread
  rw [deserialize, hread]
  simp only [Option.bind_eq_bind, Option.bind_some, hlen]
  rw [if_neg (by rw [maxOptionsLen]; omega), readOptions_eq hlegal closing (by omega),
    Option.bind_some]
  exact ⟨_, rfl, rfl, rfl, rfl⟩

end Words

def dataOffset (bytes : List UInt8) : Nat := (bytes.getD 12 0).toNat / 2 ^ 4

theorem exists_headerWords {front : List UInt8} (hfront : front.length = 20) :
    ∃ sourcePort destinationPort sequenceNumber ackNumber field windowSize checksum urgentPointer,
      FitWidths (headerWords sourcePort destinationPort sequenceNumber ackNumber field windowSize
          checksum urgentPointer) ∧
        recordBytes (headerWords sourcePort destinationPort sequenceNumber ackNumber field
            windowSize checksum urgentPointer) = front ∧
        dataOffset front = field / 2 ^ 12 := by
  obtain ⟨words, hwidths, hfits, rfl, -⟩ :=
    readRecord_append [2, 2, 4, 4, 2, 2, 2, 2] (hfront.trans rfl) [] []
  simp only [map_eq_cons_iff, map_eq_nil_iff] at hwidths
  obtain ⟨⟨_, v0⟩, _, rfl, rfl, ⟨_, v1⟩, _, rfl, rfl, ⟨_, v2⟩, _, rfl, rfl, ⟨_, v3⟩, _, rfl, rfl,
    ⟨_, field⟩, _, rfl, rfl, ⟨_, v5⟩, _, rfl, rfl, ⟨_, v6⟩, _, rfl, rfl, ⟨_, v7⟩, _, rfl, rfl,
    rfl⟩ := hwidths
  refine ⟨v0, v1, v2, v3, field, v5, v6, v7, hfits, rfl, ?_⟩
  have hfield : field < 2 ^ 16 := hfits (2, field) (by simp)
  have hbyte : (recordBytes [(2, v0), (2, v1), (4, v2), (4, v3), (2, field), (2, v5), (2, v6),
      (2, v7)]).getD 12 0 = UInt8.ofNat (field / 2 ^ 8) := by
    simp [recordBytes, toBytes]
  rw [dataOffset, hbyte, UInt8.toNat_ofNat']
  omega

/-- What `Packet::RemoveHeader` leaves of a buffer. -/
def removeHeader (header : TcpHeader) (fuel : Nat) (buffer : List UInt8) :
    Option (TcpHeader × List UInt8) :=
  (header.deserialize fuel buffer).map fun decoded => (decoded.1, buffer.drop decoded.2)

def RemovedExactly (header : TcpHeader) (fuel : Nat) (front area payload : List UInt8) : Prop :=
  ∃ decoded, header.deserialize fuel (front ++ (area ++ payload)) =
      some (decoded, 4 * dataOffset front) ∧
    header.removeHeader fuel (front ++ (area ++ payload)) = some (decoded, payload)

/-- A well-formed header is removed exactly if and only if less than a word of padding follows
its END. -/
theorem removedExactly_iff (header : TcpHeader) {front : List UInt8} (hfront : front.length = 20)
    {items : List TcpOption} (hlegal : ∀ option ∈ items, option.Legal)
    (closing : Option (List UInt8))
    (hoff : 4 * dataOffset front = 20 + (optionArea items closing).length) {fuel : Nat}
    (hfuel : 41 < fuel) (payload : List UInt8) :
    header.RemovedExactly fuel front (optionArea items closing) payload ↔
      ∀ padding ∈ closing, padding.length < 4 := by
  obtain ⟨sourcePort, destinationPort, sequenceNumber, ackNumber, field, windowSize, checksum,
    urgentPointer, hfits, hbytes, hfield⟩ := exists_headerWords hfront
  obtain ⟨decoded, hdecoded, hoptions, -, -⟩ :=
    header.deserialize_eq hfits hlegal (hfield ▸ hoff) hfuel payload
  rw [hbytes] at hdecoded
  have harea : (optionArea items closing).length =
      (optionBytes items).length + (closingBytes closing).length := List.length_append
  have hoffsetLt : dataOffset front < 16 := by
    have hbyte := (front.getD 12 0).toNat_lt
    rw [dataOffset]
    omega
  have hkept : (closingOptions closing).length ≤ (closingBytes closing).length := by
    cases closing with
    | none => exact Nat.le_refl _
    | some padding => exact Nat.le_add_left _ _
  have hsz : decoded.getSerializedSize = (20 + ((optionBytes items).length +
      (closingOptions closing).length) + 3) / 4 * 4 := by
    rw [getSerializedSize, hoptions, calculateHeaderLength_kept hlegal (by omega)]
  constructor
  · rintro ⟨other, hother, -⟩ padding rfl
    rw [hdecoded] at hother
    have hsame := (Prod.mk.inj (Option.some.inj hother)).2
    simp only [closingBytes, closingOptions, List.length_cons, List.length_nil] at harea hsz
    omega
  · intro hshort
    have hexact : decoded.getSerializedSize = 4 * dataOffset front := by
      cases closing with
      | none =>
        simp only [closingBytes, closingOptions, List.length_nil] at harea hsz
        omega
      | some padding =>
        have hpadding := hshort padding rfl
        simp only [closingBytes, closingOptions, List.length_cons, List.length_nil] at harea hsz
        omega
    rw [hexact] at hdecoded
    refine ⟨decoded, hdecoded, ?_⟩
    rw [removeHeader, hdecoded, Option.map_some, ← List.append_assoc,
      List.drop_left' (by rw [List.length_append, hfront, hoff])]

/-- Seven bytes of padding behind an END make a header of 28 bytes that is taken for 24. -/
theorem not_removedExactly_padding :
    ¬ ({} : TcpHeader).RemovedExactly 42 (List.replicate 12 0 ++ 0x70 :: List.replicate 7 0)
      (END :: List.replicate 7 0) [] := by
  rintro ⟨decoded, hdecoded, -⟩
  have hsz := congrArg (Option.map Prod.snd) hdecoded
  change _ = some 28 at hsz
  exact absurd hsz (by decide)

theorem removedExactly_three :
    ({} : TcpHeader).RemovedExactly 42 (List.replicate 12 0 ++ 0x70 :: List.replicate 7 0)
      (optionArea [unknown 30 4 [7, 8]] (some [0, 0, 0])) [1, 2] := by
  refine (removedExactly_iff _ rfl ?_ _ rfl (by decide) _).mpr ?_
  · simp [Legal, isKindKnown, END, NOP, MSS, WINSCALE, SACKPERMITTED, SACK, TS]
  · rintro padding ⟨⟩
    decide

end TcpHeader

end HomaSird.Tcp
