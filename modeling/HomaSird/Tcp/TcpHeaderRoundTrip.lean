import HomaSird.Tcp.TcpHeader

/-! # A TCP header and its bytes

The length of the options is kept as a count of bytes, as words of the header and in the list of
options itself. The three agree as long as no size is taken for a smaller one in 32 bits, and then
the bytes of the header are read as the header.
-/

namespace HomaSird.Tcp

open BufferIterator TcpOption List

/-- A subclass other than `TcpOptionUnknown`. -/
def TcpOption.Known : TcpOption → Prop
  | unknown _ _ _ => False
  | _ => True

variable {option : TcpOption}

theorem TcpOption.Known.isKindKnown (hknown : option.Known) :
    TcpOption.isKindKnown option.getKind = true := by
  cases option with
  | unknown => exact hknown.elim
  | _ => rfl

theorem TcpOption.Known.legal (hknown : option.Known)
    (hne : option ≠ endOption) (hshort : option.serialize.length ≤ 40) : option.Legal := by
  cases option with
  | endOption => exact absurd rfl hne
  | unknown => exact hknown.elim
  | sack sackList =>
    rw [length_sack] at hshort
    rw [Legal]
    omega
  | _ => trivial

theorem TcpOption.Known.getKind_ne (hknown : option.Known)
    (hne : option ≠ endOption) : option.getKind ≠ END := by
  cases option with
  | endOption => exact absurd rfl hne
  | unknown => exact hknown.elim
  | _ => exact of_decide_eq_true rfl

namespace TcpHeader

variable {header : TcpHeader} {option : TcpOption} {options : List TcpOption}

/-! ## Appending -/

def appendOptions (header : TcpHeader) (options : List TcpOption) : TcpHeader :=
  options.foldl (fun header option => (header.appendOption option).1) header

structure Fresh (header : TcpHeader) : Prop where
  options : header.options = []
  optionsLen : header.optionsLen = 0
  length : header.length = 5

def AppendsWithin : TcpHeader → List TcpOption → Prop
  | _, [] => True
  | header, option :: later =>
    (option ≠ .endOption →
      if (optionBytes header.options).length + option.serialize.length ≤ 40 then
        (header.appendOption option).1.options = header.options ++ [option]
      else (header.appendOption option).1 = header) ∧
    AppendsWithin (header.appendOption option).1 later

/-- No option that is too long comes out as short in 32 bits. -/
def NoWrap : Nat → List TcpOption → Prop
  | _, [] => True
  | used, option :: later =>
    if option = .endOption then NoWrap used later
    else if used + option.serialize.length ≤ 40 then NoWrap (used + option.serialize.length) later
    else 40 < uint32 (used + option.serialize.length) ∧ NoWrap used later

structure Sound (header : TcpHeader) : Prop where
  legal : ∀ option ∈ header.options, option.Legal
  optionsLen : header.optionsLen = (optionBytes header.options).length
  bounded : header.optionsLen ≤ 40
  length : header.length = (20 + 3 + header.optionsLen) / 4

theorem Fresh.sound (hfresh : header.Fresh) : header.Sound where
  legal := by simp [hfresh.options]
  optionsLen := by rw [hfresh.optionsLen, hfresh.options]; rfl
  bounded := by rw [hfresh.optionsLen]; decide
  length := by rw [hfresh.length, hfresh.optionsLen]

theorem appendOption_end : (header.appendOption endOption).1 = header := by
  rw [appendOption]
  split
  · rfl
  · rfl

theorem appendOption_refused (hlong : 40 < uint32 (header.optionsLen + option.getSerializedSize)) :
    (header.appendOption option).1 = header := by
  rw [appendOption, if_neg (by rw [maxOptionsLen]; omega)]

theorem appendOption_accepted (hknown : option.Known) (hne : option ≠ endOption)
    (hshort : uint32 (header.optionsLen + option.getSerializedSize) ≤ 40) :
    (header.appendOption option).1 = { header with
      options := header.options ++ [option]
      optionsLen := uint8 (header.optionsLen + option.getSerializedSize)
      length := uint8 ((20 + 3 + uint8 (header.optionsLen + option.getSerializedSize)) / 4) } := by
  rw [appendOption, if_pos (by rwa [maxOptionsLen]), if_neg (by simp [hknown.isKindKnown]),
    if_pos (hknown.getKind_ne hne)]

theorem uint32_add_getSerializedSize (hknown : option.Known) (used : Nat) :
    uint32 (used + option.getSerializedSize) = uint32 (used + option.serialize.length) := by
  rw [getSerializedSize_eq hknown.isKindKnown (by rintro _ _ _ rfl; exact hknown),
    add_comm, uint32_add, add_comm]

theorem Sound.appendOption (hsound : header.Sound) (hknown : option.Known)
    (hne : option ≠ endOption) (hfits : header.optionsLen + option.serialize.length ≤ 40) :
    (header.appendOption option).1.Sound ∧
      (header.appendOption option).1.options = header.options ++ [option] ∧
      (header.appendOption option).1.optionsLen = header.optionsLen + option.serialize.length := by
  have hlegal := hknown.legal hne (by omega)
  have hshort : uint32 (header.optionsLen + option.getSerializedSize) ≤ 40 := by
    rw [hlegal.getSerializedSize, uint32_of_lt (by omega)]
    exact hfits
  have hsz : uint8 (header.optionsLen + option.getSerializedSize) =
      header.optionsLen + option.serialize.length := by
    rw [hlegal.getSerializedSize, uint8]
    omega
  rw [appendOption_accepted hknown hne hshort, hsz]
  refine ⟨⟨?_, ?_, hfits, ?_⟩, rfl, rfl⟩
  · intro other hmem
    rcases mem_append.mp hmem with hold | hnew
    · exact hsound.legal other hold
    · exact mem_singleton.mp hnew ▸ hlegal
  · simp [optionBytes, hsound.optionsLen]
  · exact Nat.mod_eq_of_lt (by omega)

theorem Sound.appendsWithin_iff (hsound : header.Sound) (hknown : ∀ option ∈ options, option.Known)
    : header.AppendsWithin options ↔ NoWrap header.optionsLen options := by
  induction options generalizing header with
  | nil => exact Iff.rfl
  | cons option later ih =>
    obtain ⟨hhead, hlater⟩ := forall_mem_cons.mp hknown
    rw [AppendsWithin, NoWrap]
    by_cases hend : option = endOption
    · rw [hend, if_pos rfl, appendOption_end, ih hsound hlater]
      exact and_iff_right fun hne => absurd rfl hne
    rw [if_neg hend, ← hsound.optionsLen]
    by_cases hfits : header.optionsLen + option.serialize.length ≤ 40
    · obtain ⟨hnext, hopts, hlen⟩ := hsound.appendOption hhead hend hfits
      rw [if_pos hfits, if_pos hfits, ih hnext hlater, hlen]
      exact and_iff_right fun _ => hopts
    rw [if_neg hfits, if_neg hfits, ← uint32_add_getSerializedSize hhead]
    by_cases hlong : 40 < uint32 (header.optionsLen + option.getSerializedSize)
    · rw [appendOption_refused hlong, ih hsound hlater]
      exact and_congr_left fun _ => ⟨fun _ => hlong, fun _ _ => rfl⟩
    · rw [appendOption_accepted hhead hend (Nat.le_of_not_lt hlong)]
      refine ⟨fun hboth => ?_, fun hboth => absurd hboth.1 hlong⟩
      have hsame := congrArg (fun header => header.options.length) (hboth.1 hend)
      simp at hsame

theorem Sound.appendOptions (hsound : header.Sound) (hknown : ∀ option ∈ options, option.Known)
    (hnoWrap : NoWrap header.optionsLen options) : (header.appendOptions options).Sound := by
  induction options generalizing header with
  | nil => exact hsound
  | cons option later ih =>
    obtain ⟨hhead, hlater⟩ := forall_mem_cons.mp hknown
    rw [NoWrap] at hnoWrap
    change ((header.appendOption option).1.appendOptions later).Sound
    by_cases hend : option = endOption
    · rw [hend, appendOption_end]
      exact ih hsound hlater (by simpa [hend] using hnoWrap)
    rw [if_neg hend] at hnoWrap
    by_cases hfits : header.optionsLen + option.serialize.length ≤ 40
    · obtain ⟨hnext, -, hlen⟩ := hsound.appendOption hhead hend hfits
      rw [if_pos hfits] at hnoWrap
      exact ih hnext hlater (hlen ▸ hnoWrap)
    · rw [if_neg hfits, ← uint32_add_getSerializedSize hhead] at hnoWrap
      rw [appendOption_refused hnoWrap.1]
      exact ih hsound hlater hnoWrap.2

/-! ## Writing and reading -/

theorem writeOptions_append (hlegal : ∀ option ∈ options, option.Legal) {room : List UInt8}
    (hroom : room.length = (optionBytes options).length) (passed ahead : List UInt8) :
    writeOptions options ⟨passed, room ++ ahead⟩ = some ⟨passed ++ optionBytes options, ahead⟩ := by
  induction options generalizing room passed with
  | nil =>
    obtain rfl := eq_nil_of_length_eq_zero hroom
    simp [writeOptions, optionBytes]
  | cons option later ih =>
    obtain ⟨hhead, hlater⟩ := forall_mem_cons.mp hlegal
    have hsz : room.length = option.serialize.length + (optionBytes later).length := by
      rw [hroom, optionBytes, flatMap_cons, length_append, optionBytes]
    have hput : put option.serialize ⟨passed, room ++ ahead⟩ = some ⟨passed,
        option.serialize ++ (room.drop option.serialize.length ++ ahead)⟩ := by
      rw [← take_append_drop option.serialize.length room, append_assoc,
        put_append (by rw [length_take]; omega)]
      simp
    rw [writeOptions, hput]
    simp only [Option.bind_eq_bind, Option.bind_some, hhead.getSerializedSize, next_append]
    rw [ih hlater (by rw [length_drop]; omega)]
    simp [optionBytes]

def checkedWords (header : TcpHeader) (checksum : Nat) : List Word :=
  headerWords header.sourcePort.toNat header.destinationPort.toNat
    header.sequenceNumber.value.toNat header.ackNumber.value.toNat
    (uint16 (header.length * 2 ^ 12 ||| header.flags.toNat)) header.windowSize.toNat checksum
    header.urgentPointer.toNat

theorem exists_checkedWords (header : TcpHeader) :
    ∃ first last : List UInt8,
      first.length = 16 ∧
        ∀ checksum,
          recordBytes (header.checkedWords checksum) = first ++ (toBytes 2 checksum ++ last) := by
  refine ⟨recordBytes ((header.checkedWords 0).take 6), toBytes 2 header.urgentPointer.toNat,
    ?_, fun checksum => ?_⟩
  · rw [length_recordBytes]
    rfl
  · simp [recordBytes, checkedWords, headerWords]

theorem Sound.serialize (hsound : header.Sound) {room : List UInt8}
    (hroom : room.length = 20 + header.optionsLen + (padding header.optionsLen).length)
    (payload : List UInt8) :
    ∃ checksum < 2 ^ 16, header.serialize (room ++ payload) =
        some ⟨recordBytes (header.checkedWords checksum) ++
            (optionBytes header.options ++ padding header.optionsLen), payload⟩ := by
  obtain ⟨first, last, hfst, hrecord⟩ := header.exists_checkedWords
  have hsplit : room = room.take 20 ++ ((room.drop 20).take header.optionsLen ++
      (room.drop 20).drop header.optionsLen) := by
    rw [take_append_drop, take_append_drop]
  have hsum : (header.options.map TcpOption.getSerializedSize).sum = header.optionsLen := by
    rw [sum_getSerializedSize hsound.legal, hsound.optionsLen]
  have hwrote : header.fixedWords = header.checkedWords 0 := rfl
  have htake : (room.take 20).length = 20 := by
    rw [length_take]
    omega
  rw [TcpHeader.serialize, hsplit, append_assoc, append_assoc, hwrote,
    writeRecord_append _ (htake.trans rfl)]
  simp only [Option.bind_eq_bind, Option.bind_some, hsum]
  rw [writeOptions_append hsound.legal (by
    rw [length_take, length_drop, ← hsound.optionsLen]; omega), Option.bind_some,
    put_append (by simp only [length_drop]; omega), Option.bind_some, next_append,
    Option.bind_some, nil_append, append_assoc]
  by_cases hchecksum : header.calcChecksum = true
  · rw [if_pos hchecksum, writeChecksum]
    generalize calculateIpChecksum _ _ _ = checksum
    refine ⟨ofBytes [UInt8.ofNat checksum, UInt8.ofNat (checksum / 2 ^ 8)], ofBytes_lt _, ?_⟩
    have hbytes := toBytes_ofBytes [UInt8.ofNat checksum, UInt8.ofNat (checksum / 2 ^ 8)]
    rw [hrecord, hrecord, show toBytes 2 _ = _ from hbytes]
    simp only [append_assoc, take_left' hfst]
    rw [← append_assoc first (toBytes 2 0), drop_left' (by simp [hfst])]
    rfl
  · rw [if_neg hchecksum]
    exact ⟨0, by decide, rfl⟩

theorem Sound.field (hsound : header.Sound) :
    uint16 (header.length * 2 ^ 12 ||| header.flags.toNat) =
      header.length * 2 ^ 12 + header.flags.toNat := by
  have hflags := header.flags.toNat_lt
  have hlength := hsound.length
  have hbd := hsound.bounded
  rw [← Nat.shiftLeft_eq, ← Nat.shiftLeft_add_eq_or_of_lt (lt_of_lt_of_le hflags (by decide)),
    Nat.shiftLeft_eq, uint16_of_lt (by omega)]

/-- A header is written in as many bytes as its data offset says and read again from them. -/
structure RoundTrips (header : TcpHeader) : Prop where
  size : header.getSerializedSize = 4 * header.length
  bounded : header.getSerializedSize ≤ 60
  codec : ∀ room payload : List UInt8, room.length = header.getSerializedSize →
    ∃ bytes, header.serialize (room ++ payload) = some ⟨bytes, payload⟩ ∧
      bytes.length = header.getSerializedSize ∧
      ∀ (receiver : TcpHeader) (fuel : Nat), 41 < fuel → ∃ decoded,
        receiver.deserialize fuel (bytes ++ payload) = some (decoded, header.getSerializedSize) ∧
        decoded.toTcpFields = header.toTcpFields ∧ decoded.length = header.length ∧
        (decoded.options = header.options ∨ decoded.options = header.options ++ [.endOption])

theorem exists_closing (optionLen : Nat) :
    ∃ closing : Option (List UInt8),
      closingBytes closing = padding optionLen ∧
        (closingOptions closing = [] ∧ optionLen % 4 = 0 ∨
          closingOptions closing = [endOption] ∧ optionLen % 4 ≠ 0) := by
  rw [padding]
  by_cases hwhole : optionLen % 4 = 0
  · rw [hwhole]
    exact ⟨none, rfl, .inl ⟨rfl, rfl⟩⟩
  · have hcnt : (4 - optionLen % 4) % 4 = (3 - optionLen % 4) + 1 := by
      omega
    rw [hcnt]
    exact ⟨some (replicate (3 - optionLen % 4) END), rfl, .inr ⟨rfl, hwhole⟩⟩

theorem Sound.roundTrips (hsound : header.Sound) : header.RoundTrips := by
  have hlength := hsound.length
  have hbd := hsound.bounded
  have hlen := hsound.optionsLen
  have hpadding : (padding header.optionsLen).length = (4 - header.optionsLen % 4) % 4 :=
    length_replicate
  have hsum := sum_getSerializedSize hsound.legal
  have hsz : header.getSerializedSize = 4 * header.length := by
    rw [getSerializedSize, calculateHeaderLength_eq (by omega), hlength, hsum, ← hlen]
    omega
  refine ⟨hsz, by omega, fun room payload hroom => ?_⟩
  have hfilled : room.length = 20 + header.optionsLen + (padding header.optionsLen).length := by
    omega
  obtain ⟨checksum, hchecksum, hser⟩ := hsound.serialize hfilled payload
  obtain ⟨closing, hclosing, hend⟩ := exists_closing header.optionsLen
  have harea : optionArea header.options closing =
      optionBytes header.options ++ padding header.optionsLen := by
    rw [optionArea, hclosing]
  have hareaLength : (optionArea header.options closing).length =
      header.optionsLen + (4 - header.optionsLen % 4) % 4 := by
    rw [harea, length_append, hpadding, hlen]
  have hflags := header.flags.toNat_lt
  have hfits : FitWidths (header.checkedWords checksum) := by
    simp only [FitWidths, checkedWords, headerWords, forall_mem_cons, not_mem_nil,
      false_implies, implies_true, and_true]
    exact ⟨UInt16.toNat_lt _, UInt16.toNat_lt _, BitVec.isLt _, BitVec.isLt _, uint16_lt _,
      UInt16.toNat_lt _, hchecksum, UInt16.toNat_lt _⟩
  refine ⟨_, hser, ?_, fun receiver fuel hfuel => ?_⟩
  · rw [← harea, length_append, hareaLength, length_recordBytes]
    change 20 + _ = _
    omega
  · obtain ⟨decoded, hdec, hopts, hwords, hfields⟩ :=
      receiver.deserialize_eq hfits hsound.legal (by rw [hareaLength, hsound.field]; omega)
        hfuel payload
    have hkept : decoded.getSerializedSize = header.getSerializedSize := by
      rw [getSerializedSize, hopts, hsz, hlength]
      rcases hend with ⟨hnone, hwhole⟩ | ⟨hone, hpart⟩
      · rw [calculateHeaderLength_kept hsound.legal (by rw [hnone, ← hlen]; simpa using hbd),
          hnone, ← hlen]
        simp only [length_nil]
        omega
      · rw [calculateHeaderLength_kept hsound.legal (by rw [hone, ← hlen]; simp; omega), hone,
          ← hlen]
        simp only [length_singleton]
        omega
    rw [hkept, harea, ← append_assoc] at hdec
    refine ⟨decoded, hdec, ?_, by rw [hwords, hsound.field]; omega, ?_⟩
    · have hflag : UInt8.ofNat (header.length * 2 ^ 12 + header.flags.toNat) = header.flags := by
        apply UInt8.toNat_inj.mp
        rw [UInt8.toNat_ofNat']
        omega
      rw [hfields, hsound.field, hflag]
      simp [SequenceNumber.of]
    · rw [hopts]
      rcases hend with ⟨hnone, -⟩ | ⟨hone, -⟩
      · exact .inl (by rw [hnone, append_nil])
      · exact .inr (by rw [hone])

/-- For options of the known kinds, the header accepts what fits and its bytes say what it holds
exactly as long as no size wraps. -/
theorem codec_agrees_iff (hfresh : header.Fresh) (hknown : ∀ option ∈ options, option.Known) :
    header.AppendsWithin options ∧ (header.appendOptions options).RoundTrips ↔
      NoWrap 0 options := by
  rw [← hfresh.optionsLen, hfresh.sound.appendsWithin_iff hknown]
  exact and_iff_left_of_imp fun hnoWrap =>
    (hfresh.sound.appendOptions hknown hnoWrap).roundTrips

theorem fresh_default : ({} : TcpHeader).Fresh := ⟨rfl, rfl, rfl⟩

theorem codec_agrees_mss :
    ({} : TcpHeader).AppendsWithin [mss 1460, winScale 7] ∧
      (({} : TcpHeader).appendOptions [mss 1460, winScale 7]).RoundTrips := by
  refine (codec_agrees_iff fresh_default (by simp [TcpOption.Known])).mpr ?_
  simp [NoWrap, TcpOption.serialize]

theorem not_appendsWithin_sack {blocks : List SackBlock}
    (hblocks : blocks.length = 2 ^ 29) : ¬ ({} : TcpHeader).AppendsWithin [sack blocks] := by
  intro happends
  have hnoWrap := (fresh_default.sound.appendsWithin_iff (by simp [TcpOption.Known])).mp happends
  simp only [NoWrap, length_sack, hblocks, reduceCtorEq, if_false, uint32] at hnoWrap
  rw [if_neg (by omega)] at hnoWrap
  omega

/-- The size of an option with `2 ^ 29` blocks is computed as two bytes, and it is accepted. -/
theorem not_codec_agrees_blocks :
    ¬ (({} : TcpHeader).AppendsWithin [sack (List.replicate (2 ^ 29) ⟨.of 0, .of 0⟩)] ∧
    (({} : TcpHeader).appendOptions [sack (List.replicate (2 ^ 29) ⟨.of 0, .of 0⟩)]).RoundTrips) :=
  fun hboth => not_appendsWithin_sack List.length_replicate hboth.1

end TcpHeader

end HomaSird.Tcp
