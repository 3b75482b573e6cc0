import HomaSird.Data.NetworkOrder
import HomaSird.Data.Word
import HomaSird.Internet.Ipv6Extension

/-! # IPv6 options in a header

`AddOption` puts padding in front of an option where its alignment asks for it, and the header
ends with padding to a multiple of eight bytes.
-/

namespace HomaSird.Internet

open BufferIterator List

/-- `factor * n + offset` -/
structure Alignment where
  factor : Nat
  offset : Nat

/-- The subclasses of `Ipv6OptionHeader`, and an option of the class itself with as much data as
its length says, as `Deserialize` leaves it. -/
inductive Ipv6OptionHeader where
  | pad1
  | padn (length : UInt8)
  | jumbogram (dataLength : UInt32)
  | routerAlert (value : UInt16)
  | generic (type : UInt8) (data : {data : List UInt8 // data.length < 2 ^ 8})

/-- What an option holds: `value` is `m_dataLength` or `m_value`. -/
structure OptionContent where
  type : UInt8
  length : UInt8
  value : Nat := 0
  data : List UInt8 := []
deriving DecidableEq

namespace Ipv6OptionHeader

/-- `Ipv6OptionPadnHeader (pad)` -/
def padnOf (pad : Nat) : Ipv6OptionHeader := padn (UInt8.ofNat (pad - 2))

def content : Ipv6OptionHeader → OptionContent
  | pad1 => ⟨0, 0, 0, []⟩
  | padn length => ⟨1, length, 0, []⟩
  | jumbogram dataLength => ⟨0xC2, 4, dataLength.toNat, []⟩
  | routerAlert value => ⟨5, 2, value.toNat, []⟩
  | generic type data => ⟨type, UInt8.ofNat data.val.length, 0, data.val⟩

def getSerializedSize : Ipv6OptionHeader → Nat
  | pad1 => 1
  | option => option.content.length.toNat + 2

def getAlignment : Ipv6OptionHeader → Alignment
  | jumbogram _ => ⟨4, 2⟩
  | routerAlert _ => ⟨2, 0⟩
  | _ => ⟨1, 0⟩

/-- The bytes that `Serialize` writes. -/
def serialize : Ipv6OptionHeader → List UInt8
  | pad1 => [0]
  | padn length => 1 :: length :: List.replicate length.toNat 0
  | jumbogram dataLength => 0xC2 :: 4 :: toBytes 4 dataLength.toNat
  | routerAlert value => 5 :: 2 :: toBytes 2 value.toNat
  | generic type data => type :: UInt8.ofNat data.val.length :: data.val

/-- `Deserialize` of an option of the same class: what it holds then, and its size. -/
def deserialize (option : Ipv6OptionHeader) (start : BufferIterator) :
    Option (OptionContent × Nat) := do
  let (type, i) ← start.readU8
  match option with
  | pad1 => return (⟨type, 0, 0, []⟩, 1)
  | padn _ =>
    let (length, _) ← i.readU8
    return (⟨type, length, 0, []⟩, length.toNat + 2)
  | jumbogram _ =>
    let (length, i) ← i.readU8
    let (dataLength, _) ← i.read 2
    return (⟨type, length, dataLength, []⟩, length.toNat + 2)
  | routerAlert _ =>
    let (length, i) ← i.readU8
    let (value, _) ← i.read 2
    return (⟨type, length, value, []⟩, length.toNat + 2)
  | generic _ _ =>
    let (length, i) ← i.readU8
    let _ ← i.next length.toNat
    return (⟨type, length, 0, i.ahead.take length.toNat⟩, length.toNat + 2)

end Ipv6OptionHeader

open Ipv6OptionHeader

/-! ## The options of a header -/

/-- `CalculatePad` for so many bytes of options -/
def calculatePad (size : Nat) (alignment : Alignment) : Nat :=
  uint32OfInt (alignment.offset - (uint32 (size + getOptionsOffset) : Nat)) % alignment.factor

def padOptions : Nat → List UInt8
  | 0 => []
  | 1 => pad1.serialize
  | pad => (padnOf pad).serialize

def addOption (optionData : List UInt8) (option : Ipv6OptionHeader) : List UInt8 :=
  optionData ++ padOptions (calculatePad optionData.length option.getAlignment) ++ option.serialize

/-- `Ipv6ExtensionHopByHopHeader` and `Ipv6ExtensionDestinationHeader` -/
structure OptionFieldHeader where
  nextHeader : UInt8 := 0
  length : UInt8 := 0
  optionData : List UInt8 := []
deriving DecidableEq

namespace OptionFieldHeader

def addOptions (header : OptionFieldHeader) (options : List Ipv6OptionHeader) : OptionFieldHeader :=
  { header with optionData := options.foldl addOption header.optionData }

def fill (header : OptionFieldHeader) : List UInt8 :=
  padOptions (calculatePad header.optionData.length ⟨8, 0⟩)

def getSerializedSize (header : OptionFieldHeader) : Nat :=
  2 + (header.optionData.length + calculatePad header.optionData.length ⟨8, 0⟩)

def serialize (header : OptionFieldHeader) : List UInt8 :=
  header.nextHeader :: UInt8.ofNat (header.getSerializedSize / 8 - 1) ::
    (header.optionData ++ header.fill)

def deserialize (start : BufferIterator) : Option (OptionFieldHeader × Nat) := do
  let (nextHeader, i) ← start.readU8
  let (length, i) ← i.readU8
  let _ ← i.next (getLength length - 2)
  let header : OptionFieldHeader := ⟨nextHeader, length, i.ahead.take (getLength length - 2)⟩
  return (header, header.getSerializedSize)

end OptionFieldHeader

/-! ## What an option leaves -/

theorem length_option (option : Ipv6OptionHeader) :
    option.serialize.length = option.getSerializedSize := by
  cases option with
  | generic type data =>
    simp only [serialize, getSerializedSize, content, UInt8.toNat_ofNat', length_cons]
    omega
  | padn length => simp [serialize, getSerializedSize, content]
  | _ => rfl

def Restored (option : Ipv6OptionHeader) (rest : List UInt8) : Prop :=
  ∀ passed, option.deserialize ⟨passed, option.serialize ++ rest⟩ =
    some (option.content, option.getSerializedSize)

def Short : Ipv6OptionHeader → Prop
  | jumbogram dataLength => dataLength = 0
  | _ => True

theorem restored_iff (option : Ipv6OptionHeader)
    (rest : List UInt8) : Restored option rest ↔ Short option := by
  cases option with
  | jumbogram dataLength =>
    have hword := dataLength.toNat_lt
    have hbytes : toBytes 4 dataLength.toNat = toBytes 2 (dataLength.toNat / 2 ^ 16) ++
        [UInt8.ofNat (dataLength.toNat / 2 ^ 8), UInt8.ofNat dataLength.toNat] := by
      simp [toBytes, Nat.div_div_eq_div_mul]
    have hread : ∀ passed, (jumbogram dataLength).deserialize
        ⟨passed, (jumbogram dataLength).serialize ++ rest⟩ =
          some (⟨0xC2, 4, dataLength.toNat / 2 ^ 16, []⟩, 6) := by
      intro passed
      simp only [Ipv6OptionHeader.deserialize, serialize, hbytes, cons_append, readU8_cons,
        Option.bind_eq_bind, Option.bind_some, append_assoc]
      rw [read_toBytes (by omega)]
      rfl
    constructor
    · intro hrestored
      have hsame := (hread []).symm.trans (hrestored [])
      have hval := congrArg OptionContent.value (Prod.mk.inj (Option.some.inj hsame)).1
      change dataLength.toNat / 2 ^ 16 = dataLength.toNat at hval
      exact UInt32.toNat_inj.mp (show dataLength.toNat = 0 by omega)
    · rintro rfl passed
      exact hread passed
  | generic type data =>
    have hlen : (UInt8.ofNat data.val.length).toNat = data.val.length := by
      rw [UInt8.toNat_ofNat']
      exact Nat.mod_eq_of_lt data.property
    refine iff_of_true (fun passed => ?_) trivial
    simp [Ipv6OptionHeader.deserialize, serialize, content, getSerializedSize, hlen]
  | _ =>
    refine iff_of_true (fun passed => ?_) trivial
    simp [Ipv6OptionHeader.deserialize, serialize, content, getSerializedSize]

/-! ## Padding -/

def IsPadding (bytes : List UInt8) : Prop :=
  bytes = [] ∨ bytes = pad1.serialize ∨ ∃ length, bytes = (padn length).serialize

theorem isPadding_padOptions (pad : Nat) : IsPadding (padOptions pad) := by
  match pad with
  | 0 => exact .inl rfl
  | 1 => exact .inr (.inl rfl)
  | pad + 2 => exact .inr (.inr ⟨_, rfl⟩)

theorem length_padOptions {pad : Nat} (hpad : pad ≤ 8) : (padOptions pad).length = pad := by
  match pad with
  | 0 => rfl
  | 1 => rfl
  | pad + 2 =>
    change ((padnOf (pad + 2)).serialize).length = pad + 2
    rw [length_option, padnOf, getSerializedSize, content, UInt8.toNat_ofNat']
    · omega
    · exact nofun

theorem calculatePad_spec {size : Nat} {alignment : Alignment} (hsz : size + 2 ≤ 2048)
    (hfactor :
      alignment.factor = 1 ∨ alignment.factor = 2 ∨ alignment.factor = 4 ∨ alignment.factor = 8) :
    calculatePad size alignment < alignment.factor ∧
      (2 + size + calculatePad size alignment) % alignment.factor =
        alignment.offset % alignment.factor := by
  rw [calculatePad, uint32_of_lt (by rw [getOptionsOffset]; omega), uint32OfInt, getOptionsOffset]
  rcases hfactor with hone | htwo | hfour | height
  · rw [hone]
    omega
  · rw [htwo]
    omega
  · rw [hfour]
    omega
  · rw [height]
    omega

/-! ## The layout of the options -/

def LaidOut : Nat → List Ipv6OptionHeader → List UInt8 → Prop
  | _, [], bytes => IsPadding bytes
  | place, option :: later, bytes => ∃ gap rest,
    bytes = gap ++ (option.serialize ++ rest) ∧ IsPadding gap ∧
      (place + gap.length) % option.getAlignment.factor = option.getAlignment.offset ∧
      Restored option rest ∧ LaidOut (place + gap.length + option.serialize.length) later rest

theorem short_of_laidOut {options : List Ipv6OptionHeader} {place : Nat} {bytes : List UInt8}
    (hlaid : LaidOut place options bytes) : ∀ option ∈ options, Short option := by
  induction options generalizing place bytes with
  | nil => exact fun _ hmem => nomatch hmem
  | cons option later ih =>
    obtain ⟨_, _, _, _, _, hrestored, hlater⟩ := hlaid
    exact forall_mem_cons.mpr ⟨(restored_iff _ _).mp hrestored, ih hlater⟩

theorem addOption_le (optionData : List UInt8) (options : List Ipv6OptionHeader) :
    optionData.length ≤ (options.foldl addOption optionData).length := by
  induction options generalizing optionData with
  | nil => exact le_rfl
  | cons option later ih =>
    refine le_trans ?_ (ih _)
    simp only [addOption, length_append]
    omega

theorem alignment_cases (option : Ipv6OptionHeader) :
    (option.getAlignment.factor = 1 ∨ option.getAlignment.factor = 2 ∨
      option.getAlignment.factor = 4 ∨ option.getAlignment.factor = 8) ∧
      option.getAlignment.offset % option.getAlignment.factor = option.getAlignment.offset := by
  cases option with
  | jumbogram => exact ⟨.inr (.inr (.inl rfl)), rfl⟩
  | routerAlert => exact ⟨.inr (.inl rfl), rfl⟩
  | _ => exact ⟨.inl rfl, rfl⟩

theorem laidOut_addOptions {options : List Ipv6OptionHeader} {optionData tail : List UInt8}
    (hshort : ∀ option ∈ options, Short option) (htail : IsPadding tail)
    (hfits : 2 + (options.foldl addOption optionData).length ≤ 2048) :
    ∃ added,
      options.foldl addOption optionData = optionData ++ added ∧
        LaidOut (2 + optionData.length) options (added ++ tail) := by
  induction options generalizing optionData with
  | nil => exact ⟨[], (append_nil _).symm, htail⟩
  | cons option later ih =>
    obtain ⟨hhead, hlater⟩ := forall_mem_cons.mp hshort
    have hgrown := le_trans (addOption_le (addOption optionData option) later)
      (Nat.le_of_add_le_add_left (le_trans hfits (by decide : 2048 ≤ 2 + 2046)))
    obtain ⟨added, hadded, hlaid⟩ := @ih (addOption optionData option) hlater hfits
    obtain ⟨hfactor, hoff⟩ := alignment_cases option
    simp only [addOption, length_append] at hgrown
    obtain ⟨hlt, halign⟩ := @calculatePad_spec optionData.length _ (by omega) hfactor
    have hlen := @length_padOptions (calculatePad optionData.length option.getAlignment)
      (by omega)
    rw [addOption, append_assoc] at hadded
    refine ⟨padOptions (calculatePad optionData.length option.getAlignment) ++
      (option.serialize ++ added), by simpa [addOption] using hadded, padOptions (calculatePad
      optionData.length option.getAlignment), added ++ tail, by simp, isPadding_padOptions _, ?_,
      (restored_iff _ _).mpr hhead, ?_⟩
    · rw [hlen, halign, hoff]
    · simpa only [addOption, length_append, add_assoc] using hlaid

/-! ## The header -/

/-- The header is as long as it says, in words of eight bytes, and read as it was, every option at
its place. -/
structure OptionFieldHeader.RoundTrips (header : OptionFieldHeader)
    (options : List Ipv6OptionHeader) : Prop where
  size : header.serialize.length = header.getSerializedSize
  words : header.getSerializedSize % 8 = 0
  bytes : ∀ passed payload : List UInt8, ∃ length,
    deserialize ⟨passed, header.serialize ++ payload⟩ = some
      (⟨header.nextHeader, length, header.optionData ++ header.fill⟩, header.getSerializedSize)
  layout : LaidOut 2 options (header.optionData ++ header.fill)

/-- A header with up to 2048 bytes of options is read back exactly if every jumbogram length is
zero. -/
theorem OptionFieldHeader.addOptions_roundTrips_iff (nextHeader : UInt8)
    {options : List Ipv6OptionHeader}
    (hfits :
      2 + ((⟨nextHeader, 0, []⟩ : OptionFieldHeader).addOptions options).optionData.length ≤ 2048) :
    ((⟨nextHeader, 0, []⟩ : OptionFieldHeader).addOptions options).RoundTrips options ↔
      ∀ option ∈ options, Short option := by
  refine ⟨fun htrips => short_of_laidOut htrips.layout, fun hshort => ?_⟩
  generalize hheader : (⟨nextHeader, 0, []⟩ : OptionFieldHeader).addOptions options = header
    at hfits ⊢
  obtain ⟨hlt, haligned⟩ := @calculatePad_spec header.optionData.length ⟨8, 0⟩ (by omega)
    (.inr (.inr (.inr rfl)))
  dsimp only at hlt haligned
  have hfill : header.fill.length = calculatePad header.optionData.length ⟨8, 0⟩ :=
    length_padOptions (by omega)
  have hdata : (header.optionData ++ header.fill).length + 2 = header.getSerializedSize := by
    rw [List.length_append, hfill, getSerializedSize, Nat.add_comm]
  have hwords : header.getSerializedSize % 8 = 0 := by
    rw [getSerializedSize]
    omega
  have hsz : 8 ≤ header.getSerializedSize ∧ header.getSerializedSize ≤ 2048 := by
    rw [getSerializedSize] at hwords ⊢
    omega
  refine ⟨hdata, hwords, fun passed payload =>
    ⟨UInt8.ofNat (header.getSerializedSize / 8 - 1), ?_⟩, ?_⟩
  · have hcnt : getLength (UInt8.ofNat (header.getSerializedSize / 8 - 1)) - 2 =
        (header.optionData ++ header.fill).length := by
      rw [getLength, UInt8.toNat_ofNat']
      omega
    have hdone : calculatePad (header.optionData ++ header.fill).length ⟨8, 0⟩ = 0 := by
      have hagain := (@calculatePad_spec (header.optionData ++ header.fill).length ⟨8, 0⟩
        (by omega) (.inr (.inr (.inr rfl))))
      dsimp only at hagain
      omega
    have hread : ∀ length : UInt8, (⟨header.nextHeader, length, header.optionData ++ header.fill⟩ :
        OptionFieldHeader).getSerializedSize = header.getSerializedSize := by
      intro length
      rw [← hdata, getSerializedSize, hdone, Nat.add_zero, Nat.add_comm]
    rw [serialize, deserialize]
    simp only [List.cons_append, readU8_cons, Option.bind_eq_bind, Option.bind_some, hcnt,
      next_append, List.take_left]
    exact congrArg (fun size => some (_, size)) (hread _)
  · obtain ⟨added, hadded, hlaid⟩ := @laidOut_addOptions options [] header.fill hshort
      (isPadding_padOptions _) (by rw [← hheader] at hfits; exact hfits)
    have hsame : header.optionData = added := by
      rw [← hheader]
      exact hadded
    rwa [← hsame] at hlaid

theorem OptionFieldHeader.roundTrips_alert :
    ((⟨59, 0, []⟩ : OptionFieldHeader).addOptions
      [routerAlert 7, jumbogram 0, generic 30 ⟨[1, 2, 3], by decide⟩]).RoundTrips
        [routerAlert 7, jumbogram 0, generic 30 ⟨[1, 2, 3], by decide⟩] := by
  refine (addOptions_roundTrips_iff 59 (by decide)).mpr ?_
  rw [List.forall_mem_cons, List.forall_mem_cons, List.forall_mem_singleton]
  exact ⟨trivial, rfl, trivial⟩

/-- The length 1 is read as 0. -/
theorem OptionFieldHeader.not_roundTrips_one :
    ¬ ((⟨59, 0, []⟩ : OptionFieldHeader).addOptions [jumbogram 1]).RoundTrips [jumbogram 1] :=
  fun htrips => absurd (short_of_laidOut htrips.layout _ List.mem_cons_self)
    (show ¬ (1 : UInt32) = 0 by decide)

end HomaSird.Internet
