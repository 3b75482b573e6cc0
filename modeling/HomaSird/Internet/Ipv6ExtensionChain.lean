import HomaSird.Internet.Ipv6Extension
import HomaSird.Transition.Machine

/-! # Chains of extension headers

A well-formed chain as it lies in a packet, and what each `Process` method does at the place of
its header: it reports the header's size and the number of the next one.
-/

namespace HomaSird.Internet

open Ipv6Header Transition Ipv6Option List

/-! ## Reading -/

section Reading

variable {front bytes back : List UInt8} {byte : UInt8}

theorem readU8_drop (packet : List UInt8) (start pos : Nat) :
    readU8 (packet.drop start) pos = readU8 packet (start + pos) := by
  rw [readU8, readU8, getElem?_drop]

variable {packet : List UInt8}

theorem readU8_take {start count pos : Nat} (hlt : pos < count) :
    readU8 ((packet.drop start).take count) pos = readU8 packet (start + pos) := by
  rw [readU8, readU8, getElem?_take_of_lt hlt, getElem?_drop]

theorem readU8_front {pos : Nat}
    (hpos : front.length = pos) : readU8 (front ++ byte :: back) pos = .ok byte := by
  subst hpos
  rw [readU8, getElem?_append_right (Nat.le_refl _), Nat.sub_self]
  rfl

theorem readU8_eq_ok {pos : Nat} :
    readU8 packet pos = .ok byte ↔ packet[pos]? = some byte := by
  rw [readU8]
  cases packet[pos]? with
  | none => simp
  | some other => simp

theorem readBytes_ok {pos count : Nat} (hlen : pos + count ≤ packet.length) :
    readBytes packet pos count = .ok ((packet.drop pos).take count) :=
  if_pos hlen

end Reading

/-! ## Chains -/

inductive OptionField where
  | pad1
  | typed (optionType : UInt8) (data : List UInt8)

namespace OptionField

def encode : OptionField → List UInt8
  | pad1 => [0]
  | typed optionType data => optionType :: UInt8.ofNat data.length :: data

/-- The node accepts an option whose type says to skip it, if it has the two bytes that are read of
a Jumbogram and a Router Alert. -/
def Accepted : OptionField → Prop
  | pad1 => True
  | typed optionType data => optionType ≠ 0 ∧ optionType >>> 6 = 0 ∧ data.length ≤ 255 ∧
      (optionType = 44 ∨ optionType = 43 → 2 ≤ data.length)

theorem encode_pos (option : OptionField) : 0 < option.encode.length := by
  cases option with
  | pad1 => exact Nat.one_pos
  | typed => exact Nat.succ_pos _

end OptionField

inductive ExtensionHeader where
  | hopByHop (options : List OptionField)
  | destination (options : List OptionField)
  | routing (reserved addresses : List UInt8)

namespace ExtensionHeader

def number : ExtensionHeader → UInt8
  | hopByHop _ => IPV6_EXT_HOP_BY_HOP
  | destination _ => IPV6_EXT_DESTINATION
  | routing _ _ => IPV6_EXT_ROUTING

def encodeOptions (options : List OptionField) : List UInt8 := options.flatMap OptionField.encode

def encodeOptionsHeader (nextHeader : UInt8) (options : List OptionField) : List UInt8 :=
  nextHeader :: UInt8.ofNat ((2 + (encodeOptions options).length) / 8 - 1) :: encodeOptions options

/-- A header in front of one of a number; a routing header is of type 0 with no segments left. -/
def encode (nextHeader : UInt8) : ExtensionHeader → List UInt8
  | hopByHop options => encodeOptionsHeader nextHeader options
  | destination options => encodeOptionsHeader nextHeader options
  | routing reserved addresses =>
    [nextHeader, UInt8.ofNat (addresses.length / 8), 0, 0] ++ reserved ++ addresses

def size : ExtensionHeader → Nat
  | hopByHop options => 2 + (encodeOptions options).length
  | destination options => 2 + (encodeOptions options).length
  | routing reserved addresses => 4 + reserved.length + addresses.length

def WellFormedOptions (options : List OptionField) : Prop :=
  (∀ option ∈ options, option.Accepted) ∧ (2 + (encodeOptions options).length) % 8 = 0 ∧
    2 + (encodeOptions options).length ≤ 2048

def WellFormed : ExtensionHeader → Prop
  | hopByHop options => WellFormedOptions options
  | destination options => WellFormedOptions options
  | routing reserved addresses => reserved.length = 4 ∧ addresses.length % 16 = 0 ∧
      addresses.length ≤ 127 * 16

@[simp] theorem encode_length (nextHeader : UInt8)
    (extension : ExtensionHeader) : (extension.encode nextHeader).length = extension.size := by
  cases extension with
  | hopByHop options =>
    simp only [encode, encodeOptionsHeader, size, length_cons]
    omega
  | destination options =>
    simp only [encode, encodeOptionsHeader, size, length_cons]
    omega
  | routing reserved addresses =>
    simp only [encode, size, length_append, length_cons, length_nil]

end ExtensionHeader

open ExtensionHeader

def firstHeader (chain : List ExtensionHeader) (upper : UInt8) : UInt8 :=
  match chain with
  | [] => upper
  | extension :: _ => extension.number

def encodeChain : List ExtensionHeader → UInt8 → List UInt8
  | [], _ => []
  | extension :: rest, upper => extension.encode (firstHeader rest upper) ++ encodeChain rest upper

structure WellFormedChain (chain : List ExtensionHeader) : Prop where
  headers : ∀ extension ∈ chain, extension.WellFormed
  leading : ∀ extension ∈ chain.tail, extension.number ≠ IPV6_EXT_HOP_BY_HOP

/-! ## Options -/

section Options

variable {packet front back : List UInt8} {offset processedSize : UInt8} {header : Ipv6Header}
  {flags : Ipv6Flags} {place : Nat}

theorem ofNat_toNat {size : Nat} (hsz : size < 256) : (UInt8.ofNat size).toNat = size := by
  rw [UInt8.toNat_ofNat']
  exact Nat.mod_eq_of_lt hsz

theorem toNat_add {first second : UInt8} (hfits : first.toNat + second.toNat < 256) :
    (first + second).toNat = first.toNat + second.toNat := by
  rw [UInt8.toNat_add]
  exact Nat.mod_eq_of_lt hfits

theorem getOption_cases (optionType : UInt8) :
    (optionType = 0 ∧ getOption optionType = some .pad1) ∨
      (optionType = 60 ∧ getOption optionType = some .padn) ∨
      (optionType = 44 ∧ getOption optionType = some .jumbogram) ∨
      (optionType = 43 ∧ getOption optionType = some .routerAlert) ∨
      getOption optionType = none := by
  by_cases hpad1 : optionType = 0
  · exact .inl ⟨hpad1, hpad1 ▸ rfl⟩
  · by_cases hpadn : optionType = 60
    · exact .inr (.inl ⟨hpadn, hpadn ▸ rfl⟩)
    · by_cases hjumbogram : optionType = 44
      · exact .inr (.inr (.inl ⟨hjumbogram, hjumbogram ▸ rfl⟩))
      · by_cases hrouterAlert : optionType = 43
        · exact .inr (.inr (.inr (.inl ⟨hrouterAlert, hrouterAlert ▸ rfl⟩)))
        · refine .inr (.inr (.inr (.inr ?_)))
          simp only [getOption, getOptionNumber, find?_eq_none,
            mem_cons, mem_nil_iff, or_false, forall_eq_or_imp, forall_eq, beq_iff_eq]
          exact ⟨Ne.symm hpad1, Ne.symm hpadn, Ne.symm hjumbogram, Ne.symm hrouterAlert⟩

def optionSize : List UInt8 → Nat
  | type :: length :: _ => if type = 0 then 1 else length.toNat + 2
  | _ => 1

def Dropping : List UInt8 → Prop
  | [] => False
  | type :: _ => Ipv6Option.getOption type = none ∧ type >>> 6 ≠ 0

/-- The bytes read of an option lie in the packet, and those of a registered one start within the
first 256. -/
def Readable (start : Nat) : List UInt8 → Prop
  | [] => False
  | type :: tail =>
    match Ipv6Option.getOption type with
    | some option => start < 256 ∧ option.deserializedSize ≤ tail.length + 1
    | none => 1 ≤ tail.length

def OptionField.Formed : OptionField → Prop
  | pad1 => True
  | typed optionType data => optionType ≠ 0 ∧ data.length ≤ 255

variable {option : OptionField}

theorem optionSize_encode (hformed : option.Formed)
    (rest : List UInt8) : optionSize (option.encode ++ rest) = option.encode.length := by
  cases option with
  | pad1 =>
    cases rest with
    | nil => rfl
    | cons byte rest => rfl
  | typed optionType data =>
    change (if optionType = 0 then 1 else (UInt8.ofNat data.length).toNat + 2) = data.length + 2
    rw [if_neg hformed.1, ofNat_toNat (Nat.lt_succ_of_le hformed.2)]

theorem OptionField.Accepted.formed (hacc : option.Accepted) : option.Formed := by
  cases option with
  | pad1 => trivial
  | typed => exact ⟨hacc.1, hacc.2.2.1⟩

theorem process_typed {option : Ipv6Option} {length : UInt8} (hoption : option ≠ .pad1)
    (hlen : readU8 packet (offset.toNat + 1) = .ok length) (hroom : offset.toNat +
    option.deserializedSize ≤ packet.length) : option.process packet offset = .ok (length + 2) := by
  have hlong : 1 < option.deserializedSize := by
    cases option with
    | pad1 => exact absurd rfl hoption
    | padn => decide
    | jumbogram => decide
    | routerAlert => decide
  have hbyte : readU8 ((packet.drop offset.toNat).take option.deserializedSize) 1 = .ok length := by
    rw [readU8_take hlong, hlen]
  cases option with
  | pad1 => exact absurd rfl hoption
  | padn => exact bind_eq_ok.mpr ⟨_, readBytes_ok hroom, bind_eq_ok.mpr ⟨length, hbyte, rfl⟩⟩
  | jumbogram => exact bind_eq_ok.mpr ⟨_, readBytes_ok hroom, bind_eq_ok.mpr ⟨length, hbyte, rfl⟩⟩
  | routerAlert => exact bind_eq_ok.mpr ⟨_, readBytes_ok hroom, bind_eq_ok.mpr ⟨length, hbyte, rfl⟩⟩

theorem readU8_of_drop {start : Nat} {bytes : List UInt8} (hbytes : packet.drop start = bytes)
    (pos : Nat) : readU8 packet (start + pos) = readU8 bytes pos := by
  rw [← hbytes, readU8_drop]

theorem processOption_reads (hplace : place < 256) (hflags : flags.isDropped = false)
    (hdropping : ¬ Dropping (packet.drop (offset.toNat + place)))
    (hreadable : Readable (offset.toNat + place) (packet.drop (offset.toNat + place))) :
    processOption packet offset header (UInt8.ofNat place) flags =
      .ok (UInt8.ofNat (optionSize (packet.drop (offset.toNat + place))), flags, []) := by
  have hpos : (UInt8.ofNat place).toNat = place := ofNat_toNat hplace
  generalize hbytes : packet.drop (offset.toNat + place) = bytes at hdropping hreadable ⊢
  cases bytes with
  | nil => exact hreadable.elim
  | cons type tail =>
    have hlen := congrArg length hbytes
    rw [length_drop, length_cons] at hlen
    have hkept : { flags with isDropped := false } = flags := by rw [← hflags]
    have hread : readU8 (packet.drop offset.toNat) (UInt8.ofNat place).toNat = .ok type := by
      rw [hpos, readU8_drop]
      exact readU8_of_drop hbytes 0
    have htyped : ∀ length rest, type ≠ 0 → tail = length :: rest →
        UInt8.ofNat (optionSize (type :: tail)) = length + 2 := by
      rintro length rest hne rfl
      rw [optionSize, if_neg hne, UInt8.ofNat_add, UInt8.ofNat_toNat]
      rfl
    refine bind_eq_ok.mpr ⟨type, hread, ?_⟩
    cases hoption : getOption type with
    | none =>
      have hne : type ≠ 0 := by
        rintro rfl
        exact absurd hoption (by decide)
      have hskip : type >>> 6 = 0 := by
        by_contra hdrop
        exact hdropping ⟨hoption, hdrop⟩
      simp only [Readable, hoption] at hreadable
      cases tail with
      | nil => exact absurd hreadable (by decide)
      | cons length rest =>
        change unknownOption _ _ _ _ _ _ = _
        rw [unknownOption, if_pos hskip, htyped length rest hne rfl]
        refine bind_eq_ok.mpr ⟨length, ?_, rfl⟩
        rw [hpos, readU8_drop, ← Nat.add_assoc]
        exact readU8_of_drop hbytes 1
    | some option =>
      simp only [Readable, hoption] at hreadable
      have hsum : (offset + UInt8.ofNat place).toNat = offset.toNat + place := by
        rw [toNat_add (by omega), hpos]
      have hroom : (offset + UInt8.ofNat place).toNat + option.deserializedSize ≤
          packet.length := by
        rw [hsum]
        omega
      refine bind_eq_ok.mpr ⟨UInt8.ofNat (optionSize (type :: tail)), ?_, by rw [hkept]; rfl⟩
      by_cases hpad1 : option = .pad1
      · subst hpad1
        have hzero : type = 0 := by
          rcases getOption_cases type with ⟨hzero, -⟩ | ⟨-, hother⟩ | ⟨-, hother⟩ | ⟨-, hother⟩ |
            hother
          · exact hzero
          all_goals exact absurd (hoption.symm.trans hother) (by decide)
        have hsz : optionSize (type :: tail) = 1 := by
          rw [hzero]
          cases tail with
          | nil => rfl
          | cons => rfl
        rw [hsz]
        exact bind_eq_ok.mpr ⟨_, readBytes_ok hroom, rfl⟩
      · have hne : type ≠ 0 := by
          rintro rfl
          exact hpad1 (Option.some.inj hoption).symm
        have hlong : 2 ≤ option.deserializedSize := by
          cases option with
          | pad1 => exact absurd rfl hpad1
          | padn => decide
          | jumbogram => decide
          | routerAlert => decide
        cases tail with
        | nil => exact absurd (Nat.le_trans hlong hreadable.2) (by decide)
        | cons length rest =>
          rw [htyped length rest hne rfl]
          refine process_typed hpad1 ?_ hroom
          rw [hsum]
          exact readU8_of_drop hbytes 1

theorem processOption_eq (hacc : option.Accepted) (hpkt : packet = front ++ (option.encode ++ back))
    (hpos : front.length = offset.toNat + processedSize.toNat)
    (hfits : front.length + option.encode.length < 256) :
    processOption packet offset header processedSize {} =
      .ok (UInt8.ofNat option.encode.length, {}, []) := by
  have hbytes : packet.drop (offset.toNat + processedSize.toNat) = option.encode ++ back := by
    rw [hpkt, ← hpos, drop_left]
  have hreads := @processOption_reads packet offset header {} processedSize.toNat
    processedSize.toNat_lt rfl
  rw [hbytes, optionSize_encode hacc.formed, UInt8.ofNat_toNat] at hreads
  cases option with
  | pad1 =>
    exact hreads (fun hdrop => absurd hdrop.1 (by decide)) ⟨by omega, Nat.le_add_left _ _⟩
  | typed optionType data =>
    obtain ⟨-, hskip, -, hlong⟩ := hacc
    refine hreads (fun hdrop => hdrop.2 hskip) ?_
    simp only [OptionField.encode, cons_append, Readable]
    rcases getOption_cases optionType with ⟨-, hknown⟩ | ⟨-, hknown⟩ | ⟨hjumbogram, hknown⟩ |
      ⟨hrouterAlert, hknown⟩ | hunk
    · rw [hknown]
      exact ⟨by omega, Nat.le_add_left _ _⟩
    · rw [hknown]
      exact ⟨by omega, Nat.le_add_left _ _⟩
    · rw [hknown]
      have hdata := hlong (.inl hjumbogram)
      simp only [deserializedSize, length_cons, length_append]
      omega
    · rw [hknown]
      have hdata := hlong (.inr hrouterAlert)
      simp only [deserializedSize, length_cons, length_append]
      omega
    · rw [hunk]
      exact Nat.le_add_left _ _

theorem processOptions_eq {options : List OptionField} (hacc : ∀ option ∈ options, option.Accepted)
    (hpkt : packet = front ++ (encodeOptions options ++ back))
    (hposition : front.length = offset.toNat + processedSize.toNat)
    (hfits : front.length + (encodeOptions options).length < 256) {fuel : Nat}
    (hfuel : options.length < fuel) :
    processOptions packet offset
      (UInt8.ofNat (processedSize.toNat + (encodeOptions options).length)) header fuel processedSize
      {} = .ok (UInt8.ofNat (processedSize.toNat + (encodeOptions options).length), {}, []) := by
  induction options generalizing front processedSize fuel with
  | nil =>
    cases fuel with
    | zero => exact absurd hfuel (Nat.not_lt_zero _)
    | succ fuel =>
      have hsame : UInt8.ofNat (processedSize.toNat + (encodeOptions []).length) =
          processedSize := UInt8.ofNat_toNat
      rw [hsame, processOptions, if_neg fun hmore => absurd hmore.1 (UInt8.lt_irrefl _)]
  | cons option rest ih =>
    cases fuel with
    | zero => exact absurd hfuel (Nat.not_lt_zero _)
    | succ fuel =>
      have hencode : encodeOptions (option :: rest) =
          option.encode ++ encodeOptions rest := flatMap_cons
      have hpos := option.encode_pos
      rw [hencode, length_append] at hfits ⊢
      rw [hencode, append_assoc] at hpkt
      have hadd : (processedSize + UInt8.ofNat option.encode.length).toNat =
          processedSize.toNat + option.encode.length := by
        rw [toNat_add (by rw [ofNat_toNat (by omega)]; omega), ofNat_toNat (by omega)]
      have hmore : UInt8.ofNat (processedSize.toNat + (option.encode.length +
          (encodeOptions rest).length)) > processedSize := by
        rw [gt_iff_lt, UInt8.lt_iff_toNat_lt, ofNat_toNat (by omega)]
        omega
      rw [processOptions, if_pos ⟨hmore, rfl⟩]
      have hlater := @ih (front ++ option.encode)
        (processedSize + UInt8.ofNat option.encode.length)
        (fun other hmem => hacc other (.tail _ hmem))
        (by rw [hpkt, append_assoc]) (by rw [length_append, hadd]; omega)
        (by rw [length_append]; omega) fuel (Nat.lt_of_succ_lt_succ hfuel)
      rw [hadd, Nat.add_assoc] at hlater
      exact bind_eq_ok.mpr ⟨_, processOption_eq (hacc option mem_cons_self) hpkt
        hposition (by omega), bind_eq_ok.mpr ⟨_, hlater, rfl⟩⟩

theorem length_le_encodeOptions (options : List OptionField) :
    options.length ≤ (encodeOptions options).length := by
  induction options with
  | nil => exact Nat.le_refl _
  | cons option rest ih =>
    have hpos := option.encode_pos
    rw [encodeOptions, flatMap_cons, length_append, length_cons]
    rw [encodeOptions] at ih
    omega

theorem processOptionsHeader_eq {options : List OptionField} {nextHeader : UInt8}
    (hwf : WellFormedOptions options)
    (hpkt : packet = front ++ (encodeOptionsHeader nextHeader options ++ back))
    (hpos : front.length = offset.toNat)
    (hfits : front.length + (2 + (encodeOptions options).length) < 256) {fuel : Nat}
    (hfuel : (encodeOptions options).length < fuel) :
    processOptionsHeader fuel packet offset header {} =
      .ok ⟨UInt8.ofNat (2 + (encodeOptions options).length), nextHeader, packet, {}, []⟩ := by
  obtain ⟨hacc, halign, hlegal⟩ := hwf
  have hlist : packet = (front ++ [nextHeader, UInt8.ofNat
      ((2 + (encodeOptions options).length) / 8 - 1)]) ++ (encodeOptions options ++ back) := by
    rw [hpkt, append_assoc]
    rfl
  have hlengthByte : getLength (UInt8.ofNat ((2 + (encodeOptions options).length) / 8 - 1)) =
      2 + (encodeOptions options).length := by
    rw [getLength, ofNat_toNat (by omega)]
    omega
  have hnext : readU8 packet front.length = .ok nextHeader := by
    rw [hpkt]
    exact readU8_front rfl
  have hbyte : readU8 packet (front.length + 1) =
      .ok (UInt8.ofNat ((2 + (encodeOptions options).length) / 8 - 1)) := by
    rw [readU8_eq_ok, hpkt, getElem?_append_right (Nat.le_add_right _ _),
      Nat.add_sub_cancel_left]
    rfl
  have hroom : getOptionsOffset + (getLength (UInt8.ofNat
      ((2 + (encodeOptions options).length) / 8 - 1)) - 2) ≤
        (packet.drop offset.toNat).length := by
    rw [hlengthByte, length_drop, hlist, ← hpos]
    simp only [length_append, length_cons, length_nil, getOptionsOffset]
    omega
  have hoff : (offset + UInt8.ofNat getOptionsOffset).toNat = offset.toNat + 2 :=
    toNat_add (show offset.toNat + 2 < 256 by omega)
  have hopts := @processOptions_eq packet _ back (offset + UInt8.ofNat getOptionsOffset) 0
    header options hacc hlist (by rw [hoff, length_append, hpos]; rfl)
    (by simp only [length_append, length_cons, length_nil]; omega) fuel
    (Nat.lt_of_le_of_lt (length_le_encodeOptions options) hfuel)
  rw [show (0 : UInt8).toNat = 0 from rfl, Nat.zero_add] at hopts
  refine bind_eq_ok.mpr ⟨nextHeader, ?_, bind_eq_ok.mpr ⟨_, ?_, bind_eq_ok.mpr
    ⟨_, readBytes_ok hroom, bind_eq_ok.mpr
      ⟨(UInt8.ofNat (encodeOptions options).length, {}, []), ?_, ?_⟩⟩⟩⟩
  · rw [readU8_drop, ← hpos, Nat.add_zero, hnext]
  · rw [readU8_drop, ← hpos, hbyte]
  · rw [hlengthByte, getOptionsOffset, Nat.add_sub_cancel_left]
    exact hopts
  · exact congrArg (fun step => Except.ok (Processed.mk step nextHeader packet {} []))
      (UInt8.ofNat_add _ _).symm

end Options

/-! ## Routing headers -/

section Routing

variable {packet front back reserved addresses : List UInt8} {offset nextHeader : UInt8}
  {header : Ipv6Header} {node : Ipv6Node}

theorem readAddresses_ok {p : List UInt8} {pos count : Nat} (hroom : pos + 16 * count ≤ p.length) :
    ∃ routers,
      LooseRoutingHeader.readAddresses p pos count = .ok routers ∧ routers.length = count := by
  induction count generalizing pos with
  | zero => exact ⟨[], rfl, rfl⟩
  | succ count ih =>
    obtain ⟨later, hlater, hlen⟩ := @ih (pos + 16) (by omega)
    exact ⟨_, bind_eq_ok.mpr ⟨_, readBytes_ok (by omega), bind_eq_ok.mpr ⟨later, hlater, rfl⟩⟩,
      congrArg (· + 1) hlen⟩

section

variable (hwf : (routing reserved addresses).WellFormed)
  (hpkt : packet = front ++ ((routing reserved addresses).encode nextHeader ++ back))
include hwf hpkt

theorem processLooseRouting_eq (hpos : front.length = offset.toNat) (number : UInt8) :
    processLooseRouting node packet offset header number {} =
      .ok ⟨UInt8.ofNat (routing reserved addresses).size, number, packet, {}, []⟩ := by
  obtain ⟨hreserved, halign, hlegal⟩ := hwf
  have hdrop : packet.drop offset.toNat =
      (routing reserved addresses).encode nextHeader ++ back := by
    rw [hpkt, ← hpos, drop_left]
  have hlengthByte : (UInt8.ofNat (addresses.length / 8) / 2).toNat = addresses.length / 16 := by
    rw [UInt8.toNat_div, ofNat_toNat (by omega), show (2 : UInt8).toNat = 2 from rfl,
      Nat.div_div_eq_div_mul]
  have hlen : ((routing reserved addresses).encode nextHeader ++ back).length =
      8 + addresses.length + back.length := by
    rw [length_append, encode_length, size, hreserved]
  obtain ⟨routers, hrouters, hcnt⟩ := @readAddresses_ok
    ((routing reserved addresses).encode nextHeader ++ back) 8 (addresses.length / 16) (by omega)
  have hdeserialize : LooseRoutingHeader.deserialize (packet.drop offset.toNat) =
      .ok ⟨nextHeader, UInt8.ofNat (addresses.length / 8), 0, 0, routers⟩ := by
    rw [hdrop]
    refine bind_eq_ok.mpr ⟨_, rfl, bind_eq_ok.mpr ⟨_, rfl, bind_eq_ok.mpr ⟨_, rfl,
      bind_eq_ok.mpr ⟨_, rfl, bind_eq_ok.mpr ⟨_, readBytes_ok (by omega),
        bind_eq_ok.mpr ⟨routers, ?_, rfl⟩⟩⟩⟩⟩⟩
    rw [hlengthByte]
    exact hrouters
  have hstep : (LooseRoutingHeader.mk nextHeader (UInt8.ofNat (addresses.length / 8)) 0 0
      routers).getSerializedSize = (routing reserved addresses).size := by
    rw [LooseRoutingHeader.getSerializedSize, hcnt, size, hreserved]
    omega
  refine bind_eq_ok.mpr ⟨_, hdeserialize, ?_⟩
  rw [hstep]
  rfl

theorem processRouting_eq (hpos : front.length = offset.toNat) {next length type left : UInt8}
    {after : List UInt8} (hstart : packet = next :: length :: type :: left :: after) :
    processRouting node packet offset header {} =
      if type = TYPE_ROUTING then
        .ok ⟨UInt8.ofNat (routing reserved addresses).size, next, packet, {}, []⟩
      else if left = 0 then
          .ok ⟨length, next, packet, {}, []⟩
        else .ok ⟨length, next, packet, ⟨true, true, some .malformedHeader⟩,
              [.sendErrorParameterError header.sourceAddress .malformedHeader
                (offset.toNat + 1)]⟩ := by
  have hloose := @processLooseRouting_eq packet front back reserved addresses offset nextHeader
    header node hwf hpkt hpos next
  have hread : processRouting node packet offset header {} =
      if type = TYPE_ROUTING then processLooseRouting node packet offset header next {}
      else if left = 0 then .ok ⟨length, next, packet, {}, []⟩
      else .ok ⟨length, next, packet, ⟨true, true, some .malformedHeader⟩,
        [.sendErrorParameterError header.sourceAddress .malformedHeader (offset.toNat + 1)]⟩ := by
    rw [hstart]
    rfl
  rw [hread, hloose]

end

end Routing

end HomaSird.Internet
