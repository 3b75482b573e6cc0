import HomaSird.Internet.Ipv6Fragmentation

/-! # The sizes of IPv6 fragments

The headers that are taken off a packet can be told from its bytes: their sizes, and what they
are counted as. A fragment is as long as its headers and its piece, and no piece is longer than
what the count leaves.
-/

namespace HomaSird.Internet

open Ipv6Header Transition List OptionsHeader

/-! ## Headers that were read -/

def OptionsHeader.Complete (header : OptionsHeader) : Prop :=
  header.optionData.length + 2 = getLength header.length

structure LooseRoutingHeader.Complete (header : LooseRoutingHeader) : Prop where
  count : header.routersAddress.length = (header.length / 2).toNat
  address : ∀ address ∈ header.routersAddress, address.length = 16

namespace UnfragmentableHeader

def Complete : UnfragmentableHeader → Prop
  | hopByHop header => header.Complete
  | routing header => header.Complete
  | destination header => header.Complete

end UnfragmentableHeader

section Reading

variable {p : List UInt8} {nextHeader : UInt8} {pos count : Nat}
  {header : UnfragmentableHeader}

theorem readBytes_eq_ok {bytes : List UInt8} :
    readBytes p pos count = .ok bytes ↔
      pos + count ≤ p.length ∧ bytes = (p.drop pos).take count := by
  rw [readBytes]
  split
  next hroom => exact ⟨fun hok => ⟨hroom, (Except.ok.inj hok).symm⟩, fun h => by rw [h.2]⟩
  next hroom => exact ⟨fun hok => (nomatch hok), fun h => absurd h.1 hroom⟩

theorem length_of_readBytes {bytes : List UInt8}
    (hread : readBytes p pos count = .ok bytes) : bytes.length = count := by
  obtain ⟨hroom, rfl⟩ := readBytes_eq_ok.mp hread
  rw [length_take, length_drop]
  omega

theorem readAddresses_spec {routers : List Ipv6Address}
    (hread : LooseRoutingHeader.readAddresses p pos count = .ok routers) :
    routers.length = count ∧ (∀ address ∈ routers, address.length = 16) ∧
      (0 < count → pos + 16 * count ≤ p.length) := by
  induction count generalizing pos routers with
  | zero =>
    cases hread
    exact ⟨rfl, fun _ hmem => absurd hmem not_mem_nil, fun h => absurd h (Nat.lt_irrefl 0)⟩
  | succ count ih =>
    obtain ⟨address, haddr, hrest⟩ := bind_eq_ok.mp hread
    obtain ⟨later, hlater, hdone⟩ := bind_eq_ok.mp hrest
    cases hdone
    obtain ⟨hcnt, hlengths, hroom⟩ := ih hlater
    obtain ⟨hfst, -⟩ := readBytes_eq_ok.mp haddr
    refine ⟨congrArg (· + 1) hcnt,
      forall_mem_cons.mpr ⟨length_of_readBytes haddr, hlengths⟩, fun _ => ?_⟩
    rcases Nat.eq_zero_or_pos count with rfl | hpos
    · exact hfst
    · have hall := hroom hpos
      omega

structure HeaderLength where
  number : UInt8
  length : UInt8
deriving DecidableEq

namespace HeaderLength

def size (header : HeaderLength) : Nat :=
  if header.number = IPV6_EXT_ROUTING then 8 + (header.length / 2).toNat * 16
  else getLength header.length

def counted (header : HeaderLength) : Nat := (UInt8.ofNat (getLength header.length)).toNat

theorem aligned (header : HeaderLength) : header.size % 8 = 0 ∧ header.counted % 8 = 0 := by
  constructor
  · rw [size]
    split
    · omega
    · exact Nat.mul_mod_left _ _
  · rw [counted, UInt8.toNat_ofNat', getLength]
    omega

end HeaderLength

theorem calculatePad_of_complete {header : OptionsHeader}
    (hfull : header.Complete) : header.calculatePad = 0 := by
  have hlen : header.optionData.length + 2 = (header.length.toNat + 1) * 8 := hfull
  rw [OptionsHeader.calculatePad, uint32OfInt, getOptionsOffset]
  omega

theorem size_of_complete {header : OptionsHeader}
    (hfull : header.Complete) : header.getSerializedSize = getLength header.length := by
  rw [OptionsHeader.getSerializedSize, calculatePad_of_complete hfull, Nat.add_zero, Nat.add_comm]
  exact hfull

theorem length_flatten {routers : List Ipv6Address} (haddr :
    ∀ address ∈ routers, address.length = 16) : (routers.flatten).length = routers.length * 16 := by
  induction routers with
  | nil => rfl
  | cons address rest ih =>
    obtain ⟨hfst, hrest⟩ := forall_mem_cons.mp haddr
    rw [flatten_cons, length_append, hfst, ih hrest, length_cons]
    omega

theorem length_serialize (hfull : header.Complete) :
    header.serialize.length = header.getSerializedSize := by
  have hopts : ∀ {options : OptionsHeader}, options.Complete →
      options.serialize.length = options.getSerializedSize := by
    intro options hopts
    rw [OptionsHeader.serialize, OptionsHeader.getSerializedSize, calculatePad_of_complete hopts]
    simp only [length_append, length_cons, length_nil, OptionsHeader.fill]
    omega
  cases header with
  | hopByHop options => exact hopts hfull
  | destination options => exact hopts hfull
  | routing header =>
    change (header.serialize).length = header.getSerializedSize
    rw [LooseRoutingHeader.serialize, LooseRoutingHeader.getSerializedSize, length_append,
      length_flatten hfull.address]
    rfl

theorem complete_setNextHeader (hfull : header.Complete) (number : UInt8) :
    (header.setNextHeader number).Complete ∧
      (header.setNextHeader number).getSerializedSize = header.getSerializedSize := by
  cases header with
  | hopByHop options => exact ⟨hfull, rfl⟩
  | destination options => exact ⟨hfull, rfl⟩
  | routing header => exact ⟨⟨hfull.count, hfull.address⟩, rfl⟩

structure ReadAs (nextHeader : UInt8) (p : List UInt8) (header : UnfragmentableHeader)
    (length : UInt8) : Prop where
  next : p[0]? = some header.getNextHeader
  byte : p[1]? = some length
  counted : header.getLength = getLength length
  size : header.getSerializedSize = HeaderLength.size ⟨nextHeader, length⟩
  room : header.getSerializedSize ≤ p.length
  complete : header.Complete

theorem readAs_options {header : OptionsHeader} (hread : deserialize p = .ok header) :
    p[0]? = some header.nextHeader ∧ p[1]? = some header.length ∧ header.Complete ∧
      header.getSerializedSize ≤ p.length := by
  obtain ⟨next, hnext, hrest⟩ := bind_eq_ok.mp hread
  obtain ⟨length, hlen, hrest⟩ := bind_eq_ok.mp hrest
  obtain ⟨data, hdata, hdone⟩ := bind_eq_ok.mp hrest
  cases hdone
  have hpos : 8 ≤ getLength length := by
    rw [getLength]
    omega
  have hfull : OptionsHeader.Complete ⟨next, length, data⟩ := by
    rw [OptionsHeader.Complete, length_of_readBytes hdata]
    exact Nat.sub_add_cancel (Nat.le_trans (by decide) hpos)
  obtain ⟨hroom, -⟩ := readBytes_eq_ok.mp hdata
  exact ⟨readU8_eq_ok.mp hnext, readU8_eq_ok.mp hlen, hfull, by
    rw [size_of_complete hfull]
    change getLength length ≤ _
    omega⟩

theorem readAs_routing {header : LooseRoutingHeader}
    (hread : LooseRoutingHeader.deserialize p = .ok header) :
    p[0]? = some header.nextHeader ∧ p[1]? = some header.length ∧ header.Complete ∧
      header.getSerializedSize ≤ p.length := by
  obtain ⟨next, hnext, hrest⟩ := bind_eq_ok.mp hread
  obtain ⟨length, hlen, hrest⟩ := bind_eq_ok.mp hrest
  obtain ⟨type, -, hrest⟩ := bind_eq_ok.mp hrest
  obtain ⟨left, -, hrest⟩ := bind_eq_ok.mp hrest
  obtain ⟨reserved, hreserved, hrest⟩ := bind_eq_ok.mp hrest
  obtain ⟨routers, hrouters, hdone⟩ := bind_eq_ok.mp hrest
  cases hdone
  obtain ⟨hcnt, haddr, hroom⟩ := readAddresses_spec hrouters
  obtain ⟨hfst, -⟩ := readBytes_eq_ok.mp hreserved
  refine ⟨readU8_eq_ok.mp hnext, readU8_eq_ok.mp hlen, ⟨hcnt, haddr⟩, ?_⟩
  change 8 + routers.length * 16 ≤ p.length
  rcases Nat.eq_zero_or_pos (length / 2).toNat with hzero | hpos
  · omega
  · have hall := hroom hpos
    omega

theorem readAs_of_deserialize (hread : UnfragmentableHeader.deserialize nextHeader p = .ok header) :
    ∃ length, ReadAs nextHeader p header length := by
  rw [UnfragmentableHeader.deserialize] at hread
  split at hread
  next hhop =>
    obtain ⟨options, hopts, hdone⟩ := bind_eq_ok.mp hread
    cases hdone
    obtain ⟨hnext, hlen, hfull, hroom⟩ := readAs_options hopts
    refine ⟨options.length, hnext, hlen, rfl, ?_, hroom, hfull⟩
    subst hhop
    exact size_of_complete hfull
  next hhop =>
    split at hread
    next hroute =>
      obtain ⟨routing, hok, hdone⟩ := bind_eq_ok.mp hread
      cases hdone
      obtain ⟨hnext, hlen, hfull, hroom⟩ := readAs_routing hok
      refine ⟨routing.length, hnext, hlen, rfl, ?_, hroom, hfull⟩
      rw [HeaderLength.size, if_pos hroute]
      exact congrArg (fun count => 8 + count * 16) hfull.count
    next hroute =>
      obtain ⟨options, hopts, hdone⟩ := bind_eq_ok.mp hread
      cases hdone
      obtain ⟨hnext, hlen, hfull, hroom⟩ := readAs_options hopts
      refine ⟨options.length, hnext, hlen, rfl, ?_, hroom, hfull⟩
      rw [HeaderLength.size, if_neg hroute]
      exact size_of_complete hfull

theorem deserialize_ok {next length : UInt8} (hnext : p[0]? = some next)
    (hlen : p[1]? = some length) (hroom : HeaderLength.size ⟨nextHeader, length⟩ ≤ p.length) :
    ∃ header, UnfragmentableHeader.deserialize nextHeader p = .ok header := by
  rw [HeaderLength.size] at hroom
  have hopts : getLength length ≤ p.length →
      deserialize p = .ok ⟨next, length, (p.drop 2).take (getLength length - 2)⟩ := by
    intro hall
    have hpos : 8 ≤ getLength length := by
      rw [getLength]
      omega
    exact bind_eq_ok.mpr ⟨next, readU8_eq_ok.mpr hnext, bind_eq_ok.mpr
      ⟨length, readU8_eq_ok.mpr hlen, bind_eq_ok.mpr ⟨_, readBytes_ok (by omega), rfl⟩⟩⟩
  rw [UnfragmentableHeader.deserialize]
  split
  next hhop =>
    rw [if_neg fun hroute => absurd (hhop.symm.trans hroute) (by decide)] at hroom
    exact ⟨_, bind_eq_ok.mpr ⟨_, hopts hroom, rfl⟩⟩
  · split
    next hroute =>
      rw [if_pos hroute] at hroom
      dsimp only at hroom
      obtain ⟨routers, hrouters, -⟩ := @readAddresses_ok p 8 (length / 2).toNat (by omega)
      obtain ⟨type, htype⟩ : ∃ type, p[2]? = some type :=
        ⟨_, getElem?_eq_getElem (show 2 < p.length by omega)⟩
      obtain ⟨left, hleft⟩ : ∃ left, p[3]? = some left :=
        ⟨_, getElem?_eq_getElem (show 3 < p.length by omega)⟩
      exact ⟨_, bind_eq_ok.mpr ⟨⟨next, length, type, left, routers⟩, bind_eq_ok.mpr
        ⟨next, readU8_eq_ok.mpr hnext, bind_eq_ok.mpr ⟨length, readU8_eq_ok.mpr hlen,
          bind_eq_ok.mpr ⟨type, readU8_eq_ok.mpr htype, bind_eq_ok.mpr
            ⟨left, readU8_eq_ok.mpr hleft, bind_eq_ok.mpr ⟨_, readBytes_ok (by omega),
              bind_eq_ok.mpr ⟨routers, hrouters, rfl⟩⟩⟩⟩⟩⟩, rfl⟩⟩
    next hroute =>
      rw [if_neg hroute] at hroom
      exact ⟨_, bind_eq_ok.mpr ⟨_, hopts hroom, rfl⟩⟩

end Reading

namespace Ipv6ExtensionFragment

/-! ## The headers of a packet -/

section Headers

variable {nextHeader : UInt8} {p rest : List UInt8} {headers : List HeaderLength}

/-- The unfragmentable headers, as the bytes tell them, and what is behind them. -/
inductive Unfragmentable : UInt8 → List UInt8 → List HeaderLength → List UInt8 → Prop where
  | nil {nextHeader : UInt8} {p : List UInt8} (hlast : moreHeader nextHeader p = .ok false) :
      Unfragmentable nextHeader p [] p
  | cons {nextHeader next length : UInt8} {p rest : List UInt8} {headers : List HeaderLength}
      (hmore : moreHeader nextHeader p = .ok true) (hnext : p[0]? = some next)
      (hlen : p[1]? = some length) (hroom : HeaderLength.size ⟨nextHeader, length⟩ ≤ p.length)
      (hrest : Unfragmentable next (p.drop (HeaderLength.size ⟨nextHeader, length⟩)) headers rest) :
      Unfragmentable nextHeader p (⟨nextHeader, length⟩ :: headers) rest

def totalSize (headers : List HeaderLength) : Nat := (headers.map HeaderLength.size).sum

def totalCounted (headers : List HeaderLength) : Nat := (headers.map HeaderLength.counted).sum

theorem total_aligned (headers : List HeaderLength) :
    totalSize headers % 8 = 0 ∧ totalCounted headers % 8 = 0 := by
  induction headers with
  | nil => exact ⟨rfl, rfl⟩
  | cons header rest ih =>
    obtain ⟨hsz, hcnt⟩ := header.aligned
    obtain ⟨hsizes, hcounts⟩ := ih
    rw [totalSize] at hsizes ⊢
    rw [totalCounted] at hcounts ⊢
    rw [map_cons, map_cons, sum_cons, sum_cons]
    omega

structure TakenOff (part : UnfragmentablePart) (headers : List HeaderLength) (rest : List UInt8) :
    Prop where
  rest : part.p = rest
  counted : part.size = totalCounted headers
  size : (part.headers.map UnfragmentableHeader.getSerializedSize).sum = totalSize headers
  complete : ∀ header ∈ part.headers, header.Complete

variable {part : UnfragmentablePart}

theorem TakenOff.addHeader {header : UnfragmentableHeader} {length : UInt8}
    (htaken : TakenOff part headers rest) (hread : ReadAs nextHeader p header length) :
    TakenOff (part.addHeader header) (⟨nextHeader, length⟩ :: headers) rest := by
  obtain ⟨hfull, hsz⟩ := complete_setNextHeader hread.complete IPV6_EXT_FRAGMENTATION
  refine ⟨htaken.rest, ?_, ?_, ?_⟩
  · rw [UnfragmentablePart.addHeader, totalCounted, map_cons, sum_cons]
    rw [hread.counted, htaken.counted]
    rfl
  · rw [UnfragmentablePart.addHeader, totalSize, map_cons, map_cons, sum_cons,
      sum_cons, htaken.size, ← hread.size]
    split
    · rw [hsz]; rfl
    · rfl
  · intro other hmem
    rcases mem_cons.mp hmem with rfl | hmem
    · split
      · exact hfull
      · exact hread.complete
    · exact htaken.complete other hmem

variable {fuel : Nat}

theorem unfragmentable_of_ok (hok : unfragmentablePart fuel nextHeader p = .ok part) :
    ∃ headers, Unfragmentable nextHeader p headers part.p ∧ TakenOff part headers part.p := by
  induction fuel generalizing nextHeader p part with
  | zero => cases hok
  | succ fuel ih =>
    obtain ⟨more, hmore, hrest⟩ := bind_eq_ok.mp hok
    cases more with
    | false =>
      cases hrest
      exact ⟨[], .nil hmore, rfl, rfl, rfl, fun _ hmem => absurd hmem not_mem_nil⟩
    | true =>
      obtain ⟨header, hheader, hrest⟩ := bind_eq_ok.mp hrest
      obtain ⟨later, hlater, hdone⟩ := bind_eq_ok.mp hrest
      cases hdone
      obtain ⟨length, hread⟩ := readAs_of_deserialize hheader
      obtain ⟨headers, hchain, htaken⟩ := ih hlater
      rw [hread.size] at hchain
      exact ⟨⟨nextHeader, length⟩ :: headers, .cons hmore hread.next hread.byte
        (by rw [← hread.size]; exact hread.room) hchain, htaken.addHeader hread⟩

theorem unfragmentablePart_ok (hchain : Unfragmentable nextHeader p headers rest)
    (hfuel : headers.length < fuel) :
    ∃ part, unfragmentablePart fuel nextHeader p = .ok part ∧ TakenOff part headers rest := by
  induction hchain generalizing fuel with
  | nil hlast =>
    cases fuel with
    | zero => exact absurd hfuel (Nat.not_lt_zero _)
    | succ fuel =>
      exact ⟨_, bind_eq_ok.mpr ⟨false, hlast, rfl⟩, rfl, rfl, rfl,
        fun _ hmem => absurd hmem not_mem_nil⟩
  | cons hmore hnext hlen hroom hrest ih =>
    cases fuel with
    | zero => exact absurd hfuel (Nat.not_lt_zero _)
    | succ fuel =>
      obtain ⟨header, hheader⟩ := deserialize_ok hnext hlen hroom
      obtain ⟨other, hread⟩ := readAs_of_deserialize hheader
      obtain rfl := Option.some.inj (hlen.symm.trans hread.byte)
      obtain rfl := Option.some.inj (hnext.symm.trans hread.next)
      obtain ⟨part, hpart, htaken⟩ := ih (Nat.lt_of_succ_lt_succ hfuel)
      rw [← hread.size] at hpart
      exact ⟨part.addHeader header, bind_eq_ok.mpr ⟨true, hmore, bind_eq_ok.mpr
        ⟨header, hheader, bind_eq_ok.mpr ⟨part, hpart, rfl⟩⟩⟩, htaken.addHeader hread⟩

theorem unfragmentablePart_succ (hok : unfragmentablePart fuel nextHeader p = .ok part) :
    unfragmentablePart (fuel + 1) nextHeader p = .ok part := by
  induction fuel generalizing nextHeader p part with
  | zero => cases hok
  | succ fuel ih =>
    obtain ⟨more, hmore, hrest⟩ := bind_eq_ok.mp hok
    refine bind_eq_ok.mpr ⟨more, hmore, ?_⟩
    cases more with
    | false => exact hrest
    | true =>
      obtain ⟨header, hheader, hrest⟩ := bind_eq_ok.mp hrest
      obtain ⟨later, hlater, hdone⟩ := bind_eq_ok.mp hrest
      exact bind_eq_ok.mpr ⟨header, hheader, bind_eq_ok.mpr ⟨later, ih hlater, hdone⟩⟩

theorem unfragmentablePart_mono (hok : unfragmentablePart fuel nextHeader p = .ok part)
    (more : Nat) : unfragmentablePart (fuel + more) nextHeader p = .ok part := by
  induction more with
  | zero => exact hok
  | succ more ih => exact unfragmentablePart_succ ih

theorem length_eq_of_unfragmentable (hchain : Unfragmentable nextHeader p headers rest) :
    p.length = totalSize headers + rest.length := by
  induction hchain with
  | nil => exact (Nat.zero_add _).symm
  | cons hmore hnext hlen hroom hrest ih =>
    rw [length_drop] at ih
    rw [totalSize] at ih ⊢
    rw [map_cons, sum_cons]
    omega

theorem Unfragmentable.unique {others : List HeaderLength}
    {behind : List UInt8} (hchain : Unfragmentable nextHeader p headers rest)
    (hother : Unfragmentable nextHeader p others behind) : headers = others ∧ rest = behind := by
  induction hchain generalizing others behind with
  | nil hlast =>
    cases hother with
    | nil => exact ⟨rfl, rfl⟩
    | cons hmore =>
      rw [hlast] at hmore
      cases hmore
  | cons hmore hnext hlen hroom hrest ih =>
    cases hother with
    | nil hlast =>
      rw [hlast] at hmore
      cases hmore
    | cons hmoreOther hnextOther hlengthOther hroomOther hrestOther =>
      obtain rfl := Option.some.inj (hnext.symm.trans hnextOther)
      obtain rfl := Option.some.inj (hlen.symm.trans hlengthOther)
      obtain ⟨rfl, rfl⟩ := ih hrestOther
      exact ⟨rfl, rfl⟩

end Headers

/-! ## The loop over the pieces -/

section Pieces

variable {part : UnfragmentablePart} {identification : UInt32} {ipv6Header : Ipv6Header}
  {size offset fuel : Nat} {fragments : List Ipv6Fragment}

/-- The loop over `length` bytes comes to its end. -/
inductive LoopEnds (length size : Nat) : Nat → Prop where
  | last {offset : Nat} (hrest : length ≤ uint32 (offset + size)) (hoff : offset ≤ length) :
      LoopEnds length size offset
  | more {offset : Nat} (hmore : uint32 (offset + size) < length)
      (hroom : offset + alignedSize size ≤ length)
      (hlater : LoopEnds length size (uint16 (offset + alignedSize size))) :
      LoopEnds length size offset

theorem length_foldl (headers : List UnfragmentableHeader)
    (hfull : ∀ header ∈ headers, header.Complete) (bytes : List UInt8) :
    (headers.foldl (fun fragment header => header.serialize ++ fragment) bytes).length =
    (headers.map UnfragmentableHeader.getSerializedSize).sum + bytes.length := by
  induction headers generalizing bytes with
  | nil => exact (Nat.zero_add _).symm
  | cons header rest ih =>
    obtain ⟨hheader, hrest⟩ := forall_mem_cons.mp hfull
    rw [foldl_cons, ih hrest, length_append, length_serialize hheader, map_cons, sum_cons]
    omega

theorem length_addHeaders {headers : List HeaderLength} {rest : List UInt8}
    (htaken : TakenOff part headers rest) (moreFragment : Bool) (piece : List UInt8) :
    (addHeaders part identification offset moreFragment piece).length =
      totalSize headers + 8 + piece.length := by
  rw [addHeaders, length_foldl _ htaken.complete, htaken.size, length_append, ← Nat.add_assoc]
  rfl

theorem uint32_le (value : Nat) : uint32 value ≤ value := Nat.mod_le _ _

theorem rest_le {length : Nat} (hlen : length < 2 ^ 32)
    (hroom : offset + uint32OfInt (length - offset) ≤ length) :
    offset ≤ length ∧ uint32OfInt (length - offset) = length - offset := by
  rw [uint32OfInt] at hroom ⊢
  omega

section

variable {headers : List HeaderLength} {rest : List UInt8} (htaken : TakenOff part headers rest)
  (hlen : rest.length < 2 ^ 32)
include htaken hlen

theorem length_le_of_mem
    (hok : fragmentLoop part identification ipv6Header size fuel offset = .ok fragments) :
    ∀ fragment ∈ fragments, fragment.packet.length ≤ totalSize headers + 8 + size := by
  induction fuel generalizing offset fragments with
  | zero => cases hok
  | succ fuel ih =>
    rw [fragmentLoop] at hok
    dsimp only at hok
    split at hok
    next hmore =>
      obtain ⟨piece, hpiece, hrest⟩ := bind_eq_ok.mp hok
      obtain ⟨later, hlater, hdone⟩ := bind_eq_ok.mp hrest
      cases hdone
      intro fragment hmem
      rcases mem_cons.mp hmem with rfl | hmem
      · rw [length_addHeaders htaken, length_of_readBytes hpiece, alignedSize]
        omega
      · exact ih hlater fragment hmem
    next hmore =>
      obtain ⟨piece, hpiece, hdone⟩ := bind_eq_ok.mp hok
      cases hdone
      intro fragment hmem
      obtain rfl := mem_singleton.mp hmem
      have hshort := uint32_le (offset + size)
      rw [createFragment, htaken.rest] at hpiece
      rw [htaken.rest] at hmore
      obtain ⟨hroom, -⟩ := readBytes_eq_ok.mp hpiece
      obtain ⟨hoff, hword⟩ := rest_le hlen hroom
      rw [length_addHeaders htaken, length_of_readBytes hpiece, hword]
      omega

theorem first_of_ok (hsz : size < 2 ^ 32)
    (hok : fragmentLoop part identification ipv6Header size fuel 0 = .ok fragments) :
    ∃ fragment ∈ fragments, fragment.packet.length =
        totalSize headers + 8 + if rest.length > size then alignedSize size else rest.length := by
  cases fuel with
  | zero => cases hok
  | succ fuel =>
    rw [fragmentLoop, Nat.zero_add, uint32_of_lt hsz, htaken.rest] at hok
    dsimp only at hok
    split at hok
    next hmore =>
      obtain ⟨piece, hpiece, hrest⟩ := bind_eq_ok.mp hok
      obtain ⟨later, hlater, hdone⟩ := bind_eq_ok.mp hrest
      cases hdone
      refine ⟨_, mem_cons_self, ?_⟩
      rw [length_addHeaders htaken, length_of_readBytes hpiece, if_pos hmore]
    next hmore =>
      obtain ⟨piece, hpiece, hdone⟩ := bind_eq_ok.mp hok
      cases hdone
      refine ⟨_, mem_singleton_self _, ?_⟩
      obtain ⟨hroom, -⟩ := readBytes_eq_ok.mp hpiece
      obtain ⟨-, hword⟩ := rest_le hlen hroom
      rw [length_addHeaders htaken, length_of_readBytes hpiece, if_neg hmore, hword]
      rfl

end

theorem loopEnds_of_ok (hlen : part.p.length < 2 ^ 32)
    (hok : fragmentLoop part identification ipv6Header size fuel offset = .ok fragments) :
    LoopEnds part.p.length size offset := by
  induction fuel generalizing offset fragments with
  | zero => cases hok
  | succ fuel ih =>
    rw [fragmentLoop] at hok
    dsimp only at hok
    split at hok
    next hmore =>
      obtain ⟨piece, hpiece, hrest⟩ := bind_eq_ok.mp hok
      obtain ⟨later, hlater, hdone⟩ := bind_eq_ok.mp hrest
      exact .more hmore (readBytes_eq_ok.mp hpiece).1 (ih hlater)
    next hmore =>
      obtain ⟨piece, hpiece, hdone⟩ := bind_eq_ok.mp hok
      exact .last (Nat.not_lt.mp hmore)
        (rest_le hlen (readBytes_eq_ok.mp hpiece).1).1

theorem ok_of_loopEnds (hlen : part.p.length < 2 ^ 32)
    (hends : LoopEnds part.p.length size offset) :
    ∃ enough, ∀ fuel,
      enough ≤ fuel →
        ∃ fragments,
          fragmentLoop part identification ipv6Header size fuel offset = .ok fragments := by
  induction hends with
  | @last offset hrest hoff =>
    refine ⟨1, fun fuel hfuel => ?_⟩
    obtain ⟨fuel, rfl⟩ := Nat.exists_eq_add_of_le' hfuel
    have hword : uint32OfInt (part.p.length - offset) = part.p.length - offset := by
      rw [uint32OfInt]
      omega
    rw [fragmentLoop, if_neg (Nat.not_lt.mpr hrest)]
    exact ⟨_, bind_eq_ok.mpr ⟨_, readBytes_ok (by omega), rfl⟩⟩
  | @more offset hmore hroom hlater ih =>
    obtain ⟨enough, hlater⟩ := ih
    refine ⟨enough + 1, fun fuel hfuel => ?_⟩
    obtain ⟨fuel, rfl⟩ := Nat.exists_eq_add_of_le' (Nat.le_trans (Nat.le_add_left 1 enough) hfuel)
    obtain ⟨fragments, hfrags⟩ := hlater fuel (Nat.le_of_succ_le_succ hfuel)
    rw [fragmentLoop, if_pos hmore]
    exact ⟨_, bind_eq_ok.mpr ⟨_, readBytes_ok hroom, bind_eq_ok.mpr
      ⟨fragments, hfrags, rfl⟩⟩⟩

theorem loopEnds_of_short {length : Nat} (hlen : length ≤ 65535) (hsz : 8 ≤ size)
    (hword : size + 65536 ≤ 2 ^ 32) (hoff : offset ≤ length) : LoopEnds length size offset := by
  induction hleft : length - offset using Nat.strongRecOn generalizing offset with
  | _ left ih =>
    have hsum : uint32 (offset + size) = offset + size := uint32_of_lt (by omega)
    by_cases hrest : length ≤ offset + size
    · exact .last (by rw [hsum]; exact hrest) hoff
    · have halign : alignedSize size ≤ size ∧ 0 < alignedSize size := by
        rw [alignedSize]
        omega
      refine .more (by rw [hsum]; omega) (by omega) ?_
      rw [uint16_of_lt (by omega)]
      exact ih (length - (offset + alignedSize size)) (by omega) (by omega) rfl

end Pieces

/-! ## Packets that are cut well -/

section Cuts

variable {identification : UInt32} {packet : List UInt8} {ipv6Header : Ipv6Header}
  {maxFragmentSize fuel : Nat} {fragments : List Ipv6Fragment}

/-- The headers are counted as at least their size, leave room for a piece, and the loop over the
pieces ends. -/
def Cuts (maxFragmentSize : Nat) (nextHeader : UInt8) (packet : List UInt8) : Prop :=
  ∃ headers rest, Unfragmentable nextHeader packet headers rest ∧
    totalSize headers ≤ uint32 (totalCounted headers) ∧
    uint32 (totalCounted headers) + 48 ≤ maxFragmentSize ∧
    LoopEnds rest.length (maxFragmentSize - 48 - uint32 (totalCounted headers)) 0

theorem maxFragmentablePartSize_eq {part : UnfragmentablePart} (counted : Nat)
    (hcnt : part.size = counted) (hleast : 1280 ≤ maxFragmentSize)
    (hword : maxFragmentSize < 2 ^ 32) :
    (uint32 counted + 48 ≤ maxFragmentSize →
      maxFragmentablePartSize maxFragmentSize part = maxFragmentSize - 48 - uint32 counted) ∧
      (maxFragmentSize < uint32 counted + 48 →
        maxFragmentablePartSize maxFragmentSize part + uint32 counted + 48 =
          maxFragmentSize + 2 ^ 32) := by
  rw [maxFragmentablePartSize, hcnt, Ipv6Header.getSerializedSize,
    Ipv6ExtensionFragmentHeader.getSerializedSize, uint32OfInt, uint32]
  constructor
  · omega
  · omega

section

variable (hlen : packet.length < 2 ^ 32) (hleast : 1280 ≤ maxFragmentSize) (hword :
  maxFragmentSize < 2 ^ 32)
include hlen hleast hword

theorem cuts_of_fit (hlong : maxFragmentSize + 40 < packet.length)
    (hok : getFragments fuel identification packet ipv6Header maxFragmentSize = .ok fragments)
    (hfit : ∀ fragment ∈ fragments, fragment.packet.length + 40 ≤ maxFragmentSize) :
    Cuts maxFragmentSize ipv6Header.nextHeader packet := by
  obtain ⟨part, hpart, hloop⟩ := bind_eq_ok.mp hok
  obtain ⟨headers, hchain, htaken⟩ := unfragmentable_of_ok hpart
  have hsplit := length_eq_of_unfragmentable hchain
  obtain ⟨hsizes, hcounts⟩ := total_aligned headers
  have hsz := uint32OfInt_lt (maxFragmentSize - Ipv6Header.getSerializedSize - part.size -
    Ipv6ExtensionFragmentHeader.getSerializedSize)
  change maxFragmentablePartSize maxFragmentSize part < _ at hsz
  obtain ⟨fragment, hmem, hfst⟩ := first_of_ok htaken (by omega) hsz hloop
  have hfirstFits := hfit fragment hmem
  have hends := loopEnds_of_ok (by omega) hloop
  obtain ⟨hroom, hwrap⟩ := @maxFragmentablePartSize_eq maxFragmentSize part _ htaken.counted hleast
    hword
  have hcnt : uint32 (totalCounted headers) % 8 = 0 := by
    rw [uint32]
    omega
  have hbelow : uint32 (totalCounted headers) < 2 ^ 32 := Nat.mod_lt _ (by decide)
  rw [hfst] at hfirstFits
  -- the packet is too long for a single fragment
  split at hfirstFits
  next hmore =>
    rw [alignedSize] at hfirstFits
    by_cases hleaves : uint32 (totalCounted headers) + 48 ≤ maxFragmentSize
    · rw [hroom hleaves] at hends hfirstFits
      exact ⟨headers, part.p, hchain, by omega, hleaves, hends⟩
    · have hover := hwrap (Nat.lt_of_not_le hleaves)
      omega
  next hall => omega

theorem fit_of_cuts (hcuts : Cuts maxFragmentSize ipv6Header.nextHeader packet) :
    (∃ fuel fragments,
      getFragments fuel identification packet ipv6Header maxFragmentSize = .ok fragments) ∧
      ∀ fuel fragments,
        getFragments fuel identification packet ipv6Header maxFragmentSize = .ok fragments →
          ∀ fragment ∈ fragments, fragment.packet.length + 40 ≤ maxFragmentSize := by
  obtain ⟨headers, rest, hchain, hcnt, hleaves, hends⟩ := hcuts
  have hsplit := length_eq_of_unfragmentable hchain
  have hlim : ∀ {part : UnfragmentablePart}, part.size = totalCounted headers →
      maxFragmentablePartSize maxFragmentSize part =
        maxFragmentSize - 48 - uint32 (totalCounted headers) :=
    fun hsz => (maxFragmentablePartSize_eq _ hsz hleast hword).1 hleaves
  constructor
  · obtain ⟨part, hpart, htaken⟩ := unfragmentablePart_ok hchain (Nat.lt_succ_self _)
    have hshort : part.p.length < 2 ^ 32 := by
      rw [htaken.rest]
      omega
    rw [← htaken.rest] at hends
    obtain ⟨enough, hfrags⟩ := @ok_of_loopEnds part identification
      (if part.headers.isEmpty then { ipv6Header with nextHeader := IPV6_EXT_FRAGMENTATION }
        else ipv6Header) _ 0 hshort hends
    obtain ⟨fragments, hok⟩ := hfrags (headers.length + 1 + enough) (Nat.le_add_left _ _)
    refine ⟨headers.length + 1 + enough, fragments, bind_eq_ok.mpr
      ⟨part, unfragmentablePart_mono hpart enough, ?_⟩⟩
    rw [hlim htaken.counted]
    exact hok
  · intro fuel fragments hok fragment hmem
    obtain ⟨part, hpart, hloop⟩ := bind_eq_ok.mp hok
    obtain ⟨others, hother, htaken⟩ := unfragmentable_of_ok hpart
    obtain ⟨rfl, rfl⟩ := hchain.unique hother
    have hbd := length_le_of_mem htaken (by omega) hloop fragment hmem
    rw [hlim htaken.counted] at hbd
    omega

end

end Cuts

end Ipv6ExtensionFragment

end HomaSird.Internet
