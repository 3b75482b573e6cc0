import HomaSird.Internet.Ipv6Reassembly

/-! # Fragments of a packet with extension headers

The headers of a packet are taken off in order and put in front of each fragment in the opposite
order. What `Process` makes of the fragments is the packet where that makes no difference.
-/

namespace HomaSird.Internet

open Ipv6Header Transition Ipv6ExtensionFragment List

namespace UnfragmentableHeader

def number : UnfragmentableHeader → UInt8
  | hopByHop _ => IPV6_EXT_HOP_BY_HOP
  | routing _ => IPV6_EXT_ROUTING
  | destination _ => IPV6_EXT_DESTINATION

def WellFormed : UnfragmentableHeader → Prop
  | hopByHop header => header.Complete
  | routing header => header.Complete ∧ header.typeRouting = 0 ∧ header.length % 2 = 0
  | destination header => header.Complete

def isUnfragmentable (header : UnfragmentableHeader) : Bool :=
  header.number != IPV6_EXT_DESTINATION || header.getNextHeader == IPV6_EXT_ROUTING

theorem WellFormed.complete {header : UnfragmentableHeader}
    (hwf : header.WellFormed) : header.Complete := by
  cases header with
  | hopByHop => exact hwf
  | routing => exact hwf.1
  | destination => exact hwf

end UnfragmentableHeader

open UnfragmentableHeader

def firstNumber (chain : List UnfragmentableHeader) (upper : UInt8) : UInt8 :=
  match chain with
  | [] => upper
  | header :: _ => header.number

def Linked : List UnfragmentableHeader → UInt8 → Prop
  | [], _ => True
  | header :: rest, upper => header.getNextHeader = firstNumber rest upper ∧ Linked rest upper

structure HeaderChain (chain : List UnfragmentableHeader) (upper : UInt8) : Prop where
  headers : ∀ header ∈ chain, header.WellFormed
  linked : Linked chain upper
  upper : upper ≠ IPV6_EXT_HOP_BY_HOP ∧ upper ≠ IPV6_EXT_ROUTING ∧ upper ≠ IPV6_EXT_DESTINATION

def encodeHeaders (chain : List UnfragmentableHeader) : List UInt8 := chain.flatMap serialize

def unfragmentable (chain : List UnfragmentableHeader) : List UnfragmentableHeader :=
  chain.takeWhile isUnfragmentable

def fragmentable (chain : List UnfragmentableHeader) : List UnfragmentableHeader :=
  chain.dropWhile isUnfragmentable

def announceFragment : List UnfragmentableHeader → List UnfragmentableHeader
  | [] => []
  | header :: rest =>
    (if rest.isEmpty then header.setNextHeader IPV6_EXT_FRAGMENTATION else header) ::
      announceFragment rest

def headersSize (headers : List UnfragmentableHeader) : Nat := (headers.map getSerializedSize).sum

def headersCounted (headers : List UnfragmentableHeader) : Nat :=
  (headers.map fun header => (UInt8.ofNat header.getLength).toNat).sum

def partOf (chain : List UnfragmentableHeader) (upper : UInt8) (payload : List UInt8) :
    UnfragmentablePart where
  headers := announceFragment (unfragmentable chain)
  size := headersCounted (unfragmentable chain)
  nextHeader := firstNumber (fragmentable chain) upper
  p := encodeHeaders (fragmentable chain) ++ payload

section Taking

variable {chain : List UnfragmentableHeader} {upper : UInt8} {header : UnfragmentableHeader}
  {rest payload : List UInt8}

theorem options_roundTrip {options : OptionsHeader} (hfull : options.Complete)
    (rest : List UInt8) : OptionsHeader.deserialize (options.serialize ++ rest) = .ok options := by
  have hlen : getLength options.length = options.optionData.length + 2 := hfull.symm
  have hbyte : UInt8.ofNat (options.getSerializedSize / 8 - 1) = options.length := by
    rw [size_of_complete hfull, getLength, Nat.mul_div_cancel _ (by decide : 0 < 8),
      Nat.add_sub_cancel, UInt8.ofNat_toNat]
  have hser : options.serialize ++ rest =
      options.nextHeader :: options.length :: (options.optionData ++ rest) := by
    rw [OptionsHeader.serialize, hbyte, calculatePad_of_complete hfull]
    simp [OptionsHeader.fill]
  rw [hser]
  refine bind_eq_ok.mpr ⟨_, rfl, bind_eq_ok.mpr ⟨_, rfl, bind_eq_ok.mpr
    ⟨options.optionData, ?_, rfl⟩⟩⟩
  rw [hlen, Nat.add_sub_cancel, readBytes_ok (by
    simp only [length_cons, length_append]
    omega)]
  exact congrArg Except.ok (take_left' rfl)

theorem readAddresses_flatten {routers : List Ipv6Address}
    (haddr : ∀ address ∈ routers, address.length = 16) (front rest : List UInt8) :
    LooseRoutingHeader.readAddresses (front ++ (routers.flatten ++ rest)) front.length
      routers.length = .ok routers := by
  induction routers generalizing front with
  | nil => rfl
  | cons address later ih =>
    obtain ⟨hfst, hlater⟩ := forall_mem_cons.mp haddr
    have hread : readBytes (front ++ ((address :: later).flatten ++ rest)) front.length 16 =
        .ok address := by
      rw [flatten_cons, append_assoc, readBytes_ok (by
        simp only [length_append, hfst]
        omega), drop_left, take_left' hfst]
    have hnext := ih hlater (front ++ address)
    rw [append_assoc, length_append, hfst] at hnext
    rw [flatten_cons, append_assoc] at hread ⊢
    exact bind_eq_ok.mpr ⟨address, hread, bind_eq_ok.mpr ⟨later, hnext, rfl⟩⟩

theorem routing_roundTrip {routing : LooseRoutingHeader}
    (hfull : routing.Complete) (heven : routing.length % 2 = 0) (rest : List UInt8) :
    LooseRoutingHeader.deserialize (routing.serialize ++ rest) = .ok routing := by
  have hhalf : (routing.length / 2).toNat = routing.length.toNat / 2 := by
    rw [UInt8.toNat_div]
    rfl
  have hzero : routing.length.toNat % 2 = 0 := by
    have hmod := congrArg UInt8.toNat heven
    rw [UInt8.toNat_mod] at hmod
    exact hmod
  have hbyte : UInt8.ofNat (routing.routersAddress.length * 2) = routing.length := by
    rw [hfull.count, hhalf, Nat.div_mul_cancel (Nat.dvd_of_mod_eq_zero hzero), UInt8.ofNat_toNat]
  have hser : routing.serialize ++ rest = [routing.nextHeader, routing.length,
      routing.typeRouting, routing.segmentsLeft, 0, 0, 0, 0] ++
        (routing.routersAddress.flatten ++ rest) := by
    rw [LooseRoutingHeader.serialize, hbyte, append_assoc]
  have hread := readAddresses_flatten hfull.address [routing.nextHeader, routing.length,
    routing.typeRouting, routing.segmentsLeft, 0, 0, 0, 0] rest
  rw [hser]
  refine bind_eq_ok.mpr ⟨_, rfl, bind_eq_ok.mpr ⟨_, rfl, bind_eq_ok.mpr ⟨_, rfl, bind_eq_ok.mpr
    ⟨_, rfl, bind_eq_ok.mpr ⟨_, readBytes_ok (by
      simp only [length_cons, length_append]
      omega), bind_eq_ok.mpr ⟨routing.routersAddress, ?_, rfl⟩⟩⟩⟩⟩⟩
  rw [← hfull.count]
  exact hread

theorem header_roundTrip (hwf : header.WellFormed) (rest : List UInt8) :
    UnfragmentableHeader.deserialize header.number (header.serialize ++ rest) = .ok header := by
  cases header with
  | hopByHop options => exact bind_eq_ok.mpr ⟨_, options_roundTrip hwf rest, rfl⟩
  | routing routing =>
    exact bind_eq_ok.mpr ⟨_, routing_roundTrip hwf.1 hwf.2.2 rest, rfl⟩
  | destination options => exact bind_eq_ok.mpr ⟨_, options_roundTrip hwf rest, rfl⟩

theorem moreHeader_eq (header : UnfragmentableHeader) (rest : List UInt8) :
    moreHeader header.number (header.serialize ++ rest) = .ok header.isUnfragmentable := by
  cases header with
  | hopByHop => rfl
  | routing => rfl
  | destination => rfl

theorem unfragmentablePart_eq (hchain : HeaderChain chain upper) (payload : List UInt8) {fuel : Nat}
    (hfuel : chain.length < fuel) :
    unfragmentablePart fuel (firstNumber chain upper) (encodeHeaders chain ++ payload) =
      .ok (partOf chain upper payload) := by
  induction chain generalizing fuel with
  | nil =>
    cases fuel with
    | zero => exact absurd hfuel (Nat.not_lt_zero _)
    | succ fuel =>
      obtain ⟨hhop, hroute, hdest⟩ := hchain.upper
      have hlast : moreHeader upper payload = .ok false := by
        rw [moreHeader, if_neg (not_or.mpr ⟨hhop, hroute⟩), if_neg hdest]
      exact bind_eq_ok.mpr ⟨false, hlast, rfl⟩
  | cons header rest ih =>
    cases fuel with
    | zero => exact absurd hfuel (Nat.not_lt_zero _)
    | succ fuel =>
      obtain ⟨hheader, hrest⟩ := forall_mem_cons.mp hchain.headers
      obtain ⟨hnext, hlnk⟩ := hchain.linked
      have hencode : encodeHeaders (header :: rest) ++ payload =
          header.serialize ++ (encodeHeaders rest ++ payload) := by
        rw [encodeHeaders, flatMap_cons, append_assoc]
        rfl
      have hmore := moreHeader_eq header (encodeHeaders rest ++ payload)
      rw [hencode]
      cases hkind : header.isUnfragmentable with
      | false =>
        rw [hkind] at hmore
        refine bind_eq_ok.mpr ⟨false, hmore, ?_⟩
        rw [partOf, unfragmentable, fragmentable,
          takeWhile_cons_of_neg (by simp [hkind]),
          dropWhile_cons_of_neg (by simp [hkind]), hencode]
        rfl
      | true =>
        rw [hkind] at hmore
        have hlater := ih ⟨hrest, hlnk, hchain.upper⟩
          (Nat.lt_of_succ_lt_succ hfuel)
        rw [← hnext] at hlater
        have hdrop : (header.serialize ++ (encodeHeaders rest ++ payload)).drop
            header.getSerializedSize = encodeHeaders rest ++ payload := by
          rw [← length_serialize hheader.complete, drop_left]
        rw [← hdrop] at hlater
        refine bind_eq_ok.mpr ⟨true, hmore, bind_eq_ok.mpr ⟨header,
          header_roundTrip hheader _, bind_eq_ok.mpr ⟨_, hlater, ?_⟩⟩⟩
        have htaken : unfragmentable (header :: rest) = header :: unfragmentable rest :=
          takeWhile_cons_of_pos hkind
        have hleft : fragmentable (header :: rest) = fragmentable rest :=
          dropWhile_cons_of_pos hkind
        have hempty : (announceFragment (unfragmentable rest)).isEmpty =
            (unfragmentable rest).isEmpty := by
          cases unfragmentable rest with
          | nil => rfl
          | cons => rfl
        rw [partOf, partOf, htaken, hleft, UnfragmentablePart.addHeader, announceFragment]
        dsimp only
        rw [hempty]
        rfl

/-! ### Sizes -/

theorem getLength_eq (hwf : header.WellFormed) : header.getLength = header.getSerializedSize := by
  cases header with
  | hopByHop options => exact (size_of_complete hwf).symm
  | destination options => exact (size_of_complete hwf).symm
  | routing routing =>
    obtain ⟨hfull, -, heven⟩ := hwf
    have hmod := congrArg UInt8.toNat heven
    rw [UInt8.toNat_mod] at hmod
    change routing.length.toNat % 2 = 0 at hmod
    have hhalf : (routing.length / 2).toNat = routing.length.toNat / 2 := by
      rw [UInt8.toNat_div]
      rfl
    change (routing.length.toNat + 1) * 8 = 8 + routing.routersAddress.length * 16
    rw [hfull.count, hhalf]
    omega

variable {headers : List UnfragmentableHeader}

theorem headersCounted_le (hhdrs : ∀ header ∈ headers, header.WellFormed) :
    headersCounted headers ≤ headersSize headers ∧
    (headersSize headers < 256 → headersCounted headers = headersSize headers) := by
  induction headers with
  | nil => exact ⟨le_rfl, fun _ => rfl⟩
  | cons header rest ih =>
    obtain ⟨hheader, hrest⟩ := forall_mem_cons.mp hhdrs
    obtain ⟨hle, heq⟩ := ih hrest
    have hlen := getLength_eq hheader
    rw [headersCounted, headersSize] at hle heq ⊢
    rw [map_cons, map_cons, sum_cons, sum_cons, hlen, UInt8.toNat_ofNat']
    constructor
    · have hmod := Nat.mod_le header.getSerializedSize (2 ^ 8)
      omega
    · intro hsmall
      rw [Nat.mod_eq_of_lt (by omega), heq (by omega)]

theorem headersSize_announce (headers : List UnfragmentableHeader) :
    headersSize (announceFragment headers) = headersSize headers := by
  induction headers with
  | nil => rfl
  | cons header rest ih =>
    have hsame : (header.setNextHeader IPV6_EXT_FRAGMENTATION).getSerializedSize =
        header.getSerializedSize := by
      cases header with
      | hopByHop => rfl
      | routing => rfl
      | destination => rfl
    have hhead : headersSize (announceFragment (header :: rest)) =
        (if rest.isEmpty then header.setNextHeader IPV6_EXT_FRAGMENTATION
          else header).getSerializedSize + headersSize (announceFragment rest) := rfl
    rw [hhead, ih]
    split
    · rw [hsame]; rfl
    · rfl

theorem complete_announce (hhdrs : ∀ header ∈ headers, header.Complete) :
    ∀ header ∈ announceFragment headers, header.Complete := by
  induction headers with
  | nil => exact hhdrs
  | cons header rest ih =>
    obtain ⟨hheader, hrest⟩ := forall_mem_cons.mp hhdrs
    intro other hmem
    rcases mem_cons.mp hmem with rfl | hmem
    · split
      · exact (complete_setNextHeader hheader _).1
      · exact hheader
    · exact ih hrest other hmem

theorem length_encodeHeaders (hhdrs : ∀ header ∈ headers, header.Complete) :
    (encodeHeaders headers).length = headersSize headers := by
  induction headers with
  | nil => rfl
  | cons header rest ih =>
    obtain ⟨hheader, hrest⟩ := forall_mem_cons.mp hhdrs
    have hlater := ih hrest
    rw [encodeHeaders, headersSize] at hlater ⊢
    rw [flatMap_cons, length_append, length_serialize hheader, hlater, map_cons, sum_cons]

theorem headersSize_reverse (headers : List UnfragmentableHeader) :
    headersSize headers.reverse = headersSize headers := by
  rw [headersSize, headersSize, map_reverse, sum_reverse]

theorem mem_unfragmentable (hmem : header ∈ unfragmentable chain) : header ∈ chain :=
  ( takeWhile_prefix _).subset hmem

theorem foldl_eq (headers : List UnfragmentableHeader) (bytes : List UInt8) :
    headers.foldl (fun fragment header => header.serialize ++ fragment) bytes =
      encodeHeaders headers.reverse ++ bytes := by
  induction headers generalizing bytes with
  | nil => rfl
  | cons header rest ih =>
    rw [foldl_cons, ih, reverse_cons, encodeHeaders, encodeHeaders,
      flatMap_append, flatMap_singleton, append_assoc]

/-! ### The order of the headers -/

theorem head_serialize (header : UnfragmentableHeader)
    (bytes : List UInt8) : (header.serialize ++ bytes).head? = some header.getNextHeader := by
  cases header with
  | hopByHop => rfl
  | routing => rfl
  | destination => rfl

theorem getNextHeader_setNextHeader (header : UnfragmentableHeader)
    (number : UInt8) : (header.setNextHeader number).getNextHeader = number := by
  cases header with
  | hopByHop => rfl
  | routing => rfl
  | destination => rfl

theorem head_reverse_announce (header : UnfragmentableHeader) (rest : List UnfragmentableHeader) :
    (encodeHeaders (announceFragment (header :: rest)).reverse).head? =
      some IPV6_EXT_FRAGMENTATION := by
  obtain ⟨front, last, hannounce⟩ : ∃ front last, announceFragment (header :: rest) =
      front ++ [setNextHeader IPV6_EXT_FRAGMENTATION last] := by
    induction rest generalizing header with
    | nil => exact ⟨[], header, rfl⟩
    | cons next later ih =>
      obtain ⟨front, last, hlater⟩ := ih next
      exact ⟨header :: front, last, by rw [announceFragment, hlater]; rfl⟩
  rw [hannounce, reverse_append, reverse_singleton, singleton_append,
    encodeHeaders, flatMap_cons, head_serialize, getNextHeader_setNextHeader]

theorem encode_reverse_iff (hchain : HeaderChain chain upper) :
    encodeHeaders (announceFragment (unfragmentable chain)).reverse =
      encodeHeaders (announceFragment (unfragmentable chain)) ↔
      (unfragmentable chain).length ≤ 1 := by
  cases chain with
  | nil => exact iff_of_true rfl (Nat.zero_le 1)
  | cons header rest =>
    by_cases hkind : header.isUnfragmentable
    · have htaken : unfragmentable (header :: rest) = header :: unfragmentable rest :=
        takeWhile_cons_of_pos hkind
      rw [htaken]
      cases hrest : unfragmentable rest with
      | nil => exact iff_of_true rfl (Nat.le_refl 1)
      | cons next later =>
        refine iff_of_false (fun heq => ?_) (by simp)
        have hhead := congrArg head? heq
        rw [head_reverse_announce, announceFragment, if_neg (by simp), encodeHeaders,
          flatMap_cons, head_serialize, hchain.linked.1] at hhead
        -- the first header announces the second one, which is not a fragment header
        cases rest with
        | nil => cases hrest
        | cons other others =>
          have hnumber := Option.some.inj hhead
          cases other with
          | hopByHop =>
            exact absurd hnumber
              (show IPV6_EXT_FRAGMENTATION ≠ IPV6_EXT_HOP_BY_HOP by decide)
          | routing =>
            exact absurd hnumber
              (show IPV6_EXT_FRAGMENTATION ≠ IPV6_EXT_ROUTING by decide)
          | destination =>
            exact absurd hnumber
              (show IPV6_EXT_FRAGMENTATION ≠ IPV6_EXT_DESTINATION by decide)
    · have hnone : unfragmentable (header :: rest) = [] := takeWhile_cons_of_neg hkind
      rw [hnone]
      exact iff_of_true rfl (Nat.zero_le 1)

end Taking

/-! ## The fragments -/

section Pieces

variable {part : UnfragmentablePart} {identification : UInt32} {ipv6Header : Ipv6Header}
  {size offset fuel : Nat} {fragments : List Ipv6Fragment}

def cutOf (part : UnfragmentablePart) (identification : UInt32) (ipv6Header : Ipv6Header) :
    Cut where
  front := encodeHeaders part.headers.reverse
  nextHeader := part.nextHeader
  identification := identification
  sourceAddress := ipv6Header.sourceAddress
  p := part.p

theorem isSlice_addHeaders {stop : Nat} (moreFragment : Bool) (halign : offset % 8 = 0)
    (hord : offset ≤ stop) (hbd : stop ≤ part.p.length) {header : Ipv6Header}
    (hsource : header.sourceAddress = ipv6Header.sourceAddress) :
    IsSlice (cutOf part identification ipv6Header) offset stop moreFragment
      ⟨addHeaders part identification offset moreFragment
        ((part.p.drop offset).take (stop - offset)), header⟩ where
  source := hsource
  packet := foldl_eq _ _
  aligned := halign
  ordered := hord
  bounded := hbd

theorem tiles_of_ok (hshort : part.p.length ≤ 65535) (hleast : 8 ≤ size) (hsz : size < 2 ^ 32)
    (halign : offset % 8 = 0) (hoff : offset < part.p.length ∨ offset = 0)
    (hlong : offset = 0 ∨ size < part.p.length)
    (hok : fragmentLoop part identification ipv6Header size fuel offset = .ok fragments) :
    Tiles (cutOf part identification ipv6Header) offset fragments := by
  induction fuel generalizing offset fragments with
  | zero => cases hok
  | succ fuel ih =>
    rw [fragmentLoop] at hok
    dsimp only at hok
    split at hok
    next hmore =>
      obtain ⟨piece, hpiece, hrest⟩ := bind_eq_ok.mp hok
      obtain ⟨later, hlater, hdone⟩ := bind_eq_ok.mp hrest
      cases hdone
      obtain ⟨hroom, rfl⟩ := readBytes_eq_ok.mp hpiece
      have hless : size < part.p.length := by
        rcases hlong with rfl | hless
        · rw [Nat.zero_add, uint32_of_lt hsz] at hmore
          exact hmore
        · exact hless
      have hsum : uint32 (offset + size) = offset + size := uint32_of_lt (by omega)
      have hpart : alignedSize size % 8 = 0 ∧ 0 < alignedSize size ∧ alignedSize size ≤ size := by
        rw [alignedSize]
        omega
      rw [hsum] at hmore
      rw [uint16_of_lt (by omega)] at hlater
      have hslice := @isSlice_addHeaders part identification ipv6Header offset
        (offset + alignedSize size) true halign (Nat.le_add_right _ _) hroom
      rw [Nat.add_sub_cancel_left] at hslice
      exact .cons (hslice rfl) (by omega)
        (ih (by omega) (.inl (by omega)) (.inr hless) hlater)
    next hmore =>
      obtain ⟨piece, hpiece, hdone⟩ := bind_eq_ok.mp hok
      cases hdone
      obtain ⟨hroom, rfl⟩ := readBytes_eq_ok.mp hpiece
      obtain ⟨hle, hword⟩ := rest_le (by omega) hroom
      have hslice := @isSlice_addHeaders part identification ipv6Header offset part.p.length
        false halign hle (Nat.le_refl _)
      rw [hword]
      exact .last (hslice rfl) hoff

end Pieces

/-! ## Fragmentation and reassembly -/

section Inverse

variable {chain : List UnfragmentableHeader} {upper : UInt8} {payload : List UInt8}
  {identification : UInt32} {ipv6Header : Ipv6Header} {maxFragmentSize : Nat}

/-- What should come of the fragments: the next header behind the unfragmentable headers, and
these, the last announcing the fragment header, in front of the bytes that were cut. -/
def original (chain : List UnfragmentableHeader) (upper : UInt8) (payload : List UInt8) :
    UInt8 × List UInt8 :=
  (firstNumber (fragmentable chain) upper,
    encodeHeaders (announceFragment (unfragmentable chain)) ++
      (encodeHeaders (fragmentable chain) ++ payload))

/-- The fragments fit, and fed to `Process` at their fragment header, they give the original each
time that all have arrived. -/
structure Inverse (maxFragmentSize place : Nat) (original : UInt8 × List UInt8)
    (extension : Ipv6ExtensionFragment) (fragments arrivals : List Ipv6Fragment) : Prop where
  fits : ∀ fragment ∈ fragments,
    Ipv6Header.getSerializedSize + fragment.packet.length ≤ maxFragmentSize
  reassembles : ∃ offset : UInt8, offset.toNat = place ∧
    extension.feed offset arrivals = .ok (reassembled original fragments [] arrivals)

structure Fragmentable (chain : List UnfragmentableHeader) (upper : UInt8) (payload : List UInt8)
    (ipv6Header : Ipv6Header) (maxFragmentSize : Nat) : Prop where
  linked : HeaderChain chain upper
  header : ipv6Header.nextHeader = firstNumber chain upper
  fits : (encodeHeaders chain ++ payload).length ≤ 65535
  least : 1280 ≤ maxFragmentSize
  word : maxFragmentSize < 2 ^ 32
  room : Ipv6Header.getSerializedSize + headersSize (unfragmentable chain) +
    Ipv6ExtensionFragmentHeader.getSerializedSize + 8 ≤ maxFragmentSize

section

variable (hpkt : Fragmentable chain upper payload ipv6Header maxFragmentSize)
include hpkt

variable {fuel : Nat}

theorem getFragments_ok {fragments : List Ipv6Fragment}
    (hok :
      getFragments fuel identification (encodeHeaders chain ++ payload) ipv6Header maxFragmentSize =
        .ok fragments) :
    ∃ header,
      header.sourceAddress = ipv6Header.sourceAddress ∧
        fragmentLoop (partOf chain upper payload) identification header
          (maxFragmentablePartSize maxFragmentSize (partOf chain upper payload)) fuel 0 =
          .ok fragments := by
  obtain ⟨part, hpart, hloop⟩ := bind_eq_ok.mp hok
  have hmore := unfragmentablePart_mono hpart (chain.length + 1)
  rw [hpkt.header, unfragmentablePart_eq hpkt.linked payload
    (Nat.lt_of_lt_of_le (Nat.lt_succ_self _) (Nat.le_add_left _ _))] at hmore
  cases hmore
  refine ⟨_, ?_, hloop⟩
  split
  · rfl
  · rfl

theorem Fragmentable.sizes :
    headersSize (unfragmentable chain) + (partOf chain upper payload).p.length ≤ 65535 ∧
      headersCounted (unfragmentable chain) ≤ headersSize (unfragmentable chain) ∧
      (headersSize (unfragmentable chain) < 256 →
        headersCounted (unfragmentable chain) = headersSize (unfragmentable chain)) := by
  have hwf : ∀ header ∈ unfragmentable chain, header.WellFormed :=
    fun header hmem => hpkt.linked.headers header (mem_unfragmentable hmem)
  have hsplit : encodeHeaders chain =
      encodeHeaders (unfragmentable chain) ++ encodeHeaders (fragmentable chain) := by
    rw [encodeHeaders, encodeHeaders, encodeHeaders, ← flatMap_append, unfragmentable,
      fragmentable, takeWhile_append_dropWhile]
  have hfits := hpkt.fits
  refine ⟨?_, headersCounted_le hwf⟩
  rw [hsplit, append_assoc, length_append,
    length_encodeHeaders fun header hmem => (hwf header hmem).complete] at hfits
  exact hfits

theorem Fragmentable.limit :
    maxFragmentablePartSize maxFragmentSize (partOf chain upper payload) =
      maxFragmentSize - 48 - headersCounted (unfragmentable chain) ∧
      8 ≤ maxFragmentSize - 48 - headersCounted (unfragmentable chain) := by
  obtain ⟨hfits, hle, -⟩ := hpkt.sizes
  have hroom := hpkt.room
  rw [Ipv6Header.getSerializedSize, Ipv6ExtensionFragmentHeader.getSerializedSize] at hroom
  have hword : uint32 (headersCounted (unfragmentable chain)) =
      headersCounted (unfragmentable chain) := uint32_of_lt (by omega)
  have heq := (@maxFragmentablePartSize_eq maxFragmentSize (partOf chain upper payload)
    (headersCounted (unfragmentable chain)) rfl hpkt.least hpkt.word).1 (by rw [hword]; omega)
  rw [hword] at heq
  exact ⟨heq, by omega⟩

theorem getFragments_ends :
    ∃ fuel fragments, getFragments fuel identification (encodeHeaders chain ++ payload) ipv6Header
        maxFragmentSize = .ok fragments := by
  obtain ⟨hfits, -, -⟩ := hpkt.sizes
  obtain ⟨hlim, hleast⟩ := hpkt.limit
  have hpart := unfragmentablePart_eq hpkt.linked payload (Nat.lt_succ_self chain.length)
  have hends : LoopEnds (partOf chain upper payload).p.length
      (maxFragmentSize - 48 - headersCounted (unfragmentable chain)) 0 := by
    have hword := hpkt.word
    by_cases hlong : maxFragmentSize - 48 - headersCounted (unfragmentable chain) < 65536
    · exact loopEnds_of_short (by omega) hleast (by omega) (Nat.zero_le _)
    · exact .last (by rw [Nat.zero_add, uint32_of_lt (by omega)]; omega) (Nat.zero_le _)
  obtain ⟨enough, hfrags⟩ := @ok_of_loopEnds (partOf chain upper payload) identification
    (if (partOf chain upper payload).headers.isEmpty then
      { ipv6Header with nextHeader := IPV6_EXT_FRAGMENTATION } else ipv6Header) _ 0
    (by omega) hends
  obtain ⟨fragments, hok⟩ := hfrags (chain.length + 1 + enough) (Nat.le_add_left _ _)
  refine ⟨chain.length + 1 + enough, fragments, bind_eq_ok.mpr ⟨partOf chain upper payload, ?_, ?_⟩⟩
  · rw [hpkt.header]
    exact unfragmentablePart_mono hpart enough
  · rw [hlim]
    exact hok

theorem fragments_fit (hsmall : headersSize (unfragmentable chain) < 256) {header : Ipv6Header}
    {fragments : List Ipv6Fragment}
    (hloop :
      fragmentLoop (partOf chain upper payload) identification header
        (maxFragmentSize - 48 - headersCounted (unfragmentable chain)) fuel 0 = .ok fragments) :
    ∀ fragment ∈ fragments,
      Ipv6Header.getSerializedSize + fragment.packet.length ≤ maxFragmentSize := by
  intro fragment hmem
  obtain ⟨hfits, -, hcnt⟩ := hpkt.sizes
  obtain ⟨-, hleast⟩ := hpkt.limit
  obtain ⟨headers, -, htaken⟩ := unfragmentable_of_ok
    (unfragmentablePart_eq hpkt.linked payload (Nat.lt_succ_self chain.length))
  have hsz : headersSize (announceFragment (unfragmentable chain)) = totalSize headers :=
    htaken.size
  have hbd := length_le_of_mem htaken (by omega) hloop fragment hmem
  rw [headersSize_announce] at hsz
  rw [← hsz, hcnt hsmall] at hbd
  rw [hcnt hsmall] at hleast
  rw [Ipv6Header.getSerializedSize]
  omega

theorem inverse_iff {fragments arrivals : List Ipv6Fragment} {extension : Ipv6ExtensionFragment}
    (hok :
      getFragments fuel identification (encodeHeaders chain ++ payload) ipv6Header maxFragmentSize =
        .ok fragments) (harr : ∀ fragment ∈ arrivals, fragment ∈ fragments)
    (hfresh : extension.fragments.lookup (ipv6Header.sourceAddress, identification) = none) :
    Inverse maxFragmentSize (headersSize (unfragmentable chain)) (original chain upper payload)
      extension fragments arrivals ↔
      headersSize (unfragmentable chain) < 256 ∧ CopyFree fragments [] arrivals ∧
        ((∀ fragment ∈ fragments, fragment ∈ arrivals) → (unfragmentable chain).length ≤ 1) := by
  by_cases hsmall : headersSize (unfragmentable chain) < 256
  · rw [and_iff_right hsmall]
    obtain ⟨hfits, -, -⟩ := hpkt.sizes
    obtain ⟨hlim, hleast⟩ := hpkt.limit
    obtain ⟨header, hsource, hloop⟩ := getFragments_ok hpkt hok
    have hword := hpkt.word
    have hshort : (partOf chain upper payload).p.length ≤ 65535 := by
      omega
    rw [hlim] at hloop
    have hfit := fragments_fit hpkt hsmall hloop
    have htiles := tiles_of_ok hshort hleast (by omega) rfl (.inr rfl) (.inl rfl) hloop
    have hfull : ∀ header ∈ announceFragment (unfragmentable chain), header.Complete :=
      complete_announce fun header hmem =>
        (hpkt.linked.headers header (mem_unfragmentable hmem)).complete
    -- the byte that says where the fragmentable part begins holds all of the size
    have hplace : (UInt8.ofNat (headersSize (unfragmentable chain))).toNat =
        headersSize (unfragmentable chain) := ofNat_toNat hsmall
    have hfront : (encodeHeaders (announceFragment (unfragmentable chain)).reverse).length =
        headersSize (unfragmentable chain) := by
      rw [length_encodeHeaders fun header hmem => hfull header (mem_reverse.mp hmem),
        headersSize_reverse, headersSize_announce]
    have hholds : Holds (cutOf (partOf chain upper payload) identification header) fragments []
        (extension.held (cutOf (partOf chain upper payload) identification header)) := by
      have hnone : extension.fragments.lookup (header.sourceAddress, identification) = none := by
        rw [hsource]
        exact hfresh
      have hheld : extension.held (cutOf (partOf chain upper payload) identification header) =
          {} := by
        rw [held]
        change (extension.fragments.lookup (header.sourceAddress, identification)).getD {} = {}
        rw [hnone]
        rfl
      rw [hheld]
      exact .empty _ _
    have hfeed : ∀ {offset : UInt8}, offset.toNat = headersSize (unfragmentable chain) →
        extension.feed offset arrivals = .ok (outcome
          (cutOf (partOf chain upper payload) identification header).whole fragments [] arrivals) :=
      fun hoff => feed_eq htiles hshort (hoff.trans hfront.symm)
        (fun _ h => absurd h not_mem_nil) (fun _ _ => rfl) hholds harr
    have hsome : fragments ≠ [] := htiles.ne_nil
    -- the source writes the kept headers in reverse, so the packet is the old one for at most one
    have hwhole : (cutOf (partOf chain upper payload) identification header).whole =
        original chain upper payload ↔ (unfragmentable chain).length ≤ 1 := by
      rw [← encode_reverse_iff hpkt.linked, original, Cut.whole, Prod.mk.injEq]
      exact (and_iff_right rfl).trans (append_left_inj _)
    have hcompare := @outcome_eq_iff fragments [] arrivals
      (cutOf (partOf chain upper payload) identification header).whole
      (original chain upper payload) hsome fun hall =>
        hsome (eq_nil_iff_forall_not_mem.mpr fun other hother =>
          not_mem_nil (hall other hother))
    rw [hwhole] at hcompare
    have hin : (∀ fragment ∈ fragments, fragment ∈ arrivals) ↔
        ∀ fragment ∈ fragments, fragment ∈ [] ∨ fragment ∈ arrivals :=
      forall₂_congr fun fragment _ => (or_iff_right not_mem_nil).symm
    rw [hin, ← hcompare]
    constructor
    · intro hinv
      obtain ⟨offset, hoff, hres⟩ := hinv.reassembles
      exact Except.ok.inj ((hfeed hoff).symm.trans hres)
    · intro hsame
      exact ⟨hfit, _, hplace, by rw [hfeed hplace, hsame]⟩
  · refine iff_of_false (fun hinv => ?_) fun h => hsmall h.1
    obtain ⟨offset, hplace, -⟩ := hinv.reassembles
    -- a size of 256 or more has no place in a byte
    have hbyte := offset.toNat_lt
    exact hsmall (hplace ▸ hbyte)

end

/-- Every packet is cut to the end. Its fragments fit and give it back, in any order and with any
copies, just when the unfragmentable headers are shorter than 256 bytes, no copy of a fragment
comes before the last one is there, and, where all have come, there is at most one such header. -/
theorem getFragments_inverse_iff
    (hpkt : Fragmentable chain upper payload ipv6Header maxFragmentSize) :
    (∃ fuel fragments, getFragments fuel identification (encodeHeaders chain ++ payload) ipv6Header
        maxFragmentSize = .ok fragments) ∧
      ∀ fuel fragments,
        getFragments fuel identification (encodeHeaders chain ++ payload) ipv6Header
          maxFragmentSize = .ok fragments →
          ∀ arrivals : List Ipv6Fragment,
            (∀ fragment ∈ arrivals, fragment ∈ fragments) →
              ∀ extension : Ipv6ExtensionFragment,
                extension.fragments.lookup (ipv6Header.sourceAddress, identification) = none →
                  (Inverse maxFragmentSize (headersSize (unfragmentable chain))
                    (original chain upper payload) extension fragments arrivals ↔
                    headersSize (unfragmentable chain) < 256 ∧ CopyFree fragments [] arrivals ∧
                      ((∀ fragment ∈ fragments, fragment ∈ arrivals) →
                        (unfragmentable chain).length ≤ 1)) :=
  ⟨getFragments_ends hpkt, fun _ _ hok _ harrivals _ hfresh =>
    inverse_iff hpkt hok harrivals hfresh⟩

end Inverse

/-! ## Two chains and a copy -/

def padHeader (nextHeader : UInt8) : UnfragmentableHeader :=
  .hopByHop ⟨nextHeader, 0, [1, 4, 0, 0, 0, 0]⟩

def routingHeader : UnfragmentableHeader := .routing ⟨17, 0, 0, 0, []⟩

def fromOne (nextHeader : UInt8) : Ipv6Header :=
  ⟨List.replicate 16 1, List.replicate 16 2, 64, nextHeader, 0⟩

theorem headerChain_padRouting : HeaderChain [padHeader 43, routingHeader] 17 := by
  refine ⟨fun header hmem => ?_, ⟨rfl, rfl, trivial⟩, by decide⟩
  rcases mem_cons.mp hmem with rfl | hmem
  · exact rfl
  · obtain rfl := mem_singleton.mp hmem
    exact ⟨⟨rfl, fun _ hnone => absurd hnone not_mem_nil⟩, rfl, rfl⟩

theorem fragmentable_padRouting :
    Fragmentable [padHeader 43, routingHeader] 17 [1, 2, 3] (fromOne 0) 1280 :=
  ⟨headerChain_padRouting, rfl, by decide, by decide, by decide, by decide⟩

def onlyFragment (chain : List UnfragmentableHeader) : Ipv6Fragment :=
  let packet := addHeaders (partOf chain 17 [1, 2, 3]) 7 0 false [1, 2, 3]
  ⟨packet, { fromOne 0 with payloadLength := UInt16.ofNat packet.length }⟩

def longPayload : List UInt8 := List.replicate 1300 0

theorem fragmentable_long : Fragmentable [] 17 longPayload (fromOne 17) 1280 :=
  ⟨⟨fun _ hnone => absurd hnone not_mem_nil, trivial, by decide⟩, rfl, by decide +kernel,
    by decide, by decide, by decide⟩

@[irreducible] def longFragments : List Ipv6Fragment :=
  match getFragments 3 7 longPayload (fromOne 17) 1280 with
  | .ok fragments => fragments
  | .error _ => []

theorem getFragments_long :
    getFragments 3 7 (encodeHeaders [] ++ longPayload) (fromOne 17) 1280 = .ok longFragments := by
  decide +kernel

/-- The second of two fragments arrives first. -/
theorem getFragments_inverse_iff_reverse :
    longFragments.length = 2 ∧
      Inverse 1280 (headersSize (unfragmentable [])) (original [] 17 longPayload) {} longFragments
        longFragments.reverse := by
  have hiff := (@getFragments_inverse_iff _ _ _ 7 _ _ fragmentable_long).2 3 longFragments
    getFragments_long longFragments.reverse (fun _ => mem_reverse.mp) {} rfl
  exact ⟨by decide +kernel, hiff.mpr ⟨by decide, by decide +kernel, fun _ => by decide⟩⟩

def firstTwice : List Ipv6Fragment := longFragments.take 1 ++ longFragments

theorem mem_of_mem_firstTwice : ∀ fragment ∈ firstTwice, fragment ∈ longFragments := by
  intro fragment hmem
  rcases mem_append.mp hmem with hfst | hall
  · exact mem_of_mem_take hfst
  · exact hall

theorem not_copyFree_firstTwice : ¬ CopyFree longFragments [] firstTwice := by
  decide +kernel

/-- Two unfragmentable headers come out in the opposite order; and if the first of two fragments
comes twice before the second, nothing does. -/
theorem not_inverse :
    (Fragmentable [padHeader 43, routingHeader] 17 [1, 2, 3] (fromOne 0) 1280 ∧
      getFragments 3 7 (encodeHeaders [padHeader 43, routingHeader] ++ [1, 2, 3]) (fromOne 0) 1280 =
        .ok [onlyFragment [padHeader 43, routingHeader]] ∧
      ¬ Inverse 1280 16 (original [padHeader 43, routingHeader] 17 [1, 2, 3]) {}
        [onlyFragment [padHeader 43, routingHeader]] [onlyFragment [padHeader 43, routingHeader]]) ∧
      (Fragmentable [] 17 longPayload (fromOne 17) 1280 ∧
        getFragments 3 7 (encodeHeaders [] ++ longPayload) (fromOne 17) 1280 = .ok longFragments ∧
        ¬ Inverse 1280 (headersSize (unfragmentable [])) (original [] 17 longPayload) {}
          longFragments firstTwice) := by
  have hshort : getFragments 3 7 (encodeHeaders [padHeader 43, routingHeader] ++ [1, 2, 3])
      (fromOne 0) 1280 = .ok [onlyFragment [padHeader 43, routingHeader]] := by
    decide +kernel
  refine ⟨⟨fragmentable_padRouting, hshort, fun hinverse => ?_⟩,
    ⟨fragmentable_long, getFragments_long, fun hinverse => ?_⟩⟩
  · have hone := ((inverse_iff fragmentable_padRouting hshort (fun _ h => h) rfl).mp
      hinverse).2.2 fun _ h => h
    exact absurd hone (by decide)
  · have hiff := @inverse_iff [] 17 longPayload 7 (fromOne 17) 1280 fragmentable_long 3
      longFragments firstTwice {} getFragments_long mem_of_mem_firstTwice rfl
    exact not_copyFree_firstTwice (hiff.mp hinverse).2.1

end HomaSird.Internet
