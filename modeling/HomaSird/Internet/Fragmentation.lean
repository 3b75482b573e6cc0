import Mathlib.Data.List.Basic
import HomaSird.Internet.Ipv4Header

/-! # IPv4 fragmentation

`DoFragmentation` cuts a datagram, or a fragment of one, into fragments that fit an MTU. What
comes out of any number of cuts are slices of the payload that follow on one another.
-/

namespace HomaSird.Internet

open Ipv4Header List

/-- A packet and its header, `Ipv4PayloadHeaderPair`. -/
structure Fragment where
  header : Ipv4Header
  bytes : List UInt8
deriving DecidableEq

namespace Fragment

/-- `(outIfaceMtu - GetSerializedSize ()) & ~7` on 32-bit words -/
def fragmentSize (outIfaceMtu : Nat) : Nat :=
  uint32OfInt (outIfaceMtu - Ipv4Header.getSerializedSize) / 8 * 8

/-- `CreateFragment` -/
def createFragment (p : List UInt8) (start size : Nat) : List UInt8 := (p.drop start).take size

/-- One round of the loop of `DoFragmentation`: the fragment and whether more follow. -/
def fragmentRound (checksumEnabled : Bool) (packet : Fragment) (fragmentSize offset : Nat) :
    Option (Fragment × Bool) := do
  let moreFragment : Bool := packet.bytes.length > uint32 (offset + fragmentSize)
  let currentFragmentablePartSize :=
    if moreFragment then fragmentSize else uint32OfInt (packet.bytes.length - offset)
  let fragmentHeader :=
    if moreFragment then packet.header.setMoreFragments
    else if !packet.header.isLastFragment then packet.header.setMoreFragments
    else packet.header.setLastFragment
  let fragment := createFragment packet.bytes offset currentFragmentablePartSize
  let fragmentHeader ←
    fragmentHeader.setFragmentOffset (uint16 (offset + packet.header.fragmentOffset))
  let fragmentHeader := fragmentHeader.setPayloadSize (uint16 currentFragmentablePartSize)
  let fragmentHeader := if checksumEnabled then fragmentHeader.enableChecksum else fragmentHeader
  return (⟨fragmentHeader, fragment⟩, moreFragment)

def fragmentLoop (checksumEnabled : Bool) (packet : Fragment) (fragmentSize : Nat) :
    Nat → Nat → Option (List Fragment)
  | 0, _ => none
  | fuel + 1, offset => do
    let (fragment, moreFragment) ← fragmentRound checksumEnabled packet fragmentSize offset
    if moreFragment then
      let rest ← fragmentLoop checksumEnabled packet fragmentSize fuel
        (uint16 (offset + fragmentSize))
      return fragment :: rest
    else return [fragment]

/-- No result where an offset is refused, or after more rounds than the packet has bytes. -/
def doFragmentation (checksumEnabled : Bool) (packet : Fragment) (outIfaceMtu : Nat) :
    Option (List Fragment) :=
  fragmentLoop checksumEnabled packet (fragmentSize outIfaceMtu) (packet.bytes.length + 1) 0

/-! ## Slices -/

structure SameDatagram (header other : Ipv4Header) : Prop where
  source : header.source = other.source
  destination : header.destination = other.destination
  identification : header.identification = other.identification
  protocol : header.protocol = other.protocol

/-- The fragment that holds the bytes of a datagram from `start` to `stop`. -/
structure IsSlice (datagram : Fragment) (start stop : Nat) (more : Bool) (fragment : Fragment) :
    Prop where
  same : SameDatagram fragment.header datagram.header
  offset : fragment.header.fragmentOffset = start
  size : fragment.header.payloadSize = stop - start
  more : fragment.header.moreFragments = more
  bytes : fragment.bytes = createFragment datagram.bytes start (stop - start)
  aligned : start % 8 = 0
  ordered : start ≤ stop
  bounded : stop ≤ datagram.bytes.length

/-- Fragments that follow on from `start` to `stop`, all with more to come but perhaps the last;
only an empty datagram has an empty slice. -/
inductive Tiles (datagram : Fragment) (stop : Nat) (more : Bool) : Nat → List Fragment → Prop where
  | last {start : Nat} {fragment : Fragment}
      (hslice : IsSlice datagram start stop more fragment)
      (hfilled : start < stop ∨ datagram.bytes = []) : Tiles datagram stop more start [fragment]
  | cons {start middle : Nat} {fragment : Fragment} {rest : List Fragment}
      (hslice : IsSlice datagram start middle true fragment) (hfilled : start < middle)
      (hrest : Tiles datagram stop more middle rest) :
      Tiles datagram stop more start (fragment :: rest)

variable {datagram fragment : Fragment} {start middle stop : Nat} {more : Bool}
  {fragments front back pieces : List Fragment}

theorem length_createFragment {p : List UInt8} {size : Nat}
    (hbd : start + size ≤ p.length) : (createFragment p start size).length = size := by
  rw [createFragment, length_take, length_drop]
  omega

theorem IsSlice.length (hslice : IsSlice datagram start stop more fragment) :
    fragment.bytes.length = stop - start := by
  have hord := hslice.ordered
  have hbd := hslice.bounded
  rw [hslice.bytes]
  exact length_createFragment (by omega)

theorem createFragment_createFragment {p : List UInt8} {size offset part : Nat}
    (hfits : offset + part ≤ size) :
    createFragment (createFragment p start size) offset part =
      createFragment p (start + offset) part := by
  rw [createFragment, createFragment, createFragment, drop_take, drop_drop,
    take_take, Nat.min_eq_left (by omega)]

/-! ## The loop -/

theorem fragmentSize_spec {mtu : Nat} (hmtu : 68 ≤ mtu) (hword : mtu < 2 ^ 32) :
    fragmentSize mtu + 20 ≤ mtu ∧ 8 ≤ fragmentSize mtu ∧ fragmentSize mtu % 8 = 0 := by
  have hsz : uint32OfInt (mtu - getSerializedSize) = mtu - 20 := by
    rw [uint32OfInt, getSerializedSize]
    omega
  rw [fragmentSize, hsz]
  omega

/-- The fragment that a round makes of `part` bytes. -/
def cut (checksumEnabled : Bool) (packet : Fragment) (moreFragment : Bool) (offset part : Nat) :
    Fragment where
  header := { packet.header with
    moreFragments := moreFragment || packet.header.moreFragments
    fragmentOffset := packet.header.fragmentOffset + offset
    payloadSize := part
    calcChecksum := checksumEnabled || packet.header.calcChecksum }
  bytes := createFragment packet.bytes offset part

theorem fragmentRound_eq (checksumEnabled : Bool) (packet : Fragment) {size offset : Nat}
    (hsz : offset + size < 2 ^ 32) (hoff : offset ≤ packet.bytes.length)
    (hfits : packet.header.fragmentOffset + packet.bytes.length ≤ 65515)
    (halign : (packet.header.fragmentOffset + offset) % 8 = 0) :
    fragmentRound checksumEnabled packet size offset =
      if offset + size < packet.bytes.length then
        some (packet.cut checksumEnabled true offset size, true)
      else some
          (packet.cut checksumEnabled false offset (packet.bytes.length - offset), false) := by
  have hplace : uint16 (offset + packet.header.fragmentOffset) =
      packet.header.fragmentOffset + offset := by
    rw [uint16_of_lt (by omega), Nat.add_comm]
  have hrest : uint32OfInt (packet.bytes.length - offset) = packet.bytes.length - offset := by
    rw [uint32OfInt]
    omega
  have hset : ∀ header : Ipv4Header,
      header.setFragmentOffset (packet.header.fragmentOffset + offset) =
        some { header with fragmentOffset := packet.header.fragmentOffset + offset } :=
    fun header => if_neg (by omega)
  rw [fragmentRound, hplace, hrest, uint32_of_lt hsz]
  by_cases hmore : offset + size < packet.bytes.length
  · rw [if_pos hmore]
    simp only [hmore, decide_true, if_true, hset, cut]
    rw [uint16_of_lt (by omega)]
    cases checksumEnabled <;> simp [setMoreFragments,
      setPayloadSize, enableChecksum]
  · rw [if_neg hmore]
    simp only [hmore, decide_false, Bool.false_eq_true, if_false, hset, cut]
    rw [uint16_of_lt (by omega)]
    cases hflag : packet.header.moreFragments <;> cases checksumEnabled <;>
      simp [isLastFragment, hflag, setMoreFragments,
        setLastFragment, setPayloadSize, enableChecksum]

theorem IsSlice.cut (hslice : IsSlice datagram start stop more fragment) (checksumEnabled : Bool)
    {moreFragment : Bool} {offset part : Nat} (hpart : offset + part ≤ fragment.bytes.length)
    (halign : offset % 8 = 0) :
    IsSlice datagram (start + offset) (start + offset + part) (moreFragment || more)
      (fragment.cut checksumEnabled moreFragment offset part) where
  same := ⟨hslice.same.source, hslice.same.destination, hslice.same.identification,
    hslice.same.protocol⟩
  offset := congrArg (· + offset) hslice.offset
  size := by simp [Fragment.cut]
  more := congrArg (moreFragment || ·) hslice.more
  bytes := by
    rw [hslice.length] at hpart
    rw [Fragment.cut, hslice.bytes, createFragment_createFragment hpart, Nat.add_sub_cancel_left]
  aligned := by
    have hstart := hslice.aligned
    omega
  ordered := Nat.le_add_right _ _
  bounded := by
    have hbd := hslice.bounded
    have hord := hslice.ordered
    rw [hslice.length] at hpart
    omega

theorem fragmentLoop_spec (checksumEnabled : Bool)
    (hslice : IsSlice datagram start stop more fragment) (hfits : datagram.bytes.length ≤ 65515)
    {size fuel offset : Nat} (hsz : 8 ≤ size) (hword : size < 2 ^ 32)
    (hshort : offset = 0 ∨ size < 2 ^ 16) (halign : size % 8 = 0) (hoff : offset % 8 = 0)
    (hleft : offset < fragment.bytes.length ∨ datagram.bytes = [] ∧ offset = 0)
    (hfuel : fragment.bytes.length < offset + fuel) :
    ∃ pieces,
      fragmentLoop checksumEnabled fragment size fuel offset = some pieces ∧
        Tiles datagram stop more (start + offset) pieces ∧
        ∀ piece ∈ pieces, piece.bytes.length ≤ size := by
  have hlen := hslice.length
  have hord := hslice.ordered
  have hbd := hslice.bounded
  have hstart := hslice.aligned
  have hplace := hslice.offset
  induction fuel generalizing offset with
  | zero => omega
  | succ fuel ih =>
    have hin : offset ≤ fragment.bytes.length := by omega
    have hround := @fragmentRound_eq checksumEnabled fragment size offset (by omega) hin
      (by omega) (by omega)
    rw [fragmentLoop, hround]
    split
    next hmore =>
      have hpiece := @IsSlice.cut _ _ _ _ _ hslice checksumEnabled true offset size
        (Nat.le_of_lt hmore) hoff
      obtain ⟨rest, hrest, htiles, hfit⟩ := @ih (offset + size) (.inr (by omega)) (by omega)
        (.inl hmore) (by omega)
      rw [← Nat.add_assoc] at htiles
      refine ⟨_ :: rest, ?_, .cons hpiece (by omega) htiles, fun piece hmem => ?_⟩
      · change
          (fragmentLoop checksumEnabled fragment size fuel (uint16 (offset + size)) >>= _) = _
        rw [uint16_of_lt (by omega), hrest]
        rfl
      · rcases mem_cons.mp hmem with rfl | hmem
        · rw [hpiece.length]
          omega
        · exact hfit piece hmem
    next hlast =>
      have hpiece := @IsSlice.cut _ _ _ _ _ hslice checksumEnabled false offset
        (fragment.bytes.length - offset) (by omega) hoff
      have hend : start + offset + (fragment.bytes.length - offset) = stop := by omega
      rw [hend, Bool.false_or] at hpiece
      refine ⟨[_], rfl, .last hpiece (hleft.imp (fun hless => by omega) And.left),
        fun piece hmem => ?_⟩
      rw [mem_singleton.mp hmem, hpiece.length]
      omega

theorem doFragmentation_spec (checksumEnabled : Bool)
    (hslice : IsSlice datagram start stop more fragment)
    (hfilled : start < stop ∨ datagram.bytes = []) (hfits : datagram.bytes.length ≤ 65515)
    {mtu : Nat} (hmtu : 68 ≤ mtu) (hword : mtu < 2 ^ 32) :
    ∃ pieces,
      doFragmentation checksumEnabled fragment mtu = some pieces ∧
        Tiles datagram stop more start pieces ∧
        ∀ piece ∈ pieces, getSerializedSize + piece.bytes.length ≤ mtu := by
  obtain ⟨hsum, hsz, halign⟩ := fragmentSize_spec hmtu hword
  have hlen := hslice.length
  obtain ⟨pieces, hpieces, htiles, hfit⟩ := @fragmentLoop_spec _ _ _ _ _ checksumEnabled hslice
    hfits (fragmentSize mtu) (fragment.bytes.length + 1) 0 hsz (by omega) (.inl rfl) halign rfl
    (hfilled.imp (fun hless => by omega) fun hnil => ⟨hnil, rfl⟩) (by omega)
  refine ⟨pieces, hpieces, htiles, fun piece hmem => ?_⟩
  have hpiece := hfit piece hmem
  rw [getSerializedSize]
  omega

/-! ## Chains of cuts -/

inductive Fragmented (checksumEnabled : Bool) (datagram : Fragment) : List Fragment → Prop where
  | whole : Fragmented checksumEnabled datagram [datagram]
  | again {front back pieces : List Fragment} {fragment : Fragment} {mtu : Nat}
      (hprior : Fragmented checksumEnabled datagram (front ++ fragment :: back))
      (hmtu : 68 ≤ mtu) (hword : mtu < 2 ^ 32)
      (hpieces : doFragmentation checksumEnabled fragment mtu = some pieces) :
      Fragmented checksumEnabled datagram (front ++ pieces ++ back)

structure Whole (datagram : Fragment) : Prop where
  offset : datagram.header.fragmentOffset = 0
  more : datagram.header.moreFragments = false
  size : datagram.header.payloadSize = datagram.bytes.length
  fits : datagram.bytes.length ≤ 65515

theorem Whole.slice (hwhole : Whole datagram) :
    IsSlice datagram 0 datagram.bytes.length false datagram where
  same := ⟨rfl, rfl, rfl, rfl⟩
  offset := hwhole.offset
  size := hwhole.size
  more := hwhole.more
  bytes := by rw [createFragment, drop_zero, Nat.sub_zero, take_length]
  aligned := rfl
  ordered := Nat.zero_le _
  bounded := Nat.le_refl _

theorem Tiles.slice (htiles : Tiles datagram stop more start fragments)
    (hmem : fragment ∈ fragments) :
    ∃ first last flag,
      IsSlice datagram first last flag fragment ∧ (first < last ∨ datagram.bytes = []) := by
  induction htiles with
  | last hslice hfilled =>
    rw [mem_singleton] at hmem
    exact ⟨_, _, _, hmem ▸ hslice, hfilled⟩
  | cons hslice hfilled _ ih =>
    rcases mem_cons.mp hmem with rfl | hmem
    · exact ⟨_, _, _, hslice, .inl hfilled⟩
    · exact ih hmem

theorem Tiles.append (hfront : Tiles datagram middle true start front)
    (hsome : datagram.bytes ≠ []) (hback : Tiles datagram stop more middle back) :
    Tiles datagram stop more start (front ++ back) := by
  induction hfront with
  | last hslice hfilled => exact .cons hslice (hfilled.resolve_right hsome) hback
  | cons hslice hfilled _ ih => exact .cons hslice hfilled ih

theorem IsSlice.ne_nil (hslice : IsSlice datagram start stop more fragment)
    (hfilled : start < stop) : datagram.bytes ≠ [] := by
  have hbd := hslice.bounded
  exact ne_nil_of_length_pos (by omega)

theorem Tiles.replace (htiles : Tiles datagram stop more start (front ++ fragment :: back)) :
    ∃ first last flag, IsSlice datagram first last flag fragment ∧
    (first < last ∨ datagram.bytes = []) ∧ ∀ pieces, Tiles datagram last flag first pieces →
    Tiles datagram stop more start (front ++ pieces ++ back) := by
  induction front generalizing start with
  | nil =>
    cases htiles with
    | last hslice hfilled => exact ⟨_, _, _, hslice, hfilled, fun pieces hpieces => by simpa⟩
    | cons hslice hfilled hrest =>
      exact ⟨_, _, _, hslice, .inl hfilled, fun pieces hpieces =>
        hpieces.append (hslice.ne_nil hfilled) hrest⟩
  | cons head front ih =>
    generalize hlist : head :: front ++ fragment :: back = all at htiles
    cases htiles with
    | last hslice hfilled => simp at hlist
    | cons hslice hfilled hrest =>
      obtain ⟨rfl, rfl⟩ := cons.inj hlist
      obtain ⟨first, last, flag, hcut, hsome, hkeep⟩ := ih hrest
      exact ⟨first, last, flag, hcut, hsome, fun pieces hpieces =>
        .cons hslice hfilled (hkeep pieces hpieces)⟩

theorem Fragmented.tiles {checksumEnabled : Bool}
    (hwhole : Whole datagram) (hfrag : Fragmented checksumEnabled datagram fragments) :
    Tiles datagram datagram.bytes.length false 0 fragments := by
  induction hfrag with
  | whole =>
    refine .last hwhole.slice ?_
    cases datagram.bytes with
    | nil => exact .inr rfl
    | cons head rest => exact .inl (Nat.zero_lt_succ _)
  | again _ hmtu hword hpieces ih =>
    obtain ⟨first, last, flag, hslice, hfilled, hkeep⟩ := ih.replace
    obtain ⟨pieces, hcut, htiles, -⟩ :=
      doFragmentation_spec checksumEnabled hslice hfilled hwhole.fits hmtu hword
    obtain rfl := Option.some.inj (hpieces.symm.trans hcut)
    exact hkeep _ htiles

/-- Each fragment starts where those before it end, all but the last carry a multiple of eight
bytes and have more to come, and together they are the payload. -/
structure FollowOn (payload : List UInt8) (fragments : List Fragment) : Prop where
  bytes : (fragments.flatMap Fragment.bytes) = payload
  offset : ∀ front fragment back, fragments = front ++ fragment :: back →
    fragment.header.fragmentOffset = (front.flatMap Fragment.bytes).length
  size : ∀ fragment ∈ fragments, fragment.header.payloadSize = fragment.bytes.length
  more : ∀ front fragment back, fragments = front ++ fragment :: back → back ≠ [] →
    fragment.bytes.length % 8 = 0 ∧ fragment.header.moreFragments = true
  last : ∀ front fragment, fragments = front ++ [fragment] → fragment.header.moreFragments = false

theorem createFragment_append (p : List UInt8) (hfst : start ≤ middle) (hsnd : middle ≤ stop) :
    createFragment p start (middle - start) ++ createFragment p middle (stop - middle) =
      createFragment p start (stop - start) := by
  have hsplit : stop - start = (middle - start) + (stop - middle) := by omega
  rw [createFragment, createFragment, createFragment, hsplit, take_add, drop_drop,
    Nat.add_sub_cancel' hfst]

theorem Tiles.le (htiles : Tiles datagram stop more start fragments) : start ≤ stop := by
  induction htiles with
  | last hslice _ => exact hslice.ordered
  | cons hslice _ _ ih => exact Nat.le_trans hslice.ordered ih

theorem Tiles.flatMap (htiles : Tiles datagram stop more start fragments) :
    fragments.flatMap Fragment.bytes = createFragment datagram.bytes start (stop - start) := by
  induction htiles with
  | last hslice _ => simpa using hslice.bytes
  | cons hslice _ hrest ih =>
    rw [flatMap_cons, ih, hslice.bytes, createFragment_append _ hslice.ordered hrest.le]

theorem Tiles.split (htiles : Tiles datagram stop more start (front ++ fragment :: back)) :
    fragment.header.fragmentOffset = start +
    (front.flatMap Fragment.bytes).length ∧ fragment.header.payloadSize = fragment.bytes.length ∧
    (back ≠ [] → fragment.bytes.length % 8 = 0 ∧ fragment.header.moreFragments = true) ∧
    (back = [] → fragment.header.moreFragments = more) := by
  induction front generalizing start with
  | nil =>
    cases htiles with
    | last hslice _ =>
      exact ⟨hslice.offset, hslice.size.trans hslice.length.symm, fun hne => absurd rfl hne,
        fun _ => hslice.more⟩
    | @cons _ middle _ _ hslice hfilled hrest =>
      have halign : middle % 8 = 0 := by
        cases hrest with
        | last hnext _ => exact hnext.aligned
        | cons hnext _ _ => exact hnext.aligned
      have hstart := hslice.aligned
      have hlen := hslice.length
      refine ⟨hslice.offset, hslice.size.trans hlen.symm, fun _ => ⟨by omega, hslice.more⟩,
        fun hnil => ?_⟩
      rw [hnil] at hrest
      cases hrest
  | cons head front ih =>
    generalize hlist : head :: front ++ fragment :: back = all at htiles
    cases htiles with
    | last hslice hfilled => simp at hlist
    | cons hslice hfilled hrest =>
      obtain ⟨rfl, rfl⟩ := cons.inj hlist
      obtain ⟨hoff, hrest⟩ := ih hrest
      refine ⟨?_, hrest⟩
      rw [hoff, flatMap_cons, length_append, hslice.length]
      omega

theorem Tiles.followOn (htiles : Tiles datagram datagram.bytes.length false 0 fragments) :
    FollowOn datagram.bytes fragments where
  bytes := by rw [htiles.flatMap, createFragment, drop_zero, Nat.sub_zero, take_length]
  offset front fragment back hlist := by
    rw [hlist] at htiles
    rw [htiles.split.1, Nat.zero_add]
  size fragment hmem := by
    obtain ⟨front, back, hlist⟩ := append_of_mem hmem
    rw [hlist] at htiles
    exact htiles.split.2.1
  more front fragment back hlist hne := by
    rw [hlist] at htiles
    exact htiles.split.2.2.1 hne
  last front fragment hlist := by
    rw [hlist] at htiles
    exact htiles.split.2.2.2 rfl

end Fragment

end HomaSird.Internet
