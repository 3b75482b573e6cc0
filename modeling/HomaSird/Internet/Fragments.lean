import Mathlib.Data.List.Count
import HomaSird.Data.UnorderedMap
import HomaSird.Internet.Fragmentation

/-! # IPv4 reassembly

`ProcessFragment` keeps the fragments of a datagram sorted by their offsets until they are entire:
as many copies of each as have arrived. The timers are left out: none of them fires here.
-/

namespace HomaSird.Internet

open List

/-- `Ipv4L3Protocol::Fragments`; a fragment is kept with its offset. -/
structure Fragments where
  moreFragment : Bool := false
  fragments : List (List UInt8 × Nat) := []
deriving DecidableEq

namespace Fragments

def insertItem (item : List UInt8 × Nat) : List (List UInt8 × Nat) → List (List UInt8 × Nat)
  | [] => [item]
  | first :: rest =>
    if first.2 > item.2 then item :: first :: rest else first :: insertItem item rest

def addFragment (fragments : Fragments) (fragment : List UInt8) (fragmentOffset : Nat)
    (moreFragment : Bool) : Fragments where
  moreFragment :=
    -- no item has a greater offset, so the loop ended at the end of the list
    if fragments.fragments.all fun item => item.2 ≤ fragmentOffset then moreFragment
    else fragments.moreFragment
  fragments := insertItem (fragment, fragmentOffset) fragments.fragments

/-- The loop of `IsEntire`. -/
def entireLoop : Nat → List (List UInt8 × Nat) → Bool
  | _, [] => true
  | lastEndOffset, item :: rest =>
    if lastEndOffset < item.2 then false
    else entireLoop (max lastEndOffset (uint16 (item.1.length + item.2))) rest

def isEntire (fragments : Fragments) : Bool :=
  !fragments.moreFragment && fragments.fragments.length > 0 && entireLoop 0 fragments.fragments

/-- The loop of `GetPacket`. -/
def packetLoop : List UInt8 → List (List UInt8 × Nat) → List UInt8
  | p, [] => p
  | p, item :: rest =>
    let lastEndOffset := uint16 p.length
    if lastEndOffset > item.2 then
      let newStart := lastEndOffset - item.2
      if item.1.length > newStart then
        packetLoop (p ++ Fragment.createFragment item.1 newStart (item.1.length - newStart)) rest
      else packetLoop p rest
    else packetLoop (p ++ item.1) rest

def getPacket (fragments : Fragments) : Option (List UInt8) :=
  match fragments.fragments with
  | [] => none
  | first :: rest => some (packetLoop first.1 rest)

end Fragments

abbrev FragmentKey := BitVec 64 × BitVec 32

structure Ipv4L3Protocol where
  fragments : UnorderedMap FragmentKey Fragments := ∅

namespace Ipv4L3Protocol

def fragmentKey (header : Ipv4Header) : FragmentKey :=
  (header.source.setWidth 64 <<< 32 ||| header.destination.setWidth 64,
    header.identification.setWidth 32 <<< 16 ||| header.protocol.setWidth 32)

def processFragment (protocol : Ipv4L3Protocol) (packet : Fragment) :
    Option (List UInt8) × Ipv4L3Protocol :=
  let key := fragmentKey packet.header
  let fragments := (protocol.fragments.lookup key).getD {}
  let fragments := fragments.addFragment packet.bytes packet.header.fragmentOffset
    !packet.header.isLastFragment
  if fragments.isEntire then (fragments.getPacket, ⟨protocol.fragments.erase key⟩)
  else (none, ⟨protocol.fragments.insert key fragments⟩)

def feed (protocol : Ipv4L3Protocol) : List Fragment → List (Option (List UInt8))
  | [] => []
  | packet :: rest =>
    let result := protocol.processFragment packet
    result.1 :: result.2.feed rest

end Ipv4L3Protocol

namespace Fragments

open Fragment (Tiles IsSlice createFragment)

/-! ## The list kept for a datagram -/

def item (fragment : Fragment) : List UInt8 × Nat :=
  (fragment.bytes, fragment.header.fragmentOffset)

def blocks (seen pieces : List Fragment) : List (List UInt8 × Nat) :=
  pieces.flatMap fun piece => List.replicate (seen.count piece) (item piece)

variable {datagram fragment : Fragment} {start stop : Nat} {pieces seen front back : List Fragment}

theorem blocks_cons (seen : List Fragment) (piece : Fragment) (rest : List Fragment) :
    blocks seen (piece :: rest) =
      replicate (seen.count piece) (item piece) ++ blocks seen rest := rfl

variable {entry : List UInt8 × Nat}

theorem mem_blocks :
    entry ∈ blocks seen pieces ↔ ∃ piece ∈ pieces, piece ∈ seen ∧ entry = item piece := by
  simp only [blocks, mem_flatMap, mem_replicate, ne_eq, count_eq_zero, not_not]

theorem insertItem_append {before after : List (List UInt8 × Nat)} (hpre : ∀ other ∈ before,
    other.2 ≤ entry.2) : insertItem entry (before ++ after) = before ++ insertItem entry after := by
  induction before with
  | nil => rfl
  | cons first rest ih =>
    obtain ⟨hfst, hrest⟩ := forall_mem_cons.mp hpre
    rw [cons_append, insertItem, if_neg (not_lt.mpr hfst), ih hrest, cons_append]

theorem insertItem_before {after : List (List UInt8 × Nat)}
    (hafter : ∀ other ∈ after, entry.2 < other.2) : insertItem entry after = entry :: after := by
  cases after with
  | nil => rfl
  | cons first rest => exact if_pos (hafter first mem_cons_self)

theorem blocks_of_not_mem (hnot : fragment ∉ pieces) :
    blocks (fragment :: seen) pieces = blocks seen pieces := by
  rw [blocks, blocks]
  refine flatMap_congr fun piece hpiece => ?_
  have hne : fragment ≠ piece := fun heq => hnot (heq ▸ hpiece)
  rw [count_cons_of_ne hne]

theorem insertItem_blocks
    (hsort : (front ++ fragment :: back).Pairwise fun piece other => piece.header.fragmentOffset <
      other.header.fragmentOffset) :
    insertItem (item fragment) (blocks seen (front ++ fragment :: back)) =
      blocks (fragment :: seen) (front ++ fragment :: back) := by
  obtain ⟨-, hback, hcross⟩ := pairwise_append.mp hsort
  obtain ⟨hlast, -⟩ := pairwise_cons.mp hback
  have hnotFront : fragment ∉ front := fun hmem =>
    lt_irrefl _ (hcross fragment hmem fragment mem_cons_self)
  have hnotBack : fragment ∉ back := fun hmem => lt_irrefl _ (hlast fragment hmem)
  have hsplit : ∀ seen, blocks seen (front ++ fragment :: back) =
      blocks seen front ++ (replicate (seen.count fragment) (item fragment) ++
        blocks seen back) := fun seen => flatMap_append
  rw [hsplit, hsplit, blocks_of_not_mem hnotFront, blocks_of_not_mem hnotBack,
    insertItem_append, insertItem_append, insertItem_before, count_cons_self,
    replicate_succ', append_assoc]
  · rfl
  · intro other hother
    obtain ⟨piece, hpiece, -, rfl⟩ := mem_blocks.mp hother
    exact hlast piece hpiece
  · intro other hother
    rw [eq_of_mem_replicate hother]
  · intro other hother
    obtain ⟨piece, hpiece, -, rfl⟩ := mem_blocks.mp hother
    exact le_of_lt (hcross piece hpiece fragment mem_cons_self)

/-! ## Whether all has arrived -/

section

variable (htiles : Tiles datagram stop false start pieces)
include htiles

theorem start_le : ∀ piece ∈ pieces, start ≤ piece.header.fragmentOffset := by
  induction htiles with
  | last hslice _ =>
    intro piece hmem
    rw [mem_singleton.mp hmem, hslice.offset]
  | cons hslice hfilled _ ih =>
    intro piece hmem
    rcases mem_cons.mp hmem with rfl | hmem
    · exact le_of_eq hslice.offset.symm
    · exact le_trans (le_of_lt hfilled) (ih piece hmem)

theorem sorted_of_tiles :
    pieces.Pairwise fun piece other => piece.header.fragmentOffset <
      other.header.fragmentOffset := by
  induction htiles with
  | last => exact pairwise_singleton _ _
  | cons hslice hfilled hrest ih =>
    refine pairwise_cons.mpr ⟨fun other hother => ?_, ih⟩
    have hle := start_le hrest other hother
    rw [hslice.offset]
    omega

theorem le_last {piece other : Fragment} (hpiece : piece ∈ pieces)
    (hlast : piece.header.moreFragments = false) (hother : other ∈ pieces) :
    other.header.fragmentOffset ≤ piece.header.fragmentOffset ∧ (other.header.moreFragments = true →
    other.header.fragmentOffset < piece.header.fragmentOffset) := by
  induction htiles with
  | last hslice _ =>
    obtain rfl := mem_singleton.mp hpiece
    obtain rfl := mem_singleton.mp hother
    exact ⟨le_rfl, fun hmore => absurd (hlast.symm.trans hmore) Bool.false_ne_true⟩
  | cons hslice hfilled hrest ih =>
    rcases mem_cons.mp hpiece with rfl | hbehind
    · exact absurd (hlast.symm.trans hslice.more) Bool.false_ne_true
    · rcases mem_cons.mp hother with rfl | hotherBehind
      · have hle := start_le hrest piece hbehind
        rw [hslice.offset]
        exact ⟨by omega, fun _ => by omega⟩
      · exact ih hbehind hotherBehind

end

theorem entireLoop_copies {lastEndOffset : Nat} (hend : entry.1.length + entry.2 = lastEndOffset)
    (hword : lastEndOffset < 2 ^ 16) (count : Nat) (rest : List (List UInt8 × Nat)) :
    entireLoop lastEndOffset (replicate count entry ++ rest) = entireLoop lastEndOffset rest := by
  induction count with
  | zero => rfl
  | succ count ih =>
    rw [replicate_succ, cons_append, entireLoop, if_neg (by omega), hend,
      uint16_of_lt hword, Nat.max_self, ih]

theorem entireLoop_block {last : Nat} (hstart : entry.2 = start) (hend : entry.1.length + entry.2 =
    last) (hword : last < 2 ^ 16) {count : Nat} (hsome : 0 < count) (rest : List (List UInt8 × Nat))
    : entireLoop start (replicate count entry ++ rest) = entireLoop last rest := by
  obtain ⟨more, rfl⟩ := Nat.exists_eq_add_of_le' hsome
  rw [replicate_succ, cons_append, entireLoop, if_neg (by omega), hend,
    uint16_of_lt hword, Nat.max_eq_right (by omega), entireLoop_copies hend hword]

theorem entireLoop_blocks (htiles : Tiles datagram stop false start pieces)
    (hfits : datagram.bytes.length ≤ 65515)
    (hlast : ∃ piece ∈ pieces, piece ∈ seen ∧ piece.header.moreFragments = false) :
    entireLoop start (blocks seen pieces) = true ↔ ∀ piece ∈ pieces, piece ∈ seen := by
  induction htiles with
  | @last start fragment hslice _ =>
    obtain ⟨piece, hpiece, hseen, -⟩ := hlast
    obtain rfl := mem_singleton.mp hpiece
    have hlen := hslice.length
    have hbd := hslice.bounded
    have hord := hslice.ordered
    have hoff := hslice.offset
    rw [blocks_cons, entireLoop_block hslice.offset (show _ = stop by simp only [item]; omega)
      (by omega) (count_pos_iff.mpr hseen)]
    exact iff_of_true rfl fun other hother => mem_singleton.mp hother ▸ hseen
  | @cons start middle fragment rest hslice hfilled hrest ih =>
    obtain ⟨piece, hpiece, hseen, hmore⟩ := hlast
    have hpieceRest : piece ∈ rest := (mem_cons.mp hpiece).resolve_left fun heq =>
      Bool.false_ne_true (hmore.symm.trans (heq ▸ hslice.more))
    have hlen := hslice.length
    have hbd := hslice.bounded
    have hoff := hslice.offset
    rw [blocks_cons, forall_mem_cons]
    by_cases hfst : fragment ∈ seen
    · rw [entireLoop_block hslice.offset (show _ = middle by simp only [item]; omega)
        (by omega) (count_pos_iff.mpr hfst), ih ⟨piece, hpieceRest, hseen, hmore⟩]
      exact (and_iff_right hfst).symm
    · rw [count_eq_zero.mpr hfst, replicate_zero, nil_append]
      refine iff_of_false (fun hentire => ?_) fun hboth => hfst hboth.1
      -- the first item is behind a gap
      cases hblocks : blocks seen rest with
      | nil =>
        have hmem := mem_blocks.mpr ⟨piece, hpieceRest, hseen, rfl⟩
        rw [hblocks] at hmem
        cases hmem
      | cons first others =>
        obtain ⟨other, hother, -, hitem⟩ :=
          (@mem_blocks rest seen first).mp (hblocks ▸ mem_cons_self)
        have hle := start_le hrest other hother
        have hgap : start < first.2 := by
          rw [hitem]
          exact lt_of_lt_of_le hfilled hle
        rw [hblocks, entireLoop, if_pos hgap] at hentire
        cases hentire

/-! ## The packet that is put together -/

variable {p : List UInt8}

theorem packetLoop_copies (hend : entry.1.length + entry.2 = p.length)
    (hword : p.length < 2 ^ 16) (count : Nat) (rest : List (List UInt8 × Nat)) :
    packetLoop p (replicate count entry ++ rest) = packetLoop p rest := by
  induction count with
  | zero => rfl
  | succ count ih =>
    rw [replicate_succ, cons_append, packetLoop, uint16_of_lt hword]
    split
    · rw [if_neg (by omega), ih]
    next hempty =>
      have hnil : entry.1 = [] := eq_nil_of_length_eq_zero (by omega)
      rw [hnil, append_nil, ih]

theorem packetLoop_block (hstart : entry.2 = p.length) (hword : entry.1.length + p.length < 2 ^ 16)
    {count : Nat} (hsome : 0 < count) (rest : List (List UInt8 × Nat)) :
    packetLoop p (replicate count entry ++ rest) = packetLoop (p ++ entry.1) rest := by
  obtain ⟨more, rfl⟩ := Nat.exists_eq_add_of_le' hsome
  rw [replicate_succ, cons_append, packetLoop, uint16_of_lt (by omega), if_neg (by omega)]
  exact packetLoop_copies (by rw [length_append]; omega)
    (by rw [length_append]; omega) _ _

theorem packetLoop_blocks (htiles : Tiles datagram stop false start pieces)
    (hfits : datagram.bytes.length ≤ 65515) (hall : ∀ piece ∈ pieces, piece ∈ seen) (hlen :
    p.length = start) : packetLoop p (blocks seen pieces) = p ++ pieces.flatMap Fragment.bytes := by
  induction htiles generalizing p with
  | @last start fragment hslice _ =>
    have hsz := hslice.length
    have hbd := hslice.bounded
    have hord := hslice.ordered
    have hoff := hslice.offset
    rw [blocks_cons, packetLoop_block (by simp only [item]; omega) (by simp only [item]; omega)
      (count_pos_iff.mpr (hall _ mem_cons_self)), flatMap_singleton]
    rfl
  | @cons start middle fragment rest hslice hfilled hrest ih =>
    obtain ⟨hfst, hallRest⟩ := forall_mem_cons.mp hall
    have hsz := hslice.length
    have hbd := hslice.bounded
    have hoff := hslice.offset
    rw [blocks_cons, packetLoop_block (by simp only [item]; omega) (by simp only [item]; omega)
      (count_pos_iff.mpr hfst), ih hallRest
        (by rw [length_append]; simp only [item]; omega), flatMap_cons,
      append_assoc]
    rfl

/-! ## Arrivals -/

structure Holds (pieces seen : List Fragment) (fragments : Fragments) : Prop where
  items : fragments.fragments = blocks seen pieces
  moreFragment : seen ≠ [] →
    (fragments.moreFragment = false ↔ ∃ piece ∈ seen, piece.header.moreFragments = false)

theorem Holds.empty (pieces : List Fragment) : Holds pieces [] {} where
  items := by simp [blocks]
  moreFragment hne := absurd rfl hne

variable {fragments : Fragments}

theorem tiles_last (htiles : Tiles datagram stop false start pieces) :
    ∃ piece ∈ pieces, piece.header.moreFragments = false := by
  induction htiles with
  | last hslice _ => exact ⟨_, mem_cons_self, hslice.more⟩
  | cons _ _ _ ih =>
    obtain ⟨piece, hpiece, hlast⟩ := ih
    exact ⟨piece, mem_cons_of_mem _ hpiece, hlast⟩

theorem Holds.add (htiles : Tiles datagram stop false start pieces)
    (hseen : ∀ piece ∈ seen, piece ∈ pieces) (hholds : Holds pieces seen fragments)
    (hmem : fragment ∈ pieces) :
    Holds pieces (fragment :: seen) (fragments.addFragment fragment.bytes
        fragment.header.fragmentOffset !fragment.header.isLastFragment) where
  items := by
    obtain ⟨front, back, rfl⟩ := append_of_mem hmem
    rw [addFragment, hholds.items]
    exact insertItem_blocks (sorted_of_tiles htiles)
  moreFragment _ := by
    have hflag : (!fragment.header.isLastFragment) = fragment.header.moreFragments := by
      rw [Ipv4Header.isLastFragment, Bool.not_not]
    have hends : (fragments.fragments.all fun item =>
        decide (item.2 ≤ fragment.header.fragmentOffset)) = true ↔
        ∀ piece ∈ seen, piece.header.fragmentOffset ≤ fragment.header.fragmentOffset := by
      rw [hholds.items, all_eq_true]
      constructor
      · intro hall piece hpiece
        exact of_decide_eq_true
          (hall (item piece) (mem_blocks.mpr ⟨piece, hseen piece hpiece, hpiece, rfl⟩))
      · intro hall entry hent
        obtain ⟨piece, -, hpiece, rfl⟩ := mem_blocks.mp hent
        exact decide_eq_true (hall piece hpiece)
    rw [addFragment, hflag]
    simp only [hends, exists_mem_cons_iff]
    cases hmore : fragment.header.moreFragments with
    | false =>
      rw [if_pos fun piece hpiece => (le_last htiles hmem hmore (hseen piece hpiece)).1]
      exact iff_of_true rfl (.inl rfl)
    | true =>
      have hnone : (∃ piece ∈ seen, piece.header.moreFragments = false) →
          ¬ ∀ piece ∈ seen, piece.header.fragmentOffset ≤ fragment.header.fragmentOffset := by
        rintro ⟨piece, hpiece, hlast⟩ hall
        have hless := (le_last htiles (hseen piece hpiece) hlast hmem).2 hmore
        exact not_lt.mpr (hall piece hpiece) hless
      split
      next hall =>
        exact iff_of_false (by simp) fun hsome =>
          hnone (hsome.resolve_left (by simp)) hall
      next hnot =>
        have hne : seen ≠ [] := by
          rintro rfl
          exact hnot fun _ hpiece => absurd hpiece not_mem_nil
        rw [hholds.moreFragment hne]
        exact ⟨.inr, fun hsome => hsome.resolve_left (by simp)⟩

section

variable (htiles : Tiles datagram datagram.bytes.length false 0 pieces) (hfits :
  datagram.bytes.length ≤ 65515)
include htiles hfits

theorem Holds.isEntire (hseen : ∀ piece ∈ seen, piece ∈ pieces)
    (hholds : Holds pieces seen fragments) (hne : seen ≠ []) :
    fragments.isEntire = true ↔ ∀ piece ∈ pieces, piece ∈ seen := by
  rw [Fragments.isEntire, Bool.and_eq_true, Bool.and_eq_true, Bool.not_eq_true',
    hholds.moreFragment hne, decide_eq_true_eq, hholds.items]
  constructor
  · rintro ⟨⟨⟨piece, hpiece, hlast⟩, -⟩, hentire⟩
    exact (entireLoop_blocks htiles hfits ⟨piece, hseen piece hpiece, hpiece, hlast⟩).mp hentire
  · intro hall
    obtain ⟨piece, hpiece, hlast⟩ := tiles_last htiles
    have harr := hall piece hpiece
    refine ⟨⟨⟨piece, harr, hlast⟩, ?_⟩,
      (entireLoop_blocks htiles hfits ⟨piece, hpiece, harr, hlast⟩).mpr hall⟩
    exact length_pos_of_mem (mem_blocks.mpr ⟨piece, hpiece, harr, rfl⟩)

theorem Holds.getPacket (hholds : Holds pieces seen fragments)
    (hall : ∀ piece ∈ pieces, piece ∈ seen) : fragments.getPacket = some datagram.bytes := by
  have hpkt := packetLoop_blocks htiles hfits hall (p := []) rfl
  rw [nil_append, htiles.flatMap, createFragment, drop_zero, Nat.sub_zero, take_length] at hpkt
  rw [Fragments.getPacket, hholds.items]
  cases hblocks : blocks seen pieces with
  | nil =>
    obtain ⟨piece, hpiece, -⟩ := tiles_last htiles
    have hmem := mem_blocks.mpr ⟨piece, hpiece, hall piece hpiece, rfl⟩
    rw [hblocks] at hmem
    cases hmem
  | cons first rest =>
    rw [hblocks, packetLoop] at hpkt
    exact congrArg some (by simpa [uint16] using hpkt)

end

end Fragments

namespace Ipv4L3Protocol

open Fragment (Tiles IsSlice Whole Fragmented FollowOn doFragmentation)

variable {datagram fragment : Fragment} {pieces seen : List Fragment} {protocol : Ipv4L3Protocol}

/-- What comes of the arrivals after those in `seen`: the payload once all pieces have arrived, and
then again when all have arrived again. -/
def reassembled (payload : List UInt8) (pieces : List Fragment) :
    List Fragment → List Fragment → List (Option (List UInt8))
  | _, [] => []
  | seen, packet :: rest =>
    if ∀ piece ∈ pieces, piece ∈ packet :: seen then
      some payload :: reassembled payload pieces [] rest
    else none :: reassembled payload pieces (packet :: seen) rest

def held (protocol : Ipv4L3Protocol) (datagram : Fragment) : Fragments :=
  (protocol.fragments.lookup (fragmentKey datagram.header)).getD {}

theorem fragmentKey_eq {header other : Ipv4Header}
    (hsame : Fragment.SameDatagram header other) : fragmentKey header = fragmentKey other := by
  rw [fragmentKey, fragmentKey, hsame.source, hsame.destination, hsame.identification,
    hsame.protocol]

section

variable (htiles : Tiles datagram datagram.bytes.length false 0 pieces)
  (hfits : datagram.bytes.length ≤ 65515) (hseen : ∀ piece ∈ seen, piece ∈ pieces)
  (hholds : Fragments.Holds pieces seen (protocol.held datagram))
include htiles hfits hseen hholds

theorem processFragment_spec (hmem : fragment ∈ pieces) :
    (protocol.processFragment fragment).1 =
      (if ∀ piece ∈ pieces, piece ∈ fragment :: seen then some datagram.bytes else none) ∧
      Fragments.Holds pieces
        (if ∀ piece ∈ pieces, piece ∈ fragment :: seen then [] else fragment :: seen)
        ((protocol.processFragment fragment).2.held datagram) := by
  obtain ⟨_, _, _, hslice, -⟩ := htiles.slice hmem
  have hadded := hholds.add htiles hseen hmem
  have hentire := hadded.isEntire htiles hfits
    (forall_mem_cons.mpr ⟨hmem, hseen⟩) (cons_ne_nil _ _)
  unfold held at hadded hentire
  rw [processFragment, fragmentKey_eq hslice.same]
  by_cases hall : ∀ piece ∈ pieces, piece ∈ fragment :: seen
  · rw [if_pos (hentire.mpr hall), if_pos hall, if_pos hall]
    refine ⟨hadded.getPacket htiles hfits hall, ?_⟩
    rw [held, AList.lookup_erase]
    exact .empty pieces
  · rw [if_neg (fun h => hall (hentire.mp h)), if_neg hall, if_neg hall]
    refine ⟨rfl, ?_⟩
    rw [held, AList.lookup_insert]
    exact hadded

theorem feed_eq {arrivals : List Fragment} (harr : ∀ packet ∈ arrivals, packet ∈ pieces) :
    protocol.feed arrivals = reassembled datagram.bytes pieces seen arrivals := by
  induction arrivals generalizing protocol seen with
  | nil => rfl
  | cons packet rest ih =>
    obtain ⟨hpkt, hrest⟩ := forall_mem_cons.mp harr
    obtain ⟨hres, hnext⟩ := processFragment_spec htiles hfits hseen hholds hpkt
    rw [feed, reassembled]
    split
    next hall =>
      rw [if_pos hall] at hres hnext
      rw [hres, ih (fun _ h => absurd h not_mem_nil) hnext hrest]
    next hall =>
      rw [if_neg hall] at hres hnext
      rw [hres, ih (forall_mem_cons.mpr ⟨hpkt, hseen⟩) hnext hrest]

end

/-- Every cut of a datagram or of one of its fragments ends with fragments that fit the MTU.
However often they have been cut, they follow on over the payload; and when they arrive in any
order, with any copies, the payload comes out exactly once each time that all have arrived since it
last came out. -/
theorem fragmentation_inverse (checksumEnabled : Bool) (datagram : Fragment)
    (hwhole : Whole datagram) (pieces : List Fragment)
    (hpieces : Fragmented checksumEnabled datagram pieces) :
    (∀ fragment ∈ pieces, ∀ mtu,
      68 ≤ mtu → mtu < 2 ^ 32 →
        ∃ cuts,
          doFragmentation checksumEnabled fragment mtu = some cuts ∧
            ∀ cut ∈ cuts, Ipv4Header.getSerializedSize + cut.bytes.length ≤ mtu) ∧
      FollowOn datagram.bytes pieces ∧
      ∀ protocol : Ipv4L3Protocol,
        protocol.fragments.lookup (fragmentKey datagram.header) = none →
          ∀ arrivals : List Fragment,
            (∀ packet ∈ arrivals, packet ∈ pieces) →
              protocol.feed arrivals = reassembled datagram.bytes pieces [] arrivals := by
  have htiles := hpieces.tiles hwhole
  refine ⟨fun fragment hmem mtu hmtu hword => ?_, htiles.followOn, ?_⟩
  · obtain ⟨_, _, _, hslice, hfilled⟩ := htiles.slice hmem
    obtain ⟨cuts, hcuts, -, hfit⟩ :=
      Fragment.doFragmentation_spec checksumEnabled hslice hfilled hwhole.fits hmtu hword
    exact ⟨cuts, hcuts, hfit⟩
  · intro protocol hnone arrivals harrivals
    refine feed_eq htiles hwhole.fits (fun _ h => absurd h List.not_mem_nil) ?_ harrivals
    rw [held, hnone]
    exact .empty pieces

def hundred : Fragment :=
  ⟨⟨0x0a010101, 0x0a010102, 1, 17, 100, 0, false, false⟩, List.replicate 100 0⟩

def hundredPieces : List Fragment :=
  (doFragmentation false hundred 68).getD []

theorem hundred_fragmented : Fragmented false hundred hundredPieces := by
  have hcut : doFragmentation false hundred 68 = some hundredPieces := by decide +kernel
  simpa using @Fragmented.again false hundred [] [] hundredPieces hundred 68 .whole
    (le_refl 68) (by decide) hcut

theorem hundred_whole : Whole hundred := ⟨rfl, rfl, by decide +kernel, by decide +kernel⟩

theorem fragmentation_inverse_hundred :
    (∀ fragment ∈ hundredPieces, ∀ mtu,
      68 ≤ mtu → mtu < 2 ^ 32 →
        ∃ cuts,
          doFragmentation false fragment mtu = some cuts ∧
            ∀ cut ∈ cuts, Ipv4Header.getSerializedSize + cut.bytes.length ≤ mtu) ∧
      FollowOn hundred.bytes hundredPieces ∧
      ∀ protocol : Ipv4L3Protocol,
        protocol.fragments.lookup (fragmentKey hundred.header) = none →
          ∀ arrivals : List Fragment,
            (∀ packet ∈ arrivals, packet ∈ hundredPieces) →
              protocol.feed arrivals = reassembled hundred.bytes hundredPieces [] arrivals :=
  fragmentation_inverse false hundred hundred_whole hundredPieces hundred_fragmented

theorem yields_again :
    ¬ ∀ (datagram : Fragment) (pieces : List Fragment),
      Whole datagram → Fragmented false datagram pieces →
        ∀ arrivals : List Fragment,
          (∀ packet ∈ arrivals, packet ∈ pieces) → (∀ piece ∈ pieces, piece ∈ arrivals) →
            ((feed {} arrivals).filter Option.isSome).length = 1 := by
  intro hall
  have honce := hall hundred hundredPieces hundred_whole hundred_fragmented
    (hundredPieces ++ hundredPieces) (fun packet hmem => by simpa using hmem)
    fun piece hmem => List.mem_append_left _ hmem
  have htwice : ((feed {} (hundredPieces ++ hundredPieces)).filter Option.isSome).length = 2 := by
    decide +kernel
  rw [htwice] at honce
  cases honce

end Ipv4L3Protocol

end HomaSird.Internet
