import HomaSird.Data.SortedCopies
import HomaSird.Data.UnorderedMap
import HomaSird.Internet.Ipv6FragmentHeader
import HomaSird.Internet.Ipv6FragmentSizes

/-! # IPv6 reassembly

`Process` keeps the fragments of a packet sorted by their offsets until they are entire. A second
copy of a fragment lies behind the first one, where no fragment should start, and is in the way
for good. The timers of packets that are not entire are left out: none of them fires here.
-/

namespace HomaSird.Internet

open Ipv6Header Transition SortedCopies Ipv6ExtensionFragment Ipv6ExtensionFragmentHeader List

/-- `Ipv6ExtensionFragment::Fragments`; a fragment is kept with its offset. -/
structure Ipv6Fragments where
  moreFragment : Bool := false
  packetFragments : List (List UInt8 × Nat) := []
  unfragmentable : Option (List UInt8) := none
deriving DecidableEq

namespace Ipv6Fragments

def addFragment (fragments : Ipv6Fragments) (fragment : List UInt8) (fragmentOffset : Nat)
    (moreFragment : Bool) : Ipv6Fragments :=
  { fragments with
    moreFragment :=
      -- no item has a greater offset, so the loop ended at the end of the list
      if fragments.packetFragments.all fun item => item.2 ≤ fragmentOffset then moreFragment
      else fragments.moreFragment
    packetFragments := insertSorted Prod.snd (fragment, fragmentOffset) fragments.packetFragments }

def setUnfragmentablePart (fragments : Ipv6Fragments) (unfragmentablePart : List UInt8) :
    Ipv6Fragments :=
  { fragments with unfragmentable := some unfragmentablePart }

/-- The loop of `IsEntire`. -/
def entireLoop : Nat → List (List UInt8 × Nat) → Bool
  | _, [] => true
  | lastEndOffset, item :: rest =>
    if lastEndOffset ≠ item.2 then false
    else entireLoop (uint16 (lastEndOffset + item.1.length)) rest

def isEntire (fragments : Ipv6Fragments) : Bool :=
  !fragments.moreFragment && fragments.packetFragments.length > 0 &&
    entireLoop 0 fragments.packetFragments

def getPacket (fragments : Ipv6Fragments) : Option (List UInt8) :=
  fragments.unfragmentable.map fun p => p ++ fragments.packetFragments.flatMap Prod.fst

end Ipv6Fragments

abbrev FragmentKey_t := Ipv6Address × UInt32

structure Ipv6ExtensionFragment where
  fragments : UnorderedMap FragmentKey_t Ipv6Fragments := ∅

namespace Ipv6ExtensionFragment

/-- `Ipv6ExtensionFragment::Process` -/
def process (extension : Ipv6ExtensionFragment) (packet : List UInt8) (offset : UInt8)
    (ipv6Header : Ipv6Header) (flags : Ipv6Flags) :
    Except Ipv6Fault (Processed × Ipv6ExtensionFragment) := do
  let p := packet.drop offset.toNat
  let fragmentHeader ← Ipv6ExtensionFragmentHeader.deserialize p
  let p := p.drop Ipv6ExtensionFragmentHeader.getSerializedSize
  let nextHeader := fragmentHeader.nextHeader
  let fragmentOffset := fragmentHeader.getOffset.toNat
  let fragmentKey := (ipv6Header.sourceAddress, fragmentHeader.identification)
  let fragments := (extension.fragments.lookup fragmentKey).getD {}
  let fragments := if fragmentOffset = 0 then
    fragments.setUnfragmentablePart (packet.take offset.toNat) else fragments
  let fragments := fragments.addFragment p fragmentOffset fragmentHeader.getMoreFragment
  if fragments.isEntire then
    match fragments.getPacket with
    | none => throw .nullPointer
    | some entire =>
      return (⟨0, nextHeader, entire, { flags with stopProcessing := false }, []⟩,
        ⟨extension.fragments.erase fragmentKey⟩)
  else
    return (⟨0, nextHeader, packet, { flags with stopProcessing := true }, []⟩,
      ⟨extension.fragments.insert fragmentKey fragments⟩)

def feed (extension : Ipv6ExtensionFragment) (offset : UInt8) :
    List Ipv6Fragment → Except Ipv6Fault (List (Option (UInt8 × List UInt8)))
  | [] => .ok []
  | fragment :: rest => do
    let (processed, extension) ← extension.process fragment.packet offset fragment.header {}
    let later ← feed extension offset rest
    return (if processed.flags.stopProcessing then none
      else some (processed.nextHeader, processed.packet)) :: later

/-! ## The fragments of a packet -/

/-- What the fragments share: what is in front of the fragment header, its fields, the source, and
the bytes that are cut. -/
structure Cut where
  front : List UInt8
  nextHeader : UInt8
  identification : UInt32
  sourceAddress : Ipv6Address
  p : List UInt8
deriving DecidableEq

namespace Cut

def fragmentHeader (cut : Cut) (start : Nat) (moreFragment : Bool) : Ipv6ExtensionFragmentHeader :=
  (Ipv6ExtensionFragmentHeader.setOffset
    { nextHeader := cut.nextHeader, identification := cut.identification }
    (UInt16.ofNat start)).setMoreFragment moreFragment

def whole (cut : Cut) : UInt8 × List UInt8 := (cut.nextHeader, cut.front ++ cut.p)

end Cut

/-- The fragment that holds the bytes from `start` to `stop`. -/
structure IsSlice (cut : Cut) (start stop : Nat) (more : Bool) (fragment : Ipv6Fragment) :
    Prop where
  source : fragment.header.sourceAddress = cut.sourceAddress
  packet : fragment.packet = cut.front ++
    ((cut.fragmentHeader start more).serialize ++ (cut.p.drop start).take (stop - start))
  aligned : start % 8 = 0
  ordered : start ≤ stop
  bounded : stop ≤ cut.p.length

/-- Fragments that follow on from `start`; only one that is alone may be empty. -/
inductive Tiles (cut : Cut) : Nat → List Ipv6Fragment → Prop where
  | last {start : Nat} {fragment : Ipv6Fragment}
      (hslice : IsSlice cut start cut.p.length false fragment)
      (hfilled : start < cut.p.length ∨ start = 0) : Tiles cut start [fragment]
  | cons {start middle : Nat} {fragment : Ipv6Fragment} {rest : List Ipv6Fragment}
      (hslice : IsSlice cut start middle true fragment) (hfilled : start < middle)
      (hrest : Tiles cut middle rest) : Tiles cut start (fragment :: rest)

def headerOf (cut : Cut) (fragment : Ipv6Fragment) : Ipv6ExtensionFragmentHeader :=
  match Ipv6ExtensionFragmentHeader.deserialize (fragment.packet.drop cut.front.length) with
  | .ok header => header
  | .error _ => {}

def moreOf (cut : Cut) (fragment : Ipv6Fragment) : Bool := (headerOf cut fragment).getMoreFragment

def entryOf (cut : Cut) (fragment : Ipv6Fragment) : List UInt8 × Nat :=
  (fragment.packet.drop (cut.front.length + Ipv6ExtensionFragmentHeader.getSerializedSize),
    (headerOf cut fragment).getOffset.toNat)

section Slices

variable {cut : Cut} {start stop : Nat} {more : Bool} {fragment : Ipv6Fragment}
  {fragments seen : List Ipv6Fragment}

theorem IsSlice.headerOf (hslice : IsSlice cut start stop more fragment) :
    headerOf cut fragment = cut.fragmentHeader start more := by
  rw [Ipv6ExtensionFragment.headerOf, hslice.packet, drop_left, deserialize_serialize]

section

variable (hslice : IsSlice cut start stop more fragment) (hshort : cut.p.length ≤ 65535)
include hslice hshort

theorem IsSlice.fields :
    (cut.fragmentHeader start more).getOffset.toNat = start ∧
      (cut.fragmentHeader start more).getMoreFragment = more := by
  have hord := hslice.ordered
  have hbd := hslice.bounded
  have hword : (UInt16.ofNat start).toNat = start := by
    rw [UInt16.toNat_ofNat']
    exact Nat.mod_eq_of_lt (by omega)
  obtain ⟨hoff, hmore⟩ := fields_of_aligned
    { nextHeader := cut.nextHeader, identification := cut.identification } rfl
    (show (UInt16.ofNat start).toNat % 8 = 0 by rw [hword]; exact hslice.aligned) more
  exact ⟨by rw [Cut.fragmentHeader, hoff, hword], hmore⟩

theorem IsSlice.entryOf :
    entryOf cut fragment = ((cut.p.drop start).take (stop - start), start) := by
  rw [Ipv6ExtensionFragment.entryOf, hslice.headerOf, (hslice.fields hshort).1, hslice.packet,
    ← append_assoc]
  congr 1
  apply drop_left'
  rw [length_append]
  rfl

theorem IsSlice.moreOf : moreOf cut fragment = more := by
  rw [Ipv6ExtensionFragment.moreOf, hslice.headerOf, (hslice.fields hshort).2]

theorem IsSlice.length : (Ipv6ExtensionFragment.entryOf cut fragment).1.length = stop - start := by
  have hbd := hslice.bounded
  rw [hslice.entryOf hshort, length_take, length_drop]
  omega

end

theorem Tiles.slice (htiles : Tiles cut start fragments) (hmem : fragment ∈ fragments) :
    ∃ first stop more,
      IsSlice cut first stop more fragment ∧ start ≤ first ∧
        (first < stop ∨ (start = 0 ∧ fragments = [fragment])) := by
  induction htiles with
  | @last start fragment hslice hfilled =>
    obtain rfl := mem_singleton.mp hmem
    exact ⟨start, _, false, hslice, Nat.le_refl _, hfilled.imp_right fun hzero => ⟨hzero, rfl⟩⟩
  | @cons start middle fragment rest hslice hfilled hrest ih =>
    rcases mem_cons.mp hmem with rfl | hmem
    · exact ⟨start, middle, true, hslice, Nat.le_refl _, .inl hfilled⟩
    · obtain ⟨first, stop, more, hother, hle, hsome⟩ := ih hmem
      refine ⟨first, stop, more, hother, Nat.le_trans (Nat.le_of_lt hfilled) hle, .inl ?_⟩
      exact hsome.resolve_right fun hzero => absurd hfilled (hzero.1 ▸ Nat.not_lt_zero _)

theorem Tiles.ne_nil (htiles : Tiles cut start fragments) : fragments ≠ [] := by
  cases htiles with
  | last => exact cons_ne_nil _ _
  | cons => exact cons_ne_nil _ _

section

variable (htiles : Tiles cut start fragments) (hshort : cut.p.length ≤ 65535)
include htiles hshort

theorem Tiles.le_entry (hmem : fragment ∈ fragments) : start ≤ (entryOf cut fragment).2 := by
  obtain ⟨first, stop, more, hslice, hle, -⟩ := htiles.slice hmem
  rw [hslice.entryOf hshort]
  exact hle

theorem Tiles.sorted :
    fragments.Pairwise fun fragment other => (entryOf cut fragment).2 < (entryOf cut other).2 := by
  induction htiles with
  | last => exact pairwise_singleton _ _
  | cons hslice hfilled hrest ih =>
    refine pairwise_cons.mpr ⟨fun other hother => ?_, ih⟩
    rw [hslice.entryOf hshort]
    exact lt_of_lt_of_le hfilled (hrest.le_entry hshort hother)

theorem Tiles.exists_last : ∃ fragment ∈ fragments, moreOf cut fragment = false := by
  induction htiles with
  | last hslice _ => exact ⟨_, mem_cons_self, hslice.moreOf hshort⟩
  | cons _ _ _ ih =>
    obtain ⟨fragment, hmem, hlast⟩ := ih
    exact ⟨fragment, mem_cons_of_mem _ hmem, hlast⟩

theorem Tiles.le_last {other : Ipv6Fragment} (hmem : fragment ∈ fragments)
    (hlast : moreOf cut fragment = false) (hother : other ∈ fragments) :
    (entryOf cut other).2 ≤ (entryOf cut fragment).2 ∧
      (moreOf cut other = true → (entryOf cut other).2 < (entryOf cut fragment).2) := by
  induction htiles with
  | last hslice _ =>
    obtain rfl := mem_singleton.mp hmem
    obtain rfl := mem_singleton.mp hother
    exact ⟨le_rfl, fun hmore => absurd (hlast.symm.trans hmore) Bool.false_ne_true⟩
  | cons hslice hfilled hrest ih =>
    rcases mem_cons.mp hmem with rfl | hbehind
    · rw [hslice.moreOf hshort] at hlast
      cases hlast
    · rcases mem_cons.mp hother with rfl | hotherBehind
      · rw [hslice.entryOf hshort]
        have hless := lt_of_lt_of_le hfilled (hrest.le_entry hshort hbehind)
        exact ⟨le_of_lt hless, fun _ => hless⟩
      · exact ih hbehind hotherBehind

theorem Tiles.flatMap : (fragments.map (entryOf cut)).flatMap Prod.fst = cut.p.drop start := by
  induction htiles with
  | last hslice _ =>
    rw [map_singleton, flatMap_singleton, hslice.entryOf hshort, ← length_drop, take_length]
  | @cons start middle fragment rest hslice hfilled hrest ih =>
    have hdrop : cut.p.drop middle = (cut.p.drop start).drop (middle - start) := by
      rw [drop_drop, Nat.add_sub_cancel' (le_of_lt hfilled)]
    rw [map_cons, flatMap_cons, ih, hslice.entryOf hshort, hdrop, take_append_drop]

end

end Slices

/-! ## Whether all has arrived, and once -/

section Entire

variable {cut : Cut} {start : Nat} {fragment : Ipv6Fragment}
  {fragments seen : List Ipv6Fragment}

open Ipv6Fragments

theorem entireLoop_copies (htiles : Tiles cut start fragments) (hshort : cut.p.length ≤ 65535)
    (hlast : ∃ fragment ∈ fragments, fragment ∈ seen ∧ moreOf cut fragment = false)
    (hempty : ∀ fragment ∈ fragments, (entryOf cut fragment).1 = [] → seen.count fragment ≤ 1) :
    entireLoop start (copies (entryOf cut) seen fragments) = true ↔
    ∀ fragment ∈ fragments, seen.count fragment = 1 := by
  -- a second copy does not start where the first one ends
  have htwice : ∀ {first stop : Nat} {more : Bool} {fragment : Ipv6Fragment} {rest : List _},
      IsSlice cut first stop more fragment → seen.count fragment ≠ 1 → fragment ∈ seen →
      ((entryOf cut fragment).1 = [] → seen.count fragment ≤ 1) →
        entireLoop first (replicate (seen.count fragment) (entryOf cut fragment) ++ rest) =
          false := by
    intro first stop more fragment rest hslice hcnt hmem hsingle
    have hpos := count_pos_iff.mpr hmem
    obtain ⟨others, hothers⟩ : ∃ others, seen.count fragment = others + 2 :=
      ⟨seen.count fragment - 2, by omega⟩
    have hfilled : 0 < (entryOf cut fragment).1.length := by
      apply length_pos_of_ne_nil
      intro hnil
      have hle := hsingle hnil
      omega
    have hent : (entryOf cut fragment).2 = first := by
      rw [hslice.entryOf hshort]
    have hlen := hslice.length hshort
    have hbd := hslice.bounded
    have hend : uint16 (first + (entryOf cut fragment).1.length) =
        first + (entryOf cut fragment).1.length := uint16_of_lt (by omega)
    rw [hothers, replicate_succ, replicate_succ, cons_append, cons_append,
      entireLoop, hent, if_neg (not_not.mpr rfl), hend, entireLoop, hent, if_pos (by omega)]
  induction htiles with
  | @last start fragment hslice hfilled =>
    obtain ⟨other, hother, hseen, -⟩ := hlast
    obtain rfl := mem_singleton.mp hother
    by_cases hone : seen.count other = 1
    · refine iff_of_true ?_ fun fragment hmem => mem_singleton.mp hmem ▸ hone
      rw [copies_of_once fun fragment hmem => mem_singleton.mp hmem ▸ hone,
        map_singleton, entireLoop, hslice.entryOf hshort, if_neg (not_not.mpr rfl)]
      rfl
    · refine iff_of_false ?_ fun hall => hone (hall other mem_cons_self)
      rw [copies_cons, htwice hslice hone hseen (hempty other mem_cons_self)]
      exact Bool.false_ne_true
  | @cons start middle fragment rest hslice hfilled hrest ih =>
    obtain ⟨other, hother, hseen, hmore⟩ := hlast
    have hotherRest : other ∈ rest := (mem_cons.mp hother).resolve_left fun heq =>
      Bool.false_ne_true (hmore.symm.trans (heq ▸ hslice.moreOf hshort))
    have hrestEmpty : ∀ fragment ∈ rest, (entryOf cut fragment).1 = [] → seen.count fragment ≤ 1 :=
      fun fragment hmem => hempty fragment (.tail _ hmem)
    rw [copies_cons, forall_mem_cons]
    by_cases hone : seen.count fragment = 1
    · have hbd := hslice.bounded
      have hend : uint16 (start + (middle - start)) = middle := by
        rw [Nat.add_sub_cancel' (le_of_lt hfilled)]
        exact uint16_of_lt (by omega)
      have hent : (entryOf cut fragment).2 = start := by
        rw [hslice.entryOf hshort]
      rw [hone, replicate_one, singleton_append, entireLoop, hent,
        if_neg (not_not.mpr rfl), hslice.length hshort, hend]
      exact (ih ⟨other, hotherRest, hseen, hmore⟩ hrestEmpty).trans (and_iff_right rfl).symm
    · refine iff_of_false ?_ fun hboth => hone hboth.1
      by_cases hmem : fragment ∈ seen
      · rw [htwice hslice hone hmem (hempty fragment mem_cons_self)]
        exact Bool.false_ne_true
      · -- the first item is behind a gap
        rw [count_eq_zero.mpr hmem, replicate_zero, nil_append]
        cases hcopies : copies (entryOf cut) seen rest with
        | nil =>
          have hin : entryOf cut other ∈ copies (entryOf cut) seen rest :=
            mem_copies.mpr ⟨other, hotherRest, hseen, rfl⟩
          rw [hcopies] at hin
          cases hin
        | cons first others =>
          obtain ⟨behind, hbehind, -, hitem⟩ :=
            (@mem_copies _ _ _ (entryOf cut) seen rest first).mp
              (hcopies ▸ mem_cons_self)
          have hle := hrest.le_entry hshort hbehind
          rw [entireLoop, if_pos (by rw [hitem]; omega)]
          exact Bool.false_ne_true

structure Holds (cut : Cut) (fragments seen : List Ipv6Fragment) (held : Ipv6Fragments) : Prop where
  items : held.packetFragments = copies (entryOf cut) seen fragments
  moreFragment : seen ≠ [] →
    (held.moreFragment = false ↔ ∃ fragment ∈ seen, moreOf cut fragment = false)
  unfragmentable : (∃ fragment ∈ seen, (entryOf cut fragment).2 = 0) →
    held.unfragmentable = some cut.front

theorem Holds.empty (cut : Cut) (fragments : List Ipv6Fragment) : Holds cut fragments [] {} where
  items := (copies_nil fragments).symm
  moreFragment hne := absurd rfl hne
  unfragmentable := by
    rintro ⟨fragment, hmem, -⟩
    cases hmem

def arrive (cut : Cut) (held : Ipv6Fragments) (fragment : Ipv6Fragment) : Ipv6Fragments :=
  (if (entryOf cut fragment).2 = 0 then held.setUnfragmentablePart cut.front else held).addFragment
    (entryOf cut fragment).1 (entryOf cut fragment).2 (moreOf cut fragment)

variable {held : Ipv6Fragments}

theorem Holds.arrive (htiles : Tiles cut start fragments) (hshort : cut.p.length ≤ 65535)
    (hseen : ∀ other ∈ seen, other ∈ fragments) (hholds : Holds cut fragments seen held) (hmem :
    fragment ∈ fragments) : Holds cut fragments (fragment :: seen) (arrive cut held fragment) := by
  have hkept : (if (entryOf cut fragment).2 = 0 then held.setUnfragmentablePart cut.front
      else held).packetFragments = held.packetFragments ∧
      (if (entryOf cut fragment).2 = 0 then held.setUnfragmentablePart cut.front
        else held).moreFragment = held.moreFragment := by
    split
    · exact ⟨rfl, rfl⟩
    · exact ⟨rfl, rfl⟩
  refine ⟨?_, fun _ => ?_, ?_⟩
  · rw [Ipv6ExtensionFragment.arrive, addFragment]
    rw [hkept.1, hholds.items]
    exact insertSorted_copies (htiles.sorted hshort) hmem
  -- the flag follows the arrival only if that ends the fragments held so far
  · have hends : (held.packetFragments.all fun item =>
        decide (item.2 ≤ (entryOf cut fragment).2)) = true ↔
        ∀ other ∈ seen, (entryOf cut other).2 ≤ (entryOf cut fragment).2 := by
      rw [hholds.items, all_eq_true]
      constructor
      · intro hall other hother
        exact of_decide_eq_true (hall (entryOf cut other)
          (mem_copies.mpr ⟨other, hseen other hother, hother, rfl⟩))
      · intro hall entry hent
        obtain ⟨other, -, hother, rfl⟩ := mem_copies.mp hent
        exact decide_eq_true (hall other hother)
    rw [Ipv6ExtensionFragment.arrive, addFragment]
    rw [hkept.1, hkept.2]
    simp only [hends, exists_mem_cons_iff]
    cases hmore : moreOf cut fragment with
    | false =>
      rw [if_pos fun other hother =>
        (htiles.le_last hshort hmem hmore (hseen other hother)).1]
      exact iff_of_true rfl (.inl rfl)
    | true =>
      -- once the last fragment is held no other one ends them
      have hnone : (∃ other ∈ seen, moreOf cut other = false) →
          ¬ ∀ other ∈ seen, (entryOf cut other).2 ≤ (entryOf cut fragment).2 := by
        rintro ⟨other, hother, hlast⟩ hall
        have hless := (htiles.le_last hshort (hseen other hother) hlast hmem).2 hmore
        exact not_lt.mpr (hall other hother) hless
      split
      next hall =>
        exact iff_of_false (fun h => nomatch h) fun hsome =>
          hnone (hsome.resolve_left fun h => nomatch h) hall
      next hnot =>
        have hne : seen ≠ [] := by
          rintro rfl
          exact hnot fun _ hother => absurd hother not_mem_nil
        rw [hholds.moreFragment hne]
        exact ⟨.inr, fun hsome => hsome.resolve_left fun h => nomatch h⟩
  · intro hfst
    by_cases hzero : (entryOf cut fragment).2 = 0
    · rw [Ipv6ExtensionFragment.arrive, if_pos hzero]
      rfl
    · rw [Ipv6ExtensionFragment.arrive, if_neg hzero]
      obtain ⟨other, hother, hother0⟩ := hfst
      rcases mem_cons.mp hother with rfl | hother
      · exact absurd hother0 hzero
      · exact hholds.unfragmentable ⟨other, hother, hother0⟩

section

variable (htiles : Tiles cut 0 fragments) (hshort : cut.p.length ≤ 65535)
include htiles hshort

theorem Holds.isEntire (hseen : ∀ other ∈ seen, other ∈ fragments)
    (hholds : Holds cut fragments seen held) (hne : seen ≠ [])
    (hempty : ∀ fragment ∈ fragments, (entryOf cut fragment).1 = [] → seen.count fragment ≤ 1) :
    held.isEntire = true ↔ ∀ fragment ∈ fragments, seen.count fragment = 1 := by
  rw [Ipv6Fragments.isEntire, Bool.and_eq_true, Bool.and_eq_true, Bool.not_eq_true',
    hholds.moreFragment hne, decide_eq_true_eq, hholds.items]
  constructor
  · rintro ⟨⟨⟨fragment, hmem, hlast⟩, -⟩, hentire⟩
    exact (entireLoop_copies htiles hshort ⟨fragment, hseen fragment hmem, hmem, hlast⟩
      hempty).mp hentire
  · intro hall
    obtain ⟨fragment, hmem, hlast⟩ := htiles.exists_last hshort
    have harr : fragment ∈ seen := count_pos_iff.mp (by rw [hall fragment hmem]; exact Nat.one_pos)
    refine ⟨⟨⟨fragment, harr, hlast⟩, ?_⟩,
      (entireLoop_copies htiles hshort ⟨fragment, hmem, harr, hlast⟩ hempty).mpr hall⟩
    exact length_pos_of_mem (mem_copies.mpr ⟨fragment, hmem, harr, rfl⟩)

theorem Tiles.exists_first : ∃ fragment ∈ fragments, (entryOf cut fragment).2 = 0 := by
  cases htiles with
  | last hslice _ => exact ⟨_, mem_cons_self, by rw [hslice.entryOf hshort]⟩
  | cons hslice _ _ => exact ⟨_, mem_cons_self, by rw [hslice.entryOf hshort]⟩

theorem Holds.getPacket (hholds : Holds cut fragments seen held)
    (hall : ∀ fragment ∈ fragments, seen.count fragment = 1) :
    held.getPacket = some (cut.front ++ cut.p) := by
  obtain ⟨first, hmem, hfst⟩ := htiles.exists_first hshort
  have harr : first ∈ seen := count_pos_iff.mp (by rw [hall first hmem]; exact Nat.one_pos)
  rw [Ipv6Fragments.getPacket, hholds.unfragmentable ⟨first, harr, hfst⟩, hholds.items,
    copies_of_once hall, htiles.flatMap hshort]
  rfl

end

end Entire

/-! ## Arrivals -/

/-- What should come of the arrivals after those in `seen`: the whole once all fragments have
arrived, and then again when all have arrived again. -/
def reassembled (whole : UInt8 × List UInt8) (fragments : List Ipv6Fragment) :
    List Ipv6Fragment → List Ipv6Fragment → List (Option (UInt8 × List UInt8))
  | _, [] => []
  | seen, fragment :: rest =>
    if ∀ other ∈ fragments, other ∈ fragment :: seen then
      some whole :: reassembled whole fragments [] rest
    else none :: reassembled whole fragments (fragment :: seen) rest

def outcome (whole : UInt8 × List UInt8) (fragments : List Ipv6Fragment) :
    List Ipv6Fragment → List Ipv6Fragment → List (Option (UInt8 × List UInt8))
  | _, [] => []
  | seen, fragment :: rest =>
    if ∀ other ∈ fragments, (fragment :: seen).count other = 1 then
      some whole :: outcome whole fragments [] rest
    else none :: outcome whole fragments (fragment :: seen) rest

def CopyFree (fragments : List Ipv6Fragment) : List Ipv6Fragment → List Ipv6Fragment → Prop
  | _, [] => True
  | seen, fragment :: rest =>
    if ∀ other ∈ fragments, other ∈ fragment :: seen then
      (∀ other ∈ fragments, (fragment :: seen).count other = 1) ∧ CopyFree fragments [] rest
    else CopyFree fragments (fragment :: seen) rest

instance decidableCopyFree (fragments : List Ipv6Fragment) :
    ∀ seen arrivals, Decidable (CopyFree fragments seen arrivals)
  | _, [] => .isTrue trivial
  | seen, fragment :: rest =>
    have := decidableCopyFree fragments [] rest
    have := decidableCopyFree fragments (fragment :: seen) rest
    inferInstanceAs (Decidable (if ∀ other ∈ fragments, other ∈ fragment :: seen then
      (∀ other ∈ fragments, (fragment :: seen).count other = 1) ∧ CopyFree fragments [] rest
      else CopyFree fragments (fragment :: seen) rest))

section Arrivals

variable {cut : Cut} {fragment : Ipv6Fragment} {fragments seen arrivals : List Ipv6Fragment}
  {extension : Ipv6ExtensionFragment} {offset : UInt8}

def held (extension : Ipv6ExtensionFragment) (cut : Cut) : Ipv6Fragments :=
  (extension.fragments.lookup (cut.sourceAddress, cut.identification)).getD {}

theorem process_slice {first stop : Nat} {more : Bool}
    (hslice : IsSlice cut first stop more fragment) (hplace : offset.toNat = cut.front.length) :
    extension.process fragment.packet offset fragment.header {} =
      if (arrive cut (extension.held cut) fragment).isEntire then
        match (arrive cut (extension.held cut) fragment).getPacket with
        | none => .error .nullPointer
        | some entire => .ok (⟨0, cut.nextHeader, entire, {}, []⟩,
            ⟨extension.fragments.erase (cut.sourceAddress, cut.identification)⟩)
      else .ok (⟨0, cut.nextHeader, fragment.packet, { stopProcessing := true }, []⟩,
        ⟨extension.fragments.insert (cut.sourceAddress, cut.identification)
          (arrive cut (extension.held cut) fragment)⟩) := by
  have hread : Ipv6ExtensionFragmentHeader.deserialize (fragment.packet.drop offset.toNat) =
      .ok (headerOf cut fragment) := by
    rw [hslice.headerOf, hplace, hslice.packet, drop_left,
      Ipv6ExtensionFragmentHeader.deserialize_serialize]
  have hfront : fragment.packet.take offset.toNat = cut.front := by
    rw [hplace, hslice.packet, take_left]
  have hpiece : (fragment.packet.drop offset.toNat).drop
      Ipv6ExtensionFragmentHeader.getSerializedSize = (entryOf cut fragment).1 := by
    rw [drop_drop, hplace]
    rfl
  have hnext : (headerOf cut fragment).nextHeader = cut.nextHeader := by
    rw [hslice.headerOf]
    rfl
  have hkey : (fragment.header.sourceAddress, (headerOf cut fragment).identification) =
      (cut.sourceAddress, cut.identification) := by
    rw [hslice.headerOf, hslice.source]
    rfl
  rw [process, hread]
  simp only [bind, Except.bind, hpiece, hfront, hnext]
  rw [hkey]
  change (if (arrive cut (extension.held cut) fragment).isEntire then _ else _) = _
  split
  · change (match (arrive cut (extension.held cut) fragment).getPacket with
      | none => _ | some entire => _) = _
    cases (arrive cut (extension.held cut) fragment).getPacket with
    | none => rfl
    | some entire => rfl
  · rfl

section

variable (htiles : Tiles cut 0 fragments) (hshort : cut.p.length ≤ 65535)
  (hplace : offset.toNat = cut.front.length) (hseen : ∀ other ∈ seen, other ∈ fragments)
  (halone : ∀ other, fragments = [other] → seen = [])
  (hholds : Holds cut fragments seen (extension.held cut))
include htiles hshort hplace hseen halone hholds

theorem process_spec (hmem : fragment ∈ fragments) :
    ∃ processed next,
      extension.process fragment.packet offset fragment.header {} = .ok (processed, next) ∧
        if ∀ other ∈ fragments, (fragment :: seen).count other = 1 then
          processed.flags.stopProcessing = false ∧
            (processed.nextHeader, processed.packet) = cut.whole ∧
            Holds cut fragments [] (next.held cut)
        else processed.flags.stopProcessing = true ∧
            Holds cut fragments (fragment :: seen) (next.held cut) := by
  obtain ⟨first, stop, more, hslice, -⟩ := htiles.slice hmem
  have harr := hholds.arrive htiles hshort hseen hmem
  have hempty : ∀ other ∈ fragments, (entryOf cut other).1 = [] →
      (fragment :: seen).count other ≤ 1 := by
    intro other hother hnil
    obtain ⟨begins, ends, _, hotherSlice, -, hsome⟩ := htiles.slice hother
    rcases hsome with hfilled | ⟨-, hone⟩
    · have hlen := hotherSlice.length hshort
      rw [hnil, length_nil] at hlen
      omega
    · rw [halone other hone, count_singleton]
      split
      · exact Nat.le_refl 1
      · exact Nat.zero_le 1
  have hentire := harr.isEntire htiles hshort (forall_mem_cons.mpr ⟨hmem, hseen⟩)
    (cons_ne_nil _ _) hempty
  rw [process_slice hslice hplace]
  by_cases hall : ∀ other ∈ fragments, (fragment :: seen).count other = 1
  · rw [if_pos (hentire.mpr hall), harr.getPacket htiles hshort hall]
    refine ⟨_, _, rfl, ?_⟩
    rw [if_pos hall]
    refine ⟨rfl, rfl, ?_⟩
    rw [held, AList.lookup_erase]
    exact .empty cut fragments
  · rw [if_neg (fun h => hall (hentire.mp h))]
    refine ⟨_, _, rfl, ?_⟩
    rw [if_neg hall]
    refine ⟨rfl, ?_⟩
    rw [held, AList.lookup_insert]
    exact harr

theorem feed_eq (harr : ∀ fragment ∈ arrivals, fragment ∈ fragments) :
    extension.feed offset arrivals = .ok (outcome cut.whole fragments seen arrivals) := by
  induction arrivals generalizing extension seen with
  | nil => rfl
  | cons fragment rest ih =>
    obtain ⟨hmem, hrest⟩ := forall_mem_cons.mp harr
    obtain ⟨processed, next, hproc, hres⟩ :=
      process_spec htiles hshort hplace hseen halone hholds hmem
    rw [outcome]
    split at hres
    next hall =>
      obtain ⟨hgo, hwhole, hnext⟩ := hres
      have hlater := ih (fun _ h => absurd h not_mem_nil) (fun _ _ => rfl) hnext hrest
      rw [if_pos hall]
      refine bind_eq_ok.mpr ⟨(processed, next), hproc, bind_eq_ok.mpr ⟨_, hlater, ?_⟩⟩
      rw [hgo, ← hwhole]
      rfl
    next hall =>
      obtain ⟨hstop, hnext⟩ := hres
      have hlater := ih (forall_mem_cons.mpr ⟨hmem, hseen⟩) (fun other hone => by
        -- a fragment that is alone is entire at once
        rw [hone] at hmem hall
        rw [halone other hone] at hall
        obtain rfl := mem_singleton.mp hmem
        refine absurd (fun other hother => ?_) hall
        rw [mem_singleton.mp hother, count_singleton_self]) hnext hrest
      rw [if_neg hall]
      refine bind_eq_ok.mpr ⟨(processed, next), hproc, bind_eq_ok.mpr ⟨_, hlater, ?_⟩⟩
      rw [hstop]
      rfl

end

theorem outcome_eq_iff {whole should : UInt8 × List UInt8} (hnone : fragments ≠ [])
    (hmiss : ¬ ∀ other ∈ fragments, other ∈ seen) :
    outcome whole fragments seen arrivals = reassembled should fragments seen arrivals ↔
      CopyFree fragments seen arrivals ∧
        ((∀ other ∈ fragments, other ∈ seen ∨ other ∈ arrivals) → whole = should) := by
  induction arrivals generalizing seen with
  | nil =>
    refine iff_of_true rfl ⟨trivial, fun hall => absurd (fun other hother => ?_) hmiss⟩
    exact (hall other hother).resolve_right not_mem_nil
  | cons fragment rest ih =>
    have hmoved : (∀ other ∈ fragments, other ∈ seen ∨ other ∈ fragment :: rest) ↔
        ∀ other ∈ fragments, other ∈ fragment :: seen ∨ other ∈ rest := by
      refine forall₂_congr fun other _ => ?_
      rw [mem_cons, mem_cons]
      tauto
    rw [outcome, reassembled, CopyFree, hmoved]
    by_cases hall : ∀ other ∈ fragments, other ∈ fragment :: seen
    · rw [if_pos hall, if_pos hall]
      have hempty : ¬ ∀ other ∈ fragments, other ∈ [] := fun hin =>
        hnone (eq_nil_iff_forall_not_mem.mpr fun other hother =>
          not_mem_nil (hin other hother))
      by_cases honce : ∀ other ∈ fragments, (fragment :: seen).count other = 1
      · rw [if_pos honce, cons.injEq, Option.some.injEq, ih hempty]
        constructor
        · rintro ⟨hwhole, hfree, -⟩
          exact ⟨⟨honce, hfree⟩, fun _ => hwhole⟩
        · rintro ⟨⟨-, hfree⟩, hwhole⟩
          have heq := hwhole fun other hother => .inl (hall other hother)
          exact ⟨heq, hfree, fun _ => heq⟩
      · rw [if_neg honce]
        exact iff_of_false (fun heq => nomatch (cons.inj heq).1) fun h => honce h.1.1
    · have honce : ¬ ∀ other ∈ fragments, (fragment :: seen).count other = 1 :=
        fun hone => hall fun other hother =>
          count_pos_iff.mp (by rw [hone other hother]; exact Nat.one_pos)
      rw [if_neg hall, if_neg hall, if_neg honce, cons.injEq, and_iff_right rfl, ih hall]

end Arrivals

end Ipv6ExtensionFragment

end HomaSird.Internet
