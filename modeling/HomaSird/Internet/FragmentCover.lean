import Mathlib.Data.List.MinMax
import HomaSird.Data.Coverage
import HomaSird.Data.SortedCopies
import HomaSird.Internet.Fragments

/-! # Fragments from several fragmentations

A datagram may be cut in different ways, so fragments overlap and contain one another.
`AddFragment` keeps them in the order of their offsets, and `IsEntire` and `GetPacket` read off
how far they reach and what they hold.
-/

namespace HomaSird.Internet

open HomaSird.Interval List

open Fragment (Whole Fragmented Tiles IsSlice createFragment doFragmentation)
open SortedCopies (insertSorted sortArrivals)

namespace Fragment

def FragmentsOf (datagram : Fragment) (arrivals : List Fragment) : Prop :=
  ∀ fragment ∈ arrivals, ∃ checksumEnabled pieces,
    Fragmented checksumEnabled datagram pieces ∧ fragment ∈ pieces

def extent (fragment : Fragment) : Interval :=
  ⟨fragment.header.fragmentOffset, fragment.header.fragmentOffset + fragment.bytes.length⟩

def Covered (arrivals : List Fragment) (pos : Nat) : Prop :=
  Interval.Covers (arrivals.map extent) pos

def furthest (arrivals : List Fragment) : Option Fragment :=
  arrivals.reverse.argmax fun fragment => fragment.header.fragmentOffset

variable {datagram fragment : Fragment} {arrivals : List Fragment} {start stop : Nat}
  {pieces : List Fragment}

theorem Tiles.stop_of_last (htiles : Tiles datagram stop false start pieces)
    (hmem : fragment ∈ pieces) (hlast : fragment.header.moreFragments = false) :
    fragment.extent.hi = stop := by
  induction htiles with
  | last hslice _ =>
    obtain rfl := mem_singleton.mp hmem
    have hlen := hslice.length
    have hord := hslice.ordered
    have hoff := hslice.offset
    simp only [extent]
    omega
  | cons hslice _ _ ih =>
    rcases mem_cons.mp hmem with rfl | hmem
    · exact absurd (hlast.symm.trans hslice.more) Bool.false_ne_true
    · exact ih hmem

structure IsPart (payload : List UInt8) (entry : List UInt8 × Nat) : Prop where
  bytes : entry.1 = createFragment payload entry.2 entry.1.length
  fits : entry.2 + entry.1.length ≤ payload.length

theorem IsPart.createFragment {payload : List UInt8} {entry : List UInt8 × Nat}
    (hpart : IsPart payload entry) {size : Nat} (hsz : start + size ≤ entry.1.length) :
    createFragment entry.1 start size = createFragment payload (entry.2 + start) size := by
  rw [hpart.bytes, createFragment_createFragment hsz]

theorem FragmentsOf.isPart (hwhole : Whole datagram) (hfragments : FragmentsOf datagram arrivals)
    (hmem : fragment ∈ arrivals) : IsPart datagram.bytes (Fragments.item fragment) := by
  obtain ⟨checksumEnabled, pieces, hfrag, hpiece⟩ := hfragments fragment hmem
  obtain ⟨first, last, flag, hslice, -⟩ := (hfrag.tiles hwhole).slice hpiece
  have hlen := hslice.length
  have hord := hslice.ordered
  have hbd := hslice.bounded
  have hoff := hslice.offset
  refine ⟨?_, ?_⟩
  · simp only [Fragments.item]
    rw [hoff, hlen, hslice.bytes]
  · simp only [Fragments.item]
    omega

theorem FragmentsOf.last (hwhole : Whole datagram) (hfragments : FragmentsOf datagram arrivals)
    (hmem : fragment ∈ arrivals) (hlast : fragment.header.moreFragments = false) :
    fragment.extent.hi = datagram.bytes.length := by
  obtain ⟨checksumEnabled, pieces, hfrag, hpiece⟩ := hfragments fragment hmem
  exact (hfrag.tiles hwhole).stop_of_last hpiece hlast

end Fragment

namespace Fragments

open Fragment (FragmentsOf Covered furthest IsPart extent)

def received (arrivals : List Fragment) : Fragments :=
  arrivals.foldl (fun fragments fragment => fragments.addFragment fragment.bytes
    fragment.header.fragmentOffset !fragment.header.isLastFragment) {}

def range (entry : List UInt8 × Nat) : Interval := ⟨entry.2, entry.2 + entry.1.length⟩

variable {datagram fragment : Fragment} {arrivals : List Fragment} {payload : List UInt8}
  {entry : List UInt8 × Nat} {items : List (List UInt8 × Nat)} {start : Nat}

/-! ## The list -/

theorem insertItem_eq (entry : List UInt8 × Nat) (items : List (List UInt8 × Nat)) :
    insertItem entry items = insertSorted Prod.snd entry items := by
  induction items with
  | nil => rfl
  | cons first rest ih => rw [insertItem, insertSorted, ih]

theorem received_concat (arrivals : List Fragment) (fragment : Fragment) :
    received (arrivals ++ [fragment]) = (received arrivals).addFragment fragment.bytes
        fragment.header.fragmentOffset !fragment.header.isLastFragment := by
  rw [received, foldl_concat]
  rfl

theorem received_fragments (arrivals : List Fragment) :
    (received arrivals).fragments = sortArrivals Prod.snd (arrivals.map item) := by
  induction arrivals using reverseRecOn with
  | nil => rfl
  | append_singleton arrivals fragment ih =>
    rw [received_concat, addFragment, insertItem_eq, ih, map_append, map_singleton,
      SortedCopies.sortArrivals_concat]
    rfl

theorem mem_received :
    entry ∈ (received arrivals).fragments ↔ ∃ fragment ∈ arrivals, item fragment = entry := by
  rw [received_fragments, SortedCopies.mem_sortArrivals, mem_map]

theorem received_ordered (arrivals : List Fragment) :
    Interval.Ordered ((received arrivals).fragments.map range) := by
  rw [received_fragments]
  exact pairwise_map.mpr (SortedCopies.sortArrivals_sorted _)

theorem covers_received {pos : Nat} :
    Interval.Covers ((received arrivals).fragments.map range) pos ↔ Covered arrivals pos := by
  constructor
  · rintro ⟨_, hrng, hin⟩
    obtain ⟨_, hent, rfl⟩ := mem_map.mp hrng
    obtain ⟨fragment, hmem, rfl⟩ := mem_received.mp hent
    exact ⟨extent fragment, mem_map_of_mem hmem, hin⟩
  · rintro ⟨_, hextent, hin⟩
    obtain ⟨fragment, hmem, rfl⟩ := mem_map.mp hextent
    exact ⟨range (item fragment), mem_map_of_mem (mem_received.mpr ⟨fragment, hmem, rfl⟩), hin⟩

theorem received_moreFragment (arrivals : List Fragment) :
    (received arrivals).moreFragment =
      ((furthest arrivals).map fun fragment => fragment.header.moreFragments).getD false := by
  induction arrivals using reverseRecOn with
  | nil => rfl
  | append_singleton arrivals fragment ih =>
    have hflag : (!fragment.header.isLastFragment) = fragment.header.moreFragments := by
      rw [Ipv4Header.isLastFragment, Bool.not_not]
    rw [received_concat, addFragment, hflag]
    simp only [furthest, reverse_append, reverse_singleton, singleton_append, argmax_cons]
    rw [ih, furthest]
    cases hbest : arrivals.reverse.argmax fun fragment => fragment.header.fragmentOffset with
    | none =>
      rw [argmax_eq_none, reverse_eq_nil_iff] at hbest
      subst hbest
      rfl
    | some best =>
      have hbd : ∀ other ∈ arrivals,
          other.header.fragmentOffset ≤ best.header.fragmentOffset := fun other hother =>
        le_of_mem_argmax (f := fun fragment : Fragment => fragment.header.fragmentOffset)
          (mem_reverse.mpr hother) hbest
      have hmem : best ∈ arrivals := mem_reverse.mp (argmax_mem hbest)
      by_cases hbehind : fragment.header.fragmentOffset < best.header.fragmentOffset
      · have hnot : ¬ ((received arrivals).fragments.all fun item =>
            decide (item.2 ≤ fragment.header.fragmentOffset)) = true := fun hall =>
          not_le.mpr hbehind (of_decide_eq_true
            (all_eq_true.mp hall (item best) (mem_received.mpr ⟨best, hmem, rfl⟩)))
        rw [if_neg hnot]
        simp only [hbehind, if_true]
      · have hall : ((received arrivals).fragments.all fun item =>
            decide (item.2 ≤ fragment.header.fragmentOffset)) = true := by
          refine all_eq_true.mpr fun entry hent => decide_eq_true ?_
          obtain ⟨other, hother, rfl⟩ := mem_received.mp hent
          exact le_trans (hbd other hother) (not_lt.mp hbehind)
        rw [if_pos hall]
        simp only [hbehind, if_false, Option.map_some, Option.getD_some]

/-! ## The loops -/

theorem entireLoop_eq_true (hord : Interval.Ordered (items.map range))
    (hword : ∀ entry ∈ items, entry.2 + entry.1.length < 2 ^ 16) :
    entireLoop start items = true ↔ ∀ entry ∈ items, entry.2 ≤ reach start (items.map range) := by
  induction items generalizing start with
  | nil => exact iff_of_true rfl fun _ hent => absurd hent not_mem_nil
  | cons first rest ih =>
    obtain ⟨hfst, hrest⟩ := forall_mem_cons.mp hword
    rw [entireLoop, map_cons]
    split
    next hgap =>
      rw [reach_of_gap (hord.gap hgap)]
      exact iff_of_false Bool.false_ne_true fun hall =>
        not_lt.mpr (hall first mem_cons_self) hgap
    next hreach =>
      have hle : (range first).lo ≤ start := not_lt.mp hreach
      rw [reach, if_pos hle, add_comm, uint16_of_lt hfst,
        ih (pairwise_cons.mp hord).2 hrest, forall_mem_cons]
      refine (and_iff_right ?_).symm
      exact le_trans hle (le_trans (Nat.le_max_left _ _) (le_reach _ _))

theorem take_append_createFragment (payload : List UInt8) (start size : Nat) :
    payload.take start ++ createFragment payload start size = payload.take (start + size) := by
  rw [createFragment, take_add]

theorem packetLoop_eq (hparts : ∀ entry ∈ items, IsPart payload entry)
    (hword : payload.length < 2 ^ 16) (hstart : start ≤ payload.length)
    (hord : Interval.Ordered (items.map range))
    (hreach : ∀ entry ∈ items, entry.2 ≤ reach start (items.map range)) :
    packetLoop (payload.take start) items = payload.take (reach start (items.map range)) := by
  induction items generalizing start with
  | nil => rfl
  | cons first rest ih =>
    obtain ⟨hpart, hrest⟩ := forall_mem_cons.mp hparts
    have hfits := hpart.fits
    have hlen : (payload.take start).length = start := by
      rw [length_take, Nat.min_eq_left hstart]
    have hle : (range first).lo ≤ start := by
      by_contra hgap
      have hfst := hreach first mem_cons_self
      rw [map_cons, reach_of_gap (hord.gap (Nat.not_le.mp hgap))] at hfst
      exact hgap hfst
    have hmax : reach start ((first :: rest).map range) =
        reach (max start (first.2 + first.1.length)) (rest.map range) := by
      rw [map_cons, reach, if_pos hle]
      rfl
    rw [hmax] at hreach ⊢
    have hnext := @ih (max start (first.2 + first.1.length)) hrest (by omega)
      (pairwise_cons.mp hord).2 (forall_mem_cons.mp hreach).2
    rw [packetLoop, hlen, uint16_of_lt (by omega), ← hnext]
    simp only [range] at hle
    by_cases hinside : first.2 < start
    · simp only [if_pos hinside]
      by_cases hlonger : start - first.2 < first.1.length
      · rw [if_pos hlonger, hpart.createFragment (by omega), Nat.add_sub_cancel' hle,
          take_append_createFragment, Nat.max_eq_right (by omega)]
        congr 2
        omega
      · rw [if_neg hlonger, Nat.max_eq_left (by omega)]
    · have hsame : first.2 = start := by omega
      have hbytes := hpart.bytes
      rw [hsame] at hbytes
      simp only [if_neg hinside]
      rw [hsame, Nat.max_eq_right (Nat.le_add_right _ _), ← take_append_createFragment, ← hbytes]

/-! ## When the fragments are entire -/

structure Complete (datagram : Fragment) (arrivals : List Fragment) : Prop where
  last : ∃ fragment ∈ arrivals, fragment.header.moreFragments = false
  covered : ∀ pos < datagram.bytes.length, Covered arrivals pos

structure Reassembles (datagram : Fragment) (arrivals : List Fragment) : Prop where
  entire : (received arrivals).isEntire = true ↔ Complete datagram arrivals
  packet : (received arrivals).isEntire = true →
    (received arrivals).getPacket = some datagram.bytes

def MoreBehind (arrivals : List Fragment) : Prop :=
  ∃ fragment, furthest arrivals = some fragment ∧ fragment.header.moreFragments = true

theorem received_parts (hwhole : Fragment.Whole datagram)
    (hfragments : FragmentsOf datagram arrivals) :
    ∀ entry ∈ (received arrivals).fragments, IsPart datagram.bytes entry := by
  intro entry hent
  obtain ⟨fragment, hmem, rfl⟩ := mem_received.mp hent
  exact hfragments.isPart hwhole hmem

theorem furthest_mem (hfar : furthest arrivals = some fragment) : fragment ∈ arrivals :=
  mem_reverse.mp (argmax_mem hfar)

section

variable (hwhole : Fragment.Whole datagram) (hfragments : FragmentsOf datagram arrivals)
include hwhole hfragments

theorem received_isEntire :
    (received arrivals).isEntire = true ↔
      ¬ MoreBehind arrivals ∧ arrivals ≠ [] ∧
        ∀ entry ∈ (received arrivals).fragments,
          entry.2 ≤ reach 0 ((received arrivals).fragments.map range) := by
  have hword : ∀ entry ∈ (received arrivals).fragments, entry.2 + entry.1.length < 2 ^ 16 := by
    intro entry hent
    have hfits := (received_parts hwhole hfragments entry hent).fits
    have hshort := hwhole.fits
    omega
  have hsome : (received arrivals).fragments.length > 0 ↔ arrivals ≠ [] := by
    constructor
    · rintro hpos rfl
      exact lt_irrefl 0 hpos
    · intro hne
      obtain ⟨fragment, hmem⟩ := exists_mem_of_ne_nil arrivals hne
      exact length_pos_of_mem (mem_received.mpr ⟨fragment, hmem, rfl⟩)
  have hmore : (!(received arrivals).moreFragment) = true ↔ ¬ MoreBehind arrivals := by
    rw [received_moreFragment, MoreBehind]
    cases furthest arrivals <;> simp
  rw [isEntire, Bool.and_eq_true, Bool.and_eq_true, hmore, decide_eq_true_eq, hsome,
    entireLoop_eq_true (received_ordered arrivals) hword, and_assoc]

theorem received_isEntire_iff :
    (received arrivals).isEntire = true ↔ Complete datagram arrivals ∧ ¬ MoreBehind arrivals := by
  have hord := received_ordered arrivals
  rw [received_isEntire hwhole hfragments]
  constructor
  · rintro ⟨hbehind, hne, hreach⟩
    obtain ⟨fragment, hfar⟩ : ∃ fragment, furthest arrivals = some fragment := by
      refine Option.ne_none_iff_exists'.mp fun hnone => hne ?_
      rwa [furthest, argmax_eq_none, reverse_eq_nil_iff] at hnone
    have hmem := furthest_mem hfar
    have hlast : fragment.header.moreFragments = false :=
      Bool.eq_false_iff.mpr fun hmore => hbehind ⟨fragment, hfar, hmore⟩
    have hent : item fragment ∈ (received arrivals).fragments :=
      mem_received.mpr ⟨fragment, hmem, rfl⟩
    have hend := hi_le_reach hord (mem_map_of_mem hent)
      (hreach _ hent)
    have hstop : (range (item fragment)).hi = datagram.bytes.length :=
      hfragments.last hwhole hmem hlast
    refine ⟨⟨⟨fragment, hmem, hlast⟩, fun pos hpos => ?_⟩, hbehind⟩
    exact covers_received.mp (covers_of_lt_reach (Nat.zero_le _) (by omega))
  · rintro ⟨hfull, hbehind⟩
    obtain ⟨fragment, hmem, -⟩ := hfull.last
    refine ⟨hbehind, ne_nil_of_mem hmem, fun entry hent => ?_⟩
    have hall : datagram.bytes.length ≤ reach 0 ((received arrivals).fragments.map range) :=
      le_reach_of_covers hord fun pos _ hpos =>
        covers_received.mpr (hfull.covered pos hpos)
    have hfits := (received_parts hwhole hfragments entry hent).fits
    omega

theorem received_getPacket (hentire : (received arrivals).isEntire = true) :
    (received arrivals).getPacket = some datagram.bytes := by
  have hord := received_ordered arrivals
  have hparts := received_parts hwhole hfragments
  have hfull := ((received_isEntire_iff hwhole hfragments).mp hentire).1
  obtain ⟨-, hne, hreach⟩ := (received_isEntire hwhole hfragments).mp hentire
  have hall : datagram.bytes.length ≤ reach 0 ((received arrivals).fragments.map range) :=
    le_reach_of_covers hord fun pos _ hpos =>
      covers_received.mpr (hfull.covered pos hpos)
  have hpkt := packetLoop_eq hparts (by have := hwhole.fits; omega) (Nat.zero_le _) hord
    hreach
  rw [take_zero, take_of_length_le hall] at hpkt
  rw [getPacket]
  cases hitems : (received arrivals).fragments with
  | nil =>
    obtain ⟨fragment, hmem⟩ := exists_mem_of_ne_nil arrivals hne
    have hent := mem_received.mpr ⟨fragment, hmem, rfl⟩
    rw [hitems] at hent
    cases hent
  | cons first rest =>
    rw [hitems, packetLoop] at hpkt
    exact congrArg some (by simpa [uint16] using hpkt)

end

/-- Fragments, in whatever order they arrive and however they were cut, are entire exactly if they
are complete, and give the payload; but not where the one with the greatest offset, of several the
latest, has more to come. -/
theorem reassembles_iff (datagram : Fragment) (hwhole : Fragment.Whole datagram)
    (arrivals : List Fragment) (hfragments : FragmentsOf datagram arrivals) :
    Reassembles datagram arrivals ↔ ¬ (Complete datagram arrivals ∧ MoreBehind arrivals) := by
  have hentire := received_isEntire_iff hwhole hfragments
  constructor
  · rintro hreassembles ⟨hcomplete, hbehind⟩
    exact (hentire.mp (hreassembles.entire.mpr hcomplete)).2 hbehind
  · intro hnot
    refine ⟨hentire.trans ⟨And.left, fun hcomplete => ⟨hcomplete, fun hbehind => ?_⟩⟩,
      received_getPacket hwhole hfragments⟩
    exact hnot ⟨hcomplete, hbehind⟩

def twoHundred : Fragment :=
  ⟨⟨0x0a010101, 0x0a010102, 1, 17, 200, 0, false, false⟩,
    (List.range 200).map UInt8.ofNat⟩

theorem twoHundred_whole : Fragment.Whole twoHundred :=
  ⟨rfl, rfl, by decide +kernel, by decide +kernel⟩

def twoHundredPieces (mtu : Nat) : List Fragment :=
  (doFragmentation false twoHundred mtu).getD []

/-- Of the cut for an MTU of 68 bytes the fourth fragment, then the cut for 148 bytes. -/
def crossed : List Fragment :=
  ((twoHundredPieces 68).drop 3).take 1 ++ twoHundredPieces 148

theorem fragmentsOf_twoHundred {arrivals : List Fragment}
    (harr :
      ∀ fragment ∈ arrivals, fragment ∈ twoHundredPieces 68 ∨ fragment ∈ twoHundredPieces 148) :
    FragmentsOf twoHundred arrivals := by
  have hcut : ∀ mtu, 68 ≤ mtu → mtu < 2 ^ 32 →
      doFragmentation false twoHundred mtu = some (twoHundredPieces mtu) →
      Fragment.Fragmented false twoHundred (twoHundredPieces mtu) := fun mtu hmtu hword hcut => by
    simpa using @Fragment.Fragmented.again false twoHundred [] [] _ twoHundred mtu .whole hmtu
      hword hcut
  intro fragment hmem
  rcases harr fragment hmem with hpiece | hpiece
  · exact ⟨false, _, hcut 68 (by decide) (by decide) (by decide +kernel), hpiece⟩
  · exact ⟨false, _, hcut 148 (by decide) (by decide) (by decide +kernel), hpiece⟩

theorem fragmentsOf_crossed : FragmentsOf twoHundred crossed :=
  fragmentsOf_twoHundred fun fragment hmem => by
    rcases mem_append.mp hmem with hmem | hmem
    · exact .inl (mem_of_mem_drop (mem_of_mem_take hmem))
    · exact .inr hmem

theorem complete_crossed : Complete twoHundred crossed where
  last := by decide +kernel
  covered pos hpos := by
    have hfst : extent (crossed.getD 1 twoHundred) = ⟨0, 128⟩ := by decide +kernel
    have hsnd : extent (crossed.getD 2 twoHundred) = ⟨128, 200⟩ := by decide +kernel
    have hlen : twoHundred.bytes.length = 200 := by decide +kernel
    rcases Nat.lt_or_ge pos 128 with hless | hge
    · exact ⟨_, mem_map_of_mem (by decide +kernel : crossed.getD 1 twoHundred ∈ crossed),
        by rw [hfst]; exact ⟨Nat.zero_le _, hless⟩⟩
    · exact ⟨_, mem_map_of_mem (by decide +kernel : crossed.getD 2 twoHundred ∈ crossed),
        by rw [hsnd]; exact ⟨hge, Nat.lt_of_lt_of_eq hpos hlen⟩⟩

theorem reassembles_iff_overlapping :
    Reassembles twoHundred (twoHundredPieces 68 ++ twoHundredPieces 148) :=
  (reassembles_iff twoHundred twoHundred_whole _
    (fragmentsOf_twoHundred fun _ hmem => List.mem_append.mp hmem)).mpr (by
      rintro ⟨-, fragment, hfurthest, hmore⟩
      have hlast : ((furthest (twoHundredPieces 68 ++ twoHundredPieces 148)).all
          fun fragment => !fragment.header.moreFragments) = true := by decide +kernel
      rw [hfurthest, Option.all_some, hmore] at hlast
      exact Bool.false_ne_true hlast)

/-- All of two hundred bytes have arrived from the cut for an MTU of 148 bytes; but a fragment of
the cut for 68 bytes is behind them, so they are not entire. -/
theorem crossed_not_entire :
    ¬ ∀ datagram arrivals,
      Fragment.Whole datagram → FragmentsOf datagram arrivals → Reassembles datagram arrivals := by
  intro hall
  have hentire := (hall twoHundred crossed twoHundred_whole fragmentsOf_crossed).entire.mpr
    complete_crossed
  have hnot : (received crossed).isEntire = false := by decide +kernel
  exact Bool.false_ne_true (hnot.symm.trans hentire)

end Fragments

end HomaSird.Internet
