import HomaSird.Internet.FragmentCover

/-! # The packet of a datagram that times out

`HandleFragmentsTimeout` drops the fragments of a datagram and reports what of its payload can
be put together from the start, which `GetPartialPacket` reads off the list.
-/

namespace HomaSird.Internet

open HomaSird.Interval List

open Fragment (Whole FragmentsOf Covered IsPart extent)

/-- A call of `CreateFragment`. -/
structure FragmentCall where
  fragment : List UInt8
  start : Nat
  length : Nat
deriving DecidableEq

def FragmentCall.InRange (call : FragmentCall) : Prop :=
  call.start ≤ call.fragment.length ∧ call.start + call.length ≤ call.fragment.length

/-- `RemoveAtStart (start)`, then `RemoveAtEnd (GetSize () - (start + length))`, each at most what
there is. -/
def FragmentCall.create (call : FragmentCall) : List UInt8 :=
  let tmp := call.fragment.drop call.start
  let atEnd := uint32OfInt (call.fragment.length - uint32 (call.start + call.length))
  tmp.take (tmp.length - min atEnd tmp.length)

namespace Fragments

/-- The loop of `GetPartialPacket`: the packet, and the calls of `CreateFragment` for it. -/
def partialLoop : List UInt8 → List (List UInt8 × Nat) → List UInt8 × List FragmentCall
  | p, [] => (p, [])
  | p, item :: rest =>
    let lastEndOffset := uint16 p.length
    if lastEndOffset > item.2 then
      let newStart := lastEndOffset - item.2
      let newSize := uint32OfInt (item.1.length - newStart)
      let call : FragmentCall := ⟨item.1, newStart, newSize⟩
      let result := partialLoop (p ++ call.create) rest
      (result.1, call :: result.2)
    else if lastEndOffset = item.2 then partialLoop (p ++ item.1) rest
    else partialLoop p rest

def getPartialPacket (fragments : Fragments) : Option (List UInt8 × List FragmentCall) :=
  match fragments.fragments with
  | [] => none
  | first :: rest => if first.2 > 0 then some ([], []) else some (partialLoop [] (first :: rest))

end Fragments

namespace Ipv4L3Protocol

/-- The packet that is dropped, whether an ICMP message is sent of it, and what is kept. -/
def handleFragmentsTimeout (protocol : Ipv4L3Protocol) (key : FragmentKey) :
    Option (List UInt8 × Bool × Ipv4L3Protocol) := do
  let fragments ← protocol.fragments.lookup key
  let (packet, _) ← fragments.getPartialPacket
  return (packet, packet.length > 8, ⟨protocol.fragments.erase key⟩)

end Ipv4L3Protocol

/-! ## Calls of `CreateFragment` -/

variable {fragment : List UInt8} {start : Nat}

theorem FragmentCall.create_inside (hstart : start ≤ fragment.length)
    (hword : fragment.length < 2 ^ 32) :
    FragmentCall.create ⟨fragment, start, uint32OfInt (fragment.length - start)⟩ =
      fragment.drop start := by
  have hsz : uint32OfInt (fragment.length - start) = fragment.length - start := by
    rw [uint32OfInt]
    omega
  have hend : uint32OfInt (fragment.length - uint32 (start + (fragment.length - start))) = 0 := by
    rw [Nat.add_sub_cancel' hstart, uint32_of_lt hword, Int.sub_self]
    rfl
  simp only [FragmentCall.create, hsz, hend, Nat.zero_min, Nat.sub_zero, take_length]

theorem FragmentCall.create_beyond (hstart : fragment.length ≤ start)
    (length : Nat) : FragmentCall.create ⟨fragment, start, length⟩ = [] := by
  simp only [FragmentCall.create, drop_of_length_le hstart, take_nil]

theorem FragmentCall.inRange_iff (hword : fragment.length < 2 ^ 32) :
    FragmentCall.InRange ⟨fragment, start, uint32OfInt (fragment.length - start)⟩ ↔
      start ≤ fragment.length := by
  refine ⟨And.left, fun hstart => ⟨hstart, ?_⟩⟩
  simp only [uint32OfInt]
  omega

namespace Fragments

variable {datagram fragment : Fragment} {arrivals : List Fragment} {payload : List UInt8}
  {items : List (List UInt8 × Nat)} {start : Nat}

/-! ## The loop -/

theorem take_append_drop {entry : List UInt8 × Nat} (hpart : IsPart payload entry)
    (hstart : entry.2 ≤ start) (hend : start ≤ entry.2 + entry.1.length) :
    payload.take start ++ entry.1.drop (start - entry.2) =
      payload.take (entry.2 + entry.1.length) := by
  have hdrop : entry.1.drop (start - entry.2) =
      Fragment.createFragment payload start (entry.2 + entry.1.length - start) := by
    have hinner := @IsPart.createFragment (start - entry.2) _ _ hpart
      (entry.1.length - (start - entry.2)) (by omega)
    have hplace : entry.2 + (start - entry.2) = start := by omega
    have hsz : entry.2 + entry.1.length - start = entry.1.length - (start - entry.2) := by omega
    rw [hplace] at hinner
    rw [hsz, ← hinner, Fragment.createFragment, take_of_length_le (le_of_eq length_drop)]
  rw [hdrop, take_append_createFragment, Nat.add_sub_cancel' hend]

theorem partialLoop_cons {entry : List UInt8 × Nat} (hpart : IsPart payload entry)
    (hword : payload.length < 2 ^ 16) (hstart : start ≤ payload.length)
    (rest : List (List UInt8 × Nat)) :
    ∃ cuts,
      partialLoop (payload.take start) (entry :: rest) =
        ((partialLoop (payload.take (reach start [range entry])) rest).1,
          cuts ++ (partialLoop (payload.take (reach start [range entry])) rest).2) ∧
        ((∀ cut ∈ cuts, cut.InRange) ↔ (entry.2 < start → start ≤ entry.2 + entry.1.length)) := by
  have hfits := hpart.fits
  have hlen : (payload.take start).length = start := by
    rw [length_take, Nat.min_eq_left hstart]
  simp only [partialLoop, hlen, uint16_of_lt (show start < 2 ^ 16 by omega)]
  by_cases hin : entry.2 < start
  · simp only [if_pos hin]
    rw [reach_singleton (show (range entry).lo ≤ start from Nat.le_of_lt hin)]
    simp only [range]
    refine ⟨[⟨entry.1, start - entry.2, uint32OfInt (entry.1.length - (start - entry.2 : Nat))⟩],
      ?_, ?_⟩
    · rcases Nat.lt_or_ge (entry.2 + entry.1.length) start with hcontained | hlonger
      · rw [FragmentCall.create_beyond (by omega), append_nil,
          Nat.max_eq_left (Nat.le_of_lt hcontained)]
        rfl
      · rw [FragmentCall.create_inside (by omega) (by omega),
          take_append_drop hpart (Nat.le_of_lt hin) hlonger, Nat.max_eq_right hlonger]
        rfl
    · rw [forall_mem_singleton, FragmentCall.inRange_iff (by omega)]
      omega
  · simp only [if_neg hin]
    refine ⟨[], ?_, iff_of_true (fun _ h => absurd h not_mem_nil) fun h => absurd h hin⟩
    by_cases hadj : start = entry.2
    · have hextended := take_append_drop hpart (Nat.le_of_eq hadj.symm) (by omega)
      rw [hadj, Nat.sub_self, drop_zero] at hextended
      rw [reach_singleton (show (range entry).lo ≤ start from Nat.le_of_eq hadj.symm),
        if_pos hadj, hadj, hextended]
      simp only [range, nil_append, Nat.max_eq_right (Nat.le_add_right entry.2 _)]
    · have hgap : start < entry.2 := by omega
      rw [if_neg hadj, reach_of_gap (forall_mem_singleton.mpr hgap), nil_append]

section

variable (hparts : ∀ entry ∈ items, IsPart payload entry) (hword : payload.length < 2 ^ 16)
  (hstart : start ≤ payload.length)
include hparts hword hstart

theorem partialLoop_packet :
    (partialLoop (payload.take start) items).1 = payload.take (reach start (items.map range)) := by
  induction items generalizing start with
  | nil => rfl
  | cons first rest ih =>
    obtain ⟨hpart, hrest⟩ := forall_mem_cons.mp hparts
    obtain ⟨cuts, hloop, -⟩ := partialLoop_cons hpart hword hstart rest
    have hnext : reach start [range first] ≤ payload.length :=
      reach_le hstart (forall_mem_singleton.mpr hpart.fits)
    rw [hloop]
    exact ih hrest hnext

theorem partialLoop_inRange :
    (∀ cut ∈ (partialLoop (payload.take start) items).2, cut.InRange) ↔
      ∀ front last back,
        items.map range = front ++ last :: back → last.lo < reach start front →
          reach start front ≤ last.hi := by
  induction items generalizing start with
  | nil =>
    refine iff_of_true (fun _ h => absurd h not_mem_nil) fun front last back hnil => ?_
    exact absurd hnil.symm (append_ne_nil_of_right_ne_nil _ (cons_ne_nil _ _))
  | cons first rest ih =>
    obtain ⟨hpart, hrest⟩ := forall_mem_cons.mp hparts
    obtain ⟨cuts, hloop, hcuts⟩ := partialLoop_cons hpart hword hstart rest
    have hnext : reach start [range first] ≤ payload.length :=
      reach_le hstart (forall_mem_singleton.mpr hpart.fits)
    rw [hloop, forall_mem_append, hcuts, ih hrest hnext, map_cons]
    constructor
    · rintro ⟨hfst, hbehind⟩ front last back hsplit
      cases front with
      | nil =>
        obtain ⟨rfl, -⟩ := cons.inj hsplit
        exact hfst
      | cons head front =>
        obtain ⟨rfl, hrest⟩ := cons.inj hsplit
        exact hbehind front last back hrest
    · intro hall
      exact ⟨hall [] _ _ rfl, fun front last back hsplit =>
        hall (range first :: front) last back (congrArg _ hsplit)⟩

end

/-! ## The prefix that has arrived -/

def LongestPrefix (datagram : Fragment) (arrivals : List Fragment) (packet : List UInt8) : Prop :=
  ∃ size, packet = datagram.bytes.take size ∧ (∀ pos < size, Covered arrivals pos) ∧
    ¬ Covered arrivals size

/-- It is the longest prefix that has arrived, and every `CreateFragment` for it is in range. -/
def GivesPrefix (datagram : Fragment) (arrivals : List Fragment) : Prop :=
  ∃ packet cuts, (received arrivals).getPartialPacket = some (packet, cuts) ∧
    LongestPrefix datagram arrivals packet ∧ ∀ cut ∈ cuts, cut.InRange

/-- A fragment ends before one in front of it in the list, where nothing is missing in front of
that. -/
def Swallowed (arrivals : List Fragment) : Prop :=
  ∃ first ∈ arrivals, ∃ second ∈ arrivals,
    (first.header.fragmentOffset < second.header.fragmentOffset ∨
      (first.header.fragmentOffset = second.header.fragmentOffset ∧
        [first, second].Sublist arrivals)) ∧
    second.extent.hi < first.extent.hi ∧
    ∀ pos < first.header.fragmentOffset, Covered arrivals pos

theorem pair_sublist_received {first second : Interval} :
    [first, second].Sublist ((received arrivals).fragments.map range) ↔
    ∃ ahead ∈ arrivals, ∃ behind ∈ arrivals, ahead.extent = first ∧ behind.extent = second ∧
    (first.lo < second.lo ∨ first.lo = second.lo ∧ [ahead, behind].Sublist arrivals) := by
  rw [received_fragments, SortedCopies.pair_sublist_map]
  constructor
  · rintro ⟨_, _, hsub, rfl, rfl⟩
    rcases SortedCopies.pair_sublist_sortArrivals.mp hsub with
      ⟨hahead, hbehind, hless⟩ | ⟨hkey, hsub⟩
    · obtain ⟨ahead, hmemAhead, rfl⟩ := mem_map.mp hahead
      obtain ⟨behind, hmemBehind, rfl⟩ := mem_map.mp hbehind
      exact ⟨ahead, hmemAhead, behind, hmemBehind, rfl, rfl, .inl hless⟩
    · obtain ⟨ahead, behind, hpair, rfl, rfl⟩ := SortedCopies.pair_sublist_map.mp hsub
      exact ⟨ahead, hpair.subset mem_cons_self, behind,
        hpair.subset (mem_cons_of_mem _ mem_cons_self), rfl, rfl, .inr ⟨hkey, hpair⟩⟩
  · rintro ⟨ahead, hahead, behind, hbehind, rfl, rfl, horder⟩
    refine ⟨item ahead, item behind, SortedCopies.pair_sublist_sortArrivals.mpr ?_, rfl, rfl⟩
    exact horder.imp (fun hless => ⟨mem_map_of_mem hahead, mem_map_of_mem hbehind, hless⟩)
      fun hsame => ⟨hsame.1, hsame.2.map item⟩

theorem swallowed_iff :
    Swallowed arrivals ↔
      ∃ front last back,
        (received arrivals).fragments.map range = front ++ last :: back ∧
          last.hi < reach 0 front := by
  have hfilled : ∀ span ∈ (received arrivals).fragments.map range, span.lo ≤ span.hi := by
    intro span hspan
    obtain ⟨entry, -, rfl⟩ := mem_map.mp hspan
    exact Nat.le_add_right _ _
  rw [exists_lt_reach_iff (received_ordered arrivals) hfilled]
  simp only [pair_sublist_received, covers_received]
  constructor
  · rintro ⟨first, hfst, second, hsnd, horder, hless, hcover⟩
    exact ⟨_, _, ⟨first, hfst, second, hsnd, rfl, rfl, horder⟩, hless, hcover⟩
  · rintro ⟨_, _, ⟨first, hfst, second, hsnd, rfl, rfl, horder⟩, hless, hcover⟩
    exact ⟨first, hfst, second, hsnd, horder, hless, hcover⟩

theorem received_getPartialPacket (hwhole : Whole datagram) (hfrags : FragmentsOf datagram arrivals)
    (hne : arrivals ≠ []) :
    ∃ packet cuts,
      (received arrivals).getPartialPacket = some (packet, cuts) ∧
        LongestPrefix datagram arrivals packet ∧
        ((∀ cut ∈ cuts, cut.InRange) ↔ ¬ Swallowed arrivals) := by
  have hord := received_ordered arrivals
  have hparts := received_parts hwhole hfrags
  have hword : datagram.bytes.length < 2 ^ 16 := by
    have hshort := hwhole.fits
    omega
  have hpkt := partialLoop_packet hparts hword (Nat.zero_le _)
  have hinRange := partialLoop_inRange hparts hword (Nat.zero_le _)
  have hprefix : LongestPrefix datagram arrivals (datagram.bytes.take
      (reach 0 ((received arrivals).fragments.map range))) :=
    ⟨_, rfl, fun pos hpos => covers_received.mp
      (covers_of_lt_reach (Nat.zero_le _) hpos), fun hcover =>
        not_covers_reach hord (covers_received.mpr hcover)⟩
  have hswallowed : (∀ front last back,
      (received arrivals).fragments.map range = front ++ last :: back →
        last.lo < reach 0 front → reach 0 front ≤ last.hi) ↔
      ¬ Swallowed arrivals := by
    rw [swallowed_iff]
    constructor
    · rintro hall ⟨front, last, back, hsplit, hless⟩
      have hspan : last ∈ (received arrivals).fragments.map range :=
        hsplit ▸ mem_append_right _ mem_cons_self
      obtain ⟨entry, -, rfl⟩ := mem_map.mp hspan
      have hle := hall front _ back hsplit (Nat.lt_of_le_of_lt (Nat.le_add_right _ _) hless)
      exact Nat.not_lt.mpr hle hless
    · intro hnot front last back hsplit _
      exact Nat.not_lt.mp fun hless => hnot ⟨front, last, back, hsplit, hless⟩
  rw [take_zero] at hpkt hinRange
  rw [hswallowed] at hinRange
  rw [getPartialPacket]
  cases hitems : (received arrivals).fragments with
  | nil =>
    obtain ⟨fragment, hmem⟩ := exists_mem_of_ne_nil arrivals hne
    have hent := mem_received.mpr ⟨fragment, hmem, rfl⟩
    rw [hitems] at hent
    cases hent
  | cons first rest =>
    rw [hitems] at hpkt hinRange hprefix hord
    rw [← hpkt] at hprefix
    by_cases hgap : first.2 > 0
    · -- the loop that is not entered would pass over all items
      have hskipped : ∀ entries : List (List UInt8 × Nat), (∀ entry ∈ entries, 0 < entry.2) →
          partialLoop [] entries = ([], []) := by
        intro entries hents
        induction entries with
        | nil => rfl
        | cons entry rest ih =>
          obtain ⟨hent, hrest⟩ := forall_mem_cons.mp hents
          have hzero : uint16 ([] : List UInt8).length = 0 := rfl
          simp only [partialLoop, hzero, if_neg (Nat.not_lt_zero _), if_neg (Nat.ne_of_lt hent)]
          exact ih hrest
      have hall : ∀ entry ∈ first :: rest, 0 < entry.2 := fun entry hent =>
        hord.gap hgap (range entry) (mem_map_of_mem hent)
      rw [hskipped _ hall] at hprefix hinRange
      exact ⟨[], [], if_pos hgap, hprefix, hinRange⟩
    · exact ⟨_, _, if_neg hgap, hprefix, hinRange⟩

/-- Fragments, in whatever order they arrive, give the longest prefix that has arrived; every
`CreateFragment` for it is in range unless one ends before another in front of it that is reached.
-/
theorem givesPrefix_iff (datagram : Fragment) (hwhole : Whole datagram)
    (arrivals : List Fragment) (hne : arrivals ≠ []) (hfragments : FragmentsOf datagram arrivals) :
    GivesPrefix datagram arrivals ↔ ¬ Swallowed arrivals := by
  obtain ⟨packet, cuts, hpkt, hprefix, hinRange⟩ :=
    received_getPartialPacket hwhole hfragments hne
  rw [← hinRange]
  constructor
  · rintro ⟨_, _, hother, -, hall⟩
    obtain ⟨rfl, rfl⟩ := Prod.mk.inj (Option.some.inj (hpkt.symm.trans hother))
    exact hall
  · exact fun hall => ⟨packet, cuts, hpkt, hprefix, hall⟩

/-- The third fragment of one cut arrives before the first one of another, which overlaps it. -/
theorem givesPrefix_overlapping :
    GivesPrefix twoHundred
      (((twoHundredPieces 68).drop 2).take 1 ++ (twoHundredPieces 148).take 1) := by
  have hfragments : FragmentsOf twoHundred
      (((twoHundredPieces 68).drop 2).take 1 ++ (twoHundredPieces 148).take 1) := by
    refine fragmentsOf_twoHundred fun fragment hmem => ?_
    rcases List.mem_append.mp hmem with hmem | hmem
    · exact .inl (List.mem_of_mem_drop (List.mem_of_mem_take hmem))
    · exact .inr (List.mem_of_mem_take hmem)
  have hends : ∀ first ∈ ((twoHundredPieces 68).drop 2).take 1 ++ (twoHundredPieces 148).take 1,
      ∀ second ∈ ((twoHundredPieces 68).drop 2).take 1 ++ (twoHundredPieces 148).take 1,
        first.header.fragmentOffset ≤ second.header.fragmentOffset →
          first.extent.hi ≤ second.extent.hi := by
    decide +kernel
  refine (givesPrefix_iff twoHundred twoHundred_whole _ (by decide +kernel) hfragments).mpr ?_
  rintro ⟨first, hfst, second, hsnd, hord, hless, -⟩
  have hle : first.header.fragmentOffset ≤ second.header.fragmentOffset :=
    hord.elim Nat.le_of_lt fun hsame => hsame.1.le
  exact Nat.not_lt.mpr (hends first hfst second hsnd hle) hless

/-- Of two hundred bytes the first fragment of the cut for an MTU of 148 bytes has arrived, and
that for 68 bytes, which ends before it; what it has behind it is computed as 48 - 128 on 32-bit
words. -/
theorem contained_out_of_range :
    ¬ ∀ datagram arrivals,
      Whole datagram → arrivals ≠ [] → FragmentsOf datagram arrivals →
        GivesPrefix datagram arrivals := by
  intro hall
  have hfragments : FragmentsOf twoHundred
      ((twoHundredPieces 148).take 1 ++ (twoHundredPieces 68).take 1) := by
    refine fragmentsOf_twoHundred fun fragment hmem => ?_
    rcases List.mem_append.mp hmem with hmem | hmem
    · exact .inr (List.mem_of_mem_take hmem)
    · exact .inl (List.mem_of_mem_take hmem)
  obtain ⟨_, cuts, hpkt, -, hinRange⟩ := hall _ _ twoHundred_whole (by decide +kernel) hfragments
  have hcuts : ((received ((twoHundredPieces 148).take 1 ++
      (twoHundredPieces 68).take 1)).getPartialPacket.map fun result =>
        result.2.map fun cut => (cut.fragment.length, cut.start, cut.length)) =
      some [(48, 128, 4294967216)] := by decide +kernel
  rw [hpkt, Option.map_some, Option.some.injEq] at hcuts
  obtain ⟨cut, rest, rfl, hcut, -⟩ := List.map_eq_cons_iff.mp hcuts
  have hstart := (hinRange cut List.mem_cons_self).1
  obtain ⟨hlen, hplace, -⟩ := by simpa only [Prod.mk.injEq] using hcut
  omega

end Fragments

end HomaSird.Internet
