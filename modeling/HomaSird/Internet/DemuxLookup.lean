import Mathlib.Data.List.Nodup
import HomaSird.Internet.Ipv4EndPointDemux

/-! # Lookups find the best endpoint

Two endpoints that could be taken for each other differ in the port, the peer, the device or the
local address. The allocations keep the first three apart but for an endpoint for all devices that
comes after one for a single device. Two different local addresses may both match a destination as
wildcards.
-/

namespace HomaSird.Internet

open Transition List Ipv4Address

namespace Ipv4EndPointDemux

/-! ## What a packet may go to -/

def peerExact (packet : Packet) (endP : Ipv4EndPoint) : Bool :=
  endP.peerAddr == packet.saddr && endP.peerPort == packet.sport

def peerWild (endP : Ipv4EndPoint) : Bool :=
  endP.peerAddr == Ipv4Address.getAny && endP.peerPort == 0

def accepts (packet : Packet) (endP : Ipv4EndPoint) : Bool :=
  endP.rxEnabled && endP.localPort == packet.dport && !boundElsewhere packet endP &&
    (localAddressMatchesExact packet endP || localAddressMatchesWildCard packet endP) &&
    (endP.peerPort == packet.sport || endP.peerPort == 0) &&
    (endP.peerAddr == packet.saddr || endP.peerAddr == Ipv4Address.getAny)

def rank (packet : Packet) (endP : Ipv4EndPoint) : Nat :=
  match peerExact packet endP, localAddressMatchesExact packet endP with
  | true, true => 4
  | true, false => 3
  | false, true => 2
  | false, false => 1

structure Serves (demux : Ipv4EndPointDemux) (packet : Packet) (result : List Ipv4EndPoint) :
    Prop where
  returns : demux.lookup packet = some result
  single : result.length ≤ 1
  best : ∀ endP ∈ result, endP ∈ demux.endPoints ∧ accepts packet endP = true ∧
    ∀ other ∈ demux.endPoints, accepts packet other = true → rank packet other ≤ rank packet endP
  none : result = [] ↔ ∀ endP ∈ demux.endPoints, accepts packet endP = false

/-- Endpoints that match only as wildcards, with the same peer, have the same local address, unless
one ranking above them accepts the packet. -/
def OneWildCard (demux : Ipv4EndPointDemux) (packet : Packet) : Prop :=
  ∀ endP ∈ demux.endPoints, ∀ other ∈ demux.endPoints,
    accepts packet endP = true → accepts packet other = true →
    localAddressMatchesWildCard packet endP = true →
    localAddressMatchesWildCard packet other = true →
    endP.peerAddr = other.peerAddr → endP.peerPort = other.peerPort →
    endP.localAddr = other.localAddr ∨
      ∃ above ∈ demux.endPoints, accepts packet above = true ∧
        rank packet endP < rank packet above

/-! ## What the allocations keep -/

def WholePeer (address : Ipv4Address) (port : Port) : Prop :=
  address = Ipv4Address.getAny ↔ port = 0

instance (address : Ipv4Address) (port : Port) : Decidable (WholePeer address port) :=
  inferInstanceAs (Decidable (_ ↔ _))

/-- Two endpoints that some packet cannot tell apart. -/
structure Clash (endP other : Ipv4EndPoint) : Prop where
  localPort : endP.localPort = other.localPort
  localAddr : endP.localAddr = other.localAddr
  peerAddr : endP.peerAddr = other.peerAddr
  peerPort : endP.peerPort = other.peerPort
  device : endP.boundNetDevice = other.boundNetDevice ∨ endP.boundNetDevice = none ∨
    other.boundNetDevice = none

structure Apart (demux : Ipv4EndPointDemux) : Prop where
  fresh : ∀ endP ∈ demux.endPoints, endP.id < demux.nextId
  ids : demux.endPoints.Pairwise fun endP other => endP.id ≠ other.id
  clash : demux.endPoints.Pairwise fun endP other => ¬ Clash endP other
  peers : ∀ endP ∈ demux.endPoints, WholePeer endP.peerAddr endP.peerPort

def boundAlready (demux : Ipv4EndPointDemux) (localAddress : Ipv4Address) (localPort : Port)
    (peerAddress : Ipv4Address) (peerPort : Port) : Bool :=
  demux.endPoints.any fun endP =>
    endP.localPort == localPort && endP.localAddr == localAddress &&
      endP.peerAddr == peerAddress && endP.peerPort == peerPort && endP.boundNetDevice.isSome

/-- None for all devices comes after one for a device with the same addresses; peers are whole, and
no peer is given to two that clash then. -/
def keepsApart (demux : Ipv4EndPointDemux) : DemuxCall → Bool
  | .allocatePort none port =>
    demux.lookupLocal none Ipv4Address.getAny port ||
      !demux.boundAlready Ipv4Address.getAny port Ipv4Address.getAny 0
  | .allocateLocal none address port =>
    demux.lookupLocal none address port ||
      !demux.boundAlready address port Ipv4Address.getAny 0
  | .allocatePeer device localAddress localPort peerAddress peerPort =>
    demux.lookupPeer device localAddress localPort peerAddress peerPort ||
      (WholePeer peerAddress peerPort &&
        (device.isSome || !demux.boundAlready localAddress localPort peerAddress peerPort))
  | .setPeer id address port =>
    WholePeer address port && demux.endPoints.all fun endP => endP.id != id ||
      demux.endPoints.all fun other => other.id == id ||
        !(other.localPort == endP.localPort && other.localAddr == endP.localAddr &&
          other.peerAddr == address && other.peerPort == port &&
          (other.boundNetDevice == endP.boundNetDevice || other.boundNetDevice.isNone ||
            endP.boundNetDevice.isNone))
  | _ => true

variable {demux next : Ipv4EndPointDemux} {packet : Packet} {endP other : Ipv4EndPoint}

theorem Clash.symm (hclash : Clash endP other) : Clash other endP :=
  ⟨hclash.localPort.symm, hclash.localAddr.symm, hclash.peerAddr.symm, hclash.peerPort.symm,
    hclash.device.imp Eq.symm Or.symm⟩

/-! ## The lists of a lookup -/

def place (packet : Packet) (found : Found) (endP : Ipv4EndPoint) : Found :=
  let found := if localAddressMatchesExact packet endP && peerExact packet endP then
    { found with retval4 := found.retval4 ++ [endP] } else found
  let found := if localAddressMatchesWildCard packet endP && peerExact packet endP then
    { found with retval3 := found.retval3 ++ [endP] } else found
  let found := if localAddressMatchesExact packet endP && peerWild endP then
    { found with retval2 := found.retval2 ++ [endP] } else found
  if localAddressMatchesWildCard packet endP && peerWild endP then
    { found with retval1 := found.retval1 ++ [endP] } else found

theorem lookupRound_eq (packet : Packet) (found : Found) (endP : Ipv4EndPoint) :
    lookupRound packet found endP =
      if accepts packet endP then place packet found endP else found := by
  rw [lookupRound, accepts, place, peerExact, peerWild]
  simp only [Bool.and_assoc]
  generalize localAddressMatchesExact packet endP = localExact
  generalize localAddressMatchesWildCard packet endP = localWild
  generalize (endP.peerPort == packet.sport) = portExact
  generalize (endP.peerPort == 0) = portWild
  generalize (endP.peerAddr == packet.saddr) = addrExact
  generalize (endP.peerAddr == getAny) = addrWild
  generalize boundElsewhere packet endP = elsewhere
  rw [bne]
  generalize (endP.localPort == packet.dport) = portFits
  cases endP.rxEnabled with
  | false => rfl
  | true =>
    cases portFits with
    | false => rfl
    | true =>
      cases elsewhere with
      | true => rfl
      | false =>
        cases localExact <;> cases localWild <;> first
          | rfl
          | cases portExact <;> cases portWild <;> first
            | rfl
            | cases addrExact <;> cases addrWild <;> rfl

def selected (packet : Packet) (localTest peerTest : Ipv4EndPoint → Bool) (endP : Ipv4EndPoint) :
    Bool := accepts packet endP && (localTest endP && peerTest endP)

theorem lookupLoop_eq (packet : Packet) (endPoints : List Ipv4EndPoint) (found : Found) :
    endPoints.foldl (lookupRound packet) found = {
      retval1 := found.retval1 ++ endPoints.filter
        (selected packet (localAddressMatchesWildCard packet) peerWild)
      retval2 := found.retval2 ++ endPoints.filter
        (selected packet (localAddressMatchesExact packet) peerWild)
      retval3 := found.retval3 ++ endPoints.filter
        (selected packet (localAddressMatchesWildCard packet) (peerExact packet))
      retval4 := found.retval4 ++ endPoints.filter
        (selected packet (localAddressMatchesExact packet) (peerExact packet)) } := by
  induction endPoints generalizing found with
  | nil => simp
  | cons endP rest ih =>
    rw [foldl_cons, ih, lookupRound_eq]
    simp only [filter_cons, selected]
    by_cases hacc : accepts packet endP = true
    · simp only [hacc, if_true, Bool.true_and, place]
      generalize (localAddressMatchesExact packet endP && peerExact packet endP) = four
      generalize (localAddressMatchesWildCard packet endP && peerExact packet endP) = three
      generalize (localAddressMatchesExact packet endP && peerWild endP) = two
      generalize (localAddressMatchesWildCard packet endP && peerWild endP) = one
      cases four <;> cases three <;> cases two <;> cases one <;> simp
    · simp [eq_false_of_ne_true hacc]

/-! ## Ranks -/

theorem accepts_iff :
    accepts packet endP = true ↔
      endP.rxEnabled = true ∧ endP.localPort = packet.dport ∧ boundElsewhere packet endP = false ∧
        (localAddressMatchesExact packet endP = true ∨
          localAddressMatchesWildCard packet endP = true) ∧
        (endP.peerPort = packet.sport ∨ endP.peerPort = 0) ∧
        (endP.peerAddr = packet.saddr ∨ endP.peerAddr = getAny) := by
  simp only [accepts, Bool.and_eq_true, Bool.or_eq_true, Bool.not_eq_true', beq_iff_eq, and_assoc]

theorem exact_of_not_wild (hacc : accepts packet endP = true) :
    localAddressMatchesWildCard packet endP = !localAddressMatchesExact packet endP := by
  have hlocal := (accepts_iff.mp hacc).2.2.2.1
  cases hexact : localAddressMatchesExact packet endP with
  | true => rw [localAddressMatchesWildCard, hexact]; rfl
  | false => exact hlocal.resolve_left (by rw [hexact]; exact Bool.false_ne_true)

theorem peerWild_of_not_exact (hpeer : WholePeer endP.peerAddr endP.peerPort)
    (hacc : accepts packet endP = true) (hexact : peerExact packet endP = false) :
    peerWild endP = true := by
  obtain ⟨-, -, -, -, hport, haddr⟩ := accepts_iff.mp hacc
  rw [peerWild, Bool.and_eq_true, beq_iff_eq, beq_iff_eq]
  by_cases hany : endP.peerAddr = getAny
  · exact ⟨hany, hpeer.mp hany⟩
  · have hsome : endP.peerPort ≠ 0 := fun hzero => hany (hpeer.mpr hzero)
    have hfits : peerExact packet endP = true := by
      rw [peerExact, haddr.resolve_right hany, hport.resolve_right hsome]
      simp
    rw [hfits] at hexact
    cases hexact

def ranked (demux : Ipv4EndPointDemux) (packet : Packet) (level : Nat) : List Ipv4EndPoint :=
  demux.endPoints.filter fun endP => accepts packet endP && rank packet endP == level

theorem mem_ranked {level : Nat} :
    endP ∈ demux.ranked packet level ↔
      endP ∈ demux.endPoints ∧ accepts packet endP = true ∧ rank packet endP = level := by
  simp [ranked]

theorem rank_cases (packet : Packet) (endP : Ipv4EndPoint) :
    rank packet endP = 4 ∨ rank packet endP = 3 ∨ rank packet endP = 2 ∨ rank packet endP = 1 := by
  rw [rank]
  split <;> simp

theorem rank_eq_iff :
    rank packet endP = rank packet other ↔ peerExact packet endP = peerExact packet other ∧
    localAddressMatchesExact packet endP = localAddressMatchesExact packet other := by
  rw [rank, rank]
  generalize peerExact packet endP = peer
  generalize peerExact packet other = otherPeer
  generalize localAddressMatchesExact packet endP = exact
  generalize localAddressMatchesExact packet other = otherExact
  cases peer <;> cases otherPeer <;> cases exact <;> cases otherExact <;> decide

section

variable (hpeers : ∀ endP ∈ demux.endPoints, WholePeer endP.peerAddr endP.peerPort)
include hpeers

theorem filter_selected :
    demux.endPoints.filter (selected packet (localAddressMatchesExact packet) (peerExact packet)) =
      demux.ranked packet 4 ∧
      demux.endPoints.filter
        (selected packet (localAddressMatchesWildCard packet) (peerExact packet)) =
        demux.ranked packet 3 ∧
      (demux.ranked packet 4 = [] →
        demux.endPoints.filter (selected packet (localAddressMatchesExact packet) peerWild) =
          demux.ranked packet 2) ∧
      (demux.ranked packet 3 = [] →
        demux.endPoints.filter (selected packet (localAddressMatchesWildCard packet) peerWild) =
          demux.ranked packet 1) := by
  have hwild : ∀ endP ∈ demux.endPoints, accepts packet endP = true →
      peerExact packet endP = false → peerWild endP = true :=
    fun endP hendP => peerWild_of_not_exact (hpeers endP hendP)
  refine ⟨filter_congr fun endP hendP => ?_, filter_congr fun endP hendP => ?_,
    fun hnil => filter_congr fun endP hendP => ?_,
    fun hnil => filter_congr fun endP hendP => ?_⟩
  all_goals
    rw [selected]
    by_cases hacc : accepts packet endP = true
    case neg => simp [eq_false_of_ne_true hacc]
    simp only [hacc, Bool.true_and, exact_of_not_wild hacc, rank]
  · cases peerExact packet endP <;> cases localAddressMatchesExact packet endP <;> rfl
  · cases peerExact packet endP <;> cases localAddressMatchesExact packet endP <;> rfl
  · have hnot : ¬ (accepts packet endP = true ∧ rank packet endP = 4) := fun hboth =>
      not_mem_nil (hnil ▸ mem_ranked.mpr ⟨hendP, hboth⟩)
    rw [rank] at hnot
    cases hpeer : peerExact packet endP <;>
      cases hlocal : localAddressMatchesExact packet endP <;>
      simp_all
  · have hnot : ¬ (accepts packet endP = true ∧ rank packet endP = 3) := fun hboth =>
      not_mem_nil (hnil ▸ mem_ranked.mpr ⟨hendP, hboth⟩)
    rw [rank] at hnot
    cases hpeer : peerExact packet endP <;>
      cases hlocal : localAddressMatchesExact packet endP <;>
      simp_all

theorem best_eq :
    ∃ level,
      (demux.endPoints.foldl (lookupRound packet) {}).best = demux.ranked packet level ∧
        ∀ endP ∈ demux.endPoints,
          accepts packet endP = true →
            rank packet endP ≤ level ∧ demux.ranked packet level ≠ [] := by
  obtain ⟨hfour, hthree, htwo, hone⟩ := @filter_selected demux packet hpeers
  have hempty : ∀ level, demux.ranked packet level = [] → ∀ endP ∈ demux.endPoints,
      accepts packet endP = true → rank packet endP ≠ level :=
    fun level hnil endP hendP hacc hrank =>
      not_mem_nil (hnil ▸ mem_ranked.mpr ⟨hendP, hacc, hrank⟩)
  have hsome : ∀ {level : Nat}, demux.ranked packet level ≠ [] →
      (!(demux.ranked packet level).isEmpty) = true := by
    intro level hne
    simpa using hne
  rw [lookupLoop_eq]
  simp only [nil_append, Found.best, hfour, hthree]
  by_cases hnoFour : demux.ranked packet 4 = []
  case neg =>
    refine ⟨4, if_pos (hsome hnoFour), fun endP _ _ => ⟨?_, hnoFour⟩⟩
    have hrank := rank_cases packet endP
    omega
  rw [htwo hnoFour, if_neg (by simp [hnoFour])]
  by_cases hnoThree : demux.ranked packet 3 = []
  case neg =>
    refine ⟨3, if_pos (hsome hnoThree), fun endP hendP hacc => ⟨?_, hnoThree⟩⟩
    have hrank := rank_cases packet endP
    have hfour := hempty 4 hnoFour endP hendP hacc
    omega
  rw [hone hnoThree, if_neg (by simp [hnoThree])]
  by_cases hnoTwo : demux.ranked packet 2 = []
  case neg =>
    refine ⟨2, if_pos (hsome hnoTwo), fun endP hendP hacc => ⟨?_, hnoTwo⟩⟩
    have hrank := rank_cases packet endP
    have hfour := hempty 4 hnoFour endP hendP hacc
    have hthree := hempty 3 hnoThree endP hendP hacc
    omega
  refine ⟨1, if_neg (by simp [hnoTwo]), fun endP hendP hacc => ?_⟩
  have hrank := rank_cases packet endP
  have hfour := hempty 4 hnoFour endP hendP hacc
  have hthree := hempty 3 hnoThree endP hendP hacc
  have htwo := hempty 2 hnoTwo endP hendP hacc
  exact ⟨by omega, ne_nil_of_mem (mem_ranked.mpr ⟨hendP, hacc, by omega⟩)⟩

theorem clash_of_ranked {level : Nat} (hendP : endP ∈ demux.ranked packet level)
    (hother : other ∈ demux.ranked packet level) :
    endP.peerAddr = other.peerAddr ∧ endP.peerPort = other.peerPort ∧
      localAddressMatchesExact packet endP = localAddressMatchesExact packet other ∧
      (endP.localAddr = other.localAddr → Clash endP other) := by
  obtain ⟨hmem, hacc, hrank⟩ := mem_ranked.mp hendP
  obtain ⟨hotherMem, hotherAccepts, hotherRank⟩ := mem_ranked.mp hother
  have htests := rank_eq_iff.mp (hrank.trans hotherRank.symm)
  have hpeer : endP.peerAddr = other.peerAddr ∧ endP.peerPort = other.peerPort := by
    cases hexact : peerExact packet endP with
    | true =>
      have hotherExact := htests.1.symm.trans hexact
      rw [peerExact, Bool.and_eq_true, beq_iff_eq, beq_iff_eq] at hexact hotherExact
      exact ⟨hexact.1.trans hotherExact.1.symm, hexact.2.trans hotherExact.2.symm⟩
    | false =>
      have hwild := peerWild_of_not_exact (hpeers _ hmem) hacc hexact
      have hotherWild := peerWild_of_not_exact (hpeers _ hotherMem) hotherAccepts
        (htests.1.symm.trans hexact)
      rw [peerWild, Bool.and_eq_true, beq_iff_eq, beq_iff_eq] at hwild hotherWild
      exact ⟨hwild.1.trans hotherWild.1.symm, hwild.2.trans hotherWild.2.symm⟩
  refine ⟨hpeer.1, hpeer.2, htests.2, fun hlocal => ⟨?_, hlocal, hpeer.1, hpeer.2, ?_⟩⟩
  · exact (accepts_iff.mp hacc).2.1.trans (accepts_iff.mp hotherAccepts).2.1.symm
  · have hdevice := (accepts_iff.mp hacc).2.2.1
    have hotherDevice := (accepts_iff.mp hotherAccepts).2.2.1
    rw [boundElsewhere] at hdevice hotherDevice
    cases hbd : endP.boundNetDevice with
    | none => exact .inr (.inl rfl)
    | some device =>
      cases hotherBound : other.boundNetDevice with
      | none => exact .inr (.inr rfl)
      | some otherDevice =>
        rw [hbd] at hdevice
        rw [hotherBound] at hotherDevice
        have hin : some device = packet.incomingInterface.device := by simpa using hdevice
        have hotherIn : some otherDevice = packet.incomingInterface.device := by
          simpa using hotherDevice
        exact .inl (hin.trans hotherIn.symm)

end

theorem eq_of_length_le_one {α : Type} {items : List α} {first second : α} (hshort :
    items.length ≤ 1) (hfst : first ∈ items) (hsnd : second ∈ items) : first = second := by
  cases items with
  | nil => cases hfst
  | cons head rest =>
    obtain rfl : rest = [] := eq_nil_of_length_eq_zero (by simpa using hshort)
    rw [mem_singleton] at hfst hsnd
    rw [hfst, hsnd]

theorem exists_pair_of_length {α : Type} {relation : α → α → Prop}
    {items : List α} (hpairs : items.Pairwise relation) (hlong : 1 < items.length) :
    ∃ first second, first ∈ items ∧ second ∈ items ∧ relation first second := by
  cases hpairs with
  | nil => simp at hlong
  | @cons first rest hfst _ =>
    obtain ⟨second, hsnd⟩ := exists_mem_of_length_pos (l := rest) (by simpa using hlong)
    exact ⟨first, second, mem_cons_self, mem_cons_of_mem _ hsnd, hfst second hsnd⟩

theorem Apart.serves_iff (hapart : Apart demux)
    (packet : Packet) : (∃ result, Serves demux packet result) ↔ OneWildCard demux packet := by
  obtain ⟨level, hbest, hlevel⟩ := @best_eq demux packet hapart.peers
  have hlook : demux.lookup packet = if 1 < (demux.ranked packet level).length then none
      else some (demux.ranked packet level) := by
    rw [lookup]
    simp only [hbest, gt_iff_lt]
  constructor
  · rintro ⟨result, hserves⟩ endP hendP other hother hacc hotherAccepts hwild hotherWild
      haddr hport
    by_contra htied
    rw [not_or] at htied
    obtain ⟨hne, hnone⟩ := htied
    obtain ⟨hle, hsome⟩ := hlevel endP hendP hacc
    -- nothing that accepts stands above the pair, so they are of the best level
    have htop : rank packet endP = level := by
      obtain ⟨above, habove⟩ := exists_mem_of_ne_nil _ hsome
      obtain ⟨hmem, haboveAccepts, haboveRank⟩ := mem_ranked.mp habove
      by_contra hbelow
      exact hnone ⟨above, hmem, haboveAccepts, by omega⟩
    have hpeer : peerExact packet endP = peerExact packet other := by
      rw [peerExact, peerExact, haddr, hport]
    rw [exact_of_not_wild hacc, Bool.not_eq_true'] at hwild
    rw [exact_of_not_wild hotherAccepts, Bool.not_eq_true'] at hotherWild
    have hrank : rank packet endP = rank packet other :=
      rank_eq_iff.mpr ⟨hpeer, hwild.trans hotherWild.symm⟩
    have hshort : (demux.ranked packet level).length ≤ 1 := by
      have hret := hserves.returns
      rw [hlook] at hret
      by_contra hlong
      rw [if_pos (by omega)] at hret
      cases hret
    have hsame := eq_of_length_le_one hshort (mem_ranked.mpr ⟨hendP, hacc, htop⟩)
      (mem_ranked.mpr ⟨hother, hotherAccepts, hrank.symm.trans htop⟩)
    exact hne (congrArg _ hsame)
  · intro hone
    have hshort : ¬ 1 < (demux.ranked packet level).length := by
      intro hlong
      -- two of the best level would be the tied wildcard pair that is excluded
      obtain ⟨endP, other, hendP, hother, hnot⟩ :=
        exists_pair_of_length (hapart.clash.filter _) hlong
      obtain ⟨haddr, hport, hexact, hclash⟩ := clash_of_ranked hapart.peers hendP hother
      have hne : endP.localAddr ≠ other.localAddr := fun heq => hnot (hclash heq)
      obtain ⟨hmem, hacc, hrank⟩ := mem_ranked.mp hendP
      obtain ⟨hotherMem, hotherAccepts, -⟩ := mem_ranked.mp hother
      have hwild : localAddressMatchesExact packet endP = false := by
        by_contra hfits
        rw [Bool.not_eq_false] at hfits
        have hotherFits := hexact.symm.trans hfits
        rw [localAddressMatchesExact, beq_iff_eq] at hfits hotherFits
        exact hne (hfits.trans hotherFits.symm)
      rcases hone endP hmem other hotherMem hacc hotherAccepts
        (by rw [exact_of_not_wild hacc, hwild]; rfl)
        (by rw [exact_of_not_wild hotherAccepts, ← hexact, hwild]; rfl) haddr hport
        with heq | ⟨above, habove, haboveAccepts, hhigher⟩
      · exact hne heq
      · have hle := (hlevel above habove haboveAccepts).1
        omega
    rw [if_neg hshort] at hlook
    refine ⟨demux.ranked packet level, hlook, by omega, fun endP hendP => ?_, ?_⟩
    · obtain ⟨hmem, hacc, hrank⟩ := mem_ranked.mp hendP
      exact ⟨hmem, hacc, fun other hother hotherAccepts =>
        hrank ▸ (hlevel other hother hotherAccepts).1⟩
    · constructor
      · intro hnil endP hendP
        by_contra hacc
        exact (hlevel endP hendP (by simpa using hacc)).2 hnil
      · intro hno
        rw [eq_nil_iff_forall_not_mem]
        intro endP hendP
        obtain ⟨hmem, hacc, -⟩ := mem_ranked.mp hendP
        rw [hno endP hmem] at hacc
        cases hacc

/-! ## Runs -/

theorem wholePeer_none : WholePeer getAny 0 := ⟨fun _ => rfl, fun _ => rfl⟩

theorem ephemeralLoop_free {count : Nat} {port result : Port}
    (hres : demux.ephemeralLoop count port = some result) :
    demux.lookupPortLocal result = false := by
  induction count generalizing port with
  | zero => cases hres
  | succ count ih =>
    have hround : ∀ port, (if demux.lookupPortLocal port then demux.ephemeralLoop count port
        else some port) = some result → demux.lookupPortLocal result = false := by
      intro port hfound
      split at hfound
      · exact ih hfound
      next hfree =>
        rw [← Option.some.inj hfound]
        exact eq_false_of_ne_true hfree
    exact hround _ hres

section

variable (hapart : Apart demux)
include hapart

theorem Apart.add {base : Ipv4EndPointDemux} (hbase : base.endPoints = demux.endPoints)
    (hnext : base.nextId = demux.nextId) {new : Nat → Ipv4EndPoint} {device : Option NetDevice}
    (hid : (new demux.nextId).id = demux.nextId)
    (hpeer : WholePeer (new demux.nextId).peerAddr (new demux.nextId).peerPort)
    (hclear : ∀ endP ∈ demux.endPoints,
      ¬ Clash endP { new demux.nextId with boundNetDevice := device }) :
    Apart (demux.bindAllocated device (some (base.push new))) := by
  have hends : (demux.bindAllocated device (some (base.push new))).endPoints =
      demux.endPoints ++ [{ new demux.nextId with boundNetDevice := device }] := by
    simp only [bindAllocated, push, update, hbase, hnext, map_append, map_cons,
      map_nil, hid, if_true]
    congr 1
    refine (map_congr_left fun endP hendP => if_neg ?_).trans (map_id _)
    exact Nat.ne_of_lt (hapart.fresh endP hendP)
  have hnextId : (demux.bindAllocated device (some (base.push new))).nextId =
      demux.nextId + 1 := congrArg Nat.succ hnext
  refine ⟨?_, ?_, ?_, ?_⟩
  · rw [hends, hnextId]
    intro endP hendP
    rcases mem_append.mp hendP with hold | hnew
    · exact Nat.lt_succ_of_lt (hapart.fresh endP hold)
    · rw [mem_singleton.mp hnew]
      exact Nat.lt_succ_of_le (Nat.le_of_eq hid)
  · rw [hends]
    refine pairwise_append.mpr ⟨hapart.ids, pairwise_singleton _ _, ?_⟩
    intro endP hendP last hlast
    rw [mem_singleton.mp hlast]
    exact fun heq => Nat.ne_of_lt (hapart.fresh endP hendP) (heq.trans hid)
  · rw [hends]
    refine pairwise_append.mpr ⟨hapart.clash, pairwise_singleton _ _, ?_⟩
    intro endP hendP last hlast
    rw [mem_singleton.mp hlast]
    exact hclear endP hendP
  · rw [hends]
    intro endP hendP
    rcases mem_append.mp hendP with hold | hnew
    · exact hapart.peers endP hold
    · rw [mem_singleton.mp hnew]
      exact hpeer

theorem Apart.ephemeral {device : Option NetDevice} {address : Ipv4Address}
    {result : Option (Nat × Ipv4EndPointDemux)}
    (hres : result = demux.allocateEphemeralPort.map fun found => found.2.push fun id =>
        { id := id, localAddr := address, localPort := found.1 }) :
    Apart (demux.bindAllocated device result) := by
  rw [hres, allocateEphemeralPort]
  cases hloop : demux.ephemeralLoop ((portLast - portFirst).toNat + 1) demux.ephemeral with
  | none => exact hapart
  | some port =>
    refine @Apart.add demux hapart { demux with ephemeral := port } rfl rfl
      (fun id => { id := id, localAddr := address, localPort := port }) device rfl wholePeer_none
      fun endP hendP hclash => ?_
    have hfree := ephemeralLoop_free hloop
    rw [lookupPortLocal, any_eq_false] at hfree
    exact hfree endP hendP (beq_iff_eq.mpr hclash.localPort)

theorem Apart.local {device : Option NetDevice} {address : Ipv4Address} {port : Port}
    (hpre : device = none →
      demux.lookupLocal none address port = true ∨
        demux.boundAlready address port getAny 0 = false) :
    Apart (demux.bindAllocated device (demux.allocateLocal device address port)) := by
  rw [allocateLocal]
  split
  · exact hapart
  next hfree =>
    rw [Bool.or_eq_true, not_or, Bool.not_eq_true, Bool.not_eq_true] at hfree
    refine hapart.add rfl rfl rfl wholePeer_none fun endP hendP hclash => ?_
    have hsame : (endP.localPort == port && endP.localAddr == address) = true := by
      rw [Bool.and_eq_true, beq_iff_eq, beq_iff_eq]
      exact ⟨hclash.localPort, hclash.localAddr⟩
    rcases hclash.device with hdevice | hnone | hall
    · rw [lookupLocal, any_eq_false] at hfree
      exact hfree.1 endP hendP (by rw [hsame, hdevice]; simp)
    · have hother := hfree.2
      rw [lookupLocal, any_eq_false] at hother
      exact hother endP hendP (by rw [hsame, hnone]; rfl)
    · have halone := (hpre hall).resolve_left (by rw [hfree.2]; exact Bool.false_ne_true)
      have hother := hfree.2
      rw [lookupLocal, any_eq_false] at hother
      rw [boundAlready, any_eq_false] at halone
      cases hbd : endP.boundNetDevice with
      | none => exact hother endP hendP (by rw [hsame, hbd]; rfl)
      | some _ =>
        refine halone endP hendP ?_
        rw [hsame, hclash.peerAddr, hclash.peerPort, hbd]
        rfl

theorem Apart.peer {device : Option NetDevice} {localAddress peerAddress : Ipv4Address}
    {localPort peerPort : Port}
    (hpre : demux.lookupPeer device localAddress localPort peerAddress peerPort = true ∨
      WholePeer peerAddress peerPort ∧
        (device = none → demux.boundAlready localAddress localPort peerAddress peerPort = false)) :
    Apart (demux.bindAllocated device
        (demux.allocatePeer device localAddress localPort peerAddress peerPort)) := by
  rw [allocatePeer]
  split
  · exact hapart
  next hfree =>
    obtain ⟨hpeer, halone⟩ := hpre.resolve_left hfree
    refine hapart.add rfl rfl rfl hpeer fun endP hendP hclash => ?_
    rw [lookupPeer, Bool.not_eq_true, any_eq_false] at hfree
    have hno := hfree endP hendP
    rw [hclash.localPort, hclash.localAddr, hclash.peerAddr, hclash.peerPort] at hno
    simp only [beq_self_eq_true, Bool.true_and, Bool.or_eq_true, beq_iff_eq, not_or] at hno
    rcases hclash.device with hdevice | hnone | hall
    · exact hno.1 hdevice
    · exact hno.2 hnone
    · have hnone := halone hall
      rw [boundAlready, any_eq_false] at hnone
      refine hnone endP hendP ?_
      rw [hclash.localPort, hclash.localAddr, hclash.peerAddr, hclash.peerPort]
      simp [Option.isSome_iff_ne_none, hno.2]

theorem Apart.update {id : Nat} {change : Ipv4EndPoint → Ipv4EndPoint}
    (hid : ∀ endP, (change endP).id = endP.id) (hpeer : ∀ endP ∈ demux.endPoints, endP.id = id →
    WholePeer (change endP).peerAddr (change endP).peerPort)
    (hclear : ∀ endP ∈ demux.endPoints, ∀ other ∈ demux.endPoints, endP.id = id → other.id ≠ id →
    ¬ Clash other endP → ¬ Clash other (change endP)) : Apart (demux.update id change) := by
  have hmap : ∀ endP : Ipv4EndPoint, (if endP.id = id then change endP else endP).id = endP.id := by
    intro endP
    split
    · exact hid endP
    · rfl
  refine ⟨fun endP hendP => ?_, ?_, ?_, fun endP hendP => ?_⟩
  · obtain ⟨before, hpre, rfl⟩ := mem_map.mp hendP
    rw [hmap]
    exact hapart.fresh before hpre
  · refine pairwise_map.mpr (hapart.ids.imp fun hne => ?_)
    rwa [hmap, hmap]
  · refine pairwise_map.mpr ((hapart.ids.and hapart.clash).imp_of_mem ?_)
    rintro endP other hendP hother ⟨hne, hnot⟩
    by_cases hfst : endP.id = id
    · have hsnd : other.id ≠ id := fun heq => hne (hfst.trans heq.symm)
      rw [if_pos hfst, if_neg hsnd]
      exact fun hclash => hclear endP hendP other hother hfst hsnd (fun h => hnot h.symm)
        hclash.symm
    · rw [if_neg hfst]
      split
      next hsnd => exact hclear other hother endP hendP hsnd hfst hnot
      · exact hnot
  · obtain ⟨before, hpre, rfl⟩ := mem_map.mp hendP
    split
    next heq => exact hpeer before hpre heq
    · exact hapart.peers before hpre

theorem Apart.deAllocate (id : Nat) : Apart (demux.deAllocate id) := by
  have hsublist : (demux.deAllocate id).endPoints.Sublist demux.endPoints := eraseP_sublist
  exact ⟨fun endP hendP => hapart.fresh endP (hsublist.subset hendP), hapart.ids.sublist hsublist,
    hapart.clash.sublist hsublist, fun endP hendP => hapart.peers endP (hsublist.subset hendP)⟩

theorem Apart.call {input : DemuxCall}
    (hkeeps : demux.keepsApart input = true) : Apart (demux.call input) := by
  cases input with
  | allocate device => exact hapart.ephemeral rfl
  | allocateAddress device address => exact hapart.ephemeral rfl
  | allocatePort device port =>
    refine hapart.local fun hall => ?_
    subst hall
    simpa [keepsApart] using hkeeps
  | allocateLocal device address port =>
    refine hapart.local fun hall => ?_
    subst hall
    simpa [keepsApart] using hkeeps
  | allocatePeer device localAddress localPort peerAddress peerPort =>
    refine hapart.peer ?_
    simp only [keepsApart, Bool.or_eq_true, Bool.and_eq_true, decide_eq_true_eq,
      Bool.not_eq_true'] at hkeeps
    refine hkeeps.imp id fun hboth => ⟨hboth.1, fun hall => hboth.2.resolve_left ?_⟩
    rw [hall]
    exact Bool.false_ne_true
  | deAllocate id => exact hapart.deAllocate id
  | setPeer id address port =>
    simp only [keepsApart, Bool.and_eq_true, decide_eq_true_eq, all_eq_true,
      Bool.or_eq_true] at hkeeps
    refine hapart.update (fun _ => rfl) (fun _ _ _ => hkeeps.1) ?_
    intro endP hendP other hother heq hne _ hclash
    have hclear := ((hkeeps.2 endP hendP).resolve_left (by simp [heq]) other hother).resolve_left
      (by simp [hne])
    obtain ⟨hport, haddr, hpeerAddr, hpeerPort, hdevice⟩ := hclash
    have hdevices : (other.boundNetDevice == endP.boundNetDevice ||
        other.boundNetDevice.isNone || endP.boundNetDevice.isNone) = true := by
      simpa [or_assoc] using hdevice
    rw [hport, haddr, hpeerAddr, hpeerPort, hdevices] at hclear
    simp at hclear
  | setRxEnabled id enabled =>
    refine hapart.update (fun _ => rfl) (fun endP hendP _ => hapart.peers endP hendP) ?_
    exact fun endP _ other _ _ _ hnot hclash =>
      hnot ⟨hclash.localPort, hclash.localAddr, hclash.peerAddr, hclash.peerPort, hclash.device⟩

end

theorem apart_of_reachable
    (hdemux : machine.ReachableUnder
      (fun demux input => demux.offered input = true ∧ demux.keepsApart input = true) demux) :
    Apart demux := by
  refine Machine.ReachableUnder.invariant ?_ ?_ hdemux
  · exact ⟨fun _ hmem => absurd hmem not_mem_nil, .nil, .nil,
      fun _ hmem => absurd hmem not_mem_nil⟩
  · intro before input after hpre hinp hstep
    rw [← Except.ok.inj hstep]
    exact hpre.call hinp.2

/-- While allocations and later peers keep the endpoints apart, a packet is served exactly if those
that match it as wildcards do not tie. -/
theorem serves_iff_oneWildCard
    (hdemux : machine.ReachableUnder
      (fun demux input => demux.offered input = true ∧ demux.keepsApart input = true) demux)
    (packet : Packet) :
    (∃ result, Serves demux packet result) ↔ OneWildCard demux packet :=
  (apart_of_reachable hdemux).serves_iff packet

def samplePacket : Packet :=
  ⟨0x0a010102, 7, 0x0a010101, 80, ⟨some 0, [⟨0x0a010102, 0xffffff00⟩]⟩⟩

/-- An endpoint for all peers and one for the packet's own: the latter is served. -/
theorem serves_iff_oneWildCard_sample :
    let demux := machine.after (fun demux input => demux.offered input && demux.keepsApart input)
      [.allocatePort none 7, .allocatePeer none 0x0a010102 7 0x0a010101 80] machine.init
    demux.endPoints.length = 2 ∧
      ∃ result, Serves demux samplePacket result ∧ result.map Ipv4EndPoint.peerPort = [80] := by
  intro demux
  have hreach : machine.ReachableUnder
      (fun demux input => demux.offered input = true ∧ demux.keepsApart input = true) demux :=
    .after (fun _ _ hboth => by simpa using hboth) _ .init
  have hone : OneWildCard demux samplePacket := by
    unfold OneWildCard
    decide +kernel
  have hfound : (demux.lookup samplePacket).map (List.map Ipv4EndPoint.peerPort) = some [80] := by
    decide +kernel
  obtain ⟨result, hserves⟩ := (serves_iff_oneWildCard hreach samplePacket).mpr hone
  rw [hserves.returns] at hfound
  exact ⟨by decide +kernel, result, hserves, Option.some.inj hfound⟩

/-- An endpoint of a device, then one for all devices: `LookupLocal` asks for the same device and
for none, so both are allocated and the lookup aborts. -/
theorem lookup_ambiguous :
    ¬ ∀ demux,
      machine.ReachableUnder (fun demux input => demux.offered input = true) demux →
        ∀ packet, ∃ result, Serves demux packet result := by
  intro hall
  obtain ⟨result, hserves⟩ := hall (machine.after (fun demux input => demux.offered input)
    [.allocatePort (some 0) 7, .allocatePort none 7] machine.init)
    (.after (fun _ _ hoffered => hoffered) _ .init) samplePacket
  have haborts : lookup (machine.after (fun demux input => demux.offered input)
      [.allocatePort (some 0) 7, .allocatePort none 7] machine.init) samplePacket = none := by
    decide +kernel
  rw [hserves.returns] at haborts
  cases haborts

end Ipv4EndPointDemux

end HomaSird.Internet
