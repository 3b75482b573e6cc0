import HomaSird.Internet.Ipv6ExtensionChain

/-! # Extension chains are walked when they are short and routing headers read their own

Positions are 8-bit numbers, and a routing header reads its fields from the start of the
packet. The walk goes from header to header, and then delivers what follows them, just when
neither matters.
-/

namespace HomaSird.Internet

open Ipv6Header Transition ExtensionHeader List

/-- The calls of `Process`. -/
def visitsOf (events : List Ipv6Event) : List (UInt8 × Nat) :=
  events.filterMap fun
    | .visit nextHeader pos => some (nextHeader, pos.toNat)
    | _ => none

def deliveriesOf (events : List Ipv6Event) : List (UInt8 × List UInt8) :=
  events.filterMap fun
    | .receive protocol _ packet => some (protocol, packet)
    | _ => none

def places : Nat → List ExtensionHeader → List (UInt8 × Nat)
  | _, [] => []
  | pos, extension :: rest =>
    (extension.number, pos) :: places (pos + extension.size) rest

def WalksChain (node : Ipv6Node) (header : Ipv6Header) (chain : List ExtensionHeader)
    (upper : UInt8) (payload : List UInt8) : Prop :=
  ∃ fuel events, localDeliver node fuel (encodeChain chain upper ++ payload) header = .ok events ∧
    visitsOf events = places 0 chain ∧ deliveriesOf events = [(upper, payload)]

/-- The first four bytes of a packet say of a routing header what its own say. -/
def ReadsAs (packet : List UInt8) (nextHeader : UInt8) (size : Nat) : Prop :=
  packet[0]? = some nextHeader ∧ (packet[2]? = some TYPE_ROUTING ∨
    (packet[3]? = some 0 ∧ packet[1]? = some (UInt8.ofNat size)))

def RoutingAgrees (packet : List UInt8) : List ExtensionHeader → UInt8 → Prop
  | [], _ => True
  | extension :: rest, upper =>
    (extension.number = IPV6_EXT_ROUTING →
      ReadsAs packet (firstHeader rest upper) extension.size) ∧ RoutingAgrees packet rest upper

/-- Positions fit, and routing headers behind the first header read what is their own. -/
structure Fits (chain : List ExtensionHeader) (upper : UInt8) : Prop where
  short : (encodeChain chain upper).length < 256
  routing : RoutingAgrees (encodeChain chain upper) chain.tail upper

structure Upper (node : Ipv6Node) (upper : UInt8) : Prop where
  installed : node.getProtocol upper = true
  extension : upper ≠ IPV6_EXT_HOP_BY_HOP ∧ upper ≠ IPV6_EXT_DESTINATION ∧
    upper ≠ IPV6_EXT_FRAGMENTATION ∧ upper ≠ IPV6_EXT_ROUTING

section Walk

variable {node : Ipv6Node} {header : Ipv6Header} {packet front payload : List UInt8}
  {pos upper : UInt8} {extension : ExtensionHeader} {rest : List ExtensionHeader}

theorem number_cases (extension : ExtensionHeader) :
    extension.number = IPV6_EXT_HOP_BY_HOP ∨ extension.number = IPV6_EXT_DESTINATION ∨
      extension.number = IPV6_EXT_ROUTING := by
  cases extension with
  | hopByHop => exact .inl rfl
  | destination => exact .inr (.inl rfl)
  | routing => exact .inr (.inr rfl)

theorem processExtension_upper (hupper : Upper node upper) (fuel : Nat) (packet : List UInt8)
    (pos : UInt8) (header : Ipv6Header) (flags : Ipv6Flags) :
    processExtension node fuel packet pos header upper flags = none := by
  obtain ⟨-, hhop, hdest, hfragmentation, hroute⟩ := hupper
  rw [processExtension, if_neg hhop, if_neg hdest, if_neg hfragmentation, if_neg hroute]

theorem size_pos (extension : ExtensionHeader) : 0 < extension.size := by
  cases extension with
  | hopByHop => exact Nat.add_pos_left Nat.two_pos _
  | destination => exact Nat.add_pos_left Nat.two_pos _
  | routing => exact Nat.add_pos_left (Nat.add_pos_left (by decide) _) _

theorem exists_start {bytes : List UInt8} (hlong : 4 ≤ bytes.length) :
    ∃ next length type left after, bytes = next :: length :: type :: left :: after := by
  match bytes, hlong with
  | next :: length :: type :: left :: after, _ => exact ⟨next, length, type, left, after, rfl⟩

variable {next : UInt8} {flags : Ipv6Flags} {result : UInt8 × Ipv6Flags × List Ipv6Event}
  {nextHeader : UInt8} {processed : Processed}

theorem four_le_length {reserved addresses : List UInt8}
    (hpkt : packet = front ++ ((routing reserved addresses).encode next ++ payload)) :
    4 ≤ packet.length := by
  rw [hpkt, length_append, length_append, encode_length, size]
  omega

theorem processExtension_eq (hwellFormed : extension.WellFormed)
    (hpkt : packet = front ++ (extension.encode next ++ payload)) (hpos : front.length = pos.toNat)
    (hfits : front.length + extension.size < 256)
    (hroute : extension.number = IPV6_EXT_ROUTING → front = [] ∨ ReadsAs packet next extension.size)
    {fuel : Nat} (hfuel : extension.size ≤ fuel) :
    processExtension node fuel packet pos header extension.number {} =
      some (.ok ⟨UInt8.ofNat extension.size, next, packet, {}, []⟩) := by
  cases extension with
  | hopByHop options =>
    exact congrArg some (processOptionsHeader_eq hwellFormed hpkt hpos hfits
      (Nat.lt_of_lt_of_le (by rw [size]; omega) hfuel))
  | destination options =>
    exact congrArg some (processOptionsHeader_eq hwellFormed hpkt hpos hfits
      (Nat.lt_of_lt_of_le (by rw [size]; omega) hfuel))
  | routing reserved addresses =>
    refine congrArg some ?_
    obtain ⟨first, length, type, left, after, hstart⟩ := exists_start (four_le_length hpkt)
    have hproc := @processRouting_eq packet front payload reserved addresses pos next
      header node hwellFormed hpkt hpos first length type left after hstart
    change processRouting node packet pos header {} = _
    rw [hproc]
    rcases hroute rfl with hfront | ⟨hfst, hkind⟩
    · -- the header is at the start of the packet
      subst hfront
      obtain ⟨rfl, rfl, rfl, rfl, -⟩ : first = next ∧
          length = UInt8.ofNat (addresses.length / 8) ∧ type = 0 ∧ left = 0 ∧ True := by
        rw [hstart] at hpkt
        simp only [encode, nil_append, cons_append, cons.injEq] at hpkt
        exact ⟨hpkt.1, hpkt.2.1, hpkt.2.2.1, hpkt.2.2.2.1, trivial⟩
      rfl
    · rw [hstart] at hfst hkind
      obtain rfl : first = next := Option.some.inj hfst
      rcases hkind with htype | ⟨hleft, hlength⟩
      · rw [if_pos (Option.some.inj htype)]
      · obtain rfl : left = 0 := Option.some.inj hleft
        obtain rfl : length = _ := Option.some.inj hlength
        rw [if_pos rfl, ite_self]

theorem visitsOf_unreachable (header : Ipv6Header) (status : RxStatus) :
    visitsOf (unreachable header status) = [] ∧ deliveriesOf (unreachable header status) = [] := by
  cases status with
  | endpointUnreach =>
    rw [unreachable]
    split
    · exact ⟨rfl, rfl⟩
    · exact ⟨rfl, rfl⟩
  | ok => exact ⟨rfl, rfl⟩
  | csumFailed => exact ⟨rfl, rfl⟩
  | endpointClosed => exact ⟨rfl, rfl⟩

theorem deliverUp_events (hinstalled : node.getProtocol upper = true) :
    visitsOf (deliverUp node packet header pos upper) = [] ∧
      deliveriesOf (deliverUp node packet header pos upper) = [(upper, packet.drop pos.toNat)] := by
  obtain ⟨hvisits, hdeliv⟩ :=
    visitsOf_unreachable header (node.receive upper (packet.drop pos.toNat))
  rw [deliverUp, if_pos hinstalled]
  exact ⟨hvisits, congrArg ((upper, packet.drop pos.toNat) :: ·) hdeliv⟩

theorem walk_step {fuel : Nat} {events : List Ipv6Event}
    (hproc : processExtension node fuel packet pos header extension.number {} =
      some (.ok ⟨UInt8.ofNat extension.size, next, packet, {}, []⟩))
    (hfits : pos.toNat + extension.size < 256) :
    walk node header (fuel + 1) packet pos extension.number {} = .ok events ↔
      ∃ later,
        events = .visit extension.number pos :: later ∧
          walk node header fuel packet (pos + UInt8.ofNat extension.size) next {} = .ok later := by
  have hsz := size_pos extension
  have hnonzero : UInt8.ofNat extension.size ≠ 0 := by
    intro hzero
    have htoNat := congrArg UInt8.toNat hzero
    rw [ofNat_toNat (by omega)] at htoNat
    exact absurd htoNat (Nat.pos_iff_ne_zero.mp hsz)
  rw [walk, hproc]
  simp only [bind, Except.bind, hnonzero, false_and, if_false, Bool.false_eq_true]
  cases walk node header fuel packet (pos + UInt8.ofNat extension.size) next {} with
  | error fault => simp
  | ok later =>
    simp only [pure, Except.pure, Except.ok.injEq, nil_append, append_nil, cons_append]
    constructor
    · rintro rfl
      exact ⟨later, rfl, rfl⟩
    · rintro ⟨_, rfl, rfl⟩
      rfl

theorem toNat_add_size (hfits : pos.toNat + extension.size < 256) :
    (pos + UInt8.ofNat extension.size).toNat = pos.toNat + extension.size := by
  have hsz := ofNat_toNat (show extension.size < 256 by omega)
  rw [toNat_add (by rw [hsz]; exact hfits), hsz]

theorem walk_eq (hupper : Upper node upper) (hwellFormed : ∀ other ∈ rest, other.WellFormed)
    (hpkt : packet = front ++ (encodeChain rest upper ++ payload)) (hpos :
    front.length = pos.toNat) (hfits : front.length + (encodeChain rest upper).length < 256)
    (hroute : (front = [] ∧ RoutingAgrees packet rest.tail upper) ∨
    RoutingAgrees packet rest upper) {fuel : Nat} (hfuel : (encodeChain rest upper).length < fuel) :
    ∃ events, walk node header fuel packet pos (firstHeader rest upper) {} = .ok events ∧
    visitsOf events = places front.length rest ∧ deliveriesOf events = [(upper, payload)] := by
  induction rest generalizing front pos fuel with
  | nil =>
    cases fuel with
    | zero => exact absurd hfuel (Nat.not_lt_zero _)
    | succ fuel =>
      obtain ⟨hvisits, hdeliv⟩ :=
        @deliverUp_events node header packet pos upper hupper.installed
      refine ⟨deliverUp node packet header pos upper, ?_, hvisits, ?_⟩
      · rw [firstHeader, walk, processExtension_upper hupper]
      · rw [hdeliv, hpkt, ← hpos, drop_left]
        rfl
  | cons extension rest ih =>
    cases fuel with
    | zero => exact absurd hfuel (Nat.not_lt_zero _)
    | succ fuel =>
      rw [encodeChain, append_assoc] at hpkt
      rw [encodeChain, length_append, encode_length] at hfits hfuel
      -- a routing header is read at the start of the packet: it is there, or reads the same
      have hown : extension.number = IPV6_EXT_ROUTING →
          front = [] ∨ ReadsAs packet (firstHeader rest upper) extension.size := by
        intro hnumber
        rcases hroute with ⟨hfront, -⟩ | hagrees
        · exact .inl hfront
        · exact .inr (hagrees.1 hnumber)
      have hlaterAgrees : RoutingAgrees packet rest upper := by
        rcases hroute with ⟨-, htail⟩ | hagrees
        · exact htail
        · exact hagrees.2
      have hplace : pos.toNat + extension.size < 256 := by
        omega
      have hproc := @processExtension_eq node header packet front
        (encodeChain rest upper ++ payload) pos extension (firstHeader rest upper)
        (hwellFormed extension mem_cons_self) hpkt hpos (by omega) hown fuel
        (by omega)
      have hsz := size_pos extension
      obtain ⟨later, hwalk, hvisits, hdeliv⟩ := @ih
        (front ++ extension.encode (firstHeader rest upper))
        (pos + UInt8.ofNat extension.size)
        (fun other hmem => hwellFormed other (.tail _ hmem))
        (by rw [hpkt, append_assoc])
        (by rw [length_append, encode_length, toNat_add_size hplace, hpos])
        (by rw [length_append, encode_length]; omega) (.inr hlaterAgrees) fuel (by omega)
      refine ⟨.visit extension.number pos :: later,
        (walk_step hproc hplace).mpr ⟨later, rfl, hwalk⟩, ?_, hdeliv⟩
      change (extension.number, pos.toNat) :: visitsOf later = _
      rw [hvisits, length_append, encode_length, places, hpos]

/-! ## More fuel -/

theorem processOptions_succ {offset length : UInt8} {fuel : Nat} {processedSize : UInt8}
    (hok : processOptions packet offset length header fuel processedSize flags = .ok result) :
    processOptions packet offset length header (fuel + 1) processedSize flags = .ok result := by
  induction fuel generalizing processedSize flags result with
  | zero => cases hok
  | succ fuel ih =>
    rw [processOptions] at hok ⊢
    split at hok
    next hmore =>
      rw [if_pos hmore]
      obtain ⟨first, hfst, hrest⟩ := bind_eq_ok.mp hok
      obtain ⟨later, hlater, hdone⟩ := bind_eq_ok.mp hrest
      exact bind_eq_ok.mpr ⟨first, hfst, bind_eq_ok.mpr ⟨later, ih hlater, hdone⟩⟩
    next hdone =>
      rw [if_neg hdone]
      exact hok

theorem processExtension_succ {fuel : Nat}
    (hok : processExtension node fuel packet pos header nextHeader flags = some (.ok processed)) :
    processExtension node (fuel + 1) packet pos header nextHeader flags = some (.ok processed) := by
  have hopts : processOptionsHeader fuel packet pos header flags = .ok processed →
      processOptionsHeader (fuel + 1) packet pos header flags = .ok processed := by
    intro hheader
    obtain ⟨next, hnext, hrest⟩ := bind_eq_ok.mp hheader
    obtain ⟨length, hlength, hrest⟩ := bind_eq_ok.mp hrest
    obtain ⟨bytes, hbytes, hrest⟩ := bind_eq_ok.mp hrest
    obtain ⟨options, hopts, hdone⟩ := bind_eq_ok.mp hrest
    exact bind_eq_ok.mpr ⟨next, hnext, bind_eq_ok.mpr ⟨length, hlength, bind_eq_ok.mpr
      ⟨bytes, hbytes, bind_eq_ok.mpr ⟨options, processOptions_succ hopts, hdone⟩⟩⟩⟩
  rw [processExtension] at hok ⊢
  split at hok
  next hhop =>
    rw [if_pos hhop]
    exact congrArg some (hopts (Option.some.inj hok))
  next hhop =>
    rw [if_neg hhop]
    split at hok
    next hdest =>
      rw [if_pos hdest]
      exact congrArg some (hopts (Option.some.inj hok))
    next hdest =>
      rw [if_neg hdest]
      exact hok

theorem processExtension_none {fuel other : Nat}
    (hnone : processExtension node fuel packet pos header nextHeader flags = none) :
    processExtension node other packet pos header nextHeader flags = none := by
  rw [processExtension] at hnone ⊢
  split_ifs at hnone ⊢
  rfl

theorem walk_cases {fuel : Nat} {events : List Ipv6Event}
    (hwalk : walk node header (fuel + 1) packet pos nextHeader flags = .ok events) :
    (processExtension node fuel packet pos header nextHeader flags = none ∧
      events = deliverUp node packet header pos nextHeader) ∨
      ∃ processed dropped,
        processExtension node fuel packet pos header nextHeader flags = some (.ok processed) ∧
          (visitsOf dropped = [] ∧ deliveriesOf dropped = []) ∧
          ((processed.flags.stopProcessing = true ∧
            events = .visit nextHeader pos :: processed.events ++ dropped) ∨
            (processed.flags.stopProcessing = false ∧
              ∃ later,
                events = .visit nextHeader pos :: processed.events ++ dropped ++ later ∧
                  walk node header fuel processed.packet (pos + processed.step) processed.nextHeader
                    processed.flags = .ok later)) := by
  rw [walk] at hwalk
  cases hproc : processExtension node fuel packet pos header nextHeader flags with
  | none =>
    rw [hproc] at hwalk
    exact .inl ⟨rfl, (Except.ok.inj hwalk).symm⟩
  | some result =>
    rw [hproc] at hwalk
    obtain ⟨processed, rfl, hrest⟩ := bind_eq_ok.mp hwalk
    refine .inr ⟨processed, if processed.flags.isDropped then
      [Ipv6Event.drop processed.flags.dropReason] else [], rfl, ?_, ?_⟩
    · split
      · exact ⟨rfl, rfl⟩
      · exact ⟨rfl, rfl⟩
    · dsimp only at hrest
      split at hrest
      next hstop => exact .inl ⟨hstop, (Except.ok.inj hrest).symm⟩
      next hgo =>
        split at hrest
        · cases hrest
        · obtain ⟨later, hlater, hdone⟩ := bind_eq_ok.mp hrest
          exact .inr ⟨Bool.eq_false_iff.mpr hgo, later, (Except.ok.inj hdone).symm, hlater⟩

section

variable {fuel : Nat} {nextHeader : UInt8} {flags : Ipv6Flags} {events : List Ipv6Event} (hwalk :
  walk node header fuel packet pos nextHeader flags = .ok events)
include hwalk

theorem walk_succ : walk node header (fuel + 1) packet pos nextHeader flags = .ok events := by
  induction fuel generalizing packet pos nextHeader flags events with
  | zero => cases hwalk
  | succ fuel ih =>
    rw [walk] at hwalk ⊢
    cases hproc : processExtension node fuel packet pos header nextHeader flags with
    | none =>
      rw [hproc] at hwalk
      rw [processExtension_none hproc]
      exact hwalk
    | some result =>
      rw [hproc] at hwalk
      obtain ⟨processed, rfl, hrest⟩ := bind_eq_ok.mp hwalk
      rw [processExtension_succ hproc]
      refine bind_eq_ok.mpr ⟨processed, rfl, ?_⟩
      dsimp only at hrest ⊢
      split at hrest
      next hstop =>
        rw [if_pos hstop]
        exact hrest
      next hgo =>
        rw [if_neg hgo]
        split at hrest
        · cases hrest
        next hstep =>
          rw [if_neg hstep]
          obtain ⟨later, hlater, hdone⟩ := bind_eq_ok.mp hrest
          exact bind_eq_ok.mpr ⟨later, ih hlater, hdone⟩

theorem walk_mono (more : Nat) :
    walk node header (fuel + more) packet pos nextHeader flags = .ok events := by
  induction more with
  | zero => exact hwalk
  | succ more ih => exact walk_succ ih

end

/-! ## Walks that visit the headers of a chain -/

def Silent (events : List Ipv6Event) : Prop := visitsOf events = [] ∧ deliveriesOf events = []

theorem visitsOf_append (first second : List Ipv6Event) :
    visitsOf (first ++ second) = visitsOf first ++ visitsOf second := filterMap_append

theorem deliveriesOf_append (first second : List Ipv6Event) :
    deliveriesOf (first ++ second) = deliveriesOf first ++ deliveriesOf second :=
  filterMap_append

theorem Silent.append {first second : List Ipv6Event} (hfst : Silent first)
    (hsnd : Silent second) : Silent (first ++ second) :=
  ⟨by rw [visitsOf_append, hfst.1, hsnd.1, append_nil],
    by rw [deliveriesOf_append, hfst.2, hsnd.2, append_nil]⟩

theorem silent_unknownOption {data : List UInt8} {processedSize optionType : UInt8} {ptr : Nat}
    (hok : unknownOption data processedSize header ptr optionType flags = .ok result) :
    Silent result.2.2 := by
  rw [unknownOption] at hok
  split_ifs at hok
  · obtain ⟨length, -, hdone⟩ := bind_eq_ok.mp hok
    cases hdone
    exact ⟨rfl, rfl⟩
  · cases hok
    exact ⟨rfl, rfl⟩
  · cases hok
    exact ⟨rfl, rfl⟩
  · cases hok
    exact ⟨rfl, rfl⟩
  · cases hok
    exact ⟨rfl, rfl⟩

theorem silent_processOption {offset processedSize : UInt8} (hok :
    processOption packet offset header processedSize flags = .ok result) : Silent result.2.2 := by
  obtain ⟨optionType, -, hrest⟩ := bind_eq_ok.mp hok
  split at hrest
  · obtain ⟨length, -, hdone⟩ := bind_eq_ok.mp hrest
    cases hdone
    exact ⟨rfl, rfl⟩
  · exact silent_unknownOption hrest

theorem silent_processOptions {offset length : UInt8} {fuel : Nat} {processedSize : UInt8}
    (hok : processOptions packet offset length header fuel processedSize flags = .ok result) :
    Silent result.2.2 := by
  induction fuel generalizing processedSize flags result with
  | zero => cases hok
  | succ fuel ih =>
    rw [processOptions] at hok
    split at hok
    · obtain ⟨first, hfst, hrest⟩ := bind_eq_ok.mp hok
      obtain ⟨later, hlater, hdone⟩ := bind_eq_ok.mp hrest
      cases hdone
      exact (silent_processOption hfst).append (ih hlater)
    · cases hok
      exact ⟨rfl, rfl⟩

theorem silent_processOptionsHeader {fuel : Nat}
    (hok : processOptionsHeader fuel packet pos header flags = .ok processed) :
    processed.packet = packet ∧ Silent processed.events := by
  obtain ⟨next, -, hrest⟩ := bind_eq_ok.mp hok
  obtain ⟨length, -, hrest⟩ := bind_eq_ok.mp hrest
  obtain ⟨bytes, -, hrest⟩ := bind_eq_ok.mp hrest
  obtain ⟨options, hopts, hdone⟩ := bind_eq_ok.mp hrest
  cases hdone
  exact ⟨rfl, silent_processOptions hopts⟩

theorem walk_start {fuel place : Nat} {events : List Ipv6Event}
    (hwalk : walk node header fuel packet pos nextHeader flags = .ok events)
    (hvisits : visitsOf events = places place rest)
    (hdeliv : deliveriesOf events = [(upper, payload)]) :
    nextHeader = firstHeader rest upper ∧ (rest ≠ [] → pos.toNat = place) ∧
      (rest = [] → packet.drop pos.toNat = payload) := by
  cases fuel with
  | zero => cases hwalk
  | succ fuel =>
    rcases walk_cases hwalk with ⟨-, rfl⟩ | ⟨processed, dropped, -, -, hevs⟩
    · rw [deliverUp] at hvisits hdeliv
      split at hdeliv
      next hinstalled =>
        obtain ⟨hunvisited, hundelivered⟩ := visitsOf_unreachable header
          (node.receive nextHeader (packet.drop pos.toNat))
        rw [if_pos hinstalled] at hvisits
        change visitsOf (unreachable _ _) = _ at hvisits
        change (nextHeader, packet.drop pos.toNat) :: deliveriesOf (unreachable _ _) = _
          at hdeliv
        rw [hunvisited] at hvisits
        rw [hundelivered] at hdeliv
        obtain ⟨rfl, hload⟩ := Prod.mk.inj (cons.inj hdeliv).1
        cases rest with
        | nil => exact ⟨rfl, fun hsome => absurd rfl hsome, fun _ => hload⟩
        | cons extension rest => cases hvisits
      · cases hdeliv
    · have hfst : ∃ later, visitsOf events = (nextHeader, pos.toNat) :: later := by
        rcases hevs with ⟨-, rfl⟩ | ⟨-, later, rfl, -⟩
        · exact ⟨_, rfl⟩
        · exact ⟨_, rfl⟩
      obtain ⟨later, hlater⟩ := hfst
      rw [hlater] at hvisits
      cases rest with
      | nil => cases hvisits
      | cons extension rest =>
        obtain ⟨rfl, hplace⟩ := Prod.mk.inj (cons.inj hvisits).1
        exact ⟨rfl, fun _ => hplace, fun hnone => nomatch hnone⟩

theorem next_place {fuel size : Nat} {nextHeader next : UInt8} {later : List Ipv6Event}
    (hlength :
      packet.length = front.length + size + (encodeChain rest upper).length + payload.length)
    (hwalk : walk node header fuel packet next nextHeader flags = .ok later)
    (hvisits : visitsOf later = places (front.length + size) rest)
    (hdeliv : deliveriesOf later = [(upper, payload)]) :
    nextHeader = firstHeader rest upper ∧ front.length + size < 256 ∧
      (rest ≠ [] → next.toNat = front.length + size) := by
  obtain ⟨hfst, hplace, hload⟩ := walk_start hwalk hvisits hdeliv
  have hsmall := next.toNat_lt
  refine ⟨hfst, ?_, hplace⟩
  cases rest with
  | nil =>
    -- what is delivered ends where the packet ends
    have hend := congrArg length (hload rfl)
    rw [length_drop, hlength] at hend
    simp only [encodeChain, length_nil, Nat.add_zero] at hend
    omega
  | cons extension rest =>
    rw [← hplace (by simp)]
    exact hsmall

theorem silent_processExtension {fuel : Nat} (hwellFormed : extension.WellFormed)
    (hpkt : packet = front ++ (extension.encode next ++ payload)) (hpos : front.length = pos.toNat)
    (hok :
      processExtension node fuel packet pos header extension.number {} = some (.ok processed)) :
    processed.packet = packet ∧ Silent processed.events := by
  cases extension with
  | hopByHop options => exact silent_processOptionsHeader (Option.some.inj hok)
  | destination options => exact silent_processOptionsHeader (Option.some.inj hok)
  | routing reserved addresses =>
    obtain ⟨first, length, type, left, after, hstart⟩ := exists_start (four_le_length hpkt)
    have hproc : processRouting node packet pos header {} = .ok processed :=
      Option.some.inj hok
    rw [processRouting_eq hwellFormed hpkt hpos hstart] at hproc
    split_ifs at hproc
    · cases hproc
      exact ⟨rfl, rfl, rfl⟩
    · cases hproc
      exact ⟨rfl, rfl, rfl⟩
    · cases hproc
      exact ⟨rfl, rfl, rfl⟩

section

variable {fuel : Nat} {events : List Ipv6Event} (hwellFormed : extension.WellFormed)
  (hpkt : packet =
    front ++ (extension.encode (firstHeader rest upper) ++ (encodeChain rest upper ++ payload)))
  (hpos : front.length = pos.toNat)
include hwellFormed hpkt hpos

theorem walk_rest (hwalk : walk node header (fuel + 1) packet pos extension.number {} = .ok events)
    (hvisits : visitsOf events = places front.length (extension :: rest))
    (hdeliv : deliveriesOf events = [(upper, payload)]) :
    ∃ processed,
      processExtension node fuel packet pos header extension.number {} = some (.ok processed) ∧
        processed.flags.stopProcessing = false ∧ processed.nextHeader = firstHeader rest upper ∧
        front.length + extension.size < 256 ∧
        (rest ≠ [] → (pos + processed.step).toNat = front.length + extension.size) ∧
        ∃ later,
          walk node header fuel packet (pos + processed.step) processed.nextHeader processed.flags =
            .ok later ∧
            visitsOf later = places (front.length + extension.size) rest ∧
            deliveriesOf later = [(upper, payload)] := by
  have hlength : packet.length =
      front.length + extension.size + (encodeChain rest upper).length + payload.length := by
    rw [hpkt, length_append, length_append, length_append, encode_length]
    omega
  rcases walk_cases hwalk with ⟨hnone, -⟩ | ⟨processed, dropped, hproc, hdrop, hevs⟩
  · rw [processExtension] at hnone
    rcases number_cases extension with hnumber | hnumber | hnumber <;>
      rw [hnumber] at hnone <;> cases hnone
  · obtain ⟨hsame, hsilent⟩ := silent_processExtension hwellFormed hpkt hpos hproc
    have hquiet := hsilent.append hdrop
    rcases hevs with ⟨-, rfl⟩ | ⟨hgo, later, rfl, hlater⟩
    · -- nothing is delivered
      change deliveriesOf (processed.events ++ dropped) = _ at hdeliv
      rw [hquiet.2] at hdeliv
      cases hdeliv
    · change (extension.number, pos.toNat) ::
        visitsOf (processed.events ++ dropped ++ later) = _ at hvisits
      change deliveriesOf (processed.events ++ dropped ++ later) = _ at hdeliv
      rw [visitsOf_append, hquiet.1, nil_append] at hvisits
      rw [deliveriesOf_append, hquiet.2, nil_append] at hdeliv
      rw [hsame] at hlater
      have hrest := (cons.inj hvisits).2
      obtain ⟨hnext, hfits, hplace⟩ := next_place hlength hlater hrest hdeliv
      exact ⟨processed, hproc, hgo, hnext, hfits, hplace, later, hlater, hrest, hdeliv⟩

theorem readsAs_of_walk (hbehind : packet[0]? ≠ some upper)
    (hwalk : walk node header (fuel + 1) packet pos extension.number {} = .ok events)
    (hvisits : visitsOf events = places front.length (extension :: rest)) (hdeliv :
    deliveriesOf events = [(upper, payload)]) (hnumber : extension.number = IPV6_EXT_ROUTING) :
    ReadsAs packet (firstHeader rest upper) extension.size := by
  obtain ⟨processed, hproc, hgo, hnext, hfits, hplace, -⟩ :=
    walk_rest hwellFormed hpkt hpos hwalk hvisits hdeliv
  cases extension with
  | hopByHop options => cases hnumber
  | destination options => cases hnumber
  | routing reserved addresses =>
    obtain ⟨first, length, type, left, after, hstart⟩ := exists_start (four_le_length hpkt)
    have hroute : processRouting node packet pos header {} = .ok processed :=
      Option.some.inj hproc
    rw [processRouting_eq hwellFormed hpkt hpos hstart] at hroute
    split_ifs at hroute
    next htype =>
      cases hroute
      obtain rfl : first = firstHeader rest upper := hnext
      exact ⟨by rw [hstart]; rfl, .inl (by rw [hstart, ← htype]; rfl)⟩
    next hleft =>
      cases hroute
      obtain rfl : first = firstHeader rest upper := hnext
      refine ⟨by rw [hstart]; rfl, .inr ⟨by rw [hstart, ← hleft]; rfl, ?_⟩⟩
      cases rest with
      | nil => exact absurd (by rw [hstart]; rfl) hbehind
      | cons other rest =>
        -- the next header was found at its place
        have hmoved : pos + length =
            pos + UInt8.ofNat (routing reserved addresses).size := by
          apply UInt8.toNat_inj.mp
          rw [hplace (by simp), toNat_add_size (by rw [← hpos]; exact hfits), hpos]
        rw [hstart, ← (UInt8.add_right_inj pos).mp hmoved]
        rfl
    · cases hroute
      cases hgo

end

theorem agrees_of_walk (hupper : Upper node upper) (hwellFormed : ∀ other ∈ rest, other.WellFormed)
    (hpkt : packet = front ++ (encodeChain rest upper ++ payload)) (hpos : front.length = pos.toNat)
    (hbehind : front ≠ [] → rest ≠ [] → packet[0]? ≠ some upper) {fuel : Nat}
    {events : List Ipv6Event}
    (hwalk : walk node header fuel packet pos (firstHeader rest upper) {} = .ok events)
    (hvisits : visitsOf events = places front.length rest)
    (hdeliv : deliveriesOf events = [(upper, payload)]) :
    front.length + (encodeChain rest upper).length < 256 ∧
      (front ≠ [] → RoutingAgrees packet rest upper) ∧ RoutingAgrees packet rest.tail upper := by
  induction rest generalizing front pos fuel events with
  | nil =>
    have hsmall := pos.toNat_lt
    exact ⟨by rw [hpos]; exact hsmall, fun _ => trivial, trivial⟩
  | cons extension rest ih =>
    have hown := hwellFormed extension mem_cons_self
    rw [encodeChain, append_assoc] at hpkt
    -- with enough fuel the first header is processed as it should be
    have hmore : walk node header (fuel + extension.size + 1) packet pos extension.number
        {} = .ok events := walk_mono hwalk (extension.size + 1)
    obtain ⟨-, -, -, -, hfits, -⟩ := walk_rest hown hpkt hpos hmore hvisits hdeliv
    have hreads : front ≠ [] → extension.number = IPV6_EXT_ROUTING →
        ReadsAs packet (firstHeader rest upper) extension.size :=
      fun hfront => readsAs_of_walk hown hpkt hpos (hbehind hfront (by simp)) hmore
        hvisits hdeliv
    have hproc := @processExtension_eq node header packet front
      (encodeChain rest upper ++ payload) pos extension (firstHeader rest upper) hown
      hpkt hpos hfits
      (fun hnumber => Classical.or_iff_not_imp_left.mpr fun hfront => hreads hfront hnumber)
      (fuel + extension.size) (Nat.le_add_left _ _)
    have hplace : pos.toNat + extension.size < 256 := by
      rw [← hpos]
      exact hfits
    obtain ⟨later, rfl, hlater⟩ := (walk_step hproc hplace).mp hmore
    have hlen : (front ++ extension.encode (firstHeader rest upper)).length =
        front.length + extension.size := by
      rw [length_append, encode_length]
    have hsz := size_pos extension
    have hfst : rest ≠ [] →
        packet[0]? ≠ some upper := by
      intro hrest hupperFirst
      cases front with
      | nil =>
        -- the first byte is the number of the next header
        obtain ⟨other, others, rfl⟩ := exists_cons_of_ne_nil hrest
        have hnumber : packet[0]? = some other.number := by
          rw [hpkt]
          cases extension with
          | hopByHop => rfl
          | destination => rfl
          | routing => rfl
        obtain rfl : other.number = upper := Option.some.inj (hnumber.symm.trans hupperFirst)
        obtain ⟨hhop, hdest, -, hroute⟩ := hupper.extension
        rcases number_cases other with hother | hother | hother
        · exact hhop hother
        · exact hdest hother
        · exact hroute hother
      | cons byte front => exact hbehind (by simp) (by simp) hupperFirst
    obtain ⟨hshort, hagrees, -⟩ := @ih (front ++ extension.encode (firstHeader rest upper))
      (pos + UInt8.ofNat extension.size)
      (fun other hmem => hwellFormed other (.tail _ hmem))
      (by rw [hpkt, append_assoc])
      (by rw [hlen, toNat_add_size hplace, hpos]) (fun _ => hfst) _ later hlater
      (by rw [hlen]; exact (cons.inj hvisits).2) hdeliv
    have hlaterAgrees : RoutingAgrees packet rest upper := by
      apply hagrees
      intro hempty
      rw [hempty, length_nil] at hlen
      omega
    refine ⟨?_, fun hfront => ⟨hreads hfront, hlaterAgrees⟩, hlaterAgrees⟩
    rw [encodeChain, length_append, encode_length]
    rw [hlen] at hshort
    omega

end Walk

/-! ## Local delivery -/

section Deliver

variable {node : Ipv6Node} {header : Ipv6Header} {bytes payload : List UInt8}
  {upper : UInt8} {chain : List ExtensionHeader}

theorem localDeliver_unique {packet : List UInt8} {fuel other : Nat}
    {events others : List Ipv6Event} (hevs : localDeliver node fuel packet header = .ok events)
    (hothers : localDeliver node other packet header = .ok others) : events = others := by
  have hwalks : ∀ nextHeader, walk node header fuel packet 0 nextHeader {} = .ok events →
      walk node header other packet 0 nextHeader {} = .ok others → events = others := by
    intro nextHeader hwalk hother
    have hmore := walk_mono hother fuel
    rw [Nat.add_comm, walk_mono hwalk other] at hmore
    exact Except.ok.inj hmore
  rw [localDeliver] at hevs hothers
  split at hevs
  next hhop =>
    rw [if_pos hhop] at hothers
    obtain ⟨first, hread, hevs⟩ := bind_eq_ok.mp hevs
    obtain ⟨_, hsame, hothers⟩ := bind_eq_ok.mp hothers
    rw [hread] at hsame
    cases hsame
    split at hevs
    next htwice =>
      rw [if_pos htwice] at hothers
      exact Except.ok.inj (hevs.symm.trans hothers)
    next htwice =>
      rw [if_neg htwice] at hothers
      exact hwalks _ hevs hothers
  next hhop =>
    rw [if_neg hhop] at hothers
    exact hwalks _ hevs hothers

theorem firstHeader_ne_hopByHop (hupper : Upper node upper) (hleading : ∀ extension ∈ chain,
    extension.number ≠ IPV6_EXT_HOP_BY_HOP) : firstHeader chain upper ≠ IPV6_EXT_HOP_BY_HOP := by
  cases chain with
  | nil => exact hupper.extension.1
  | cons extension rest => exact hleading extension mem_cons_self

theorem localDeliver_eq_walk (hupper : Upper node upper) (hwellFormed : WellFormedChain chain)
    (hheader : header.nextHeader = firstHeader chain upper) (fuel : Nat) :
    localDeliver node fuel (encodeChain chain upper ++ payload) header = walk node header fuel
        (encodeChain chain upper ++ payload) 0 (firstHeader chain upper) {} := by
  rw [localDeliver, hheader]
  split
  next hhop =>
    cases chain with
    | nil => exact absurd hhop hupper.extension.1
    | cons extension rest =>
      have hnext : readU8 (encodeChain (extension :: rest) upper ++ payload) 0 =
          .ok (firstHeader rest upper) := by
        rw [encodeChain]
        cases extension with
        | hopByHop => rfl
        | destination => rfl
        | routing => rfl
      rw [hnext]
      exact if_neg (firstHeader_ne_hopByHop hupper hwellFormed.leading)
  · rfl

theorem readsAs_append (hlong : 4 ≤ bytes.length) {nextHeader : UInt8} {size : Nat} :
    ReadsAs (bytes ++ payload) nextHeader size ↔ ReadsAs bytes nextHeader size := by
  rw [ReadsAs, ReadsAs, getElem?_append_left (by omega), getElem?_append_left (by omega),
    getElem?_append_left (by omega), getElem?_append_left (by omega)]

theorem routingAgrees_append (hlong : 4 ≤ bytes.length) :
    RoutingAgrees (bytes ++ payload) chain upper ↔ RoutingAgrees bytes chain upper := by
  induction chain with
  | nil => exact Iff.rfl
  | cons extension rest ih => rw [RoutingAgrees, RoutingAgrees, readsAs_append hlong, ih]

theorem four_le_size {extension : ExtensionHeader} (hwellFormed : extension.WellFormed) :
    4 ≤ extension.size := by
  cases extension with
  | hopByHop options =>
    have halign : (2 + (encodeOptions options).length) % 8 = 0 := hwellFormed.2.1
    rw [size]
    omega
  | destination options =>
    have halign : (2 + (encodeOptions options).length) % 8 = 0 := hwellFormed.2.1
    rw [size]
    omega
  | routing reserved addresses =>
    rw [size]
    omega

theorem agrees_append (hwellFormed : WellFormedChain chain) :
    RoutingAgrees (encodeChain chain upper ++ payload) chain.tail upper ↔
      RoutingAgrees (encodeChain chain upper) chain.tail upper := by
  cases chain with
  | nil => exact Iff.rfl
  | cons extension rest =>
    apply routingAgrees_append
    rw [encodeChain, length_append, encode_length]
    exact Nat.le_add_right_of_le
      (four_le_size (hwellFormed.headers extension mem_cons_self))

/-- A chain is walked to its end, and what follows is delivered, just when its positions fit in 8
bits and the packet's first bytes say of every routing header behind the start what its own say. -/
theorem walksChain_iff_fits (hupper : Upper node upper) (hwellFormed : WellFormedChain chain)
    (hheader : header.nextHeader = firstHeader chain upper) :
    WalksChain node header chain upper payload ↔ Fits chain upper := by
  constructor
  · rintro ⟨fuel, events, hdeliver, hvisits, hdeliveries⟩
    rw [localDeliver_eq_walk hupper hwellFormed hheader] at hdeliver
    obtain ⟨hshort, -, hrouting⟩ := @agrees_of_walk node header _ [] payload 0 upper chain hupper
      hwellFormed.headers rfl rfl (fun hempty => absurd rfl hempty) fuel events hdeliver hvisits
      hdeliveries
    rw [List.length_nil, Nat.zero_add] at hshort
    exact ⟨hshort, (agrees_append hwellFormed).mp hrouting⟩
  · rintro ⟨hshort, hrouting⟩
    obtain ⟨events, hwalk, hvisits, hdeliveries⟩ := @walk_eq node header _ [] payload 0 upper chain
      hupper hwellFormed.headers rfl rfl (by rw [List.length_nil, Nat.zero_add]; exact hshort)
      (.inl ⟨rfl, (agrees_append hwellFormed).mpr hrouting⟩) _ (Nat.lt_succ_self _)
    exact ⟨_, events, by rw [localDeliver_eq_walk hupper hwellFormed hheader]; exact hwalk,
      hvisits, hdeliveries⟩

end Deliver

/-! ## Two chains -/

def udpNode : Ipv6Node where
  getProtocol protocol := protocol == 17
  receive _ _ := .ok
  routeOutput _ _ := false
  processFragment packet _ _ nextHeader _ := ⟨0, nextHeader, packet, ⟨true, true, none⟩, []⟩

def udpHeader (nextHeader : UInt8) : Ipv6Header :=
  ⟨List.replicate 16 1, List.replicate 16 2, 64, nextHeader, 19⟩

theorem upper_udpNode : Upper udpNode 17 := ⟨rfl, by decide⟩

def padding : List OptionField := [.typed 1 [0, 0, 0, 0]]

theorem wellFormedOptions_padding : WellFormedOptions padding := by
  refine ⟨?_, rfl, by decide⟩
  intro option hmem
  obtain rfl := mem_singleton.mp hmem
  exact ⟨by decide, by decide, by decide, by decide⟩

def optionsChain : List ExtensionHeader := [.hopByHop padding, .destination padding]

theorem wellFormedChain_options : WellFormedChain optionsChain := by
  constructor
  · intro extension hmem
    rcases mem_cons.mp hmem with rfl | hmem
    · exact wellFormedOptions_padding
    · obtain rfl := mem_singleton.mp hmem
      exact wellFormedOptions_padding
  · intro extension hmem
    obtain rfl := mem_singleton.mp hmem
    decide

theorem walksChain_iff_fits_options :
    Fits optionsChain 17 ∧
      WalksChain udpNode (udpHeader IPV6_EXT_HOP_BY_HOP) optionsChain 17 [1, 2, 3] := by
  have hfits : Fits optionsChain 17 :=
    ⟨by decide, fun hnumber => absurd hnumber (by decide), trivial⟩
  exact ⟨hfits, (walksChain_iff_fits upper_udpNode wellFormedChain_options rfl).mpr hfits⟩

def lateRouting : List ExtensionHeader := [.destination padding, .routing [0, 0, 0, 0] []]

theorem wellFormedChain_lateRouting : WellFormedChain lateRouting := by
  constructor
  · intro extension hmem
    rcases mem_cons.mp hmem with rfl | hmem
    · exact wellFormedOptions_padding
    · obtain rfl := mem_singleton.mp hmem
      exact ⟨rfl, rfl, by decide⟩
  · intro extension hmem
    obtain rfl := mem_singleton.mp hmem
    decide

/-- The option is read as a routing type with segments left, and the packet is dropped. -/
theorem lateRouting_not_delivered :
    Upper udpNode 17 ∧ WellFormedChain lateRouting ∧
      (udpHeader IPV6_EXT_DESTINATION).nextHeader = firstHeader lateRouting 17 ∧
      ∀ fuel events,
        localDeliver udpNode fuel (encodeChain lateRouting 17 ++ [1, 2, 3])
          (udpHeader IPV6_EXT_DESTINATION) = .ok events →
          deliveriesOf events = [] := by
  refine ⟨upper_udpNode, wellFormedChain_lateRouting, rfl, ?_⟩
  intro fuel events hevs
  obtain ⟨dropped, hdropped, hnone⟩ : ∃ dropped, localDeliver udpNode 8
      (encodeChain lateRouting 17 ++ [1, 2, 3]) (udpHeader IPV6_EXT_DESTINATION) = .ok dropped ∧
        deliveriesOf dropped = [] := ⟨_, rfl, rfl⟩
  rw [localDeliver_unique hevs hdropped]
  exact hnone

end HomaSird.Internet
