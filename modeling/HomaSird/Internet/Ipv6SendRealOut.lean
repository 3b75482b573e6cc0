import HomaSird.Data.UnorderedMap
import HomaSird.Internet.Ipv6FragmentSizes

/-! # Sending IPv6 packets within the path MTU

`SendRealOut` adds the size of the IPv6 header to the MTU where it belongs to the packet. Packets
that are up to that much too long or so are sent as they are.
-/

namespace HomaSird.Internet

open Ipv6Header Transition Ipv6ExtensionFragment

/-- `Ipv6Interface`, with the MTU of its device. -/
structure Ipv6Interface where
  addresses : List Ipv6Address
  isUp : Bool
  mtu : UInt16
deriving DecidableEq

/-- What `SendRealOut` reads: the interfaces, the stored path MTUs, and whether ICMPv6 is
installed. -/
structure Ipv6L3Protocol where
  interfaces : List Ipv6Interface
  pmtuCache : UnorderedMap Ipv6Address UInt32
  icmpv6 : Bool

structure Ipv6Route (protocol : Ipv6L3Protocol) where
  outputDevice : Fin protocol.interfaces.length
  gateway : Ipv6Address

/-- What `SendRealOut` does, in order. A packet that is sent was traced just before. -/
inductive SendRealOutEvent where
  | send (fragment : Ipv6Fragment) (dest : Ipv6Address)
  | sendErrorTooBig (malformedPacket : Ipv6Fragment) (dst : Ipv6Address) (mtu : UInt16)
  | drop (packet : Ipv6Fragment)
deriving DecidableEq

namespace Ipv6L3Protocol

def getAny : Ipv6Address := List.replicate 16 0

/-- `GetPmtu`; zero stands for none. -/
def getPmtu (protocol : Ipv6L3Protocol) (dst : Ipv6Address) : Nat :=
  match protocol.pmtuCache.lookup dst with
  | some pmtu => pmtu.toNat
  | none => 0

section Route

variable (protocol : Ipv6L3Protocol) (route : Ipv6Route protocol)

def outInterface : Ipv6Interface := protocol.interfaces[route.outputDevice]

def targetMtu (ipHeader : Ipv6Header) : Nat :=
  if protocol.getPmtu ipHeader.destinationAddress = 0 then (protocol.outInterface route).mtu.toNat
  else protocol.getPmtu ipHeader.destinationAddress

def fromMe (ipHeader : Ipv6Header) : Bool :=
  protocol.interfaces.any fun interface => interface.addresses.any (· == ipHeader.sourceAddress)

def output (fragments : List Ipv6Fragment) (packet : List UInt8) (ipHeader : Ipv6Header) :
    List SendRealOutEvent :=
  let dest := if route.gateway ≠ getAny then route.gateway else ipHeader.destinationAddress
  if (protocol.outInterface route).isUp then
    if fragments.length ≠ 0 then fragments.map fun fragment => .send fragment dest
    else [.send ⟨packet, ipHeader⟩ dest]
  else [.drop ⟨packet, ipHeader⟩]

/-- `SendRealOut` with a route. -/
def sendRoute (fuel : Nat) (identification : UInt32) (packet : List UInt8) (ipHeader : Ipv6Header) :
    Except Ipv6Fault (List SendRealOutEvent) :=
  if packet.length > protocol.targetMtu route ipHeader + 40 then
    if !protocol.fromMe ipHeader then
      .ok (if protocol.icmpv6 then [.sendErrorTooBig ⟨packet, ipHeader⟩ ipHeader.sourceAddress
        (protocol.outInterface route).mtu] else [])
    else do
      let fragments ← getFragments fuel identification packet ipHeader
        (protocol.targetMtu route ipHeader)
      return protocol.output route fragments packet ipHeader
  else .ok (protocol.output route [] packet ipHeader)

end Route

/-- `Ipv6L3Protocol::SendRealOut` -/
def sendRealOut (protocol : Ipv6L3Protocol) (fuel : Nat) (identification : UInt32)
    (route : Option (Ipv6Route protocol)) (packet : List UInt8) (ipHeader : Ipv6Header) :
    Except Ipv6Fault (List SendRealOutEvent) :=
  match route with
  | none => .ok []
  | some route => protocol.sendRoute route fuel identification packet ipHeader

/-! ## The path MTU -/

/-- What was handed to `Ipv6Interface::Send`. -/
def sentOf (events : List SendRealOutEvent) : List Ipv6Fragment :=
  events.filterMap fun
    | .send fragment _ => some fragment
    | _ => none

def tooBigsOf (events : List SendRealOutEvent) : List Ipv6Fragment :=
  events.filterMap fun
    | .sendErrorTooBig malformedPacket _ _ => some malformedPacket
    | _ => none

section Mtu

variable (protocol : Ipv6L3Protocol) (identification : UInt32) (route : Ipv6Route protocol)
  (packet : List UInt8) (ipHeader : Ipv6Header)

structure KeepsPathMtu : Prop where
  fits : ∀ fuel events, protocol.sendRealOut fuel identification (some route) packet ipHeader =
    .ok events → ∀ sent ∈ sentOf events,
      sent.packet.length + Ipv6Header.getSerializedSize ≤ protocol.targetMtu route ipHeader
  sends : protocol.fromMe ipHeader = true → (protocol.outInterface route).isUp = true →
    ∃ fuel events,
      protocol.sendRealOut fuel identification (some route) packet ipHeader = .ok events
  answers : protocol.fromMe ipHeader = false →
    protocol.targetMtu route ipHeader < packet.length + Ipv6Header.getSerializedSize →
      ∃ fuel events, protocol.sendRealOut fuel identification (some route) packet ipHeader =
        .ok events ∧ sentOf events = [] ∧ (tooBigsOf events).length = 1

/-- It fits; or nothing is sent; or it is more than two IPv6 headers too long, and can be answered
or cut well. -/
def WithinMtu : Prop :=
  packet.length + 40 ≤ protocol.targetMtu route ipHeader ∨
  (protocol.fromMe ipHeader = true ∧ (protocol.outInterface route).isUp = false) ∨
  (protocol.targetMtu route ipHeader + 40 < packet.length ∧
    ((protocol.fromMe ipHeader = false ∧ protocol.icmpv6 = true) ∨
      (protocol.fromMe ipHeader = true ∧
        Cuts (protocol.targetMtu route ipHeader) ipHeader.nextHeader packet)))

structure LeastMtu : Prop where
  link : ∀ interface ∈ protocol.interfaces, 1280 ≤ interface.mtu.toNat
  stored : ∀ dst pmtu, protocol.pmtuCache.lookup dst = some pmtu → 1280 ≤ pmtu.toNat

end Mtu

section Sizes

variable {protocol : Ipv6L3Protocol} {identification : UInt32} {route : Ipv6Route protocol}
  {packet : List UInt8} {ipHeader : Ipv6Header} {fragments : List Ipv6Fragment}

theorem targetMtu_bounds (hleast : LeastMtu protocol) :
    1280 ≤ protocol.targetMtu route ipHeader ∧ protocol.targetMtu route ipHeader < 2 ^ 32 := by
  rw [targetMtu, getPmtu]
  cases hstored : protocol.pmtuCache.lookup ipHeader.destinationAddress with
  | none =>
    have hlink := hleast.link _ (List.get_mem protocol.interfaces route.outputDevice)
    have hword := (protocol.outInterface route).mtu.toNat_lt
    exact ⟨hlink, lt_trans hword (by decide)⟩
  | some pmtu =>
    have hpmtu := hleast.stored _ _ hstored
    dsimp only
    rw [if_neg (by omega)]
    exact ⟨hpmtu, pmtu.toNat_lt⟩

theorem sentOf_sends (fragments : List Ipv6Fragment) (dest : Ipv6Address) :
    sentOf (fragments.map fun fragment => .send fragment dest) = fragments := by
  rw [sentOf, List.filterMap_map]
  exact List.filterMap_some

theorem sentOf_output_up (hup : (protocol.outInterface route).isUp = true) :
    sentOf (protocol.output route fragments packet ipHeader) =
      if fragments.length ≠ 0 then fragments else [⟨packet, ipHeader⟩] := by
  rw [output, if_pos hup]
  split
  · exact sentOf_sends _ _
  · rfl

theorem sentOf_output_down (hdown : (protocol.outInterface route).isUp = false) :
    sentOf (protocol.output route fragments packet ipHeader) = [] := by
  rw [output, if_neg (by rw [hdown]; exact Bool.false_ne_true)]
  rfl

theorem length_pos_of_getFragments {fuel limit : Nat}
    (hok : getFragments fuel identification packet ipHeader limit = .ok fragments) :
    fragments.length ≠ 0 := by
  obtain ⟨part, -, hloop⟩ := bind_eq_ok.mp hok
  cases fuel with
  | zero => cases hloop
  | succ fuel =>
    rw [fragmentLoop] at hloop
    dsimp only at hloop
    split at hloop
    · obtain ⟨piece, -, hrest⟩ := bind_eq_ok.mp hloop
      obtain ⟨later, -, hdone⟩ := bind_eq_ok.mp hrest
      cases hdone
      exact Nat.succ_ne_zero _
    · obtain ⟨piece, -, hdone⟩ := bind_eq_ok.mp hloop
      cases hdone
      exact Nat.succ_ne_zero _

theorem sendRealOut_short (hshort : packet.length ≤ protocol.targetMtu route ipHeader + 40)
    (fuel : Nat) :
    protocol.sendRealOut fuel identification (some route) packet ipHeader =
      .ok (protocol.output route [] packet ipHeader) :=
  if_neg (not_lt.mpr hshort)

theorem sendRealOut_forwarded (hlong : protocol.targetMtu route ipHeader + 40 < packet.length)
    (hforeign : protocol.fromMe ipHeader = false) (fuel : Nat) :
    protocol.sendRealOut fuel identification (some route) packet ipHeader =
      .ok (if protocol.icmpv6 then
          [.sendErrorTooBig ⟨packet, ipHeader⟩ ipHeader.sourceAddress
            (protocol.outInterface route).mtu]
        else []) := by
  rw [sendRealOut, sendRoute, if_pos hlong, hforeign]
  rfl

theorem sendRealOut_cut (hlong : protocol.targetMtu route ipHeader + 40 < packet.length)
    (hown : protocol.fromMe ipHeader = true) (fuel : Nat) :
    protocol.sendRealOut fuel identification (some route) packet ipHeader = do
      let fragments ← getFragments fuel identification packet ipHeader
        (protocol.targetMtu route ipHeader)
      return protocol.output route fragments packet ipHeader := by
  rw [sendRealOut, sendRoute, if_pos hlong, hown]
  rfl

theorem keepsPathMtu_fits (hfits : packet.length + 40 ≤ protocol.targetMtu route ipHeader) :
    KeepsPathMtu protocol identification route packet ipHeader := by
  have houtput := @sendRealOut_short protocol identification route packet ipHeader (by omega)
  refine ⟨?_, fun _ _ => ⟨0, _, houtput 0⟩, fun _ hlong => absurd hlong (not_lt.mpr hfits)⟩
  intro fuel events hok sent hmem
  rw [houtput] at hok
  cases hok
  cases hup : (protocol.outInterface route).isUp with
  | true =>
    rw [sentOf_output_up hup, if_neg (not_not.mpr List.length_nil)] at hmem
    obtain rfl := List.mem_singleton.mp hmem
    exact hfits
  | false =>
    rw [sentOf_output_down hup] at hmem
    cases hmem

theorem keepsPathMtu_down (hown : protocol.fromMe ipHeader = true)
    (hdown : (protocol.outInterface route).isUp = false) :
    KeepsPathMtu protocol identification route packet ipHeader := by
  refine ⟨?_, fun _ hup => ?_, fun hforeign => ?_⟩
  · intro fuel events hok sent hmem
    by_cases hlong : protocol.targetMtu route ipHeader + 40 < packet.length
    · rw [sendRealOut_cut hlong hown] at hok
      obtain ⟨fragments, -, hdone⟩ := bind_eq_ok.mp hok
      cases hdone
      rw [sentOf_output_down hdown] at hmem
      cases hmem
    · rw [sendRealOut_short (not_lt.mp hlong)] at hok
      cases hok
      rw [sentOf_output_down hdown] at hmem
      cases hmem
  · rw [hdown] at hup
    cases hup
  · rw [hown] at hforeign
    cases hforeign

theorem keepsPathMtu_answered (hlong : protocol.targetMtu route ipHeader + 40 < packet.length)
    (hforeign : protocol.fromMe ipHeader = false) :
    KeepsPathMtu protocol identification route packet ipHeader ↔ protocol.icmpv6 = true := by
  have hall := @sendRealOut_forwarded protocol identification route packet ipHeader hlong hforeign
  constructor
  · intro hkeeps
    obtain ⟨fuel, events, hok, -, hone⟩ := hkeeps.answers hforeign (by
      rw [Ipv6Header.getSerializedSize]
      omega)
    rw [hall] at hok
    cases hok
    by_contra hmiss
    rw [if_neg hmiss] at hone
    cases hone
  · intro hicmpv6
    rw [if_pos hicmpv6] at hall
    refine ⟨?_, fun hown => ?_, fun _ _ => ⟨0, _, hall 0, rfl, rfl⟩⟩
    · intro fuel events hok sent hmem
      rw [hall] at hok
      cases hok
      cases hmem
    · rw [hforeign] at hown
      cases hown

theorem keepsPathMtu_cut (hleast : LeastMtu protocol) (hlen : packet.length < 2 ^ 32)
    (hlong : protocol.targetMtu route ipHeader + 40 < packet.length)
    (hown : protocol.fromMe ipHeader = true) (hup : (protocol.outInterface route).isUp = true) :
    KeepsPathMtu protocol identification route packet ipHeader ↔
      Cuts (protocol.targetMtu route ipHeader) ipHeader.nextHeader packet := by
  obtain ⟨hmin, hword⟩ := @targetMtu_bounds protocol route ipHeader hleast
  have hall := @sendRealOut_cut protocol identification route packet ipHeader hlong hown
  constructor
  · intro hkeeps
    obtain ⟨fuel, events, hok⟩ := hkeeps.sends hown hup
    have hfits := hkeeps.fits fuel events hok
    rw [hall] at hok
    obtain ⟨fragments, hfrags, hdone⟩ := bind_eq_ok.mp hok
    cases hdone
    rw [sentOf_output_up hup, if_pos (length_pos_of_getFragments hfrags)] at hfits
    exact cuts_of_fit hlen hmin hword hlong hfrags hfits
  · intro hcuts
    obtain ⟨⟨fuel, fragments, hfrags⟩, hfit⟩ :=
      @fit_of_cuts identification packet ipHeader _ hlen hmin hword hcuts
    refine ⟨?_, fun _ _ => ⟨fuel, protocol.output route fragments packet ipHeader, ?_⟩,
      fun hforeign => ?_⟩
    · intro fuel events hok sent hmem
      rw [hall] at hok
      obtain ⟨others, hothers, hdone⟩ := bind_eq_ok.mp hok
      cases hdone
      rw [sentOf_output_up hup, if_pos (length_pos_of_getFragments hothers)] at hmem
      exact hfit fuel others hothers sent hmem
    · rw [hall]
      exact bind_eq_ok.mpr ⟨fragments, hfrags, rfl⟩
    · rw [hown] at hforeign
      cases hforeign

theorem not_keepsPathMtu (hover : protocol.targetMtu route ipHeader < packet.length + 40)
    (hshort : packet.length ≤ protocol.targetMtu route ipHeader + 40)
    (hactive : protocol.fromMe ipHeader = false ∨ (protocol.outInterface route).isUp = true) :
    ¬ KeepsPathMtu protocol identification route packet ipHeader := by
  intro hkeeps
  have houtput := @sendRealOut_short protocol identification route packet ipHeader hshort
  cases hup : (protocol.outInterface route).isUp with
  | true =>
    have hfit := hkeeps.fits 0 _ (houtput 0) ⟨packet, ipHeader⟩ (by
      rw [sentOf_output_up hup]
      exact List.mem_singleton_self _)
    rw [Ipv6Header.getSerializedSize] at hfit
    dsimp only at hfit
    omega
  | false =>
    -- it is dropped without an answer
    have hforeign := hactive.resolve_right (by rw [hup]; exact Bool.false_ne_true)
    obtain ⟨fuel, events, hok, -, hone⟩ := hkeeps.answers hforeign hover
    rw [houtput] at hok
    cases hok
    rw [output, if_neg (by rw [hup]; exact Bool.false_ne_true)] at hone
    cases hone

/-- `SendRealOut` keeps to the path MTU just when the packet fits, nothing is sent, or it is more
than two IPv6 headers too long and can be answered or cut well. -/
theorem keepsPathMtu_iff (hleast : LeastMtu protocol) (hlen : packet.length < 2 ^ 32) :
    KeepsPathMtu protocol identification route packet ipHeader ↔
    WithinMtu protocol route packet ipHeader := by
  rw [WithinMtu]
  by_cases hfits : packet.length + 40 ≤ protocol.targetMtu route ipHeader
  · exact iff_of_true (keepsPathMtu_fits hfits) (.inl hfits)
  · rw [or_iff_right hfits]
    by_cases hlong : protocol.targetMtu route ipHeader + 40 < packet.length
    · cases hown : protocol.fromMe ipHeader with
      | false =>
        rw [keepsPathMtu_answered hlong hown]
        simp [hlong]
      | true =>
        cases hup : (protocol.outInterface route).isUp with
        | true =>
          rw [keepsPathMtu_cut hleast hlen hlong hown hup]
          simp [hlong]
        | false => exact iff_of_true (keepsPathMtu_down hown hup) (.inl ⟨rfl, rfl⟩)
    · cases hown : protocol.fromMe ipHeader with
      | false =>
        refine iff_of_false
          (not_keepsPathMtu (Nat.lt_of_not_le hfits) (Nat.not_lt.mp hlong) (.inl hown)) ?_
        simp [hlong]
      | true =>
        cases hup : (protocol.outInterface route).isUp with
        | true =>
          refine iff_of_false
            (not_keepsPathMtu (Nat.lt_of_not_le hfits) (Nat.not_lt.mp hlong) (.inr hup)) ?_
          simp [hlong]
        | false => exact iff_of_true (keepsPathMtu_down hown hup) (.inl ⟨rfl, rfl⟩)

end Sizes

/-! ## Two packets -/

def leastNode : Ipv6L3Protocol := ⟨[⟨[List.replicate 16 1], true, 1280⟩], ∅, true⟩

def leastRoute : Ipv6Route leastNode := ⟨⟨0, Nat.one_pos⟩, getAny⟩

def ownHeader : Ipv6Header := ⟨List.replicate 16 1, List.replicate 16 2, 64, 17, 0⟩

theorem leastMtu_leastNode : LeastMtu leastNode := by
  constructor
  · intro interface hmem
    obtain rfl := List.mem_singleton.mp hmem
    decide
  · intro dst pmtu hstored
    cases hstored

theorem keepsPathMtu_iff_cut :
    WithinMtu leastNode leastRoute (List.replicate 1400 0) ownHeader ∧
      KeepsPathMtu leastNode 0 leastRoute (List.replicate 1400 0) ownHeader := by
  have htarget : leastNode.targetMtu leastRoute ownHeader = 1280 := rfl
  have hlen : (List.replicate 1400 (0 : UInt8)).length = 1400 := List.length_replicate
  have hwithin : WithinMtu leastNode leastRoute (List.replicate 1400 0) ownHeader := by
    refine .inr (.inr ⟨by rw [htarget, hlen]; decide, .inr ⟨rfl, ?_⟩⟩)
    rw [htarget]
    refine ⟨[], _, .nil rfl, Nat.zero_le _, by decide, ?_⟩
    rw [hlen]
    exact loopEnds_of_short (by decide) (by decide) (by decide) (Nat.zero_le _)
  exact ⟨hwithin, (keepsPathMtu_iff leastMtu_leastNode (by rw [hlen]; decide)).mpr hwithin⟩

/-- A packet of 1300 bytes leaves as it is, 60 bytes longer than the MTU. -/
theorem sends_more_than_mtu :
    LeastMtu leastNode ∧ leastNode.targetMtu leastRoute ownHeader = 1280 ∧
      leastNode.sendRealOut 0 0 (some leastRoute) (List.replicate 1300 0) ownHeader =
        .ok [.send ⟨List.replicate 1300 0, ownHeader⟩ ownHeader.destinationAddress] ∧
      ¬ KeepsPathMtu leastNode 0 leastRoute (List.replicate 1300 0) ownHeader := by
  have htarget : leastNode.targetMtu leastRoute ownHeader = 1280 := rfl
  have hlen : (List.replicate 1300 (0 : UInt8)).length = 1300 := List.length_replicate
  have hshort : (List.replicate 1300 (0 : UInt8)).length ≤
      leastNode.targetMtu leastRoute ownHeader + 40 := by
    rw [htarget, hlen]
    decide
  refine ⟨leastMtu_leastNode, htarget, ?_, not_keepsPathMtu ?_ hshort (.inr rfl)⟩
  · rw [sendRealOut_short hshort]
    rfl
  · rw [htarget, hlen]
    decide

end Ipv6L3Protocol

end HomaSird.Internet
