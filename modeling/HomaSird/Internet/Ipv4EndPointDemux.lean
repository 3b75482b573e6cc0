import HomaSird.Transition.Machine
import HomaSird.Internet.Ipv4Header

/-! # The IPv4 port demultiplexer

`Ipv4EndPointDemux` keeps the endpoints of the sockets, known by their pointers, and finds the one
a packet is for. The runs are the allocations, each followed by the binding to a device, and what
may happen to an endpoint later.
-/

namespace HomaSird.Internet

open Transition

abbrev Port := BitVec 16

abbrev NetDevice := Nat

structure Ipv4InterfaceAddress where
  localAddr : Ipv4Address
  mask : Ipv4Mask
deriving DecidableEq

structure Ipv4Interface where
  device : Option NetDevice
  addresses : List Ipv4InterfaceAddress
deriving DecidableEq

/-! ## Endpoints -/

/-- An endpoint; `id` is its pointer. -/
structure Ipv4EndPoint where
  id : Nat
  localAddr : Ipv4Address
  localPort : Port
  peerAddr : Ipv4Address := Ipv4Address.getAny
  peerPort : Port := 0
  boundNetDevice : Option NetDevice := none
  rxEnabled : Bool := true
deriving DecidableEq

structure Ipv4EndPointDemux where
  ephemeral : Port := 49152
  endPoints : List Ipv4EndPoint := []
  /-- the pointer that the next endpoint gets -/
  nextId : Nat := 0
deriving DecidableEq

namespace Ipv4EndPointDemux

def portFirst : Port := 49152

def portLast : Port := 65535

def lookupPortLocal (demux : Ipv4EndPointDemux) (port : Port) : Bool :=
  demux.endPoints.any fun endP => endP.localPort == port

def lookupLocal (demux : Ipv4EndPointDemux) (boundNetDevice : Option NetDevice)
    (addr : Ipv4Address) (port : Port) : Bool :=
  demux.endPoints.any fun endP =>
    endP.localPort == port && endP.localAddr == addr && endP.boundNetDevice == boundNetDevice

/-- The loop of `AllocateEphemeralPort`, which counts down. -/
def ephemeralLoop (demux : Ipv4EndPointDemux) : Nat → Port → Option Port
  | 0, _ => none
  | count + 1, port =>
    let port := port + 1
    let port := if port < portFirst ∨ portLast < port then portFirst else port
    if demux.lookupPortLocal port then demux.ephemeralLoop count port else some port

def allocateEphemeralPort (demux : Ipv4EndPointDemux) : Option (Port × Ipv4EndPointDemux) :=
  (demux.ephemeralLoop ((portLast - portFirst).toNat + 1) demux.ephemeral).map fun port =>
    (port, { demux with ephemeral := port })

def push (demux : Ipv4EndPointDemux) (endPoint : Nat → Ipv4EndPoint) :
    Nat × Ipv4EndPointDemux :=
  (demux.nextId, { demux with
    endPoints := demux.endPoints ++ [endPoint demux.nextId]
    nextId := demux.nextId + 1 })

/-- `Allocate (address)` -/
def allocateAddress (demux : Ipv4EndPointDemux) (address : Ipv4Address) :
    Option (Nat × Ipv4EndPointDemux) :=
  demux.allocateEphemeralPort.map fun result =>
    result.2.push fun id => { id := id, localAddr := address, localPort := result.1 }

/-- `Allocate ()` -/
def allocate (demux : Ipv4EndPointDemux) : Option (Nat × Ipv4EndPointDemux) :=
  demux.allocateEphemeralPort.map fun result =>
    result.2.push fun id => { id := id, localAddr := Ipv4Address.getAny, localPort := result.1 }

/-- `Allocate (boundNetDevice, address, port)` -/
def allocateLocal (demux : Ipv4EndPointDemux) (boundNetDevice : Option NetDevice)
    (address : Ipv4Address) (port : Port) : Option (Nat × Ipv4EndPointDemux) :=
  if demux.lookupLocal boundNetDevice address port || demux.lookupLocal none address port then none
  else some (demux.push fun id => { id := id, localAddr := address, localPort := port })

/-- `Allocate (boundNetDevice, port)` -/
def allocatePort (demux : Ipv4EndPointDemux) (boundNetDevice : Option NetDevice) (port : Port) :
    Option (Nat × Ipv4EndPointDemux) :=
  demux.allocateLocal boundNetDevice Ipv4Address.getAny port

/-- The test that `Allocate` makes when it is given a peer. -/
def lookupPeer (demux : Ipv4EndPointDemux) (boundNetDevice : Option NetDevice)
    (localAddress : Ipv4Address) (localPort : Port) (peerAddress : Ipv4Address)
    (peerPort : Port) : Bool :=
  demux.endPoints.any fun endP =>
    endP.localPort == localPort && endP.localAddr == localAddress && endP.peerPort == peerPort &&
      endP.peerAddr == peerAddress &&
      (endP.boundNetDevice == boundNetDevice || endP.boundNetDevice == none)

/-- `Allocate (boundNetDevice, localAddress, localPort, peerAddress, peerPort)` -/
def allocatePeer (demux : Ipv4EndPointDemux) (boundNetDevice : Option NetDevice)
    (localAddress : Ipv4Address) (localPort : Port) (peerAddress : Ipv4Address)
    (peerPort : Port) : Option (Nat × Ipv4EndPointDemux) :=
  if demux.lookupPeer boundNetDevice localAddress localPort peerAddress peerPort then none
  else some (demux.push fun id => {
    id := id, localAddr := localAddress, localPort := localPort, peerAddr := peerAddress,
    peerPort := peerPort })

def deAllocate (demux : Ipv4EndPointDemux) (id : Nat) : Ipv4EndPointDemux :=
  { demux with endPoints := demux.endPoints.eraseP fun endP => endP.id == id }

def update (demux : Ipv4EndPointDemux) (id : Nat) (change : Ipv4EndPoint → Ipv4EndPoint) :
    Ipv4EndPointDemux :=
  { demux with
    endPoints := demux.endPoints.map fun endP => if endP.id = id then change endP else endP }

/-! ## Lookup -/

/-- What `Lookup` is told of a packet. -/
structure Packet where
  daddr : Ipv4Address
  dport : Port
  saddr : Ipv4Address
  sport : Port
  incomingInterface : Ipv4Interface
deriving DecidableEq

def localAddressIsSubnetAny (packet : Packet) (endP : Ipv4EndPoint) : Bool :=
  packet.incomingInterface.addresses.any fun addr =>
    let addrNetpart := addr.localAddr.combineMask addr.mask
    endP.localAddr == addrNetpart && addrNetpart == packet.daddr.combineMask addr.mask

def localAddressMatchesExact (packet : Packet) (endP : Ipv4EndPoint) : Bool :=
  endP.localAddr == packet.daddr

def localAddressMatchesWildCard (packet : Packet) (endP : Ipv4EndPoint) : Bool :=
  !localAddressMatchesExact packet endP &&
    (endP.localAddr == Ipv4Address.getAny || localAddressIsSubnetAny packet endP)

def boundElsewhere (packet : Packet) (endP : Ipv4EndPoint) : Bool :=
  endP.boundNetDevice.isSome && endP.boundNetDevice != packet.incomingInterface.device

/-- The four lists that `Lookup` fills. -/
structure Found where
  retval1 : List Ipv4EndPoint := []
  retval2 : List Ipv4EndPoint := []
  retval3 : List Ipv4EndPoint := []
  retval4 : List Ipv4EndPoint := []

/-- One round of the loop of `Lookup`. -/
def lookupRound (packet : Packet) (found : Found) (endP : Ipv4EndPoint) : Found :=
  let localExact := localAddressMatchesExact packet endP
  let localWild := localAddressMatchesWildCard packet endP
  let remotePortMatchesExact := endP.peerPort == packet.sport
  let remotePortMatchesWildCard := endP.peerPort == 0
  let remoteAddressMatchesExact := endP.peerAddr == packet.saddr
  let remoteAddressMatchesWildCard := endP.peerAddr == Ipv4Address.getAny
  if !endP.rxEnabled then found
  else if endP.localPort != packet.dport then found
  else if boundElsewhere packet endP then found
  else if !localExact && !localWild then found
  else if !(remotePortMatchesExact || remotePortMatchesWildCard) then found
  else if !(remoteAddressMatchesExact || remoteAddressMatchesWildCard) then found
  else
    let found := if localExact && remoteAddressMatchesExact && remotePortMatchesExact then
      { found with retval4 := found.retval4 ++ [endP] } else found
    let found := if localWild && remoteAddressMatchesExact && remotePortMatchesExact then
      { found with retval3 := found.retval3 ++ [endP] } else found
    let found := if localExact && remoteAddressMatchesWildCard && remotePortMatchesWildCard then
      { found with retval2 := found.retval2 ++ [endP] } else found
    if localWild && remoteAddressMatchesWildCard && remotePortMatchesWildCard then
      { found with retval1 := found.retval1 ++ [endP] } else found

def Found.best (found : Found) : List Ipv4EndPoint :=
  if !found.retval4.isEmpty then found.retval4
  else if !found.retval3.isEmpty then found.retval3
  else if !found.retval2.isEmpty then found.retval2
  else found.retval1

/-- No result where the code aborts with "Too many endpoints". -/
def lookup (demux : Ipv4EndPointDemux) (packet : Packet) : Option (List Ipv4EndPoint) :=
  let retval := (demux.endPoints.foldl (lookupRound packet) {}).best
  if retval.length > 1 then none else some retval

/-- What `SimpleLookup` is told of a packet. -/
structure FourTuple where
  daddr : Ipv4Address
  dport : Port
  saddr : Ipv4Address
  sport : Port
deriving DecidableEq

/-- The loop of `SimpleLookup` over the endpoints that are left. -/
def simpleLookupLoop (tuple : FourTuple) :
    List Ipv4EndPoint → Nat → Option Ipv4EndPoint → Option Ipv4EndPoint
  | [], _, generic => generic
  | i :: rest, genericity, generic =>
    if i.localPort ≠ tuple.dport then simpleLookupLoop tuple rest genericity generic
    else if i.localAddr = tuple.daddr ∧ i.peerPort = tuple.sport ∧ i.peerAddr = tuple.saddr then
      some i
    else
      let tmp := 0
      let tmp := if i.localAddr = Ipv4Address.getAny then tmp + 1 else tmp
      let tmp := if i.peerAddr = Ipv4Address.getAny then tmp + 1 else tmp
      if tmp < genericity then simpleLookupLoop tuple rest tmp (some i)
      else simpleLookupLoop tuple rest genericity generic

def simpleLookup (demux : Ipv4EndPointDemux) (tuple : FourTuple) : Option Ipv4EndPoint :=
  simpleLookupLoop tuple demux.endPoints 3 none

/-! ## Runs -/

inductive DemuxCall where
  | allocate (device : Option NetDevice)
  | allocateAddress (device : Option NetDevice) (address : Ipv4Address)
  | allocatePort (device : Option NetDevice) (port : Port)
  | allocateLocal (device : Option NetDevice) (address : Ipv4Address) (port : Port)
  | allocatePeer (device : Option NetDevice) (localAddress : Ipv4Address) (localPort : Port)
      (peerAddress : Ipv4Address) (peerPort : Port)
  | deAllocate (id : Nat)
  | setPeer (id : Nat) (address : Ipv4Address) (port : Port)
  | setRxEnabled (id : Nat) (enabled : Bool)
deriving DecidableEq

def bindAllocated (demux : Ipv4EndPointDemux) (device : Option NetDevice)
    (result : Option (Nat × Ipv4EndPointDemux)) : Ipv4EndPointDemux :=
  match result with
  | none => demux
  | some (id, next) => next.update id fun endP => { endP with boundNetDevice := device }

def call (demux : Ipv4EndPointDemux) : DemuxCall → Ipv4EndPointDemux
  | .allocate device => demux.bindAllocated device demux.allocate
  | .allocateAddress device address => demux.bindAllocated device (demux.allocateAddress address)
  | .allocatePort device port => demux.bindAllocated device (demux.allocatePort device port)
  | .allocateLocal device address port =>
    demux.bindAllocated device (demux.allocateLocal device address port)
  | .allocatePeer device localAddress localPort peerAddress peerPort =>
    demux.bindAllocated device
      (demux.allocatePeer device localAddress localPort peerAddress peerPort)
  | .deAllocate id => demux.deAllocate id
  | .setPeer id address port =>
    demux.update id fun endP => { endP with peerAddr := address, peerPort := port }
  | .setRxEnabled id enabled => demux.update id fun endP => { endP with rxEnabled := enabled }

def machine : Machine Ipv4EndPointDemux DemuxCall Empty where
  init := {}
  step demux input := .ok (demux.call input)

def offered (demux : Ipv4EndPointDemux) : DemuxCall → Bool
  | .setPeer id _ _ => demux.endPoints.any fun endP =>
    endP.id == id && endP.peerAddr == Ipv4Address.getAny && endP.peerPort == 0
  | _ => true

/-! ## Ephemeral ports -/

def cyclicAfter (port : Port) (steps : Nat) : Port :=
  BitVec.ofNat 16 (49152 + (port.toNat - 49152 + steps) % 16384)

def InUse (demux : Ipv4EndPointDemux) (port : Port) : Prop :=
  ∃ endP ∈ demux.endPoints, endP.localPort = port

def FirstFree (demux : Ipv4EndPointDemux) (start : Port) (count : Nat) (port : Port) : Prop :=
  ∃ step < count, port = cyclicAfter start (step + 1) ∧ ¬ demux.InUse port ∧
    ∀ earlier < step, demux.InUse (cyclicAfter start (earlier + 1))

/-- `m_ephemeral` after one allocation among each of the given sets of endpoints. -/
def ephemeralAfter (history : List (List Ipv4EndPoint)) : Port :=
  history.foldl (fun ephemeral endPoints =>
    match allocateEphemeralPort { ephemeral := ephemeral, endPoints := endPoints } with
    | some (_, next) => next.ephemeral
    | none => ephemeral) ({} : Ipv4EndPointDemux).ephemeral

section

variable {demux : Ipv4EndPointDemux} {port : Port}

theorem lookupPortLocal_iff : demux.lookupPortLocal port = true ↔ demux.InUse port := by
  simp [lookupPortLocal, InUse]

theorem toNat_cyclicAfter (port : Port) (steps : Nat) :
    (cyclicAfter port steps).toNat = 49152 + (port.toNat - 49152 + steps) % 16384 := by
  rw [cyclicAfter, BitVec.toNat_ofNat]
  omega

theorem cyclicAfter_one (hport : 49152 ≤ port.toNat) :
    (if port + 1 < portFirst ∨ portLast < port + 1 then portFirst else port + 1) =
      cyclicAfter port 1 := by
  have hsum : (port + 1).toNat = (port.toNat + 1) % 2 ^ 16 := BitVec.toNat_add port 1
  apply BitVec.eq_of_toNat_eq
  rw [toNat_cyclicAfter]
  split
  next hout =>
    simp only [BitVec.lt_def, hsum, portFirst, portLast, BitVec.reduceToNat] at hout ⊢
    omega
  next hin =>
    simp only [BitVec.lt_def, hsum, portFirst, portLast, BitVec.reduceToNat] at hin ⊢
    omega

theorem cyclicAfter_cyclicAfter (port : Port)
    (steps : Nat) : cyclicAfter (cyclicAfter port 1) steps = cyclicAfter port (steps + 1) := by
  apply BitVec.eq_of_toNat_eq
  rw [toNat_cyclicAfter, toNat_cyclicAfter, toNat_cyclicAfter]
  omega

theorem exists_cyclicAfter (start : Port)
    (hport : 49152 ≤ port.toNat) : ∃ step < 16384, port = cyclicAfter start (step + 1) := by
  refine ⟨(port.toNat + 16383 - 49152 + (16384 - (start.toNat - 49152) % 16384)) % 16384,
    Nat.mod_lt _ (by decide), BitVec.eq_of_toNat_eq ?_⟩
  rw [toNat_cyclicAfter]
  omega

theorem ephemeralLoop_succ (count : Nat) (hport : 49152 ≤ port.toNat) :
    demux.ephemeralLoop (count + 1) port =
      if demux.lookupPortLocal (cyclicAfter port 1) then
        demux.ephemeralLoop count (cyclicAfter port 1)
      else some (cyclicAfter port 1) := by
  rw [← cyclicAfter_one hport]
  rfl

theorem le_cyclicAfter (port : Port) (steps : Nat) : 49152 ≤ (cyclicAfter port steps).toNat := by
  rw [toNat_cyclicAfter]
  exact Nat.le_add_right _ _

theorem ephemeralLoop_eq_some_iff {count : Nat} {result : Port} (hport : 49152 ≤ port.toNat) :
    demux.ephemeralLoop count port = some result ↔ demux.FirstFree port count result := by
  induction count generalizing port with
  | zero => exact iff_of_false nofun fun ⟨_, hless, _⟩ => absurd hless (Nat.not_lt_zero _)
  | succ count ih =>
    rw [ephemeralLoop_succ count hport]
    by_cases hused : demux.InUse (cyclicAfter port 1)
    · rw [if_pos (lookupPortLocal_iff.mpr hused), ih (le_cyclicAfter port 1), FirstFree, FirstFree]
      simp only [cyclicAfter_cyclicAfter]
      constructor
      · rintro ⟨step, hless, hres, hfree, hearly⟩
        refine ⟨step + 1, Nat.succ_lt_succ hless, hres, hfree, fun earlier hpre => ?_⟩
        cases earlier with
        | zero => exact hused
        | succ earlier => exact hearly earlier (Nat.lt_of_succ_lt_succ hpre)
      · rintro ⟨step, hless, hres, hfree, hearly⟩
        cases step with
        | zero =>
          rw [hres] at hfree
          exact absurd hused hfree
        | succ step =>
          exact ⟨step, Nat.lt_of_succ_lt_succ hless, hres, hfree,
            fun earlier hpre => hearly _ (Nat.succ_lt_succ hpre)⟩
    · rw [if_neg (mt lookupPortLocal_iff.mp hused)]
      constructor
      · intro hres
        obtain rfl := Option.some.inj hres
        exact ⟨0, Nat.succ_pos _, rfl, hused, fun _ hpre => absurd hpre (Nat.not_lt_zero _)⟩
      · rintro ⟨step, -, hres, -, hearly⟩
        cases step with
        | zero => rw [hres]
        | succ step => exact absurd (hearly 0 (Nat.succ_pos _)) hused

theorem ephemeralLoop_eq_none_iff {count : Nat} (hport : 49152 ≤ port.toNat) :
    demux.ephemeralLoop count port = none ↔
      ∀ step < count, demux.InUse (cyclicAfter port (step + 1)) := by
  induction count generalizing port with
  | zero => exact iff_of_true rfl fun _ hless => absurd hless (Nat.not_lt_zero _)
  | succ count ih =>
    rw [ephemeralLoop_succ count hport, Nat.forall_lt_succ_left]
    by_cases hused : demux.InUse (cyclicAfter port 1)
    · rw [if_pos (lookupPortLocal_iff.mpr hused), ih (le_cyclicAfter port 1)]
      simp only [cyclicAfter_cyclicAfter]
      exact (and_iff_right hused).symm
    · rw [if_neg (mt lookupPortLocal_iff.mp hused)]
      exact iff_of_false nofun fun hall => hused hall.1

theorem le_ephemeralAfter (history : List (List Ipv4EndPoint)) :
    49152 ≤ (ephemeralAfter history).toNat := by
  rw [ephemeralAfter]
  refine @List.foldlRecOn _ _ (fun port : Port => 49152 ≤ port.toNat) history _ _ (Nat.le_refl _)
    fun ephemeral hrng endPoints _ => ?_
  split
  next port next hres =>
    rw [allocateEphemeralPort, Option.map_eq_some_iff] at hres
    obtain ⟨result, hloop, hnext⟩ := hres
    obtain ⟨step, -, rfl, -⟩ := (ephemeralLoop_eq_some_iff hrng).mp hloop
    rw [← (Prod.mk.inj hnext).2]
    exact le_cyclicAfter _ _
  next => exact hrng

/-- Among any endpoints the first free port is given out, and none exactly if all are in use. -/
theorem allocateEphemeralPort_complete (history : List (List Ipv4EndPoint))
    (endPoints : List Ipv4EndPoint) (nextId : Nat) :
    let demux : Ipv4EndPointDemux := ⟨ephemeralAfter history, endPoints, nextId⟩
    (∀ port next, demux.allocateEphemeralPort = some (port, next) ↔
      demux.FirstFree demux.ephemeral 16384 port ∧ next = { demux with ephemeral := port }) ∧
    (demux.allocateEphemeralPort = none ↔
      ∀ port, portFirst ≤ port → port ≤ portLast → demux.InUse port) := by
  intro demux
  have hrng : 49152 ≤ demux.ephemeral.toNat := le_ephemeralAfter history
  refine ⟨fun port next => ?_, ?_⟩
  · rw [allocateEphemeralPort, Option.map_eq_some_iff]
    constructor
    · rintro ⟨result, hloop, hnext⟩
      cases hnext
      exact ⟨(ephemeralLoop_eq_some_iff hrng).mp hloop, rfl⟩
    · rintro ⟨hfst, rfl⟩
      exact ⟨port, (ephemeralLoop_eq_some_iff hrng).mpr hfst, rfl⟩
  · rw [allocateEphemeralPort, Option.map_eq_none_iff, ephemeralLoop_eq_none_iff hrng]
    constructor
    · intro hall port hport _
      obtain ⟨step, hless, rfl⟩ := exists_cyclicAfter demux.ephemeral hport
      exact hall step hless
    · intro hall step _
      exact hall _ (le_cyclicAfter _ _) (Nat.le_of_lt_succ (BitVec.isLt _))

end

end Ipv4EndPointDemux

end HomaSird.Internet
