import HomaSird.Data.EventSlots
import HomaSird.Internet.Ipv4EndPointDemux

/-! # `Rip`

The routing table of RIP with the events that its routes wait for, as responses, changes of
the interfaces and timers act on it. What the updates and the answers to requests carry is
left out: of the table, sending them changes only the flags of the changed routes.
-/

namespace HomaSird.Internet

inductive RouteStatus
  | valid
  | invalid
  deriving DecidableEq

inductive InterfaceAddressScope
  | host
  | link
  | global
  deriving DecidableEq

structure ScopedAddress extends Ipv4InterfaceAddress where
  scope : InterfaceAddressScope
  deriving DecidableEq

structure RipConfig where
  timeoutDelay : Nat
  garbageCollectionDelay : Nat
  linkDown : Nat
  interfaceExclusions : List Nat
  interfaceMetrics : UnorderedMap Nat UInt8

structure RipRte where
  routePrefix : Ipv4Address
  subnetMask : Ipv4Mask
  tag : Nat
  metric : Nat
  deriving DecidableEq

structure RipRoutingTableEntry where
  dest : Ipv4Address
  destNetworkMask : Ipv4Mask
  gateway : Ipv4Address
  interface : Nat
  tag : Nat
  metric : Nat
  status : RouteStatus
  changed : Bool
  deriving DecidableEq

/-- `NS_ABORT_MSG` of `InvalidateRoute` and `DeleteRoute`. -/
inductive RipFault
  | routeNotFound
  deriving DecidableEq

inductive RipAction
  | invalidateRoute (pointer : Nat)
  | deleteRoute (pointer : Nat)
  | doSendRouteUpdate (periodic : Bool)
  | sendUnsolicitedRouteUpdate
  | sendRouteRequest
  deriving DecidableEq

/-- A pair of `m_routes`, with its route's address. The table does not know whether a response has
set the route; that is kept for its timer. -/
structure RipRoute where
  pointer : Nat
  entry : RipRoutingTableEntry
  event : Option Nat
  learned : Bool

structure Rip where
  now : Nat
  routes : List RipRoute
  events : EventTable RipAction
  nextPointer : Nat
  nextTriggeredUpdate : Option Nat
  nextUnsolicitedUpdate : Option Nat
  initialized : Bool

namespace RipRoutingTableEntry

def create (network : Ipv4Address) (networkPrefix : Ipv4Mask) (nextHop : Ipv4Address)
    (interface : Nat) : RipRoutingTableEntry where
  dest := network
  destNetworkMask := networkPrefix
  gateway := nextHop
  interface
  tag := 0
  metric := 0
  status := .invalid
  changed := false

def isNetwork (entry : RipRoutingTableEntry) : Bool :=
  decide (entry.destNetworkMask ≠ Ipv4Mask.getOnes)

def setRouteTag (entry : RipRoutingTableEntry) (routeTag : Nat) : RipRoutingTableEntry :=
  if entry.tag ≠ routeTag then { entry with tag := routeTag, changed := true } else entry

def setRouteMetric (entry : RipRoutingTableEntry) (routeMetric : Nat) : RipRoutingTableEntry :=
  if entry.metric ≠ uint8 routeMetric then
    { entry with metric := uint8 routeMetric, changed := true }
  else entry

def setRouteStatus (entry : RipRoutingTableEntry) (status : RouteStatus) :
    RipRoutingTableEntry :=
  if entry.status ≠ status then { entry with status, changed := true } else entry

def setRouteChanged (entry : RipRoutingTableEntry) (changed : Bool) : RipRoutingTableEntry :=
  { entry with changed }

def learn (entry : RipRoutingTableEntry) (rteMetric routeTag : Nat) : RipRoutingTableEntry :=
  (((entry.setRouteMetric rteMetric).setRouteStatus .valid).setRouteTag routeTag).setRouteChanged
    true

end RipRoutingTableEntry

namespace RipConfig

def isExcluded (cfg : RipConfig) (interface : Nat) : Bool :=
  cfg.interfaceExclusions.contains interface

def rteMetric (cfg : RipConfig) (incomingInterface : Nat) (rte : RipRte) : Nat :=
  let interfaceMetric := UnorderedMap.getD cfg.interfaceMetrics incomingInterface 1
  min (uint32 (rte.metric + interfaceMetric.toNat)) cfg.linkDown

def isWellFormed (cfg : RipConfig) (rte : RipRte) : Bool :=
  !(decide (rte.metric = 0) || decide (rte.metric > cfg.linkDown)) &&
    !(Ipv4Address.isLocalhost rte.routePrefix || Ipv4Address.isBroadcast rte.routePrefix ||
      Ipv4Address.isMulticast rte.routePrefix)

end RipConfig

def RipRte.network (rte : RipRte) : Ipv4Address := rte.routePrefix.combineMask rte.subnetMask

namespace Rip

def initial : Rip where
  now := 0
  routes := []
  events := .empty
  nextPointer := 0
  nextTriggeredUpdate := none
  nextUnsolicitedUpdate := none
  initialized := false

def lookup (rip : Rip) (dst : Ipv4Address) (interface : Option Nat) :
    Option RipRoutingTableEntry :=
  let visit (best : Option RipRoutingTableEntry × Nat) (route : RipRoute) :=
    let j := route.entry
    let maskLen := Ipv4Mask.getPrefixLength j.destNetworkMask
    if j.status = .valid ∧ Ipv4Mask.isMatch j.destNetworkMask dst j.dest ∧
        (interface = none ∨ interface = some j.interface) then
      if maskLen < best.2 then best else (some j, maskLen)
    else best
  (rip.routes.foldl visit (none, 0)).1

def addNetworkRouteTo (rip : Rip) (network : Ipv4Address) (networkPrefix : Ipv4Mask)
    (nextHop : Ipv4Address) (interface : Nat) : Rip :=
  let entry := RipRoutingTableEntry.create network networkPrefix nextHop interface
  let route : RipRoute := {
    pointer := rip.nextPointer
    entry := ((entry.setRouteMetric 1).setRouteStatus .valid).setRouteChanged true
    event := none
    learned := false }
  { rip with routes := rip.routes ++ [route], nextPointer := rip.nextPointer + 1 }

def reschedule (rip : Rip) (place : Nat) (route : RipRoute) (delay : Nat)
    (action : Nat → RipAction) : Rip :=
  let scheduled := (rip.events.cancel route.event).schedule rip.now delay (action route.pointer)
  { rip with
    routes := rip.routes.set place { route with event := some scheduled.1 }
    events := scheduled.2 }

def place (rip : Rip) (pointer : Nat) : Option Nat :=
  rip.routes.findIdx? fun route => route.pointer == pointer

def invalidateRoute (cfg : RipConfig) (rip : Rip) (pointer : Nat) : Except RipFault Rip :=
  match (rip.place pointer).bind fun place => (rip.routes[place]?).map (place, ·) with
  | none => .error .routeNotFound
  | some (place, route) =>
    let entry := ((route.entry.setRouteStatus .invalid).setRouteMetric
      cfg.linkDown).setRouteChanged true
    .ok (rip.reschedule place { route with entry } cfg.garbageCollectionDelay .deleteRoute)

def deleteRoute (rip : Rip) (pointer : Nat) : Except RipFault Rip :=
  match rip.place pointer with
  | none => .error .routeNotFound
  | some place => .ok { rip with routes := rip.routes.eraseIdx place }

/-- `SendTriggeredRouteUpdate` with the delay it draws. -/
def sendTriggeredRouteUpdate (rip : Rip) (delay : Nat) : Rip :=
  if rip.events.isRunning rip.nextTriggeredUpdate then rip
  else
    let scheduled := rip.events.schedule rip.now delay (.doSendRouteUpdate false)
    { rip with nextTriggeredUpdate := some scheduled.1, events := scheduled.2 }

def doSendRouteUpdate (rip : Rip) : Rip :=
  { rip with
    routes := rip.routes.map fun route =>
      { route with entry := route.entry.setRouteChanged false } }

/-- `SendUnsolicitedRouteUpdate` with the delay until the next one. -/
def sendUnsolicitedRouteUpdate (rip : Rip) (delay : Nat) : Rip :=
  let sent := doSendRouteUpdate { rip with events := rip.events.cancel rip.nextTriggeredUpdate }
  let scheduled := sent.events.schedule sent.now delay .sendUnsolicitedRouteUpdate
  { sent with nextUnsolicitedUpdate := some scheduled.1, events := scheduled.2 }

/-! ## Responses -/

structure RteScan where
  rip : Rip
  found : Bool
  changed : Bool

def renew (rip : Rip) (route : RipRoute) (rte : RipRte) (senderAddress : Ipv4Address)
    (incomingInterface : Nat) : RipRoute × Rip :=
  ({ route with
      pointer := rip.nextPointer
      entry := .create rte.network rte.subnetMask senderAddress incomingInterface },
    { rip with nextPointer := rip.nextPointer + 1 })

def meetRoute (cfg : RipConfig) (rte : RipRte) (senderAddress : Ipv4Address)
    (incomingInterface : Nat) (scan : RteScan) (place : Nat) (route : RipRoute) :
    Except RipFault RteScan :=
  let rip := scan.rip
  let rteMetric := cfg.rteMetric incomingInterface rte
  if rteMetric < route.entry.metric then
    let (kept, rip) :=
      if senderAddress ≠ route.entry.gateway then
        rip.renew route rte senderAddress incomingInterface
      else (route, rip)
    let learned := { kept with entry := kept.entry.learn rteMetric rte.tag, learned := true }
    .ok ⟨rip.reschedule place learned cfg.timeoutDelay .invalidateRoute, true, true⟩
  else if rteMetric = route.entry.metric then
    if senderAddress = route.entry.gateway then
      .ok ⟨rip.reschedule place route cfg.timeoutDelay .invalidateRoute, true, scan.changed⟩
    else if rip.events.getDelayLeft rip.now route.event < cfg.timeoutDelay / 2 then
      let (fresh, rip) := rip.renew route rte senderAddress incomingInterface
      let learned := { fresh with entry := fresh.entry.learn rteMetric rte.tag, learned := true }
      .ok ⟨rip.reschedule place learned cfg.timeoutDelay .invalidateRoute, true, true⟩
    else .ok { scan with found := true }
  else if senderAddress = route.entry.gateway then
    let cancelled := { rip with events := rip.events.cancel route.event }
    if rteMetric < cfg.linkDown then
      let learned := { route with entry := route.entry.learn rteMetric rte.tag, learned := true }
      .ok ⟨cancelled.reschedule place learned cfg.timeoutDelay .invalidateRoute, true, true⟩
    else do
      let invalidated ← invalidateRoute cfg cancelled route.pointer
      .ok ⟨invalidated, true, true⟩
  else .ok { scan with found := true }

def visitRoute (cfg : RipConfig) (rte : RipRte) (senderAddress : Ipv4Address)
    (incomingInterface : Nat) (scan : RteScan) (place : Nat) : Except RipFault RteScan :=
  match scan.rip.routes[place]? with
  | none => .ok scan
  | some route =>
    if route.entry.dest = rte.network ∧ route.entry.destNetworkMask = rte.subnetMask then
      meetRoute cfg rte senderAddress incomingInterface scan place route
    else .ok scan

def addLearned (cfg : RipConfig) (rip : Rip) (rte : RipRte) (senderAddress : Ipv4Address)
    (incomingInterface : Nat) : Rip :=
  let entry := RipRoutingTableEntry.create rte.network rte.subnetMask senderAddress
    incomingInterface
  let rteMetric := cfg.rteMetric incomingInterface rte
  let route : RipRoute := {
    pointer := rip.nextPointer
    entry := ((entry.setRouteMetric rteMetric).setRouteStatus .valid).setRouteChanged true
    event := none
    learned := true }
  reschedule { rip with routes := route :: rip.routes, nextPointer := rip.nextPointer + 1 } 0 route
    cfg.timeoutDelay .invalidateRoute

def handleRte (cfg : RipConfig) (senderAddress : Ipv4Address) (incomingInterface : Nat)
    (state : Rip × Bool) (rte : RipRte) : Except RipFault (Rip × Bool) := do
  let scan ← (List.range state.1.routes.length).foldlM
    (visitRoute cfg rte senderAddress incomingInterface) ⟨state.1, false, state.2⟩
  if !scan.found && decide (cfg.rteMetric incomingInterface rte ≠ cfg.linkDown) then
    .ok (scan.rip.addLearned cfg rte senderAddress incomingInterface, true)
  else .ok (scan.rip, scan.changed)

/-- `HandleResponses`, with the delay of an update it triggers. -/
def handleResponses (cfg : RipConfig) (rip : Rip) (rtes : List RipRte)
    (senderAddress : Ipv4Address) (incomingInterface delay : Nat) : Except RipFault Rip := do
  if cfg.isExcluded incomingInterface then .ok rip
  else if rtes.all cfg.isWellFormed then
    let (rip, changed) ← rtes.foldlM (handleRte cfg senderAddress incomingInterface)
      (rip, false)
    .ok (if changed then rip.sendTriggeredRouteUpdate delay else rip)
  else .ok rip

/-! ## Interfaces and timers -/

/-- `NotifyInterfaceUp` with the addresses of an interface that is not a loopback one. -/
def notifyInterfaceUp (rip : Rip) (interface : Nat) (addresses : List ScopedAddress)
    (delay : Nat) : Rip :=
  let globals := addresses.filter fun address => decide (address.scope = .global)
  let added := globals.foldl (fun rip address =>
    rip.addNetworkRouteTo (address.localAddr.combineMask address.mask) address.mask
      Ipv4Address.getAny interface) rip
  if rip.initialized then globals.foldl (fun rip _ => rip.sendTriggeredRouteUpdate delay) added
  else added

def invalidateWhere (cfg : RipConfig) (rip : Rip) (chosen : RipRoutingTableEntry → Bool) :
    Except RipFault Rip :=
  (List.range rip.routes.length).foldlM (fun rip place =>
    match rip.routes[place]? with
    | none => .ok rip
    | some route =>
      if chosen route.entry then invalidateRoute cfg rip route.pointer else .ok rip) rip

def notifyInterfaceDown (cfg : RipConfig) (rip : Rip) (interface delay : Nat) :
    Except RipFault Rip := do
  let rip ← invalidateWhere cfg rip fun entry => decide (entry.interface = interface)
  .ok (if cfg.isExcluded interface then rip else rip.sendTriggeredRouteUpdate delay)

def notifyAddAddress (cfg : RipConfig) (rip : Rip) (isUp : Bool) (interface : Nat)
    (address : ScopedAddress) (delay : Nat) : Rip :=
  if !isUp || cfg.isExcluded interface then rip
  else
    let added :=
      if address.scope = .global then
        rip.addNetworkRouteTo (address.localAddr.combineMask address.mask) address.mask
          Ipv4Address.getAny interface
      else rip
    added.sendTriggeredRouteUpdate delay

def notifyRemoveAddress (cfg : RipConfig) (rip : Rip) (isUp : Bool) (interface : Nat)
    (address : ScopedAddress) (delay : Nat) : Except RipFault Rip :=
  if !isUp || decide (address.scope ≠ .global) then .ok rip
  else do
    let network := address.localAddr.combineMask address.mask
    let rip ← invalidateWhere cfg rip fun entry =>
      decide (entry.interface = interface) && entry.isNetwork && decide (entry.dest = network) &&
        decide (entry.destNetworkMask = address.mask)
    .ok (if cfg.isExcluded interface then rip else rip.sendTriggeredRouteUpdate delay)

/-- `DoInitialize` with the delays it draws. The event of a triggered update loses its slot to
that of the request. -/
def doInitialize (rip : Rip) (addedGlobal : Bool)
    (unsolicitedDelay triggeredDelay startupDelay : Nat) : Rip :=
  let unsolicited := rip.events.schedule rip.now unsolicitedDelay .sendUnsolicitedRouteUpdate
  let triggered :=
    if addedGlobal then
      (unsolicited.2.schedule rip.now triggeredDelay (.doSendRouteUpdate false)).2
    else unsolicited.2
  let request := triggered.schedule rip.now startupDelay .sendRouteRequest
  { rip with
    initialized := true
    nextUnsolicitedUpdate := some unsolicited.1
    nextTriggeredUpdate := some request.1
    events := request.2 }

def expire (cfg : RipConfig) (rip : Rip) (uid delay : Nat) : Except RipFault Rip :=
  match rip.events.pending.lookup uid with
  | none => .ok rip
  | some event =>
    let rip := { rip with events := rip.events.drop uid }
    match event.action with
    | .invalidateRoute pointer => invalidateRoute cfg rip pointer
    | .deleteRoute pointer => rip.deleteRoute pointer
    | .doSendRouteUpdate _ => .ok rip.doSendRouteUpdate
    | .sendUnsolicitedRouteUpdate => .ok (rip.sendUnsolicitedRouteUpdate delay)
    | .sendRouteRequest => .ok rip

end Rip

/-- What happens to a `Rip`, with what it reads of the node and the delays it draws. -/
inductive RipEvent
  | doInitialize (addedGlobal : Bool) (unsolicitedDelay triggeredDelay startupDelay : Nat)
  | response (rtes : List RipRte) (senderAddress : Ipv4Address) (incomingInterface delay : Nat)
  | interfaceUp (interface : Nat) (addresses : List ScopedAddress) (delay : Nat)
  | interfaceDown (interface delay : Nat)
  | addAddress (isUp : Bool) (interface : Nat) (address : ScopedAddress) (delay : Nat)
  | removeAddress (isUp : Bool) (interface : Nat) (address : ScopedAddress) (delay : Nat)
  | addDefaultRouteTo (nextHop : Ipv4Address) (interface : Nat)
  | expire (uid delay : Nat)

structure RipInput where
  now : Nat
  event : RipEvent

namespace Rip

def handle (cfg : RipConfig) (rip : Rip) : RipEvent → Except RipFault Rip
  | .doInitialize addedGlobal unsolicitedDelay triggeredDelay startupDelay =>
    .ok (rip.doInitialize addedGlobal unsolicitedDelay triggeredDelay startupDelay)
  | .response rtes senderAddress incomingInterface delay =>
    rip.handleResponses cfg rtes senderAddress incomingInterface delay
  | .interfaceUp interface addresses delay => .ok (rip.notifyInterfaceUp interface addresses delay)
  | .interfaceDown interface delay => rip.notifyInterfaceDown cfg interface delay
  | .addAddress isUp interface address delay =>
    .ok (rip.notifyAddAddress cfg isUp interface address delay)
  | .removeAddress isUp interface address delay =>
    rip.notifyRemoveAddress cfg isUp interface address delay
  | .addDefaultRouteTo nextHop interface => .ok (rip.addNetworkRouteTo 0 0 nextHop interface)
  | .expire uid delay => rip.expire cfg uid delay

def machine (cfg : RipConfig) : Transition.Machine Rip RipInput RipFault where
  init := initial
  step rip input := handle cfg { rip with now := input.now } input.event

end Rip

end HomaSird.Internet
