import HomaSird.Data.EventSlots
import HomaSird.Internet.Ipv4Header
import HomaSird.Transition.Machine

/-! # `ArpL3Protocol` and `ArpCache`

One cache with the lookups, the received packets and the timers that work on it. A packet and its
header are one datagram, which the cache does not look into. Failed assertions and fatal errors
are faults.
-/

namespace HomaSird.Internet

abbrev MacAddress := BitVec 48

structure ArpConfig where
  aliveTimeout : Nat
  deadTimeout : Nat
  waitReplyTimeout : Nat
  maxRetries : UInt32
  pendingQueueSize : Nat

inductive ArpCacheEntryState
  | alive
  | waitReply
  | dead
  | permanent
  deriving DecidableEq

structure ArpCacheEntry (Datagram : Type) where
  state : ArpCacheEntryState
  retries : Nat
  macAddress : Option MacAddress
  ipv4Address : Ipv4Address
  lastSeen : Nat
  pending : List Datagram

inductive ArpAction
  | handleWaitReplyTimeout
  | sendArpRequest (dest : Ipv4Address)
  deriving DecidableEq

inductive ArpFault
  /-- `Test for possibly unreachable code` -/
  | possiblyUnreachable
  | markWaitReply
  | markAlive
  | markDead
  | updateWaitReply
  deriving DecidableEq

inductive ArpType
  | request
  | reply
  deriving DecidableEq

structure ArpHeader where
  type : ArpType
  macSource : MacAddress
  macDest : MacAddress
  ipv4Source : Ipv4Address
  ipv4Dest : Ipv4Address
  deriving DecidableEq

/-- A datagram is unresolved when `Lookup` returned false for it, sent when it is given to
`Ipv4Interface::Send`, and dropped when a drop trace says so. -/
inductive ArpEvent (Datagram : Type)
  | unresolved (dest : Ipv4Address) (datagram : Datagram)
  | waiting (dest : Ipv4Address)
  | requested (dest : Ipv4Address) (retransmission : Bool)
  | replied (dest : Ipv4Address) (toMac : MacAddress) (myIp : Ipv4Address)
  | sent (dest : Ipv4Address) (datagram : Datagram)
  | dropped (dest : Ipv4Address) (datagram : Datagram)
  | replyDropped (arp : ArpHeader)
  | dead (dest : Ipv4Address)
  deriving DecidableEq

structure ArpCache (Datagram : Type) where
  now : Nat
  arpCache : UnorderedMap Ipv4Address (ArpCacheEntry Datagram)
  waitReplyTimer : Option Nat
  events : EventTable ArpAction
  log : List (ArpEvent Datagram)

variable {Datagram : Type}

namespace ArpCacheEntry

/-- The constructor of an entry, and `SetIpv4Address`. -/
def create (dest : Ipv4Address) : ArpCacheEntry Datagram where
  state := .alive
  retries := 0
  macAddress := none
  ipv4Address := dest
  lastSeen := 0
  pending := []

def getTimeout (cfg : ArpConfig) (entry : ArpCacheEntry Datagram) : Option Nat :=
  match entry.state with
  | .waitReply => some cfg.waitReplyTimeout
  | .dead => some cfg.deadTimeout
  | .alive => some cfg.aliveTimeout
  | .permanent => none

def isExpired (cfg : ArpConfig) (now : Nat) (entry : ArpCacheEntry Datagram) : Bool :=
  (entry.getTimeout cfg).any fun timeout => decide (now - entry.lastSeen > timeout)

def markDead (now : Nat) (entry : ArpCacheEntry Datagram) :
    Except ArpFault (ArpCacheEntry Datagram) :=
  if entry.state = .permanent then .error .markDead
  else .ok { entry with state := .dead, retries := 0, lastSeen := now }

def markAlive (now : Nat) (macAddress : MacAddress) (entry : ArpCacheEntry Datagram) :
    Except ArpFault (ArpCacheEntry Datagram) :=
  if entry.state = .waitReply then
    .ok { entry with macAddress := some macAddress, state := .alive, retries := 0, lastSeen := now }
  else .error .markAlive

def updateWaitReply (cfg : ArpConfig) (waiting : Datagram) (entry : ArpCacheEntry Datagram) :
    Except ArpFault (Option (ArpCacheEntry Datagram)) :=
  if entry.state = .waitReply then
    if entry.pending.length ≥ cfg.pendingQueueSize then .ok none
    else .ok (some { entry with pending := entry.pending ++ [waiting] })
  else .error .updateWaitReply

def incrementRetries (now : Nat) (entry : ArpCacheEntry Datagram) : ArpCacheEntry Datagram :=
  { entry with retries := uint32 (entry.retries + 1), lastSeen := now }

end ArpCacheEntry

namespace ArpCache

def initial : ArpCache Datagram where
  now := 0
  arpCache := ∅
  waitReplyTimer := none
  events := .empty
  log := []

def setEntry (cache : ArpCache Datagram) (dest : Ipv4Address) (entry : ArpCacheEntry Datagram) :
    ArpCache Datagram :=
  { cache with arpCache := cache.arpCache.insert dest entry }

def note (cache : ArpCache Datagram) (seen : List (ArpEvent Datagram)) : ArpCache Datagram :=
  { cache with log := cache.log ++ seen }

def startWaitReplyTimer (cfg : ArpConfig) (cache : ArpCache Datagram) : ArpCache Datagram :=
  if cache.events.isRunning cache.waitReplyTimer then cache
  else
    let scheduled := cache.events.schedule cache.now cfg.waitReplyTimeout
      .handleWaitReplyTimeout
    { cache with waitReplyTimer := some scheduled.1, events := scheduled.2 }

/-- `MarkWaitReply` of the entry of a destination. -/
def markWaitReply (cfg : ArpConfig) (cache : ArpCache Datagram) (dest : Ipv4Address)
    (entry : ArpCacheEntry Datagram) (waiting : Datagram) :
    Except ArpFault (ArpCache Datagram) :=
  if entry.state ≠ .alive ∧ entry.state ≠ .dead then .error .markWaitReply
  else if entry.pending.length ≠ 0 then .error .markWaitReply
  else
    let marked := { entry with
      state := .waitReply, pending := entry.pending ++ [waiting], lastSeen := cache.now }
    .ok (((cache.setEntry dest marked).note [.waiting dest]).startWaitReplyTimer cfg)

/-- One entry in the loop of `HandleWaitReplyTimeout`; the flag tells to restart the timer. -/
def visitWaiting (cfg : ArpConfig) (state : ArpCache Datagram × Bool) (dest : Ipv4Address) :
    Except ArpFault (ArpCache Datagram × Bool) :=
  match state.1.arpCache.lookup dest with
  | none => .ok state
  | some entry =>
    if entry.state = .waitReply then
      if entry.retries < cfg.maxRetries.toNat then
        let cache := state.1.note [.requested entry.ipv4Address true]
        .ok (cache.setEntry dest (entry.incrementRetries cache.now), true)
      else do
        let dead ← entry.markDead state.1.now
        let cache := state.1.setEntry dest { dead with retries := 0, pending := [] }
        .ok (cache.note (.dead entry.ipv4Address ::
          dead.pending.map (.dropped entry.ipv4Address)), state.2)
    else .ok state

/-- `HandleWaitReplyTimeout`, which goes through the map in some order of its keys. -/
def handleWaitReplyTimeout (cfg : ArpConfig) (cache : ArpCache Datagram)
    (order : List Ipv4Address) : Except ArpFault (ArpCache Datagram) := do
  let (cache, restartWaitReplyTimer) ← order.foldlM (visitWaiting cfg) (cache, false)
  if restartWaitReplyTimer then
    let scheduled := cache.events.schedule cache.now cfg.waitReplyTimeout
      .handleWaitReplyTimeout
    .ok { cache with waitReplyTimer := some scheduled.1, events := scheduled.2 }
  else .ok cache

/-! ## The protocol -/

def waitForReply (cfg : ArpConfig) (cache : ArpCache Datagram) (dest : Ipv4Address)
    (entry : ArpCacheEntry Datagram) (datagram : Datagram) (jitter : Nat) :
    Except ArpFault (ArpCache Datagram) := do
  let cache ← cache.markWaitReply cfg dest entry datagram
  .ok { cache with events := (cache.events.schedule cache.now jitter (.sendArpRequest dest)).2 }

/-- `Lookup` until it returns; it returns true with the hardware address it has found. -/
def find (cfg : ArpConfig) (cache : ArpCache Datagram) (datagram : Datagram)
    (destination : Ipv4Address) (jitter : Nat) :
    Except ArpFault (Option (Option MacAddress) × ArpCache Datagram) :=
  match cache.arpCache.lookup destination with
  | some entry =>
    if entry.isExpired cfg cache.now then
      match entry.state with
      | .dead => do
        .ok (none, ← cache.waitForReply cfg destination entry datagram jitter)
      | .alive => do
        .ok (none, ← cache.waitForReply cfg destination entry datagram jitter)
      | _ => .error .possiblyUnreachable
    else
      match entry.state with
      | .dead => .ok (none, cache.note [.dropped destination datagram])
      | .alive => .ok (some entry.macAddress, cache)
      | .waitReply => do
        match ← entry.updateWaitReply cfg datagram with
        | some entry => .ok (none, cache.setEntry destination entry)
        | none => .ok (none, cache.note [.dropped destination datagram])
      | .permanent => .ok (some entry.macAddress, cache)
  | none => do
    .ok (none, ← cache.waitForReply cfg destination (.create destination) datagram jitter)

/-- `Lookup`, with its answer. -/
def lookup (cfg : ArpConfig) (cache : ArpCache Datagram) (datagram : Datagram)
    (destination : Ipv4Address) (jitter : Nat) :
    Except ArpFault (Option (Option MacAddress) × ArpCache Datagram) := do
  let (answer, cache) ← cache.find cfg datagram destination jitter
  match answer with
  | some mac => .ok (some mac, cache)
  | none => .ok (none, cache.note [.unresolved destination datagram])

def handleReply (cache : ArpCache Datagram) (arp : ArpHeader) :
    Except ArpFault (ArpCache Datagram) :=
  match cache.arpCache.lookup arp.ipv4Source with
  | some entry =>
    if entry.state = .waitReply then do
      let alive ← entry.markAlive cache.now arp.macSource
      let flushed := cache.setEntry arp.ipv4Source { alive with pending := [] }
      .ok (flushed.note (alive.pending.map (.sent arp.ipv4Source)))
    else .ok (cache.note [.replyDropped arp])
  | none => .ok (cache.note [.replyDropped arp])

/-- The loop of `Receive` over the addresses of the interface. -/
def receive (cache : ArpCache Datagram) (arp : ArpHeader) (deviceAddress : MacAddress) :
    List Ipv4Address → Except ArpFault (ArpCache Datagram)
  | [] => .ok cache
  | localAddr :: rest =>
    if arp.type = .request ∧ arp.ipv4Dest = localAddr then
      .ok (cache.note [.replied arp.ipv4Source arp.macSource arp.ipv4Dest])
    else if arp.type = .reply ∧ arp.ipv4Dest = localAddr ∧ arp.macDest = deviceAddress then
      cache.handleReply arp
    else receive cache arp deviceAddress rest

/-- A pending event runs; the timer goes through the map in the order given. -/
def expire (cfg : ArpConfig) (cache : ArpCache Datagram) (uid : Nat)
    (order : List Ipv4Address) : Except ArpFault (ArpCache Datagram) :=
  match cache.events.pending.lookup uid with
  | none => .ok cache
  | some event =>
    let cache := { cache with events := cache.events.drop uid }
    match event.action with
    | .handleWaitReplyTimeout => cache.handleWaitReplyTimeout cfg order
    | .sendArpRequest dest => .ok (cache.note [.requested dest false])

end ArpCache

inductive ArpCall (Datagram : Type)
  | lookup (datagram : Datagram) (destination : Ipv4Address) (jitter : Nat)
  | receive (arp : ArpHeader) (deviceAddress : MacAddress) (addresses : List Ipv4Address)
  | expire (uid : Nat) (order : List Ipv4Address)

structure ArpInput (Datagram : Type) where
  now : Nat
  call : ArpCall Datagram

namespace ArpCache

def handle (cfg : ArpConfig) (cache : ArpCache Datagram) :
    ArpCall Datagram → Except ArpFault (ArpCache Datagram)
  | .lookup datagram destination jitter => do
    let (_, cache) ← cache.lookup cfg datagram destination jitter
    .ok cache
  | .receive arp deviceAddress addresses => cache.receive arp deviceAddress addresses
  | .expire uid order => cache.expire cfg uid order

def machine (cfg : ArpConfig) :
    Transition.Machine (ArpCache Datagram) (ArpInput Datagram) ArpFault where
  init := initial
  step cache input := handle cfg { cache with now := input.now } input.call

/-- Time does not go back, events run when due, and the map is gone through in some order of its
keys. -/
def inTime (cache : ArpCache Datagram) (input : ArpInput Datagram) : Bool :=
  decide (cache.now ≤ input.now) &&
    cache.events.pending.entries.all (fun entry => decide (input.now ≤ entry.2.due)) &&
      match input.call with
      | .expire uid order =>
        (cache.events.pending.lookup uid).any (fun event => decide (event.due = input.now)) &&
          decide (order.Perm cache.arpCache.keys)
      | _ => true

end ArpCache

end HomaSird.Internet
