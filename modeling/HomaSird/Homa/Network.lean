import HomaSird.Homa.RecvScheduler
import HomaSird.Homa.SendScheduler

/-! # Hosts joined by a network

`HomaL4Protocol` is a send and a receive scheduler on one host. The network may deliver, mark and
lose packets in any order, and never duplicates one. A packet to an unbound port is dropped on
arrival, which is a loss to the protocol.
-/

namespace HomaSird.Homa

structure HomaL4Protocol where
  sendScheduler : HomaSendScheduler
  recvScheduler : HomaRecvScheduler
  nextOrigin : Nat

inductive HostInput where
  | send (message : Payload) (daddr : Ipv4Address) (sport dport : Nat)
  | txDataPacket (drained : Bool) (order : List Nat)
  | creditTick
  | rtxExpire (timer : Nat)

namespace HomaL4Protocol

def initial : HomaL4Protocol where
  sendScheduler := .initial
  recvScheduler := .initial
  nextOrigin := 0

def runSender (cfg : Config) (host : HomaL4Protocol) (input : HomaSendScheduler.SendInput) :
    Except Fault (HomaL4Protocol × List Event) := do
  let (sendScheduler, events) ← host.sendScheduler.handle cfg input
  .ok ({ host with sendScheduler }, events)

def runReceiver (cfg : Config) (host : HomaL4Protocol) (input : HomaRecvScheduler.RecvInput) :
    Except Fault (HomaL4Protocol × List Event) := do
  let (recvScheduler, events) ← host.recvScheduler.handle cfg input
  .ok ({ host with recvScheduler }, events)

def act (cfg : Config) (addr : Ipv4Address) (host : HomaL4Protocol) :
    HostInput → Except Fault (HomaL4Protocol × List Event)
  | .send message daddr sport dport => do
    let (sent, events) ← host.runSender cfg
      (.send message addr daddr sport dport host.nextOrigin)
    .ok ({ sent with nextOrigin := host.nextOrigin + 1 }, events)
  | .txDataPacket drained order => host.runSender cfg (.txDataPacket drained order)
  | .creditTick => host.runReceiver cfg .creditTick
  | .rtxExpire timer => host.runReceiver cfg (.rtxExpire timer)

/-- `Receive`: DATA and BUSY for the receive scheduler, GRANT, RESEND and ACK for the send
scheduler. -/
def receive (cfg : Config) (host : HomaL4Protocol) (packet : Packet) (platform : Platform) :
    Except Fault (HomaL4Protocol × List Event) :=
  if packet.hasFlag .data || packet.hasFlag .busy then
    host.runReceiver cfg (.packet packet)
  else if packet.hasFlag .grant || packet.hasFlag .resend || packet.hasFlag .ack then
    host.runSender cfg (.ctrlPkt packet platform)
  else .ok (host, [])

end HomaL4Protocol

def Packet.mark (congested : Bool) (packet : Packet) : Packet :=
  if congested ∧ packet.ipv4Header.ecn ≠ .notECT then
    { packet with ipv4Header := { packet.ipv4Header with ecn := .ce } }
  else packet

structure Setting where
  config : Ipv4Address → Config
  mtu : Nat
  mtu_eq : ∀ addr, (config addr).mtu = mtu

namespace Setting

def maxPayloadSize (setting : Setting) : Nat :=
  setting.mtu - HomaHeader.serializedSize - ipv4SerializedSize

def uniform (cfg : Config) : Setting where
  config := fun _ => cfg
  mtu := cfg.mtu
  mtu_eq := fun _ => rfl

theorem config_maxPayloadSize (setting : Setting) (addr : Ipv4Address) :
    (setting.config addr).maxPayloadSize = setting.maxPayloadSize := by
  rw [Config.maxPayloadSize, setting.mtu_eq, maxPayloadSize]

end Setting

/-- All hosts, the packets under way, and what was done so far, oldest first. -/
structure Network where
  hosts : Ipv4Address → HomaL4Protocol
  inFlight : List Packet
  log : List (Ipv4Address × Event)

namespace Network

inductive Action where
  | host (addr : Ipv4Address) (input : HostInput)
  | deliver (index : Nat) (congested : Bool) (platform : Platform)
  | lose (index : Nat)

def initial : Network where
  hosts := fun _ => .initial
  inFlight := []
  log := []

def sentPackets (events : List Event) : List Packet :=
  events.filterMap fun
    | .sendDown packet => some packet
    | _ => none

def update (net : Network) (addr : Ipv4Address) (moved : HomaL4Protocol × List Event) :
    Network where
  hosts := Function.update net.hosts addr moved.1
  inFlight := net.inFlight ++ sentPackets moved.2
  log := net.log ++ moved.2.map (addr, ·)

def remove (net : Network) (index : Nat) : Network :=
  { net with inFlight := net.inFlight.eraseIdx index }

def step (setting : Setting) (net : Network) : Action → Except Fault Network
  | .host addr input => do
    let moved ← (net.hosts addr).act (setting.config addr) addr input
    .ok (net.update addr moved)
  | .deliver index congested platform =>
    match net.inFlight[index]? with
    | none => .error .notPending
    | some packet => do
      let addr := packet.ipv4Header.destination
      let moved ← (net.hosts addr).receive (setting.config addr) (packet.mark congested)
        platform
      .ok ((net.remove index).update addr moved)
  | .lose index =>
    match net.inFlight[index]? with
    | none => .error .notPending
    | some _ => .ok (net.remove index)

/-- Hosts over a network that delays, reorders, marks and loses packets. -/
def machine (setting : Setting) : Transition.Machine Network Action Fault where
  init := initial
  step := step setting

def eventsOf (net : Network) (addr : Ipv4Address) : List Event :=
  (net.log.filter fun entry => entry.1 = addr).map Prod.snd

def Lossless (_ : Network) (action : Action) : Prop := ∀ index, action ≠ .lose index

/-- SIRD with two credits for all senders. -/
def twoCredits : Config :=
  { Config.oneByteSird with sirdCreditBudgetPkts := 2, memIsOptimized := false }

/-- A message of two packets that both wait for their GRANTs; the first is lost and asked for. -/
def askedAgain : List Action :=
  [.host 1 (.send [7, 8] 2 5 6), .host 1 (.txDataPacket true [0]), .deliver 0 false ⟨[], 0⟩,
    .host 2 .creditTick, .host 2 .creditTick, .deliver 0 false ⟨[0], 0⟩, .deliver 0 false ⟨[0], 0⟩,
    .host 1 (.txDataPacket true [0]), .host 1 (.txDataPacket true [0]), .lose 0,
    .deliver 0 false ⟨[], 0⟩, .host 2 (.rtxExpire 0), .host 2 (.rtxExpire 0)]

/-- The packet asked for is sent again and completes the message. -/
def sentAgain : List Action :=
  askedAgain ++ [.deliver 0 false ⟨[0], 0⟩, .host 1 (.txDataPacket true [0]),
    .deliver 0 false ⟨[], 0⟩]

end Network

end HomaSird.Homa
