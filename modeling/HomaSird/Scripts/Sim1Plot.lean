import Mathlib.Data.Rat.Floor
import Mathlib.Tactic.Positivity
import HomaSird.Homa.Packetize

/-! # The ideal completion time of a message

`sim1_plot.py` divides the completion time of a message by an ideal one, `min_fct_us`. The
packets that the transport makes of the message, on the links of the topology of `sim1`, say
how long it takes at least. Times are exact rationals, in microseconds.
-/

namespace HomaSird.Scripts.Sim1Plot

open Homa (Config Payload HomaHeader)
open Homa.HomaOutboundMsg (fragments flatten_fragments length_fragments numPackets)

/-! ## The script -/

structure Endpoint where
  parts : List Nat
  port : Nat
deriving DecidableEq

def hostIndex (endpoint : Endpoint) : Option Nat :=
  if endpoint.parts.length ≠ 4 then none else endpoint.parts[2]?

def oneWayDelayUs (src dst : Endpoint) (hostsPerTor : Nat) (linkDelayUs : ℚ) : ℚ :=
  match hostIndex src, hostIndex dst with
  | some srcIdx, some dstIdx =>
    if srcIdx / hostsPerTor = dstIdx / hostsPerTor then 2 * linkDelayUs else 4 * linkDelayUs
  | _, _ => 4 * linkDelayUs

def minFctUs (sizeBytes : Nat) (src dst : Endpoint) (mssBytes wireBytes : Nat)
    (hostRateGbps : ℚ) (hostsPerTor : Nat) (linkDelayUs : ℚ) : ℚ :=
  let pkts := max 1 ⌈(sizeBytes : ℚ) / mssBytes⌉
  let txUs := (pkts * wireBytes * 8) / (hostRateGbps * 10 ^ 9) * 10 ^ 6
  oneWayDelayUs src dst hostsPerTor linkDelayUs + txUs

/-- With the default values of the arguments of `main`. -/
def minFctUsDefault (sizeBytes : Nat) (src dst : Endpoint) : ℚ :=
  minFctUs sizeBytes src dst 1442 1504 100 16 1

/-! ## The topology of `sim1` -/

inductive Node where
  | host (idx : Fin 144)
  | tor (idx : Fin 9)
  | spine (idx : Fin 4)
deriving DecidableEq

def torOf (host : Fin 144) : Fin 9 := ⟨host.val / 16, by omega⟩

/-- The nodes that a packet visits, by a spine where the hosts are at different switches. -/
def path (src dst : Fin 144) (spine : Fin 4) : List Node :=
  if torOf src = torOf dst then [.host src, .tor (torOf src), .host dst]
  else [.host src, .tor (torOf src), .spine spine, .tor (torOf dst), .host dst]

def propagationUs (src dst : Fin 144) (spine : Fin 4) : ℚ :=
  ((path src dst spine).length - 1 : Nat) * 1

/-- Each host has a network of its own, `10.10.idx.0`. -/
def hostEndpoint (idx : Fin 144) : Endpoint := ⟨[10, 10, idx, 1], 30000⟩

/-! ## What the transport sends -/

def wireSize (payload : Payload) : Nat :=
  payload.length + HomaHeader.serializedSize + Homa.ipv4SerializedSize + 2

def serializationUs (packets : List Payload) : ℚ :=
  (((packets.map wireSize).sum : Nat) : ℚ) * 8 / (100 * 10 ^ 9) * 10 ^ 6

def leastFctUs (cfg : Config) (message : Payload) (src dst : Fin 144) (spine : Fin 4) : ℚ :=
  propagationUs src dst spine + serializationUs (fragments cfg message)

/-! ## Comparison -/

variable {cfg : Config} {message : Payload}

theorem oneWayDelayUs_eq (src dst : Fin 144) (spine : Fin 4) :
    oneWayDelayUs (hostEndpoint src) (hostEndpoint dst) 16 1 = propagationUs src dst spine := by
  have hidx : ∀ idx, hostIndex (hostEndpoint idx) = some idx.val := fun _ => rfl
  rw [oneWayDelayUs, hidx, hidx, propagationUs, path]
  by_cases hsame : torOf src = torOf dst
  · have hval : src.val / 16 = dst.val / 16 := congrArg Fin.val hsame
    simp only [hval, hsame, if_true]
    norm_num
  · have hval : ¬ src.val / 16 = dst.val / 16 := fun h => hsame (Fin.ext h)
    simp only [hval, hsame, if_false]
    norm_num

theorem sum_wireSize (packets : List Payload) :
    (packets.map wireSize).sum = packets.flatten.length + 43 * packets.length := by
  induction packets with
  | nil => rfl
  | cons packet rest ih =>
    have hfst : wireSize packet = packet.length + 43 := rfl
    rw [List.map_cons, List.sum_cons, ih, hfst, List.flatten_cons, List.length_append,
      List.length_cons]
    omega

theorem le_pkts (sizeBytes : Nat) :
    (sizeBytes : ℤ) ≤ 1442 * max 1 ⌈(sizeBytes : ℚ) / (1442 : Nat)⌉ := by
  have hceil := Int.le_ceil ((sizeBytes : ℚ) / (1442 : Nat))
  rw [div_le_iff₀ (by norm_num)] at hceil
  have hint : (sizeBytes : ℤ) ≤ ⌈(sizeBytes : ℚ) / (1442 : Nat)⌉ * (1442 : Nat) := by
    exact_mod_cast hceil
  omega

theorem wireSize_lt (hmtu : cfg.mtu = 1500) :
    (((fragments cfg message).map wireSize).sum : ℤ) <
      max 1 ⌈(message.length : ℚ) / (1442 : Nat)⌉ * 1504 := by
  have hmax : cfg.maxPayloadSize = 1459 := by
    rw [Config.maxPayloadSize, hmtu]
    rfl
  have hsz := le_pkts message.length
  have hone : (1 : ℤ) ≤ max 1 ⌈(message.length : ℚ) / (1442 : Nat)⌉ := le_max_left _ _
  have hsum : ((fragments cfg message).map wireSize).sum =
      message.length + 43 * ((message.length + 1459 - 1) / 1459) := by
    rw [sum_wireSize, flatten_fragments, length_fragments, numPackets, hmax]
  generalize max 1 ⌈(message.length : ℚ) / (1442 : Nat)⌉ = pkts at hsz hone ⊢
  have hfewer : (((message.length + 1459 - 1) / 1459 : Nat) : ℤ) ≤ pkts := by omega
  rw [hsum]
  omega

def LowerBound (cfg : Config) (message : Payload) (src dst : Fin 144) (spine : Fin 4) : Prop :=
  minFctUsDefault message.length (hostEndpoint src) (hostEndpoint dst) ≤
    leastFctUs cfg message src dst spine

theorem leastFctUs_lt (hmtu : cfg.mtu = 1500) (message : Payload) (src dst : Fin 144)
    (spine : Fin 4) :
    leastFctUs cfg message src dst spine <
      minFctUsDefault message.length (hostEndpoint src) (hostEndpoint dst) := by
  have hbytes : ((((fragments cfg message).map wireSize).sum : Nat) : ℚ) <
      (max 1 ⌈(message.length : ℚ) / (1442 : Nat)⌉ : ℤ) * (1504 : Nat) := by
    have hless := @wireSize_lt cfg message hmtu
    generalize ((fragments cfg message).map wireSize).sum = sent at hless ⊢
    exact_mod_cast hless
  rw [leastFctUs, minFctUsDefault, minFctUs, oneWayDelayUs_eq src dst spine, serializationUs]
  refine add_lt_add_right ?_ _
  gcongr

/-- The ideal completion time of a message is never at most the propagation delay of the path
and the serialization of the packets that are sent, on links with an MTU of 1500 bytes. -/
theorem not_lowerBound (cfg : Config) (hmtu : cfg.mtu = 1500) (message : Payload)
    (src dst : Fin 144) (spine : Fin 4) : ¬ LowerBound cfg message src dst spine :=
  not_le.mpr (leastFctUs_lt hmtu message src dst spine)

theorem not_lowerBound_byte :
    ¬ LowerBound (Config.defaults 1500 (by decide) (by decide)) [0] 0 16 0 :=
  not_lowerBound _ rfl [0] 0 16 0

/-- A message of one byte at a host of the same switch: 44 bytes are sent, and 1504 counted. -/
theorem byte_below_ideal :
    ¬ ∀ (cfg : Config) (message : Payload) (src dst : Fin 144) (spine : Fin 4),
      cfg.mtu = 1500 → 1 ≤ message.length → src ≠ dst → LowerBound cfg message src dst spine := by
  intro hall
  have hbd := hall (Config.defaults 1500 (by decide) (by decide)) [0] 0 1 0 rfl (by decide)
    (by decide)
  exact absurd hbd (not_le.mpr (leastFctUs_lt rfl [0] 0 1 0))

end HomaSird.Scripts.Sim1Plot
