import HomaSird.Homa.Packetize

/-! # The message generator

`MsgGeneratorApp` draws the size of a message as a number of packets of its own payload size.
The transport packetizes the bytes anew, by the MTU less its own headers.
-/

namespace HomaSird.Applications

open Homa (Config Payload)
open Homa.HomaOutboundMsg (fragments numPackets length_fragments)

/-- `m_msgSizeCDF`: the cumulative probabilities, each with a number of packets, an `int`. -/
structure MsgSizeCDF where
  entries : List (ℚ × Int)
  sorted : entries.Pairwise fun entry other => entry.1 < other.1
  nonneg : ∀ entry ∈ entries, 0 ≤ entry.2
  int : ∀ entry ∈ entries, entry.2 < 2 ^ 31
  total : ∃ entry ∈ entries, entry.1 = 1

def MsgSizeCDF.quantile (msgSizeCDF : MsgSizeCDF) (probability : ℚ) : Nat :=
  ((msgSizeCDF.entries.find? fun entry => probability ≤ entry.1).map fun entry =>
    entry.2.toNat).getD 0

structure MsgGeneratorApp where
  msgSizeCDF : MsgSizeCDF
  maxPayloadSize : Nat
  maxPayloadSize_lt : maxPayloadSize < 2 ^ 32

namespace MsgGeneratorApp

/-- The loop over the distribution, which leaves `msgSizePkts` at -1 if no entry is found. -/
def sizeLoop (rndValue : ℚ) : List (ℚ × Int) → Int
  | [] => -1
  | entry :: rest => if rndValue ≤ entry.1 then entry.2 else sizeLoop rndValue rest

/-- No size where the assertion on `msgSizePkts` fails. The device is that of the transport. -/
def getNextMsgSizeFromDist (app : MsgGeneratorApp) (cfg : Config) (rndValue : ℚ) :
    Option Nat :=
  let msgSizePkts := sizeLoop rndValue app.msgSizeCDF.entries
  if msgSizePkts ≥ 0 then
    let msgSizePkts := min 0xffff msgSizePkts
    if app.maxPayloadSize > 0 then some (uint32 (app.maxPayloadSize * msgSizePkts.toNat))
    else some (uint32 (cfg.mtu * msgSizePkts.toNat))
  else none

/-- The message of `SendMessage`: `Create<Packet> (msgSizeBytes)` is filled with zeros. -/
def message (msgSizeBytes : Nat) : Payload := List.replicate msgSizeBytes 0

def payloadSize (app : MsgGeneratorApp) (cfg : Config) : Nat :=
  if app.maxPayloadSize > 0 then app.maxPayloadSize else cfg.mtu

/-- The number of packets that a draw stands for, at most `0xffff`. -/
def packets (app : MsgGeneratorApp) (rndValue : ℚ) : Nat :=
  min 0xffff (app.msgSizeCDF.quantile rndValue)

variable {app : MsgGeneratorApp} {cfg : Config} {rndValue : ℚ}

theorem sizeLoop_cons (entry : ℚ × Int) (rest : List (ℚ × Int)) (hent : 0 ≤ entry.2)
    (hrest : sizeLoop rndValue rest =
      ((rest.find? fun entry => rndValue ≤ entry.1).map fun entry => entry.2.toNat).getD 0 ∨
      rndValue ≤ entry.1) :
    sizeLoop rndValue (entry :: rest) = (((entry :: rest).find? fun entry => rndValue ≤ entry.1).map
        fun entry => entry.2.toNat).getD 0 := by
  rw [sizeLoop, List.find?_cons]
  by_cases hle : rndValue ≤ entry.1
  · simp only [hle, decide_true, if_true, Option.map_some, Option.getD_some]
    exact (Int.toNat_of_nonneg hent).symm
  · simp only [hle, decide_false, if_false]
    exact hrest.resolve_right hle

theorem sizeLoop_eq (msgSizeCDF : MsgSizeCDF) (hrnd : rndValue ≤ 1) :
    sizeLoop rndValue msgSizeCDF.entries = msgSizeCDF.quantile rndValue := by
  have hall : ∀ entries : List (ℚ × Int), (∀ entry ∈ entries, 0 ≤ entry.2) →
      (∃ entry ∈ entries, entry.1 = 1) → sizeLoop rndValue entries =
        ((entries.find? fun entry => rndValue ≤ entry.1).map fun entry =>
          entry.2.toNat).getD 0 := by
    intro entries hnonneg htotal
    induction entries with
    | nil =>
      obtain ⟨_, hmem, -⟩ := htotal
      cases hmem
    | cons entry rest ih =>
      obtain ⟨hent, hrest⟩ := List.forall_mem_cons.mp hnonneg
      obtain ⟨top, hmem, htop⟩ := htotal
      refine sizeLoop_cons entry rest hent ?_
      rcases List.mem_cons.mp hmem with rfl | hbehind
      · exact .inr (htop ▸ hrnd)
      · exact .inl (ih hrest ⟨top, hbehind, htop⟩)
  exact hall _ msgSizeCDF.nonneg msgSizeCDF.total

theorem getNextMsgSizeFromDist_eq (app : MsgGeneratorApp) (cfg : Config) (hrnd : rndValue ≤ 1) :
    app.getNextMsgSizeFromDist cfg rndValue =
      some (uint32 (app.payloadSize cfg * app.packets rndValue)) := by
  have hpkts : (min 0xffff (app.msgSizeCDF.quantile rndValue : Int)).toNat =
      app.packets rndValue := by
    rw [packets]
    omega
  rw [getNextMsgSizeFromDist, sizeLoop_eq _ hrnd, payloadSize]
  simp only [ge_iff_le, Int.natCast_nonneg, if_true, hpkts]
  split <;> rfl

theorem length_fragments_le_iff (cfg : Config) (msgSizeBytes : Nat) :
    (fragments cfg (message msgSizeBytes)).length ≤ 0xffff ↔
      msgSizeBytes ≤ 0xffff * cfg.maxPayloadSize := by
  have hmax := cfg.maxPayloadSize_pos
  rw [length_fragments, message, List.length_replicate, numPackets, ← Nat.lt_succ_iff,
    Nat.div_lt_iff_lt_mul hmax]
  omega

/-- The size is the exact product, cut by the transport into at most `0xffff` packets. -/
def FitsProtocol (app : MsgGeneratorApp) (cfg : Config) (rndValue : ℚ) : Prop :=
  ∃ msgSizeBytes, app.getNextMsgSizeFromDist cfg rndValue = some msgSizeBytes ∧
    msgSizeBytes = app.payloadSize cfg * app.packets rndValue ∧
    (fragments cfg (message msgSizeBytes)).length ≤ 0xffff

theorem fitsProtocol_iff_le (app : MsgGeneratorApp) (cfg : Config) (hrnd : rndValue ≤ 1) :
    app.FitsProtocol cfg rndValue ↔
      app.payloadSize cfg * app.packets rndValue ≤ 0xffff * cfg.maxPayloadSize := by
  constructor
  · rintro ⟨_, -, rfl, hfits⟩
    exact (length_fragments_le_iff _ _).mp hfits
  · intro hle
    have hmtu := cfg.mtu_lt
    have hmax : cfg.maxPayloadSize ≤ cfg.mtu := le_trans (Nat.sub_le _ _) (Nat.sub_le _ _)
    refine ⟨_, ?_, rfl, (length_fragments_le_iff _ _).mpr hle⟩
    rw [getNextMsgSizeFromDist_eq app cfg hrnd, uint32_of_lt (by omega)]

/-- A message fits exactly if the packets of the application are no larger than those of the
transport, or few enough are drawn. -/
theorem fitsProtocol_iff (app : MsgGeneratorApp) (cfg : Config) (rndValue : ℚ)
    (hrnd : rndValue ≤ 1) :
    app.FitsProtocol cfg rndValue ↔
      app.payloadSize cfg ≤ cfg.maxPayloadSize ∨
        app.payloadSize cfg * app.msgSizeCDF.quantile rndValue ≤ 0xffff * cfg.maxPayloadSize := by
  rw [fitsProtocol_iff_le app cfg hrnd, packets]
  generalize app.msgSizeCDF.quantile rndValue = drawn
  constructor
  · intro hle
    rcases Nat.le_total drawn 0xffff with hfew | hmany
    · exact .inr (by rwa [Nat.min_eq_right hfew] at hle)
    · rw [Nat.min_eq_left hmany, Nat.mul_comm] at hle
      exact .inl (Nat.le_of_mul_le_mul_left hle (by decide))
  · rintro (hsmall | hle)
    · rw [Nat.mul_comm]
      exact Nat.mul_le_mul (Nat.min_le_left _ _) hsmall
    · exact Nat.le_trans (Nat.mul_le_mul_left _ (Nat.min_le_right _ _)) hle

def MsgSizeCDF.only (packets : Nat) (hpackets : packets < 2 ^ 31) : MsgSizeCDF where
  entries := [(1, packets)]
  sorted := List.pairwise_singleton _ _
  nonneg := List.forall_mem_singleton.mpr (Int.natCast_nonneg _)
  int := List.forall_mem_singleton.mpr (by omega)
  total := ⟨_, List.mem_cons_self, rfl⟩

def largest (maxPayloadSize : Nat) (hword : maxPayloadSize < 2 ^ 32) : MsgGeneratorApp where
  msgSizeCDF := MsgSizeCDF.only 65535 (by decide)
  maxPayloadSize := maxPayloadSize
  maxPayloadSize_lt := hword

theorem fitsProtocol_iff_default :
    (largest 1400 (by decide)).FitsProtocol (Config.defaults 1500 (by decide) (by decide)) 0 :=
  (fitsProtocol_iff _ _ _ zero_le_one).mpr (.inl (by decide))

/-- Without a payload size, 65535 packets of 1500 bytes are more than 65535 times the 1459 bytes
that a packet carries. -/
theorem mtu_sized_message_too_large :
    ¬ ∀ (app : MsgGeneratorApp) (cfg : Config) (rndValue : ℚ),
      0 ≤ rndValue → rndValue ≤ 1 → app.FitsProtocol cfg rndValue := by
  intro hall
  have hle := (fitsProtocol_iff_le _ _ zero_le_one).mp
    (hall (largest 0 (by decide)) (Config.defaults 1500 (by decide) (by decide)) 0 Rat.le_refl
      zero_le_one)
  have hdrawn : (largest 0 (by decide)).packets 0 = 65535 := by
    simp [packets, largest, MsgSizeCDF.only, MsgSizeCDF.quantile]
  rw [hdrawn] at hle
  exact absurd hle (by decide)

end MsgGeneratorApp

end HomaSird.Applications
