import HomaSird.Homa.Header
import Mathlib.Data.Rat.Floor

/-! # SIRD state of a receiver

The `m_sird…` members of `HomaRecvScheduler`: the credits in use and the two congestion loops that
bound the budget of each sender. `double` budgets and alphas are exact rationals. Counters for
traces are left out.
-/

namespace HomaSird.Homa

structure SirdState where
  senderBudgetNetPkts : UnorderedMap Ipv4Address ℚ
  senderBudgetHostPkts : UnorderedMap Ipv4Address ℚ
  senderNetAlpha : UnorderedMap Ipv4Address ℚ
  senderHostAlpha : UnorderedMap Ipv4Address ℚ
  senderCreditsInUsePkts : UnorderedMap Ipv4Address Nat
  senderCsnState : UnorderedMap Ipv4Address Bool
  senderCeState : UnorderedMap Ipv4Address Bool
  senderEpochDataPkts : UnorderedMap Ipv4Address Nat
  senderEpochCeMarks : UnorderedMap Ipv4Address Nat
  senderEpochCsnMarks : UnorderedMap Ipv4Address Nat
  globalCreditsInUsePkts : Nat
  ceRatioEwma : ℚ

namespace SirdState

def initial : SirdState where
  senderBudgetNetPkts := ∅
  senderBudgetHostPkts := ∅
  senderNetAlpha := ∅
  senderHostAlpha := ∅
  senderCreditsInUsePkts := ∅
  senderCsnState := ∅
  senderCeState := ∅
  senderEpochDataPkts := ∅
  senderEpochCeMarks := ∅
  senderEpochCsnMarks := ∅
  globalCreditsInUsePkts := 0
  ceRatioEwma := 0

def initEntry {Value : Type} (map : UnorderedMap Ipv4Address Value) (senderKey : Ipv4Address)
    (value : Value) : UnorderedMap Ipv4Address Value :=
  match map.lookup senderKey with
  | none => map.insert senderKey value
  | some _ => map

def initSender (cfg : Config) (sird : SirdState) (senderKey : Ipv4Address) : SirdState :=
  { sird with
    senderBudgetNetPkts := initEntry sird.senderBudgetNetPkts senderKey cfg.baseBudgetPkts
    senderBudgetHostPkts := initEntry sird.senderBudgetHostPkts senderKey cfg.baseBudgetPkts
    senderNetAlpha := initEntry sird.senderNetAlpha senderKey 0
    senderHostAlpha := initEntry sird.senderHostAlpha senderKey 0 }

def bump (map : UnorderedMap Ipv4Address Nat) (senderKey : Ipv4Address) (flag : Bool) :
    UnorderedMap Ipv4Address Nat :=
  if flag then map.insert senderKey (map.getD senderKey 0 + 1) else map

def observe (cfg : Config) (sird : SirdState) (senderKey : Ipv4Address)
    (ceMarked senderCsn : Bool) : SirdState :=
  let sampleCeRatio : ℚ := if ceMarked then 1 else 0
  let alpha := cfg.sirdEcnAlphaGain
  { sird with
    senderCsnState := sird.senderCsnState.insert senderKey senderCsn
    senderCeState := sird.senderCeState.insert senderKey ceMarked
    senderEpochDataPkts := bump sird.senderEpochDataPkts senderKey true
    senderEpochCeMarks := bump sird.senderEpochCeMarks senderKey ceMarked
    senderEpochCsnMarks := bump sird.senderEpochCsnMarks senderKey senderCsn
    ceRatioEwma := (1 - alpha) * sird.ceRatioEwma + alpha * sampleCeRatio }

def creditsInUse (sird : SirdState) (senderKey : Ipv4Address) : Nat :=
  sird.senderCreditsInUsePkts.getD senderKey 0

/-- Reclaim one credit when a payload arrives from a sender with some in use, whatever packet it
is. -/
def reclaim (sird : SirdState) (senderKey : Ipv4Address) : SirdState :=
  if 0 < sird.creditsInUse senderKey then
    { sird with
      senderCreditsInUsePkts :=
        sird.senderCreditsInUsePkts.insert senderKey (sird.creditsInUse senderKey - 1)
      globalCreditsInUsePkts :=
        if 0 < sird.globalCreditsInUsePkts then sird.globalCreditsInUsePkts - 1
        else sird.globalCreditsInUsePkts }
  else sird

/-- `clampBudget`. -/
def clampBudget (cfg : Config) (budget : ℚ) : ℚ := max 1 (min cfg.baseBudgetPkts budget)

/-- One loop over an ended epoch: the smoothed fraction of marks, and the budget decreased or
increased. -/
def loop (cfg : Config) (alpha budget : ℚ) (marks epochDataPkts : Nat) : ℚ × ℚ :=
  let gain := cfg.sirdEcnAlphaGain
  let nextAlpha := (1 - gain) * alpha + gain * (marks / epochDataPkts)
  (nextAlpha, clampBudget cfg (if 0 < marks then budget * (1 - nextAlpha / 2) else budget + 1))

/-- Run both loops once the sender's epoch has as many packets as a BDP. -/
def endEpoch (cfg : Config) (sird : SirdState) (senderKey : Ipv4Address) : SirdState :=
  let epochDataPkts := sird.senderEpochDataPkts.getD senderKey 0
  if cfg.baseBudgetPkts ≤ epochDataPkts then
    let net := loop cfg (sird.senderNetAlpha.getD senderKey 0)
      (sird.senderBudgetNetPkts.getD senderKey 0) (sird.senderEpochCeMarks.getD senderKey 0)
      epochDataPkts
    let host := loop cfg (sird.senderHostAlpha.getD senderKey 0)
      (sird.senderBudgetHostPkts.getD senderKey 0) (sird.senderEpochCsnMarks.getD senderKey 0)
      epochDataPkts
    { sird with
      senderNetAlpha := sird.senderNetAlpha.insert senderKey net.1
      senderHostAlpha := sird.senderHostAlpha.insert senderKey host.1
      senderBudgetNetPkts := sird.senderBudgetNetPkts.insert senderKey net.2
      senderBudgetHostPkts := sird.senderBudgetHostPkts.insert senderKey host.2
      senderEpochDataPkts := sird.senderEpochDataPkts.insert senderKey 0
      senderEpochCeMarks := sird.senderEpochCeMarks.insert senderKey 0
      senderEpochCsnMarks := sird.senderEpochCsnMarks.insert senderKey 0 }
  else sird

/-- What `ReceivePacket` does with DATA when SIRD is enabled, before its message gets it. -/
def receiveData (cfg : Config) (sird : SirdState) (packet : Packet) : SirdState :=
  let senderKey := packet.ipv4Header.source
  let ceMarked := decide (packet.ipv4Header.ecn = .ce)
  let observed := (sird.initSender cfg senderKey).observe cfg senderKey ceMarked
    packet.homaHeader.hasCsn
  let reclaimed := if packet.payload.isEmpty then observed else observed.reclaim senderKey
  reclaimed.endEpoch cfg senderKey

/-- The budget of a sender in packets: the smaller of its loops' budgets, at least one, rounded
down. -/
def senderBudgetPkts (cfg : Config) (sird : SirdState) (senderKey : Ipv4Address) : Nat :=
  let netBudget := sird.senderBudgetNetPkts.getD senderKey cfg.baseBudgetPkts
  let hostBudget := sird.senderBudgetHostPkts.getD senderKey cfg.baseBudgetPkts
  (max 1 (min netBudget hostBudget)).floor.toNat

/-- Both the sender's and the receiver's bucket have a credit left. -/
def hasCredit (cfg : Config) (sird : SirdState) (senderKey : Ipv4Address) : Bool :=
  decide (sird.creditsInUse senderKey < sird.senderBudgetPkts cfg senderKey) &&
    decide (sird.globalCreditsInUsePkts < cfg.globalBudgetPkts)

/-- The entry that `SendAppropriateGrants` makes for a sender without one. -/
def openAccount (sird : SirdState) (senderKey : Ipv4Address) : SirdState :=
  { sird with senderCreditsInUsePkts := initEntry sird.senderCreditsInUsePkts senderKey 0 }

def charge (sird : SirdState) (senderKey : Ipv4Address) : SirdState :=
  { sird with
    senderCreditsInUsePkts :=
      sird.senderCreditsInUsePkts.insert senderKey (sird.creditsInUse senderKey + 1)
    globalCreditsInUsePkts := sird.globalCreditsInUsePkts + 1 }

end SirdState

end HomaSird.Homa
