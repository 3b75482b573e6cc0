import HomaSird.Data.DoubleRounding
import HomaSird.Data.Word

/-! # Proportional rate reduction

`DoRecovery` computes how much may be sent in words of 32 bits, where the rule it follows is one
over the integers. The runs are the recovery episodes.
-/

namespace HomaSird.Tcp

/-- The part of the socket's state that a recovery reads and writes. -/
structure TcpSocketState where
  bytesInFlight : Nat
  ssThresh : Nat
  segmentSize : Nat
  isRetransDataAcked : Bool
  cWnd : Nat := 0
  cWndInfl : Nat := 0
deriving DecidableEq

inductive ReductionBound where
  | CRB
  | SSRB
deriving DecidableEq

structure TcpPrrRecovery where
  prrDelivered : Nat := 0
  prrOut : Nat := 0
  recoveryFlightSize : Nat := 0
  reductionBoundMode : ReductionBound := .SSRB
deriving DecidableEq

namespace TcpPrrRecovery

variable (self : TcpPrrRecovery) (tcb : TcpSocketState)

/-- `sendCount` above the threshold: a product of words, a `double` quotient, and a conversion to
`int` that is undefined if it does not fit. -/
def proportional : Option Int :=
  let value := ⌈Double.round ((uint32 (self.prrDelivered * tcb.ssThresh) : Nat) /
    self.recoveryFlightSize)⌉ - self.prrOut
  if InInt32 value then some value else none

/-- `sendCount` up to the threshold. -/
def bounded (deliveredBytes : Nat) : Int :=
  let limit := match self.reductionBoundMode with
    | .CRB => int32 (uint32OfInt (self.prrDelivered - self.prrOut))
    | .SSRB => if tcb.isRetransDataAcked then int32 (uint32 (max (uint32OfInt
        (self.prrDelivered - self.prrOut)) deliveredBytes + tcb.segmentSize))
      else int32 deliveredBytes
  min limit (int32 (uint32OfInt (tcb.ssThresh - tcb.bytesInFlight)))

def sendCount (deliveredBytes : Nat) : Option Int :=
  if tcb.ssThresh < tcb.bytesInFlight then self.proportional tcb
  else some (self.bounded tcb deliveredBytes)

def doRecovery (deliveredBytes : Nat) : Option (TcpPrrRecovery × TcpSocketState) :=
  let self := { self with prrDelivered := uint32 (self.prrDelivered + deliveredBytes) }
  (self.sendCount tcb deliveredBytes).map fun sendCount =>
    let sendCount := max sendCount (int32 (if 0 < self.prrOut then 0 else tcb.segmentSize : Nat))
    let cWnd := uint32OfInt (tcb.bytesInFlight + sendCount)
    (self, { tcb with cWnd := cWnd, cWndInfl := cWnd })

/-- `EnterRecovery`, up to its call of `DoRecovery` -/
def reset (unAckDataCount : Nat) : TcpPrrRecovery :=
  { self with prrOut := 0, prrDelivered := 0, recoveryFlightSize := unAckDataCount }

def enterRecovery (unAckDataCount deliveredBytes : Nat) :
    Option (TcpPrrRecovery × TcpSocketState) :=
  (self.reset unAckDataCount).doRecovery tcb deliveredBytes

def updateBytesSent (bytesSent : Nat) : TcpPrrRecovery :=
  { self with prrOut := uint32 (self.prrOut + bytesSent) }

end TcpPrrRecovery

/-! ## The rule over the integers -/

section Rule

variable (mode : ReductionBound) (delivered sent flightSize : Nat) (tcb : TcpSocketState)
  (deliveredBytes : Nat)

def leastSend : Nat := if 0 < sent then 0 else tcb.segmentSize

def rfcSend : Int :=
  if tcb.ssThresh < tcb.bytesInFlight then
    ⌈((delivered * tcb.ssThresh : Nat) : Rat) / flightSize⌉ - sent
  else
    let limit : Int := match mode with
      | .CRB => delivered - sent
      | .SSRB => if tcb.isRetransDataAcked then
          max ((delivered : Int) - sent) deliveredBytes + tcb.segmentSize
        else deliveredBytes
    min limit (tcb.ssThresh - tcb.bytesInFlight)

def rfcWindow : Int :=
  tcb.bytesInFlight + max (rfcSend mode delivered sent flightSize tcb deliveredBytes)
    (leastSend sent tcb)

/-- Sums of sizes are below `2 ^ 31`. -/
structure Within : Prop where
  delivered : delivered + tcb.segmentSize < 2 ^ 31
  window : tcb.bytesInFlight + tcb.segmentSize < 2 ^ 31
  threshold : tcb.ssThresh < 2 ^ 31

/-- Above the threshold the product is a word, or only the least amount may be sent; up to it no
more is sent than delivered where the two are compared, or that makes no difference. -/
def Exact : Prop :=
  sent < 2 ^ 31 ∧
    if tcb.ssThresh < tcb.bytesInFlight then
      delivered * tcb.ssThresh ≤ (sent + leastSend sent tcb) * flightSize ∨
        delivered * tcb.ssThresh < 2 ^ 32 ∧
          delivered * tcb.ssThresh ≤ (2 ^ 31 - 1 + sent) * flightSize
    else mode = .SSRB → tcb.isRetransDataAcked = true → sent ≤ delivered ∨
      tcb.ssThresh ≤ tcb.bytesInFlight + (delivered + tcb.segmentSize - sent) ∨
        deliveredBytes + tcb.segmentSize = 0

end Rule

/-! ## One acknowledgement -/

theorem int32_uint32OfInt {value : Int}
    (hval : InInt32 value) : int32 (uint32OfInt value) = value := by
  have hadd := int32_uint32OfInt_add value 0
  rw [Int.add_zero, Int.add_zero] at hadd
  rw [hadd, int32_of_inInt32 hval]

section Step

variable {mode : ReductionBound} {delivered sent flightSize : Nat} {tcb : TcpSocketState}
  {deliveredBytes : Nat} {send : Int}

theorem ceil_div_le {product : Nat} (hflight : 0 < flightSize) {bound : Int} :
    ⌈(product : Rat) / flightSize⌉ ≤ bound ↔ (product : Int) ≤ bound * flightSize := by
  rw [Int.ceil_le, div_le_iff₀ (Nat.cast_pos.mpr hflight)]
  norm_cast

/-- A product that is not a word has a greater quotient than the word it is kept as. -/
theorem ceil_uint32_div {product : Nat} (hflight : 0 < flightSize) (hword : flightSize < 2 ^ 32) :
    0 ≤ ⌈(uint32 product : Rat) / flightSize⌉ ∧
      ⌈(uint32 product : Rat) / flightSize⌉ ≤ ⌈(product : Rat) / flightSize⌉ ∧
      (⌈(uint32 product : Rat) / flightSize⌉ = ⌈(product : Rat) / flightSize⌉ ↔
        product < 2 ^ 32) := by
  have hnonneg : (0 : Rat) ≤ (uint32 product : Rat) / flightSize := by positivity
  have hle : ⌈(uint32 product : Rat) / flightSize⌉ ≤ ⌈(product : Rat) / flightSize⌉ := by
    refine Int.ceil_le_ceil (div_le_div_of_nonneg_right ?_ (Nat.cast_nonneg _))
    exact_mod_cast Nat.mod_le _ _
  refine ⟨Int.ceil_nonneg hnonneg, hle, fun hsame => ?_, fun hproduct => ?_⟩
  · by_contra hlarge
    have habove := (@ceil_div_le flightSize product hflight _).mp le_rfl
    have hbelow : ⌈(uint32 product : Rat) / flightSize⌉ ≤ ⌈(product : Rat) / flightSize⌉ - 1 := by
      rw [ceil_div_le hflight, Int.sub_mul]
      unfold uint32
      omega
    omega
  · rw [uint32_of_lt hproduct]

theorem leastSend_le : leastSend sent tcb ≤ tcb.segmentSize := by
  unfold leastSend
  split <;> omega

theorem inInt32_int32 (value : Int) : InInt32 (int32 value) := by
  unfold int32 InInt32
  omega

theorem inInt32_sendCount {self : TcpPrrRecovery}
    (hsend : self.sendCount tcb deliveredBytes = some send) : InInt32 send := by
  unfold TcpPrrRecovery.sendCount at hsend
  split at hsend
  · unfold TcpPrrRecovery.proportional at hsend
    dsimp only at hsend
    split at hsend
    next hfits =>
      rw [← Option.some.inj hsend]
      exact hfits
    next => exact absurd hsend (by simp)
  · rw [← Option.some.inj hsend, TcpPrrRecovery.bounded]
    rcases min_choice _ (int32 (uint32OfInt (tcb.ssThresh - tcb.bytesInFlight))) with
      hlim | hroom
    · rw [hlim]
      split
      · exact inInt32_int32 _
      split
      · exact inInt32_int32 _
      · exact inInt32_int32 _
    · rw [hroom]
      exact inInt32_int32 _

theorem window_eq (hwithin : Within delivered tcb) (hsend : InInt32 send) :
    (uint32OfInt (tcb.bytesInFlight + max send (int32 (leastSend sent tcb))) : Int) =
      tcb.bytesInFlight + max send (leastSend sent tcb) := by
  have hleast := @leastSend_le sent tcb
  obtain ⟨-, hwin, -⟩ := hwithin
  rw [int32_of_inInt32 ⟨by omega, by omega⟩]
  obtain ⟨hlow, hhigh⟩ := hsend
  unfold uint32OfInt
  omega

variable (mode delivered sent flightSize tcb deliveredBytes) in
/-- At least what must be sent, as many bytes are sent as the rule says. -/
def SendsRfc : Prop :=
  ∃ send, TcpPrrRecovery.sendCount ⟨delivered, sent, flightSize, mode⟩ tcb deliveredBytes =
    some send ∧ max send (leastSend sent tcb) =
      max (rfcSend mode delivered sent flightSize tcb deliveredBytes) (leastSend sent tcb)

theorem sendCount_above (hwithin : Within delivered tcb) (hsent : sent < 2 ^ 31)
    (hflight : 0 < flightSize) (hword : flightSize < 2 ^ 32)
    (habove : tcb.ssThresh < tcb.bytesInFlight) :
    SendsRfc mode delivered sent flightSize tcb deliveredBytes ↔
      Exact mode delivered sent flightSize tcb deliveredBytes := by
  have hleast := @leastSend_le sent tcb
  obtain ⟨-, hwin, -⟩ := hwithin
  simp only [SendsRfc, TcpPrrRecovery.sendCount, TcpPrrRecovery.proportional, rfcSend, Exact,
    if_pos habove, hsent, true_and]
  generalize delivered * tcb.ssThresh = product
  have hsmall : uint32 product < 2 ^ 53 := lt_trans (Nat.mod_lt _ (by decide)) (by decide)
  rw [Double.ceil_round_div hsmall hflight]
  obtain ⟨hnonneg, hle, hsame⟩ := @ceil_uint32_div flightSize product hflight hword
  have hleastIff := @ceil_div_le flightSize product hflight (sent + leastSend sent tcb : Nat)
  have hmostIff := @ceil_div_le flightSize product hflight (2 ^ 31 - 1 + sent : Nat)
  rw [← Nat.cast_mul, Nat.cast_le] at hleastIff hmostIff
  rw [← hleastIff, ← hmostIff]
  generalize ⌈(uint32 product : Rat) / flightSize⌉ = word at *
  generalize ⌈(product : Rat) / flightSize⌉ = whole at *
  constructor
  · rintro ⟨send, hsend, hmax⟩
    split at hsend
    next hfits =>
      obtain ⟨-, hhigh⟩ := hfits
      rw [← Option.some.inj hsend] at hmax
      omega
    next => exact absurd hsend (by simp)
  · intro hexact
    have hfits : InInt32 (word - sent) := ⟨by omega, by omega⟩
    exact ⟨word - sent, if_pos hfits, by omega⟩

/-- Up to the threshold a difference that is negative makes the greatest word. -/
theorem sendCount_upTo (hwithin : Within delivered tcb) (hsent : sent < 2 ^ 31)
    (hbytes : deliveredBytes ≤ delivered) (hupTo : ¬ tcb.ssThresh < tcb.bytesInFlight) :
    SendsRfc mode delivered sent flightSize tcb deliveredBytes ↔
    Exact mode delivered sent flightSize tcb deliveredBytes := by
  obtain ⟨hdelivered, -, hthreshold⟩ := hwithin
  simp only [SendsRfc, TcpPrrRecovery.sendCount, TcpPrrRecovery.bounded, rfcSend, Exact,
    if_neg hupTo, hsent, true_and, Option.some.injEq, exists_eq_left']
  rw [@int32_uint32OfInt (tcb.ssThresh - tcb.bytesInFlight) ⟨by omega, by omega⟩]
  cases mode with
  | CRB =>
    simp only [reduceCtorEq, false_implies, iff_true]
    rw [int32_uint32OfInt ⟨by omega, by omega⟩]
  | SSRB =>
    cases tcb.isRetransDataAcked with
    | false =>
      simp only [Bool.false_eq_true, if_false, false_implies, implies_true, iff_true]
      rw [int32_of_inInt32 ⟨by omega, by omega⟩]
    | true =>
      simp only [if_true, true_implies]
      by_cases hless : sent ≤ delivered
      · have hlim : int32 (uint32 (max (uint32OfInt ((delivered : Int) - sent)) deliveredBytes +
            tcb.segmentSize) : Nat) =
            max ((delivered : Int) - sent) deliveredBytes + tcb.segmentSize := by
          unfold int32 uint32 uint32OfInt
          omega
        simp only [hlim, hless, true_or]
      · -- the word is at least `2 ^ 31`, and the segment may carry the sum back over zero
        have hlim : int32 (uint32 (max (uint32OfInt ((delivered : Int) - sent)) deliveredBytes +
            tcb.segmentSize) : Nat) = (delivered : Int) - sent + tcb.segmentSize := by
          unfold int32 uint32 uint32OfInt
          omega
        have hleast : leastSend sent tcb = 0 := if_pos (by omega)
        rw [hlim, hleast]
        omega

theorem doRecovery_iff {before : Nat} (hwithin : Within (before + deliveredBytes) tcb)
    (hsent : sent < 2 ^ 31) (hflight : 0 < flightSize) (hword : flightSize < 2 ^ 32) :
    (∃ next,
      TcpPrrRecovery.doRecovery ⟨uint32 before, sent, flightSize, mode⟩ tcb deliveredBytes =
        some next ∧
        (next.2.cWnd : Int) =
          rfcWindow mode (before + deliveredBytes) sent flightSize tcb deliveredBytes) ↔
      Exact mode (before + deliveredBytes) sent flightSize tcb deliveredBytes := by
  have hdelivered : uint32 (uint32 before + deliveredBytes) = before + deliveredBytes := by
    have hsum := hwithin.delivered
    rw [uint32_add, uint32_of_lt (by omega)]
  have hbranch : SendsRfc mode (before + deliveredBytes) sent flightSize tcb deliveredBytes ↔
      Exact mode (before + deliveredBytes) sent flightSize tcb deliveredBytes := by
    by_cases habove : tcb.ssThresh < tcb.bytesInFlight
    · exact sendCount_above hwithin hsent hflight hword habove
    · exact sendCount_upTo hwithin hsent (Nat.le_add_left _ _) habove
  rw [← hbranch, SendsRfc]
  simp only [TcpPrrRecovery.doRecovery, hdelivered, Option.map_eq_some_iff, rfcWindow,
    ← leastSend.eq_1]
  constructor
  · rintro ⟨next, ⟨send, hsend, hnext⟩, hwin⟩
    have hcWnd := @window_eq _ sent _ _ hwithin (inInt32_sendCount hsend)
    rw [← hnext] at hwin
    dsimp only at hwin
    exact ⟨send, hsend, by omega⟩
  · rintro ⟨send, hsend, hmax⟩
    refine ⟨_, ⟨send, hsend, rfl⟩, ?_⟩
    dsimp only
    rw [window_eq hwithin (inInt32_sendCount hsend), hmax]

theorem doRecovery_next {self : TcpPrrRecovery} {next : TcpPrrRecovery × TcpSocketState}
    (hnext : self.doRecovery tcb deliveredBytes = some next) :
    next.1 = { self with prrDelivered := uint32 (self.prrDelivered + deliveredBytes) } := by
  obtain ⟨send, -, rfl⟩ := Option.map_eq_some_iff.mp hnext
  rfl

end Step

/-! ## Episodes -/

/-- `EnterRecovery` is the reset and the first of the calls. -/
inductive RecoveryCall
  | doRecovery (tcb : TcpSocketState) (deliveredBytes : Nat)
  | updateBytesSent (bytesSent : Nat)

/-- Every call sets the window of the rule, for what has been delivered and sent in fact. -/
def Follows (flightSize : Nat) : TcpPrrRecovery → Nat → Nat → List RecoveryCall → Prop
  | _, _, _, [] => True
  | self, delivered, sent, .doRecovery tcb deliveredBytes :: calls =>
    ∃ next, self.doRecovery tcb deliveredBytes = some next ∧
      (next.2.cWnd : Int) = rfcWindow self.reductionBoundMode (delivered + deliveredBytes) sent
        flightSize tcb deliveredBytes ∧
      Follows flightSize next.1 (delivered + deliveredBytes) sent calls
  | self, delivered, sent, .updateBytesSent bytesSent :: calls =>
    Follows flightSize (self.updateBytesSent bytesSent) delivered (sent + bytesSent) calls

def Always (holds : Nat → Nat → TcpSocketState → Nat → Prop) :
    Nat → Nat → List RecoveryCall → Prop
  | _, _, [] => True
  | delivered, sent, .doRecovery tcb deliveredBytes :: calls =>
    holds (delivered + deliveredBytes) sent tcb deliveredBytes ∧
      Always holds (delivered + deliveredBytes) sent calls
  | delivered, sent, .updateBytesSent bytesSent :: calls =>
    Always holds delivered (sent + bytesSent) calls

def AllWithin : List RecoveryCall → Prop :=
  Always (fun delivered _ tcb _ => Within delivered tcb) 0 0

def FewSent : List RecoveryCall → Prop := Always (fun _ sent _ _ => sent < 2 ^ 31) 0 0

theorem follows_iff {mode : ReductionBound} {flightSize : Nat} (hflight : 0 < flightSize)
    (hword : flightSize < 2 ^ 32) (calls : List RecoveryCall) (delivered sent : Nat)
    (hwithin : Always (fun delivered _ tcb _ => Within delivered tcb) delivered sent calls) :
    Follows flightSize ⟨uint32 delivered, uint32 sent, flightSize, mode⟩ delivered sent calls ∧
    Always (fun _ sent _ _ => sent < 2 ^ 31) delivered sent calls ↔
    Always (fun delivered sent => Exact mode delivered sent flightSize) delivered sent calls := by
  induction calls generalizing delivered sent with
  | nil => simp [Follows, Always]
  | cons call calls ih =>
    cases call with
    | doRecovery tcb deliveredBytes =>
      obtain ⟨hfst, hrest⟩ := hwithin
      have ih := ih (delivered + deliveredBytes) sent hrest
      simp only [Follows, Always]
      constructor
      · rintro ⟨⟨next, hnext, hwin, hfollows⟩, hsent, hfew⟩
        rw [doRecovery_next hnext, uint32_add] at hfollows
        rw [uint32_of_lt (lt_trans hsent (by decide))] at hnext
        exact ⟨(doRecovery_iff hfst hsent hflight hword).mp ⟨next, hnext, hwin⟩,
          ih.mp ⟨hfollows, hfew⟩⟩
      · rintro ⟨hexact, hlater⟩
        obtain ⟨hfollows, hfew⟩ := ih.mpr hlater
        obtain ⟨next, hnext, hwin⟩ := (doRecovery_iff hfst hexact.1 hflight hword).mpr hexact
        rw [← uint32_of_lt (lt_trans hexact.1 (by decide))] at hnext
        refine ⟨⟨next, hnext, hwin, ?_⟩, hexact.1, hfew⟩
        rw [doRecovery_next hnext, uint32_add]
        exact hfollows
    | updateBytesSent bytesSent =>
      have ih := ih delivered (sent + bytesSent) hwithin
      simp only [Follows, Always, TcpPrrRecovery.updateBytesSent, uint32_add]
      exact ih

/-- An episode of less than `2 ^ 31` bytes follows the rule exactly if each of its calls is exact.
-/
theorem episode_follows_iff (self : TcpPrrRecovery) {flightSize : Nat} (hflight : 0 < flightSize)
    (hword : flightSize < 2 ^ 32) (tcb : TcpSocketState) (deliveredBytes : Nat)
    (calls : List RecoveryCall) (hwithin : AllWithin (.doRecovery tcb deliveredBytes :: calls)) :
    Follows flightSize (self.reset flightSize) 0 0 (.doRecovery tcb deliveredBytes :: calls) ∧
      FewSent (.doRecovery tcb deliveredBytes :: calls) ↔
      Always (fun delivered sent => Exact self.reductionBoundMode delivered sent flightSize) 0 0
        (.doRecovery tcb deliveredBytes :: calls) :=
  follows_iff hflight hword _ 0 0 hwithin

def halved : List RecoveryCall :=
  [.doRecovery ⟨7000, 4000, 1000, false, 0, 0⟩ 1000, .updateBytesSent 1000,
    .doRecovery ⟨3000, 4000, 1000, true, 0, 0⟩ 3000]

theorem episode_follows_halved :
    Follows 8000 (TcpPrrRecovery.reset {} 8000) 0 0 halved ∧ FewSent halved := by
  refine (episode_follows_iff {} (by decide) (by decide) _ _ _ ?_).mpr ?_
  · exact ⟨⟨by decide, by decide, by decide⟩, ⟨by decide, by decide, by decide⟩, trivial⟩
  · exact ⟨⟨by decide, .inr (by decide)⟩, ⟨by decide, fun _ _ => .inl (by decide)⟩, trivial⟩

def wrapped : TcpSocketState := ⟨100000, 65536, 1000, false, 0, 0⟩

theorem not_follows_wrapped :
    AllWithin [.doRecovery wrapped 65536] ∧
      ¬ Follows 200000 (TcpPrrRecovery.reset {} 200000) 0 0 [.doRecovery wrapped 65536] := by
  refine ⟨⟨⟨by decide, by decide, by decide⟩, trivial⟩, ?_⟩
  rintro ⟨next, hnext, hwin, -⟩
  have hexact := (@doRecovery_iff _ _ _ _ _ 0 ⟨by decide, by decide, by decide⟩ (by decide)
    (by decide) (by decide)).mp ⟨next, hnext, hwin⟩
  simp [Exact, wrapped, leastSend] at hexact

end HomaSird.Tcp
