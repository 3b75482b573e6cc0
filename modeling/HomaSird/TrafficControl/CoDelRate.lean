import HomaSird.Data.InverseRoot
import HomaSird.TrafficControl.CoDelService

/-! # The drop rate of a CoDel queue disc

`m_recInvSqrt` follows the inverse square root of `m_count` by one step of Newton's iteration for
each drop. It is carried over from one dropping episode to the next, and the count wraps, but it
never gets so far above the root that a step would subtract too much.
-/

namespace HomaSird.TrafficControl.CoDelQueueDisc

open CoDelQueueDisc List

/-- The square that `NewtonStep` multiplies with the count. -/
def invsqrt2 (recInvSqrt : Nat) : Nat :=
  let invsqrt := uint32 (recInvSqrt <<< REC_INV_SQRT_SHIFT)
  uint32 (uint64 (invsqrt * invsqrt) >>> 32)

/-- The subtraction of `NewtonStep` does not wrap. -/
def SubtractsWithin (recInvSqrt count : Nat) : Prop :=
  uint64 (count * invsqrt2 recInvSqrt) ≤ 3 <<< 32

instance (recInvSqrt count : Nat) : Decidable (SubtractsWithin recInvSqrt count) :=
  inferInstanceAs (Decidable (_ ≤ _))

variable {recInvSqrt count lastCount : Nat}

section

variable (hrec : recInvSqrt < 2 ^ 16)
include hrec

theorem invsqrt_eq : uint32 (recInvSqrt <<< REC_INV_SQRT_SHIFT) = recInvSqrt * 2 ^ 16 := by
  rw [Nat.shiftLeft_eq, REC_INV_SQRT_SHIFT]
  exact uint32_of_lt (by omega)

theorem invsqrt2_eq : invsqrt2 recInvSqrt = recInvSqrt ^ 2 := by
  have hsq : recInvSqrt ^ 2 < 2 ^ 32 := by
    calc recInvSqrt ^ 2 < (2 ^ 16) ^ 2 := Nat.pow_lt_pow_left hrec (by decide)
      _ = 2 ^ 32 := by norm_num
  have hprod : recInvSqrt * 2 ^ 16 * (recInvSqrt * 2 ^ 16) = recInvSqrt ^ 2 * 2 ^ 32 := by ring
  rw [invsqrt2, invsqrt_eq hrec, hprod, uint64_of_lt (by omega), Nat.shiftRight_eq_div_pow,
    Nat.mul_div_cancel _ (by decide), uint32_of_lt hsq]

theorem subtractsWithin_of_le (hle : count * recInvSqrt ^ 2 ≤ 3 * 2 ^ 32) :
    SubtractsWithin recInvSqrt count := by
  rw [SubtractsWithin, invsqrt2_eq hrec, uint64_of_lt (by omega), Nat.shiftLeft_eq]
  exact hle

theorem newtonStep_le (hle : count * recInvSqrt ^ 2 ≤ 3 * 2 ^ 32) :
    2 * 2 ^ 32 * newtonStep recInvSqrt count ≤
      recInvSqrt * (3 * 2 ^ 32 - count * recInvSqrt ^ 2) := by
  have hval : newtonStep recInvSqrt count =
      uint16 (uint64 ((uint64OfInt ((3 <<< 32 : Nat) -
        (uint64 (count * invsqrt2 recInvSqrt) : Int)) >>> 2) *
          uint32 (recInvSqrt <<< REC_INV_SQRT_SHIFT)) >>> (32 - 2 + 1) >>> REC_INV_SQRT_SHIFT) :=
    rfl
  have hword : uint64 (count * recInvSqrt ^ 2) = count * recInvSqrt ^ 2 := uint64_of_lt (by omega)
  rw [hval, invsqrt2_eq hrec, invsqrt_eq hrec, hword]
  generalize count * recInvSqrt ^ 2 = square at hle ⊢
  have hdifference : uint64OfInt ((3 <<< 32 : Nat) - (square : Int)) = 3 * 2 ^ 32 - square := by
    rw [uint64OfInt, Nat.shiftLeft_eq]
    omega
  rw [hdifference]
  simp only [Nat.shiftRight_eq_div_pow, REC_INV_SQRT_SHIFT]
  have hprod : (3 * 2 ^ 32 - square) / 2 ^ 2 * (recInvSqrt * 2 ^ 16) < 2 ^ 64 :=
    calc (3 * 2 ^ 32 - square) / 2 ^ 2 * (recInvSqrt * 2 ^ 16)
        ≤ 3 * 2 ^ 30 * (2 ^ 16 * 2 ^ 16) := Nat.mul_le_mul (by omega) (by omega)
      _ < 2 ^ 64 := by norm_num
  rw [uint64_of_lt hprod]
  generalize hquarter : (3 * 2 ^ 32 - square) / 2 ^ 2 = quarter
  have hroot : uint16 (quarter * (recInvSqrt * 2 ^ 16) / 2 ^ 31 / 2 ^ 16) * 2 ^ 31 ≤
      recInvSqrt * quarter := by
    have hword := Nat.mod_le (quarter * (recInvSqrt * 2 ^ 16) / 2 ^ 31 / 2 ^ 16) (2 ^ 16)
    have hreorder : quarter * (recInvSqrt * 2 ^ 16) = recInvSqrt * quarter * 2 ^ 16 := by ring
    rw [hreorder] at hword ⊢
    rw [uint16]
    omega
  calc 2 * 2 ^ 32 * uint16 (quarter * (recInvSqrt * 2 ^ 16) / 2 ^ 31 / 2 ^ 16)
      = uint16 (quarter * (recInvSqrt * 2 ^ 16) / 2 ^ 31 / 2 ^ 16) * 2 ^ 31 * 4 := by ring
    _ ≤ recInvSqrt * quarter * 4 := Nat.mul_le_mul_right 4 hroot
    _ = recInvSqrt * (quarter * 4) := mul_assoc ..
    _ ≤ recInvSqrt * (3 * 2 ^ 32 - square) := Nat.mul_le_mul_left _ (by omega)

end

theorem newtonStep_lt (recInvSqrt count : Nat) : newtonStep recInvSqrt count < 2 ^ 16 :=
  uint16_lt _

structure Paced (state : CoDelState) : Prop where
  word : state.recInvSqrt < 2 ^ 16
  count : state.count < 2 ^ 32
  root : state.lastCount ≤ state.count ∧ state.count * state.recInvSqrt ^ 2 ≤ 2 ^ 32 ∨
    state.recInvSqrt ≤ 1

theorem newtonStep_le_one (hrec : recInvSqrt ≤ 1)
    (hcnt : count < 2 ^ 32) : newtonStep recInvSqrt count ≤ 1 := by
  have hsquare : count * recInvSqrt ^ 2 ≤ 3 * 2 ^ 32 := by
    have hone : recInvSqrt ^ 2 ≤ 1 := Nat.pow_le_one_iff (by decide) |>.mpr hrec
    calc count * recInvSqrt ^ 2 ≤ count * 1 := Nat.mul_le_mul_left count hone
      _ ≤ 3 * 2 ^ 32 := by omega
  have hstep := newtonStep_le (show recInvSqrt < 2 ^ 16 by omega) hsquare
  have hmost : recInvSqrt * (3 * 2 ^ 32 - count * recInvSqrt ^ 2) ≤ 1 * (3 * 2 ^ 32) :=
    Nat.mul_le_mul hrec (Nat.sub_le ..)
  omega

variable {state : CoDelState}

theorem Paced.step (hpaced : Paced state) (hlt : count < 2 ^ 32)
    (hcnt : state.lastCount ≤ state.count → count ≤ state.count + 1) :
    SubtractsWithin state.recInvSqrt count ∧
      (count * newtonStep state.recInvSqrt count ^ 2 ≤ 2 ^ 32 ∨
        newtonStep state.recInvSqrt count ≤ 1) := by
  rcases hpaced.root with ⟨hlast, hroot⟩ | hone
  · have hsq : state.recInvSqrt ^ 2 ≤ 2 ^ 32 := by
      calc state.recInvSqrt ^ 2 ≤ (2 ^ 16) ^ 2 := Nat.pow_le_pow_left hpaced.word.le 2
        _ = 2 ^ 32 := by norm_num
    have hsquare : count * state.recInvSqrt ^ 2 ≤ 3 * 2 ^ 32 :=
      calc count * state.recInvSqrt ^ 2 ≤ (state.count + 1) * state.recInvSqrt ^ 2 :=
            Nat.mul_le_mul_right _ (hcnt hlast)
        _ ≤ 2 * 2 ^ 32 := InverseRoot.succ_le hroot hsq
        _ ≤ 3 * 2 ^ 32 := by norm_num
    exact ⟨subtractsWithin_of_le hpaced.word hsquare, .inl (InverseRoot.step_le (by norm_num)
      hsquare (newtonStep_le hpaced.word hsquare))⟩
  · have hsq : state.recInvSqrt ^ 2 ≤ 1 := Nat.pow_le_one_iff (by decide) |>.mpr hone
    have hsquare : count * state.recInvSqrt ^ 2 ≤ 3 * 2 ^ 32 :=
      calc count * state.recInvSqrt ^ 2 ≤ count * 1 := Nat.mul_le_mul_left count hsq
        _ ≤ 3 * 2 ^ 32 := by omega
    exact ⟨subtractsWithin_of_le hpaced.word hsquare, .inr (newtonStep_le_one hone hlt)⟩

theorem Paced.drop (hpaced : Paced state) :
    SubtractsWithin state.recInvSqrt (uint32 (state.count + 1)) ∧
      Paced { state with
        count := uint32 (state.count + 1)
        recInvSqrt := newtonStep state.recInvSqrt (uint32 (state.count + 1)) } := by
  have hlt : uint32 (state.count + 1) < 2 ^ 32 := Nat.mod_lt _ (by decide)
  obtain ⟨hwithin, hroot⟩ := hpaced.step hlt fun _ => Nat.mod_le ..
  refine ⟨hwithin, newtonStep_lt .., hlt, ?_⟩
  rcases hroot with hroot | hone
  · rcases hpaced.root with ⟨hlast, hpre⟩ | hone
    · by_cases hwraps : state.count + 1 < 2 ^ 32
      · refine .inl ⟨?_, hroot⟩
        simp only [uint32_of_lt hwraps]
        exact Nat.le_succ_of_le hlast
      · -- the count wraps long after the root has come to its end
        have hsmall : state.recInvSqrt ≤ 1 := by
          by_contra hlarge
          have hsq : 2 ^ 2 ≤ state.recInvSqrt ^ 2 := Nat.pow_le_pow_left (by omega) 2
          have := Nat.mul_le_mul_left state.count hsq
          omega
        exact .inr (newtonStep_le_one hsmall hlt)
    · exact .inr (newtonStep_le_one hone hlt)
  · exact .inr hone

/-! ## The rate through the calls -/

def rate (state : CoDelState) : Nat × Nat × Nat :=
  (state.count, state.lastCount, state.recInvSqrt)

theorem Paced.congr {next : CoDelState}
    (hpaced : Paced state) (hrate : rate next = rate state) : Paced next := by
  obtain ⟨hcnt, hboth⟩ := Prod.mk.inj hrate
  obtain ⟨hlast, hrec⟩ := Prod.mk.inj hboth
  exact ⟨hrec ▸ hpaced.word, hcnt ▸ hpaced.count, hcnt ▸ hlast ▸ hrec ▸ hpaced.root⟩

@[simp] theorem okToDrop_rate (cfg : CoDelConfig) (now : Nat) (item : Option QueueDiscItem)
    (state : CoDelState) : rate (okToDrop cfg now item state).2 = rate state := by
  unfold okToDrop
  split
  · rfl
  · split_ifs <;> rfl

theorem Fetch.mark_state {fetch marked : Fetch}
    {reason : String} (hmark : fetch.mark reason = some marked) : marked.state = fetch.state := by
  unfold Fetch.mark at hmark
  split at hmark
  · rw [← Option.some.inj hmark]
  · cases hmark

@[simp] theorem Fetch.dropAndDequeue_rate
    (fetch : Fetch) : rate fetch.dropAndDequeue.state = rate fetch.state := by
  unfold Fetch.dropAndDequeue
  split <;> rfl

/-- The pair that `startDropping` calls `NewtonStep` with, if it does. -/
def startDroppingSteps (cfg : CoDelConfig) (now : Nat) (state : CoDelState) :
    List (Nat × Nat) :=
  let delta := uint32OfInt ((state.count : Int) - state.lastCount)
  let recent := uint32OfInt ((time2CoDel now : Int) - state.dropNext)
    < uint32 (16 * time2CoDel cfg.interval)
  if (1 < delta ∧ delta < 2 ^ 31) ∧ recent then [(state.recInvSqrt, delta)] else []

/-- The pairs that the loop in the dropping state calls `NewtonStep` with. -/
def dropWhileSteps (cfg : CoDelConfig) (now : Nat) : Nat → Fetch → List (Nat × Nat)
  | 0, _ => []
  | remaining + 1, fetch =>
    if fetch.state.dropping ∧ time2CoDel now ≥ fetch.state.dropNext then
      let passed := dropOnce cfg now fetch
      (fetch.state.recInvSqrt, uint32 (fetch.state.count + 1)) ::
        if passed.1 then [] else dropWhileSteps cfg now remaining passed.2
    else []

/-- What `DoDequeue` has at hand after its first call of `OkToDrop`. -/
def firstFetch (cfg : CoDelConfig) (now : Nat) (item : QueueDiscItem) (state : CoDelState) :
    Bool × Fetch :=
  let fetch : Fetch :=
    ⟨some item, { state with queue := state.queue.dequeue.2 }, [.packetDequeued item], false⟩
  let checked := okToDrop cfg now fetch.item fetch.state
  (checked.1, fetch.setState checked.2)

/-- What `DoDequeue` does from there to its end. -/
def decided (cfg : CoDelConfig) (now : Nat) (fetched : Bool × Fetch) : Fetch :=
  if fetched.2.state.dropping then
    if !fetched.1 then fetched.2.setState { fetched.2.state with dropping := false }
    else dropWhile cfg now (fetched.2.state.queue.packets.length + 1) fetched.2
  else if fetched.1 then enterDropping cfg now fetched.2
  else fetched.2

def decidedSteps (cfg : CoDelConfig) (now : Nat) (fetched : Bool × Fetch) : List (Nat × Nat) :=
  if fetched.2.state.dropping then
    if !fetched.1 then []
    else dropWhileSteps cfg now (fetched.2.state.queue.packets.length + 1) fetched.2
  else if fetched.1 then startDroppingSteps cfg now fetched.2.state
  else []

/-- The pairs that `DoDequeue` calls `NewtonStep` with. -/
def newtonSteps (cfg : CoDelConfig) (now : Nat) (state : CoDelState) : List (Nat × Nat) :=
  match state.queue.dequeue.1 with
  | none => []
  | some item =>
    if isL4s cfg item then [] else decidedSteps cfg now (firstFetch cfg now item state)

variable {cfg : CoDelConfig} {now : Nat} {fetch : Fetch}

theorem Paced.startDropping (hpaced : Paced state) :
    Paced (CoDelQueueDisc.startDropping cfg now state) ∧
      ∀ call ∈ startDroppingSteps cfg now state, SubtractsWithin call.1 call.2 := by
  rw [CoDelQueueDisc.startDropping, startDroppingSteps]
  generalize hdelta : uint32OfInt ((state.count : Int) - state.lastCount) = delta
  have hlt : delta < 2 ^ 32 := hdelta ▸ uint32OfInt_lt _
  have hmost : state.lastCount ≤ state.count → delta ≤ state.count + 1 := by
    intro hlast
    rw [← hdelta, uint32OfInt]
    omega
  obtain ⟨hwithin, hroot⟩ := hpaced.step hlt hmost
  simp only
  split
  · refine ⟨⟨newtonStep_lt .., hlt, hroot.imp_left fun hle => ⟨le_rfl, hle⟩⟩, ?_⟩
    rintro call hcall
    rw [mem_singleton.mp hcall]
    exact hwithin
  · have hone : maxRecInvSqrt < 2 ^ 16 ∧ 1 < 2 ^ 32 ∧ 1 * maxRecInvSqrt ^ 2 ≤ 2 ^ 32 := by decide
    exact ⟨⟨hone.1, hone.2.1, .inl ⟨le_rfl, hone.2.2⟩⟩,
      fun call hcall => absurd hcall not_mem_nil⟩

theorem dropOnce_rate (cfg : CoDelConfig) (now : Nat) (fetch : Fetch) :
    rate (dropOnce cfg now fetch).2.state = (uint32 (fetch.state.count + 1), fetch.state.lastCount,
        newtonStep fetch.state.recInvSqrt (uint32 (fetch.state.count + 1))) := by
  simp only [dropOnce]
  split
  next marked hmark =>
    split at hmark
    · have hst := Fetch.mark_state hmark
      simp only [Fetch.setState, rate, hst]
    · cases hmark
  · generalize hcnt : fetch.setState { fetch.state with
      count := uint32 (fetch.state.count + 1)
      recInvSqrt := newtonStep fetch.state.recInvSqrt (uint32 (fetch.state.count + 1)) } = counted
    have hrate : rate (okToDrop cfg now counted.dropAndDequeue.item
        counted.dropAndDequeue.state).2 = rate counted.state := by simp
    rw [← hcnt] at hrate ⊢
    split <;> exact hrate

theorem Paced.dropWhile (hpaced : Paced fetch.state) (remaining : Nat) :
    Paced (dropWhile cfg now remaining fetch).state ∧
      ∀ call ∈ dropWhileSteps cfg now remaining fetch, SubtractsWithin call.1 call.2 := by
  induction remaining generalizing fetch with
  | zero => exact ⟨hpaced, fun call hcall => absurd hcall not_mem_nil⟩
  | succ remaining ih =>
    rw [dropWhile, dropWhileSteps]
    split
    · obtain ⟨hwithin, hdrop⟩ := hpaced.drop
      have hpassed : Paced (dropOnce cfg now fetch).2.state :=
        hdrop.congr (dropOnce_rate cfg now fetch)
      simp only [forall_mem_cons]
      split
      · exact ⟨hpassed, hwithin, fun call hcall => absurd hcall not_mem_nil⟩
      · exact ⟨(ih hpassed).1, hwithin, (ih hpassed).2⟩
    · exact ⟨hpaced, fun call hcall => absurd hcall not_mem_nil⟩

theorem Paced.enterDropping (hpaced : Paced fetch.state) :
    Paced (CoDelQueueDisc.enterDropping cfg now fetch).state := by
  simp only [CoDelQueueDisc.enterDropping]
  split
  next marked hmark =>
    split at hmark
    · have hst := Fetch.mark_state hmark
      rw [← hst] at hpaced
      exact hpaced.startDropping.1
    · cases hmark
  · exact (hpaced.congr (by simp)).startDropping.1

theorem finish_rate (cfg : CoDelConfig)
    (now : Nat) (fetch : Fetch) : rate (finish cfg now fetch).state = rate fetch.state := by
  unfold finish
  split
  · rfl
  · split
    · cases hmark : fetch.mark CE_THRESHOLD_EXCEEDED_MARK with
      | none => rfl
      | some marked => exact congrArg rate (Fetch.mark_state hmark)
    · rfl

theorem doDequeue_plain (cfg : CoDelConfig) (env : Env Unit) (occupancy : Occupancy)
    {item : QueueDiscItem} (hitem : state.queue.dequeue.1 = some item)
    (hplain : isL4s cfg item = false) :
    let fetch := finish cfg env.now
      (decided cfg env.now (firstFetch cfg env.now item state))
    doDequeue cfg env occupancy state = ⟨fetch.item, fetch.state, fetch.reports⟩ := by
  simp only [doDequeue, hitem, decideItem, hplain]
  rfl

theorem doDequeue_l4s (cfg : CoDelConfig) (env : Env Unit) (occupancy : Occupancy)
    {item : QueueDiscItem} (hitem : state.queue.dequeue.1 = some item)
    (hl4s : isL4s cfg item = true) :
    (doDequeue cfg env occupancy state).state =
      { state with queue := state.queue.dequeue.2 } := by
  simp only [doDequeue, hitem, decideItem, hl4s, if_true]
  split
  · generalize hfetch : (⟨some item, { state with queue := state.queue.dequeue.2 },
      [.packetDequeued item], false⟩ : Fetch) = fetch
    cases hmark : fetch.mark CE_THRESHOLD_EXCEEDED_MARK with
    | none => rw [← hfetch]; rfl
    | some marked => rw [Option.getD_some, Fetch.mark_state hmark, ← hfetch]
  · rfl

theorem Paced.decided {fetched : Bool × Fetch} (hpaced : Paced fetched.2.state) :
    Paced (CoDelQueueDisc.decided cfg now fetched).state ∧
      ∀ call ∈ decidedSteps cfg now fetched, SubtractsWithin call.1 call.2 := by
  rw [CoDelQueueDisc.decided, decidedSteps]
  split
  · split
    · exact ⟨hpaced.congr rfl, fun call hcall => absurd hcall not_mem_nil⟩
    · exact hpaced.dropWhile _
  · split
    · exact ⟨hpaced.enterDropping, hpaced.startDropping.2⟩
    · exact ⟨hpaced, fun call hcall => absurd hcall not_mem_nil⟩

section

variable (hpaced : Paced state) (cfg : CoDelConfig) (env : Env Unit) (occupancy : Occupancy)
include hpaced

theorem Paced.doDequeue :
    Paced (CoDelQueueDisc.doDequeue cfg env occupancy state).state ∧
      ∀ call ∈ newtonSteps cfg env.now state, SubtractsWithin call.1 call.2 := by
  rw [newtonSteps]
  cases hitem : state.queue.dequeue.1 with
  | none =>
    rw [CoDelQueueDisc.doDequeue, hitem]
    exact ⟨hpaced.congr rfl, fun call hcall => absurd hcall not_mem_nil⟩
  | some item =>
    simp only
    cases hl4s : isL4s cfg item with
    | true =>
      rw [doDequeue_l4s cfg env occupancy hitem hl4s]
      exact ⟨hpaced.congr rfl, fun call hcall => absurd hcall not_mem_nil⟩
    | false =>
      have hfst : Paced (firstFetch cfg env.now item state).2.state :=
        hpaced.congr (okToDrop_rate ..)
      rw [doDequeue_plain cfg env occupancy hitem hl4s]
      exact ⟨hfst.decided.1.congr (finish_rate ..), hfst.decided.2⟩

theorem Paced.doEnqueue (item : QueueDiscItem) :
    Paced (doEnqueue cfg env occupancy item state).state := by
  rcases doEnqueue_cases cfg env occupancy item state with ⟨reason, hdrop⟩ | ⟨-, hstored⟩
  · rw [hdrop]
    exact hpaced
  · rw [hstored]
    exact hpaced.congr rfl

end

theorem paced_init (cfg : CoDelConfig) : Paced (init cfg) := by
  have hzero : maxRecInvSqrt < 2 ^ 16 ∧ 0 < 2 ^ 32 ∧ 0 * maxRecInvSqrt ^ 2 ≤ 2 ^ 32 := by decide
  exact ⟨hzero.1, hzero.2.1, .inl ⟨le_rfl, hzero.2.2⟩⟩

end HomaSird.TrafficControl.CoDelQueueDisc
