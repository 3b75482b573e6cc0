import HomaSird.TrafficControl.TbfContract

/-! # The watchdog of the token bucket filter

A packet that is blocked is to be let out when enough tokens are available. The time to wait is
computed from the balances of both buckets, and a pending event is not moved. So the event is
in time when both rates bring tokens, neither bucket has more tokens than the packet takes, the
refill has not lost more than a tick's worth to its rounding, and the packet that an event was
set for does not give way to a smaller one.
-/

namespace HomaSird.TrafficControl.TbfQueueDisc

open Transition

variable {State Chance : Type} {disc : Discipline State Chance} {cfg : TbfConfig}
  {self next : TbfQueueDisc State} {env : Env (Chance × Chance)}
  {tokens capacity since now pktSize size : Nat} {rate : UInt64} {time : Rat}

/-! ## One bucket -/

def refill (rate : UInt64) (since : Nat) (time : Rat) : Rat :=
  (time - since) / nanosecondsPerSecond * (rate / 8).toNat

def level (tokens capacity : Nat) (rate : UInt64) (since now : Nat) : Int :=
  min (tokens + round (refill rate since now)) capacity

def Holds (tokens capacity : Nat) (rate : UInt64) (since : Nat) (time : Rat) (pktSize : Nat) :
    Prop :=
  pktSize ≤ capacity ∧ (pktSize : Rat) ≤ tokens + refill rate since time

/-- The time to wait can be computed: the bucket has no more tokens than the packet takes, and what
rounding has cut off a refill comes back within a tick. -/
def Computable (tokens capacity : Nat) (rate : UInt64) (since now pktSize : Nat) : Prop :=
  rate ≠ 0 ∧ level tokens capacity rate since now ≤ pktSize ∧
    (level tokens capacity rate since now < pktSize →
      (refill rate since now - round (refill rate since now)) * (8 * nanosecondsPerSecond) ≤
        rate.toNat)

theorem refill_eq (rate : UInt64) (since now : Nat) :
    (((now : Int) - since : Int) : Rat) / nanosecondsPerSecond * ((rate / 8).toNat : Nat) =
      refill rate since now := by
  rw [refill]
  push_cast
  rfl

theorem remaining_eq (tokens capacity : Nat) (rate : UInt64) (since now pktSize : Nat) :
    remaining tokens capacity rate (((now : Int) - since : Int) / nanosecondsPerSecond) pktSize =
      level tokens capacity rate since now - pktSize := by
  rw [remaining, refill_eq, level]

theorem refill_sub_le (rate : UInt64) (since : Nat) {earlier later : Rat} (hle : earlier ≤ later) :
    (refill rate since later - refill rate since earlier) * (8 * nanosecondsPerSecond) ≤
      (later - earlier) * rate.toNat := by
  have hbits : (((rate / 8).toNat : Nat) : Rat) * 8 ≤ rate.toNat := by
    have hdiv : (rate / 8).toNat * 8 ≤ rate.toNat := by
      rw [UInt64.toNat_div]
      exact Nat.div_mul_le_self _ _
    exact_mod_cast hdiv
  have hspan : 0 ≤ later - earlier := sub_nonneg.mpr hle
  have hpos : (0 : Rat) < nanosecondsPerSecond := by
    unfold nanosecondsPerSecond
    norm_num
  calc (refill rate since later - refill rate since earlier) * (8 * nanosecondsPerSecond)
      = (later - earlier) * (((rate / 8).toNat : Nat) * 8) := by
        unfold refill
        field_simp
        ring
    _ ≤ (later - earlier) * rate.toNat := mul_le_mul_of_nonneg_left hbits hspan

theorem calculateBytesTxTime_le {need : Int} (hneed : 0 ≤ need)
    {delay : Nat} (hdelay : calculateBytesTxTime rate (uint32OfInt need) = .ok delay) :
    (delay : Rat) * rate.toNat ≤ need * (8 * nanosecondsPerSecond) := by
  rw [calculateBytesTxTime] at hdelay
  split at hdelay
  · cases hdelay
  cases hdelay
  have hbits : (uint32 (uint32OfInt need * 8) : Int) ≤ need * 8 := by
    unfold uint32 uint32OfInt
    omega
  have hquot := Nat.div_mul_le_self
    (uint32 (uint32OfInt need * 8) * nanosecondsPerSecond) rate.toNat
  generalize uint32 (uint32OfInt need * 8) = bits at *
  have hpos : (0 : Rat) ≤ nanosecondsPerSecond := Nat.cast_nonneg _
  have hcast : (bits : Rat) ≤ need * 8 := by exact_mod_cast hbits
  calc ((bits * nanosecondsPerSecond / rate.toNat : Nat) : Rat) * rate.toNat
      ≤ bits * nanosecondsPerSecond := by exact_mod_cast hquot
    _ ≤ need * 8 * nanosecondsPerSecond := mul_le_mul_of_nonneg_right hcast hpos
    _ = need * (8 * nanosecondsPerSecond) := mul_assoc _ _ _

theorem delay_le (hcomputable : Computable tokens capacity rate since now pktSize) {delay : Nat}
    (hdelay :
      calculateBytesTxTime rate (uint32OfInt (-(level tokens capacity rate since now - pktSize))) =
        .ok delay) (hlater : (now : Rat) ≤ time)
    (hholds : Holds tokens capacity rate since time pktSize) :
    (now : Rat) + delay ≤ time + 1 := by
  obtain ⟨hrate, hspent, hcutOff⟩ := hcomputable
  have hlevel : level tokens capacity rate since now =
      min (tokens + round (refill rate since now)) capacity := rfl
  generalize level tokens capacity rate since now = held at *
  have hbits := calculateBytesTxTime_le (by omega) hdelay
  have hpos : (0 : Rat) < rate.toNat := by
    have hne : rate.toNat ≠ 0 := fun hzero => hrate (UInt64.toNat_inj.mp hzero)
    exact_mod_cast Nat.pos_of_ne_zero hne
  have hwait : (pktSize - held : Rat) * (8 * nanosecondsPerSecond) ≤
      (time - now + 1) * rate.toNat := by
    have hfill := refill_sub_le rate since hlater
    rcases Int.lt_or_eq_of_le hspent with hneg | hzero
    · -- the bucket is not full, as a full one would hold enough
      have hheld : (held : Rat) = tokens + round (refill rate since now) := by
        have hint : held = tokens + round (refill rate since now) := by
          have hfits := hholds.1
          omega
        exact_mod_cast hint
      have hneed : (pktSize - held : Rat) ≤ (refill rate since time - refill rate since now) +
          (refill rate since now - round (refill rate since now)) := by
        have henough := hholds.2
        linarith
      have hscale : (0 : Rat) ≤ 8 * nanosecondsPerSecond := by
        unfold nanosecondsPerSecond
        norm_num
      have hscaled := mul_le_mul_of_nonneg_right hneed hscale
      have hlost := hcutOff hneg
      rw [add_mul] at hscaled
      linarith
    · subst hzero
      have hspan : (0 : Rat) ≤ time - now + 1 := by linarith
      have hright := mul_nonneg hspan hpos.le
      simpa using hright
  have hticks : (delay : Rat) ≤ time - now + 1 := by
    refine le_of_mul_le_mul_right ?_ hpos
    push_cast at hbits
    rw [neg_sub] at hbits
    linarith
  linarith

theorem Holds.of_byte {u : Nat} (hle : size ≤ pktSize) (hlater : (u : Rat) ≤ time)
    (henough : 0 ≤ level tokens capacity rate since u - pktSize) (hcapacity : capacity < 2 ^ 32)
    (hbyte :
      Holds (uint32OfInt (level tokens capacity rate since u - pktSize)) capacity rate u time 1) :
    Holds tokens capacity rate since time size := by
  generalize hleft : level tokens capacity rate since u - pktSize = left at *
  rw [level] at hleft
  have htokens : uint32OfInt left = left.toNat := by
    unfold uint32OfInt
    omega
  refine ⟨by omega, ?_⟩
  have hgrow : refill rate since time = refill rate since u + refill rate u time := by
    unfold refill
    ring
  have hpositive : 0 ≤ refill rate u time := by
    unfold refill
    positivity
  rw [hgrow]
  rcases le_or_gt (size : Rat) (tokens + refill rate since u) with hearly | hshort
  · linarith
  · -- only the rounding has let the packet out, so nothing is left
    have hround := round_le (refill rate since u)
    have hsz : (size : Rat) ≤ pktSize := by exact_mod_cast hle
    have hmost : (left : Rat) ≤ tokens + round (refill rate since u) - pktSize := by
      have hint : left ≤ tokens + round (refill rate since u) - pktSize := by omega
      exact_mod_cast hint
    have hzero : left = 0 := by
      have hhalf : (left : Rat) < 1 := by linarith
      have hint : left < 1 := by exact_mod_cast hhalf
      omega
    subst hzero
    have hone := hbyte.2
    rw [htokens] at hone
    push_cast at hone hmost
    rw [zero_add] at hone
    linarith

/-! ## One call -/

/-- Both buckets hold enough tokens for a packet, the second one if there is a peak rate. -/
def Enough (cfg : TbfConfig) (self : TbfQueueDisc State) (pktSize : Nat) (time : Rat) : Prop :=
  Holds self.btokens cfg.burst.toNat cfg.rate self.timeCheckPoint time pktSize ∧
    (0 < cfg.peakRate →
      Holds self.ptokens cfg.mtu.toNat cfg.peakRate self.timeCheckPoint time pktSize)

def Fits (cfg : TbfConfig) (pktSize : Nat) : Prop :=
  pktSize ≤ cfg.burst.toNat ∧ (0 < cfg.peakRate → pktSize ≤ cfg.mtu.toNat)

def SetsUp (cfg : TbfConfig) (self : TbfQueueDisc State) (now pktSize : Nat) : Prop :=
  Computable self.btokens cfg.burst.toNat cfg.rate self.timeCheckPoint now pktSize ∧
    Computable self.ptokens cfg.mtu.toNat cfg.peakRate self.timeCheckPoint now pktSize

/-- A `Run` is pending, at most one tick after there are enough tokens. -/
def WakesInTime (cfg : TbfConfig) (self : TbfQueueDisc State) (now pktSize : Nat)
    (next : TbfQueueDisc State) : Prop :=
  ∃ wake, next.id = some wake ∧ ∀ time : Rat, (now : Rat) ≤ time →
    Enough cfg self pktSize time → (wake : Rat) ≤ time + 1

theorem btoks_eq (self : TbfQueueDisc State) (cfg : TbfConfig) (now pktSize : Nat) :
    self.btoks cfg now pktSize =
      level self.btokens cfg.burst.toNat cfg.rate self.timeCheckPoint now - pktSize :=
  remaining_eq ..

theorem ptoks_eq (hpeak : 0 < cfg.peakRate) (now pktSize : Nat) :
    self.ptoks cfg now pktSize =
      level self.ptokens cfg.mtu.toNat cfg.peakRate self.timeCheckPoint now - pktSize := by
  rw [ptoks, peakRemaining, if_pos hpeak, remaining_eq]

theorem ptoks_noPeakRate (hpeak : ¬ 0 < cfg.peakRate)
    (now pktSize : Nat) : self.ptoks cfg now pktSize = 0 :=
  if_neg hpeak

theorem Enough.fits (henough : Enough cfg self pktSize time) : Fits cfg pktSize :=
  ⟨henough.1.1, fun hpeak => (henough.2 hpeak).1⟩

theorem Enough.mono (henough : Enough cfg self pktSize time)
    (hle : size ≤ pktSize) : Enough cfg self size time := by
  have hcast : (size : Rat) ≤ pktSize := by exact_mod_cast hle
  exact ⟨⟨hle.trans henough.1.1, hcast.trans henough.1.2⟩, fun hpeak =>
    ⟨hle.trans (henough.2 hpeak).1, hcast.trans (henough.2 hpeak).2⟩⟩

theorem setUpWatchdog_inTime (hidle : self.id = none) (hsets : SetsUp cfg self now pktSize) :
    ∃ next,
      setUpWatchdog cfg now (self.btoks cfg now pktSize) (self.ptoks cfg now pktSize) self =
        .ok next ∧
        WakesInTime cfg self now pktSize next := by
  obtain ⟨hburst, hpeak⟩ := hsets
  have hpeakPos : 0 < cfg.peakRate := UInt64.pos_iff_ne_zero.mpr hpeak.1
  obtain ⟨delay, hdelay⟩ : ∃ delay, calculateBytesTxTime cfg.rate
      (uint32OfInt (-self.btoks cfg now pktSize)) = .ok delay := ⟨_, if_neg hburst.1⟩
  obtain ⟨peakDelay, hpeakDelay⟩ : ∃ delay, calculateBytesTxTime cfg.peakRate
      (uint32OfInt (-self.ptoks cfg now pktSize)) = .ok delay := ⟨_, if_neg hpeak.1⟩
  refine ⟨{ self with id := some (now + max delay peakDelay) }, ?_, _, rfl,
    fun time hlater henough => ?_⟩
  · rw [setUpWatchdog, hidle]
    dsimp only
    rw [hdelay, bind_ok, hpeakDelay, bind_ok]
    rfl
  · rw [btoks_eq] at hdelay
    rw [ptoks_eq hpeakPos] at hpeakDelay
    have hfst := delay_le hburst hdelay hlater henough.1
    have hsnd := delay_le hpeak hpeakDelay hlater (henough.2 hpeakPos)
    push_cast
    rcases max_choice (delay : Rat) peakDelay with hmax | hmax
    · rw [hmax]
      exact hfst
    · rw [hmax]
      exact hsnd

def Blocked (cfg : TbfConfig) (self : TbfQueueDisc State) (now pktSize : Nat) : Prop :=
  ¬ (pktSize ≤ level self.btokens cfg.burst.toNat cfg.rate self.timeCheckPoint now ∧
    (0 < cfg.peakRate →
      pktSize ≤ level self.ptokens cfg.mtu.toNat cfg.peakRate self.timeCheckPoint now))

theorem blocked_iff {now : Nat} :
    Blocked cfg self now pktSize ↔
      ¬ (0 ≤ self.btoks cfg now pktSize ∧ 0 ≤ self.ptoks cfg now pktSize) := by
  rw [Blocked, btoks_eq, Int.sub_nonneg]
  by_cases hpeak : 0 < cfg.peakRate
  · rw [ptoks_eq hpeak, Int.sub_nonneg]
    simp only [hpeak, true_imp_iff]
  · rw [ptoks_noPeakRate hpeak]
    simp only [hpeak, false_imp_iff, le_refl]

theorem doDequeue_blocked {itemPeek : QueueDiscItem}
    (hpeek : (self.child.peek disc ⟨env.now, env.chance.1⟩).1 = some itemPeek)
    (hblock : Blocked cfg self env.now itemPeek.size) :
    doDequeue disc cfg env self = (do
      let set ← setUpWatchdog cfg env.now (self.btoks cfg env.now itemPeek.size)
        (self.ptoks cfg env.now itemPeek.size)
        { self with child := (self.child.peek disc ⟨env.now, env.chance.1⟩).2 }
      return (none, set)) := by
  rw [doDequeue, hpeek]
  dsimp only
  exact if_neg fun henough => blocked_iff.mp hblock (lor_nonneg.mp henough)

theorem doDequeue_noPeakRate (hpeak : cfg.peakRate = 0) (hidle : self.id = none) {itemPeek :
    QueueDiscItem} (hpeek : (self.child.peek disc ⟨env.now, env.chance.1⟩).1 = some itemPeek)
    (hblock : Blocked cfg self env.now itemPeek.size) :
    doDequeue disc cfg env self = .error .divisionByZero := by
  rw [doDequeue_blocked hpeek hblock, setUpWatchdog]
  simp only [hidle]
  rw [hpeak, calculateBytesTxTime]
  split <;> rfl

instance (cfg : TbfConfig) (pktSize : Nat) : Decidable (Fits cfg pktSize) :=
  inferInstanceAs (Decidable (_ ∧ (_ → _)))

instance (cfg : TbfConfig) (self : TbfQueueDisc State) (now pktSize : Nat) :
    Decidable (Blocked cfg self now pktSize) :=
  inferInstanceAs (Decidable (¬ (_ ∧ (_ → _))))

instance (tokens capacity : Nat) (rate : UInt64) (since now pktSize : Nat) :
    Decidable (Computable tokens capacity rate since now pktSize) :=
  inferInstanceAs (Decidable (_ ∧ _ ∧ (_ → _)))

instance (cfg : TbfConfig) (self : TbfQueueDisc State) (now pktSize : Nat) :
    Decidable (SetsUp cfg self now pktSize) :=
  inferInstanceAs (Decidable (_ ∧ _))

/-! ## Runs -/

/-- The filter and the time of the last call. While an event is pending, `awaited` is a size it is
in time for: the one it was set for, and any once a packet has been let out since. -/
structure TbfWatch (State : Type) where
  tbf : TbfQueueDisc State
  clock : Nat
  awaited : Nat

namespace TbfWatch

def shown (disc : Discipline State Chance) (watch : TbfWatch State) (env : Env (Chance × Chance)) :
    Option QueueDiscItem :=
  (watch.tbf.child.peek disc ⟨env.now, env.chance.1⟩).1

def step (disc : Discipline State Chance) (cfg : TbfConfig) (watch : TbfWatch State) :
    TbfCall Chance → Except TbfFault (TbfWatch State)
  | .enqueue env packet dsField =>
    .ok { watch with
      tbf := (watch.tbf.doEnqueue disc env (.arriving env.now packet dsField)).2
      clock := env.now }
  | .dequeue env => do
    let result ← doDequeue disc cfg env watch.tbf
    return {
      tbf := result.2
      clock := env.now
      awaited :=
        if result.1.isSome then 1
        else if watch.tbf.id.isNone then (watch.shown disc env).elim 0 fun item => item.size
        else watch.awaited }
  | .expire now => .ok { watch with tbf := { watch.tbf with id := none }, clock := now }

def machine (disc : Discipline State Chance) (cfg : TbfConfig) (child : QueueDisc State) :
    Machine (TbfWatch State) (TbfCall Chance) TbfFault where
  init := ⟨initializeParams cfg child, 0, 0⟩
  step := step disc cfg

/-- Time goes on, up to the pending event at most, which runs when it is due. -/
def Timely (watch : TbfWatch State) (call : TbfCall Chance) : Prop :=
  watch.clock ≤ TbfRun.time call ∧ (∀ wake ∈ watch.tbf.id, TbfRun.time call ≤ wake) ∧
    match call with
    | .expire now => watch.tbf.id = some now
    | _ => True

/-- A packet blocked without a pending event sets the watchdog up, and one seen with a pending
event is one it is in time for. -/
def Prompt (disc : Discipline State Chance) (cfg : TbfConfig) (watch : TbfWatch State) :
    TbfCall Chance → Prop
  | .dequeue env => ∀ item ∈ watch.shown disc env,
      if watch.tbf.id.isNone then
        Fits cfg item.size → Blocked cfg watch.tbf env.now item.size →
          SetsUp cfg watch.tbf env.now item.size
      else watch.awaited ≤ item.size
  | _ => True

variable {watch after : TbfWatch State} {child : QueueDisc State}

def Watches (cfg : TbfConfig) (watch : TbfWatch State) : Prop :=
  ∀ wake, watch.tbf.id = some wake → ∀ time : Rat, (watch.clock : Rat) ≤ time →
    Enough cfg watch.tbf watch.awaited time → (wake : Rat) ≤ time + 1

theorem Watches.later (hwatches : Watches cfg watch) (hclock : watch.clock ≤ after.clock)
    (hid : after.tbf.id = watch.tbf.id) (henough : ∀ time : Rat, (after.clock : Rat) ≤ time →
    Enough cfg after.tbf after.awaited time → Enough cfg watch.tbf watch.awaited time) :
    Watches cfg after := by
  intro wake hwake time htime hafter
  have hcast : (watch.clock : Rat) ≤ after.clock := by exact_mod_cast hclock
  exact hwatches wake (hid ▸ hwake) time (hcast.trans htime) (henough time htime hafter)

theorem Watches.dequeue (hwatches : Watches cfg watch)
    (htimely : watch.Timely (.dequeue env)) (hprompt : watch.Prompt disc cfg (.dequeue env))
    (hstep : watch.step disc cfg (.dequeue env) = .ok after) : Watches cfg after := by
  obtain ⟨hclock, -, -⟩ := htimely
  obtain ⟨result, hcall, hdone⟩ := bind_eq_ok.mp hstep
  cases hdone
  have hcalls := doDequeue_calls hcall
  generalize result.1 = answer at *
  generalize result.2 = next at *
  cases hid : watch.tbf.id with
  | none =>
    cases hcalls with
    | nothing hchild =>
      intro wake hwake
      rw [hid] at hwake
      cases hwake
    | letsOut hpeek hitem hbtoks hptoks =>
      intro wake hwake
      rw [hid] at hwake
      cases hwake
    | @blocks itemPeek next hpeek hblock hset =>
      intro wake hwake time htime henough
      have hsz : watch.shown disc env = some itemPeek := hpeek
      simp only [Option.isSome_none, Bool.false_eq_true, if_false, Option.isNone_none, if_true,
        hsz, Option.elim_some] at henough
      obtain ⟨hbtokens, hptokens, hcheck, -⟩ := setUpWatchdog_tokens hset
      have hpre : Enough cfg watch.tbf itemPeek.size time := by
        unfold Enough at henough ⊢
        rw [hbtokens, hptokens, hcheck] at henough
        exact henough
      have hsets := hprompt itemPeek hsz
      rw [hid] at hsets
      obtain ⟨set, hset', wake', hwake', hintime⟩ :=
        @setUpWatchdog_inTime _ cfg
          { watch.tbf with child := (watch.tbf.child.peek disc ⟨env.now, env.chance.1⟩).2 } _ _
          hid (hsets hpre.fits (blocked_iff.mpr hblock))
      obtain rfl := Except.ok.inj (hset.symm.trans hset')
      obtain rfl := Option.some.inj (hwake.symm.trans hwake')
      exact hintime time htime hpre
  | some wake =>
    cases hcalls with
    | nothing hchild =>
      refine hwatches.later hclock rfl fun time _ henough => ?_
      simp only [Option.isSome_none, Bool.false_eq_true, if_false, hid,
        Option.isNone_some] at henough
      exact henough
    | @letsOut itemPeek item hpeek hitem hbtoks hptoks =>
      have hsz := hprompt itemPeek hpeek
      rw [hid] at hsz
      refine hwatches.later hclock rfl fun time htime henough => ?_
      obtain ⟨hburst, hpeak⟩ := henough
      dsimp only at hburst hpeak
      rw [btoks_eq] at hburst hbtoks
      refine ⟨hburst.of_byte hsz htime hbtoks cfg.burst.toNat_lt, fun hpos => ?_⟩
      have hbyte := hpeak hpos
      rw [ptoks_eq hpos] at hbyte hptoks
      exact hbyte.of_byte hsz htime hptoks cfg.mtu.toNat_lt
    | @blocks itemPeek next hpeek hblock hset =>
      rw [setUpWatchdog] at hset
      simp only [hid] at hset
      cases hset
      refine hwatches.later hclock hid.symm fun time _ henough => ?_
      simp only [Option.isSome_none, Bool.false_eq_true, if_false, Option.isNone_some] at henough
      exact henough

theorem Watches.step (hwatches : Watches cfg watch)
    {call : TbfCall Chance} (htimely : watch.Timely call) (hprompt : watch.Prompt disc cfg call)
    (hstep : watch.step disc cfg call = .ok after) : Watches cfg after := by
  cases call with
  | enqueue env packet dsField =>
    cases hstep
    exact hwatches.later htimely.1 rfl fun _ _ henough => henough
  | dequeue env => exact hwatches.dequeue htimely hprompt hstep
  | expire now =>
    cases hstep
    intro wake hwake
    cases hwake

/-- In a run of prompt calls, a blocked packet that fits has an event that wakes it in time. -/
theorem wakesInTime_of_prompt
    (hreach : (machine disc cfg child).ReachableUnder
      (fun watch call => watch.Timely call ∧ watch.Prompt disc cfg call) watch)
    (htimely : watch.Timely (.dequeue env)) (hprompt : watch.Prompt disc cfg (.dequeue env))
    {item : QueueDiscItem} (hshown : watch.shown disc env = some item) (hfits : Fits cfg item.size)
    (hblocked : Blocked cfg watch.tbf env.now item.size) :
    ∃ next,
      doDequeue disc cfg env watch.tbf = .ok (none, next) ∧
        WakesInTime cfg watch.tbf env.now item.size next := by
  have hwatches : Watches cfg watch := by
    refine hreach.invariant ?_ fun before call after hkept hcall hstep =>
      hkept.step hcall.1 hcall.2 hstep
    intro wake hwake
    cases hwake
  have hseen := hprompt item hshown
  cases hid : watch.tbf.id with
  | none =>
    rw [hid] at hseen
    obtain ⟨next, hset, hwakes⟩ := @setUpWatchdog_inTime _ cfg
      { watch.tbf with child := (watch.tbf.child.peek disc ⟨env.now, env.chance.1⟩).2 } _ _ hid
      (hseen hfits hblocked)
    refine ⟨next, ?_, hwakes⟩
    rw [doDequeue_blocked hshown hblocked]
    exact bind_eq_ok.mpr ⟨next, hset, rfl⟩
  | some wake =>
    rw [hid] at hseen
    refine ⟨{ watch.tbf with child := (watch.tbf.child.peek disc ⟨env.now, env.chance.1⟩).2 },
      ?_, wake, hid, fun time hlater henough => ?_⟩
    · rw [doDequeue_blocked hshown hblocked, setUpWatchdog]
      simp only [hid]
      rfl
    · have hcast : (watch.clock : Rat) ≤ env.now := by exact_mod_cast htimely.1
      exact hwatches wake hid time (hcast.trans hlater) (henough.mono hseen)

instance (call : TbfCall Chance) : Decidable (Timely watch call) :=
  match call with
  | .enqueue _ _ _ => inferInstanceAs (Decidable (_ ∧ _ ∧ True))
  | .dequeue _ => inferInstanceAs (Decidable (_ ∧ _ ∧ True))
  | .expire now => inferInstanceAs (Decidable (_ ∧ _ ∧ watch.tbf.id = some now))

instance (call : TbfCall Chance) : Decidable (Prompt disc cfg watch call) :=
  match call with
  | .enqueue _ _ _ => inferInstanceAs (Decidable True)
  | .expire _ => inferInstanceAs (Decidable True)
  | .dequeue env => inferInstanceAs (Decidable (∀ item ∈ watch.shown disc env,
      if watch.tbf.id.isNone then
        Fits cfg item.size → Blocked cfg watch.tbf env.now item.size →
          SetsUp cfg watch.tbf env.now item.size
      else watch.awaited ≤ item.size))

def fifoMachine (cfg : TbfConfig) : Machine (TbfWatch DropTailQueue) (TbfCall Unit) TbfFault :=
  machine (fifoQueueDisc ⟨.packets, 1000⟩) cfg
    (QueueDisc.init (fifoQueueDisc ⟨.packets, 1000⟩) 64 none)

def oneLeft (cfg : TbfConfig) (size : Nat) : TbfWatch DropTailQueue :=
  (fifoMachine cfg).after
    (fun watch call => decide (watch.Timely call ∧
      watch.Prompt (fifoQueueDisc ⟨.packets, 1000⟩) cfg call))
    [.enqueue ⟨0, ()⟩ ⟨1, size, 0⟩ none, .enqueue ⟨0, ()⟩ ⟨2, size, 0⟩ none,
      .dequeue ⟨0, (), ()⟩] (fifoMachine cfg).init

theorem oneLeft_reachable (cfg : TbfConfig) (size : Nat) :
    (fifoMachine cfg).ReachableUnder
      (fun watch call => watch.Timely call ∧ watch.Prompt (fifoQueueDisc ⟨.packets, 1000⟩) cfg call)
      (oneLeft cfg size) :=
  Machine.ReachableUnder.after (fun _ _ hcall => of_decide_eq_true hcall) _ .init

def evenSetup : TbfSetup where
  config := ⟨1000, 1000, 8000, 8000⟩
  maxSize := ⟨.packets, 1000⟩
  nInternalQueues := 0
  nPacketFilters := 0
  nQueueDiscClasses := 0
  deviceMtu := none

theorem wakesInTime_even :
    ∃ next,
      doDequeue (fifoQueueDisc ⟨.packets, 1000⟩) evenSetup.config ⟨0, (), ()⟩
        (oneLeft evenSetup.config 600).tbf = .ok (none, next) ∧
        WakesInTime evenSetup.config (oneLeft evenSetup.config 600).tbf 0 600 next := by
  have hshown : (oneLeft evenSetup.config 600).shown (fifoQueueDisc ⟨.packets, 1000⟩)
      ⟨0, (), ()⟩ = some (.arriving 0 ⟨2, 600, 0⟩ none) := by
    decide +kernel
  exact @wakesInTime_of_prompt _ _ _ _ ⟨0, (), ()⟩ _ _
    (oneLeft_reachable evenSetup.config 600) (by decide +kernel) (by decide +kernel) _ hshown
    (by decide +kernel) (by decide +kernel)

def defaultSetup : TbfSetup where
  config := ⟨125000, 0, 1000000, 0⟩
  maxSize := ⟨.packets, 1000⟩
  nInternalQueues := 0
  nPacketFilters := 0
  nQueueDiscClasses := 0
  deviceMtu := some 1500

def defaultConfig : TbfConfig := { defaultSetup.config with mtu := 1500 }

/-- Without a peak rate the first packet that is blocked has no event. -/
theorem neverWakes_default :
    checkConfig defaultSetup = some defaultConfig ∧
      (fifoMachine defaultConfig).ReachableUnder Timely (oneLeft defaultConfig 65000) ∧
      (oneLeft defaultConfig 65000).Timely (.dequeue ⟨0, (), ()⟩) ∧
      (oneLeft defaultConfig 65000).shown (fifoQueueDisc ⟨.packets, 1000⟩) ⟨0, (), ()⟩ =
        some (.arriving 0 ⟨2, 65000, 0⟩ none) ∧
      Fits defaultConfig 65000 ∧ Blocked defaultConfig (oneLeft defaultConfig 65000).tbf 0 65000 ∧
      doDequeue (fifoQueueDisc ⟨.packets, 1000⟩) defaultConfig ⟨0, (), ()⟩
        (oneLeft defaultConfig 65000).tbf = .error .divisionByZero := by
  have hshown : (oneLeft defaultConfig 65000).shown (fifoQueueDisc ⟨.packets, 1000⟩)
      ⟨0, (), ()⟩ = some (.arriving 0 ⟨2, 65000, 0⟩ none) := by
    decide +kernel
  have hblocked : Blocked defaultConfig (oneLeft defaultConfig 65000).tbf 0 65000 := by
    decide +kernel
  exact ⟨rfl, (oneLeft_reachable defaultConfig 65000).mono fun _ _ hcall => hcall.1,
    by decide +kernel, hshown, by decide +kernel, hblocked,
    doDequeue_noPeakRate rfl (by decide +kernel) hshown hblocked⟩

end TbfWatch

end HomaSird.TrafficControl.TbfQueueDisc
