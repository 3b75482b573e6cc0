import HomaSird.Data.Word
import HomaSird.Transition.Machine

/-! # `DynamicQueueLimits` and the device queue it stops

The counters of bytes queued and completed run freely in 32 bits, and a run keeps the number of
bytes in flight beside them. No operation overflows, as long as a reset finds the cached limit at
zero and a completion does not compare counters across the middle of their range.
-/

namespace HomaSird.Network

open Transition

inductive LimitsFault
  | assertion
  | signedOverflow
deriving DecidableEq

def UINTMAX : Nat := 2 ^ 32 - 1

def DQL_MAX_OBJECT : Nat := UINTMAX / 16

def DQL_MAX_LIMIT : Nat := UINTMAX / 2 - DQL_MAX_OBJECT

structure LimitsConfig where
  maxLimit : Nat
  minLimit : Nat
  slackHoldTime : Int

structure DynamicQueueLimits where
  numQueued : Nat
  adjLimit : Nat
  lastObjCnt : Nat
  limit : Nat
  numCompleted : Nat
  prevOvlimit : Nat
  prevNumQueued : Nat
  prevLastObjCnt : Nat
  lowestSlack : Nat
  slackStartTime : Int

namespace DynamicQueueLimits

def posdiff (a b : Nat) : Except LimitsFault Nat :=
  if InInt32 (int32 a - int32 b) then .ok (max (int32 a - int32 b) 0).toNat
  else .error .signedOverflow

def timeAdd (first second : Int) : Except LimitsFault Int :=
  if -2 ^ 63 ≤ first + second ∧ first + second < 2 ^ 63 then .ok (first + second)
  else .error .signedOverflow

def reset (self : DynamicQueueLimits) (now : Int) : DynamicQueueLimits :=
  { self with
    limit := 0
    numQueued := 0
    numCompleted := 0
    lastObjCnt := 0
    prevNumQueued := 0
    prevLastObjCnt := 0
    prevOvlimit := 0
    lowestSlack := UINTMAX
    slackStartTime := now }

def create (now : Int) : DynamicQueueLimits :=
  reset ⟨0, 0, 0, 0, 0, 0, 0, 0, UINTMAX, 0⟩ now

def available (self : DynamicQueueLimits) : Int :=
  int32 (uint32OfInt ((self.adjLimit : Int) - self.numQueued))

def queued (self : DynamicQueueLimits) (count : Nat) : Except LimitsFault DynamicQueueLimits :=
  if count ≤ DQL_MAX_OBJECT then
    .ok { self with lastObjCnt := count, numQueued := uint32 (self.numQueued + count) }
  else .error .assertion

def outstanding (self : DynamicQueueLimits) : Nat :=
  uint32OfInt ((self.numQueued : Int) - self.numCompleted)

def allPrevCompleted (self : DynamicQueueLimits) (completed : Nat) : Bool :=
  decide (0 ≤ int32 (uint32OfInt ((completed : Int) - self.prevNumQueued)))

def starved (self : DynamicQueueLimits) (completed ovlimit : Nat) : Bool :=
  (decide (ovlimit ≠ 0) && decide (uint32OfInt ((self.numQueued : Int) - completed) = 0)) ||
    (decide (self.prevOvlimit ≠ 0) && self.allPrevCompleted completed)

def busy (self : DynamicQueueLimits) (completed : Nat) : Bool :=
  decide (uint32OfInt ((self.numQueued : Int) - completed) ≠ 0) &&
    decide (uint32OfInt ((self.prevNumQueued : Int) - self.numCompleted) ≠ 0) &&
    !self.allPrevCompleted completed

/-- The first branch of `Completed`. -/
def increase (self : DynamicQueueLimits) (now : Int) (completed : Nat) :
    Except LimitsFault DynamicQueueLimits := do
  let grown ← posdiff completed self.prevNumQueued
  return { self with
    limit := uint32 (self.limit + uint32 (grown + self.prevOvlimit))
    slackStartTime := now
    lowestSlack := UINTMAX }

def slackLastObjs (self : DynamicQueueLimits) : Except LimitsFault Nat :=
  if self.prevOvlimit ≠ 0 then posdiff self.prevLastObjCnt self.prevOvlimit else .ok 0

/-- The second branch of `Completed`. -/
def decrease (self : DynamicQueueLimits) (cfg : LimitsConfig) (now : Int) (completed : Nat) :
    Except LimitsFault DynamicQueueLimits := do
  let excess ← posdiff (uint32 (self.limit + self.prevOvlimit))
    (uint32 (2 * uint32OfInt ((completed : Int) - self.numCompleted)))
  let slackLastObjs ← self.slackLastObjs
  let slack := max excess slackLastObjs
  let lowestSlack := if slack < self.lowestSlack then slack else self.lowestSlack
  let ends ← timeAdd self.slackStartTime cfg.slackHoldTime
  if now > ends then
    let limit ← posdiff self.limit lowestSlack
    return { self with limit, slackStartTime := now, lowestSlack := UINTMAX }
  else return { self with lowestSlack }

/-- The branches of `Completed`. -/
def update (self : DynamicQueueLimits) (cfg : LimitsConfig) (now : Int)
    (completed ovlimit : Nat) : Except LimitsFault DynamicQueueLimits :=
  if self.starved completed ovlimit then self.increase now completed
  else if self.busy completed then self.decrease cfg now completed
  else .ok self

/-- The end of `Completed`: the limit is brought within its bounds. -/
def enforce (self updated : DynamicQueueLimits) (cfg : LimitsConfig)
    (completed ovlimit : Nat) : DynamicQueueLimits :=
  let limit := min (max updated.limit cfg.minLimit) cfg.maxLimit
  { updated with
    limit
    adjLimit := uint32 (limit + completed)
    prevOvlimit := if limit ≠ self.limit then 0 else ovlimit
    prevLastObjCnt := self.lastObjCnt
    numCompleted := completed
    prevNumQueued := self.numQueued }

def completed (self : DynamicQueueLimits) (cfg : LimitsConfig) (now : Int) (count : Nat) :
    Except LimitsFault DynamicQueueLimits :=
  if self.outstanding < count then .error .assertion
  else do
    let completed := uint32 (self.numCompleted + count)
    let ovlimit ← posdiff self.outstanding self.limit
    let updated ← self.update cfg now completed ovlimit
    return self.enforce updated cfg completed ovlimit

end DynamicQueueLimits

/-- One transmission queue; `wakeUps` counts the calls of the wake callback that are scheduled. -/
structure NetDeviceQueue where
  stoppedByDevice : Bool
  stoppedByQueueLimits : Bool
  queueLimits : Option DynamicQueueLimits
  wakeCallback : Bool
  wakeUps : Nat

namespace NetDeviceQueue

def isStopped (self : NetDeviceQueue) : Bool := self.stoppedByDevice || self.stoppedByQueueLimits

def start (self : NetDeviceQueue) : NetDeviceQueue := { self with stoppedByDevice := false }

def stop (self : NetDeviceQueue) : NetDeviceQueue := { self with stoppedByDevice := true }

def wake (self : NetDeviceQueue) : NetDeviceQueue :=
  { self with
    stoppedByDevice := false
    wakeUps := if self.stoppedByDevice && self.wakeCallback then self.wakeUps + 1
      else self.wakeUps }

def notifyQueuedBytes (self : NetDeviceQueue) (bytes : Nat) : Except LimitsFault NetDeviceQueue :=
  match self.queueLimits with
  | none => .ok self
  | some queueLimits => do
    let queueLimits ← queueLimits.queued bytes
    let queue := { self with queueLimits := some queueLimits }
    if queueLimits.available ≥ 0 then return queue
    else return { queue with stoppedByQueueLimits := true }

def notifyTransmittedBytes (self : NetDeviceQueue) (cfg : LimitsConfig) (now : Int)
    (bytes : Nat) : Except LimitsFault NetDeviceQueue :=
  match self.queueLimits with
  | none => .ok self
  | some queueLimits =>
    if bytes = 0 then .ok self
    else do
      let queueLimits ← queueLimits.completed cfg now bytes
      let queue := { self with queueLimits := some queueLimits }
      if queueLimits.available < 0 then return queue
      else return { queue with
        stoppedByQueueLimits := false
        wakeUps := if self.stoppedByQueueLimits && self.wakeCallback then self.wakeUps + 1
          else self.wakeUps }

def resetQueueLimits (self : NetDeviceQueue) (now : Int) : NetDeviceQueue :=
  { self with queueLimits := self.queueLimits.map fun queueLimits => queueLimits.reset now }

end NetDeviceQueue

open DynamicQueueLimits NetDeviceQueue

namespace DynamicQueueLimits

variable {cfg : LimitsConfig} {limits : DynamicQueueLimits} {now : Int} {count completed : Nat}

theorem posdiff_ok_iff {a b : Nat} :
    (∃ difference, posdiff a b = .ok difference) ↔ InInt32 (int32 a - int32 b) := by
  rw [posdiff]
  split
  next hfits => exact iff_of_true ⟨_, rfl⟩ hfits
  next hover => exact iff_of_false (fun ⟨_, hok⟩ => nomatch hok) hover

theorem posdiff_lt {a b difference : Nat}
    (hok : posdiff a b = .ok difference) : difference < 2 ^ 31 := by
  rw [posdiff] at hok
  split at hok
  next hfits =>
    obtain rfl := Except.ok.inj hok
    obtain ⟨-, hhigh⟩ := hfits
    omega
  · cases hok

theorem posdiff_of_lt {a b : Nat}
    (ha : a < 2 ^ 31) (hb : b < 2 ^ 31) : posdiff a b = .ok (a - b) := by
  have hfst : int32 a = a := int32_of_inInt32 ⟨by omega, by omega⟩
  have hsnd : int32 b = b := int32_of_inInt32 ⟨by omega, by omega⟩
  have hfits : InInt32 ((a : Int) - b) := ⟨by omega, by omega⟩
  have hmax : (max ((a : Int) - b) 0).toNat = a - b := by omega
  rw [posdiff, hfst, hsnd, if_pos hfits, hmax]

theorem timeAdd_ok_iff {first second : Int} :
    (∃ sum, timeAdd first second = .ok sum) ↔
      -2 ^ 63 ≤ first + second ∧ first + second < 2 ^ 63 := by
  rw [timeAdd]
  split
  next hfits => exact iff_of_true ⟨_, rfl⟩ hfits
  next hover => exact iff_of_false (fun ⟨_, hok⟩ => nomatch hok) hover

/-! ## The two branches -/

/-- The comparison of the counters that the first branch makes does not overflow. -/
def Grows (limits : DynamicQueueLimits) (completed : Nat) : Prop :=
  InInt32 (int32 completed - int32 limits.prevNumQueued)

theorem slackLastObjs_eq (hobjects : limits.prevLastObjCnt < 2 ^ 31)
    (hover : limits.prevOvlimit < 2 ^ 31) :
    limits.slackLastObjs =
      .ok (if limits.prevOvlimit ≠ 0 then limits.prevLastObjCnt - limits.prevOvlimit else 0) := by
  rw [slackLastObjs, posdiff_of_lt hobjects hover]
  split <;> rfl

/-- Nor do twice the bytes completed and the sum of times that the second branch computes. -/
def Shrinks (limits : DynamicQueueLimits) (cfg : LimitsConfig) (count : Nat) : Prop :=
  InInt32 (int32 (limits.limit + limits.prevOvlimit) - int32 (2 * count)) ∧
    -2 ^ 63 ≤ limits.slackStartTime + cfg.slackHoldTime ∧
      limits.slackStartTime + cfg.slackHoldTime < 2 ^ 63

def NoOverflow (limits : DynamicQueueLimits) (cfg : LimitsConfig) (count : Nat) : Prop :=
  let completed := uint32 (limits.numCompleted + count)
  if limits.starved completed (limits.outstanding - limits.limit) then limits.Grows completed
  else if limits.busy completed then limits.Shrinks cfg count
  else True

def Updates (limits updated : DynamicQueueLimits) : Prop :=
  ∃ limit slackStartTime lowestSlack,
    updated = { limits with limit, slackStartTime, lowestSlack }

theorem increase_ok_iff :
    (∃ updated, limits.increase now completed = .ok updated) ↔ limits.Grows completed := by
  rw [Grows, ← posdiff_ok_iff]
  constructor
  · rintro ⟨updated, hok⟩
    obtain ⟨grown, hgrown, -⟩ := bind_eq_ok.mp hok
    exact ⟨grown, hgrown⟩
  · rintro ⟨grown, hgrown⟩
    exact ⟨_, bind_eq_ok.mpr ⟨grown, hgrown, rfl⟩⟩

variable {updated : DynamicQueueLimits}

theorem increase_updates (hok : limits.increase now completed = .ok updated) :
    limits.Updates updated := by
  obtain ⟨grown, -, hdone⟩ := bind_eq_ok.mp hok
  exact ⟨_, _, _, (Except.ok.inj hdone).symm⟩

theorem decrease_updates (hok : limits.decrease cfg now completed = .ok updated) :
    limits.Updates updated := by
  obtain ⟨excess, -, hok⟩ := bind_eq_ok.mp hok
  obtain ⟨slackLastObjs, -, hok⟩ := bind_eq_ok.mp hok
  obtain ⟨ends, -, hok⟩ := bind_eq_ok.mp hok
  split at hok
  · obtain ⟨limit, -, hdone⟩ := bind_eq_ok.mp hok
    exact ⟨_, _, _, (Except.ok.inj hdone).symm⟩
  · exact ⟨_, _, _, (Except.ok.inj hok).symm⟩

structure Bounded (limits : DynamicQueueLimits) : Prop where
  limit : limits.limit < 2 ^ 31
  sum : limits.limit + limits.prevOvlimit < 2 ^ 31
  prevLastObjCnt : limits.prevLastObjCnt < 2 ^ 31

theorem decrease_ok_iff (hbd : limits.Bounded)
    (hcnt : uint32OfInt ((completed : Int) - limits.numCompleted) = count)
    (hless : count < 2 ^ 31) :
    (∃ updated, limits.decrease cfg now completed = .ok updated) ↔ limits.Shrinks cfg count := by
  have hsum := hbd.sum
  have hexcess : uint32 (limits.limit + limits.prevOvlimit) = limits.limit + limits.prevOvlimit :=
    uint32_of_lt (by omega)
  have htwice : uint32 (2 * count) = 2 * count := uint32_of_lt (by omega)
  have hshrinks : limits.Shrinks cfg count ↔
      (∃ excess, posdiff (limits.limit + limits.prevOvlimit) (2 * count) = .ok excess) ∧
        ∃ ends, timeAdd limits.slackStartTime cfg.slackHoldTime = .ok ends := by
    rw [Shrinks, posdiff_ok_iff, timeAdd_ok_iff]
    push_cast
    rfl
  rw [hshrinks, decrease, hcnt, hexcess, htwice,
    slackLastObjs_eq hbd.prevLastObjCnt (by omega)]
  constructor
  · rintro ⟨updated, hok⟩
    obtain ⟨excess, hexcess, hok⟩ := bind_eq_ok.mp hok
    rw [bind_ok] at hok
    obtain ⟨ends, hends, -⟩ := bind_eq_ok.mp hok
    exact ⟨⟨excess, hexcess⟩, ends, hends⟩
  · rintro ⟨⟨excess, hexcess⟩, ends, hends⟩
    rw [hexcess, bind_ok, bind_ok, hends, bind_ok]
    have hslack := posdiff_lt hexcess
    have hobjects := hbd.prevLastObjCnt
    generalize hlowest : (if _ < limits.lowestSlack then _ else limits.lowestSlack) = lowest
    have hless : lowest < 2 ^ 31 := by
      split at hlowest <;> split at hlowest <;> omega
    split
    · rw [posdiff_of_lt hbd.limit hless]
      exact ⟨_, rfl⟩
    · exact ⟨_, rfl⟩

theorem update_ok_iff (hbd : limits.Bounded) {ovlimit : Nat}
    (hcnt : uint32OfInt ((completed : Int) - limits.numCompleted) = count)
    (hless : count < 2 ^ 31) :
    (∃ updated, limits.update cfg now completed ovlimit = .ok updated) ↔
      if limits.starved completed ovlimit then
        limits.Grows completed
      else if limits.busy completed then limits.Shrinks cfg count else True := by
  rw [update]
  split
  · exact increase_ok_iff
  · split
    · exact decrease_ok_iff hbd hcnt hless
    · exact iff_of_true ⟨_, rfl⟩ trivial

theorem update_updates {ovlimit : Nat}
    (hok : limits.update cfg now completed ovlimit = .ok updated) : limits.Updates updated := by
  rw [update] at hok
  split at hok
  · exact increase_updates hok
  · split at hok
    · exact decrease_updates hok
    · exact ⟨_, _, _, (Except.ok.inj hok).symm⟩

end DynamicQueueLimits

/-! ## Runs -/

inductive LimitsCall
  | queued (count : Nat)
  | completed (now : Int) (count : Nat)
  | reset (now : Int)

/-- The limits, the bytes in flight, and whether something was completed since the limits were made
or reset. -/
structure LimitsRun where
  limits : DynamicQueueLimits
  inFlight : Nat
  completedOnce : Bool

namespace LimitsRun

def step (cfg : LimitsConfig) (run : LimitsRun) : LimitsCall → Except LimitsFault LimitsRun
  | .queued count => do
    let limits ← run.limits.queued count
    return { run with limits, inFlight := run.inFlight + count }
  | .completed now count => do
    let limits ← run.limits.completed cfg now count
    return ⟨limits, run.inFlight - count, true⟩
  | .reset now => .ok { run with limits := run.limits.reset now, completedOnce := false }

def machine (cfg : LimitsConfig) (start : Int) : Machine LimitsRun LimitsCall LimitsFault where
  init := ⟨.create start, 0, false⟩
  step := step cfg

/-- Fewer than `2 ^ 31` bytes are in flight, no more are completed, and limits are reset while
there are none. -/
def Offered (run : LimitsRun) : LimitsCall → Prop
  | .queued count => count ≤ DQL_MAX_OBJECT ∧ run.inFlight + count < 2 ^ 31
  | .completed _ count => count ≤ run.inFlight
  | .reset _ => run.inFlight = 0

def Sound (cfg : LimitsConfig) (run : LimitsRun) : LimitsCall → Prop
  | .queued _ => True
  | .completed _ count => run.limits.NoOverflow cfg count
  | .reset _ => run.limits.adjLimit = 0

variable {cfg : LimitsConfig} {run next : LimitsRun} {now : Int} {count : Nat}

structure Kept (cfg : LimitsConfig) (run : LimitsRun) : Prop where
  limit_le : run.limits.limit ≤ cfg.maxLimit
  le_limit : run.completedOnce = true → cfg.minLimit ≤ run.limits.limit
  inFlight : run.inFlight < 2 ^ 31
  numQueued : run.limits.numQueued = uint32 (run.limits.numCompleted + run.inFlight)
  adjLimit : run.limits.adjLimit = uint32 (run.limits.limit + run.limits.numCompleted)
  sum : run.limits.limit + run.limits.prevOvlimit < 2 ^ 31
  lastObjCnt : run.limits.lastObjCnt ≤ DQL_MAX_OBJECT
  prevLastObjCnt : run.limits.prevLastObjCnt ≤ DQL_MAX_OBJECT

structure Configured (cfg : LimitsConfig) : Prop where
  ordered : cfg.minLimit ≤ cfg.maxLimit
  maxLimit : cfg.maxLimit ≤ DQL_MAX_LIMIT

theorem kept_init (cfg : LimitsConfig) (start : Int) :
    Kept cfg ⟨.create start, 0, false⟩ where
  limit_le := Nat.zero_le _
  le_limit := nofun
  inFlight := Nat.two_pow_pos 31
  numQueued := rfl
  adjLimit := rfl
  sum := Nat.two_pow_pos 31
  lastObjCnt := Nat.zero_le _
  prevLastObjCnt := Nat.zero_le _

namespace Kept

theorem outstanding_eq (hkept : Kept cfg run) : run.limits.outstanding = run.inFlight := by
  have hless := hkept.inFlight
  rw [outstanding, hkept.numQueued]
  simp only [uint32, uint32OfInt]
  omega

theorem available_eq (hkept : Kept cfg run)
    (hcfg : Configured cfg) : run.limits.available = run.limits.limit - run.inFlight := by
  have hless := hkept.inFlight
  have hlim := Nat.le_trans hkept.limit_le hcfg.maxLimit
  rw [available, hkept.numQueued, hkept.adjLimit]
  simp only [uint32, uint32OfInt, int32, DQL_MAX_LIMIT, DQL_MAX_OBJECT, UINTMAX] at hlim ⊢
  omega

theorem bounded (hkept : Kept cfg run) : run.limits.Bounded := by
  have hsum := hkept.sum
  have hobjects := hkept.prevLastObjCnt
  refine ⟨by omega, hsum, ?_⟩
  simp only [DQL_MAX_OBJECT, UINTMAX] at hobjects
  omega

theorem completed_ok_iff (hkept : Kept cfg run) (hcnt : count ≤ run.inFlight) :
    (∃ limits, run.limits.completed cfg now count = .ok limits) ↔
      run.limits.NoOverflow cfg count := by
  have hless := hkept.inFlight
  have hbd := hkept.bounded
  have hdifference : uint32OfInt (((uint32 (run.limits.numCompleted + count) : Nat) : Int) -
      run.limits.numCompleted) = count := by
    simp only [uint32, uint32OfInt]
    omega
  rw [completed, DynamicQueueLimits.NoOverflow, hkept.outstanding_eq,
    if_neg (Nat.not_lt.mpr hcnt),
    posdiff_of_lt hless hbd.limit, bind_ok,
    ← @DynamicQueueLimits.update_ok_iff cfg _ now _ _ hbd _ hdifference (by omega)]
  constructor
  · rintro ⟨limits, hok⟩
    obtain ⟨updated, hupd, -⟩ := bind_eq_ok.mp hok
    exact ⟨updated, hupd⟩
  · rintro ⟨updated, hupd⟩
    exact ⟨_, bind_eq_ok.mpr ⟨updated, hupd, rfl⟩⟩

theorem completed (hkept : Kept cfg run) (hcfg : Configured cfg) (hcnt : count ≤ run.inFlight)
    {limits : DynamicQueueLimits} (hok : run.limits.completed cfg now count = .ok limits) :
    Kept cfg ⟨limits, run.inFlight - count, true⟩ := by
  have hless := hkept.inFlight
  have hmax := hcfg.maxLimit
  have hord := hcfg.ordered
  have hbd := hkept.bounded
  rw [DynamicQueueLimits.completed, hkept.outstanding_eq, if_neg (Nat.not_lt.mpr hcnt),
    DynamicQueueLimits.posdiff_of_lt hless hbd.limit, bind_ok] at hok
  obtain ⟨updated, hupd, hdone⟩ := bind_eq_ok.mp hok
  cases hdone
  obtain ⟨limit, slackStartTime, lowestSlack, rfl⟩ := DynamicQueueLimits.update_updates hupd
  rw [DynamicQueueLimits.enforce]
  dsimp only
  generalize hbrought : min (max limit cfg.minLimit) cfg.maxLimit = brought
  have hrng : cfg.minLimit ≤ brought ∧ brought ≤ cfg.maxLimit := by omega
  have hword : cfg.maxLimit < 2 ^ 31 := by
    simp only [DQL_MAX_LIMIT, DQL_MAX_OBJECT, UINTMAX] at hmax
    omega
  refine ⟨hrng.2, fun _ => hrng.1, Nat.lt_of_le_of_lt (Nat.sub_le _ _) hless, ?_, ?_, ?_,
    hkept.lastObjCnt, hkept.lastObjCnt⟩
  · dsimp only
    rw [hkept.numQueued]
    simp only [uint32]
    omega
  · rfl
  · dsimp only
    split
    · omega
    next hsame =>
      omega

theorem queued (hkept : Kept cfg run) (hmore : run.inFlight + count < 2 ^ 31)
    {limits : DynamicQueueLimits} (hok : run.limits.queued count = .ok limits) :
    Kept cfg { run with limits, inFlight := run.inFlight + count } := by
  rw [DynamicQueueLimits.queued] at hok
  split at hok
  next hobject =>
    cases hok
    refine ⟨hkept.limit_le, hkept.le_limit, hmore, ?_, hkept.adjLimit, hkept.sum, hobject,
      hkept.prevLastObjCnt⟩
    dsimp only
    rw [hkept.numQueued, uint32_add, Nat.add_assoc]
  · cases hok

theorem reset (hkept : Kept cfg run) (hidle : run.inFlight = 0)
    (hcached : run.limits.adjLimit = 0) (now : Int) :
    Kept cfg { run with limits := run.limits.reset now, completedOnce := false } where
  limit_le := Nat.zero_le _
  le_limit := nofun
  inFlight := hkept.inFlight
  numQueued := by
    dsimp only [reset]
    rw [hidle]
    rfl
  adjLimit := hcached
  sum := Nat.two_pow_pos 31
  lastObjCnt := Nat.zero_le _
  prevLastObjCnt := Nat.zero_le _

theorem step (hkept : Kept cfg run) (hcfg : Configured cfg)
    {call : LimitsCall} (hoffer : run.Offered call) (hsound : run.Sound cfg call)
    (hstep : run.step cfg call = .ok next) : Kept cfg next := by
  cases call with
  | queued count =>
    obtain ⟨limits, hlimits, hdone⟩ := bind_eq_ok.mp hstep
    cases hdone
    exact hkept.queued hoffer.2 hlimits
  | completed now count =>
    obtain ⟨limits, hlimits, hdone⟩ := bind_eq_ok.mp hstep
    cases hdone
    exact hkept.completed hcfg hoffer hlimits
  | reset now =>
    cases hstep
    exact hkept.reset hoffer hsound now

theorem step_ok_iff (hkept : Kept cfg run) {call : LimitsCall} (hoffer : run.Offered call) :
    (∃ next, run.step cfg call = .ok next) ↔
      ∀ now count, call = .completed now count → run.limits.NoOverflow cfg count := by
  cases call with
  | queued count =>
    refine iff_of_true ⟨_, bind_eq_ok.mpr ⟨_, if_pos hoffer.1, rfl⟩⟩ fun _ _ hcall => ?_
    cases hcall
  | completed now count =>
    have hok := @completed_ok_iff cfg run now count hkept hoffer
    constructor
    · rintro ⟨next, hstep⟩ _ _ hcall
      obtain ⟨limits, hlimits, -⟩ := bind_eq_ok.mp hstep
      cases hcall
      exact hok.mp ⟨limits, hlimits⟩
    · intro hall
      obtain ⟨limits, hlimits⟩ := hok.mpr (hall now count rfl)
      exact ⟨_, bind_eq_ok.mpr ⟨limits, hlimits, rfl⟩⟩
  | reset now =>
    refine iff_of_true ⟨_, rfl⟩ fun _ _ hcall => ?_
    cases hcall

end Kept

/-- The limit is in its bounds from the first completion on, the room left is the limit without
the bytes in flight, and the calls succeed, but for a completion that overflows. -/
structure Accounts (cfg : LimitsConfig) (run : LimitsRun) : Prop where
  limit_le : run.limits.limit ≤ cfg.maxLimit
  le_limit : run.completedOnce = true → cfg.minLimit ≤ run.limits.limit
  available : run.limits.available = run.limits.limit - run.inFlight
  drained : run.inFlight = 0 → 0 ≤ run.limits.available
  succeeds : ∀ call, run.Offered call → ((∃ next, run.step cfg call = .ok next) ↔
    ∀ now count, call = .completed now count → run.limits.NoOverflow cfg count)

theorem Kept.accounts (hkept : Kept cfg run) (hcfg : Configured cfg) :
    Accounts cfg run where
  limit_le := hkept.limit_le
  le_limit := hkept.le_limit
  available := hkept.available_eq hcfg
  drained hidle := by
    rw [hkept.available_eq hcfg, hidle]
    omega
  succeeds _ hoffer := hkept.step_ok_iff hoffer

theorem accounts_of_reachable (hcfg : Configured cfg) {start : Int}
    (hreach : (machine cfg start).ReachableUnder
      (fun run call => run.Offered call ∧ run.Sound cfg call) run) :
    Accounts cfg run := by
  have hkept : Kept cfg run := hreach.invariant (kept_init cfg start)
    fun _ _ _ hkept hcall hstep => hkept.step hcfg hcall.1 hcall.2 hstep
  exact hkept.accounts hcfg

end LimitsRun

/-! ## The queue of a device -/

inductive DeviceCall
  | notifyQueuedBytes (bytes : Nat)
  | notifyTransmittedBytes (now : Int) (bytes : Nat)
  | resetQueueLimits (now : Int)
  | start
  | stop
  | wake

namespace DeviceCall

def limitsCall : DeviceCall → Option LimitsCall
  | notifyQueuedBytes bytes => some (.queued bytes)
  | notifyTransmittedBytes now bytes => if bytes = 0 then none else some (.completed now bytes)
  | resetQueueLimits now => some (.reset now)
  | start => none
  | stop => none
  | wake => none

end DeviceCall

/-- The device queue, the bytes in flight, and whether something was completed since the limits
were made or reset. -/
structure DeviceRun where
  device : NetDeviceQueue
  inFlight : Nat
  completedOnce : Bool

namespace DeviceRun

def step (cfg : LimitsConfig) (run : DeviceRun) : DeviceCall → Except LimitsFault DeviceRun
  | .notifyQueuedBytes bytes => do
    let device ← run.device.notifyQueuedBytes bytes
    return { run with device, inFlight := run.inFlight + bytes }
  | .notifyTransmittedBytes now bytes => do
    let device ← run.device.notifyTransmittedBytes cfg now bytes
    return ⟨device, run.inFlight - bytes, run.completedOnce || decide (bytes ≠ 0)⟩
  | .resetQueueLimits now =>
    .ok { run with device := run.device.resetQueueLimits now, completedOnce := false }
  | .start => .ok { run with device := run.device.start }
  | .stop => .ok { run with device := run.device.stop }
  | .wake => .ok { run with device := run.device.wake }

def machine (cfg : LimitsConfig) (start : Int) (wakeCallback : Bool) :
    Machine DeviceRun DeviceCall LimitsFault where
  init := ⟨⟨false, false, some (.create start), wakeCallback, 0⟩, 0, false⟩
  step := step cfg

def limitsRun (run : DeviceRun) : Option LimitsRun :=
  run.device.queueLimits.map fun limits => ⟨limits, run.inFlight, run.completedOnce⟩

def Asks (asked : LimitsRun → LimitsCall → Prop) (run : DeviceRun) (call : DeviceCall) : Prop :=
  ∀ inner ∈ run.limitsRun, ∀ innerCall ∈ call.limitsCall, asked inner innerCall

variable {cfg : LimitsConfig} {run next : DeviceRun} {call : DeviceCall} {inner : LimitsRun}

theorem step_limitsRun (hinner : run.limitsRun = some inner)
    (hstep : run.step cfg call = .ok next) :
    ∃ nextInner, next.limitsRun = some nextInner ∧ match call.limitsCall with
      | some innerCall => inner.step cfg innerCall = .ok nextInner
      | none => nextInner = inner := by
  obtain ⟨limits, hlimits, rfl⟩ := Option.map_eq_some_iff.mp hinner
  cases call with
  | notifyQueuedBytes bytes =>
    obtain ⟨device, hdevice, hdone⟩ := bind_eq_ok.mp hstep
    cases hdone
    rw [notifyQueuedBytes, hlimits] at hdevice
    obtain ⟨queued, hqueued, hrest⟩ := bind_eq_ok.mp hdevice
    refine ⟨⟨queued, run.inFlight + bytes, run.completedOnce⟩, ?_,
      bind_eq_ok.mpr ⟨queued, hqueued, rfl⟩⟩
    split at hrest <;> obtain rfl := Except.ok.inj hrest <;> rfl
  | notifyTransmittedBytes now bytes =>
    obtain ⟨device, hdevice, hdone⟩ := bind_eq_ok.mp hstep
    cases hdone
    rw [notifyTransmittedBytes, hlimits] at hdevice
    simp only [DeviceCall.limitsCall]
    dsimp only at hdevice
    split at hdevice
    next hnone =>
      cases hdevice
      subst hnone
      refine ⟨_, Option.map_eq_some_iff.mpr ⟨limits, hlimits, rfl⟩, ?_⟩
      simp
    next hsome =>
      obtain ⟨completed, hcompleted, hrest⟩ := bind_eq_ok.mp hdevice
      rw [if_neg hsome]
      refine ⟨⟨completed, run.inFlight - bytes, true⟩, ?_,
        bind_eq_ok.mpr ⟨completed, hcompleted, rfl⟩⟩
      split at hrest <;> obtain rfl := Except.ok.inj hrest <;> simp [limitsRun, hsome]
  | resetQueueLimits now =>
    cases hstep
    refine ⟨_, ?_, rfl⟩
    simp only [limitsRun, resetQueueLimits, hlimits, Option.map_some]
  | start =>
    cases hstep
    exact ⟨_, Option.map_eq_some_iff.mpr ⟨limits, hlimits, rfl⟩, rfl⟩
  | stop =>
    cases hstep
    exact ⟨_, Option.map_eq_some_iff.mpr ⟨limits, hlimits, rfl⟩, rfl⟩
  | wake =>
    cases hstep
    exact ⟨_, Option.map_eq_some_iff.mpr ⟨limits, hlimits, rfl⟩, rfl⟩

theorem stopped_of_step (hinner : run.limitsRun = some inner) (hstep : run.step cfg call = .ok next)
    (hstop : next.device.stoppedByQueueLimits = true) :
    (run.device.stoppedByQueueLimits = true ∧ run.inFlight ≤ next.inFlight) ∨
      ∃ nextInner ∈ next.limitsRun, nextInner.limits.available < 0 := by
  obtain ⟨limits, hlimits, -⟩ := Option.map_eq_some_iff.mp hinner
  cases call with
  | notifyQueuedBytes bytes =>
    obtain ⟨device, hdevice, hdone⟩ := bind_eq_ok.mp hstep
    cases hdone
    rw [notifyQueuedBytes, hlimits] at hdevice
    obtain ⟨queued, -, hrest⟩ := bind_eq_ok.mp hdevice
    split at hrest
    · cases hrest
      exact .inl ⟨hstop, Nat.le_add_right _ _⟩
    next hfull =>
      cases hrest
      exact .inr ⟨_, rfl, Int.not_le.mp hfull⟩
  | notifyTransmittedBytes now bytes =>
    obtain ⟨device, hdevice, hdone⟩ := bind_eq_ok.mp hstep
    cases hdone
    rw [notifyTransmittedBytes, hlimits] at hdevice
    dsimp only at hdevice
    split at hdevice
    next hzero =>
      cases hdevice
      subst hzero
      exact .inl ⟨hstop, Nat.le_refl _⟩
    · obtain ⟨completed, -, hrest⟩ := bind_eq_ok.mp hdevice
      split at hrest
      next hfull =>
        cases hrest
        exact .inr ⟨_, rfl, hfull⟩
      · cases hrest
        cases hstop
  | resetQueueLimits now =>
    cases hstep
    exact .inl ⟨hstop, Nat.le_refl _⟩
  | start =>
    cases hstep
    exact .inl ⟨hstop, Nat.le_refl _⟩
  | stop =>
    cases hstep
    exact .inl ⟨hstop, Nat.le_refl _⟩
  | wake =>
    cases hstep
    exact .inl ⟨hstop, Nat.le_refl _⟩

structure Kept (cfg : LimitsConfig) (run : DeviceRun) : Prop where
  limits : ∃ inner, run.limitsRun = some inner ∧ inner.Kept cfg
  stopped : run.device.stoppedByQueueLimits = true → 0 < run.inFlight

theorem inFlight_of_limitsRun (hinner : run.limitsRun = some inner) :
    inner.inFlight = run.inFlight := by
  obtain ⟨limits, -, rfl⟩ := Option.map_eq_some_iff.mp hinner
  rfl

theorem Kept.step (hkept : Kept cfg run) (hcfg : LimitsRun.Configured cfg)
    (hoffer : run.Asks LimitsRun.Offered call) (hsound : run.Asks (LimitsRun.Sound cfg) call)
    (hstep : run.step cfg call = .ok next) : Kept cfg next := by
  obtain ⟨inner, hinner, hlimits⟩ := hkept.limits
  obtain ⟨nextInner, hnext, hmoves⟩ := step_limitsRun hinner hstep
  have hnextKept : nextInner.Kept cfg := by
    cases hcall : call.limitsCall with
    | none =>
      rw [hcall] at hmoves
      exact hmoves ▸ hlimits
    | some innerCall =>
      rw [hcall] at hmoves
      exact hlimits.step hcfg (hoffer inner hinner innerCall hcall)
        (hsound inner hinner innerCall hcall) hmoves
  refine ⟨⟨nextInner, hnext, hnextKept⟩, fun hstop => ?_⟩
  rcases stopped_of_step hinner hstep hstop with ⟨hpre, hmore⟩ | ⟨other, hother, hfull⟩
  · exact Nat.lt_of_lt_of_le (hkept.stopped hpre) hmore
  · obtain rfl := Option.some.inj (hnext.symm.trans hother)
    rw [hnextKept.available_eq hcfg, inFlight_of_limitsRun hnext] at hfull
    omega

theorem Kept.succeeds (hkept : Kept cfg run) (hoffer : run.Asks LimitsRun.Offered call) (hsound :
    run.Asks (LimitsRun.Sound cfg) call) : ∃ next, run.step cfg call = .ok next := by
  obtain ⟨inner, hinner, hlimits⟩ := hkept.limits
  obtain ⟨limits, hq, rfl⟩ := Option.map_eq_some_iff.mp hinner
  have hinnerStep : ∀ innerCall, call.limitsCall = some innerCall →
      ∃ next, LimitsRun.step cfg ⟨limits, run.inFlight, run.completedOnce⟩ innerCall =
        .ok next := by
    intro innerCall hcall
    refine (hlimits.step_ok_iff (hoffer _ hinner _ hcall)).mpr fun now count hdone => ?_
    have hsound := hsound _ hinner _ hcall
    rw [hdone] at hsound
    exact hsound
  cases call with
  | notifyQueuedBytes bytes =>
    obtain ⟨next, hstep⟩ := hinnerStep _ rfl
    obtain ⟨queued, hqueued, -⟩ := bind_eq_ok.mp hstep
    simp only [DeviceRun.step, notifyQueuedBytes, hq]
    rw [show limits.queued bytes = .ok queued from hqueued, bind_ok]
    split <;> exact ⟨_, rfl⟩
  | notifyTransmittedBytes now bytes =>
    simp only [DeviceRun.step, notifyTransmittedBytes, hq]
    split
    · exact ⟨_, rfl⟩
    next hsome =>
      obtain ⟨next, hstep⟩ := hinnerStep _ (if_neg hsome)
      obtain ⟨completed, hdone, -⟩ := bind_eq_ok.mp hstep
      rw [show limits.completed cfg now bytes = .ok completed from hdone, bind_ok]
      split <;> exact ⟨_, rfl⟩
  | resetQueueLimits now => exact ⟨_, rfl⟩
  | start => exact ⟨_, rfl⟩
  | stop => exact ⟨_, rfl⟩
  | wake => exact ⟨_, rfl⟩

structure Accounts (cfg : LimitsConfig) (run : DeviceRun) : Prop where
  limits : ∃ inner, run.limitsRun = some inner ∧ inner.Accounts cfg
  stopped : run.device.stoppedByQueueLimits = true → 0 < run.inFlight
  succeeds : ∀ call, run.Asks LimitsRun.Offered call → run.Asks (LimitsRun.Sound cfg) call →
    ∃ next, run.step cfg call = .ok next

theorem accounts_of_reachable (hcfg : LimitsRun.Configured cfg) {start : Int} {wakeCallback : Bool}
    (hreach : (machine cfg start wakeCallback).ReachableUnder
      (fun run call => run.Asks LimitsRun.Offered call ∧ run.Asks (LimitsRun.Sound cfg) call) run) :
    Accounts cfg run := by
  have hkept : Kept cfg run := by
    refine hreach.invariant ?_ fun _ _ _ hkept hcall hstep =>
      hkept.step hcfg hcall.1 hcall.2 hstep
    exact ⟨⟨_, rfl, LimitsRun.kept_init cfg start⟩, nofun⟩
  obtain ⟨inner, hinner, hlimits⟩ := hkept.limits
  exact ⟨⟨inner, hinner, hlimits.accounts hcfg⟩, hkept.stopped,
    fun _ hoffer hsound => hkept.succeeds hoffer hsound⟩

end DeviceRun

/-! ## Every run -/

/-- The limits account for the bytes in flight, on their own and in a device queue. -/
theorem limits_account {cfg : LimitsConfig} (hcfg : LimitsRun.Configured cfg) (start : Int)
    (wakeCallback : Bool) :
    (∀ run,
      (LimitsRun.machine cfg start).ReachableUnder
        (fun run call => run.Offered call ∧ run.Sound cfg call) run →
        run.Accounts cfg) ∧
      ∀ run,
        (DeviceRun.machine cfg start wakeCallback).ReachableUnder
          (fun run call => run.Asks LimitsRun.Offered call ∧ run.Asks (LimitsRun.Sound cfg) call)
          run →
          run.Accounts cfg :=
  ⟨fun _ hreach => LimitsRun.accounts_of_reachable hcfg hreach,
    fun _ hreach => DeviceRun.accounts_of_reachable hcfg hreach⟩

def defaultLimits : LimitsConfig := ⟨DQL_MAX_LIMIT, 0, 10 ^ 9⟩

theorem configured_default : LimitsRun.Configured defaultLimits :=
  ⟨Nat.zero_le _, Nat.le_refl _⟩

def stoppedOnce : DeviceRun where
  device := ⟨false, true, some { DynamicQueueLimits.create 0 with
    numQueued := 10, lastObjCnt := 10 }, true, 0⟩
  inFlight := 10
  completedOnce := false

/-- The completion of all bytes wakes a queue that the limits have stopped. -/
theorem limits_account_woken :
    stoppedOnce.device.stoppedByQueueLimits = true ∧
      ∃ run, stoppedOnce.step defaultLimits (.notifyTransmittedBytes 1 10) = .ok run ∧
        run.device.stoppedByQueueLimits = false ∧
        run.device.wakeUps = 1 ∧
        run.Accounts defaultLimits := by
  have hqueued : (DeviceRun.machine defaultLimits 0 true).ReachableUnder (fun run call =>
      run.Asks LimitsRun.Offered call ∧ run.Asks (LimitsRun.Sound defaultLimits) call)
      stoppedOnce := by
    have hstep : (DeviceRun.machine defaultLimits 0 true).step
        (DeviceRun.machine defaultLimits 0 true).init (.notifyQueuedBytes 10) =
          .ok stoppedOnce := rfl
    refine .step .init ⟨?_, ?_⟩ hstep
    · rintro inner ⟨⟩ innerCall ⟨⟩
      exact ⟨by decide, by decide⟩
    · rintro inner ⟨⟩ innerCall ⟨⟩
      trivial
  obtain ⟨run, hstep, hgoes, hwakes⟩ : ∃ run,
      (DeviceRun.machine defaultLimits 0 true).step stoppedOnce
        (.notifyTransmittedBytes 1 10) = .ok run ∧
      run.device.stoppedByQueueLimits = false ∧ run.device.wakeUps = 1 :=
    ⟨_, rfl, by decide, by decide⟩
  refine ⟨rfl, run, hstep, hgoes, hwakes, (limits_account configured_default 0 true).2 run ?_⟩
  refine hqueued.step ⟨?_, ?_⟩ hstep
  · rintro inner ⟨⟩ innerCall ⟨⟩
    exact Nat.le_refl 10
  · rintro inner ⟨⟩ innerCall ⟨⟩
    unfold LimitsRun.Sound DynamicQueueLimits.NoOverflow DynamicQueueLimits.Grows
      DynamicQueueLimits.Shrinks InInt32
    decide

instance (run : LimitsRun) (call : LimitsCall) : Decidable (run.Offered call) :=
  match call with
  | .queued count => inferInstanceAs (Decidable (count ≤ DQL_MAX_OBJECT ∧ _))
  | .completed _ count => inferInstanceAs (Decidable (count ≤ run.inFlight))
  | .reset _ => inferInstanceAs (Decidable (run.inFlight = 0))

def resetOnce : LimitsRun :=
  (LimitsRun.machine defaultLimits 0).after (fun run call => decide (run.Offered call))
    [.queued 10, .completed 1 10, .reset 2] (LimitsRun.machine defaultLimits 0).init

/-- The cached limit outlives the reset. -/
theorem available_resetOnce :
    LimitsRun.Configured defaultLimits ∧
      (LimitsRun.machine defaultLimits 0).ReachableUnder LimitsRun.Offered resetOnce ∧
      resetOnce.inFlight = 0 ∧ resetOnce.limits.limit = 0 ∧ resetOnce.limits.available = 20 :=
  ⟨configured_default, Machine.ReachableUnder.after (fun _ _ hcall => of_decide_eq_true hcall) _
    .init, by decide, by decide, by decide⟩

end HomaSird.Network
