import HomaSird.Data.TokenBucket
import HomaSird.TrafficControl.CobaltQueueDisc
import HomaSird.TrafficControl.Contract
import HomaSird.TrafficControl.TbfQueueDisc

/-! # The token bucket filter keeps its contract

Both buckets of the filter are token buckets whose refills are rounded. What one call of
`DoDequeue` does to them is said once; the bounds on what is let out follow along every run
in which the child never shows a smaller packet than it then dequeues.
-/

namespace HomaSird.TrafficControl.TbfQueueDisc

open Transition QueueDisc

variable {State Chance : Type} {disc : Discipline State Chance} {cfg : TbfConfig}
  {self next : TbfQueueDisc State} {env : Env (Chance × Chance)} {item : QueueDiscItem}

/-! ## Tokens -/

theorem round_le (value : Rat) : (round value : Rat) ≤ value + 1 / 2 := by
  rw [round]
  split
  · exact Int.floor_le _
  · have hceil := Int.ceil_lt_add_one (value - 1 / 2)
    linarith

theorem remaining_le_size (tokens size : Nat) (rate : UInt64)
    (delta : Rat) (pktSize : Nat) : remaining tokens size rate delta pktSize + pktSize ≤ size := by
  rw [remaining]
  omega

theorem remaining_le_refill (tokens size : Nat) (rate : UInt64) (delta : Rat) (pktSize : Nat) :
    ((remaining tokens size rate delta pktSize + pktSize : Int) : Rat) ≤ tokens + delta *
    ((rate / 8).toNat : Nat) + 1 / 2 := by
  have hmin : ((remaining tokens size rate delta pktSize + pktSize : Int) : Rat) ≤
      ((tokens : Int) + round (delta * ((rate / 8).toNat : Nat)) : Int) := by
    refine Int.cast_le.mpr ?_
    rw [remaining, Int.sub_add_cancel]
    exact min_le_left _ _
  have hround := round_le (delta * ((rate / 8).toNat : Nat))
  push_cast at hmin ⊢
  linarith

theorem lor_nonneg {first second : Int} : 0 ≤ Int.lor first second ↔ 0 ≤ first ∧ 0 ≤ second := by
  cases first with
  | ofNat first =>
    cases second with
    | ofNat second => simp [Int.lor]
    | negSucc second => simp [Int.lor]
  | negSucc first =>
    cases second with
    | ofNat second => simp [Int.lor]
    | negSucc second => simp [Int.lor]

def tokenRate (rate : UInt64) : Rat := ((rate / 8).toNat : Nat) / nanosecondsPerSecond

theorem tokenRate_nonneg (rate : UInt64) : 0 ≤ tokenRate rate := by
  unfold tokenRate
  positivity

theorem takes_remaining {tokens size time now pktSize amount : Nat} {rate : UInt64} {delta : Rat}
    {dequeued : List (Nat × Nat)} (hsz : size < 2 ^ 32)
    (hdelta : delta = ((now : Int) - time : Int) / nanosecondsPerSecond) (hlater : time ≤ now)
    (hamount : amount ≤ pktSize) (henough : 0 ≤ remaining tokens size rate delta pktSize) :
    TokenBucket.Takes size (tokenRate rate) 1 ⟨time, tokens, dequeued⟩ now amount ⟨now,
        uint32OfInt (remaining tokens size rate delta pktSize), dequeued ++ [(now, amount)]⟩ := by
  have hcap := remaining_le_size tokens size rate delta pktSize
  have hrefill := remaining_le_refill tokens size rate delta pktSize
  generalize remaining tokens size rate delta pktSize = left at *
  have hleft : uint32OfInt left = left.toNat := by
    unfold uint32OfInt
    omega
  refine ⟨hlater, rfl, rfl, ?_, ?_⟩
  · change uint32OfInt left + amount ≤ size
    omega
  · change ((uint32OfInt left + amount : Nat) : Rat) ≤ _
    have hcast : ((uint32OfInt left + amount : Nat) : Rat) ≤ ((left + pktSize : Int) : Rat) := by
      have hint : ((uint32OfInt left + amount : Nat) : Int) ≤ left + pktSize := by
        omega
      exact_mod_cast hint
    have hscale : delta * ((rate / 8).toNat : Nat) = tokenRate rate * ((now : Rat) - time) := by
      rw [hdelta, tokenRate]
      push_cast
      ring
    rw [hscale] at hrefill
    linarith

/-! ## One call -/

theorem peakRemaining_le (cfg : TbfConfig) (tokens : Nat) (delta : Rat)
    (pktSize : Nat) : peakRemaining cfg tokens delta pktSize ≤ cfg.mtu.toNat := by
  rw [peakRemaining]
  split
  · have hcap := remaining_le_size tokens cfg.mtu.toNat cfg.peakRate delta pktSize
    omega
  · exact Int.natCast_nonneg _

structure LetsOut (cfg : TbfConfig) (self : TbfQueueDisc State) (now : Nat)
    (item : QueueDiscItem) (pktSize : Nat) (delta : Rat) (next : TbfQueueDisc State) : Prop where
  size : item.size ≤ pktSize
  elapsed : delta = ((now : Int) - self.timeCheckPoint : Int) / nanosecondsPerSecond
  benough : 0 ≤ remaining self.btokens cfg.burst.toNat cfg.rate delta pktSize
  penough : 0 ≤ peakRemaining cfg self.ptokens delta pktSize
  btokens : next.btokens =
    uint32OfInt (remaining self.btokens cfg.burst.toNat cfg.rate delta pktSize)
  ptokens : next.ptokens = uint32OfInt (peakRemaining cfg self.ptokens delta pktSize)
  timeCheckPoint : next.timeCheckPoint = now

theorem setUpWatchdog_tokens {now : Nat} {btoks ptoks : Int}
    (hset : setUpWatchdog cfg now btoks ptoks self = .ok next) :
    next.btokens = self.btokens ∧ next.ptokens = self.ptokens ∧
      next.timeCheckPoint = self.timeCheckPoint ∧ next.child = self.child := by
  rw [setUpWatchdog] at hset
  split at hset
  · cases hset
    exact ⟨rfl, rfl, rfl, rfl⟩
  · obtain ⟨delay, -, hrest⟩ := bind_eq_ok.mp hset
    obtain ⟨peakDelay, -, hset⟩ := bind_eq_ok.mp hrest
    cases hset
    exact ⟨rfl, rfl, rfl, rfl⟩

def btoks (self : TbfQueueDisc State) (cfg : TbfConfig) (now pktSize : Nat) : Int :=
  remaining self.btokens cfg.burst.toNat cfg.rate
    (((now : Int) - self.timeCheckPoint : Int) / nanosecondsPerSecond) pktSize

/-- What the second bucket has more than a packet takes, or nothing without a peak rate. -/
def ptoks (self : TbfQueueDisc State) (cfg : TbfConfig) (now pktSize : Nat) : Int :=
  peakRemaining cfg self.ptokens
    (((now : Int) - self.timeCheckPoint : Int) / nanosecondsPerSecond) pktSize

/-- What `DoDequeue` can do: it gets no packet, lets one out, or blocks the one it sees. -/
inductive Calls (disc : Discipline State Chance) (cfg : TbfConfig) (env : Env (Chance × Chance))
    (self : TbfQueueDisc State) : Option QueueDiscItem → TbfQueueDisc State → Prop where
  | nothing {child : QueueDisc State}
      (hchild : child = (self.child.peek disc ⟨env.now, env.chance.1⟩).2 ∨
        child = ((self.child.peek disc ⟨env.now, env.chance.1⟩).2.dequeue disc
          ⟨env.now, env.chance.2⟩).2) : Calls disc cfg env self none { self with child }
  | letsOut {itemPeek item : QueueDiscItem}
      (hpeek : (self.child.peek disc ⟨env.now, env.chance.1⟩).1 = some itemPeek)
      (hitem : ((self.child.peek disc ⟨env.now, env.chance.1⟩).2.dequeue disc
        ⟨env.now, env.chance.2⟩).1 = some item)
      (hbtoks : 0 ≤ self.btoks cfg env.now itemPeek.size)
      (hptoks : 0 ≤ self.ptoks cfg env.now itemPeek.size) :
      Calls disc cfg env self (some item) { self with
        btokens := uint32OfInt (self.btoks cfg env.now itemPeek.size)
        ptokens := uint32OfInt (self.ptoks cfg env.now itemPeek.size)
        timeCheckPoint := env.now
        child := ((self.child.peek disc ⟨env.now, env.chance.1⟩).2.dequeue disc
          ⟨env.now, env.chance.2⟩).2 }
  | blocks {itemPeek : QueueDiscItem} {next : TbfQueueDisc State}
      (hpeek : (self.child.peek disc ⟨env.now, env.chance.1⟩).1 = some itemPeek)
      (hblocked : ¬ (0 ≤ self.btoks cfg env.now itemPeek.size ∧
        0 ≤ self.ptoks cfg env.now itemPeek.size))
      (hset : setUpWatchdog cfg env.now (self.btoks cfg env.now itemPeek.size)
        (self.ptoks cfg env.now itemPeek.size)
        { self with child := (self.child.peek disc ⟨env.now, env.chance.1⟩).2 } = .ok next) :
      Calls disc cfg env self none next

theorem doDequeue_calls {result : Option QueueDiscItem × TbfQueueDisc State}
    (hcall : doDequeue disc cfg env self = .ok result) :
    Calls disc cfg env self result.1 result.2 := by
  rw [doDequeue] at hcall
  split at hcall
  · cases hcall
    exact .nothing (.inl rfl)
  next itemPeek hpeek =>
    dsimp only at hcall
    split at hcall
    next henough =>
      obtain ⟨hbtoks, hptoks⟩ := lor_nonneg.mp henough
      split at hcall
      · cases hcall
        exact .nothing (.inr rfl)
      next item hitem =>
        cases hcall
        exact .letsOut hpeek hitem hbtoks hptoks
    next hblock =>
      obtain ⟨set, hset, hdone⟩ := bind_eq_ok.mp hcall
      cases hdone
      exact .blocks hpeek (fun hboth => hblock (lor_nonneg.mpr hboth)) hset

theorem doDequeue_cases {result : Option QueueDiscItem × TbfQueueDisc State}
    (hshows : self.ShowsNext disc env) (hcall : doDequeue disc cfg env self = .ok result) :
    (∃ item pktSize delta,
      result.1 = some item ∧ LetsOut cfg self env.now item pktSize delta result.2) ∨
      (result.1 = none ∧ result.2.btokens = self.btokens ∧ result.2.ptokens = self.ptokens ∧
        result.2.timeCheckPoint = self.timeCheckPoint) := by
  have hcalls := doDequeue_calls hcall
  generalize result.1 = answer at *
  generalize result.2 = next at *
  cases hcalls with
  | nothing hchild => exact .inr ⟨rfl, rfl, rfl, rfl⟩
  | @letsOut itemPeek item hpeek hitem hbtoks hptoks =>
    exact .inl ⟨item, itemPeek.size, _, rfl, hshows itemPeek hpeek item hitem, rfl, hbtoks,
      hptoks, rfl, rfl, rfl⟩
  | blocks hpeek hblock hset =>
    obtain ⟨hbtokens, hptokens, htime, -⟩ := setUpWatchdog_tokens hset
    exact .inr ⟨rfl, hbtokens, hptokens, htime⟩

/-! ## Runs -/

/-- `expire` stands for the end of the waking event, whose `Run` may then dequeue. -/
inductive TbfCall (Chance : Type)
  | enqueue (env : Env Chance) (packet : Packet) (dsField : Option UInt8)
  | dequeue (env : Env (Chance × Chance))
  | expire (now : Nat)

/-- The filter, the time of the last call, and when packets of which size have been dequeued. -/
structure TbfRun (State : Type) where
  tbf : TbfQueueDisc State
  clock : Nat
  dequeued : List (Nat × Nat)

namespace TbfRun

def step (disc : Discipline State Chance) (cfg : TbfConfig) (run : TbfRun State) :
    TbfCall Chance → Except TbfFault (TbfRun State)
  | .enqueue env packet dsField =>
    .ok { run with
      tbf := (run.tbf.doEnqueue disc env (.arriving env.now packet dsField)).2
      clock := env.now }
  | .dequeue env => do
    let result ← doDequeue disc cfg env run.tbf
    return ⟨result.2, env.now,
      run.dequeued ++ result.1.toList.map fun item => (env.now, item.size)⟩
  | .expire now => .ok { run with tbf := { run.tbf with id := none }, clock := now }

def machine (disc : Discipline State Chance) (cfg : TbfConfig) (child : QueueDisc State) :
    Machine (TbfRun State) (TbfCall Chance) TbfFault where
  init := ⟨initializeParams cfg child, 0, []⟩
  step := step disc cfg

def time : TbfCall Chance → Nat
  | .enqueue env _ _ => env.now
  | .dequeue env => env.now
  | .expire now => now

def Honest (disc : Discipline State Chance) (run : TbfRun State) (call : TbfCall Chance) : Prop :=
  run.clock ≤ time call ∧
    match call with
    | .dequeue env => run.tbf.ShowsNext disc env
    | _ => True

def within (run : TbfRun State) (start stop : Nat) : List Nat :=
  TokenBucket.within start stop run.dequeued

/-- No bucket has let out more in an interval than it holds and the interval brings, but for one
byte for each packet. -/
structure MeetsContract (cfg : TbfConfig) (run : TbfRun State) : Prop where
  btokens : run.tbf.btokens ≤ cfg.burst.toNat
  ptokens : run.tbf.ptokens ≤ cfg.mtu.toNat
  burst : ∀ start stop, start ≤ stop → ((run.within start stop).sum : Rat) ≤
    cfg.burst.toNat + ((stop : Rat) - start) / nanosecondsPerSecond * (cfg.rate / 8).toNat +
      (run.within start stop).length
  peak : 0 < cfg.peakRate → ∀ start stop, start ≤ stop →
    ((run.within start stop).sum : Rat) ≤ cfg.mtu.toNat +
      ((stop : Rat) - start) / nanosecondsPerSecond * (cfg.peakRate / 8).toNat +
        (run.within start stop).length

structure Kept (cfg : TbfConfig) (run : TbfRun State) : Prop where
  time : run.tbf.timeCheckPoint ≤ run.clock
  burst : TokenBucket.Bounded cfg.burst.toNat (tokenRate cfg.rate) (1 : Rat)
    ⟨run.tbf.timeCheckPoint, run.tbf.btokens, run.dequeued⟩
  ptokens : run.tbf.ptokens ≤ cfg.mtu.toNat
  peak : 0 < cfg.peakRate →
    TokenBucket.Bounded cfg.mtu.toNat (tokenRate cfg.peakRate) (1 : Rat)
      ⟨run.tbf.timeCheckPoint, run.tbf.ptokens, run.dequeued⟩

variable {run after : TbfRun State} {child : QueueDisc State}

theorem Kept.init (disc : Discipline State Chance) (cfg : TbfConfig)
    (child : QueueDisc State) : Kept cfg (machine disc cfg child).init where
  time := le_rfl
  burst := .initial (tokenRate_nonneg _) 0
  ptokens := le_rfl
  peak _ := .initial (tokenRate_nonneg _) 0

theorem Kept.congr (hkept : Kept cfg run) (htime : run.clock ≤ after.clock)
    (hbtokens : after.tbf.btokens = run.tbf.btokens)
    (hptokens : after.tbf.ptokens = run.tbf.ptokens)
    (hcheck : after.tbf.timeCheckPoint = run.tbf.timeCheckPoint)
    (hdeq : after.dequeued = run.dequeued) : Kept cfg after where
  time := hcheck ▸ le_trans hkept.time htime
  burst := by
    rw [hbtokens, hcheck, hdeq]
    exact hkept.burst
  ptokens := hptokens ▸ hkept.ptokens
  peak := by
    rw [hptokens, hcheck, hdeq]
    exact hkept.peak

theorem Kept.letsOut (hkept : Kept cfg run) {now : Nat} {item : QueueDiscItem} {pktSize : Nat}
    {delta : Rat} (hclock : run.clock ≤ now)
    (hout : LetsOut cfg run.tbf now item pktSize delta next) :
    Kept cfg ⟨next, now, run.dequeued ++ [(now, item.size)]⟩ := by
  obtain ⟨hsz, helapsed, hbenough, hpenough, hbtokens, hptokens, htime⟩ := hout
  have hlater := le_trans hkept.time hclock
  have hpcap := peakRemaining_le cfg run.tbf.ptokens delta pktSize
  refine ⟨le_of_eq htime, ?_, ?_, fun hpeak => ?_⟩
  · simp only [hbtokens, htime]
    exact hkept.burst.takes (tokenRate_nonneg _) zero_le_one
      (takes_remaining cfg.burst.toNat_lt helapsed hlater hsz hbenough)
  · rw [hptokens]
    unfold uint32OfInt
    omega
  · simp only [hptokens, htime]
    rw [peakRemaining, if_pos hpeak] at hpenough ⊢
    exact (hkept.peak hpeak).takes (tokenRate_nonneg _) zero_le_one
      (takes_remaining cfg.mtu.toNat_lt helapsed hlater hsz hpenough)

theorem Kept.step (hkept : Kept cfg run) {call : TbfCall Chance} (hhonest : run.Honest disc call)
    (hstep : run.step disc cfg call = .ok after) : Kept cfg after := by
  obtain ⟨hclock, hshows⟩ := hhonest
  cases call with
  | enqueue env packet dsField =>
    cases hstep
    exact hkept.congr hclock rfl rfl rfl rfl
  | dequeue env =>
    obtain ⟨result, hcall, hdone⟩ := bind_eq_ok.mp hstep
    cases hdone
    rcases doDequeue_cases hshows hcall with ⟨item, pktSize, delta, hitem, hout⟩ |
      ⟨hnone, hbtokens, hptokens, htime⟩
    · rw [hitem]
      exact hkept.letsOut hclock hout
    · rw [hnone]
      exact hkept.congr hclock hbtokens hptokens htime (List.append_nil _)
  | expire now =>
    cases hstep
    exact hkept.congr hclock rfl rfl rfl rfl

theorem Kept.contract (hkept : Kept cfg run) : MeetsContract cfg run := by
  have hbd : ∀ {capacity : Nat} {rate : UInt64} {start stop : Nat} {amounts : List Nat},
      TokenBucket.Below capacity (tokenRate rate) (1 : Rat) start stop 0 amounts →
        (amounts.sum : Rat) ≤ capacity +
          ((stop : Rat) - start) / nanosecondsPerSecond * (rate / 8).toNat + amounts.length := by
    intro capacity rate start stop amounts hbelow
    have hscale : tokenRate rate * ((stop : Rat) - start) =
        ((stop : Rat) - start) / nanosecondsPerSecond * (rate / 8).toNat := by
      unfold tokenRate
      ring
    simp only [TokenBucket.Below, hscale, Nat.cast_zero, one_mul] at hbelow
    linarith
  refine ⟨hkept.burst.tokens, hkept.ptokens, fun start stop hle => ?_,
    fun hpeak start stop hle => ?_⟩
  · exact hbd (hkept.burst.always start stop hle)
  · exact hbd ((hkept.peak hpeak).always start stop hle)

/-- As long as its child dequeues what it shows, a filter keeps its contract. -/
theorem meetsContract
    (hreach : (machine disc cfg child).ReachableUnder (Honest disc) run) :
    MeetsContract cfg run := by
  refine (hreach.invariant (Kept.init disc cfg child) ?_).contract
  exact fun state call next hkept hhonest hstep => hkept.step hhonest hstep

instance (env : Env (Chance × Chance)) (self : TbfQueueDisc State) :
    Decidable (self.ShowsNext disc env) :=
  inferInstanceAs (Decidable (∀ itemPeek ∈ Prod.fst _, ∀ item ∈ Prod.fst _, _ ≤ _))

instance (run : TbfRun State) (call : TbfCall Chance) : Decidable (Honest disc run call) :=
  match call with
  | .enqueue _ _ _ => inferInstanceAs (Decidable (_ ≤ _ ∧ True))
  | .dequeue env => inferInstanceAs (Decidable (_ ≤ _ ∧ run.tbf.ShowsNext disc env))
  | .expire _ => inferInstanceAs (Decidable (_ ≤ _ ∧ True))

def smallSetup : TbfSetup where
  config := ⟨1000, 1500, 8, 0⟩
  maxSize := ⟨.packets, 1000⟩
  nInternalQueues := 0
  nPacketFilters := 0
  nQueueDiscClasses := 1
  deviceMtu := none

def fifoMachine : Machine (TbfRun DropTailQueue) (TbfCall Unit) TbfFault :=
  machine (fifoQueueDisc ⟨.packets, 1000⟩) smallSetup.config
    (QueueDisc.init (fifoQueueDisc ⟨.packets, 1000⟩) 64 none)

def fullBurst : TbfRun DropTailQueue :=
  fifoMachine.after
    (fun run call => decide (Honest (fifoQueueDisc ⟨.packets, 1000⟩) run call))
    [.enqueue ⟨0, ()⟩ ⟨1, 600, 0⟩ none, .enqueue ⟨0, ()⟩ ⟨2, 400, 0⟩ none,
      .dequeue ⟨10, (), ()⟩, .dequeue ⟨10, (), ()⟩] fifoMachine.init

theorem meetsContract_fullBurst :
    fullBurst.dequeued = [(10, 600), (10, 400)] ∧ MeetsContract smallSetup.config fullBurst := by
  refine ⟨by decide +kernel, ?_⟩
  have hreach : fifoMachine.ReachableUnder (Honest (fifoQueueDisc ⟨.packets, 1000⟩)) fullBurst :=
    Machine.ReachableUnder.after (fun _ _ h => of_decide_eq_true h) _ .init
  exact meetsContract hreach

/-! ## Children that dequeue what they show -/

theorem showsNext_of_default (hdefault : disc.doPeek = none)
    (self : TbfQueueDisc State) (env : Env (Chance × Chance)) : self.ShowsNext disc env := by
  intro itemPeek hpeek item hitem
  rw [peek, hdefault] at hpeek hitem
  dsimp only at hpeek hitem
  rw [doPeek] at hpeek hitem
  split at hpeek
  next held hheld =>
    rw [hheld] at hitem
    rw [dequeue_of_some disc hheld] at hitem
    cases hpeek
    cases hitem
    exact le_rfl
  next hfree =>
    rw [hfree] at hitem
    rw [dequeue_of_some disc hpeek] at hitem
    cases hitem
    exact le_rfl

def InTime (run : TbfRun State) (call : TbfCall Chance) : Prop := run.clock ≤ time call

instance (run : TbfRun State) (call : TbfCall Chance) : Decidable (InTime run call) :=
  inferInstanceAs (Decidable (_ ≤ _))

/-- Any child with the base class's `DoPeek` will do, whatever it drops or delays. -/
theorem contract_of_default (hdefault : disc.doPeek = none)
    (hreach : (machine disc cfg child).ReachableUnder InTime run) :
    MeetsContract cfg run := by
  refine (hreach.invariant (Kept.init disc cfg child) ?_).contract
  intro state call next hkept hintime hstep
  refine hkept.step ?_ hstep
  cases call with
  | enqueue => exact ⟨hintime, trivial⟩
  | dequeue env => exact ⟨hintime, showsNext_of_default hdefault _ env⟩
  | expire => exact ⟨hintime, trivial⟩

def peekedFifo : Discipline DropTailQueue Unit :=
  { fifoQueueDisc ⟨.packets, 1000⟩ with doPeek := none }

theorem contract_of_default_fifo :
    let machine := machine peekedFifo smallSetup.config (QueueDisc.init peekedFifo 64 none)
    let run := machine.after (fun run call => decide (InTime run call))
      [.enqueue ⟨0, ()⟩ ⟨1, 600, 0⟩ none, .enqueue ⟨0, ()⟩ ⟨2, 400, 0⟩ none,
        .enqueue ⟨5, ()⟩ ⟨3, 300, 0⟩ none, .dequeue ⟨10, (), ()⟩, .dequeue ⟨10, (), ()⟩,
        .dequeue ⟨20, (), ()⟩, .dequeue ⟨400000000000, (), ()⟩] machine.init
    run.dequeued = [(10, 600), (10, 400), (400000000000, 300)] ∧
      MeetsContract smallSetup.config run := by
  intro machine run
  have hreach : machine.ReachableUnder InTime run :=
    Machine.ReachableUnder.after (fun _ _ h => of_decide_eq_true h) _ .init
  exact ⟨by decide +kernel, contract_of_default rfl hreach⟩

/-! ## A child that does not -/

def cobaltDefaults : CobaltConfig where
  maxSize := ⟨.packets, 1000⟩
  interval := 100000000
  target := 5000000
  useEcn := false
  pDrop := 0
  increment := 1 / 256
  decrement := 1 / 4096

def cobaltMachine : Machine (TbfRun CobaltState) (TbfCall (Nat → Rat)) TbfFault :=
  machine (cobaltQueueDisc cobaltDefaults) smallSetup.config
    (QueueDisc.init (cobaltQueueDisc cobaltDefaults) 64 none)

def shownAndDropped : TbfRun CobaltState :=
  cobaltMachine.after (fun run call => decide (InTime run call))
    [.enqueue ⟨0, fun _ => 0⟩ ⟨1, 100, 0⟩ none, .enqueue ⟨0, fun _ => 0⟩ ⟨2, 100, 0⟩ none,
      .enqueue ⟨0, fun _ => 0⟩ ⟨3, 1400, 0⟩ none,
      .dequeue ⟨10000000, fun _ => 0, fun _ => 0⟩, .dequeue ⟨15000000, fun _ => 0, fun _ => 0⟩]
    cobaltMachine.init

/-- The second packet of 100 bytes is shown, and dropped when the child dequeues. -/
theorem cobalt_exceeds_contract :
    checkConfig smallSetup = some smallSetup.config ∧
      cobaltMachine.ReachableUnder InTime shownAndDropped ∧
      shownAndDropped.dequeued = [(10000000, 100), (15000000, 1400)] ∧
      ¬MeetsContract smallSetup.config shownAndDropped := by
  have hdequeued : shownAndDropped.dequeued = [(10000000, 100), (15000000, 1400)] := by
    decide +kernel
  refine ⟨rfl, Machine.ReachableUnder.after (fun _ _ h => of_decide_eq_true h) _ .init, hdequeued,
    fun hmeets => ?_⟩
  have hburst := hmeets.burst 10000000 15000000 (by decide)
  rw [within, hdequeued] at hburst
  revert hburst
  decide +kernel

end TbfRun

end HomaSird.TrafficControl.TbfQueueDisc
