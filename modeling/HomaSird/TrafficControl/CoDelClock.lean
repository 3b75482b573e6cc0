import HomaSird.TrafficControl.CoDelSafety

/-! # The clock of a CoDel queue disc

CoDel keeps its times in words that wrap, and compares them as numbers. Two runs whose times
differ by a multiple of the clock's unit take the same decisions as long as these comparisons come
out the same, and no time that is stored for later is the zero that stands for none.
-/

namespace HomaSird.TrafficControl

open Callback CoDelQueueDisc QueueDiscItem DropTailQueue

/-! ## All times moved -/

def unitsInNanoseconds (units : Nat) : Nat := 2 ^ CoDelQueueDisc.CODEL_SHIFT * units

def QueueDiscItem.moved (units : Nat) (item : QueueDiscItem) : QueueDiscItem :=
  { item with timeStamp := item.timeStamp + unitsInNanoseconds units }

def Callback.moved (units : Nat) : Callback → Callback
  | .packetEnqueued item => .packetEnqueued (item.moved units)
  | .packetDequeued item => .packetDequeued (item.moved units)
  | .dropBeforeEnqueue item reason => .dropBeforeEnqueue (item.moved units) reason
  | .dropAfterDequeue item reason => .dropAfterDequeue (item.moved units) reason
  | .mark item reason => .mark (item.moved units) reason

def Env.moved (units : Nat) (env : Env Unit) : Env Unit :=
  { env with now := env.now + unitsInNanoseconds units }

namespace DropTailQueue

def moved (units : Nat) (queue : DropTailQueue) : DropTailQueue :=
  { queue with packets := queue.packets.map (QueueDiscItem.moved units) }

theorem moved_dequeue (units : Nat) (queue : DropTailQueue) :
    (queue.moved units).dequeue =
      (queue.dequeue.1.map (QueueDiscItem.moved units), queue.dequeue.2.moved units) := by
  by_cases hzero : queue.nPackets = 0
  · simp [dequeue, moved, hzero]
  · cases hpkts : queue.packets <;>
      simp [dequeue, moved, hzero, hpkts, QueueDiscItem.moved]

theorem moved_enqueue (units : Nat) (queue : DropTailQueue) (item : QueueDiscItem) :
    (queue.moved units).enqueue (item.moved units) =
      ((queue.enqueue item).1, (queue.enqueue item).2.moved units) := by
  by_cases hfull : (queue.getCurrentSize.add item.size).value > queue.maxSize.value
  · rw [enqueue, enqueue, if_pos hfull]
    exact if_pos hfull
  · rw [enqueue, enqueue, if_neg hfull]
    refine (if_neg hfull).trans ?_
    simp [moved, QueueDiscItem.moved]

end DropTailQueue

theorem QueueDiscItem.moved_mark (units : Nat)
    (item : QueueDiscItem) : (item.moved units).mark = item.mark.map (moved units) := by
  rw [mark, mark]
  cases hfield : item.dsField with
  | none => simp [moved, hfield]
  | some dsField =>
    by_cases hcan : item.headersAdded = 0 ∧ dsField &&& 3 ≠ 0
    · simp [moved, hfield, hcan]
    · simp only [moved, hfield, if_neg hcan]
      rfl

namespace CoDelQueueDisc

variable {cfg : CoDelConfig} {now units : Nat} {item : QueueDiscItem}
  {state later : CoDelState} {fetch other : Fetch}

theorem time2CoDel_moved (now units : Nat) :
    time2CoDel ((now + unitsInNanoseconds units : Nat) : Int) =
      uint32 (time2CoDel now + units) := by
  simp only [time2CoDel, unitsInNanoseconds, uint32OfInt, uint32, CODEL_SHIFT]
  omega

theorem sojourn_moved (now units : Nat) (item : QueueDiscItem) :
    sojourn (now + unitsInNanoseconds units) (item.moved units) = sojourn now item := by
  rw [sojourn, sojourn, QueueDiscItem.moved]
  congr 1
  push_cast
  ring

theorem isL4s_moved (cfg : CoDelConfig) (units : Nat) (item : QueueDiscItem) :
    isL4s cfg (item.moved units) = isL4s cfg item := rfl

/-! ## Two runs -/

/-- The later state is the earlier one with its times moved, that of the next drop once dropping
was entered. -/
structure Moved (units : Nat) (state later : CoDelState) : Prop where
  queue : later.queue = state.queue.moved units
  count : later.count = state.count
  lastCount : later.lastCount = state.lastCount
  dropping : later.dropping = state.dropping
  recInvSqrt : later.recInvSqrt = state.recInvSqrt
  nullUsed : later.nullUsed = state.nullUsed
  unset : later.firstAboveTime = 0 ↔ state.firstAboveTime = 0
  firstAboveTime : state.firstAboveTime ≠ 0 →
    later.firstAboveTime = uint32 (state.firstAboveTime + units)
  dropNext : later.dropNext = uint32 (state.dropNext + units) ∨
    state.dropping = false ∧ state.count = state.lastCount

/-- Both calls of `DoDequeue` have the same at hand. -/
structure FetchMoved (units : Nat) (fetch other : Fetch) : Prop where
  item : other.item = fetch.item.map (QueueDiscItem.moved units)
  state : Moved units fetch.state other.state
  reports : other.reports = fetch.reports.map (Callback.moved units)
  isMarked : other.isMarked = fetch.isMarked

def Late (cfg : CoDelConfig) (now : Nat) (item : QueueDiscItem) (behind : DropTailQueue) :
    Prop :=
  ¬ sojourn now item < time2CoDel cfg.target ∧ cfg.minBytes ≤ behind.nBytes

/-- `OkToDrop` compares and stores times alike in both runs. -/
structure ChecksAlike (cfg : CoDelConfig) (now units : Nat) (state : CoDelState) : Prop where
  compared : state.firstAboveTime ≠ 0 → (state.firstAboveTime < time2CoDel now ↔
    uint32 (state.firstAboveTime + units) < uint32 (time2CoDel now + units))
  stored : state.firstAboveTime = 0 →
    uint32 (time2CoDel now + time2CoDel cfg.interval) ≠ 0 ∧
      uint32 (time2CoDel now + time2CoDel cfg.interval + units) ≠ 0

/-- The comparison with the time of a drop comes out the same in both runs. -/
def DueAlike (now units dropNext : Nat) : Prop :=
  dropNext ≤ time2CoDel now ↔ uint32 (dropNext + units) ≤ uint32 (time2CoDel now + units)

def DropsAt (cfg : CoDelConfig) (now : Nat) (queue : DropTailQueue) (pace : Pace)
    (place : Nat) : Prop :=
  ∃ item, (queue.behind place).dequeue.1 = some item ∧
    Droppable cfg now item (queue.behind (place + 1)) ∧
      (pace.after cfg place).dropNext ≤ time2CoDel now

def ComparedAt (cfg : CoDelConfig) (now : Nat) (queue : DropTailQueue) (place : Nat) : Prop :=
  ∃ item, (queue.behind place).dequeue.1 = some item ∧
    Late cfg now item (queue.behind (place + 1))

/-- The comparisons of the loop come out the same in both runs, up to the first that ends it. -/
def LoopAlike (cfg : CoDelConfig) (now units : Nat) (queue : DropTailQueue) (pace : Pace) :
    Prop :=
  ∀ place, (∀ before < place, DropsAt cfg now queue pace before) →
    ComparedAt cfg now queue place → DueAlike now units (pace.after cfg place).dropNext

theorem okToDrop_moved (hmoved : Moved units state later)
    (halike : Late cfg now item state.queue → ChecksAlike cfg now units state) :
    (okToDrop cfg (now + unitsInNanoseconds units) (some (item.moved units)) later).1 =
      (okToDrop cfg now (some item) state).1 ∧
      Moved units (okToDrop cfg now (some item) state).2
        (okToDrop cfg (now + unitsInNanoseconds units) (some (item.moved units)) later).2 := by
  have hbytes : later.queue.nBytes = state.queue.nBytes := by rw [hmoved.queue]; rfl
  simp only [okToDrop, sojourn_moved, hbytes, time2CoDel_moved]
  by_cases hlate : sojourn now item < time2CoDel cfg.target ∨
      state.queue.nBytes < cfg.minBytes
  · rw [if_pos hlate, if_pos hlate]
    exact ⟨rfl, { hmoved with unset := Iff.rfl, firstAboveTime := fun hne => absurd rfl hne }⟩
  rw [if_neg hlate, if_neg hlate]
  have hchecks := halike ((not_or.mp hlate).imp_right Nat.le_of_not_lt)
  by_cases hunset : state.firstAboveTime = 0
  · rw [if_pos hunset, if_pos (hmoved.unset.mpr hunset)]
    obtain ⟨hearly, hmore⟩ := hchecks.stored hunset
    have hstored : uint32 (uint32 (time2CoDel now + units) + time2CoDel cfg.interval) =
        uint32 (time2CoDel now + time2CoDel cfg.interval + units) := by
      rw [uint32_add, add_right_comm]
    refine ⟨rfl, { hmoved with unset := ?_, firstAboveTime := fun _ => ?_ }⟩
    · simp only [hstored]
      exact iff_of_false hmore hearly
    · simp only [hstored, uint32_add]
  · rw [if_neg hunset, if_neg (mt hmoved.unset.mp hunset)]
    refine ⟨?_, hmoved⟩
    simp only [hmoved.firstAboveTime hunset, gt_iff_lt]
    exact decide_eq_decide.mpr (hchecks.compared hunset).symm

theorem okToDrop_moved_none (hmoved : Moved units state later) :
    Moved units (okToDrop cfg now none state).2
      (okToDrop cfg (now + unitsInNanoseconds units) none later).2 :=
  { hmoved with unset := Iff.rfl, firstAboveTime := fun hne => absurd rfl hne }

theorem okToDrop_frame (cfg : CoDelConfig)
    (now : Nat) (item : Option QueueDiscItem) (state : CoDelState) :
    ∃ firstAboveTime, (okToDrop cfg now item state).2 = { state with firstAboveTime } := by
  unfold okToDrop
  split
  · exact ⟨_, rfl⟩
  · split_ifs
    · exact ⟨_, rfl⟩
    · exact ⟨_, rfl⟩
    · exact ⟨state.firstAboveTime, rfl⟩

theorem ChecksAlike.congr (halike : ChecksAlike cfg now units state) {next : CoDelState}
    (hsame : next.firstAboveTime = state.firstAboveTime) : ChecksAlike cfg now units next :=
  ⟨hsame ▸ halike.compared, hsame ▸ halike.stored⟩

theorem Moved.law (hmoved : Moved units state later)
    (hdrop : state.dropping = true) : later.dropNext = uint32 (state.dropNext + units) :=
  hmoved.dropNext.resolve_right fun hidle => by
    rw [hdrop] at hidle
    cases hidle.1

theorem controlLaw_moved (time interval recInvSqrt units : Nat) :
    controlLaw (uint32 (time + units)) interval recInvSqrt =
      uint32 (controlLaw time interval recInvSqrt + units) := by
  rw [controlLaw, controlLaw, uint32_add, uint32_add, add_right_comm]

theorem Moved.startDropping (hmoved : Moved units state later) :
    Moved units (CoDelQueueDisc.startDropping cfg now state)
      (CoDelQueueDisc.startDropping cfg (now + unitsInNanoseconds units) later) := by
  have hrecent : (1 < uint32OfInt ((state.count : Int) - state.lastCount) ∧
        uint32OfInt ((state.count : Int) - state.lastCount) < 2 ^ 31) →
      uint32OfInt ((uint32 (time2CoDel now + units) : Int) - later.dropNext) =
        uint32OfInt ((time2CoDel now : Int) - state.dropNext) := by
    intro hdelta
    rcases hmoved.dropNext with hlaw | ⟨-, hsame⟩
    · rw [hlaw]
      simp only [uint32, uint32OfInt]
      omega
    · -- no drop has been counted, and the time is not looked at
      rw [hsame, Int.sub_self] at hdelta
      exact absurd hdelta.1 (by decide)
  simp only [CoDelQueueDisc.startDropping, hmoved.count, hmoved.lastCount, hmoved.recInvSqrt,
    time2CoDel_moved]
  by_cases hdelta : 1 < uint32OfInt ((state.count : Int) - state.lastCount) ∧
      uint32OfInt ((state.count : Int) - state.lastCount) < 2 ^ 31
  · rw [hrecent hdelta]
    exact { hmoved with
      count := rfl, lastCount := rfl, dropping := rfl, recInvSqrt := rfl
      dropNext := .inl (controlLaw_moved ..) }
  · simp only [hdelta, false_and, if_false]
    exact { hmoved with
      count := rfl, lastCount := rfl, dropping := rfl, recInvSqrt := rfl
      dropNext := .inl (controlLaw_moved ..) }

namespace FetchMoved

theorem setState (hfetch : FetchMoved units fetch other) (hmoved : Moved units state later) :
    FetchMoved units (fetch.setState state) (other.setState later) where
  __ := hfetch
  state := hmoved

theorem marked (hfetch : FetchMoved units fetch other) (isMarked : Bool) :
    FetchMoved units { fetch with isMarked } { other with isMarked } where
  __ := hfetch
  isMarked := rfl

theorem mark (hfetch : FetchMoved units fetch other) (reason : String) :
    Option.Rel (FetchMoved units) (fetch.mark reason) (other.mark reason) := by
  rw [Fetch.mark, Fetch.mark, hfetch.item]
  cases fetch.item with
  | none => exact .none
  | some item =>
    simp only [Option.map_some, Option.bind_some, moved_mark]
    cases item.mark with
    | none => exact .none
    | some marked =>
      refine .some ⟨rfl, hfetch.state, ?_, hfetch.isMarked⟩
      simp [hfetch.reports, Callback.moved]

theorem dropAndDequeue (hfetch : FetchMoved units fetch other) :
    FetchMoved units fetch.dropAndDequeue other.dropAndDequeue := by
  have hmoved := hfetch.state
  rw [Fetch.dropAndDequeue, Fetch.dropAndDequeue, hfetch.item]
  cases fetch.item with
  | none => exact ⟨rfl, { hmoved with nullUsed := rfl }, hfetch.reports, hfetch.isMarked⟩
  | some item =>
    simp only [Option.map_some, hmoved.queue, moved_dequeue]
    refine ⟨rfl, { hmoved with queue := rfl }, ?_, hfetch.isMarked⟩
    rw [hfetch.reports]
    cases fetch.state.queue.dequeue.1 <;> simp [Callback.moved]

theorem markIf (hfetch : FetchMoved units fetch other) (cfg : CoDelConfig) (reason : String) :
    Option.Rel (FetchMoved units) (if cfg.useEcn then fetch.mark reason else none)
      (if cfg.useEcn then other.mark reason else none) := by
  split
  · exact hfetch.mark reason
  · exact .none

theorem okToDrop (hfetch : FetchMoved units fetch other)
    (halike : ∀ item,
      fetch.item = some item → Late cfg now item fetch.state.queue →
        ChecksAlike cfg now units fetch.state) :
    (okToDrop cfg (now + unitsInNanoseconds units) other.item other.state).1 =
      (okToDrop cfg now fetch.item fetch.state).1 ∧
      Moved units (okToDrop cfg now fetch.item fetch.state).2
        (okToDrop cfg (now + unitsInNanoseconds units) other.item other.state).2 := by
  rw [hfetch.item]
  cases hitem : fetch.item with
  | none => exact ⟨rfl, okToDrop_moved_none hfetch.state⟩
  | some item => exact okToDrop_moved hfetch.state (halike item hitem)

theorem dropOnce (hfetch : FetchMoved units fetch other) (hdropping : fetch.state.dropping = true)
    (halike : ChecksAlike cfg now units fetch.state) :
    (CoDelQueueDisc.dropOnce cfg (now + unitsInNanoseconds units) other).1 =
      (CoDelQueueDisc.dropOnce cfg now fetch).1 ∧
      FetchMoved units (CoDelQueueDisc.dropOnce cfg now fetch).2
        (CoDelQueueDisc.dropOnce cfg (now + unitsInNanoseconds units) other).2 := by
  have hmoved := hfetch.state
  simp only [CoDelQueueDisc.dropOnce, hmoved.count, hmoved.recInvSqrt, time2CoDel_moved]
  generalize uint32 (fetch.state.count + 1) = count
  generalize newtonStep fetch.state.recInvSqrt count = recInvSqrt
  have hcnt : FetchMoved units (fetch.setState { fetch.state with count, recInvSqrt })
      (other.setState { other.state with count, recInvSqrt }) := hfetch.setState
    { hmoved with count := rfl, recInvSqrt := rfl, dropNext := .inl (hmoved.law hdropping) }
  have hkept : (fetch.setState { fetch.state with count, recInvSqrt }).dropAndDequeue.state.dropping
        = true ∧
      (fetch.setState { fetch.state with
        count, recInvSqrt }).dropAndDequeue.state.firstAboveTime = fetch.state.firstAboveTime := by
    rw [Fetch.dropAndDequeue]
    split <;> exact ⟨hdropping, rfl⟩
  generalize fetch.setState { fetch.state with count, recInvSqrt } = counted at hcnt hkept ⊢
  generalize other.setState { other.state with count, recInvSqrt } = countedLater at hcnt ⊢
  have hmark := hcnt.markIf cfg TARGET_EXCEEDED_MARK
  generalize (if cfg.useEcn then counted.mark TARGET_EXCEEDED_MARK else none) = first
    at hmark ⊢
  generalize (if cfg.useEcn then countedLater.mark TARGET_EXCEEDED_MARK else none) = second
    at hmark ⊢
  cases hmark with
  | @some marked markedLater hmarked =>
    have hnext : Moved units
        { marked.state with
          dropNext := controlLaw (time2CoDel now) (time2CoDel cfg.interval) recInvSqrt }
        { markedLater.state with
          dropNext := controlLaw (uint32 (time2CoDel now + units)) (time2CoDel cfg.interval)
            recInvSqrt } :=
      { hmarked.state with dropNext := .inl (controlLaw_moved ..) }
    exact ⟨rfl, (hmarked.setState hnext).marked true⟩
  | none =>
    have hdrop := hcnt.dropAndDequeue
    obtain ⟨hsame, hcheck⟩ := hdrop.okToDrop fun _ _ _ => halike.congr hkept.2
    obtain ⟨firstAboveTime, hframe⟩ := okToDrop_frame cfg now counted.dropAndDequeue.item
      counted.dropAndDequeue.state
    have hlaw := hcheck.law (by rw [hframe]; exact hkept.1)
    simp only [hsame]
    split
    · refine ⟨rfl, hdrop.setState { hcheck with dropNext := .inl ?_ }⟩
      rw [hlaw, hcheck.recInvSqrt]
      exact controlLaw_moved ..
    · exact ⟨rfl, hdrop.setState { hcheck with dropping := rfl, dropNext := .inl hlaw }⟩

theorem dropWhile (rounds : Nat) (hfetch : FetchMoved units fetch other)
    (hitem : fetch.item = some item) (hdrop : fetch.state.dropping = true)
    (habove : Above now fetch.state) (halike : ChecksAlike cfg now units fetch.state)
    (hdue : DueAlike now units fetch.state.dropNext)
    (hlater : (cfg.useEcn = true → item.mark = none) → fetch.state.dropNext ≤ time2CoDel now →
      LoopAlike cfg now units fetch.state.queue ((pace fetch.state).next cfg)) :
    FetchMoved units (CoDelQueueDisc.dropWhile cfg now rounds fetch)
      (CoDelQueueDisc.dropWhile cfg (now + unitsInNanoseconds units) rounds other) := by
  induction rounds generalizing fetch other item with
  | zero => exact hfetch
  | succ rounds ih =>
    have hmoved := hfetch.state
    rw [dropWhile_succ, dropWhile_succ]
    have hcond : (other.state.dropping = true ∧
        time2CoDel ((now + unitsInNanoseconds units : Nat) : Int) ≥ other.state.dropNext) ↔
          (fetch.state.dropping = true ∧ time2CoDel now ≥ fetch.state.dropNext) := by
      rw [hmoved.dropping, time2CoDel_moved, hmoved.law hdrop]
      exact and_congr_right fun _ => hdue.symm
    simp only [hcond]
    split
    case isFalse => exact hfetch
    case isTrue hdone =>
    obtain ⟨hleaves, hpassed⟩ := hfetch.dropOnce hdrop halike
    rw [hleaves]
    by_cases hunmarked : cfg.useEcn = true → item.mark = none
    case neg =>
      obtain ⟨hecn, marked, hmark⟩ := marked_of_not hunmarked
      rw [(dropOnce_marked hitem hecn hmark).1]
      exact hpassed
    obtain ⟨hstays, hnext, hst⟩ := @dropOnce_unmarked cfg now item fetch hitem hunmarked
    rw [hstays, if_neg Bool.false_ne_true, if_neg Bool.false_ne_true]
    generalize (CoDelQueueDisc.dropOnce cfg now fetch).2 = passed at hnext hst hpassed ⊢
    have hleft (hdone : passed.state.dropping = false) :
        FetchMoved units (CoDelQueueDisc.dropWhile cfg now rounds passed)
          (CoDelQueueDisc.dropWhile cfg (now + unitsInNanoseconds units) rounds
            (CoDelQueueDisc.dropOnce cfg (now + unitsInNanoseconds units) other).2) := by
      rw [dropWhile_of_left hdone, dropWhile_of_left (hpassed.state.dropping.trans hdone)]
      exact hpassed
    cases hdeq : fetch.state.queue.dequeue.1 with
    | none => exact hleft (by rw [hst, nextPass_none hdeq])
    | some next =>
      have hpass := @nextPass_some cfg now fetch.state next hdeq habove
      rw [← hst] at hpass
      split at hpass
      next hallow =>
        obtain ⟨hsame, hfst, hpace⟩ := hpass
        have hq : passed.state.queue = fetch.state.queue.dequeue.2 := by
          rw [hst, nextPass_queue]
        have hloop := hlater hunmarked hdone.2
        have hlaw : passed.state.dropNext = ((pace fetch.state).next cfg).dropNext :=
          congrArg Pace.dropNext hpace
        refine ih hpassed (hnext.trans hdeq) (hsame.trans hdrop)
          (by rwa [Above, hfst]) (halike.congr hfst) ?_ fun hplain hsoon => ?_
        · rw [hlaw]
          exact hloop 0 (fun before hpre => absurd hpre (Nat.not_lt_zero _))
            ⟨next, hdeq, hallow⟩
        · rw [hq, hpace]
          intro place hdrops hcompared
          refine hloop (place + 1) (fun before hpre => ?_) hcompared
          cases before with
          | zero => exact ⟨next, hdeq, ⟨hallow.1, hallow.2, hplain⟩, hlaw ▸ hsoon⟩
          | succ before => exact hdrops before (Nat.lt_of_succ_lt_succ hpre)
      · exact hleft hpass

section

variable (hfetch : FetchMoved units fetch other)
include hfetch

theorem enterDropping (halike : ChecksAlike cfg now units fetch.state) :
    FetchMoved units (CoDelQueueDisc.enterDropping cfg now fetch)
      (CoDelQueueDisc.enterDropping cfg (now + unitsInNanoseconds units) other) := by
  simp only [CoDelQueueDisc.enterDropping]
  have hmark := hfetch.markIf cfg TARGET_EXCEEDED_MARK
  generalize (if cfg.useEcn then fetch.mark TARGET_EXCEEDED_MARK else none) = first
    at hmark ⊢
  generalize (if cfg.useEcn then other.mark TARGET_EXCEEDED_MARK else none) = second
    at hmark ⊢
  cases hmark with
  | some hmarked => exact (hmarked.setState hmarked.state.startDropping).marked true
  | none =>
    have hkept : fetch.dropAndDequeue.state.firstAboveTime = fetch.state.firstAboveTime := by
      rw [Fetch.dropAndDequeue]
      split <;> rfl
    have hdrop := hfetch.dropAndDequeue
    obtain ⟨-, hcheck⟩ := hdrop.okToDrop fun _ _ _ => halike.congr hkept
    exact hdrop.setState hcheck.startDropping

theorem markOrKeep (reason : String) :
    FetchMoved units ((fetch.mark reason).getD fetch) ((other.mark reason).getD other) := by
  have hmark := hfetch.mark reason
  generalize fetch.mark reason = first at hmark ⊢
  generalize other.mark reason = second at hmark ⊢
  cases hmark with
  | some hmarked => exact hmarked
  | none => exact hfetch

theorem finish :
    FetchMoved units (CoDelQueueDisc.finish cfg now fetch)
      (CoDelQueueDisc.finish cfg (now + unitsInNanoseconds units) other) := by
  rw [CoDelQueueDisc.finish, CoDelQueueDisc.finish, hfetch.item]
  cases fetch.item with
  | none => exact hfetch.setState { hfetch.state with nullUsed := rfl }
  | some item =>
    simp only [Option.map_some, sojourn_moved, hfetch.isMarked]
    split
    · exact hfetch.markOrKeep _
    · exact hfetch

theorem decided {allowed : Bool} (hitem : fetch.item = some item)
    (hchecks : allowed = true → Above now fetch.state ∧ ChecksAlike cfg now units fetch.state)
    (hloop : allowed = true → fetch.state.dropping = true →
      DueAlike now units fetch.state.dropNext ∧
        ((cfg.useEcn = true → item.mark = none) → fetch.state.dropNext ≤ time2CoDel now →
          LoopAlike cfg now units fetch.state.queue ((pace fetch.state).next cfg))) :
    FetchMoved units (CoDelQueueDisc.decided cfg now (allowed, fetch))
      (CoDelQueueDisc.decided cfg (now + unitsInNanoseconds units) (allowed, other)) := by
  have hmoved := hfetch.state
  have hlen : other.state.queue.packets.length = fetch.state.queue.packets.length := by
    rw [hmoved.queue]
    exact List.length_map _
  simp only [CoDelQueueDisc.decided, hmoved.dropping, hlen]
  cases hdrop : fetch.state.dropping with
  | true =>
    cases allowed with
    | false =>
      exact hfetch.setState
        { hmoved with dropping := rfl, dropNext := .inl (hmoved.law hdrop) }
    | true =>
      obtain ⟨habove, halike⟩ := hchecks rfl
      obtain ⟨hdue, hlater⟩ := hloop rfl hdrop
      exact hfetch.dropWhile _ hitem hdrop habove halike hdue hlater
  | false =>
    cases allowed with
    | false => exact hfetch
    | true => exact hfetch.enterDropping (hchecks rfl).2

end

end FetchMoved

/-- The comparisons of `DoDequeue` come out the same, and the time it may store is not zero in
either run. -/
def Alike (cfg : CoDelConfig) (now units : Nat) (state : CoDelState) : Prop :=
  ∀ head, state.queue.dequeue.1 = some head → isL4s cfg head = false →
    Late cfg now head state.queue.dequeue.2 →
      ChecksAlike cfg now units state ∧
        (state.dropping = true → Above now state →
          LoopAlike cfg now units state.queue (pace state))

theorem first_moved (hmoved : Moved units state later) (item : QueueDiscItem) :
    FetchMoved units
      ⟨some item, { state with queue := state.queue.dequeue.2 }, [.packetDequeued item], false⟩
      ⟨some (item.moved units), { later with queue := later.queue.dequeue.2 },
        [.packetDequeued (item.moved units)], false⟩ := by
  refine ⟨rfl, { hmoved with queue := ?_ }, rfl, rfl⟩
  simp only [hmoved.queue, moved_dequeue]

theorem decided_moved (hmoved : Moved units state later) (hitem : state.queue.dequeue.1 = some item)
    (hplain : isL4s cfg item = false) (halike : Alike cfg now units state) :
    FetchMoved units (decided cfg now (firstFetch cfg now item state))
      (decided cfg (now + unitsInNanoseconds units)
        (firstFetch cfg (now + unitsInNanoseconds units) (item.moved units) later)) := by
  have hfst := first_moved hmoved item
  generalize hrest : ({ state with queue := state.queue.dequeue.2 } : CoDelState) = rest at hfst
  have hchecks : Late cfg now item rest.queue → ChecksAlike cfg now units rest ∧
      (rest.dropping = true → Above now rest →
        LoopAlike cfg now units state.queue (pace rest)) := by
    rw [← hrest]
    exact fun hlate => (halike item hitem hplain hlate).imp_left fun hboth => hboth.congr rfl
  obtain ⟨hequal, hcheck⟩ := hfst.okToDrop fun other hsome hlate => by
    rw [← Option.some.inj hsome] at hlate
    exact (hchecks hlate).1
  have hfetch : FetchMoved units (firstFetch cfg now item state).2
      (firstFetch cfg (now + unitsInNanoseconds units) (item.moved units) later).2 := by
    rw [firstFetch, hrest]
    exact hfst.setState hcheck
  have hallow : firstFetch cfg now item state = ((okToDrop cfg now (some item) rest).1,
      (firstFetch cfg now item state).2) := by
    rw [firstFetch, hrest]
  have hboth : firstFetch cfg (now + unitsInNanoseconds units) (item.moved units) later =
      ((okToDrop cfg now (some item) rest).1,
        (firstFetch cfg (now + unitsInNanoseconds units) (item.moved units) later).2) :=
    Prod.ext hequal rfl
  have hkept (hok : (okToDrop cfg now (some item) rest).1 = true) :
      (firstFetch cfg now item state).2.state = rest := by
    rw [firstFetch, hrest]
    exact okToDrop_same hok
  rw [hallow, hboth]
  refine hfetch.decided rfl (fun hok => ?_) fun hok hdrop => ?_
  all_goals
    obtain ⟨hlate, habove⟩ := okToDrop_iff.mp hok
    rw [hkept hok] at *
  · exact ⟨habove, (hchecks hlate).1⟩
  · have hq : rest.queue = state.queue.dequeue.2 := by rw [← hrest]
    have hloop := (hchecks hlate).2 hdrop habove
    rw [hq] at hlate
    refine ⟨hloop 0 (fun before hpre => absurd hpre (Nat.not_lt_zero _))
      ⟨item, hitem, hlate⟩, fun hunmarked hdue place hdrops hcompared => ?_⟩
    rw [hq] at hdrops hcompared
    refine hloop (place + 1) (fun before hpre => ?_) hcompared
    cases before with
    | zero => exact ⟨item, hitem, ⟨hlate.1, hlate.2, hunmarked⟩, hdue⟩
    | succ before => exact hdrops before (Nat.lt_of_succ_lt_succ hpre)

/-! ## Runs -/

def CoDelCall.moved (units : Nat) : CoDelCall → CoDelCall
  | .enqueue env occupancy item =>
    .enqueue (env.moved units) occupancy (item.moved units)
  | .dequeue env occupancy => .dequeue (env.moved units) occupancy

def perform (cfg : CoDelConfig) (state : CoDelState) :
    CoDelCall → List Callback × Option QueueDiscItem × CoDelState
  | .enqueue env occupancy item =>
    let outcome := doEnqueue cfg env occupancy item state
    (outcome.reports, none, outcome.state)
  | .dequeue env occupancy =>
    let outcome := doDequeue cfg env occupancy state
    (outcome.reports, outcome.result, outcome.state)

/-- The reports and the packets delivered by a run, which ends where a null item is used. -/
def outputs (cfg : CoDelConfig) :
    List CoDelCall → CoDelState → List (List Callback × Option QueueDiscItem)
  | [], _ => []
  | call :: rest, state =>
    let performed := perform cfg state call
    (performed.1, performed.2.1) ::
      if performed.2.2.nullUsed then [] else outputs cfg rest performed.2.2

def outputsMoved (units : Nat) (outputs : List (List Callback × Option QueueDiscItem)) :
    List (List Callback × Option QueueDiscItem) :=
  outputs.map fun output =>
    (output.1.map (Callback.moved units), output.2.map (QueueDiscItem.moved units))

def RunsAlike (cfg : CoDelConfig) (units : Nat) : List CoDelCall → CoDelState → Prop
  | [], _ => True
  | call :: rest, state =>
    (∀ env occupancy, call = .dequeue env occupancy → Alike cfg env.now units state) ∧
      RunsAlike cfg units rest (perform cfg state call).2.2

theorem doEnqueue_moved (hmoved : Moved units state later) (env : Env Unit) (occupancy : Occupancy)
    (item : QueueDiscItem) :
    (doEnqueue cfg (env.moved units) occupancy (item.moved units) later).reports =
      (doEnqueue cfg env occupancy item state).reports.map (Callback.moved units) ∧
      Moved units (doEnqueue cfg env occupancy item state).state
        (doEnqueue cfg (env.moved units) occupancy (item.moved units) later).state := by
  have hsz : (item.moved units).size = item.size := rfl
  simp only [doEnqueue, hsz, hmoved.queue, moved_enqueue]
  split
  · exact ⟨rfl, hmoved⟩
  · refine ⟨?_, { hmoved with queue := rfl }⟩
    cases (state.queue.enqueue item).1 <;> rfl

theorem doDequeue_moved (hmoved : Moved units state later) (env : Env Unit) (occupancy : Occupancy)
    (halike : Alike cfg env.now units state) :
    FetchMoved units
      ⟨(doDequeue cfg env occupancy state).result, (doDequeue cfg env occupancy state).state,
        (doDequeue cfg env occupancy state).reports, false⟩ ⟨(doDequeue cfg (env.moved units)
        occupancy later).result, (doDequeue cfg (env.moved units) occupancy later).state,
        (doDequeue cfg (env.moved units) occupancy later).reports, false⟩ := by
  have hhead : later.queue.dequeue.1 =
      state.queue.dequeue.1.map (QueueDiscItem.moved units) := by
    rw [hmoved.queue, moved_dequeue]
  cases hitem : state.queue.dequeue.1 with
  | none =>
    rw [hitem, Option.map_none] at hhead
    rw [doDequeue, doDequeue, hitem, hhead]
    refine ⟨rfl, { hmoved with queue := ?_, dropping := rfl, dropNext := ?_ }, rfl, rfl⟩
    · simp only [hmoved.queue, moved_dequeue]
    · exact hmoved.dropNext.imp_right fun hidle => ⟨rfl, hidle.2⟩
  | some item =>
    rw [hitem, Option.map_some] at hhead
    cases hl4s : isL4s cfg item with
    | true =>
      simp only [doDequeue, decideItem, hitem, hhead, isL4s_moved, hl4s, if_true, Env.moved,
        sojourn_moved]
      have hfst := first_moved hmoved item
      split
      · exact (hfst.markOrKeep _).marked false
      · exact hfst.marked false
    | false =>
      have hplain := (isL4s_moved cfg units item).trans hl4s
      rw [doDequeue_plain cfg env occupancy hitem hl4s,
        doDequeue_plain cfg (env.moved units) occupancy hhead hplain]
      exact (decided_moved hmoved hitem hl4s halike).finish.marked false

theorem outputs_moved (hmoved : Moved units state later) {calls : List CoDelCall}
    (halike : RunsAlike cfg units calls state) :
    outputs cfg (calls.map (CoDelCall.moved units)) later =
      outputsMoved units (outputs cfg calls state) := by
  induction calls generalizing state later with
  | nil => rfl
  | cons call rest ih =>
    have hperformed : (perform cfg later (call.moved units)).1 =
          (perform cfg state call).1.map (Callback.moved units) ∧
        (perform cfg later (call.moved units)).2.1 =
          (perform cfg state call).2.1.map (QueueDiscItem.moved units) ∧
        Moved units (perform cfg state call).2.2
          (perform cfg later (call.moved units)).2.2 := by
      cases call with
      | enqueue env occupancy item =>
        obtain ⟨hrep, hnext⟩ := doEnqueue_moved hmoved env occupancy item
        exact ⟨hrep, rfl, hnext⟩
      | dequeue env occupancy =>
        have hdeq := doDequeue_moved hmoved env occupancy (halike.1 env occupancy rfl)
        exact ⟨hdeq.reports, hdeq.item, hdeq.state⟩
    obtain ⟨hrep, hdelivered, hnext⟩ := hperformed
    rw [List.map_cons, outputs, outputs]
    simp only [hrep, hdelivered, hnext.nullUsed]
    rw [outputsMoved, List.map_cons]
    split
    · rfl
    · exact congrArg _ (ih hnext halike.2)

theorem moved_init (cfg : CoDelConfig) (units : Nat) : Moved units (init cfg) (init cfg) :=
  ⟨rfl, rfl, rfl, rfl, rfl, rfl, Iff.rfl, fun hne => absurd rfl hne, .inr ⟨rfl, rfl⟩⟩

/-- A run whose comparisons come out the same delivers, marks and drops the same packets at any
other time. -/
theorem outputs_eq_of_runsAlike (cfg : CoDelConfig) (units : Nat) (calls : List CoDelCall)
    (halike : RunsAlike cfg units calls (init cfg)) :
    outputs cfg (calls.map (CoDelCall.moved units)) (init cfg) =
      outputsMoved units (outputs cfg calls (init cfg)) :=
  outputs_moved (moved_init cfg units) halike

def CoDelCall.Stamped : CoDelCall → Prop
  | .enqueue env _ item => item.timeStamp = env.now
  | .dequeue _ _ => True

/-- Packets are stamped when they are enqueued. No time goes back, and the clock moves by less than
half of its range from call to call. -/
structure Timed (calls : List CoDelCall) : Prop where
  stamped : ∀ call ∈ calls, call.Stamped
  steps : (calls.map fun
    | .enqueue env _ _ => env.now
    | .dequeue env _ => env.now).IsChain fun before after =>
      before ≤ after ∧ after - before < unitsInNanoseconds (2 ^ 31)

theorem outputs_eq_of_runsAlike_late :
    RunsAlike drainingCoDel (2 ^ 32 - 9765)
      [.enqueue ⟨0, ()⟩ ⟨0, 0⟩ ⟨⟨⟨0, 500, 0⟩, 0⟩, none, 0⟩, .dequeue ⟨10000000, ()⟩ ⟨1, 500⟩]
      (init drainingCoDel) ∧
      outputs drainingCoDel ([.enqueue ⟨0, ()⟩ ⟨0, 0⟩ ⟨⟨⟨0, 500, 0⟩, 0⟩, none, 0⟩,
          .dequeue ⟨10000000, ()⟩ ⟨1, 500⟩].map (CoDelCall.moved (2 ^ 32 - 9765)))
        (init drainingCoDel) = outputsMoved (2 ^ 32 - 9765) (outputs drainingCoDel
            [.enqueue ⟨0, ()⟩ ⟨0, 0⟩ ⟨⟨⟨0, 500, 0⟩, 0⟩, none, 0⟩, .dequeue ⟨10000000, ()⟩ ⟨1, 500⟩]
            (init drainingCoDel)) := by
  have halike : RunsAlike drainingCoDel (2 ^ 32 - 9765)
      [.enqueue ⟨0, ()⟩ ⟨0, 0⟩ ⟨⟨⟨0, 500, 0⟩, 0⟩, none, 0⟩,
        .dequeue ⟨10000000, ()⟩ ⟨1, 500⟩] (init drainingCoDel) := by
    refine ⟨fun env occupancy hcall => ?_, fun env occupancy hcall => ?_, trivial⟩
    · cases hcall
    obtain ⟨rfl, rfl⟩ := CoDelCall.dequeue.inj hcall
    refine fun head hhead hplain hlate => ⟨⟨fun hset => absurd rfl hset, fun _ => ?_⟩, ?_⟩
    · decide
    · exact fun hdropping => absurd hdropping (by decide)
  exact ⟨halike, outputs_eq_of_runsAlike _ _ _ halike⟩

/-- The second of three packets is delivered; where the clock wraps between the dequeues and the
time at which dropping may start, it is dropped. -/
theorem outputs_depend_on_start :
    ¬ ∀ cfg units calls,
      Timed calls →
        outputs cfg (calls.map (CoDelCall.moved units)) (init cfg) =
          outputsMoved units (outputs cfg calls (init cfg)) := by
  intro hall
  have hsame := hall drainingCoDel (2 ^ 32 - 60000)
    [.enqueue ⟨0, ()⟩ ⟨0, 0⟩ ⟨⟨⟨0, 500, 0⟩, 0⟩, none, 0⟩,
      .enqueue ⟨0, ()⟩ ⟨1, 500⟩ ⟨⟨⟨1, 500, 0⟩, 0⟩, none, 0⟩,
      .enqueue ⟨0, ()⟩ ⟨2, 1000⟩ ⟨⟨⟨2, 500, 0⟩, 0⟩, none, 0⟩,
      .dequeue ⟨10000000, ()⟩ ⟨3, 1500⟩, .dequeue ⟨50000000, ()⟩ ⟨2, 1000⟩]
    ⟨by simp [CoDelCall.Stamped], by simp [unitsInNanoseconds, CODEL_SHIFT]⟩
  exact absurd hsame (by decide +kernel)

end CoDelQueueDisc

end HomaSird.TrafficControl
