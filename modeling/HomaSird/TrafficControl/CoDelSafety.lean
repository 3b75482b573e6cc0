import HomaSird.TrafficControl.CoDelRate

/-! # When a CoDel queue disc uses a null item

`DoDequeue` drops packets and goes on with the next one. It reads the time stamp of the item it
ends with, and there is none if it has dropped every packet that was waiting. With a minimum of no
bytes nothing keeps it from that.
-/

namespace HomaSird.TrafficControl

open Callback Transition DropTailQueue

namespace DropTailQueue

variable {queue : DropTailQueue}

theorem dequeue_cases (queue : DropTailQueue) :
    queue.dequeue = (none, queue) ∨ ∃ item rest, queue.packets = item :: rest ∧
    queue.dequeue.1 = some item ∧ queue.dequeue.2.packets = rest := by
  rw [dequeue]
  split
  · exact .inl rfl
  · cases hpkts : queue.packets with
    | nil => exact .inl rfl
    | cons item rest => exact .inr ⟨item, rest, rfl, rfl, rfl⟩

theorem dequeue_of_none (hnone : queue.dequeue.1 = none) : queue.dequeue = (none, queue) := by
  rcases dequeue_cases queue with hsame | ⟨item, rest, -, hitem, -⟩
  · exact hsame
  · rw [hnone] at hitem
    cases hitem

/-- The queue after some more calls of `Dequeue`. -/
def behind (queue : DropTailQueue) (calls : Nat) : DropTailQueue :=
  (fun queue => queue.dequeue.2)^[calls] queue

theorem behind_of_none (hnone : queue.dequeue.1 = none)
    (calls : Nat) : queue.behind calls = queue :=
  Function.iterate_fixed (congrArg Prod.snd (dequeue_of_none hnone)) calls

theorem forall_behind {head : QueueDiscItem} (hhead : queue.dequeue.1 = some head)
    {claim : Nat → QueueDiscItem → Prop} :
    (∀ calls item, (queue.behind calls).dequeue.1 = some item → claim calls item) ↔
      claim 0 head ∧
        ∀ calls item,
          (queue.dequeue.2.behind calls).dequeue.1 = some item → claim (calls + 1) item := by
  constructor
  · intro hall
    exact ⟨hall 0 head hhead, fun calls => hall (calls + 1)⟩
  · rintro ⟨hfst, hrest⟩ calls item hfound
    cases calls with
    | zero =>
      obtain rfl := Option.some.inj (hhead.symm.trans hfound)
      exact hfst
    | succ calls => exact hrest calls item hfound

end DropTailQueue

namespace CoDelQueueDisc

variable {cfg : CoDelConfig} {now : Nat} {item : QueueDiscItem} {state : CoDelState}
  {fetch : Fetch}

/-! ## What happens to the packets taken -/

/-- The packets reported as dropped, the item at hand and those that wait still, in this order. -/
def Accounts (before : List Datagram) (fetch : Fetch) : Prop :=
  before = datagrams (droppedAfterOf fetch.reports) ++ datagrams fetch.item.toList ++
    datagrams fetch.state.queue.packets

theorem Accounts.dropAndDequeue {before : List Datagram}
    (hacct : Accounts before fetch) : Accounts before fetch.dropAndDequeue := by
  rw [Accounts] at hacct ⊢
  rw [hacct, Fetch.dropAndDequeue]
  cases hitem : fetch.item with
  | none => simp
  | some item =>
    rcases fetch.state.queue.dequeue_cases with hnone | ⟨next, rest, hpkts, hnext, hrest⟩
    · simp [hnone, droppedAfterOf, datagrams]
    · simp [hpkts, hnext, hrest, droppedAfterOf, datagrams]

theorem accounts_keptByParts (before : List Datagram) : KeptByParts (Accounts before) where
  setState := fun hacct hq => by
    rw [Accounts] at hacct ⊢
    simpa only [Fetch.setState, hq] using hacct
  isMarked := fun _ hacct => hacct
  mark := fun {fetch marked reason} hacct hmark => by
    unfold Fetch.mark at hmark
    split at hmark
    next item hitem =>
      obtain ⟨old, hold, hnew⟩ := Option.bind_eq_some_iff.mp hitem
      rw [Accounts, hold] at hacct
      rw [← Option.some.inj hmark, Accounts, hacct]
      simp [droppedAfterOf, datagrams, QueueDiscItem.mark_toDatagram hnew]
    · cases hmark
  dropAndDequeue := Accounts.dropAndDequeue

theorem doDequeue_accounts (cfg : CoDelConfig) (env : Env Unit) (occupancy : Occupancy)
    (state : CoDelState) :
    let outcome := doDequeue cfg env occupancy state
    datagrams state.queue.packets = datagrams (droppedAfterOf outcome.reports) ++
      datagrams outcome.result.toList ++ datagrams outcome.state.queue.packets := by
  rw [doDequeue]
  rcases state.queue.dequeue_cases with hnone | ⟨item, rest, hpkts, hitem, hrest⟩
  · simp [hnone, droppedAfterOf, datagrams]
  · simp only [hitem]
    refine (accounts_keptByParts _).decideItem ?_ env.now item
    rw [Accounts, hpkts, hrest]
    simp [droppedAfterOf, datagrams]

/-! ## The loop in the dropping state -/

theorem okToDrop_iff :
    (okToDrop cfg now (some item) state).1 = true ↔
      (¬ sojourn now item < time2CoDel cfg.target ∧ cfg.minBytes ≤ state.queue.nBytes) ∧
        state.firstAboveTime ≠ 0 ∧ state.firstAboveTime < time2CoDel now := by
  rw [okToDrop]
  by_cases hbelow : sojourn now item < time2CoDel cfg.target ∨
      state.queue.nBytes < cfg.minBytes
  · rw [if_pos hbelow]
    exact iff_of_false Bool.false_ne_true fun hall =>
      hbelow.elim hall.1.1 fun hfew => absurd hall.1.2 (not_le.mpr hfew)
  · rw [if_neg hbelow]
    have habove := (not_or.mp hbelow).imp_right Nat.le_of_not_lt
    by_cases hfst : state.firstAboveTime = 0
    · rw [if_pos hfst]
      exact iff_of_false Bool.false_ne_true fun hall => hall.2.1 hfst
    · rw [if_neg hfst]
      exact ⟨fun hnow => ⟨habove, hfst, of_decide_eq_true hnow⟩,
        fun hall => decide_eq_true hall.2.2⟩

theorem okToDrop_same (hok : (okToDrop cfg now (some item) state).1 = true) :
    (okToDrop cfg now (some item) state).2 = state := by
  rw [okToDrop] at hok ⊢
  split_ifs at hok ⊢
  rfl

structure Pace where
  count : Nat
  recInvSqrt : Nat
  dropNext : Nat

def pace (state : CoDelState) : Pace := ⟨state.count, state.recInvSqrt, state.dropNext⟩

def Pace.next (cfg : CoDelConfig) (pace : Pace) : Pace :=
  let count := uint32 (pace.count + 1)
  let recInvSqrt := newtonStep pace.recInvSqrt count
  ⟨count, recInvSqrt, controlLaw pace.dropNext (time2CoDel cfg.interval) recInvSqrt⟩

def Pace.after (cfg : CoDelConfig) (pace : Pace) (drops : Nat) : Pace :=
  (Pace.next cfg)^[drops] pace

/-- The packet has waited for too long, enough bytes wait behind it, and it is not marked. -/
structure Droppable (cfg : CoDelConfig) (now : Nat) (item : QueueDiscItem)
    (behind : DropTailQueue) : Prop where
  late : ¬ sojourn now item < time2CoDel cfg.target
  enough : cfg.minBytes ≤ behind.nBytes
  unmarked : cfg.useEcn = true → item.mark = none

def Above (now : Nat) (state : CoDelState) : Prop :=
  state.firstAboveTime ≠ 0 ∧ state.firstAboveTime < time2CoDel now

/-- Every waiting packet would be dropped: its sojourn time has been above the target for long
enough, it is droppable, and the next drop is due when its turn comes, or outside the dropping
state there is no other. -/
def Drains (cfg : CoDelConfig) (now : Nat) (state : CoDelState) : Prop :=
  (∃ head, state.queue.dequeue.1 = some head ∧ isL4s cfg head = false) ∧
    Above now state ∧
    ∀ calls item, (state.queue.behind calls).dequeue.1 = some item →
      Droppable cfg now item (state.queue.behind (calls + 1)) ∧
        if state.dropping then ((pace state).after cfg calls).dropNext ≤ time2CoDel now
        else calls = 0

theorem marked_of_not (hmarks : ¬ (cfg.useEcn = true → item.mark = none)) :
    cfg.useEcn = true ∧ ∃ marked, item.mark = some marked := by
  rw [Classical.not_imp, ← ne_eq, Option.ne_none_iff_exists'] at hmarks
  exact hmarks

theorem dropOnce_marked (hitem : fetch.item = some item)
    (hecn : cfg.useEcn = true) {marked : QueueDiscItem} (hmark : item.mark = some marked) :
    (dropOnce cfg now fetch).1 = true ∧ (dropOnce cfg now fetch).2.item = some marked ∧
    (dropOnce cfg now fetch).2.state.nullUsed = fetch.state.nullUsed := by
  simp [dropOnce, Fetch.mark, Fetch.setState, hecn, hitem, hmark]

/-- The state after one more drop, before the next item is checked. -/
def dropped (state : CoDelState) : CoDelState :=
  { state with
    count := uint32 (state.count + 1)
    recInvSqrt := newtonStep state.recInvSqrt (uint32 (state.count + 1))
    queue := state.queue.dequeue.2 }

def nextPass (cfg : CoDelConfig) (now : Nat) (state : CoDelState) : CoDelState :=
  let checked := okToDrop cfg now state.queue.dequeue.1 (dropped state)
  if checked.1 then
    { checked.2 with
      dropNext := controlLaw checked.2.dropNext (time2CoDel cfg.interval) checked.2.recInvSqrt }
  else { checked.2 with dropping := false }

theorem nextPass_queue (cfg : CoDelConfig) (now : Nat)
    (state : CoDelState) : (nextPass cfg now state).queue = state.queue.dequeue.2 := by
  simp only [nextPass]
  split <;> exact okToDrop_queue ..

theorem nextPass_nullUsed (cfg : CoDelConfig)
    (now : Nat) (state : CoDelState) : (nextPass cfg now state).nullUsed = state.nullUsed := by
  simp only [nextPass]
  split <;> exact okToDrop_nullUsed ..

theorem nextPass_none (hnone : state.queue.dequeue.1 = none) :
    (nextPass cfg now state).dropping = false := by
  rw [nextPass, hnone]
  rfl

theorem nextPass_some {next : QueueDiscItem} (hnext : state.queue.dequeue.1 = some next)
    (habove : Above now state) :
    if ¬ sojourn now next < time2CoDel cfg.target ∧ cfg.minBytes ≤ state.queue.dequeue.2.nBytes then
      (nextPass cfg now state).dropping = state.dropping ∧
        (nextPass cfg now state).firstAboveTime = state.firstAboveTime ∧
        pace (nextPass cfg now state) = (pace state).next cfg
    else (nextPass cfg now state).dropping = false := by
  have hok := @okToDrop_iff cfg now next (dropped state)
  rw [and_iff_left (show (dropped state).firstAboveTime ≠ 0 ∧
    (dropped state).firstAboveTime < time2CoDel now from habove)] at hok
  simp only [nextPass, hnext]
  split
  next hallow =>
    have hyes := hok.mpr hallow
    rw [if_pos hyes, okToDrop_same hyes]
    exact ⟨rfl, rfl, rfl⟩
  next hrefuse => rw [if_neg (mt hok.mp hrefuse)]

theorem dropOnce_unmarked (hitem : fetch.item = some item)
    (hunmarked : cfg.useEcn = true → item.mark = none) :
    (dropOnce cfg now fetch).1 = false ∧
      (dropOnce cfg now fetch).2.item = fetch.state.queue.dequeue.1 ∧
      (dropOnce cfg now fetch).2.state = nextPass cfg now fetch.state := by
  generalize hcnt : fetch.setState { fetch.state with
    count := uint32 (fetch.state.count + 1)
    recInvSqrt := newtonStep fetch.state.recInvSqrt (uint32 (fetch.state.count + 1)) } = counted
  have hhand : counted.item = some item := by
    rw [← hcnt]
    exact hitem
  have hnone : (if cfg.useEcn then counted.mark TARGET_EXCEEDED_MARK else none) = none := by
    split
    next hecn => simp [Fetch.mark, hhand, hunmarked hecn]
    · rfl
  have hnext : counted.dropAndDequeue.item = fetch.state.queue.dequeue.1 ∧
      counted.dropAndDequeue.state = dropped fetch.state := by
    rw [Fetch.dropAndDequeue, hhand, ← hcnt]
    exact ⟨rfl, rfl⟩
  simp only [dropOnce, nextPass, hcnt, hnone, hnext]
  split <;> exact ⟨rfl, hnext.1, rfl⟩

theorem dropOnce_shorter (hpass : (dropOnce cfg now fetch).1 = false)
    (hstays : (dropOnce cfg now fetch).2.state.dropping = true) :
    (dropOnce cfg now fetch).2.state.queue.packets.length < fetch.state.queue.packets.length := by
  cases hitem : fetch.item with
  | none =>
    simp [dropOnce, Fetch.mark, Fetch.setState, Fetch.dropAndDequeue, hitem, okToDrop] at hstays
  | some item =>
    by_cases hunmarked : cfg.useEcn = true → item.mark = none
    case neg =>
      obtain ⟨hecn, marked, hmark⟩ := marked_of_not hunmarked
      rw [(dropOnce_marked hitem hecn hmark).1] at hpass
      cases hpass
    obtain ⟨-, -, hst⟩ := @dropOnce_unmarked cfg now item fetch hitem hunmarked
    rw [hst] at hstays ⊢
    rw [nextPass_queue]
    rcases fetch.state.queue.dequeue_cases with hnone | ⟨next, rest, hpkts, hnext, hrest⟩
    · rw [nextPass_none (congrArg Prod.fst hnone)] at hstays
      cases hstays
    · rw [hrest, hpkts]
      exact Nat.lt_succ_self _

theorem dropWhile_succ (rounds : Nat) (fetch : Fetch) :
    dropWhile cfg now (rounds + 1) fetch =
      if fetch.state.dropping ∧ time2CoDel now ≥ fetch.state.dropNext then
        if (dropOnce cfg now fetch).1 then
          (dropOnce cfg now fetch).2
        else dropWhile cfg now rounds (dropOnce cfg now fetch).2
      else fetch := rfl

theorem dropWhile_of_left (hleft : fetch.state.dropping = false) (rounds : Nat) :
    dropWhile cfg now rounds fetch = fetch := by
  cases rounds with
  | zero => rfl
  | succ rounds => simp [dropWhile_succ, hleft]

section

variable {rounds : Nat} (hrounds : fetch.state.queue.packets.length < rounds)
include hrounds

theorem dropWhile_enough :
    dropWhile cfg now (rounds + 1) fetch = dropWhile cfg now rounds fetch := by
  induction rounds generalizing fetch with
  | zero => exact absurd hrounds (Nat.not_lt_zero _)
  | succ rounds ih =>
    rw [dropWhile_succ (rounds + 1), dropWhile_succ rounds fetch]
    split
    · cases hpass : (dropOnce cfg now fetch).1 with
      | true => rfl
      | false =>
        cases hstays : (dropOnce cfg now fetch).2.state.dropping with
        | true =>
          have hshorter := dropOnce_shorter hpass hstays
          exact ih (lt_of_lt_of_le hshorter (Nat.le_of_lt_succ hrounds))
        | false => rw [dropWhile_of_left hstays, dropWhile_of_left hstays]
    · rfl

theorem dropWhile_ends :
    dropWhile cfg now rounds fetch =
      dropWhile cfg now (fetch.state.queue.packets.length + 1) fetch := by
  induction rounds, hrounds using Nat.le_induction with
  | base => rfl
  | succ rounds hmore ih => rw [dropWhile_enough hmore, ih]

theorem dropWhile_spec (hitem : fetch.item = some item) (hdrop : fetch.state.dropping = true)
    (habove : Above now fetch.state) :
    (dropWhile cfg now rounds fetch).state.nullUsed = fetch.state.nullUsed ∧
      ((dropWhile cfg now rounds fetch).item = none ↔
        ((cfg.useEcn = true → item.mark = none) ∧ fetch.state.dropNext ≤ time2CoDel now) ∧
          ∀ calls next,
            (fetch.state.queue.behind calls).dequeue.1 = some next →
              Droppable cfg now next (fetch.state.queue.behind (calls + 1)) ∧
                ((pace fetch.state).after cfg (calls + 1)).dropNext ≤ time2CoDel now) := by
  induction rounds generalizing fetch item with
  | zero => exact absurd hrounds (Nat.not_lt_zero _)
  | succ rounds ih =>
    rw [dropWhile_succ]
    by_cases hdue : fetch.state.dropNext ≤ time2CoDel now
    case neg =>
      rw [if_neg fun hboth => hdue hboth.2, hitem]
      exact ⟨rfl, iff_of_false (Option.some_ne_none item) fun hall => hdue hall.1.2⟩
    rw [if_pos ⟨hdrop, hdue⟩]
    by_cases hunmarked : cfg.useEcn = true → item.mark = none
    case neg =>
      obtain ⟨hecn, marked, hmark⟩ := marked_of_not hunmarked
      obtain ⟨hleaves, hmarked, hdef⟩ := @dropOnce_marked cfg now item fetch hitem hecn
        marked hmark
      simp only [hleaves, if_true, hmarked]
      exact ⟨hdef, iff_of_false (Option.some_ne_none marked) fun hall => hunmarked hall.1.1⟩
    obtain ⟨hstays, hnext, hst⟩ := @dropOnce_unmarked cfg now item fetch hitem hunmarked
    rw [hstays, if_neg Bool.false_ne_true]
    generalize (dropOnce cfg now fetch).2 = passed at hnext hst ⊢
    have hdef : passed.state.nullUsed = fetch.state.nullUsed := by
      rw [hst, nextPass_nullUsed]
    cases hdeq : fetch.state.queue.dequeue.1 with
    | none =>
      -- the last packet has been dropped
      have hleft : passed.state.dropping = false := by rw [hst, nextPass_none hdeq]
      rw [dropWhile_of_left hleft, hnext, hdeq]
      refine ⟨hdef, iff_of_true rfl ⟨⟨hunmarked, hdue⟩, fun calls next hfound => ?_⟩⟩
      rw [behind_of_none hdeq, hdeq] at hfound
      cases hfound
    | some next =>
      have hpass := @nextPass_some cfg now fetch.state next hdeq habove
      rw [← hst] at hpass
      split at hpass
      next hallow =>
        obtain ⟨hsame, hfst, hpace⟩ := hpass
        have hq : passed.state.queue = fetch.state.queue.dequeue.2 := by
          rw [hst, nextPass_queue]
        have hshorter : passed.state.queue.packets.length < rounds := by
          rcases fetch.state.queue.dequeue_cases with hnone | ⟨head, rest, hpkts, -, hrest⟩
          · rw [hnone] at hdeq
            cases hdeq
          · rw [hq, hrest]
            rw [hpkts, List.length_cons] at hrounds
            omega
        obtain ⟨hlater, hends⟩ := ih hshorter (hnext.trans hdeq)
          (hsame.trans hdrop) (by rwa [Above, hfst])
        refine ⟨hlater.trans hdef, hends.trans ?_⟩
        have hlaw : passed.state.dropNext = ((pace fetch.state).next cfg).dropNext :=
          congrArg Pace.dropNext hpace
        rw [hq, hpace, hlaw, forall_behind hdeq]
        constructor
        · rintro ⟨⟨hplain, hsoon⟩, hall⟩
          exact ⟨⟨hunmarked, hdue⟩, ⟨⟨hallow.1, hallow.2, hplain⟩, hsoon⟩, hall⟩
        · rintro ⟨-, ⟨hdroppable, hsoon⟩, hall⟩
          exact ⟨⟨hdroppable.unmarked, hsoon⟩, hall⟩
      next hrefuse =>
        rw [dropWhile_of_left hpass, hnext, hdeq]
        refine ⟨hdef, iff_of_false (Option.some_ne_none next) fun hall => ?_⟩
        obtain ⟨⟨hlate, henough, -⟩, -⟩ := hall.2 0 next hdeq
        exact hrefuse ⟨hlate, henough⟩

end

/-! ## The whole of `DoDequeue` -/

theorem enterDropping_marked (hitem : fetch.item = some item) (hecn : cfg.useEcn = true)
    {marked : QueueDiscItem} (hmark : item.mark = some marked) :
    (enterDropping cfg now fetch).item = some marked ∧
      (enterDropping cfg now fetch).state.nullUsed = fetch.state.nullUsed := by
  simp [enterDropping, Fetch.mark, Fetch.setState, startDropping, hecn, hitem, hmark]

theorem enterDropping_unmarked (hitem : fetch.item = some item)
    (hunmarked : cfg.useEcn = true → item.mark = none) :
    (enterDropping cfg now fetch).item = fetch.state.queue.dequeue.1 ∧
      (enterDropping cfg now fetch).state.nullUsed = fetch.state.nullUsed := by
  have hnone : (if cfg.useEcn then fetch.mark TARGET_EXCEEDED_MARK else none) = none := by
    split
    next hecn => simp [Fetch.mark, hitem, hunmarked hecn]
    · rfl
  have hdrop : fetch.dropAndDequeue.item = fetch.state.queue.dequeue.1 ∧
      fetch.dropAndDequeue.state.nullUsed = fetch.state.nullUsed := by
    rw [Fetch.dropAndDequeue, hitem]
    exact ⟨rfl, rfl⟩
  simp only [enterDropping, hnone]
  exact ⟨hdrop.1, (okToDrop_nullUsed ..).trans hdrop.2⟩

section

variable (hitem : state.queue.dequeue.1 = some item) (hplain : isL4s cfg item = false)
include hitem hplain

theorem drains_dropping (hdrop : state.dropping = true) :
    Drains cfg now state ↔
      (Above now state ∧ Droppable cfg now item state.queue.dequeue.2 ∧
        state.dropNext ≤ time2CoDel now) ∧
        ∀ calls next,
          (state.queue.dequeue.2.behind calls).dequeue.1 = some next →
            Droppable cfg now next (state.queue.dequeue.2.behind (calls + 1)) ∧
              ((pace state).after cfg (calls + 1)).dropNext ≤ time2CoDel now := by
  simp only [Drains, hdrop, if_true]
  rw [forall_behind hitem, and_iff_right ⟨item, hitem, hplain⟩]
  exact and_assoc.symm

theorem drains_idle (hidle : state.dropping = false) :
    Drains cfg now state ↔
      (Above now state ∧ Droppable cfg now item state.queue.dequeue.2) ∧
        state.queue.dequeue.2.dequeue.1 = none := by
  simp only [Drains, hidle, Bool.false_eq_true, if_false]
  rw [forall_behind hitem, and_iff_right ⟨item, hitem, hplain⟩]
  constructor
  · rintro ⟨habove, ⟨hhead, -⟩, hall⟩
    refine ⟨⟨habove, hhead⟩, Option.eq_none_iff_forall_ne_some.mpr ?_⟩
    exact fun other hfound => absurd (hall 0 other hfound).2 Nat.one_ne_zero
  · rintro ⟨⟨habove, hhead⟩, hnone⟩
    refine ⟨habove, ⟨hhead, rfl⟩, fun calls other hfound => ?_⟩
    rw [behind_of_none hnone, hnone] at hfound
    cases hfound

theorem decided_spec :
    (decided cfg now (firstFetch cfg now item state)).state.nullUsed = state.nullUsed ∧
      ((decided cfg now (firstFetch cfg now item state)).item = none ↔ Drains cfg now state) := by
  generalize hrest : ({ state with queue := state.queue.dequeue.2 } : CoDelState) = rest
  have hfst : firstFetch cfg now item state = ((okToDrop cfg now (some item) rest).1,
      ⟨some item, (okToDrop cfg now (some item) rest).2, [.packetDequeued item], false⟩) := by
    rw [← hrest]
    rfl
  have hsame : rest.queue = state.queue.dequeue.2 ∧ rest.dropping = state.dropping ∧
      rest.nullUsed = state.nullUsed ∧ pace rest = pace state := by
    rw [← hrest]
    exact ⟨rfl, rfl, rfl, rfl⟩
  obtain ⟨hq, hdrop, hdef, hpace⟩ := hsame
  have hok : (okToDrop cfg now (some item) rest).1 = true ↔
      (¬ sojourn now item < time2CoDel cfg.target ∧
        cfg.minBytes ≤ state.queue.dequeue.2.nBytes) ∧ Above now state := by
    rw [okToDrop_iff, ← hrest]
    rfl
  rw [hfst, decided]
  cases hallow : (okToDrop cfg now (some item) rest).1 with
  | false =>
    have hnot : ¬ Drains cfg now state := by
      rintro ⟨-, habove, hall⟩
      obtain ⟨hlate, henough, -⟩ := (hall 0 item hitem).1
      rw [hok.mpr ⟨⟨hlate, henough⟩, habove⟩] at hallow
      cases hallow
    rw [← hdef, ← okToDrop_nullUsed cfg now (some item) rest]
    split <;> exact ⟨rfl, iff_of_false (Option.some_ne_none item) hnot⟩
  | true =>
    obtain ⟨⟨hlate, henough⟩, habove⟩ := hok.mp hallow
    have hdroppable : (cfg.useEcn = true → item.mark = none) ↔
        Above now state ∧ Droppable cfg now item state.queue.dequeue.2 :=
      ⟨fun hunmarked => ⟨habove, hlate, henough, hunmarked⟩, fun hboth => hboth.2.unmarked⟩
    rw [okToDrop_same hallow]
    simp only [Bool.not_true, Bool.false_eq_true, if_false, if_true]
    cases hcycle : rest.dropping with
    | true =>
      have hrested : Above now rest := by
        rw [← hrest]
        exact habove
      obtain ⟨hkept, hends⟩ := @dropWhile_spec cfg now item
        ⟨some item, rest, [.packetDequeued item], false⟩ _ (Nat.lt_succ_self _) rfl hcycle
        hrested
      refine ⟨hkept.trans hdef, hends.trans ?_⟩
      have hlaw : rest.dropNext = state.dropNext := congrArg Pace.dropNext hpace
      rw [drains_dropping hitem hplain (hdrop.symm.trans hcycle)]
      simp only [hq, hpace, hlaw]
      exact and_congr ((and_congr_left' hdroppable).trans and_assoc) Iff.rfl
    | false =>
      by_cases hunmarked : cfg.useEcn = true → item.mark = none
      · obtain ⟨hnext, hkept⟩ := @enterDropping_unmarked cfg now item
          ⟨some item, rest, [.packetDequeued item], false⟩ rfl hunmarked
        refine ⟨hkept.trans hdef, ?_⟩
        rw [drains_idle hitem hplain (hdrop.symm.trans hcycle), ← hdroppable, ← hq]
        exact (iff_of_eq (congrArg (· = none) hnext)).trans (and_iff_right hunmarked).symm
      · obtain ⟨hecn, marked, hmark⟩ := marked_of_not hunmarked
        obtain ⟨hmarked, hkept⟩ := @enterDropping_marked cfg now item
          ⟨some item, rest, [.packetDequeued item], false⟩ rfl hecn marked hmark
        refine ⟨hkept.trans hdef, iff_of_false ?_ ?_⟩
        · exact fun hnone => Option.some_ne_none marked (hmarked.symm.trans hnone)
        · exact fun hdrains => hunmarked (hdrains.2.2 0 item hitem).1.unmarked

end

theorem finish_nullUsed (cfg : CoDelConfig) (now : Nat) (fetch : Fetch) :
    (finish cfg now fetch).state.nullUsed = (fetch.state.nullUsed || fetch.item.isNone) := by
  unfold finish
  split
  next hnone => simp [Fetch.setState, hnone]
  next item hitem =>
    rw [hitem, Option.isNone_some, Bool.or_false]
    split
    · cases hmark : fetch.mark CE_THRESHOLD_EXCEEDED_MARK with
      | none => rfl
      | some marked => exact congrArg CoDelState.nullUsed (Fetch.mark_state hmark)
    · rfl

theorem doDequeue_nullUsed_iff (env : Env Unit) (occupancy : Occupancy)
    (hdef : state.nullUsed = false) :
    (doDequeue cfg env occupancy state).state.nullUsed = false ↔ ¬ Drains cfg env.now state := by
  cases hitem : state.queue.dequeue.1 with
  | none =>
    rw [doDequeue, hitem]
    refine iff_of_true hdef ?_
    rintro ⟨⟨head, hhead, -⟩, -⟩
    rw [hitem] at hhead
    cases hhead
  | some item =>
    cases hl4s : isL4s cfg item with
    | true =>
      rw [doDequeue_l4s cfg env occupancy hitem hl4s]
      refine iff_of_true hdef ?_
      rintro ⟨⟨head, hhead, hplain⟩, -⟩
      obtain rfl := Option.some.inj (hitem.symm.trans hhead)
      rw [hl4s] at hplain
      cases hplain
    | false =>
      obtain ⟨hkept, hends⟩ := @decided_spec cfg env.now item state hitem hl4s
      rw [doDequeue_plain cfg env occupancy hitem hl4s, finish_nullUsed, hkept, hdef,
        Bool.false_or, ← hends, Option.isNone_eq_false_iff, Option.isSome_iff_ne_none]

/-! ## Runs -/

inductive CoDelCall
  | enqueue (env : Env Unit) (occupancy : Occupancy) (item : QueueDiscItem)
  | dequeue (env : Env Unit) (occupancy : Occupancy)

inductive CoDelFault
  | nullItem

def machine (cfg : CoDelConfig) : Machine CoDelState CoDelCall CoDelFault where
  init := init cfg
  step state
    | .enqueue env occupancy item => .ok (doEnqueue cfg env occupancy item state).state
    | .dequeue env occupancy =>
      let next := (doDequeue cfg env occupancy state).state
      if next.nullUsed then .error .nullItem else .ok next

theorem reachable_paced (hst : (machine cfg).Reachable state) :
    state.nullUsed = false ∧ Paced state := by
  refine @Machine.ReachableUnder.invariant _ _ _ (machine cfg) _
    (fun state => state.nullUsed = false ∧ Paced state) ⟨rfl, paced_init cfg⟩ ?_ state hst
  rintro before call after ⟨hdef, hpaced⟩ - hstep
  cases call with
  | enqueue env occupancy item =>
    cases hstep
    refine ⟨?_, hpaced.doEnqueue cfg env occupancy item⟩
    rcases doEnqueue_cases cfg env occupancy item before with ⟨reason, hsame⟩ | ⟨-, hstored⟩
    · rw [hsame]
      exact hdef
    · rw [hstored]
      exact hdef
  | dequeue env occupancy =>
    simp only [machine] at hstep
    split at hstep
    · cases hstep
    next hnext =>
      cases hstep
      exact ⟨eq_false_of_ne_true hnext, (hpaced.doDequeue cfg env occupancy).1⟩

/-- `DoDequeue` uses no null item. Its loop ends, it drops at most what waits, and each packet it
takes is returned or reported as dropped once. `NewtonStep` subtracts within its word. -/
structure SafeDequeue (cfg : CoDelConfig) (env : Env Unit) (occupancy : Occupancy)
    (state : CoDelState) : Prop where
  defined : (doDequeue cfg env occupancy state).state.nullUsed = false
  ends : ∀ item, state.queue.dequeue.1 = some item →
    let fetched := (firstFetch cfg env.now item state).2
    ∀ rounds > fetched.state.queue.packets.length, dropWhile cfg env.now rounds fetched =
      dropWhile cfg env.now (fetched.state.queue.packets.length + 1) fetched
  drops : (droppedAfterOf (doDequeue cfg env occupancy state).reports).length ≤
    state.queue.packets.length
  accounted : datagrams state.queue.packets =
    datagrams (droppedAfterOf (doDequeue cfg env occupancy state).reports) ++
      datagrams (doDequeue cfg env occupancy state).result.toList ++
      datagrams (doDequeue cfg env occupancy state).state.queue.packets
  newton : ∀ call ∈ newtonSteps cfg env.now state, SubtractsWithin call.1 call.2

/-- In every run, dequeuing is safe unless it drains the queue. -/
theorem safeDequeue_iff (hst : (machine cfg).Reachable state) (env : Env Unit) (occupancy :
    Occupancy) : SafeDequeue cfg env occupancy state ↔ ¬ Drains cfg env.now state := by
  obtain ⟨hdefined, hpaced⟩ := reachable_paced hst
  have haccounts := doDequeue_accounts cfg env occupancy state
  refine ⟨fun hsafe => (doDequeue_nullUsed_iff env occupancy hdefined).mp hsafe.defined,
    fun hnot => ⟨(doDequeue_nullUsed_iff env occupancy hdefined).mpr hnot,
      fun item _ rounds hrounds => dropWhile_ends hrounds, ?_, haccounts,
      (hpaced.doDequeue cfg env occupancy).2⟩⟩
  have hlen := congrArg List.length haccounts
  simp only [datagrams, List.length_append, List.length_map] at hlen
  omega

end CoDelQueueDisc

def drainingCoDel : CoDelConfig := { quietCoDel with minBytes := 0 }

namespace CoDelQueueDisc

def drainingRun : List CoDelCall :=
  [.enqueue ⟨0, ()⟩ ⟨0, 0⟩ ⟨⟨⟨0, 500, 0⟩, 0⟩, none, 0⟩,
    .enqueue ⟨0, ()⟩ ⟨1, 500⟩ ⟨⟨⟨1, 500, 0⟩, 0⟩, none, 0⟩,
    .dequeue ⟨10000000, ()⟩ ⟨2, 1000⟩]

/-- Of two packets that wait too long one is dropped and the other goes out. -/
theorem safeDequeue_iff_dropping :
    let calls : List CoDelCall :=
      [.enqueue ⟨0, ()⟩ ⟨0, 0⟩ ⟨⟨⟨0, 500, 0⟩, 0⟩, none, 0⟩,
        .enqueue ⟨0, ()⟩ ⟨1, 500⟩ ⟨⟨⟨1, 500, 0⟩, 0⟩, none, 0⟩,
        .enqueue ⟨0, ()⟩ ⟨2, 1000⟩ ⟨⟨⟨2, 500, 0⟩, 0⟩, none, 0⟩,
        .dequeue ⟨10000000, ()⟩ ⟨3, 1500⟩]
    ∃ state, (machine drainingCoDel).run calls (init drainingCoDel) = .ok state ∧
      SafeDequeue drainingCoDel ⟨200000000, ()⟩ ⟨2, 1000⟩ state ∧
      (droppedAfterOf (doDequeue drainingCoDel ⟨200000000, ()⟩ ⟨2, 1000⟩
        state).reports).length = 1 ∧
      (doDequeue drainingCoDel ⟨200000000, ()⟩ ⟨2, 1000⟩ state).result.isSome = true := by
  intro calls
  obtain ⟨state, hrun, hsecond, hdrops, hresult⟩ : ∃ state,
      (machine drainingCoDel).run calls (init drainingCoDel) = .ok state ∧
      ((state.queue.behind 1).dequeue.1.isSome = true ∧ state.dropping = false) ∧
      (droppedAfterOf (doDequeue drainingCoDel ⟨200000000, ()⟩ ⟨2, 1000⟩
        state).reports).length = 1 ∧
      (doDequeue drainingCoDel ⟨200000000, ()⟩ ⟨2, 1000⟩ state).result.isSome = true :=
    ⟨_, rfl, by decide +kernel, by decide +kernel, by decide +kernel⟩
  have hreach : (machine drainingCoDel).Reachable state :=
    Machine.ReachableUnder.run .init (fun _ _ _ => trivial) hrun
  refine ⟨state, hrun, (safeDequeue_iff hreach _ _).mpr ?_, hdrops, hresult⟩
  rintro ⟨-, -, hall⟩
  obtain ⟨item, hitem⟩ := Option.isSome_iff_exists.mp hsecond.1
  have hone := (hall 1 item hitem).2
  rw [hsecond.2] at hone
  cases hone

/-- The last packet is dropped, and its successor's time stamp read. -/
theorem dequeue_unsafe :
    ¬ ∀ cfg state,
      (machine cfg).Reachable state → ∀ env occupancy, SafeDequeue cfg env occupancy state := by
  intro hall
  have hlast : ∃ state, (machine drainingCoDel).run drainingRun (init drainingCoDel) = .ok state ∧
      (doDequeue drainingCoDel ⟨200000000, ()⟩ ⟨1, 500⟩ state).state.nullUsed = true :=
    ⟨_, rfl, by decide +kernel⟩
  obtain ⟨state, hrun, hnull⟩ := hlast
  have hsafe := hall drainingCoDel state
    (Machine.ReachableUnder.run .init (fun _ _ _ => trivial) hrun) ⟨200000000, ()⟩ ⟨1, 500⟩
  rw [hsafe.defined] at hnull
  cases hnull

end CoDelQueueDisc

end HomaSird.TrafficControl
