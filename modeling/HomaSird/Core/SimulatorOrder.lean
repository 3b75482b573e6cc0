import HomaSird.Core.DefaultSimulatorImpl

/-! # Every event once, in order

As long as their counter has not come round, the uids are in the order of scheduling, and the
place of an event in the order of time and uid tells whether it has had its turn. Every call keeps
this, over any correct schedulers.
-/

namespace HomaSird.Core

open Transition DefaultSimulatorImpl List

namespace SimulatorRun

variable {Kind : Type} {Queue : Kind → Type} (scheduler : ∀ kind, Scheduler (Queue kind))

/-! ## What a run is to do -/

/-- Every event has at most one turn, at its time; turns are in the order of time and scheduling;
an event is invoked at its turn unless it was cancelled or removed before; an event that has had no
turn and was not cancelled or removed is in the queue. -/
structure Orderly (run : SimulatorRun Queue) : Prop where
  /-- implementations are numbered in the order of scheduling -/
  numbered : run.scheduled.Pairwise fun first second => first.id.impl < second.id.impl
  turn : ∀ entry ∈ run.turns, ∃ event ∈ run.scheduled,
    event.id.impl = entry.1 ∧ event.time = entry.2
  once : (run.turns.map Prod.fst).Nodup
  order : run.turns.Pairwise fun first second =>
    first.2 < second.2 ∨ first.2 = second.2 ∧ first.1 < second.1
  invoked : run.invoked = run.turns.filter fun entry => entry.1 ∉ run.gone
  now : run.simulator.now = (run.turns.getLast?.map Prod.snd).getD 0
  waiting : ∀ event ∈ run.scheduled, event.id.impl ∉ run.turns.map Prod.fst →
    event.id.impl ∉ run.gone → event.id.event ∈ run.simulator.queued scheduler
  queued : ∀ ev ∈ run.simulator.queued scheduler, ∃ event ∈ run.scheduled,
    event.id.event = ev ∧ event.id.impl ∉ run.turns.map Prod.fst
  expired : ∀ event ∈ run.scheduled, run.simulator.isExpired event.id = true ↔
    event.id.impl ∈ run.turns.map Prod.fst ∨ event.id.impl ∈ run.gone
  unscheduledEvents : run.simulator.unscheduledEvents = (run.simulator.queued scheduler).length
  returns : ∀ call, run.offered scheduler call = true → ∃ next, step scheduler run call = .ok next
  nowGrows : ∀ call next, run.offered scheduler call = true → step scheduler run call = .ok next →
    run.simulator.now ≤ next.simulator.now

/-- The uids have not come round, the queue is no longer than its counter can say, and the time is
in range. -/
def inRange (run : SimulatorRun Queue) : SimulatorCall Kind → Bool
  | .schedule delay | .scheduleWithContext _ delay =>
    4 ≤ run.simulator.uid && run.simulator.unscheduledEvents < 2 ^ 31 - 1 &&
      run.simulator.currentTs + delay < 2 ^ 63
  | .scheduleNow => 4 ≤ run.simulator.uid && run.simulator.unscheduledEvents < 2 ^ 31 - 1
  | .scheduleDestroy => 4 ≤ run.simulator.uid
  | _ => true

/-! ## The invariant -/

def Reached (sim : DefaultSimulatorImpl Queue) (id : EventId) : Prop :=
  id.ts < sim.currentTs ∨ id.ts = sim.currentTs ∧ id.uid ≤ sim.currentUid

variable {scheduler}
variable {valid : ∀ kind, Queue kind → Prop}

/-- The scheduled events have uids below a limit that is the counter before it came round. -/
structure Numbered (run : SimulatorRun Queue) (limit : Nat) : Prop where
  four_le : 4 ≤ limit
  limit_le : limit ≤ 2 ^ 32
  uid : run.simulator.uid = uint32 limit
  currentUid : run.simulator.currentUid < limit
  currentTs : run.simulator.currentTs < 2 ^ 63
  sorted : run.scheduled.Pairwise fun first second =>
    first.id.impl < second.id.impl ∧ first.id.uid < second.id.uid
  event : ∀ event ∈ run.scheduled, event.id.impl < run.simulator.nextImpl ∧ 4 ≤ event.id.uid ∧
    event.id.uid < limit ∧ event.time = event.id.ts ∧ event.id.ts < 2 ^ 63
  destroyed : ∀ id ∈ run.destroyed, id.uid = 2 ∧ id.impl < run.simulator.nextImpl ∧
    ∀ event ∈ run.scheduled, event.id.impl ≠ id.impl

structure Placed (scheduler : ∀ kind, Scheduler (Queue kind)) (run : SimulatorRun Queue) :
    Prop where
  queued : ∀ ev ∈ run.simulator.queued scheduler, ∃ event ∈ run.scheduled,
    event.id.event = ev ∧ ¬ Reached run.simulator event.id
  waiting : ∀ event ∈ run.scheduled, event.id.impl ∉ run.turns.map Prod.fst →
    event.id.impl ∉ run.gone → event.id.event ∈ run.simulator.queued scheduler
  reached : ∀ event ∈ run.scheduled, Reached run.simulator event.id →
    event.id.impl ∈ run.turns.map Prod.fst ∨ event.id.impl ∈ run.gone
  turn : ∀ entry ∈ run.turns, ∃ event ∈ run.scheduled, event.id.impl = entry.1 ∧
    event.time = entry.2 ∧ Reached run.simulator event.id
  order : run.turns.Pairwise fun first second =>
    first.2 < second.2 ∨ first.2 = second.2 ∧ first.1 < second.1
  last : (run.simulator.currentTs : Int) = (run.turns.getLast?.map Prod.snd).getD 0
  cancelled : ∀ event ∈ run.scheduled,
    event.id.impl ∈ run.simulator.cancelled ↔ event.id.impl ∈ run.gone
  known : ∀ impl, impl ∈ run.simulator.cancelled ∨ impl ∈ run.gone → impl < run.simulator.nextImpl
  invoked : run.invoked = run.turns.filter fun entry => entry.1 ∉ run.gone

structure InOrder (scheduler : ∀ kind, Scheduler (Queue kind))
    (valid : ∀ kind, Queue kind → Prop) (run : SimulatorRun Queue) (limit : Nat) : Prop where
  valid : valid run.simulator.events.1 run.simulator.events.2
  numbered : Numbered run limit
  placed : Placed scheduler run
  unscheduledEvents : run.simulator.unscheduledEvents = (run.simulator.queued scheduler).length
  short : (run.simulator.queued scheduler).length < 2 ^ 31

variable {run : SimulatorRun Queue} {limit : Nat} {sim : DefaultSimulatorImpl Queue}

theorem int64_of_lt {value : Nat} (hval : value < 2 ^ 63) : int64 value = value := by
  rw [int64, Int.bmod_def]
  omega

theorem int32_of_range {value : Int}
    (hlow : -2 ^ 31 ≤ value) (hhigh : value < 2 ^ 31) : int32 value = value := by
  rw [int32, Int.bmod_def]
  omega

theorem Numbered.now (hnum : Numbered run limit) :
    run.simulator.now = run.simulator.currentTs := int64_of_lt hnum.currentTs

section

variable {first second : Scheduled} (hnum : Numbered run limit) (hfst : first ∈ run.scheduled)
  (hsnd : second ∈ run.scheduled)
include hnum hfst hsnd

theorem Numbered.cases :
    first = second ∨ (first.id.impl < second.id.impl ∧ first.id.uid < second.id.uid) ∨
      (second.id.impl < first.id.impl ∧ second.id.uid < first.id.uid) := by
  have hpairs := hnum.sorted.imp fun {first second : Scheduled} hless =>
    (Or.inr (.inl hless) : first = second ∨
      (first.id.impl < second.id.impl ∧ first.id.uid < second.id.uid) ∨
        (second.id.impl < first.id.impl ∧ second.id.uid < first.id.uid))
  have hflipped := hnum.sorted.imp fun {first second : Scheduled} hless =>
    (Or.inr (.inr hless) : second = first ∨
      (second.id.impl < first.id.impl ∧ second.id.uid < first.id.uid) ∨
        (first.id.impl < second.id.impl ∧ first.id.uid < second.id.uid))
  exact List.Pairwise.forall_of_forall_of_flip (fun _ _ => .inl rfl) hpairs hflipped hfst
    hsnd

theorem Numbered.impl_lt_of_uid_lt (huid : first.id.uid < second.id.uid) :
    first.id.impl < second.id.impl := by
  rcases hnum.cases hfst hsnd with rfl | hless | hless
  · exact absurd huid (Nat.lt_irrefl _)
  · exact hless.1
  · exact absurd huid (Nat.lt_asymm hless.2)

theorem Numbered.eq_of_impl (himpl : first.id.impl = second.id.impl) : first = second := by
  rcases hnum.cases hfst hsnd with rfl | hless | hless
  · rfl
  · exact absurd himpl (Nat.ne_of_lt hless.1)
  · exact absurd himpl.symm (Nat.ne_of_lt hless.1)

end

theorem isExpired_iff (hnum : Numbered run limit) {event : Scheduled}
    (hevent : event ∈ run.scheduled) :
    run.simulator.isExpired event.id = true ↔
      Reached run.simulator event.id ∨ event.id.impl ∈ run.simulator.cancelled := by
  have hfour := (hnum.event event hevent).2.1
  rw [isExpired, if_neg (by omega)]
  simp [Reached, or_assoc]

section

variable {event : Scheduled} (hplaced : Placed scheduler run) (hnum : Numbered run limit)
  (hevent : event ∈ run.scheduled)
include hplaced hnum hevent

theorem Placed.expired_iff :
    run.simulator.isExpired event.id = true ↔
      event.id.impl ∈ run.turns.map Prod.fst ∨ event.id.impl ∈ run.gone := by
  rw [isExpired_iff hnum hevent, hplaced.cancelled event hevent]
  constructor
  · rintro (hreach | hgone)
    · exact hplaced.reached event hevent hreach
    · exact .inr hgone
  · rintro (hturn | hgone)
    · obtain ⟨entry, hent, himpl⟩ := mem_map.mp hturn
      obtain ⟨other, hother, hsame, -, hreach⟩ := hplaced.turn entry hent
      rw [← hnum.eq_of_impl hother hevent (hsame.trans himpl)]
      exact .inl hreach
    · exact .inr hgone

theorem Placed.no_turn (hnot : ¬ Reached run.simulator event.id) :
    event.id.impl ∉ run.turns.map Prod.fst := by
  intro hturn
  obtain ⟨entry, hent, himpl⟩ := mem_map.mp hturn
  obtain ⟨other, hother, hsame, -, hreach⟩ := hplaced.turn entry hent
  rw [hnum.eq_of_impl hother hevent (hsame.trans himpl)] at hreach
  exact hnot hreach

end

/-! ## Scheduling -/

theorem InOrder.new_uid (horder : InOrder scheduler valid run limit) :
    ∀ other ∈ run.simulator.queued scheduler, other.key.uid ≠ run.simulator.uid := by
  intro other hother
  obtain ⟨event, hevent, rfl, -⟩ := horder.placed.queued other hother
  obtain ⟨-, hfour, hless, -⟩ := horder.numbered.event event hevent
  have hlim := horder.numbered.limit_le
  rw [horder.numbered.uid, uint32]
  change event.id.uid ≠ _
  omega

theorem InOrder.insertEvent
    (hcorrect : ∀ kind, Correct (scheduler kind) (valid kind) fun _ _ => True)
    (horder : InOrder scheduler valid run limit) (ts context : Nat) :
    ∃ queue, run.simulator.insertEvent scheduler ts context =
        some (⟨run.simulator.nextImpl, ts, context, run.simulator.uid⟩, { run.simulator with
          events := ⟨run.simulator.events.1, queue⟩
          uid := uint32 (run.simulator.uid + 1)
          unscheduledEvents := int32 (run.simulator.unscheduledEvents + 1)
          nextImpl := run.simulator.nextImpl + 1 }) ∧
      valid run.simulator.events.1 queue ∧
      ((scheduler run.simulator.events.1).events queue).Perm
        ((⟨run.simulator.nextImpl, ts, context, run.simulator.uid⟩ : EventId).event ::
          run.simulator.queued scheduler) := by
  obtain ⟨queue, hinsert, hvalid, hevs⟩ := (hcorrect run.simulator.events.1).insert
    run.simulator.events.2
      (⟨run.simulator.nextImpl, ts, context, run.simulator.uid⟩ : EventId).event
    horder.valid trivial horder.new_uid
  refine ⟨queue, ?_, hvalid, hevs⟩
  rw [DefaultSimulatorImpl.insertEvent, hinsert]
  rfl

theorem InOrder.scheduleStep
    (hcorrect : ∀ kind, Correct (scheduler kind) (valid kind) fun _ _ => True)
    (horder : InOrder scheduler valid run limit) {ts context : Nat} {delay : Int}
    (htime : (ts : Int) = run.simulator.currentTs + delay) (hdelay : 0 ≤ delay) (hts : ts < 2 ^ 63)
    (hfour : 4 ≤ run.simulator.uid) (hshort : run.simulator.unscheduledEvents < 2 ^ 31 - 1) :
    ∃ next,
      run.scheduleStep delay (run.simulator.insertEvent scheduler ts context) = .ok next ∧
        InOrder scheduler valid next (limit + 1) := by
  obtain ⟨queue, hinsert, hvalid, hperm⟩ := horder.insertEvent hcorrect ts context
  obtain ⟨-, hnum, hplaced, hcnt, hlen⟩ := horder
  have hlim := hnum.limit_le
  have hless : limit < 2 ^ 32 := by
    have huid := hnum.uid
    rw [uint32] at huid
    omega
  have huid : run.simulator.uid = limit := by
    rw [hnum.uid, uint32_of_lt hless]
  have hcur := hnum.currentUid
  -- its uid is behind all others and its time not in the past
  have hnew : ¬ Reached run.simulator
      (⟨run.simulator.nextImpl, ts, context, run.simulator.uid⟩ : EventId) := by
    rintro (hpre | ⟨-, hle⟩)
    · change ts < run.simulator.currentTs at hpre
      omega
    · change run.simulator.uid ≤ run.simulator.currentUid at hle
      omega
  have hpast : ∀ event ∈ run.scheduled, event.id.impl < run.simulator.nextImpl :=
    fun event hevent => (hnum.event event hevent).1
  -- a property of all scheduled events is kept when the new event has it
  have hadded : ∀ {holds : Scheduled → Prop}, (∀ event ∈ run.scheduled, holds event) →
      holds ⟨⟨run.simulator.nextImpl, ts, context, run.simulator.uid⟩,
        run.simulator.now + delay⟩ →
      ∀ event ∈ run.scheduled ++ [⟨⟨run.simulator.nextImpl, ts, context, run.simulator.uid⟩,
        run.simulator.now + delay⟩], holds event := by
    intro holds hold hlast event hevent
    rcases mem_append.mp hevent with hmem | hmem
    · exact hold event hmem
    · exact mem_singleton.mp hmem ▸ hlast
  refine ⟨_, by rw [hinsert]; rfl, hvalid, ?_, ?_, ?_, ?_⟩
  · refine ⟨by omega, hless, ?_, Nat.lt_succ_of_lt hcur, hnum.currentTs, ?_, ?_, ?_⟩
    · change uint32 (run.simulator.uid + 1) = _
      rw [huid]
    · refine pairwise_append.mpr ⟨hnum.sorted, pairwise_singleton _ _, ?_⟩
      intro event hevent last hlast
      rw [mem_singleton.mp hlast]
      have hbd := (hnum.event event hevent).2.2.1
      exact ⟨hpast event hevent, huid ▸ hbd⟩
    · refine hadded (fun event hevent => ?_) ?_
      · obtain ⟨himpl, hfourth, hbd, hrest⟩ := hnum.event event hevent
        exact ⟨Nat.lt_succ_of_lt himpl, hfourth, Nat.lt_succ_of_lt hbd, hrest⟩
      · refine ⟨Nat.lt_succ_self _, hfour, ?_, ?_, hts⟩
        · exact huid ▸ Nat.lt_succ_self _
        · change run.simulator.now + delay = _
          rw [hnum.now, htime]
    · intro id hid
      obtain ⟨htwo, himpl, hne⟩ := hnum.destroyed id hid
      exact ⟨htwo, Nat.lt_succ_of_lt himpl, hadded hne (Nat.ne_of_gt himpl)⟩
  · refine ⟨?_, ?_, ?_, ?_, hplaced.order, hplaced.last, ?_,
      fun impl himpl => Nat.lt_succ_of_lt (hplaced.known impl himpl), hplaced.invoked⟩
    · intro ev hev
      rcases mem_cons.mp (hperm.mem_iff.mp hev) with rfl | hold
      · exact ⟨_, mem_append_right _ (mem_singleton_self _), rfl, hnew⟩
      · obtain ⟨event, hevent, hsame, hnot⟩ := hplaced.queued ev hold
        exact ⟨event, mem_append_left _ hevent, hsame, hnot⟩
    · refine hadded (fun event hevent hturn hgone => ?_) fun _ _ => ?_
      · exact hperm.mem_iff.mpr (mem_cons_of_mem _ (hplaced.waiting event hevent hturn hgone))
      · exact hperm.mem_iff.mpr mem_cons_self
    · exact hadded hplaced.reached fun hreach => absurd hreach hnew
    · intro entry hent
      obtain ⟨event, hevent, hrest⟩ := hplaced.turn entry hent
      exact ⟨event, mem_append_left _ hevent, hrest⟩
    · refine hadded hplaced.cancelled (iff_of_false (fun hmem => ?_) fun hmem => ?_)
      · exact Nat.lt_irrefl _ (hplaced.known _ (.inl hmem))
      · exact Nat.lt_irrefl _ (hplaced.known _ (.inr hmem))
  · change int32 _ = (((scheduler run.simulator.events.1).events queue).length : Int)
    rw [hperm.length_eq, length_cons, int32_of_range (by omega) (by omega), hcnt]
    omega
  · change ((scheduler run.simulator.events.1).events queue).length < _
    rw [hperm.length_eq, length_cons]
    omega

theorem InOrder.scheduleDestroy (horder : InOrder scheduler valid run limit)
    (hfour : 4 ≤ run.simulator.uid) :
    InOrder scheduler valid { run with
      simulator := run.simulator.scheduleDestroy.2
      destroyed := run.destroyed ++ [run.simulator.scheduleDestroy.1] } (limit + 1) := by
  obtain ⟨hvalid, hnum, hplaced, hcnt, hlen⟩ := horder
  have hless : limit < 2 ^ 32 := by
    have huid := hnum.uid
    have hlim := hnum.limit_le
    rw [uint32] at huid
    omega
  refine ⟨hvalid, ?_, ?_, hcnt, hlen⟩
  · refine ⟨Nat.le_succ_of_le hnum.four_le, hless, ?_,
      Nat.lt_succ_of_lt hnum.currentUid, hnum.currentTs, hnum.sorted, ?_, ?_⟩
    · change uint32 (run.simulator.uid + 1) = _
      rw [hnum.uid, uint32_add]
    · intro event hevent
      obtain ⟨himpl, hfourth, hbd, hrest⟩ := hnum.event event hevent
      exact ⟨Nat.lt_succ_of_lt himpl, hfourth, Nat.lt_succ_of_lt hbd, hrest⟩
    · intro id hid
      rcases mem_append.mp hid with hold | hnew
      · obtain ⟨htwo, himpl, hne⟩ := hnum.destroyed id hold
        exact ⟨htwo, Nat.lt_succ_of_lt himpl, hne⟩
      · rw [mem_singleton.mp hnew]
        exact ⟨rfl, Nat.lt_succ_self _, fun event hevent =>
          Nat.ne_of_lt (hnum.event event hevent).1⟩
  · exact ⟨hplaced.queued, hplaced.waiting, hplaced.reached, hplaced.turn, hplaced.order,
      hplaced.last, hplaced.cancelled,
      fun impl himpl => Nat.lt_succ_of_lt (hplaced.known impl himpl), hplaced.invoked⟩

/-! ## Cancelling and removing -/

theorem mem_withdraw {id : EventId} {impl : Nat} :
    impl ∈ run.withdraw id ↔
      impl ∈ run.gone ∨ impl = id.impl ∧ id.impl ∉ run.turns.map Prod.fst := by
  rw [withdraw]
  split
  next hturn => exact ⟨.inl, fun h => h.resolve_right fun hboth => hboth.2 hturn⟩
  next hturn =>
    rw [mem_cons]
    exact ⟨fun h => h.symm.imp_right fun heq => ⟨heq, hturn⟩,
      fun h => (h.imp_right And.left).symm⟩

theorem Placed.withdraw (hplaced : Placed scheduler run) {id : EventId}
    (hts : sim.currentTs = run.simulator.currentTs)
    (huid : sim.currentUid = run.simulator.currentUid)
    (hnext : sim.nextImpl = run.simulator.nextImpl) (hid : id.impl < sim.nextImpl)
    (hcanc : ∀ event ∈ run.scheduled,
      event.id.impl ∈ sim.cancelled ↔ event.id.impl ∈ run.withdraw id)
    (hknown : ∀ impl ∈ sim.cancelled, impl ∈ run.simulator.cancelled ∨ impl = id.impl)
    (hq : ∀ ev ∈ sim.queued scheduler, ev ∈ run.simulator.queued scheduler)
    (hleft : ∀ ev ∈ run.simulator.queued scheduler, ev.impl ≠ id.impl →
      ev ∈ sim.queued scheduler) :
    Placed scheduler { run with simulator := sim, gone := run.withdraw id } := by
  have hreach : ∀ other, Reached sim other ↔ Reached run.simulator other := fun other => by
    rw [Reached, Reached, hts, huid]
  refine ⟨?_, ?_, ?_, ?_, hplaced.order, ?_, hcanc, ?_, ?_⟩
  · intro ev hev
    obtain ⟨event, hevent, hsame, hnot⟩ := hplaced.queued ev (hq ev hev)
    exact ⟨event, hevent, hsame, fun h => hnot ((hreach _).mp h)⟩
  · intro event hevent hturn hgone
    rw [mem_withdraw, not_or] at hgone
    have hne : event.id.impl ≠ id.impl := fun heq => hgone.2 ⟨heq, heq ▸ hturn⟩
    exact hleft _ (hplaced.waiting event hevent hturn hgone.1) hne
  · intro event hevent h
    exact (hplaced.reached event hevent ((hreach _).mp h)).imp_right fun hgone =>
      mem_withdraw.mpr (.inl hgone)
  · intro entry hent
    obtain ⟨event, hevent, himpl, htime, h⟩ := hplaced.turn entry hent
    exact ⟨event, hevent, himpl, htime, (hreach _).mpr h⟩
  · change (sim.currentTs : Int) = _
    rw [hts]
    exact hplaced.last
  · intro impl himpl
    change impl < sim.nextImpl
    have hold : impl = id.impl ∨ impl ∈ run.simulator.cancelled ∨ impl ∈ run.gone := by
      rcases himpl with hmem | hmem
      · exact (hknown impl hmem).symm.imp_right .inl
      · exact (mem_withdraw.mp hmem).symm.imp And.left .inr
    rcases hold with rfl | hold
    · exact hid
    · rw [hnext]
      exact hplaced.known impl hold
  · change run.invoked = _
    rw [hplaced.invoked]
    refine filter_congr fun entry hent => ?_
    have hturn : entry.1 ∈ run.turns.map Prod.fst := mem_map_of_mem hent
    have hsame : entry.1 ∈ run.withdraw id ↔ entry.1 ∈ run.gone := by
      rw [mem_withdraw]
      exact ⟨fun h => h.resolve_right fun hboth => hboth.2 (hboth.1 ▸ hturn), .inl⟩
    simp [hsame]

theorem InOrder.withdraw (horder : InOrder scheduler valid run limit) {id : EventId}
    {cancelled : List Nat} {destroyEvents : List EventId}
    (hid : id.impl < run.simulator.nextImpl)
    (hcanc : ∀ event ∈ run.scheduled,
      event.id.impl ∈ cancelled ↔ event.id.impl ∈ run.withdraw id)
    (hknown : ∀ impl ∈ cancelled, impl ∈ run.simulator.cancelled ∨ impl = id.impl) :
    InOrder scheduler valid { run with
      simulator := { run.simulator with cancelled := cancelled, destroyEvents := destroyEvents }
      gone := run.withdraw id } limit := by
  obtain ⟨hvalid, hnum, hplaced, hcnt, hlen⟩ := horder
  refine ⟨hvalid, ?_, ?_, hcnt, hlen⟩
  · exact ⟨hnum.four_le, hnum.limit_le, hnum.uid, hnum.currentUid,
      hnum.currentTs, hnum.sorted, hnum.event, hnum.destroyed⟩
  · exact hplaced.withdraw rfl rfl rfl hid hcanc hknown (fun _ hev => hev) fun _ hev _ => hev

def Known (run : SimulatorRun Queue) (id : EventId) : Prop :=
  (∃ event ∈ run.scheduled, event.id = id) ∨ id ∈ run.destroyed

theorem InOrder.known_lt (horder : InOrder scheduler valid run limit)
    {id : EventId} (hid : run.Known id) : id.impl < run.simulator.nextImpl := by
  rcases hid with ⟨event, hevent, rfl⟩ | hdead
  · exact (horder.numbered.event event hevent).1
  · exact (horder.numbered.destroyed id hdead).2.1

theorem InOrder.cancel (horder : InOrder scheduler valid run limit) {id : EventId}
    (hid : run.Known id) : InOrder scheduler valid { run with
      simulator := run.simulator.cancel id, gone := run.withdraw id } limit := by
  have hplaced := horder.placed
  have hnum := horder.numbered
  rw [DefaultSimulatorImpl.cancel]
  split
  next hexp =>
    refine horder.withdraw (horder.known_lt hid) (fun event hevent => ?_) fun _ h => .inl h
    rw [mem_withdraw, hplaced.cancelled event hevent]
    refine ⟨.inl, fun h => h.elim (fun h => h) fun ⟨himpl, hturn⟩ => ?_⟩
    rcases hid with ⟨other, hother, rfl⟩ | hdead
    · rw [himpl]
      exact ((hplaced.expired_iff hnum hother).mp hexp).resolve_left hturn
    · exact absurd himpl ((hnum.destroyed id hdead).2.2 event hevent)
  next hnot =>
    refine horder.withdraw (horder.known_lt hid) (fun event hevent => ?_)
      fun impl h => (mem_cons.mp h).symm
    rw [mem_withdraw, mem_cons, hplaced.cancelled event hevent, or_comm]
    refine or_congr_right ⟨fun himpl => ⟨himpl, fun hturn => ?_⟩, And.left⟩
    rcases hid with ⟨other, hother, rfl⟩ | hdead
    · exact hnot ((hplaced.expired_iff hnum hother).mpr (.inl hturn))
    · exact (hnum.destroyed id hdead).2.2 event hevent himpl

theorem InOrder.remove (hcorrect : ∀ kind, Correct (scheduler kind) (valid kind) fun _ _ => True)
    (horder : InOrder scheduler valid run limit) {id : EventId} (hid : run.Known id) :
    ∃ sim,
      run.simulator.remove scheduler id = some sim ∧ sim.now = run.simulator.now ∧
        InOrder scheduler valid { run with simulator := sim, gone := run.withdraw id } limit := by
  have hplaced := horder.placed
  have hnum := horder.numbered
  rw [DefaultSimulatorImpl.remove]
  split
  next htwo =>
    refine ⟨_, rfl, rfl, horder.withdraw (horder.known_lt hid) (fun event hevent => ?_)
      fun _ h => .inl h⟩
    rcases hid with ⟨other, hother, rfl⟩ | hdead
    · have hfour := (hnum.event other hother).2.1
      omega
    · rw [mem_withdraw]
      exact (hplaced.cancelled event hevent).trans ⟨.inl, fun h => h.resolve_right fun hboth =>
        (hnum.destroyed id hdead).2.2 event hevent hboth.1⟩
  next htwo =>
    obtain ⟨event, hevent, rfl⟩ := hid.resolve_right fun h => htwo (hnum.destroyed id h).1
    split
    -- an expired event is left alone, as by a cancel
    next hexp =>
      have hsame : run.simulator.cancel event.id = run.simulator := if_pos hexp
      have hcancel := horder.cancel hid
      rw [hsame] at hcancel
      exact ⟨_, rfl, rfl, hcancel⟩
    next hnot =>
      have hnone := mt (hplaced.expired_iff hnum hevent).mpr hnot
      rw [not_or] at hnone
      -- it waits in the queue, from which the scheduler takes it
      have hqueued := hplaced.waiting event hevent hnone.1 hnone.2
      obtain ⟨queue, hremove, hleft⟩ := (hcorrect run.simulator.events.1).remove
        run.simulator.events.2 event.id.event horder.valid hqueued
      obtain ⟨hvalid, hperm⟩ := hleft trivial
      have hlen := length_erase_of_mem hqueued
      have hpos := length_pos_of_mem hqueued
      have hshort := horder.short
      have hcnt := horder.unscheduledEvents
      change ((scheduler run.simulator.events.1).events queue).Perm
        ((run.simulator.queued scheduler).erase event.id.event) at hperm
      refine ⟨_, congrArg (· >>= _) hremove, ?_, hvalid, ?_, ?_, ?_, ?_⟩
      · rfl
      · exact ⟨hnum.four_le, hnum.limit_le, hnum.uid, hnum.currentUid,
          hnum.currentTs, hnum.sorted, hnum.event, hnum.destroyed⟩
      · refine hplaced.withdraw rfl rfl rfl (horder.known_lt hid) (fun other hother => ?_)
          (fun impl h => (mem_cons.mp h).symm)
          (fun ev hev => mem_of_mem_erase (hperm.mem_iff.mp hev)) fun ev hev hne => ?_
        · change other.id.impl ∈ event.id.impl :: run.simulator.cancelled ↔ _
          rw [mem_withdraw, mem_cons, hplaced.cancelled other hother, or_comm]
          exact or_congr_right ⟨fun himpl => ⟨himpl, hnone.1⟩, And.left⟩
        · refine hperm.mem_iff.mpr ((mem_erase_of_ne fun heq => hne ?_).mpr hev)
          rw [heq]
          rfl
      · change int32 _ = (((scheduler run.simulator.events.1).events queue).length : Int)
        rw [hperm.length_eq, hlen, hcnt, int32_of_range (by omega) (by omega)]
        omega
      · change ((scheduler run.simulator.events.1).events queue).length < _
        rw [hperm.length_eq, hlen]
        omega

/-! ## Changing the scheduler -/

theorem moveEvents_spec {Old New : Type} {source : Scheduler Old} {target : Scheduler New}
    {validOld : Old → Prop} {validNew : New → Prop} (hsource : Correct source validOld fun _ _ =>
    True) (htarget : Correct target validNew fun _ _ => True) {fuel : Nat} {old : Old} {new : New}
    (hold : validOld old) (hnew : validNew new) (hfuel : (source.events old).length < fuel)
    (hdist : Distinct (source.events old ++ target.events new)) :
    ∃ next, moveEvents source target fuel old new = some next ∧
    validNew next ∧ (target.events next).Perm (source.events old ++ target.events new) := by
  induction fuel generalizing old new with
  | zero => exact absurd hfuel (Nat.not_lt_zero _)
  | succ fuel ih =>
    rw [moveEvents, hsource.isEmpty old hold]
    split
    next hempty =>
      rw [isEmpty_iff.mp hempty]
      exact ⟨new, rfl, hnew, .refl _⟩
    next hsome =>
      obtain ⟨ev, rest, -, hremove, hleast, hleft⟩ :=
        hsource.removeNext old hold fun hnil => hsome (isEmpty_iff.mpr hnil)
      obtain ⟨hrest, hrestEvents⟩ := hleft trivial
      have hsplit : (source.events old ++ target.events new).Perm
          (ev :: (source.events rest ++ target.events new)) :=
        ((perm_cons_erase hleast.1).trans (hrestEvents.symm.cons ev)).append_right _
      have hparts := nodup_cons.mp (hdist.perm hsplit)
      have hfresh : ∀ other ∈ target.events new, other.key.uid ≠ ev.key.uid :=
        fun other hother heq => hparts.1 (mem_map.mpr
          ⟨other, mem_append_right _ hother, heq⟩)
      obtain ⟨next, hinsert, hnext, hnextEvents⟩ := htarget.insert new ev hnew trivial hfresh
      have hshort := hrestEvents.length_eq.trans (length_erase_of_mem hleast.1)
      have hpos := length_pos_of_mem hleast.1
      have hmiddle : (source.events rest ++ target.events next).Perm
          (source.events old ++ target.events new) := by
        refine ((hnextEvents.append_left _).trans ?_).trans hsplit.symm
        exact perm_middle
      obtain ⟨final, hfinal, hvalid, hevs⟩ := ih hrest hnext (by omega)
        (hdist.perm hmiddle.symm)
      refine ⟨final, ?_, hvalid, hevs.trans hmiddle⟩
      rw [hremove]
      change (target.insert ev new >>= _) = _
      rw [hinsert]
      exact hfinal

theorem InOrder.setScheduler
    (hcorrect : ∀ kind, Correct (scheduler kind) (valid kind) fun _ _ => True)
    (horder : InOrder scheduler valid run limit) (kind : Kind) :
    ∃ sim, run.simulator.setScheduler scheduler kind = some sim ∧
      sim.now = run.simulator.now ∧
      InOrder scheduler valid { run with simulator := sim } limit := by
  obtain ⟨hvalid, hnum, hplaced, hcnt, hlen⟩ := horder
  have hdist := (hcorrect run.simulator.events.1).distinct _ hvalid
  have hempty := (hcorrect kind).events_empty
  obtain ⟨queue, hmove, hq, hperm⟩ := @moveEvents_spec _ _ _ _ _ _
    (hcorrect run.simulator.events.1) (hcorrect kind)
    ((run.simulator.queued scheduler).length + 1) run.simulator.events.2 (scheduler kind).empty
    hvalid (hcorrect kind).empty (Nat.lt_succ_self _)
    (by rw [hempty, append_nil]; exact hdist)
  rw [hempty, append_nil] at hperm
  refine ⟨_, congrArg (· >>= _) hmove, ?_, hq, ?_, ?_, ?_, ?_⟩
  · rfl
  · exact ⟨hnum.four_le, hnum.limit_le, hnum.uid, hnum.currentUid,
      hnum.currentTs, hnum.sorted, hnum.event, hnum.destroyed⟩
  · exact ⟨fun ev hev => hplaced.queued ev (hperm.mem_iff.mp hev),
      fun event hevent hturn hgone => hperm.mem_iff.mpr (hplaced.waiting event hevent hturn hgone),
      hplaced.reached, hplaced.turn, hplaced.order, hplaced.last, hplaced.cancelled, hplaced.known,
      hplaced.invoked⟩
  · exact hcnt.trans (congrArg Nat.cast hperm.length_eq.symm)
  · exact hperm.length_eq ▸ hlen

/-! ## The turn of an event -/

theorem before_event {first second : EventId} :
    first.event.key.before second.event.key = true ↔
      first.ts < second.ts ∨ first.ts = second.ts ∧ first.uid < second.uid :=
  EventKey.before_iff

theorem Placed.turnOf (hplaced : Placed scheduler run) (hnum : Numbered run limit)
    {event : Scheduled} (hevent : event ∈ run.scheduled)
    (hleast : Least event.id.event (run.simulator.queued scheduler))
    (hnodup : (run.simulator.queued scheduler).Nodup)
    (hnow : sim.now = event.id.ts)
    (hts : sim.currentTs = event.id.ts) (huid : sim.currentUid = event.id.uid)
    (hcanc : sim.cancelled = run.simulator.cancelled)
    (hnext : sim.nextImpl = run.simulator.nextImpl)
    (hq : ∀ ev, ev ∈ sim.queued scheduler ↔
      ev ∈ (run.simulator.queued scheduler).erase event.id.event)
    (hnot : ¬ Reached run.simulator event.id) :
    Placed scheduler { run with
      simulator := sim
      turns := run.turns ++ [(event.id.event.impl, sim.now)]
      invoked := if sim.notifies event.id.event then
        run.invoked ++ [(event.id.event.impl, sim.now)] else run.invoked } := by
  rw [hnow, show event.id.event.impl = event.id.impl from rfl]
  have htime := (hnum.event event hevent).2.2.2.1
  have hbehind : run.simulator.currentTs < event.id.ts ∨
      run.simulator.currentTs = event.id.ts ∧ run.simulator.currentUid < event.id.uid := by
    rw [Reached] at hnot
    omega
  have hreach : ∀ id, Reached sim id ↔
      id.ts < event.id.ts ∨ id.ts = event.id.ts ∧ id.uid ≤ event.id.uid := fun id => by
    rw [Reached, hts, huid]
  -- the reached part of the order only grows, by the turn of this event
  have hmono : ∀ id, Reached run.simulator id → Reached sim id := by
    intro id hid
    rw [hreach]
    rw [Reached] at hid
    omega
  have hself : Reached sim event.id := (hreach _).mpr (.inr ⟨rfl, Nat.le_refl _⟩)
  have hturns : ∀ impl, impl ∈ (run.turns ++ [(event.id.impl, (event.id.ts : Int))]).map Prod.fst ↔
      impl ∈ run.turns.map Prod.fst ∨ impl = event.id.impl := by simp
  have hother : ∀ {ev : Event}, ev ∈ run.simulator.queued scheduler → ev ≠ event.id.event →
      event.id.event.key.before ev.key = true := fun hev hne => hleast.2 _ hev hne
  refine ⟨?_, ?_, ?_, ?_, ?_, ?_, ?_, ?_, ?_⟩
  · intro ev hev
    obtain ⟨hne, hold⟩ := hnodup.mem_erase_iff.mp ((hq ev).mp hev)
    obtain ⟨later, hlater, rfl, -⟩ := hplaced.queued ev hold
    refine ⟨later, hlater, rfl, fun h => ?_⟩
    have hpre := before_event.mp (hother hold hne)
    have hplace := (hreach _).mp h
    omega
  · intro later hlater hturn hgone
    change later.id.impl ∉ (run.turns ++ [(event.id.impl, (event.id.ts : Int))]).map Prod.fst
      at hturn
    rw [hturns, not_or] at hturn
    refine (hq _).mpr (hnodup.mem_erase_iff.mpr ⟨fun heq => hturn.2 ?_,
      hplaced.waiting later hlater hturn.1 hgone⟩)
    exact congrArg Event.impl heq
  · intro later hlater h
    change later.id.impl ∈ (run.turns ++ [(event.id.impl, (event.id.ts : Int))]).map Prod.fst ∨ _
    rw [hturns]
    by_contra hnone
    rw [not_or, not_or] at hnone
    have hwait := hplaced.waiting later hlater hnone.1.1 hnone.2
    have hpre := before_event.mp (hother hwait fun heq =>
      hnone.1.2 (congrArg Event.impl heq))
    have hplace := (hreach _).mp h
    omega
  · intro entry hent
    rcases mem_append.mp hent with hold | hnew
    · obtain ⟨other, hmem, himpl, htimes, h⟩ := hplaced.turn entry hold
      exact ⟨other, hmem, himpl, htimes, hmono _ h⟩
    · rw [mem_singleton.mp hnew]
      exact ⟨event, hevent, rfl, htime, hself⟩
  -- an earlier turn at the same time has the smaller uid, hence the smaller implementation
  · refine pairwise_append.mpr ⟨hplaced.order, pairwise_singleton _ _, ?_⟩
    intro entry hent last hlast
    rw [mem_singleton.mp hlast]
    obtain ⟨other, hmem, himpl, htimes, h⟩ := hplaced.turn entry hent
    have hotherTime := (hnum.event other hmem).2.2.2.1
    rw [Reached] at h
    rcases Nat.lt_or_ge other.id.ts event.id.ts with hless | hge
    · exact .inl (by change entry.2 < (event.id.ts : Int); omega)
    · have huidLess : other.id.uid < event.id.uid := by omega
      have himplLess := hnum.impl_lt_of_uid_lt hmem hevent huidLess
      refine .inr ⟨?_, himpl ▸ himplLess⟩
      change entry.2 = (event.id.ts : Int)
      omega
  · change (sim.currentTs : Int) = _
    rw [hts]
    simp
  · intro later hlater
    change later.id.impl ∈ sim.cancelled ↔ _
    rw [hcanc]
    exact hplaced.cancelled later hlater
  · intro impl himpl
    change impl < sim.nextImpl
    rw [hnext]
    change impl ∈ sim.cancelled ∨ _ at himpl
    rw [hcanc] at himpl
    exact hplaced.known impl himpl
  · have hnotifies : sim.notifies event.id.event = decide (event.id.impl ∉ run.gone) := by
      rw [notifies, hcanc, Bool.eq_iff_iff]
      simpa [EventId.event] using not_congr (hplaced.cancelled event hevent)
    change (if sim.notifies event.id.event then _ else _) = _
    rw [hnotifies, filter_append, ← hplaced.invoked]
    by_cases hgone : event.id.impl ∈ run.gone <;> simp [hgone]

theorem InOrder.processOneEvent
    (hcorrect : ∀ kind, Correct (scheduler kind) (valid kind) fun _ _ => True)
    (horder : InOrder scheduler valid run limit) (hsome : run.simulator.queued scheduler ≠ []) :
    ∃ ev sim, run.simulator.processOneEvent scheduler = some (ev, sim) ∧
      run.simulator.now ≤ sim.now ∧
      InOrder scheduler valid { run with
        simulator := sim
        turns := run.turns ++ [(ev.impl, sim.now)]
        invoked := if sim.notifies ev then run.invoked ++ [(ev.impl, sim.now)]
          else run.invoked } limit := by
  have hnum := horder.numbered
  have hplaced := horder.placed
  obtain ⟨ev, queue, -, hremove, hleast, hleft⟩ :=
    (hcorrect run.simulator.events.1).removeNext run.simulator.events.2 horder.valid hsome
  obtain ⟨hvalid, hperm⟩ := hleft trivial
  change Least ev (run.simulator.queued scheduler) at hleast
  change ((scheduler run.simulator.events.1).events queue).Perm
    ((run.simulator.queued scheduler).erase ev) at hperm
  obtain ⟨event, hevent, rfl, hnot⟩ := hplaced.queued ev hleast.1
  obtain ⟨-, hfour, hbd, htime, hts⟩ := hnum.event event hevent
  -- an event in the queue has not been reached, so time does not go back
  have hbehind : run.simulator.currentTs < event.id.ts ∨
      run.simulator.currentTs = event.id.ts ∧ run.simulator.currentUid < event.id.uid := by
    rw [Reached] at hnot
    omega
  have hnodup : (run.simulator.queued scheduler).Nodup :=
    ((hcorrect run.simulator.events.1).distinct _ horder.valid).of_map _
  have hnow : int64 event.id.ts = event.id.ts := int64_of_lt hts
  have hcnt := horder.unscheduledEvents
  have hshort := horder.short
  have hlen := length_erase_of_mem hleast.1
  have hpos := length_pos_of_mem hleast.1
  refine ⟨event.id.event, { run.simulator with
      events := ⟨run.simulator.events.1, queue⟩
      unscheduledEvents := int32 (run.simulator.unscheduledEvents - 1)
      eventCount := uint64 (run.simulator.eventCount + 1)
      currentTs := event.id.ts
      currentContext := event.id.context
      currentUid := event.id.uid }, ?_, ?_, hvalid, ?_, ?_, ?_, ?_⟩
  · rw [DefaultSimulatorImpl.processOneEvent, hremove]
    change (if run.simulator.currentTs ≤ event.id.ts then _ else _) = _
    rw [if_pos (by omega)]
    rfl
  · rw [hnum.now]
    change _ ≤ int64 event.id.ts
    rw [hnow]
    omega
  · exact ⟨hnum.four_le, hnum.limit_le, hnum.uid, hbd, hts, hnum.sorted,
      hnum.event, hnum.destroyed⟩
  · exact hplaced.turnOf hnum hevent hleast hnodup hnow rfl rfl rfl rfl
      (fun _ => hperm.mem_iff) hnot
  · change int32 _ = (((scheduler run.simulator.events.1).events queue).length : Int)
    rw [hperm.length_eq, hlen, hcnt, int32_of_range (by omega) (by omega)]
    omega
  · change ((scheduler run.simulator.events.1).events queue).length < _
    rw [hperm.length_eq, hlen]
    omega

/-! ## Steps and runs -/

theorem InOrder.scheduleWithContext
    (hcorrect : ∀ kind, Correct (scheduler kind) (valid kind) fun _ _ => True)
    (horder : InOrder scheduler valid run limit) (context : Nat) {delay : Int}
    (hdelay : 0 ≤ delay) :
    ∃ next,
      run.scheduleStep delay (run.simulator.scheduleWithContext scheduler context delay) =
        .ok next ∧
        next.simulator.now = run.simulator.now ∧
        (4 ≤ run.simulator.uid → run.simulator.unscheduledEvents < 2 ^ 31 - 1 →
          run.simulator.currentTs + delay < 2 ^ 63 → InOrder scheduler valid next (limit + 1)) := by
  obtain ⟨queue, hinsert, -⟩ := horder.insertEvent hcorrect
    (uint64OfInt (int64 (delay + run.simulator.now))) context
  refine ⟨_, congrArg (run.scheduleStep delay) hinsert, rfl, fun hfour hshort hrng => ?_⟩
  have hts : ((uint64OfInt (int64 (delay + run.simulator.now)) : Nat) : Int) =
      run.simulator.currentTs + delay := by
    rw [horder.numbered.now, int64, Int.bmod_def, uint64OfInt]
    omega
  obtain ⟨next, hnext, hkept⟩ := @InOrder.scheduleStep _ _ _ _ _ _ hcorrect horder _ context _
    hts hdelay (by omega) hfour hshort
  rw [hinsert] at hnext
  cases hnext
  exact hkept

theorem known_of_offered {id : EventId}
    (hid : ((run.scheduled.map Scheduled.id).contains id || run.destroyed.contains id) = true) :
    run.Known id := by
  rw [Bool.or_eq_true, contains_iff_mem, contains_iff_mem] at hid
  exact hid.imp_left mem_map.mp

section

variable (hcorrect : ∀ kind, Correct (scheduler kind) (valid kind) fun _ _ => True)
include hcorrect

theorem InOrder.step (horder : InOrder scheduler valid run limit) {call : SimulatorCall Kind}
    (hoffer : run.offered scheduler call = true) :
    ∃ next,
      SimulatorRun.step scheduler run call = .ok next ∧ run.simulator.now ≤ next.simulator.now ∧
        (run.inRange call = true → ∃ limit, InOrder scheduler valid next limit) := by
  cases call with
  | schedule delay =>
    have hdelay : 0 ≤ delay ∧ delay < 2 ^ 63 := by simpa [offered] using hoffer
    obtain ⟨next, hnext, hnow, hkept⟩ :=
      horder.scheduleWithContext hcorrect run.simulator.currentContext hdelay.1
    refine ⟨next, ?_, Int.le_of_eq hnow.symm, fun hrng => ?_⟩
    · rw [SimulatorRun.step, DefaultSimulatorImpl.schedule, if_pos hdelay.1]
      exact hnext
    · simp only [inRange, Bool.and_eq_true, decide_eq_true_eq] at hrng
      exact ⟨_, hkept hrng.1.1 hrng.1.2 hrng.2⟩
  | scheduleWithContext context delay =>
    have hdelay : 0 ≤ delay ∧ delay < 2 ^ 63 := by simpa [offered] using hoffer
    obtain ⟨next, hnext, hnow, hkept⟩ := horder.scheduleWithContext hcorrect context hdelay.1
    refine ⟨next, hnext, Int.le_of_eq hnow.symm, fun hrng => ?_⟩
    simp only [inRange, Bool.and_eq_true, decide_eq_true_eq] at hrng
    exact ⟨_, hkept hrng.1.1 hrng.1.2 hrng.2⟩
  | scheduleNow =>
    obtain ⟨queue, hinsert, -⟩ := horder.insertEvent hcorrect run.simulator.currentTs
      run.simulator.currentContext
    refine ⟨_, congrArg (run.scheduleStep 0) hinsert, Int.le_refl _, fun hrng => ?_⟩
    simp only [inRange, Bool.and_eq_true, decide_eq_true_eq] at hrng
    obtain ⟨next, hnext, hkept⟩ := @InOrder.scheduleStep _ _ _ _ _ _ hcorrect horder _
      run.simulator.currentContext 0 (Int.add_zero _).symm (Int.le_refl 0)
      horder.numbered.currentTs hrng.1 hrng.2
    rw [hinsert] at hnext
    cases hnext
    exact ⟨_, hkept⟩
  | scheduleDestroy =>
    refine ⟨_, rfl, Int.le_refl _, fun hrng => ⟨_, horder.scheduleDestroy ?_⟩⟩
    exact of_decide_eq_true hrng
  | cancel id =>
    refine ⟨_, rfl, ?_, fun _ => ⟨_, horder.cancel (known_of_offered hoffer)⟩⟩
    change _ ≤ (run.simulator.cancel id).now
    rw [DefaultSimulatorImpl.cancel]
    split <;> exact Int.le_refl _
  | remove id =>
    obtain ⟨sim, hremove, hnow, hkept⟩ := horder.remove hcorrect (known_of_offered hoffer)
    refine ⟨{ run with simulator := sim, gone := run.withdraw id }, ?_,
      Int.le_of_eq hnow.symm, fun _ => ⟨_, hkept⟩⟩
    rw [SimulatorRun.step, hremove]
  | setScheduler kind =>
    obtain ⟨sim, hset, hnow, hkept⟩ := horder.setScheduler hcorrect kind
    refine ⟨{ run with simulator := sim }, ?_, Int.le_of_eq hnow.symm,
      fun _ => ⟨_, hkept⟩⟩
    rw [SimulatorRun.step, hset]
  | processOneEvent =>
    -- the offer says that an event is queued
    have hsome : run.simulator.queued scheduler ≠ [] := by
      rw [offered, (hcorrect run.simulator.events.1).isEmpty _ horder.valid] at hoffer
      intro hnil
      rw [show (scheduler run.simulator.events.1).events run.simulator.events.2 = [] from hnil]
        at hoffer
      cases hoffer
    obtain ⟨ev, sim, hproc, hnow, hkept⟩ := horder.processOneEvent hcorrect hsome
    refine ⟨{ run with
      simulator := sim
      turns := run.turns ++ [(ev.impl, sim.now)]
      invoked := if sim.notifies ev then run.invoked ++ [(ev.impl, sim.now)]
        else run.invoked }, ?_, hnow, fun _ => ⟨_, hkept⟩⟩
    rw [SimulatorRun.step, hproc]

theorem InOrder.init (kind : Kind) : InOrder scheduler valid (machine scheduler kind).init 4 := by
  have hempty : (machine scheduler kind).init.simulator.queued scheduler = [] :=
    (hcorrect kind).events_empty
  have hnone : ∀ {α : Type} {holds : α → Prop}, ∀ item ∈ ([] : List α), holds item :=
    fun _ hitem => absurd hitem not_mem_nil
  refine ⟨(hcorrect kind).empty, ?_, ?_, ?_, ?_⟩
  · exact ⟨Nat.le_refl 4, by decide, rfl, Nat.succ_pos 3, Nat.two_pow_pos 63, .nil, hnone, hnone⟩
  · refine ⟨?_, hnone, hnone, hnone, .nil, rfl, hnone, ?_, rfl⟩
    · rw [hempty]
      exact hnone
    · rintro impl (hmem | hmem)
      · exact absurd hmem not_mem_nil
      · exact absurd hmem not_mem_nil
  · rw [hempty]
    rfl
  · rw [hempty]
    decide

theorem InOrder.orderly (horder : InOrder scheduler valid run limit) : Orderly scheduler run := by
  have hnum := horder.numbered
  have hplaced := horder.placed
  refine ⟨hnum.sorted.imp And.left, ?_, ?_, hplaced.order, hplaced.invoked, ?_,
    hplaced.waiting, ?_, fun event hevent => hplaced.expired_iff hnum hevent,
    horder.unscheduledEvents, ?_, ?_⟩
  · intro entry hent
    obtain ⟨event, hevent, himpl, htime, -⟩ := hplaced.turn entry hent
    exact ⟨event, hevent, himpl, htime⟩
  · -- turns of one event would be at the same time
    refine pairwise_map.mpr (hplaced.order.imp_of_mem fun hfst hsnd hless heq => ?_)
    obtain ⟨event, hevent, himpl, htime, -⟩ := hplaced.turn _ hfst
    obtain ⟨other, hother, hotherImpl, hotherTime, -⟩ := hplaced.turn _ hsnd
    rw [hnum.eq_of_impl hevent hother (himpl.trans (heq.trans hotherImpl.symm))] at htime
    omega
  · rw [hnum.now]
    exact hplaced.last
  · intro ev hev
    obtain ⟨event, hevent, hsame, hnot⟩ := hplaced.queued ev hev
    exact ⟨event, hevent, hsame, hplaced.no_turn hnum hevent hnot⟩
  · intro call hoffer
    obtain ⟨next, hnext, -⟩ := horder.step hcorrect hoffer
    exact ⟨next, hnext⟩
  · intro call next hoffer hstep
    obtain ⟨other, hother, hnow, -⟩ := horder.step hcorrect hoffer
    obtain rfl := Except.ok.inj (hother.symm.trans hstep)
    exact hnow

end

/-- Over correct schedulers, every run whose calls are all in range is orderly. -/
theorem orderly_of_reachable
    (hcorrect : ∀ kind, Correct (scheduler kind) (valid kind) fun _ _ => True) (kind : Kind)
    (hrun : (machine scheduler kind).ReachableUnder
      (fun run call => run.offered scheduler call = true ∧ run.inRange call = true) run) :
    Orderly scheduler run := by
  have hinOrder : ∃ limit, InOrder scheduler valid run limit := by
    induction hrun with
    | init => exact ⟨4, .init hcorrect kind⟩
    | step _ hcall hstep ih =>
      obtain ⟨limit, horder⟩ := ih
      obtain ⟨next, hnext, -, hkept⟩ := horder.step hcorrect hcall.1
      obtain rfl := Except.ok.inj (hnext.symm.trans hstep)
      exact hkept hcall.2
  obtain ⟨limit, horder⟩ := hinOrder
  exact horder.orderly hcorrect

abbrev lists : (kind : Unit) → Scheduler ((fun _ => List Event) kind) := fun _ => listScheduler

theorem orderly_two_events :
    Orderly lists ((machine lists ()).after
      (fun run call => run.offered lists call && run.inRange call)
      [.schedule 5, .scheduleNow, .processOneEvent, .setScheduler (),
        .cancel ⟨0, 5, 0xffffffff, 4⟩, .processOneEvent] (machine lists ()).init) :=
  orderly_of_reachable (fun _ => ListScheduler.correct) ()
    (.after (fun _ _ hboth => by simpa using hboth) _ .init)

/-! ## The counter comes round -/

/-- Before the first turn, with an empty queue, after some events that were removed again. -/
structure Idle (run : SimulatorRun fun _ : Unit => List Event) (count : Nat) : Prop where
  reachable : (machine lists ()).ReachableUnder
    (fun run call => run.offered lists call = true) run
  events : run.simulator.events = ⟨(), []⟩
  uid : run.simulator.uid = uint32 (4 + count)
  currentTs : run.simulator.currentTs = 0
  currentUid : run.simulator.currentUid = 0
  cancelled : ∀ impl ∈ run.simulator.cancelled, impl < run.simulator.nextImpl
  gone : ∀ impl ∈ run.gone, impl < run.simulator.nextImpl
  turns : run.turns = []

theorem Idle.init : Idle (machine lists ()).init 0 :=
  ⟨.init, rfl, rfl, rfl, rfl, fun _ h => absurd h not_mem_nil,
    fun _ h => absurd h not_mem_nil, rfl⟩

variable {idle : SimulatorRun fun _ : Unit => List Event} {count : Nat}

def nowId (run : SimulatorRun fun _ : Unit => List Event) : EventId :=
  ⟨run.simulator.nextImpl, 0, run.simulator.currentContext, run.simulator.uid⟩

def oneEvent (run : SimulatorRun fun _ : Unit => List Event) :
    SimulatorRun fun _ : Unit => List Event :=
  { run with
    simulator := { run.simulator with
      events := ⟨(), [(nowId run).event]⟩
      uid := uint32 (run.simulator.uid + 1)
      unscheduledEvents := int32 (run.simulator.unscheduledEvents + 1)
      nextImpl := run.simulator.nextImpl + 1 }
    scheduled := run.scheduled ++ [⟨nowId run, run.simulator.now + 0⟩] }

theorem Idle.scheduleNow (hidle : Idle idle count) :
    (machine lists ()).ReachableUnder (fun run call => run.offered lists call = true)
      (oneEvent idle) := by
  have hoffer : idle.offered lists .scheduleNow = true := rfl
  refine hidle.reachable.step hoffer ?_
  obtain ⟨⟨events, uid, currentUid, currentTs⟩⟩ := idle
  obtain rfl : events = ⟨(), []⟩ := hidle.events
  obtain rfl : currentTs = 0 := hidle.currentTs
  rfl

theorem Idle.next (hidle : Idle idle count)
    (hcnt : 4 + count < 2 ^ 32) : ∃ run, Idle run (count + 1) := by
  have hfresh : idle.simulator.nextImpl ∉ idle.simulator.cancelled := fun hmem =>
    Nat.lt_irrefl _ (hidle.cancelled _ hmem)
  have huid : idle.simulator.uid = 4 + count := by rw [hidle.uid, uint32_of_lt hcnt]
  have htwo : ¬ (nowId idle).uid = 2 := by
    change ¬ idle.simulator.uid = 2
    omega
  have hlive : (oneEvent idle).simulator.isExpired (nowId idle) = false := by
    rw [isExpired, if_neg htwo]
    simp [oneEvent, nowId, hidle.currentTs, hidle.currentUid, huid, hfresh]
  have hremove : (oneEvent idle).simulator.remove lists (nowId idle) = some
      { (oneEvent idle).simulator with
        events := ⟨(), []⟩
        cancelled := idle.simulator.nextImpl :: idle.simulator.cancelled
        unscheduledEvents := int32 ((oneEvent idle).simulator.unscheduledEvents - 1) } := by
    have hlist : ListScheduler.remove (nowId idle).event [(nowId idle).event] = some [] := by
      rw [ListScheduler.remove, if_pos rfl, if_pos rfl]
    rw [remove, if_neg htwo, hlive]
    exact congrArg (· >>= _) hlist
  have hstep : SimulatorRun.step lists (oneEvent idle) (.remove (nowId idle)) = .ok
      { oneEvent idle with
        simulator := { (oneEvent idle).simulator with
          events := ⟨(), []⟩
          cancelled := idle.simulator.nextImpl :: idle.simulator.cancelled
          unscheduledEvents := int32 ((oneEvent idle).simulator.unscheduledEvents - 1) }
        gone := (oneEvent idle).withdraw (nowId idle) } := by
    rw [SimulatorRun.step, hremove]
  have hknown : (oneEvent idle).offered lists (.remove (nowId idle)) = true := by
    simp [offered, oneEvent]
  refine ⟨_, hidle.scheduleNow.step hknown hstep, rfl, ?_, hidle.currentTs, hidle.currentUid,
    ?_, ?_, hidle.turns⟩
  · change uint32 (idle.simulator.uid + 1) = _
    rw [hidle.uid, uint32_add, Nat.add_assoc]
  · intro impl himpl
    rcases mem_cons.mp himpl with rfl | hold
    · exact Nat.lt_succ_self _
    · exact Nat.lt_succ_of_lt (hidle.cancelled impl hold)
  · intro impl himpl
    rcases mem_withdraw.mp himpl with hold | ⟨rfl, -⟩
    · exact Nat.lt_succ_of_lt (hidle.gone impl hold)
    · exact Nat.lt_succ_self _

/-- When the counter has come round, an event for now is expired before its turn. -/
theorem uid_wraps :
    ¬ ∀ run,
      (machine lists ()).ReachableUnder (fun run call => run.offered lists call = true) run →
        Orderly lists run := by
  intro hall
  have hidle : ∀ count ≤ 2 ^ 32 - 4, ∃ run, Idle run count := by
    intro count hcnt
    induction count with
    | zero => exact ⟨_, .init⟩
    | succ count ih =>
      obtain ⟨run, hrun⟩ := ih (by omega)
      exact hrun.next (by omega)
  obtain ⟨run, hrun⟩ := hidle (2 ^ 32 - 4) (Nat.le_refl _)
  have hzero : run.simulator.uid = 0 := hrun.uid
  have horderly := hall _ hrun.scheduleNow
  have hexpired : (oneEvent run).simulator.isExpired (nowId run) = true := by
    simp [DefaultSimulatorImpl.isExpired, oneEvent, nowId, hrun.currentTs, hrun.currentUid, hzero]
  have hscheduled : (⟨nowId run, run.simulator.now + 0⟩ : Scheduled) ∈ (oneEvent run).scheduled :=
    List.mem_append_right _ (List.mem_singleton_self _)
  rcases (horderly.expired _ hscheduled).mp hexpired with hturn | hgone
  · have hnone : (oneEvent run).turns = [] := hrun.turns
    rw [hnone] at hturn
    exact absurd hturn List.not_mem_nil
  · exact Nat.lt_irrefl _ (hrun.gone _ hgone)

end SimulatorRun

end HomaSird.Core
