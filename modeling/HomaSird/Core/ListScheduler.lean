import Mathlib.Data.List.Nodup
import Mathlib.Data.List.Perm.Basic
import HomaSird.Transition.Machine

/-! # The sorted event list

`ListScheduler` keeps its events sorted, so the first one is the next. It is the
reference that the other schedulers are driven next to.
-/

/-! ## Event schedulers -/

namespace HomaSird.Core

/-- `Scheduler::EventKey` -/
structure EventKey where
  ts : Nat
  uid : Nat
  context : Nat
deriving DecidableEq, Inhabited

/-- `Scheduler::Event`; `impl` is the pointer to the event implementation. -/
structure Event where
  impl : Nat
  key : EventKey
deriving DecidableEq, Inhabited

/-- `operator <` on keys -/
def EventKey.before (a b : EventKey) : Bool :=
  if a.ts < b.ts then true else if a.ts = b.ts ∧ a.uid < b.uid then true else false

namespace EventKey

variable {a b c : EventKey}

theorem before_iff : a.before b = true ↔ a.ts < b.ts ∨ a.ts = b.ts ∧ a.uid < b.uid := by
  rw [before]
  split_ifs <;> simp_all

theorem before_irrefl (a : EventKey) : a.before a = false := by
  rw [← Bool.not_eq_true, before_iff]
  omega

theorem before_trans (hab : a.before b = true) (hbc : b.before c = true) : a.before c = true := by
  rw [before_iff] at hab hbc ⊢
  omega

theorem before_or_before (hne : a.uid ≠ b.uid) : a.before b = true ∨ b.before a = true := by
  rw [before_iff, before_iff]
  omega

theorem before_asymm (hab : a.before b = true) : b.before a = false := by
  rw [← Bool.not_eq_true, before_iff]
  rw [before_iff] at hab
  omega

end EventKey

def Distinct (events : List Event) : Prop := (events.map fun ev => ev.key.uid).Nodup

def Least (ev : Event) (events : List Event) : Prop :=
  ev ∈ events ∧ ∀ other ∈ events, other ≠ ev → ev.key.before other.key = true

theorem Distinct.perm {events others : List Event}
    (hdist : Distinct events) (hperm : events.Perm others) : Distinct others :=
  (hperm.map _).nodup_iff.mp hdist

theorem Distinct.eq_of_uid {events : List Event} (hdist : Distinct events) {ev other : Event} (hev :
    ev ∈ events) (hother : other ∈ events) (huid : ev.key.uid = other.key.uid) : ev = other :=
  List.inj_on_of_nodup_map hdist hev hother huid

theorem Least.unique {events : List Event}
    {ev other : Event} (hev : Least ev events) (hother : Least other events) : ev = other := by
  by_contra hne
  have hfst := hev.2 other hother.1 (Ne.symm hne)
  have hsnd := hother.2 ev hev.1 hne
  rw [EventKey.before_asymm hfst] at hsnd
  cases hsnd

theorem Least.perm {events others : List Event}
    {ev : Event} (hleast : Least ev events) (hperm : events.Perm others) : Least ev others :=
  ⟨hperm.mem_iff.mp hleast.1, fun other hother => hleast.2 other (hperm.mem_iff.mpr hother)⟩

/-! ## The interface -/

/-- What the simulator uses of a scheduler. No result where an assertion fails or an element that
does not exist is read. -/
structure Scheduler (Queue : Type) where
  empty : Queue
  /-- the events that are held, in any order -/
  events : Queue → List Event
  insert : Event → Queue → Option Queue
  isEmpty : Queue → Bool
  peekNext : Queue → Option Event
  removeNext : Queue → Option (Event × Queue)
  remove : Event → Queue → Option Queue

inductive SchedulerCall where
  | insert (ev : Event)
  | removeNext
  | remove (ev : Event)
deriving DecidableEq

namespace Scheduler

def call {Queue : Type} (scheduler : Scheduler Queue) (queue : Queue) :
    SchedulerCall → Option (Option Event × Queue)
  | .insert ev => (scheduler.insert ev queue).map fun next => (none, next)
  | .removeNext => (scheduler.removeNext queue).map fun result => (some result.1, result.2)
  | .remove ev => (scheduler.remove ev queue).map fun next => (none, next)

end Scheduler

structure Correct {Queue : Type} (scheduler : Scheduler Queue) (valid : Queue → Prop)
    (allowed : Queue → SchedulerCall → Prop) : Prop where
  empty : valid scheduler.empty
  events_empty : scheduler.events scheduler.empty = []
  distinct : ∀ queue, valid queue → Distinct (scheduler.events queue)
  isEmpty : ∀ queue, valid queue →
    scheduler.isEmpty queue = (scheduler.events queue).isEmpty
  insert : ∀ queue ev, valid queue → allowed queue (.insert ev) →
    (∀ other ∈ scheduler.events queue, other.key.uid ≠ ev.key.uid) →
    ∃ next, scheduler.insert ev queue = some next ∧ valid next ∧
      (scheduler.events next).Perm (ev :: scheduler.events queue)
  removeNext : ∀ queue, valid queue → scheduler.events queue ≠ [] →
    ∃ ev next, scheduler.peekNext queue = some ev ∧ scheduler.removeNext queue = some (ev, next) ∧
      Least ev (scheduler.events queue) ∧
      (allowed queue .removeNext →
        valid next ∧ (scheduler.events next).Perm ((scheduler.events queue).erase ev))
  removeNext_empty : ∀ queue, valid queue → scheduler.events queue = [] →
    scheduler.removeNext queue = none
  remove : ∀ queue ev, valid queue → ev ∈ scheduler.events queue →
    ∃ next, scheduler.remove ev queue = some next ∧
      (allowed queue (.remove ev) →
        valid next ∧ (scheduler.events next).Perm ((scheduler.events queue).erase ev))

open Transition List Scheduler

namespace ListScheduler

def insert (ev : Event) : List Event → List Event
  | [] => [ev]
  | first :: rest =>
    if ev.key.before first.key then ev :: first :: rest else first :: insert ev rest

def removeNext : List Event → Option (Event × List Event)
  | [] => none
  | next :: rest => some (next, rest)

def remove (ev : Event) : List Event → Option (List Event)
  | [] => none
  | first :: rest =>
    if first.key.uid = ev.key.uid then
      if ev.impl = first.impl then some rest else none
    else (remove ev rest).map (first :: ·)

end ListScheduler

def listScheduler : Scheduler (List Event) where
  empty := []
  events := id
  insert := fun ev events => some (ListScheduler.insert ev events)
  isEmpty := List.isEmpty
  peekNext := List.head?
  removeNext := ListScheduler.removeNext
  remove := ListScheduler.remove

namespace ListScheduler

def Sorted (events : List Event) : Prop :=
  events.Pairwise fun ev other => ev.key.before other.key = true

theorem insert_perm (ev : Event) (events : List Event) :
    (insert ev events).Perm (ev :: events) := by
  induction events with
  | nil => exact .refl _
  | cons first rest ih =>
    rw [insert]
    split
    · exact .refl _
    · exact (ih.cons first).trans (.swap ev first rest)

theorem insert_sorted {ev : Event} {events : List Event} (hsort : Sorted events)
    (hnew : ∀ other ∈ events, other.key.uid ≠ ev.key.uid) : Sorted (insert ev events) := by
  induction events with
  | nil => exact pairwise_singleton _ _
  | cons first rest ih =>
    obtain ⟨hfst, hrest⟩ := pairwise_cons.mp hsort
    obtain ⟨hne, hnewRest⟩ := forall_mem_cons.mp hnew
    rw [insert]
    split
    next hpre =>
      refine pairwise_cons.mpr ⟨forall_mem_cons.mpr ⟨hpre, ?_⟩, hsort⟩
      exact fun other hother => EventKey.before_trans hpre (hfst other hother)
    next hpre =>
      refine pairwise_cons.mpr ⟨fun other hother => ?_, ih hrest hnewRest⟩
      rcases mem_cons.mp ((insert_perm ev rest).mem_iff.mp hother) with rfl | hmem
      · exact (EventKey.before_or_before hne).resolve_right hpre
      · exact hfst other hmem

theorem remove_eq {ev : Event} {events : List Event} (hdist : Distinct events)
    (hev : ev ∈ events) : remove ev events = some (events.erase ev) := by
  induction events with
  | nil => cases hev
  | cons first rest ih =>
    rw [remove, erase_cons]
    by_cases heq : first = ev
    · simp [heq]
    · have hrest : ev ∈ rest := (mem_cons.mp hev).resolve_left (Ne.symm heq)
      have huid : first.key.uid ≠ ev.key.uid := fun huid =>
        heq (hdist.eq_of_uid mem_cons_self (.tail _ hrest) huid)
      have hrestDistinct : Distinct rest := (nodup_cons.mp hdist).2
      rw [if_neg huid, ih hrestDistinct hrest, if_neg (by simpa using heq)]
      rfl

theorem least_of_sorted {first : Event} {rest : List Event} (hsort : Sorted (first :: rest)) :
    Least first (first :: rest) := by
  refine ⟨mem_cons_self, fun other hother hne => ?_⟩
  exact (pairwise_cons.mp hsort).1 other ((mem_cons.mp hother).resolve_left hne)

theorem correct :
    Correct listScheduler (fun events => Sorted events ∧ Distinct events) (fun _ _ => True) where
  empty := ⟨List.Pairwise.nil, nodup_nil⟩
  events_empty := rfl
  distinct _ hvalid := hvalid.2
  isEmpty _ _ := rfl
  insert events ev hvalid _ hnew := by
    have hperm := insert_perm ev events
    have hdist : Distinct (ev :: events) := by
      refine nodup_cons.mpr ⟨fun hmem => ?_, hvalid.2⟩
      obtain ⟨other, hother, huid⟩ := mem_map.mp hmem
      exact hnew other hother huid
    exact ⟨_, rfl, ⟨insert_sorted hvalid.1 hnew, hdist.perm hperm.symm⟩, hperm⟩
  removeNext events hvalid hsome := by
    cases events with
    | nil => exact absurd rfl hsome
    | cons first rest =>
      refine ⟨first, rest, rfl, rfl, least_of_sorted hvalid.1, fun _ => ⟨⟨?_, ?_⟩, ?_⟩⟩
      · exact (pairwise_cons.mp hvalid.1).2
      · exact (nodup_cons.mp hvalid.2).2
      · rw [show listScheduler.events (first :: rest) = first :: rest from rfl,
          erase_cons_head]
        exact .refl _
  removeNext_empty events _ hnil := by
    obtain rfl : events = [] := hnil
    rfl
  remove events ev hvalid hev :=
    ⟨events.erase ev, remove_eq hvalid.2 hev, fun _ =>
      ⟨⟨hvalid.1.sublist erase_sublist,
        hvalid.2.sublist (erase_sublist.map _)⟩, .refl _⟩⟩

end ListScheduler

/-! ## Driving a scheduler -/

/-- A queue, the `ListScheduler` that takes the same calls, the remaining events, and what the two
handed out. -/
structure Driven (Queue : Type) where
  queue : Queue
  list : List Event
  remaining : List Event
  returned : List Event
  listReturned : List Event

namespace Driven

variable {Queue : Type}

/-- The events that remain after a call that hands out `next`. -/
def left (remaining : List Event) (next : Option Event) : SchedulerCall → List Event
  | .insert ev => ev :: remaining
  | .removeNext => next.elim remaining remaining.erase
  | .remove ev => remaining.erase ev

def step (scheduler : Scheduler Queue) (state : Driven Queue) (call : SchedulerCall) :
    Except Unit (Driven Queue) :=
  match scheduler.call state.queue call, listScheduler.call state.list call with
  | some (next, queue), some (listNext, list) =>
    .ok {
      queue := queue
      list := list
      remaining := left state.remaining next call
      returned := state.returned ++ next.toList
      listReturned := state.listReturned ++ listNext.toList }
  | _, _ => .error ()

def machine (scheduler : Scheduler Queue) : Machine (Driven Queue) SchedulerCall Unit where
  init := ⟨scheduler.empty, [], [], [], []⟩
  step := step scheduler

/-- Uids are new among the remaining events; only a remaining event is removed, and the next one
only when there is one. -/
def offered (state : Driven Queue) : SchedulerCall → Bool
  | .insert ev => state.remaining.all fun other => other.key.uid ≠ ev.key.uid
  | .removeNext => !state.remaining.isEmpty
  | .remove ev => state.remaining.contains ev

/-- The queue holds the remaining events, the next one is the least of them, every call that may be
made returns, and the sorted list hands out the same events. -/
structure Serves (scheduler : Scheduler Queue) (may : Queue → SchedulerCall → Prop)
    (state : Driven Queue) : Prop where
  events : (scheduler.events state.queue).Perm state.remaining
  isEmpty : scheduler.isEmpty state.queue = state.remaining.isEmpty
  peekNext : state.remaining ≠ [] →
    ∃ ev, scheduler.peekNext state.queue = some ev ∧ Least ev state.remaining
  removeNext : (scheduler.removeNext state.queue).map Prod.fst =
    if state.remaining.isEmpty then none else scheduler.peekNext state.queue
  returns : ∀ call, state.offered call = true → may state.queue call →
    ∃ next, step scheduler state call = .ok next
  sameList : state.listReturned = state.returned

structure InStep (scheduler : Scheduler Queue) (valid : Queue → Prop) (state : Driven Queue) :
    Prop where
  valid : valid state.queue
  sorted : ListScheduler.Sorted state.list
  events : (scheduler.events state.queue).Perm state.remaining
  list : state.list.Perm state.remaining
  sameList : state.listReturned = state.returned

variable {scheduler : Scheduler Queue} {valid : Queue → Prop}
  {allowed : Queue → SchedulerCall → Prop} {state next : Driven Queue} {call : SchedulerCall}

section

variable (hcorrect : Correct scheduler valid allowed)
include hcorrect

theorem InStep.distinct (hinStep : InStep scheduler valid state) : Distinct state.remaining :=
  (hcorrect.distinct _ hinStep.valid).perm hinStep.events

theorem InStep.step (hinStep : InStep scheduler valid state) (hoffer : state.offered call = true)
    (hallowedInsert : ∀ ev, call = .insert ev → allowed state.queue call) :
    ∃ next,
      Driven.step scheduler state call = .ok next ∧
        (allowed state.queue call → InStep scheduler valid next) := by
  have hdist := hinStep.distinct hcorrect
  have hlistValid : ListScheduler.Sorted state.list ∧ Distinct state.list :=
    ⟨hinStep.sorted, hdist.perm hinStep.list.symm⟩
  cases call with
  | insert ev =>
    have hnew : ∀ other ∈ state.remaining, other.key.uid ≠ ev.key.uid := by
      simpa [offered] using hoffer
    obtain ⟨queue, hinsert, hvalid, hevs⟩ := hcorrect.insert state.queue ev hinStep.valid
      (hallowedInsert ev rfl) fun other hother => hnew other (hinStep.events.mem_iff.mp hother)
    obtain ⟨list, hlist, hsort, hlistEvents⟩ := ListScheduler.correct.insert state.list ev
      hlistValid trivial fun other hother => hnew other (hinStep.list.mem_iff.mp hother)
    refine ⟨_, by rw [Driven.step, call, call, hinsert, hlist]; rfl,
      fun _ => ⟨hvalid, hsort.1, ?_, ?_, ?_⟩⟩
    · exact hevs.trans (hinStep.events.cons ev)
    · exact hlistEvents.trans (hinStep.list.cons ev)
    · simpa using hinStep.sameList
  | removeNext =>
    have hsome : state.remaining ≠ [] := by simpa [offered] using hoffer
    have hqueueSome : scheduler.events state.queue ≠ [] := fun hnil =>
      hsome (hnil ▸ hinStep.events).nil_eq.symm
    have hlistSome : state.list ≠ [] := fun hnil => hsome (hnil ▸ hinStep.list).nil_eq.symm
    obtain ⟨ev, queue, -, hremove, hleast, hleft⟩ :=
      hcorrect.removeNext state.queue hinStep.valid hqueueSome
    obtain ⟨listEv, list, -, hlistRemove, hlistLeast, hlistLeft⟩ :=
      ListScheduler.correct.removeNext state.list hlistValid hlistSome
    -- both return the least of the same events, which is unique
    have hsame : listEv = ev := (hlistLeast.perm hinStep.list).unique (hleast.perm hinStep.events)
    refine ⟨_, by rw [Driven.step, call, call, hremove, hlistRemove]; rfl,
      fun hallow => ?_⟩
    obtain ⟨hvalid, hevs⟩ := hleft hallow
    obtain ⟨hlistValid', hlistEvents⟩ := hlistLeft trivial
    refine ⟨hvalid, hlistValid'.1, ?_, ?_, ?_⟩
    · exact hevs.trans (hinStep.events.erase ev)
    · exact hsame ▸ hlistEvents.trans (hinStep.list.erase listEv)
    · simp [hsame, hinStep.sameList]
  | remove ev =>
    have hev : ev ∈ state.remaining := by simpa [offered] using hoffer
    obtain ⟨queue, hremove, hleft⟩ :=
      hcorrect.remove state.queue ev hinStep.valid (hinStep.events.mem_iff.mpr hev)
    obtain ⟨list, hlistRemove, hlistLeft⟩ := ListScheduler.correct.remove state.list ev
      hlistValid (hinStep.list.mem_iff.mpr hev)
    refine ⟨_, by rw [Driven.step, call, call, hremove, hlistRemove]; rfl,
      fun hallow => ?_⟩
    obtain ⟨hvalid, hevs⟩ := hleft hallow
    obtain ⟨hlistValid', hlistEvents⟩ := hlistLeft trivial
    refine ⟨hvalid, hlistValid'.1, ?_, ?_, ?_⟩
    · exact hevs.trans (hinStep.events.erase ev)
    · exact hlistEvents.trans (hinStep.list.erase ev)
    · simpa using hinStep.sameList

theorem InStep.init : InStep scheduler valid (machine scheduler).init :=
  ⟨hcorrect.empty, List.Pairwise.nil, hcorrect.events_empty ▸ .refl _, .refl _, rfl⟩

theorem InStep.serves {may : Queue → SchedulerCall → Prop} (hinStep : InStep scheduler valid state)
    (hmay : ∀ queue ev, may queue (.insert ev) → allowed queue (.insert ev)) :
    Serves scheduler may state := by
  have hempty : (scheduler.events state.queue).isEmpty = state.remaining.isEmpty := by
    rw [Bool.eq_iff_iff, List.isEmpty_iff, List.isEmpty_iff]
    exact ⟨fun hnil => (hnil ▸ hinStep.events).nil_eq.symm,
      fun hnil => (hnil ▸ hinStep.events).eq_nil⟩
  refine ⟨hinStep.events, (hcorrect.isEmpty _ hinStep.valid).trans hempty, ?_, ?_, ?_,
    hinStep.sameList⟩
  · intro hsome
    obtain ⟨ev, queue, hpeek, -, hleast, -⟩ := hcorrect.removeNext state.queue hinStep.valid
      fun hnil => hsome (hnil ▸ hinStep.events).nil_eq.symm
    exact ⟨ev, hpeek, hleast.perm hinStep.events⟩
  · by_cases hnil : scheduler.events state.queue = []
    · rw [hcorrect.removeNext_empty _ hinStep.valid hnil, ← hempty, hnil]
      rfl
    · obtain ⟨ev, queue, hpeek, hremove, -, -⟩ := hcorrect.removeNext state.queue hinStep.valid hnil
      rw [hremove, hpeek, ← hempty, if_neg (by simpa using hnil)]
      rfl
  · intro call hoffer hcall
    obtain ⟨next, hnext, -⟩ :=
      hinStep.step hcorrect hoffer fun ev heq => heq ▸ hmay _ ev (heq ▸ hcall)
    exact ⟨next, hnext⟩

theorem serves {may : Queue → SchedulerCall → Prop} (hmay : ∀ queue ev, may queue (.insert ev) →
    allowed queue (.insert ev)) (hst : (machine scheduler).ReachableUnder (fun state call =>
    state.offered call = true ∧ allowed state.queue call) state) : Serves scheduler may state := by
  have hinStep : InStep scheduler valid state := by
    induction hst with
    | init => exact .init hcorrect
    | step _ hcall hstep ih =>
      obtain ⟨next, hnext, hkeep⟩ := ih.step hcorrect hcall.1 fun _ _ => hcall.2
      obtain rfl := Except.ok.inj (hnext.symm.trans hstep)
      exact hkeep hcall.2
  exact hinStep.serves hcorrect hmay

end

end Driven

end HomaSird.Core
