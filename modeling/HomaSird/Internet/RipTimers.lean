import HomaSird.Data.KeyedQueues
import HomaSird.Internet.Rip

/-! # The timers of the RIP routes

The event slot of a route serves its timeout and its garbage collection. A route that is
stored with a fresh event keeps the table in order, whatever route stood in its place.
-/

namespace HomaSird.Internet

open EventTable RipRoutingTableEntry List

namespace RipRoutingTableEntry

variable (entry : RipRoutingTableEntry)

@[simp] theorem metric_setRouteTag (tag : Nat) : (entry.setRouteTag tag).metric = entry.metric := by
  unfold setRouteTag
  split <;> rfl

@[simp] theorem status_setRouteTag (tag : Nat) : (entry.setRouteTag tag).status = entry.status := by
  unfold setRouteTag
  split <;> rfl

@[simp] theorem metric_setRouteMetric
    (metric : Nat) : (entry.setRouteMetric metric).metric = uint8 metric := by
  unfold setRouteMetric
  split
  · rfl
  next hsame => simpa using hsame

@[simp] theorem status_setRouteMetric
    (metric : Nat) : (entry.setRouteMetric metric).status = entry.status := by
  unfold setRouteMetric
  split <;> rfl

@[simp] theorem metric_setRouteStatus
    (status : RouteStatus) : (entry.setRouteStatus status).metric = entry.metric := by
  unfold setRouteStatus
  split <;> rfl

@[simp] theorem status_setRouteStatus
    (status : RouteStatus) : (entry.setRouteStatus status).status = status := by
  unfold setRouteStatus
  split
  · rfl
  next hsame => simpa using hsame

@[simp] theorem metric_setRouteChanged (changed : Bool) :
    (entry.setRouteChanged changed).metric = entry.metric := rfl

@[simp] theorem status_setRouteChanged (changed : Bool) :
    (entry.setRouteChanged changed).status = entry.status := rfl

@[simp] theorem metric_learn (metric tag : Nat) :
    (entry.learn metric tag).metric = uint8 metric := by
  simp [learn]

@[simp] theorem status_learn (metric tag : Nat) : (entry.learn metric tag).status = .valid := by
  simp [learn]

end RipRoutingTableEntry

def RipAction.pointer? : RipAction → Option Nat
  | .invalidateRoute pointer => some pointer
  | .deleteRoute pointer => some pointer
  | _ => none

structure RouteKept (cfg : RipConfig) (events : EventTable RipAction) (route : RipRoute) :
    Prop where
  valid : route.entry.status = .valid → route.entry.metric < cfg.linkDown
  invalid : route.entry.status = .invalid → route.entry.metric = cfg.linkDown
  garbage : route.entry.status = .invalid →
    (events.find route.event).map PendingEvent.action = some (.deleteRoute route.pointer)
  timeout : route.entry.status = .valid → route.learned = true →
    (events.find route.event).map PendingEvent.action = some (.invalidateRoute route.pointer)

theorem RouteKept.of_find {cfg : RipConfig} {events later : EventTable RipAction} {route : RipRoute}
    (hroute : RouteKept cfg events route)
    (hfind : later.find route.event = events.find route.event) :
    RouteKept cfg later route where
  valid := hroute.valid
  invalid := hroute.invalid
  garbage := by
    rw [hfind]
    exact hroute.garbage
  timeout := by
    rw [hfind]
    exact hroute.timeout

theorem RouteKept.of_valid {cfg : RipConfig} {events : EventTable RipAction} {route : RipRoute}
    (hstatus : route.entry.status = .valid) (hmetric : route.entry.metric < cfg.linkDown)
    (htimer :
      (events.find route.event).map PendingEvent.action = some (.invalidateRoute route.pointer)) :
    RouteKept cfg events route where
  valid _ := hmetric
  invalid hinvalid := by
    rw [hstatus] at hinvalid
    cases hinvalid
  garbage hinvalid := by
    rw [hstatus] at hinvalid
    cases hinvalid
  timeout _ _ := htimer

theorem RouteKept.of_invalid {cfg : RipConfig} {events : EventTable RipAction} {route : RipRoute}
    (hstatus : route.entry.status = .invalid) (hmetric : route.entry.metric = cfg.linkDown)
    (htimer : (events.find route.event).map PendingEvent.action = some (.deleteRoute route.pointer))
    : RouteKept cfg events route where
  valid hvalid := by
    rw [hstatus] at hvalid
    cases hvalid
  invalid _ := hmetric
  garbage _ := htimer
  timeout hvalid := by
    rw [hstatus] at hvalid
    cases hvalid

namespace Rip

variable {cfg : RipConfig} {rip : Rip} {place : Nat} {route old : RipRoute}

def holders (rip : Rip) : List (Nat × Option Nat) :=
  rip.routes.map fun route => (route.pointer, route.event)

structure Timers (rip : Rip) : Prop where
  slotted : Slotted RipAction.pointer? rip.events rip.holders
  fresh : ∀ route ∈ rip.routes, route.pointer < rip.nextPointer
  triggered : ∀ uid, rip.nextTriggeredUpdate = some uid → uid < rip.events.nextUid ∧
    ∀ event, rip.events.pending.lookup uid = some event → event.action.pointer? = none

structure KeptBut (cfg : RipConfig) (busy : Option Nat) (rip : Rip) : Prop extends
    Timers rip where
  others : ∀ place route, rip.routes[place]? = some route → busy ≠ some place →
    RouteKept cfg rip.events route

abbrev Kept (cfg : RipConfig) (rip : Rip) : Prop := KeptBut cfg none rip

theorem mem_holders (hroute : rip.routes[place]? = some route) :
    (route.pointer, route.event) ∈ rip.holders :=
  mem_map.mpr ⟨route, mem_of_getElem? hroute, rfl⟩

theorem Timers.place_eq (htimers : Timers rip) {other : Nat}
    (hroute : rip.routes[place]? = some route) (hother : rip.routes[other]? = some old)
    (hsame : route.pointer = old.pointer) : place = other := by
  obtain ⟨hlt, -⟩ := List.getElem?_eq_some_iff.mp hroute
  have hlen : place < (rip.holders.map Prod.fst).length := by
    rw [length_map, holders, length_map]
    exact hlt
  refine (List.getElem?_inj hlen htimers.slotted.nodup).mp ?_
  rw [holders, map_map, List.getElem?_map, List.getElem?_map, hroute, hother]
  exact congrArg some hsame

theorem Timers.place_route (htimers : Timers rip)
    (hroute : rip.routes[place]? = some route) : rip.place route.pointer = some place := by
  obtain ⟨hlt, hget⟩ := List.getElem?_eq_some_iff.mp hroute
  refine List.findIdx?_eq_some_iff_getElem.mpr ⟨hlt, by simp [hget], fun other hother => ?_⟩
  have hltOther : other < rip.routes.length := hother.trans hlt
  rw [Bool.not_eq_true, beq_eq_false_iff_ne]
  intro hsame
  have heq := htimers.place_eq (List.getElem?_eq_getElem hltOther) hroute hsame
  omega

theorem KeptBut.kept (hkept : Kept cfg rip) (hroute : rip.routes[place]? = some route) :
    RouteKept cfg rip.events route := hkept.others place route hroute nofun

theorem KeptBut.but (hkept : Kept cfg rip) (busy : Option Nat) : KeptBut cfg busy rip where
  toTimers := hkept.toTimers
  others _ _ hroute _ := hkept.kept hroute

structure Touched (place : Nat) (before after : Rip) : Prop where
  now : after.now = before.now
  length : after.routes.length = before.routes.length
  same : ∀ other, other ≠ place → after.routes[other]? = before.routes[other]?
  find : ∀ other route, other ≠ place → before.routes[other]? = some route →
    after.events.find route.event = before.events.find route.event

theorem Touched.refl (place : Nat) (rip : Rip) : Touched place rip rip :=
  ⟨rfl, rfl, fun _ _ => rfl, fun _ _ _ _ => rfl⟩

theorem Touched.trans {before middle after : Rip} (hfst : Touched place before middle)
    (hsnd : Touched place middle after) : Touched place before after where
  now := hsnd.now.trans hfst.now
  length := hsnd.length.trans hfst.length
  same other hne := (hsnd.same other hne).trans (hfst.same other hne)
  find other route hne hroute := by
    have hmiddle := (hfst.same other hne).trans hroute
    exact (hsnd.find other route hne hmiddle).trans (hfst.find other route hne hroute)

theorem KeptBut.drop (hkept : KeptBut cfg (some place) rip)
    (hroute : rip.routes[place]? = some route) {uid : Nat}
    (howner : ∀ event, rip.events.pending.lookup uid = some event →
      event.action.pointer? = some route.pointer) :
    KeptBut cfg (some place) { rip with events := rip.events.drop uid } where
  slotted := hkept.slotted.drop uid
  fresh := hkept.fresh
  triggered := by
    intro triggered htrig
    obtain ⟨hlt, hnone⟩ := hkept.triggered triggered htrig
    refine ⟨hlt, fun event hlook => ?_⟩
    rw [lookup_drop] at hlook
    split at hlook
    · cases hlook
    · exact hnone event hlook
  others other stored hstored hne := by
    refine (hkept.others other stored hstored hne).of_find ?_
    refine hkept.slotted.find_drop (mem_holders hstored) fun event hlook hsame => hne ?_
    have hptr := Option.some.inj ((howner event hlook).symm.trans hsame)
    rw [hkept.place_eq hroute hstored hptr]

theorem KeptBut.cancel (hkept : KeptBut cfg (some place) rip)
    (hroute : rip.routes[place]? = some route) :
    KeptBut cfg (some place) { rip with events := rip.events.cancel route.event } := by
  cases hev : route.event with
  | none => exact hkept
  | some uid =>
    refine hkept.drop hroute fun event hlook => ?_
    have hmem := mem_holders hroute
    rw [hev] at hmem
    exact hkept.slotted.names _ uid event hmem hlook

theorem Touched.cancel (htimers : Timers rip) (hroute : rip.routes[place]? = some route) :
    Touched place rip { rip with events := rip.events.cancel route.event } where
  now := rfl
  length := rfl
  same _ _ := rfl
  find other stored hne hstored := by
    refine htimers.slotted.find_cancel (mem_holders hroute) (mem_holders hstored) fun hsame => ?_
    exact hne (htimers.place_eq hstored hroute hsame)

section

variable (hkept : KeptBut cfg (some place) rip) (hold : rip.routes[place]? = some old) (hev :
  route.event = old.event)
include hkept hold hev

section

variable (hptr : route.pointer = old.pointer ∨ ∀ other ∈ rip.routes, other.pointer ≠ route.pointer)
  (hbelow : route.pointer < rip.nextPointer)
include hptr hbelow

theorem KeptBut.reschedule {action : Nat → RipAction} (delay : Nat)
    (howner : (action route.pointer).pointer? = some route.pointer)
    (hroute : RouteKept cfg
      ((rip.events.cancel old.event).schedule rip.now delay (action route.pointer)).2
      { route with
        event := some
          ((rip.events.cancel old.event).schedule rip.now delay (action route.pointer)).1 }) :
    Kept cfg (rip.reschedule place route delay action) ∧
      Touched place rip (rip.reschedule place route delay action) := by
  have hcanc := hkept.slotted.cancel old.event
  -- the timers of the other routes are neither cancelled nor the new one
  have hother : ∀ other stored, other ≠ place → rip.routes[other]? = some stored →
      ((rip.events.cancel old.event).schedule rip.now delay (action route.pointer)).2.find
        stored.event = rip.events.find stored.event := by
    intro other stored hne hstored
    rw [hcanc.find_schedule (mem_holders hstored)]
    exact (Touched.cancel hkept.toTimers hold).find other stored hne hstored
  unfold Rip.reschedule
  rw [hev]
  refine ⟨⟨⟨?_, ?_, ?_⟩, ?_⟩, ⟨rfl, length_set, ?_, hother⟩⟩
  · obtain ⟨before, behind, hroutes, hplace, hset⟩ := set_around hold
    have hslot := hkept.slotted
    rw [holders, hroutes, map_append, map_cons] at hslot
    dsimp only [holders]
    rw [hset, map_append, map_cons]
    refine hslot.rearm ?_ rip.now delay howner
    refine hptr.imp_right fun hnew hmem => ?_
    have hpointers : route.pointer ∈ rip.holders.map Prod.fst := by
      rw [holders, hroutes, map_append, map_cons]
      exact hmem
    rw [holders, map_map] at hpointers
    obtain ⟨other, hin, hsame⟩ := mem_map.mp hpointers
    exact hnew other hin hsame
  · intro other hmem
    rcases mem_or_eq_of_mem_set hmem with hin | rfl
    · exact hkept.fresh other hin
    · exact hbelow
  · intro uid htrig
    obtain ⟨hlt, hnone⟩ := hkept.triggered uid htrig
    rw [← nextUid_cancel rip.events old.event] at hlt
    refine ⟨Nat.lt_succ_of_lt hlt, fun event hlook => ?_⟩
    rw [lookup_schedule, if_neg (ne_of_lt hlt), lookup_cancel] at hlook
    split at hlook
    · cases hlook
    · exact hnone event hlook
  · intro other stored hstored _
    dsimp only at hstored ⊢
    rw [getElem?_set] at hstored
    split at hstored
    · split at hstored
      · cases hstored
        exact hroute
      · cases hstored
    next hne =>
      have hkeptOther := hkept.others other stored hstored fun heq => hne (Option.some.inj heq)
      exact hkeptOther.of_find (hother other stored (Ne.symm hne) hstored)
  · intro other hne
    exact getElem?_set_ne (Ne.symm hne)

/-! ## One route -/

theorem KeptBut.timeout (hstatus : route.entry.status = .valid)
    (hmetric : route.entry.metric < cfg.linkDown) (delay : Nat) :
    Kept cfg (rip.reschedule place route delay .invalidateRoute) ∧
      Touched place rip (rip.reschedule place route delay .invalidateRoute) := by
  refine hkept.reschedule hold hev hptr hbelow delay rfl ?_
  refine .of_valid hstatus hmetric ?_
  rw [find_schedule_self]
  rfl

end

end

theorem invalidateRoute_kept (hword : cfg.linkDown < 2 ^ 8) (hkept : KeptBut cfg (some place) rip)
    (hroute : rip.routes[place]? = some route) :
    ∃ next,
      invalidateRoute cfg rip route.pointer = .ok next ∧ Kept cfg next ∧
        Touched place rip next := by
  rw [invalidateRoute, hkept.place_route hroute, Option.bind_some, hroute, Option.map_some]
  refine ⟨_, rfl, ?_⟩
  have hbelow := hkept.fresh route (mem_of_getElem? hroute)
  have hev : ({ route with entry := ((route.entry.setRouteStatus .invalid).setRouteMetric
    cfg.linkDown).setRouteChanged true } : RipRoute).event = route.event := rfl
  refine hkept.reschedule hroute hev (.inl rfl) hbelow _ ?_ (.of_invalid ?_ ?_ ?_)
  · rfl
  · simp
  · simp only [metric_setRouteChanged,
      metric_setRouteMetric]
    exact Nat.mod_eq_of_lt hword
  · rw [find_schedule_self]
    rfl

theorem deleteRoute_kept (hkept : KeptBut cfg (some place) rip)
    (hroute : rip.routes[place]? = some route) (hidle : rip.events.find route.event = none) :
    ∃ next, rip.deleteRoute route.pointer = .ok next ∧ Kept cfg next := by
  rw [deleteRoute, hkept.place_route hroute]
  refine ⟨_, rfl, ⟨?_, ?_, hkept.triggered⟩, ?_⟩
  · obtain ⟨before, behind, hroutes, hplace, -⟩ := set_around hroute
    have hslot := hkept.slotted
    rw [holders, hroutes, map_append, map_cons] at hslot
    have herased : rip.routes.eraseIdx place = before ++ behind := by
      rw [hroutes, ← hplace, eraseIdx_append_of_length_le (Nat.le_refl _), Nat.sub_self]
      rfl
    dsimp only [holders]
    rw [herased, map_append]
    exact hslot.leave hidle
  · exact fun other hmem => hkept.fresh other (mem_of_mem_eraseIdx hmem)
  · intro other stored hstored _
    rw [getElem?_eraseIdx] at hstored
    split at hstored
    next hlt => exact hkept.others other stored hstored fun heq => by cases heq; omega
    next hge => exact hkept.others (other + 1) stored hstored fun heq => by cases heq; omega

theorem KeptBut.add (hkept : Kept cfg rip) {routes : List RipRoute}
    (hroutes : routes.Perm (route :: rip.routes)) (hptr : route.pointer = rip.nextPointer)
    (hev : route.event = none) {busy : Option Nat}
    (hothers : ∀ place stored, routes[place]? = some stored → busy ≠ some place →
      stored ∈ rip.routes ∨ RouteKept cfg rip.events stored) :
    KeptBut cfg busy { rip with routes, nextPointer := rip.nextPointer + 1 } where
  slotted := by
    have hfresh : route.pointer ∉ rip.holders.map Prod.fst := by
      rw [holders, map_map]
      intro hmem
      obtain ⟨other, hin, hsame⟩ := mem_map.mp hmem
      have hbelow := hkept.fresh other hin
      rw [← hptr] at hbelow
      exact ne_of_lt hbelow hsame
    have hheld := hkept.slotted.hold hfresh
    rw [← hev] at hheld
    exact hheld.perm (hroutes.symm.map fun route : RipRoute => (route.pointer, route.event))
  fresh other hmem := by
    rcases mem_cons.mp (hroutes.mem_iff.mp hmem) with rfl | hin
    · rw [hptr]
      exact Nat.lt_succ_self _
    · exact Nat.lt_succ_of_lt (hkept.fresh other hin)
  triggered := hkept.triggered
  others place stored hstored hne := by
    rcases hothers place stored hstored hne with hin | hkeptRoute
    · obtain ⟨other, hother⟩ := mem_iff_getElem?.mp hin
      exact hkept.kept hother
    · exact hkeptRoute

theorem addNetworkRouteTo_kept (hkept : Kept cfg rip) (hlink : 1 < cfg.linkDown)
    (network : Ipv4Address) (networkPrefix : Ipv4Mask) (nextHop : Ipv4Address) (interface : Nat) :
    Kept cfg (rip.addNetworkRouteTo network networkPrefix nextHop interface) := by
  refine hkept.add (perm_append_singleton _ _) rfl rfl fun place stored hstored _ => ?_
  rcases mem_append.mp (mem_of_getElem? hstored) with hin | hnew
  · exact .inl hin
  · obtain rfl := mem_singleton.mp hnew
    refine .inr ⟨fun _ => ?_, fun hinvalid => ?_, fun hinvalid => ?_, fun _ hlearned => ?_⟩
    · simp only [metric_setRouteChanged,
        metric_setRouteStatus, metric_setRouteMetric]
      exact hlink
    · simp at hinvalid
    · simp at hinvalid
    · cases hlearned

/-! ## The updates -/

theorem KeptBut.schedule (hkept : Kept cfg rip) (delay : Nat) {action : RipAction}
    (hnone : action.pointer? = none) :
    Kept cfg { rip with events := (rip.events.schedule rip.now delay action).2 } where
  slotted := hkept.slotted.schedule rip.now delay hnone
  fresh := hkept.fresh
  triggered uid htrig := by
    obtain ⟨hlt, hforeign⟩ := hkept.triggered uid htrig
    refine ⟨Nat.lt_succ_of_lt hlt, fun event hlook => ?_⟩
    rw [lookup_schedule, if_neg (ne_of_lt hlt)] at hlook
    exact hforeign event hlook
  others _ _ hstored _ :=
    (hkept.kept hstored).of_find (hkept.slotted.find_schedule (mem_holders hstored) ..)

theorem KeptBut.setTriggered (hkept : Kept cfg rip) {slot : Option Nat}
    (hslot : ∀ uid, slot = some uid → uid < rip.events.nextUid ∧
      ∀ event, rip.events.pending.lookup uid = some event → event.action.pointer? = none) :
    Kept cfg { rip with nextTriggeredUpdate := slot } where
  slotted := hkept.slotted
  fresh := hkept.fresh
  triggered := hslot
  others := hkept.others

theorem KeptBut.scheduleTriggered (hkept : Kept cfg rip) (delay : Nat) {action : RipAction}
    (hnone : action.pointer? = none) :
    Kept cfg { rip with
      nextTriggeredUpdate := some (rip.events.schedule rip.now delay action).1
      events := (rip.events.schedule rip.now delay action).2 } := by
  refine (hkept.schedule delay hnone).setTriggered fun uid huid => ?_
  cases huid
  refine ⟨Nat.lt_succ_self _, fun event hlook => ?_⟩
  rw [lookup_schedule] at hlook
  have hnext : (rip.events.schedule rip.now delay action).1 = rip.events.nextUid := rfl
  rw [if_pos hnext] at hlook
  cases hlook
  exact hnone

theorem KeptBut.sendTriggeredRouteUpdate (hkept : Kept cfg rip)
    (delay : Nat) : Kept cfg (rip.sendTriggeredRouteUpdate delay) := by
  unfold Rip.sendTriggeredRouteUpdate
  split
  · exact hkept
  · exact hkept.scheduleTriggered delay rfl

theorem KeptBut.doSendRouteUpdate (hkept : Kept cfg rip) :
    Kept cfg rip.doSendRouteUpdate where
  slotted := by
    have hsame : rip.doSendRouteUpdate.holders = rip.holders := by
      rw [holders, Rip.doSendRouteUpdate, map_map]
      rfl
    rw [hsame]
    exact hkept.slotted
  fresh route hmem := by
    obtain ⟨old, hold, rfl⟩ := mem_map.mp hmem
    exact hkept.fresh old hold
  triggered := hkept.triggered
  others place route hroute _ := by
    rw [Rip.doSendRouteUpdate, getElem?_map] at hroute
    obtain ⟨old, hold, rfl⟩ := Option.map_eq_some_iff.mp hroute
    have hroute := hkept.kept hold
    exact ⟨hroute.valid, hroute.invalid, hroute.garbage, hroute.timeout⟩

theorem KeptBut.dropForeign (hkept : Kept cfg rip) {uid : Nat}
    (hnone : ∀ event, rip.events.pending.lookup uid = some event → event.action.pointer? = none) :
    Kept cfg { rip with events := rip.events.drop uid } where
  slotted := hkept.slotted.drop uid
  fresh := hkept.fresh
  triggered triggered htrig := by
    obtain ⟨hlt, hforeign⟩ := hkept.triggered triggered htrig
    refine ⟨hlt, fun event hlook => ?_⟩
    rw [lookup_drop] at hlook
    split at hlook
    · cases hlook
    · exact hforeign event hlook
  others place route hroute _ := by
    refine (hkept.kept hroute).of_find ?_
    refine hkept.slotted.find_drop (mem_holders hroute) fun event hlook howner => ?_
    rw [hnone event hlook] at howner
    cases howner

theorem KeptBut.sendUnsolicitedRouteUpdate (hkept : Kept cfg rip)
    (delay : Nat) : Kept cfg (rip.sendUnsolicitedRouteUpdate delay) := by
  have hcancel : ∀ slot, rip.nextTriggeredUpdate = slot →
      Kept cfg { rip with events := rip.events.cancel slot } := by
    intro slot htrig
    cases slot with
    | none => exact hkept
    | some uid => exact hkept.dropForeign (hkept.triggered uid htrig).2
  have hcanc := hcancel rip.nextTriggeredUpdate rfl
  have hsched := hcanc.doSendRouteUpdate.schedule delay
    (rfl : RipAction.sendUnsolicitedRouteUpdate.pointer? = none)
  exact ⟨⟨hsched.slotted, hsched.fresh, hsched.triggered⟩, hsched.others⟩

theorem KeptBut.doInitialize (hkept : Kept cfg rip)
    (addedGlobal : Bool) (unsolicitedDelay triggeredDelay startupDelay : Nat) :
    Kept cfg (rip.doInitialize addedGlobal unsolicitedDelay triggeredDelay startupDelay) := by
  have hfst := hkept.schedule unsolicitedDelay
    (rfl : RipAction.sendUnsolicitedRouteUpdate.pointer? = none)
  have hsnd : Kept cfg { rip with events :=
      if addedGlobal then
        ((rip.events.schedule rip.now unsolicitedDelay .sendUnsolicitedRouteUpdate).2.schedule
          rip.now triggeredDelay (.doSendRouteUpdate false)).2
      else (rip.events.schedule rip.now unsolicitedDelay .sendUnsolicitedRouteUpdate).2 } := by
    split
    · exact hfst.schedule triggeredDelay
        (rfl : (RipAction.doSendRouteUpdate false).pointer? = none)
    · exact hfst
  have hthird := hsnd.scheduleTriggered startupDelay
    (rfl : RipAction.sendRouteRequest.pointer? = none)
  exact ⟨⟨hthird.slotted, hthird.fresh, hthird.triggered⟩, hthird.others⟩

end Rip

end HomaSird.Internet
