import HomaSird.Internet.RipTimers

/-! # The RIP routing table in order

As long as no response repeats the metric of a dead link for a route that is dead already, a
route is valid exactly when it is reachable and waits for the event its status calls for.
-/

namespace HomaSird.Internet.Rip

open EventTable RipRoutingTableEntry List

variable {cfg : RipConfig} {rip : Rip} {place : Nat} {route : RipRoute} {rte : RipRte}
  {senderAddress : Ipv4Address} {incomingInterface : Nat} {scan : RteScan}

/-! ## One route and one RTE -/

def sameNetwork (rte : RipRte) (route : RipRoute) : Bool :=
  decide (route.entry.dest = rte.network ∧ route.entry.destNetworkMask = rte.subnetMask)

/-- The route is unreachable, and what its gateway says to that effect again is stored, or another
router when the event of the route is due in less than half of a timeout. -/
def refreshesDead (cfg : RipConfig) (rte : RipRte) (senderAddress : Ipv4Address)
    (incomingInterface : Nat) (rip : Rip) (route : RipRoute) : Bool :=
  decide (cfg.rteMetric incomingInterface rte = cfg.linkDown) &&
    decide (route.entry.metric = cfg.linkDown) &&
      (decide (senderAddress = route.entry.gateway) ||
        decide (rip.events.getDelayLeft rip.now route.event < cfg.timeoutDelay / 2))

theorem rteMetric_le (cfg : RipConfig) (incomingInterface : Nat) (rte : RipRte) :
    cfg.rteMetric incomingInterface rte ≤ cfg.linkDown := Nat.min_le_right _ _

theorem KeptBut.metric_le (hkept : Kept cfg rip) (hroute : rip.routes[place]? = some route) :
    route.entry.metric ≤ cfg.linkDown := by
  have hkeptRoute := hkept.kept hroute
  cases hstatus : route.entry.status with
  | valid => exact le_of_lt (hkeptRoute.valid hstatus)
  | invalid => exact le_of_eq (hkeptRoute.invalid hstatus)

theorem KeptBut.learn (hkept : KeptBut cfg (some place) rip) (hword : cfg.linkDown < 2 ^ 8)
    (hroute : rip.routes[place]? = some route) {metric : Nat} (hlt : metric < cfg.linkDown)
    (tag delay : Nat) :
    let learned := { route with entry := route.entry.learn metric tag, learned := true }
    Kept cfg (rip.reschedule place learned delay .invalidateRoute) ∧
      Touched place rip (rip.reschedule place learned delay .invalidateRoute) := by
  have hbelow := hkept.fresh route (mem_of_getElem? hroute)
  have hev : ({ route with entry := route.entry.learn metric tag, learned := true } :
    RipRoute).event = route.event := rfl
  refine hkept.timeout hroute hev (.inl rfl) hbelow (status_learn ..) ?_ _
  simp only [metric_learn]
  rw [uint8, Nat.mod_eq_of_lt (hlt.trans hword)]
  exact hlt

theorem KeptBut.renew (hkept : Kept cfg rip) (hword : cfg.linkDown < 2 ^ 8)
    (hroute : rip.routes[place]? = some route) {metric : Nat} (hlt : metric < cfg.linkDown)
    (rte : RipRte) (senderAddress : Ipv4Address) (incomingInterface tag delay : Nat) :
    let fresh := (rip.renew route rte senderAddress incomingInterface).1
    let learned := { fresh with entry := fresh.entry.learn metric tag, learned := true }
    let next := (rip.renew route rte senderAddress incomingInterface).2.reschedule place learned
      delay .invalidateRoute
    Kept cfg next ∧ Touched place rip next := by
  intro fresh learned next
  have hbumped : KeptBut cfg (some place) { rip with nextPointer := rip.nextPointer + 1 } :=
    ⟨⟨hkept.slotted, fun other hmem => Nat.lt_succ_of_lt (hkept.fresh other hmem),
      hkept.triggered⟩, (hkept.but (some place)).others⟩
  have hev : learned.event = route.event := rfl
  have hnew : ∀ other ∈ rip.routes, other.pointer ≠ learned.pointer :=
    fun other hmem => ne_of_lt (hkept.fresh other hmem)
  have hmetric : learned.entry.metric < cfg.linkDown := by
    simp only [learned, metric_learn]
    rw [uint8, Nat.mod_eq_of_lt (hlt.trans hword)]
    exact hlt
  obtain ⟨hafter, htouch⟩ := hbumped.timeout hroute hev (.inr hnew) (Nat.lt_succ_self _)
    (status_learn ..) hmetric delay
  exact ⟨hafter, htouch.now, htouch.length, htouch.same, htouch.find⟩

theorem meetRoute_kept (hword : cfg.linkDown < 2 ^ 8)
    (hkept : Kept cfg scan.rip) (hroute : scan.rip.routes[place]? = some route)
    (hadmits : refreshesDead cfg rte senderAddress incomingInterface scan.rip route = false) :
    ∃ after, meetRoute cfg rte senderAddress incomingInterface scan place route = .ok after ∧
    Kept cfg after.rip ∧ Touched place scan.rip after.rip := by
  have hle := rteMetric_le cfg incomingInterface rte
  have hmetric := hkept.metric_le hroute
  unfold meetRoute
  dsimp only
  split
  next hbetter =>
    have hlt := lt_of_lt_of_le hbetter hmetric
    split
    · exact ⟨_, rfl, hkept.renew hword hroute hlt ..⟩
    · exact ⟨_, rfl, (hkept.but (some place)).learn hword hroute hlt ..⟩
  · split
    next hsame =>
      split
      next hsender =>
        -- a dead route would lose the event of its garbage collection
        have halive : route.entry.metric ≠ cfg.linkDown := by
          intro hdead
          rw [refreshesDead, hsame, hdead, hsender] at hadmits
          simp at hadmits
        have hvalid : route.entry.status = .valid := by
          cases hstatus : route.entry.status with
          | valid => rfl
          | invalid => exact absurd ((hkept.kept hroute).invalid hstatus) halive
        refine ⟨_, rfl, (hkept.but (some place)).timeout hroute rfl (.inl rfl)
          (hkept.fresh route (mem_of_getElem? hroute)) hvalid
          ((hkept.kept hroute).valid hvalid) _⟩
      · split
        next hnear =>
          -- a dead route would count as valid
          have halive : cfg.rteMetric incomingInterface rte ≠ cfg.linkDown := by
            intro hdead
            rw [refreshesDead, ← hsame, hdead, decide_eq_true hnear] at hadmits
            simp at hadmits
          exact ⟨_, rfl, hkept.renew hword hroute (Nat.lt_of_le_of_ne hle halive) ..⟩
        · exact ⟨_, rfl, hkept, .refl _ _⟩
    · split
      · have hcanc := (hkept.but (some place)).cancel hroute
        have htouch := Touched.cancel hkept.toTimers hroute
        split
        next hlt =>
          obtain ⟨hafter, hlater⟩ := hcanc.learn hword hroute hlt rte.tag cfg.timeoutDelay
          exact ⟨_, rfl, hafter, htouch.trans hlater⟩
        · obtain ⟨next, hnext, hafter, hlater⟩ := invalidateRoute_kept hword hcanc hroute
          rw [hnext]
          exact ⟨_, rfl, hafter, htouch.trans hlater⟩
      · exact ⟨_, rfl, hkept, .refl _ _⟩

/-! ## Responses -/

theorem refreshesDead_touched {before after : Rip} {other : Nat}
    (htouch : Touched place before after) (hne : other ≠ place)
    (hroute : before.routes[other]? = some route) :
    refreshesDead cfg rte senderAddress incomingInterface after route =
      refreshesDead cfg rte senderAddress incomingInterface before route := by
  unfold refreshesDead getDelayLeft
  rw [htouch.now, htouch.find other route hne hroute]

theorem visitRoute_kept (hword : cfg.linkDown < 2 ^ 8) (hkept : Kept cfg scan.rip)
    (hadmits : ∀ route, scan.rip.routes[place]? = some route → sameNetwork rte route = true →
    refreshesDead cfg rte senderAddress incomingInterface scan.rip route = false) :
    ∃ after, visitRoute cfg rte senderAddress incomingInterface scan place = .ok after ∧
    Kept cfg after.rip ∧ Touched place scan.rip after.rip := by
  unfold visitRoute
  split
  · exact ⟨_, rfl, hkept, .refl _ _⟩
  next route hroute =>
    split
    next hnetwork =>
      exact meetRoute_kept hword hkept hroute (hadmits route hroute (decide_eq_true hnetwork))
    · exact ⟨_, rfl, hkept, .refl _ _⟩

theorem visitRoutes_kept (hword : cfg.linkDown < 2 ^ 8) (places : List Nat) (hnodup : places.Nodup)
    (hkept : Kept cfg scan.rip)
    (hadmits : ∀ place ∈ places, ∀ route,
      scan.rip.routes[place]? = some route → sameNetwork rte route = true →
        refreshesDead cfg rte senderAddress incomingInterface scan.rip route = false) :
    ∃ after,
      places.foldlM (visitRoute cfg rte senderAddress incomingInterface) scan = .ok after ∧
        Kept cfg after.rip := by
  induction places generalizing scan with
  | nil => exact ⟨scan, rfl, hkept⟩
  | cons place rest ih =>
    obtain ⟨hnot, hrest⟩ := nodup_cons.mp hnodup
    obtain ⟨middle, hvisit, hmiddle, htouch⟩ := visitRoute_kept hword hkept
      (hadmits place mem_cons_self)
    rw [foldlM_cons, hvisit]
    apply ih hrest hmiddle
    intro other hother route hroute hnetwork
    have hne : other ≠ place := fun heq => hnot (heq ▸ hother)
    rw [htouch.same other hne] at hroute
    rw [refreshesDead_touched htouch hne hroute]
    exact hadmits other (.tail _ hother) route hroute hnetwork

theorem addLearned_kept (hword : cfg.linkDown < 2 ^ 8)
    (hkept : Kept cfg rip) (hlt : cfg.rteMetric incomingInterface rte < cfg.linkDown) :
    Kept cfg (rip.addLearned cfg rte senderAddress incomingInterface) := by
  unfold addLearned
  dsimp only
  generalize hroute : (RipRoute.mk _ _ none true) = route
  have hadded : KeptBut cfg (some 0)
      { rip with routes := route :: rip.routes, nextPointer := rip.nextPointer + 1 } := by
    refine hkept.add (.refl _) (by rw [← hroute]) (by rw [← hroute]) ?_
    intro place stored hstored hne
    cases place with
    | zero => exact absurd rfl hne
    | succ place => exact .inl (mem_of_getElem? hstored)
  have hbelow : route.pointer < rip.nextPointer + 1 := by
    rw [← hroute]
    exact Nat.lt_succ_self _
  refine (hadded.timeout rfl rfl (.inl rfl) hbelow ?_ ?_ _).1
  · rw [← hroute]
    simp
  · rw [← hroute]
    simp only [metric_setRouteChanged, metric_setRouteStatus, metric_setRouteMetric]
    rw [uint8, Nat.mod_eq_of_lt (hlt.trans hword)]
    exact hlt

def admitsRte (cfg : RipConfig) (senderAddress : Ipv4Address) (incomingInterface : Nat)
    (rip : Rip) (rte : RipRte) : Bool :=
  rip.routes.all fun route => !(sameNetwork rte route &&
    refreshesDead cfg rte senderAddress incomingInterface rip route)

theorem handleRte_kept (hword : cfg.linkDown < 2 ^ 8) {state : Rip × Bool}
    (hkept : Kept cfg state.1)
    (hadmits : admitsRte cfg senderAddress incomingInterface state.1 rte = true) :
    ∃ next,
      handleRte cfg senderAddress incomingInterface state rte = .ok next ∧ Kept cfg next.1 := by
  have hplaces : ∀ place ∈ range state.1.routes.length, ∀ route,
      (RteScan.mk state.1 false state.2).rip.routes[place]? = some route →
        sameNetwork rte route = true →
          refreshesDead cfg rte senderAddress incomingInterface state.1 route = false := by
    intro place _ route hroute hnetwork
    have hroute := all_eq_true.mp hadmits route (mem_of_getElem? hroute)
    rw [hnetwork, Bool.true_and, Bool.not_eq_true'] at hroute
    exact hroute
  obtain ⟨after, hscan, hafter⟩ := visitRoutes_kept hword (range state.1.routes.length)
    nodup_range hkept hplaces
  unfold handleRte
  rw [hscan]
  dsimp only [bind, Except.bind]
  split
  next hnew =>
    rw [Bool.and_eq_true, decide_eq_true_eq] at hnew
    have hlt := Nat.lt_of_le_of_ne (rteMetric_le cfg incomingInterface rte) hnew.2
    exact ⟨_, rfl, addLearned_kept hword hafter hlt⟩
  · exact ⟨_, rfl, hafter⟩

def admitsRtes (cfg : RipConfig) (senderAddress : Ipv4Address) (incomingInterface : Nat) :
    List RipRte → Rip × Bool → Bool
  | [], _ => true
  | rte :: rest, state =>
    admitsRte cfg senderAddress incomingInterface state.1 rte &&
      match handleRte cfg senderAddress incomingInterface state rte with
      | .ok next => admitsRtes cfg senderAddress incomingInterface rest next
      | .error _ => true

theorem handleRtes_kept (hword : cfg.linkDown < 2 ^ 8) (rtes : List RipRte) {state : Rip × Bool}
    (hkept : Kept cfg state.1)
    (hadmits : admitsRtes cfg senderAddress incomingInterface rtes state = true) :
    ∃ next,
      rtes.foldlM (handleRte cfg senderAddress incomingInterface) state = .ok next ∧
        Kept cfg next.1 := by
  induction rtes generalizing state with
  | nil => exact ⟨state, rfl, hkept⟩
  | cons rte rest ih =>
    rw [admitsRtes, Bool.and_eq_true] at hadmits
    obtain ⟨next, hnext, hkeptNext⟩ := handleRte_kept hword hkept hadmits.1
    rw [hnext] at hadmits
    rw [foldlM_cons, hnext]
    exact ih hkeptNext hadmits.2

theorem handleResponses_kept (hword : cfg.linkDown < 2 ^ 8) (hkept : Kept cfg rip)
    {rtes : List RipRte} (delay : Nat)
    (hadmits : cfg.isExcluded incomingInterface = false → rtes.all cfg.isWellFormed = true →
      admitsRtes cfg senderAddress incomingInterface rtes (rip, false) = true) :
    ∃ next,
      rip.handleResponses cfg rtes senderAddress incomingInterface delay = .ok next ∧
        Kept cfg next := by
  unfold handleResponses
  split
  · exact ⟨_, rfl, hkept⟩
  next hincluded =>
    split
    next hformed =>
      obtain ⟨next, hnext, hkeptNext⟩ := handleRtes_kept hword rtes
        (show Kept cfg (rip, false).1 from hkept)
        (hadmits (Bool.eq_false_iff.mpr hincluded) hformed)
      rw [hnext]
      refine ⟨_, rfl, ?_⟩
      split
      · exact hkeptNext.sendTriggeredRouteUpdate delay
      · exact hkeptNext
    · exact ⟨_, rfl, hkept⟩

/-! ## Interfaces and timers -/

theorem invalidateWhere_kept (hword : cfg.linkDown < 2 ^ 8)
    (hkept : Kept cfg rip) (chosen : RipRoutingTableEntry → Bool) :
    ∃ next, invalidateWhere cfg rip chosen = .ok next ∧ Kept cfg next := by
  unfold invalidateWhere
  generalize range rip.routes.length = places
  induction places generalizing rip with
  | nil => exact ⟨rip, rfl, hkept⟩
  | cons place rest ih =>
    rw [foldlM_cons]
    cases hroute : rip.routes[place]? with
    | none => exact ih hkept
    | some route =>
      dsimp only
      split
      · obtain ⟨next, hnext, hkeptNext, -⟩ :=
          invalidateRoute_kept hword (hkept.but (some place)) hroute
        rw [hnext]
        exact ih hkeptNext
      · exact ih hkept

theorem KeptBut.sendTriggeredUnless (hkept : Kept cfg rip) (excluded : Bool)
    (delay : Nat) : Kept cfg (if excluded then rip else rip.sendTriggeredRouteUpdate delay) := by
  split
  · exact hkept
  · exact hkept.sendTriggeredRouteUpdate delay

theorem notifyInterfaceDown_kept (hword : cfg.linkDown < 2 ^ 8)
    (hkept : Kept cfg rip) (interface delay : Nat) :
    ∃ next, notifyInterfaceDown cfg rip interface delay = .ok next ∧ Kept cfg next := by
  obtain ⟨next, hnext, hkeptNext⟩ := invalidateWhere_kept hword hkept fun entry =>
    decide (entry.interface = interface)
  unfold notifyInterfaceDown
  rw [hnext]
  exact ⟨_, rfl, hkeptNext.sendTriggeredUnless ..⟩

theorem notifyRemoveAddress_kept (hword : cfg.linkDown < 2 ^ 8) (hkept : Kept cfg rip) (isUp : Bool)
    (interface : Nat) (address : ScopedAddress) (delay : Nat) :
    ∃ next,
      notifyRemoveAddress cfg rip isUp interface address delay = .ok next ∧ Kept cfg next := by
  unfold notifyRemoveAddress
  split
  · exact ⟨_, rfl, hkept⟩
  · obtain ⟨next, hnext, hkeptNext⟩ := invalidateWhere_kept hword hkept fun entry =>
      decide (entry.interface = interface) && entry.isNetwork &&
        decide (entry.dest = address.localAddr.combineMask address.mask) &&
          decide (entry.destNetworkMask = address.mask)
    dsimp only
    rw [hnext]
    exact ⟨_, rfl, hkeptNext.sendTriggeredUnless ..⟩

theorem KeptBut.addNetworks (hkept : Kept cfg rip) (interface : Nat) (globals : List ScopedAddress)
    (hlink : ∀ address ∈ globals, 1 < cfg.linkDown) :
    Kept cfg (globals.foldl (fun rip address => rip.addNetworkRouteTo
            (address.localAddr.combineMask address.mask) address.mask Ipv4Address.getAny interface)
        rip) := by
  induction globals generalizing rip with
  | nil => exact hkept
  | cons address rest ih =>
    apply ih
    · exact addNetworkRouteTo_kept hkept (hlink address mem_cons_self) ..
    · exact fun other hmem => hlink other (.tail _ hmem)

theorem KeptBut.sendTriggereds (hkept : Kept cfg rip) (globals : List ScopedAddress) (delay :
    Nat) : Kept cfg (globals.foldl (fun rip _ => rip.sendTriggeredRouteUpdate delay) rip) := by
  induction globals generalizing rip with
  | nil => exact hkept
  | cons address rest ih => exact ih (hkept.sendTriggeredRouteUpdate delay)

theorem notifyInterfaceUp_kept (hkept : Kept cfg rip) (interface : Nat)
    {addresses : List ScopedAddress}
    (hadmits : ∀ address ∈ addresses, address.scope = .global → 1 < cfg.linkDown) (delay : Nat) :
    Kept cfg (rip.notifyInterfaceUp interface addresses delay) := by
  have hglobals : ∀ address ∈ addresses.filter (fun address => decide (address.scope = .global)),
      1 < cfg.linkDown := by
    intro address hmem
    obtain ⟨hin, hscope⟩ := mem_filter.mp hmem
    exact hadmits address hin (of_decide_eq_true hscope)
  unfold notifyInterfaceUp
  dsimp only
  generalize addresses.filter _ = globals at hglobals ⊢
  have hadded := hkept.addNetworks interface globals hglobals
  split
  · exact hadded.sendTriggereds globals delay
  · exact hadded

theorem notifyAddAddress_kept (hkept : Kept cfg rip) (isUp : Bool) (interface : Nat)
    {address : ScopedAddress} (hadmits : address.scope = .global → 1 < cfg.linkDown)
    (delay : Nat) : Kept cfg (rip.notifyAddAddress cfg isUp interface address delay) := by
  unfold notifyAddAddress
  split
  · exact hkept
  · apply KeptBut.sendTriggeredRouteUpdate
    split
    next hglobal => exact addNetworkRouteTo_kept hkept (hadmits hglobal) ..
    · exact hkept

theorem Timers.exists_route (htimers : Timers rip) {uid pointer : Nat}
    {event : PendingEvent RipAction} (hlook : rip.events.pending.lookup uid = some event)
    (hptr : event.action.pointer? = some pointer) :
    ∃ (place : Nat) (route : RipRoute),
      rip.routes[place]? = some route ∧ route.pointer = pointer ∧ route.event = some uid := by
  have hmem := htimers.slotted.owned uid event pointer hlook hptr
  obtain ⟨route, hroute, hsame⟩ := mem_map.mp hmem
  obtain ⟨place, hplace⟩ := mem_iff_getElem?.mp hroute
  obtain ⟨hname, hev⟩ := Prod.mk.inj hsame
  exact ⟨place, route, hplace, hname, hev⟩

theorem expire_kept (hword : cfg.linkDown < 2 ^ 8) (hkept : Kept cfg rip)
    (uid delay : Nat) : ∃ next, rip.expire cfg uid delay = .ok next ∧ Kept cfg next := by
  unfold expire
  split
  · exact ⟨_, rfl, hkept⟩
  next event hlook =>
    dsimp only
    -- the route of the event is open until its handler has run
    have hopen : ∀ pointer, event.action.pointer? = some pointer →
        ∃ (place : Nat) (route : RipRoute), rip.routes[place]? = some route ∧
          route.pointer = pointer ∧ route.event = some uid ∧
            KeptBut cfg (some place) { rip with events := rip.events.drop uid } := by
      intro pointer hptr
      obtain ⟨place, route, hroute, hname, hev⟩ := hkept.exists_route hlook hptr
      refine ⟨place, route, hroute, hname, hev, (hkept.but (some place)).drop hroute ?_⟩
      intro other hother
      obtain rfl := Option.some.inj (hlook.symm.trans hother)
      rw [hname]
      exact hptr
    have hforeign : event.action.pointer? = none →
        Kept cfg { rip with events := rip.events.drop uid } := by
      intro hnone
      refine hkept.dropForeign fun other hother => ?_
      obtain rfl := Option.some.inj (hlook.symm.trans hother)
      exact hnone
    cases haction : event.action with
    | invalidateRoute pointer =>
      obtain ⟨place, route, hroute, rfl, -, hbut⟩ := hopen pointer (by rw [haction]; rfl)
      obtain ⟨next, hnext, hkeptNext, -⟩ := invalidateRoute_kept hword hbut hroute
      exact ⟨next, hnext, hkeptNext⟩
    | deleteRoute pointer =>
      obtain ⟨place, route, hroute, rfl, hev, hbut⟩ := hopen pointer (by rw [haction]; rfl)
      refine deleteRoute_kept hbut hroute ?_
      dsimp only
      rw [hev, find_some, lookup_drop]
      exact if_pos rfl
    | doSendRouteUpdate periodic =>
      exact ⟨_, rfl, (hforeign (by rw [haction]; rfl)).doSendRouteUpdate⟩
    | sendUnsolicitedRouteUpdate =>
      exact ⟨_, rfl, (hforeign (by rw [haction]; rfl)).sendUnsolicitedRouteUpdate delay⟩
    | sendRouteRequest => exact ⟨_, rfl, hforeign (by rw [haction]; rfl)⟩

/-! ## Runs -/

/-- No response refreshes a dead route, and a connected network is nearer than a dead link. -/
def admits (cfg : RipConfig) (rip : Rip) (input : RipInput) : Bool :=
  match input.event with
  | .response rtes senderAddress incomingInterface _ =>
    cfg.isExcluded incomingInterface || !rtes.all cfg.isWellFormed ||
      admitsRtes cfg senderAddress incomingInterface rtes
        ({ rip with now := input.now }, false)
  | .interfaceUp _ addresses _ =>
    addresses.all fun address => decide (address.scope ≠ .global) || decide (1 < cfg.linkDown)
  | .addAddress _ _ address _ =>
    decide (address.scope ≠ .global) || decide (1 < cfg.linkDown)
  | .addDefaultRouteTo _ _ => decide (1 < cfg.linkDown)
  | _ => true

theorem step_kept (hword : cfg.linkDown < 2 ^ 8)
    (hkept : Kept cfg rip) {input : RipInput} (hadmits : admits cfg rip input = true) :
    ∃ next, (machine cfg).step rip input = .ok next ∧ Kept cfg next := by
  have hnow : Kept cfg { rip with now := input.now } :=
    ⟨⟨hkept.slotted, hkept.fresh, hkept.triggered⟩, hkept.others⟩
  change ∃ next, handle cfg { rip with now := input.now } input.event = .ok next ∧ _
  obtain ⟨now, event⟩ := input
  have hscope {address : ScopedAddress} (hcheck : (decide (address.scope ≠ .global) ||
      decide (1 < cfg.linkDown)) = true) (hglobal : address.scope = .global) :
      1 < cfg.linkDown := by
    simpa [hglobal] using hcheck
  cases event with
  | doInitialize => exact ⟨_, rfl, hnow.doInitialize ..⟩
  | response rtes senderAddress incomingInterface delay =>
    refine handleResponses_kept hword hnow delay fun hincluded hformed => ?_
    simpa [admits, hincluded, hformed] using hadmits
  | interfaceUp interface addresses delay =>
    refine ⟨_, rfl, notifyInterfaceUp_kept hnow interface (fun address hmem => ?_) delay⟩
    exact hscope (all_eq_true.mp hadmits address hmem)
  | interfaceDown interface delay => exact notifyInterfaceDown_kept hword hnow interface delay
  | addAddress isUp interface address delay =>
    exact ⟨_, rfl, notifyAddAddress_kept hnow isUp interface (hscope hadmits) delay⟩
  | removeAddress isUp interface address delay =>
    exact notifyRemoveAddress_kept hword hnow isUp interface address delay
  | addDefaultRouteTo nextHop interface =>
    exact ⟨_, rfl, addNetworkRouteTo_kept hnow (of_decide_eq_true hadmits) ..⟩
  | expire uid delay => exact expire_kept hword hnow uid delay

structure TableConsistent (cfg : RipConfig) (rip : Rip) : Prop where
  valid_iff : ∀ route ∈ rip.routes,
    route.entry.status = .valid ↔ route.entry.metric < cfg.linkDown
  lookup_lt : ∀ dst interface entry, rip.lookup dst interface = some entry →
    entry.metric < cfg.linkDown
  garbage : ∀ route ∈ rip.routes, route.entry.status = .invalid →
    (rip.events.find route.event).map PendingEvent.action = some (.deleteRoute route.pointer)
  timeout : ∀ route ∈ rip.routes, route.entry.status = .valid → route.learned = true →
    (rip.events.find route.event).map PendingEvent.action = some (.invalidateRoute route.pointer)
  single : ∀ uid other event later pointer, rip.events.pending.lookup uid = some event →
    rip.events.pending.lookup other = some later → event.action.pointer? = some pointer →
      later.action.pointer? = some pointer → uid = other
  present : ∀ uid event pointer, rip.events.pending.lookup uid = some event →
    event.action.pointer? = some pointer → ∃ route ∈ rip.routes, route.pointer = pointer
  runs : ∀ input, admits cfg rip input = true →
    ∃ next, (machine cfg).step rip input = .ok next

theorem exists_of_lookup {dst : Ipv4Address} {interface : Option Nat}
    {entry : RipRoutingTableEntry} (hlook : rip.lookup dst interface = some entry) :
    ∃ route ∈ rip.routes, route.entry = entry ∧ entry.status = .valid := by
  revert hlook
  unfold lookup
  dsimp only
  refine foldlRecOn (motive := fun best : Option RipRoutingTableEntry × Nat =>
    best.1 = some entry → ∃ route ∈ rip.routes, route.entry = entry ∧ entry.status = .valid)
    rip.routes _ ?_ ?_
  · exact nofun
  · intro best hbest route hmem hent
    split at hent
    next hmatch =>
      split at hent
      · exact hbest hent
      · cases hent
        exact ⟨route, hmem, rfl, hmatch.1⟩
    · exact hbest hent

theorem KeptBut.consistent (hword : cfg.linkDown < 2 ^ 8)
    (hkept : Kept cfg rip) : TableConsistent cfg rip := by
  have hroutes : ∀ route ∈ rip.routes, RouteKept cfg rip.events route := by
    intro route hmem
    obtain ⟨place, hplace⟩ := mem_iff_getElem?.mp hmem
    exact hkept.kept hplace
  have hvalid : ∀ route ∈ rip.routes,
      (route.entry.status = .valid ↔ route.entry.metric < cfg.linkDown) := by
    intro route hmem
    refine ⟨(hroutes route hmem).valid, fun hlt => ?_⟩
    cases hstatus : route.entry.status with
    | valid => rfl
    | invalid => exact absurd ((hroutes route hmem).invalid hstatus) (ne_of_lt hlt)
  refine ⟨hvalid, ?_, fun route hmem => (hroutes route hmem).garbage,
    fun route hmem => (hroutes route hmem).timeout, ?_, ?_, ?_⟩
  · intro dst interface entry hlook
    obtain ⟨route, hmem, rfl, hstatus⟩ := exists_of_lookup hlook
    exact (hvalid route hmem).mp hstatus
  · intro uid other event later pointer hlook hother hptr hsame
    exact hkept.slotted.single hlook hother hptr hsame
  · intro uid event pointer hlook hptr
    obtain ⟨place, route, hroute, hname, -⟩ := hkept.exists_route hlook hptr
    exact ⟨route, mem_of_getElem? hroute, hname⟩
  · intro input hadmits
    obtain ⟨next, hnext, -⟩ := step_kept hword hkept hadmits
    exact ⟨next, hnext⟩

theorem initial_kept (cfg : RipConfig) : Kept cfg initial where
  slotted := .empty _
  fresh _ hmem := nomatch hmem
  triggered _ htrig := nomatch htrig
  others _ _ hroute := nomatch hroute

/-- In a run in which no response refreshes a dead route the table stays consistent. -/
theorem tableConsistent_of_admitted (hlink : cfg.linkDown ≤ 255)
    (hreach : (machine cfg).ReachableUnder (fun rip input => admits cfg rip input = true) rip) :
    TableConsistent cfg rip := by
  have hword : cfg.linkDown < 2 ^ 8 := Nat.lt_succ_of_le hlink
  refine KeptBut.consistent hword (hreach.invariant (initial_kept cfg) ?_)
  intro rip input next hkept hadmits hstep
  obtain ⟨after, hafter, hkeptAfter⟩ := step_kept hword hkept hadmits
  obtain rfl := Except.ok.inj (hafter.symm.trans hstep)
  exact hkeptAfter

/-! ## A network that goes away -/

def defaults : RipConfig where
  timeoutDelay := 180000000000
  garbageCollectionDelay := 120000000000
  linkDown := 16
  interfaceExclusions := []
  interfaceMetrics := ∅

def inTime (rip : Rip) (input : RipInput) : Bool :=
  decide (rip.now ≤ input.now) &&
    rip.events.pending.entries.all (fun entry => decide (input.now ≤ entry.2.due)) &&
      match input.event with
      | .expire uid _ =>
        (rip.events.pending.lookup uid).any fun event => decide (event.due = input.now)
      | _ => true

def announced (seconds metric : Nat) : RipInput where
  now := seconds * 1000000000
  event := .response [⟨0x0a010000, 0xffff0000, 0, metric⟩] 0x0a000002 1 1000000000

def ran (seconds uid : Nat) : RipInput where
  now := seconds * 1000000000
  event := .expire uid 0

def learnedAndLost : List RipInput :=
  [announced 10 1, ran 11 1, announced 40 16, ran 41 3]

theorem tableConsistent_of_admitted_lost :
    let rip := (machine defaults).after (admits defaults) learnedAndLost initial
    TableConsistent defaults rip ∧
      rip.routes.map (fun route => (route.entry.status, route.entry.metric)) =
        [(.invalid, 16)] := by
  intro rip
  refine ⟨?_, by decide +kernel⟩
  apply tableConsistent_of_admitted (by decide)
  exact Transition.Machine.ReachableUnder.after (fun _ _ h => h) learnedAndLost .init

/-- The gateway repeats that the network is unreachable: the deletion of the route is cancelled,
and the next event invalidates it again. -/
theorem garbage_cancelled :
    let rip := (machine defaults).after inTime (learnedAndLost ++ [announced 70 16]) initial
    (machine defaults).ReachableUnder (fun rip input => inTime rip input = true) rip ∧
      rip.routes.map (fun route => (route.entry.status, route.entry.metric,
        (rip.events.find route.event).map fun event => (event.due, event.action))) =
          [(.invalid, 16, some (250000000000, .invalidateRoute 0))] ∧
      ¬ TableConsistent defaults rip := by
  intro rip
  have hst : rip.routes.map (fun route => (route.entry.status, route.entry.metric,
      (rip.events.find route.event).map fun event => (event.due, event.action))) =
        [(.invalid, 16, some (250000000000, .invalidateRoute 0))] := by decide +kernel
  refine ⟨Transition.Machine.ReachableUnder.after (fun _ _ h => h) _ .init, hst, fun hrip => ?_⟩
  obtain ⟨route, hmem, hroute⟩ := List.mem_map.mp (hst ▸ List.mem_singleton.mpr rfl)
  obtain ⟨hstatus, hrest⟩ := Prod.mk.inj hroute
  have hev := (Prod.mk.inj hrest).2
  have hdelete := hrip.garbage route hmem hstatus
  cases hfind : rip.events.find route.event with
  | none =>
    rw [hfind] at hdelete
    cases hdelete
  | some event =>
    rw [hfind] at hev hdelete
    have haction := (Prod.mk.inj (Option.some.inj hev)).2
    rw [Option.map_some, haction] at hdelete
    cases hdelete

end HomaSird.Internet.Rip
