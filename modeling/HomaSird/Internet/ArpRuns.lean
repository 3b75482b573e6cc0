import HomaSird.Internet.ArpResolution

/-! # Runs of ARP lookups, replies and timers

Between two calls a timer is pending that is due before any waiting entry expires. When it runs,
each such entry is asked for again or dies, and the timer starts again while one is left.
-/

namespace HomaSird.Internet.ArpCache

open EventTable Transition ArpAction ArpCacheEntry List

variable {Datagram : Type} {cfg : ArpConfig} {dest other : Ipv4Address}
  {cache next : ArpCache Datagram} {entry : ArpCacheEntry Datagram} {datagram : Datagram}

def Timed (cfg : ArpConfig) (cache : ArpCache Datagram) (moment : Nat) : Prop :=
  ∃ event, cache.events.find cache.waitReplyTimer = some event ∧
    event.due ≤ moment + cfg.waitReplyTimeout

structure Kept (cfg : ArpConfig) (cache : ArpCache Datagram) : Prop where
  core : Core cfg (fun _ => Timed cfg cache) cache
  slotted : Slotted ArpAction.timer? cache.events [((), cache.waitReplyTimer)]
  due : ∀ event, cache.events.find cache.waitReplyTimer = some event →
    event.due ≤ cache.now + cfg.waitReplyTimeout

def TimerStays (before after : ArpCache Datagram) : Prop :=
  ∀ event, before.events.find before.waitReplyTimer = some event →
    after.events.find after.waitReplyTimer = some event

theorem Timed.stays (hstays : TimerStays cache next)
    {moment : Nat} (htimed : Timed cfg cache moment) : Timed cfg next moment := by
  obtain ⟨event, hfind, hdue⟩ := htimed
  exact ⟨event, hstays event hfind, hdue⟩

/-! ## The timer -/

theorem startWaitReplyTimer_kept
    (hslot : Slotted timer? cache.events [((), cache.waitReplyTimer)])
    (hdue : ∀ event, cache.events.find cache.waitReplyTimer = some event →
      event.due ≤ cache.now + cfg.waitReplyTimeout) :
    let started := cache.startWaitReplyTimer cfg
    Slotted timer? started.events [((), started.waitReplyTimer)] ∧
      (∃ event, started.events.find started.waitReplyTimer = some event) ∧
      (∀ event, started.events.find started.waitReplyTimer = some event →
        event.due ≤ cache.now + cfg.waitReplyTimeout) ∧
      TimerStays cache started ∧ started.now = cache.now ∧
      started.arpCache = cache.arpCache ∧ started.log = cache.log := by
  intro started
  by_cases hrun : cache.events.isRunning cache.waitReplyTimer = true
  · have hsame : started = cache := if_pos hrun
    rw [hsame]
    exact ⟨hslot, Option.isSome_iff_exists.mp hrun, hdue, fun _ hfind => hfind, rfl, rfl,
      rfl⟩
  · have hidle : cache.events.find cache.waitReplyTimer = none := by
      rw [isRunning, Bool.not_eq_true, Option.isSome_eq_false_iff, Option.isNone_iff_eq_none]
        at hrun
      exact hrun
    have hstart : started = { cache with
        waitReplyTimer := some (cache.events.schedule cache.now cfg.waitReplyTimeout
          .handleWaitReplyTimeout).1
        events := (cache.events.schedule cache.now cfg.waitReplyTimeout
          .handleWaitReplyTimeout).2 } := if_neg hrun
    have hfound : started.events.find started.waitReplyTimer =
        some ⟨cache.now + cfg.waitReplyTimeout, .handleWaitReplyTimeout⟩ := by
      rw [hstart]
      exact find_schedule_self ..
    refine ⟨?_, ⟨_, hfound⟩, fun event hev => ?_, fun event hev => ?_, ?_, ?_, ?_⟩
    · rw [hstart]
      exact @Slotted.arm _ _ _ _ _ _ [] [] _ _ hslot hidle (.inl rfl) _ _ rfl
    · obtain rfl := Option.some.inj (hfound.symm.trans hev)
      exact le_rfl
    · rw [hidle] at hev
      cases hev
    all_goals rw [hstart]

/-! ## Lookups -/

def NotOverdue (cache : ArpCache Datagram) : Prop :=
  ∀ uid event, cache.events.pending.lookup uid = some event → cache.now ≤ event.due

theorem Kept.change (hkept : Kept cfg cache) {seen : List (ArpEvent Datagram)}
    (hdiff : Changed dest entry seen cache next) (hstays : TimerStays cache next)
    (hent : ArpEntryKept cfg next.log (Timed cfg next) dest entry)
    (hacct : Accounted next.log dest entry.pending)
    (hdied : ∀ (place : Nat) (target : Ipv4Address), seen[place]? ≠ some (.dead target))
    (hslot : Slotted timer? next.events [((), next.waitReplyTimer)])
    (hdue : ∀ event, next.events.find next.waitReplyTimer = some event →
      event.due ≤ next.now + cfg.waitReplyTimeout) : Kept cfg next where
  core := hkept.core.change hdiff (fun _ _ _ htimed => htimed.stays hstays) hent hacct
    fun place target hplace => absurd hplace (hdied place target)
  slotted := hslot
  due := hdue

theorem Changed.set (dest : Ipv4Address) (stored : ArpCacheEntry Datagram)
    (seen : List (ArpEvent Datagram)) (hlog : next.log = cache.log ++ seen)
    (hcache : next.arpCache = cache.arpCache.insert dest stored)
    (habout : ∀ event ∈ seen, event.about = some dest) : Changed dest stored seen cache next where
  log := hlog
  lookup other := by
    rw [hcache]
    exact UnorderedMap.lookup_insert ..
  silent _ hne := .of_about habout hne

theorem Kept.not_expired (hkept : Kept cfg cache)
    (hfuture : NotOverdue cache) (hent : cache.arpCache.lookup dest = some entry)
    (hwait : entry.state = .waitReply) : entry.isExpired cfg cache.now = false := by
  obtain ⟨event, hfind, hdue⟩ := (hkept.core.entries dest entry hent).waits hwait
  obtain ⟨uid, -, hlook⟩ := Option.bind_eq_some_iff.mp hfind
  have hnow := hfuture uid event hlook
  rw [isExpired, getTimeout, hwait]
  simp only [Option.any_some, decide_eq_false_iff_not]
  omega

theorem waitForReply_kept (hkept : Kept cfg cache)
    (hst : entry.state = .alive ∨ entry.state = .dead) (hpend : entry.pending = [])
    (hretry : entry.retries = 0) (haddr : entry.ipv4Address = dest)
    (hnone : cache.pendingOf dest = []) (jitter : Nat) :
    ∃ next,
      cache.waitForReply cfg dest entry datagram jitter = .ok next ∧
        Kept cfg (next.note [.unresolved dest datagram]) := by
  have hmark : ¬(entry.state ≠ .alive ∧ entry.state ≠ .dead) := by
    rintro ⟨halive, hdead⟩
    exact hst.elim halive hdead
  unfold waitForReply markWaitReply
  rw [if_neg hmark, if_neg (by simp [hpend])]
  refine ⟨_, rfl, ?_⟩
  generalize hmarked : ({ entry with
    state := .waitReply, pending := entry.pending ++ [datagram], lastSeen := cache.now } :
      ArpCacheEntry Datagram) = marked
  obtain ⟨hslot, ⟨event, hev⟩, hdue, hstays, hnow, hcache, hlog⟩ :=
    @startWaitReplyTimer_kept _ cfg ((cache.setEntry dest marked).note [.waiting dest])
      hkept.slotted hkept.due
  generalize ArpCache.startWaitReplyTimer cfg _ = started at *
  -- the jittered request is another event than the timer
  have hfind : (started.events.schedule started.now jitter (.sendArpRequest dest)).2.find
      started.waitReplyTimer = started.events.find started.waitReplyTimer :=
    hslot.find_schedule (mem_singleton.mpr rfl) ..
  have hacct := hkept.core.accounted dest
  rw [hnone] at hacct
  -- announcing the wait accounts for no datagram
  have hempty : Accounted (cache.log ++ [.waiting dest]) dest [] := by
    refine hacct.unconcerned fun event hmem => ?_
    obtain rfl := mem_singleton.mp hmem
    exact ⟨rfl, rfl, rfl⟩
  have hlogNext : started.log ++ [.unresolved dest datagram] =
      cache.log ++ [.waiting dest, .unresolved dest datagram] := by
    rw [hlog]
    exact append_assoc ..
  have hdiff : Changed dest marked [.waiting dest, .unresolved dest datagram] cache
      (ArpCache.note { started with
        events := (started.events.schedule started.now jitter (.sendArpRequest dest)).2 }
          [.unresolved dest datagram]) := by
    refine ⟨hlogNext, fun other => ?_, fun other hne => .of_about (fun event hmem => ?_) hne⟩
    · change started.arpCache.lookup other = _
      rw [hcache]
      exact UnorderedMap.lookup_insert ..
    · rcases mem_cons.mp hmem with rfl | hlast
      · rfl
      · obtain rfl := mem_singleton.mp hlast
        rfl
  refine hkept.change hdiff ?_ ?_ ?_ ?_ ?_ ?_
  · intro event hev
    exact hfind.trans (hstays event hev)
  · subst hmarked
    refine ⟨haddr, fun _ => ⟨event, hfind.trans hev, hdue event hev⟩,
      fun hidle => absurd rfl hidle, nofun, ?_, fun _ => ?_⟩
    · change entry.retries ≤ _
      rw [hretry]
      exact Nat.zero_le _
    · change entry.retries = retransmissions dest (started.log ++ _)
      rw [hlogNext, retransmissions_append, hretry]
      simp [ArpEvent.recount]
  · change Accounted (started.log ++ _) dest marked.pending
    rw [hlogNext, ← hmarked, hpend]
    have hqueued := hempty.queue datagram
    rw [append_assoc] at hqueued
    exact hqueued
  · intro place target hplace
    have hmem := mem_of_getElem? hplace
    simp at hmem
  · exact hslot.schedule started.now jitter rfl
  · intro later hlater
    change _ ≤ started.now + _
    rw [hnow]
    exact hdue later (hfind.symm.trans hlater)

theorem pendingOf_of_lookup (hent : cache.arpCache.lookup dest = some entry) :
    cache.pendingOf dest = entry.pending := by
  rw [pendingOf, hent]
  rfl

structure Untimed (cache next : ArpCache Datagram) : Prop where
  now_eq : next.now = cache.now
  timer_eq : next.waitReplyTimer = cache.waitReplyTimer
  events_eq : next.events = cache.events

theorem Kept.queue (hkept : Kept cfg cache) {seen : List (ArpEvent Datagram)}
    {pending : List Datagram} (hent : cache.arpCache.lookup dest = some entry)
    (hdiff : Changed dest { entry with pending } seen cache next) (huntimed : Untimed cache next)
    (hidle : entry.state ≠ .waitReply → pending = [])
    (hcnt : retransmissions dest next.log = retransmissions dest cache.log)
    (halive : ∀ (place : Nat) (target : Ipv4Address), seen[place]? ≠ some (.dead target))
    (hacct : Accounted next.log dest pending) :
    Kept cfg next := by
  have hpre := hkept.core.entries dest entry hent
  have hstays : TimerStays cache next := by
    intro event hfind
    rw [huntimed.events_eq, huntimed.timer_eq]
    exact hfind
  apply hkept.change hdiff hstays ?_ hacct halive
  · rw [huntimed.events_eq, huntimed.timer_eq]
    exact hkept.slotted
  · rw [huntimed.events_eq, huntimed.timer_eq, huntimed.now_eq]
    exact hkept.due
  · exact ⟨hpre.address, fun hwait => (hpre.waits hwait).stays hstays,
      fun hrest => ⟨hidle hrest, (hpre.idle hrest).2⟩, hpre.resolvable, hpre.retries,
      fun hwait => (hpre.counted hwait).trans hcnt.symm⟩

theorem Kept.refuse (hkept : Kept cfg cache)
    (hent : cache.arpCache.lookup dest = some entry) (datagram : Datagram) :
    Kept cfg ((cache.note [.dropped dest datagram]).note [.unresolved dest datagram]) := by
  have hlog : ((cache.note [.dropped dest datagram]).note [.unresolved dest datagram]).log =
      cache.log ++ [.dropped dest datagram, .unresolved dest datagram] :=
    append_assoc ..
  refine @Kept.queue _ _ _ _ _ _ hkept [.dropped dest datagram, .unresolved dest datagram]
    entry.pending hent ?_ ?_ ?_ ?_ ?_ ?_
  · refine ⟨hlog, fun other => ?_, fun other hne => .of_about (fun event hmem => ?_) hne⟩
    · split
      next heq =>
        rw [heq]
        exact hent
      · rfl
    · rcases mem_pair.mp hmem with rfl | rfl
      · rfl
      · rfl
  · exact ⟨rfl, rfl, rfl⟩
  · exact fun hrest => ((hkept.core.entries dest entry hent).idle hrest).1
  · rw [hlog, retransmissions_append]
    rfl
  · intro place target hplace
    have hmem := mem_of_getElem? hplace
    simp at hmem
  · have hacct := hkept.core.accounted dest
    rw [pendingOf_of_lookup hent] at hacct
    exact hacct.refuse datagram

theorem Kept.join (hkept : Kept cfg cache) (hent : cache.arpCache.lookup dest = some entry)
    (hwait : entry.state = .waitReply) (datagram : Datagram) :
    Kept cfg ((cache.setEntry dest { entry with pending := entry.pending ++ [datagram] }).note
        [.unresolved dest datagram]) := by
  refine @Kept.queue _ _ _ _ _ _ hkept [.unresolved dest datagram]
    (entry.pending ++ [datagram]) hent ?_ ?_ ?_ ?_ ?_ ?_
  · refine .set dest _ _ rfl rfl fun event hmem => ?_
    obtain rfl := mem_singleton.mp hmem
    rfl
  · exact ⟨rfl, rfl, rfl⟩
  · exact fun hrest => absurd hwait hrest
  · exact retransmissions_append ..
  · intro place target hplace
    have hmem := mem_of_getElem? hplace
    simp at hmem
  · have hacct := hkept.core.accounted dest
    rw [pendingOf_of_lookup hent] at hacct
    exact hacct.queue datagram

theorem lookup_kept (hkept : Kept cfg cache) (hfuture : NotOverdue cache) (datagram : Datagram)
    (dest : Ipv4Address) (jitter : Nat) :
    ∃ answer next, cache.lookup cfg datagram dest jitter = .ok (answer, next) ∧ Kept cfg next := by
  -- an entry that does not wait may start to
  have hwaits : ∀ entry : ArpCacheEntry Datagram, entry.state = .alive ∨ entry.state = .dead →
      entry.pending = [] → entry.retries = 0 → entry.ipv4Address = dest →
      cache.pendingOf dest = [] →
      ∃ next, cache.waitForReply cfg dest entry datagram jitter = .ok next ∧
        Kept cfg (next.note [.unresolved dest datagram]) := by
    intro entry hst hpend hretry haddr hnone
    exact waitForReply_kept hkept hst hpend hretry haddr hnone jitter
  unfold lookup find
  cases hent : cache.arpCache.lookup dest with
  | none =>
    obtain ⟨next, hok, hnext⟩ := hwaits (.create dest) (.inl rfl) rfl rfl rfl
      (by rw [pendingOf, hent]; rfl)
    exact ⟨none, _, by simp [hok, bind, Except.bind], hnext⟩
  | some entry =>
    have hpre := hkept.core.entries dest entry hent
    dsimp only
    cases hst : entry.state with
    | alive =>
      obtain ⟨hpend, hretry⟩ := hpre.idle (by rw [hst]; nofun)
      obtain ⟨next, hok, hnext⟩ := hwaits entry (.inl hst) hpend hretry
        hpre.address (by rw [pendingOf_of_lookup hent, hpend])
      by_cases hexp : entry.isExpired cfg cache.now = true
      · exact ⟨none, _, by simp [hexp, hok, bind, Except.bind], hnext⟩
      · exact ⟨some entry.macAddress, cache, by simp [hexp, bind, Except.bind], hkept⟩
    | dead =>
      obtain ⟨hpend, hretry⟩ := hpre.idle (by rw [hst]; nofun)
      obtain ⟨next, hok, hnext⟩ := hwaits entry (.inr hst) hpend hretry
        hpre.address (by rw [pendingOf_of_lookup hent, hpend])
      by_cases hexp : entry.isExpired cfg cache.now = true
      · exact ⟨none, _, by simp [hexp, hok, bind, Except.bind], hnext⟩
      · exact ⟨none, _, by simp [hexp, bind, Except.bind], hkept.refuse hent datagram⟩
    | waitReply =>
      have hexp := hkept.not_expired hfuture hent hst
      by_cases hfull : entry.pending.length ≥ cfg.pendingQueueSize
      · refine ⟨none, _, ?_, hkept.refuse hent datagram⟩
        simp [hexp, updateWaitReply, hst, hfull, bind, Except.bind]
      · refine ⟨none, _, ?_, hkept.join hent hst datagram⟩
        simp [hexp, updateWaitReply, hst, hfull, bind, Except.bind]
    | permanent => exact absurd hst hpre.resolvable

/-! ## Replies -/

theorem Kept.note (hkept : Kept cfg cache) {seen : List (ArpEvent Datagram)}
    (hsilent : ∀ dest, SilentOn dest seen) : Kept cfg (cache.note seen) where
  core := hkept.core.note hsilent
  slotted := hkept.slotted
  due := hkept.due

theorem silentOn_singleton {event : ArpEvent Datagram} (hnone : event.about = none)
    (dest : Ipv4Address) : SilentOn dest [event] := by
  intro seen hmem
  rw [mem_singleton.mp hmem, hnone]
  nofun

theorem handleReply_kept (hkept : Kept cfg cache)
    (arp : ArpHeader) : ∃ next, cache.handleReply arp = .ok next ∧ Kept cfg next := by
  have hdrop : Kept cfg (cache.note [.replyDropped arp]) := hkept.note (silentOn_singleton rfl)
  unfold handleReply
  cases hent : cache.arpCache.lookup arp.ipv4Source with
  | none => exact ⟨_, rfl, hdrop⟩
  | some entry =>
    dsimp only
    by_cases hwait : entry.state = .waitReply
    · rw [if_pos hwait, markAlive, if_pos hwait]
      refine ⟨_, rfl, ?_⟩
      have hpre := hkept.core.entries _ entry hent
      have hacct := hkept.core.accounted arp.ipv4Source
      rw [pendingOf_of_lookup hent] at hacct
      refine hkept.change (.set arp.ipv4Source
        ⟨.alive, 0, some arp.macSource, entry.ipv4Address, cache.now, []⟩
        (entry.pending.map (.sent arp.ipv4Source)) rfl rfl fun event hmem => ?_)
        (fun _ hfind => hfind) ?_ ?_ ?_ ?_ ?_
      · obtain ⟨datagram, _, rfl⟩ := mem_map.mp hmem
        rfl
      · exact ⟨hpre.address, nofun, fun _ => ⟨rfl, rfl⟩, nofun, Nat.zero_le _, nofun⟩
      · exact hacct.flush
      · intro place target hplace
        obtain ⟨datagram, _, heq⟩ := mem_map.mp (mem_of_getElem? hplace)
        cases heq
      · exact hkept.slotted
      · exact hkept.due
    · rw [if_neg hwait]
      exact ⟨_, rfl, hdrop⟩

theorem receive_kept (hkept : Kept cfg cache)
    (arp : ArpHeader) (deviceAddress : MacAddress) (addresses : List Ipv4Address) :
    ∃ next, cache.receive arp deviceAddress addresses = .ok next ∧ Kept cfg next := by
  induction addresses with
  | nil => exact ⟨cache, rfl, hkept⟩
  | cons localAddr rest ih =>
    rw [receive]
    split
    · exact ⟨_, rfl, hkept.note (silentOn_singleton rfl)⟩
    · split
      · exact handleReply_kept hkept arp
      · exact ih

/-! ## The timer -/

/-- The entries still ahead of the loop have no timer, those asked for again were seen now. -/
def Visited (remaining : List Ipv4Address) (now : Nat) (restart : Bool) (dest : Ipv4Address)
    (moment : Nat) : Prop :=
  dest ∈ remaining ∨ restart = true ∧ moment = now

theorem Core.retime {timed later : Ipv4Address → Nat → Prop} (hcore : Core cfg timed cache)
    (hcache : next.arpCache = cache.arpCache) (hlog : next.log = cache.log) (htimed : ∀ dest entry,
    cache.arpCache.lookup dest = some entry → entry.state = .waitReply → timed dest entry.lastSeen →
    later dest entry.lastSeen) : Core cfg later next where
  entries dest entry hent := by
    rw [hcache] at hent
    rw [hlog]
    have hkept := hcore.entries dest entry hent
    exact ⟨hkept.address, fun hwait => htimed dest entry hent hwait (hkept.waits hwait),
      hkept.idle, hkept.resolvable, hkept.retries, hkept.counted⟩
  accounted dest := by
    rw [hlog, pendingOf, hcache]
    exact hcore.accounted dest
  died := hlog ▸ hcore.died

section

variable {remaining : List Ipv4Address} {restart : Bool}
  (hcore : Core cfg (Visited (dest :: remaining) cache.now restart) cache)
  (hent : cache.arpCache.lookup dest = some entry) (hwait : entry.state = .waitReply)
include hcore hent hwait

theorem Core.ask (hretry : entry.retries < cfg.maxRetries.toNat) :
    Core cfg (Visited remaining cache.now true) ((cache.note
        [.requested entry.ipv4Address true]).setEntry dest (entry.incrementRetries cache.now)) := by
  have hpre := hcore.entries dest entry hent
  have hnext : uint32 (entry.retries + 1) = entry.retries + 1 := by
    have hbd := cfg.maxRetries.toNat_lt
    exact uint32_of_lt (by omega)
  rw [hpre.address]
  refine hcore.change (.set dest (entry.incrementRetries cache.now) [.requested dest true] rfl rfl
    fun event hmem => ?_) ?_ ?_ ?_ ?_
  · rw [mem_singleton.mp hmem]
    rfl
  · rintro other moment hne (hlater | ⟨_, hseen⟩)
    · exact .inl ((mem_cons.mp hlater).resolve_left hne)
    · exact .inr ⟨rfl, hseen⟩
  · refine ⟨hpre.address, fun _ => .inr ⟨rfl, rfl⟩, fun hrest => absurd hwait hrest,
      hpre.resolvable, ?_, fun _ => ?_⟩
    · change uint32 (entry.retries + 1) ≤ _
      rw [hnext]
      exact hretry
    · change uint32 (entry.retries + 1) = retransmissions dest (cache.log ++ _)
      rw [hnext, hpre.counted hwait, retransmissions_append]
      simp [ArpEvent.recount]
  · have hacct := hcore.accounted dest
    rw [pendingOf_of_lookup hent] at hacct
    refine hacct.unconcerned fun event hmem => ?_
    rw [mem_singleton.mp hmem]
    exact ⟨rfl, rfl, rfl⟩
  · intro place target hplace
    have hmem := mem_of_getElem? hplace
    simp at hmem

theorem Core.die (hretry : ¬entry.retries < cfg.maxRetries.toNat) :
    Core cfg (Visited remaining cache.now restart) ((cache.setEntry dest
        { entry with state := .dead, retries := 0, lastSeen := cache.now, pending := [] }).note
        (.dead entry.ipv4Address :: entry.pending.map (.dropped entry.ipv4Address))) := by
  have hpre := hcore.entries dest entry hent
  have hmost : entry.retries = cfg.maxRetries.toNat :=
    Nat.le_antisymm hpre.retries (Nat.le_of_not_lt hretry)
  rw [hpre.address]
  refine hcore.change (.set dest
    ⟨.dead, 0, entry.macAddress, dest, cache.now, []⟩
    (.dead dest :: entry.pending.map (.dropped dest)) rfl rfl fun event hmem => ?_) ?_ ?_ ?_ ?_
  · rcases mem_cons.mp hmem with rfl | hdrop
    · rfl
    · obtain ⟨datagram, _, rfl⟩ := mem_map.mp hdrop
      rfl
  · rintro other moment hne (hlater | hseen)
    · exact .inl ((mem_cons.mp hlater).resolve_left hne)
    · exact .inr hseen
  · exact ⟨rfl, nofun, fun _ => ⟨rfl, rfl⟩, nofun, Nat.zero_le _, nofun⟩
  · have hacct := hcore.accounted dest
    rw [pendingOf_of_lookup hent] at hacct
    exact hacct.die
  · intro place target hplace
    cases place with
    | zero =>
      obtain rfl : dest = target := by simpa using hplace
      rw [take_zero, append_nil, ← hmost]
      exact (hpre.counted hwait).symm
    | succ place =>
      rw [getElem?_cons_succ] at hplace
      obtain ⟨datagram, _, heq⟩ := mem_map.mp (mem_of_getElem? hplace)
      cases heq

end

def visited (cfg : ArpConfig) (now : Nat) (entry : ArpCacheEntry Datagram) :
    ArpCacheEntry Datagram :=
  if entry.state = .waitReply then
    if entry.retries < cfg.maxRetries.toNat then entry.incrementRetries now
    else { entry with state := .dead, retries := 0, lastSeen := now, pending := [] }
  else entry

theorem visitWaiting_ok {state : ArpCache Datagram × Bool} {remaining : List Ipv4Address}
    (hcore : Core cfg (Visited (dest :: remaining) state.1.now state.2) state.1) :
    ∃ next,
      visitWaiting cfg state dest = .ok next ∧ Untimed state.1 next.1 ∧
        Core cfg (Visited remaining next.1.now next.2) next.1 ∧
        ∀ other, next.1.arpCache.lookup other =
          if other = dest then (state.1.arpCache.lookup dest).map (visited cfg state.1.now)
          else state.1.arpCache.lookup other := by
  obtain ⟨cache, restart⟩ := state
  have hidle (hnone : ∀ entry, cache.arpCache.lookup dest = some entry →
      entry.state ≠ .waitReply) : Core cfg (Visited remaining cache.now restart) cache := by
    apply hcore.retime rfl rfl
    rintro other entry hent hwait (hlater | hseen)
    · rcases mem_cons.mp hlater with rfl | hin
      · exact absurd hwait (hnone entry hent)
      · exact .inl hin
    · exact .inr hseen
  unfold visitWaiting
  dsimp only at hcore ⊢
  cases hent : cache.arpCache.lookup dest with
  | none =>
    refine ⟨_, rfl, ⟨rfl, rfl, rfl⟩, hidle (by rw [hent]; nofun), fun other => ?_⟩
    split
    next heq => rw [heq, hent]; rfl
    · rfl
  | some entry =>
    dsimp only
    by_cases hwait : entry.state = .waitReply
    · rw [if_pos hwait]
      by_cases hretry : entry.retries < cfg.maxRetries.toNat
      · rw [if_pos hretry]
        refine ⟨_, rfl, ⟨rfl, rfl, rfl⟩, hcore.ask hent hwait hretry, fun other => ?_⟩
        rw [Option.map_some, visited, if_pos hwait, if_pos hretry]
        exact UnorderedMap.lookup_insert ..
      · rw [if_neg hretry, markDead, if_neg (by rw [hwait]; nofun)]
        have hdead := hcore.die hent hwait hretry
        refine ⟨_, rfl, ⟨rfl, rfl, rfl⟩, hdead, fun other => ?_⟩
        rw [Option.map_some, visited, if_pos hwait, if_neg hretry]
        exact UnorderedMap.lookup_insert ..
    · rw [if_neg hwait]
      refine ⟨_, rfl, ⟨rfl, rfl, rfl⟩, hidle ?_, fun other => ?_⟩
      · intro stored hstored
        obtain rfl := Option.some.inj (hent.symm.trans hstored)
        exact hwait
      · rw [Option.map_some, visited, if_neg hwait]
        split
        next heq => rw [heq, hent]
        · rfl

variable {order : List Ipv4Address}

theorem foldlM_visitWaiting_ok (hnodup : order.Nodup) {state : ArpCache Datagram × Bool}
    (hcore : Core cfg (Visited order state.1.now state.2) state.1) :
    ∃ next,
      order.foldlM (visitWaiting cfg) state = .ok next ∧ Untimed state.1 next.1 ∧
        Core cfg (Visited [] next.1.now next.2) next.1 ∧
        ∀ other, next.1.arpCache.lookup other =
          if other ∈ order then (state.1.arpCache.lookup other).map (visited cfg state.1.now)
          else state.1.arpCache.lookup other := by
  induction order generalizing state with
  | nil => exact ⟨state, rfl, ⟨rfl, rfl, rfl⟩, hcore, fun other => rfl⟩
  | cons dest rest ih =>
    obtain ⟨hnew, hrest⟩ := nodup_cons.mp hnodup
    obtain ⟨first, hok, hframe, hfst, hlook⟩ := visitWaiting_ok hcore
    obtain ⟨next, hloop, hlater, hcoreNext, hlookupNext⟩ := ih hrest hfst
    refine ⟨next, ?_, ?_, hcoreNext, fun other => ?_⟩
    · rw [foldlM_cons]
      exact bind_eq_ok.mpr ⟨first, hok, hloop⟩
    · exact ⟨hlater.now_eq.trans hframe.now_eq, hlater.timer_eq.trans hframe.timer_eq,
        hlater.events_eq.trans hframe.events_eq⟩
    · rw [hlookupNext, hlook, hframe.now_eq]
      by_cases hsame : other = dest
      · subst hsame
        simp [hnew]
      · simp [hsame]

theorem handleWaitReplyTimeout_kept (hcore : Core cfg (fun _ _ => True) cache)
    (hslot : Slotted timer? cache.events [((), cache.waitReplyTimer)]) (hidle :
    cache.events.find cache.waitReplyTimer = none) (horder : order.Perm cache.arpCache.keys) :
    ∃ next, cache.handleWaitReplyTimeout cfg order = .ok next ∧ Kept cfg next ∧ ∀ dest,
    next.arpCache.lookup dest = (cache.arpCache.lookup dest).map (visited cfg cache.now) := by
  have hall : ∀ {dest entry}, cache.arpCache.lookup dest = some entry → dest ∈ order := by
    intro dest entry hent
    refine horder.mem_iff.mpr (AList.mem_keys.mpr (AList.lookup_isSome.mp ?_))
    rw [hent]
    rfl
  have hstart : Core cfg (Visited order cache.now false) cache :=
    hcore.retime rfl rfl fun dest entry hent _ _ => .inl (hall hent)
  obtain ⟨⟨looped, restart⟩, hloop, hframe, hlooped, hlook⟩ :=
    @foldlM_visitWaiting_ok _ _ _ (horder.nodup_iff.mpr cache.arpCache.keys_nodup)
      (cache, false) hstart
  -- every key is in the order of the visit, so every entry is visited
  have hents : ∀ dest, looped.arpCache.lookup dest =
      (cache.arpCache.lookup dest).map (visited cfg cache.now) := by
    intro dest
    rw [hlook]
    split
    · rfl
    next habsent =>
      cases hent : cache.arpCache.lookup dest with
      | none => rfl
      | some entry => exact absurd (hall hent) habsent
  obtain ⟨hnow, htimer, hevs⟩ := hframe
  dsimp only at hnow htimer hevs hlooped
  have hslottedLoop : Slotted timer? looped.events [((), looped.waitReplyTimer)] := by
    rw [hevs, htimer]
    exact hslot
  have hidleLoop : looped.events.find looped.waitReplyTimer = none := by
    rw [hevs, htimer]
    exact hidle
  unfold handleWaitReplyTimeout
  rw [hloop]
  cases restart with
  | true =>
    refine ⟨_, rfl, ⟨?_, ?_, ?_⟩, hents⟩
    · refine hlooped.retime rfl rfl ?_
      rintro dest entry _ _ (hin | ⟨_, hseen⟩)
      · cases hin
      · refine ⟨_, find_schedule_self .., ?_⟩
        rw [hseen]
    -- the timer that has fired is free, and is armed again
    · exact @Slotted.arm _ _ _ _ _ _ [] [] _ _ hslottedLoop hidleLoop (.inl rfl) _ _ rfl
    · intro event hfind
      obtain rfl := Option.some.inj ((find_schedule_self ..).symm.trans hfind)
      exact le_rfl
  | false =>
    refine ⟨looped, rfl, ⟨?_, hslottedLoop, ?_⟩, hents⟩
    · refine hlooped.retime rfl rfl ?_
      rintro dest entry _ _ (hin | ⟨hrestart, _⟩)
      · cases hin
      · cases hrestart
    · intro event hfind
      rw [hidleLoop] at hfind
      cases hfind

/-! ## Runs -/

theorem Kept.elapse (hkept : Kept cfg cache) {now : Nat} (hlater : cache.now ≤ now) :
    Kept cfg { cache with now } where
  core := hkept.core.retime rfl rfl fun _ _ _ _ htimed => htimed.stays fun _ hfind => hfind
  slotted := hkept.slotted
  due event hfind := (hkept.due event hfind).trans (Nat.add_le_add_right hlater _)

theorem expire_timer (hkept : Kept cfg cache) {uid : Nat}
    {event : PendingEvent ArpAction} (hpend : cache.events.pending.lookup uid = some event)
    (haction : event.action = .handleWaitReplyTimeout) (horder : order.Perm cache.arpCache.keys) :
    ∃ next, cache.expire cfg uid order = .ok next ∧ Kept cfg next ∧ ∀ dest,
    next.arpCache.lookup dest = (cache.arpCache.lookup dest).map (visited cfg cache.now) := by
  have howned := hkept.slotted.owned uid event () hpend (by rw [haction]; rfl)
  have htimer : cache.waitReplyTimer = some uid := by
    simpa [eq_comm] using howned
  have hcore : Core cfg (fun _ _ => True) { cache with events := cache.events.drop uid } :=
    hkept.core.retime rfl rfl fun _ _ _ _ _ => trivial
  have hidle : (cache.events.drop uid).find cache.waitReplyTimer = none := by
    rw [htimer, find_some, lookup_drop, if_pos rfl]
  obtain ⟨next, hok, hnext⟩ :=
    handleWaitReplyTimeout_kept hcore (hkept.slotted.drop uid) hidle horder
  refine ⟨next, ?_, hnext⟩
  simp only [expire, hpend, haction]
  exact hok

theorem expire_kept (hkept : Kept cfg cache) (uid : Nat) (horder : order.Perm cache.arpCache.keys) :
    ∃ next, cache.expire cfg uid order = .ok next ∧ Kept cfg next := by
  cases hpend : cache.events.pending.lookup uid with
  | none => exact ⟨cache, by simp only [expire, hpend], hkept⟩
  | some event =>
    cases haction : event.action with
    | handleWaitReplyTimeout =>
      obtain ⟨next, hok, hnext, _⟩ := expire_timer hkept hpend haction horder
      exact ⟨next, hok, hnext⟩
    | sendArpRequest dest =>
      -- the timer has another number
      have hfind : (cache.events.drop uid).find cache.waitReplyTimer =
          cache.events.find cache.waitReplyTimer := by
        apply hkept.slotted.find_drop (mem_singleton.mpr rfl)
        intro other hother
        obtain rfl := Option.some.inj (hpend.symm.trans hother)
        rw [haction]
        nofun
      have hdrop : Kept cfg { cache with events := cache.events.drop uid } := by
        refine ⟨?_, hkept.slotted.drop uid, fun other hother => ?_⟩
        · refine hkept.core.retime rfl rfl fun _ _ _ _ htimed => htimed.stays ?_
          exact fun _ hpre => hfind.trans hpre
        · exact hkept.due other (hfind.symm.trans hother)
      refine ⟨_, ?_, hdrop.note (@silentOn_singleton _ (.requested dest false) rfl)⟩
      simp only [expire, hpend, haction]

theorem of_inTime {input : ArpInput Datagram} (htime : cache.inTime input = true) :
    cache.now ≤ input.now ∧ NotOverdue { cache with now := input.now } ∧
      ∀ uid order, input.call = .expire uid order → order.Perm cache.arpCache.keys := by
  simp only [inTime, Bool.and_eq_true, decide_eq_true_eq, all_eq_true] at htime
  obtain ⟨⟨hlater, hfuture⟩, hcall⟩ := htime
  refine ⟨hlater, fun uid event hpend => ?_, fun uid order hexpire => ?_⟩
  · exact hfuture ⟨uid, event⟩ (AList.mem_lookup_iff.mp hpend)
  · rw [hexpire] at hcall
    simp only [Bool.and_eq_true, decide_eq_true_eq] at hcall
    exact hcall.2

theorem step_kept (hkept : Kept cfg cache) {input : ArpInput Datagram}
    (htime : cache.inTime input = true) :
    ∃ next, (machine cfg).step cache input = .ok next ∧ Kept cfg next := by
  obtain ⟨hlater, hfuture, horder⟩ := of_inTime htime
  have hmoved := hkept.elapse hlater
  obtain ⟨now, call⟩ := input
  cases call with
  | lookup datagram destination jitter =>
    obtain ⟨answer, next, hok, hnext⟩ := lookup_kept hmoved hfuture datagram destination jitter
    exact ⟨next, bind_eq_ok.mpr ⟨_, hok, rfl⟩, hnext⟩
  | receive arp deviceAddress addresses => exact receive_kept hmoved arp deviceAddress addresses
  | expire uid order => exact expire_kept hmoved uid (horder uid order rfl)

theorem kept_initial (cfg : ArpConfig) : Kept cfg (initial : ArpCache Datagram) where
  core := by
    refine ⟨fun dest entry hent => ?_, fun dest => ⟨.refl _, .refl _⟩, fun place dest hdead => ?_⟩
    · cases hent
    · cases hdead
  slotted := (Slotted.empty timer?).hold (not_mem_nil)
  due event hfind := by cases hfind

theorem kept_of_reachable
    (hreach : (machine cfg).ReachableUnder (fun cache input => cache.inTime input = true) cache) :
    Kept cfg cache := by
  apply hreach.invariant (kept_initial cfg)
  intro state input next hkept htime hstep
  obtain ⟨moved, hok, hmoved⟩ := step_kept hkept htime
  obtain rfl := Except.ok.inj (hok.symm.trans hstep)
  exact hmoved

structure Resolves (cfg : ArpConfig) (cache : ArpCache Datagram) : Prop where
  /-- No fatal error and no failed assertion comes next. -/
  safe : ∀ input, cache.inTime input = true → ∃ next, (machine cfg).step cache input = .ok next
  /-- Unresolved packets wait, were sent, or were dropped, each once and those sent in order. -/
  accounted : ∀ dest, Accounted cache.log dest (cache.pendingOf dest)
  queued : ∀ dest entry, cache.arpCache.lookup dest = some entry → entry.pending ≠ [] →
    entry.state = .waitReply
  timed : ∀ dest entry, cache.arpCache.lookup dest = some entry → entry.state = .waitReply →
    cache.events.isRunning cache.waitReplyTimer = true
  died : ∀ (place : Nat) (dest : Ipv4Address), cache.log[place]? = some (.dead dest) →
    retransmissions dest (cache.log.take place) = cfg.maxRetries.toNat
  /-- When the timer runs, an entry that still waits is asked for again or dies. -/
  retried : ∀ now uid order next dest entry, cache.inTime ⟨now, .expire uid order⟩ = true →
    cache.waitReplyTimer = some uid →
    (machine cfg).step cache ⟨now, .expire uid order⟩ = .ok next →
    cache.arpCache.lookup dest = some entry → entry.state = .waitReply →
    ∃ later, next.arpCache.lookup dest = some later ∧
      if retransmissions dest cache.log < cfg.maxRetries.toNat then
        later.state = .waitReply ∧
          retransmissions dest next.log = retransmissions dest cache.log + 1
      else later.state = .dead

theorem resolves_of_reachable
    (hreachable :
      (machine cfg).ReachableUnder (fun cache input => cache.inTime input = true) cache) :
    Resolves cfg cache := by
  have hkept := kept_of_reachable hreachable
  refine ⟨fun input htime => ?_, hkept.core.accounted, fun dest entry hent hpending => ?_,
    fun dest entry hent hwait => ?_, hkept.core.died, ?_⟩
  · obtain ⟨next, hok, _⟩ := step_kept hkept htime
    exact ⟨next, hok⟩
  · by_contra hrest
    exact hpending ((hkept.core.entries dest entry hent).idle hrest).1
  · obtain ⟨event, hfind, _⟩ := (hkept.core.entries dest entry hent).waits hwait
    rw [isRunning, hfind]
    rfl
  · intro now uid order next dest entry htime htimer hstep hent hwait
    obtain ⟨hlater, _, horder⟩ := of_inTime htime
    have hpre := hkept.core.entries dest entry hent
    obtain ⟨event, hfind, _⟩ := hpre.waits hwait
    rw [htimer, find_some] at hfind
    have hholder : ((), some uid) ∈ [((), cache.waitReplyTimer)] := by
      rw [htimer]
      exact List.mem_singleton.mpr rfl
    have howner := hkept.slotted.names () uid event hholder hfind
    have haction : event.action = .handleWaitReplyTimeout := by
      cases hev : event.action with
      | handleWaitReplyTimeout => rfl
      | sendArpRequest => rw [hev] at howner; cases howner
    obtain ⟨moved, hok, hmoved, hlook⟩ :=
      expire_timer (hkept.elapse hlater) hfind haction (horder uid order rfl)
    obtain rfl := Except.ok.inj (hok.symm.trans hstep)
    have hvisited := hlook dest
    rw [hent, Option.map_some] at hvisited
    refine ⟨_, hvisited, ?_⟩
    have hafter := hmoved.core.entries dest _ hvisited
    rw [← hpre.counted hwait]
    rw [visited, if_pos hwait] at hafter ⊢
    split
    next hfew =>
      rw [if_pos hfew] at hafter
      have hbd := cfg.maxRetries.toNat_lt
      refine ⟨hwait, (hafter.counted hwait).symm.trans ?_⟩
      exact uint32_of_lt (by omega)
    · rfl

def impatient : ArpConfig where
  aliveTimeout := 100
  deadTimeout := 50
  waitReplyTimeout := 10
  maxRetries := 1
  pendingQueueSize := 2

def twoDestinations : ArpCache Nat :=
  (machine impatient).after inTime
    [⟨0, .lookup 100 7 2⟩, ⟨1, .lookup 101 7 3⟩, ⟨2, .expire 1 [7]⟩, ⟨5, .lookup 102 8 0⟩,
      ⟨5, .expire 2 [7, 8]⟩, ⟨10, .expire 0 [8, 7]⟩,
      ⟨12, .receive ⟨.reply, 9, 4, 7, 3⟩ 4 [3]⟩, ⟨20, .expire 3 [7, 8]⟩] initial

theorem resolves_twoDestinations :
    twoDestinations.log = [.waiting 7, .unresolved 7 100, .unresolved 7 101, .requested 7 false,
        .waiting 8, .unresolved 8 102, .requested 8 false, .requested 8 true, .requested 7 true,
        .sent 7 100, .sent 7 101, .dead 8, .dropped 8 102] ∧
      Resolves impatient twoDestinations := by
  have hreachable : (machine impatient).ReachableUnder
      (fun cache input => cache.inTime input = true) twoDestinations :=
    Machine.ReachableUnder.after (fun _ _ htime => htime) _ .init
  exact ⟨by decide +kernel, resolves_of_reachable hreachable⟩

end HomaSird.Internet.ArpCache
