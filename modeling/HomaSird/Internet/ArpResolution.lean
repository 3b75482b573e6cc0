import HomaSird.Internet.ArpL3Protocol

/-! # ARP resolution loses no packet

All entries share one timer, which is due before any waiting entry would expire. Whatever a lookup
keeps waits in the queue of its entry until a reply sends it or a timer drops it.
-/

namespace HomaSird.Internet

open EventTable ArpEvent List

variable {Datagram : Type} {cfg : ArpConfig} {dest other : Ipv4Address}

namespace ArpEvent

def about : ArpEvent Datagram → Option Ipv4Address
  | .unresolved dest _ => some dest
  | .waiting dest => some dest
  | .requested dest retransmission => if retransmission then some dest else none
  | .sent dest _ => some dest
  | .dropped dest _ => some dest
  | .dead dest => some dest
  | .replied .. => none
  | .replyDropped _ => none

def unresolvedTo (dest : Ipv4Address) : ArpEvent Datagram → Option Datagram
  | .unresolved target datagram => if target = dest then some datagram else none
  | _ => none

def sentTo (dest : Ipv4Address) : ArpEvent Datagram → Option Datagram
  | .sent target datagram => if target = dest then some datagram else none
  | _ => none

def droppedTo (dest : Ipv4Address) : ArpEvent Datagram → Option Datagram
  | .dropped target datagram => if target = dest then some datagram else none
  | _ => none

def recount (dest : Ipv4Address) (count : Nat) : ArpEvent Datagram → Nat
  | .waiting target => if target = dest then 0 else count
  | .requested target retransmission =>
    if target = dest ∧ retransmission = true then count + 1 else count
  | _ => count

variable {event : ArpEvent Datagram}

section

variable (hother : event.about ≠ some dest)
include hother

theorem unresolvedTo_other : event.unresolvedTo dest = none := by
  cases event <;> simp_all [about, unresolvedTo]

theorem sentTo_other : event.sentTo dest = none := by
  cases event <;> simp_all [about, sentTo]

theorem droppedTo_other : event.droppedTo dest = none := by
  cases event <;> simp_all [about, droppedTo]

theorem recount_other (count : Nat) : event.recount dest count = count := by
  cases event <;> simp_all [about, recount]
  grind

end

end ArpEvent

/-- How often the request for a destination has been sent again since its entry waits. -/
def retransmissions (dest : Ipv4Address) (log : List (ArpEvent Datagram)) : Nat :=
  log.foldl (fun count event => event.recount dest count) 0

/-- Every unresolved packet for the destination is in one place, and those sent are followed by
those that wait, in the order given. -/
structure Accounted (log : List (ArpEvent Datagram)) (dest : Ipv4Address)
    (pending : List Datagram) : Prop where
  places : (log.filterMap (ArpEvent.unresolvedTo dest)).Perm
    (pending ++ log.filterMap (ArpEvent.sentTo dest) ++ log.filterMap (ArpEvent.droppedTo dest))
  order : (log.filterMap (ArpEvent.sentTo dest) ++ pending).Sublist
    (log.filterMap (ArpEvent.unresolvedTo dest))

def SilentOn (dest : Ipv4Address) (seen : List (ArpEvent Datagram)) : Prop :=
  ∀ event ∈ seen, event.about ≠ some dest

theorem SilentOn.of_about {seen : List (ArpEvent Datagram)} (habout :
    ∀ event ∈ seen, event.about = some dest) (hne : other ≠ dest) : SilentOn other seen := by
  intro event hmem hsame
  rw [habout event hmem] at hsame
  exact hne (Option.some.inj hsame).symm

section SilentOn

variable {log seen : List (ArpEvent Datagram)} {pending : List Datagram}

theorem retransmissions_append (dest : Ipv4Address) (log seen : List (ArpEvent Datagram)) :
    retransmissions dest (log ++ seen) =
      seen.foldl (fun count event => event.recount dest count) (retransmissions dest log) :=
  foldl_append

theorem SilentOn.retransmissions (hsilent : SilentOn dest seen) :
    retransmissions dest (log ++ seen) = retransmissions dest log := by
  induction seen generalizing log with
  | nil => rw [append_nil]
  | cons event rest ih =>
    obtain ⟨hfst, hrest⟩ := forall_mem_cons.mp hsilent
    rw [← singleton_append, ← append_assoc, ih hrest, retransmissions_append,
      foldl_cons, foldl_nil, recount_other hfst]

theorem Accounted.unconcerned (hacct : Accounted log dest pending)
    (hother : ∀ event ∈ seen, event.unresolvedTo dest = none ∧ event.sentTo dest = none ∧
    event.droppedTo dest = none) : Accounted (log ++ seen) dest pending := by
  have hunresolved : seen.filterMap (unresolvedTo dest) = [] :=
    filterMap_eq_nil_iff.mpr fun event hmem => (hother event hmem).1
  have hsent : seen.filterMap (sentTo dest) = [] :=
    filterMap_eq_nil_iff.mpr fun event hmem => (hother event hmem).2.1
  have hdrop : seen.filterMap (droppedTo dest) = [] :=
    filterMap_eq_nil_iff.mpr fun event hmem => (hother event hmem).2.2
  refine ⟨?_, ?_⟩
  · simp only [filterMap_append, hunresolved, hsent, hdrop, append_nil]
    exact hacct.places
  · simp only [filterMap_append, hunresolved, hsent, append_nil]
    exact hacct.order

theorem Accounted.silent (hacct : Accounted log dest pending)
    (hsilent : SilentOn dest seen) : Accounted (log ++ seen) dest pending :=
  hacct.unconcerned fun event hmem => ⟨unresolvedTo_other (hsilent event hmem),
    sentTo_other (hsilent event hmem), droppedTo_other (hsilent event hmem)⟩

theorem Accounted.queue (hacct : Accounted log dest pending) (datagram : Datagram) :
    Accounted (log ++ [.unresolved dest datagram]) dest (pending ++ [datagram]) where
  places := by
    simp only [filterMap_append, filterMap_cons, filterMap_nil,
      unresolvedTo, sentTo, droppedTo, if_true, append_nil]
    refine (hacct.places.append_right _).trans ?_
    simp only [append_assoc]
    refine List.Perm.append_left _ ?_
    rw [← append_assoc]
    exact perm_append_comm
  order := by
    simp only [filterMap_append, filterMap_cons, filterMap_nil,
      unresolvedTo, sentTo, if_true, append_nil]
    rw [← append_assoc]
    exact hacct.order.append (.refl _)

theorem Accounted.refuse (hacct : Accounted log dest pending) (datagram : Datagram) :
    Accounted (log ++ [.dropped dest datagram] ++ [.unresolved dest datagram]) dest pending where
  places := by
    simp only [filterMap_append, filterMap_cons, filterMap_nil,
      unresolvedTo, sentTo, droppedTo, if_true, append_nil]
    rw [← append_assoc]
    exact hacct.places.append_right _
  order := by
    simp only [filterMap_append, filterMap_cons, filterMap_nil,
      unresolvedTo, sentTo, if_true, append_nil]
    exact hacct.order.trans (sublist_append_left _ _)

theorem Accounted.flush (hacct : Accounted log dest pending) :
    Accounted (log ++ pending.map (.sent dest)) dest [] where
  places := by
    simp only [filterMap_append, filterMap_map, Function.comp_def,
      unresolvedTo, sentTo, droppedTo, if_true,
      filterMap_none, filterMap_some, append_nil, nil_append]
    exact hacct.places.trans (perm_append_comm.append_right _)
  order := by
    simp only [filterMap_append, filterMap_map, Function.comp_def,
      unresolvedTo, sentTo, if_true, filterMap_none, filterMap_some,
      append_nil]
    exact hacct.order

theorem Accounted.die (hacct : Accounted log dest pending) :
    Accounted (log ++ .dead dest :: pending.map (.dropped dest)) dest [] where
  places := by
    simp only [filterMap_append, filterMap_cons, filterMap_map, Function.comp_def,
      unresolvedTo, sentTo, droppedTo, if_true,
      filterMap_none, filterMap_some, append_nil, nil_append]
    refine hacct.places.trans ?_
    rw [append_assoc]
    refine perm_append_comm.trans ?_
    rw [append_assoc]
  order := by
    simp only [filterMap_append, filterMap_cons, filterMap_map, Function.comp_def,
      unresolvedTo, sentTo, filterMap_none, append_nil]
    exact (sublist_append_left _ _).trans hacct.order

end SilentOn

/-! ## The entries -/

def ArpAction.timer? : ArpAction → Option Unit
  | .handleWaitReplyTimeout => some ()
  | .sendArpRequest _ => none

/-- An entry between two calls; the timer covers when a waiting entry may have been seen last. -/
structure ArpEntryKept (cfg : ArpConfig) (log : List (ArpEvent Datagram))
    (timed : Nat → Prop) (dest : Ipv4Address) (entry : ArpCacheEntry Datagram) : Prop where
  address : entry.ipv4Address = dest
  waits : entry.state = .waitReply → timed entry.lastSeen
  idle : entry.state ≠ .waitReply → entry.pending = [] ∧ entry.retries = 0
  resolvable : entry.state ≠ .permanent
  retries : entry.retries ≤ cfg.maxRetries.toNat
  counted : entry.state = .waitReply → entry.retries = retransmissions dest log

namespace ArpCache

variable {cache next : ArpCache Datagram} {entry : ArpCacheEntry Datagram}
  {timed later : Ipv4Address → Nat → Prop}

def pendingOf (cache : ArpCache Datagram) (dest : Ipv4Address) : List Datagram :=
  (cache.arpCache.lookup dest).elim [] ArpCacheEntry.pending

structure Core (cfg : ArpConfig) (timed : Ipv4Address → Nat → Prop)
    (cache : ArpCache Datagram) : Prop where
  entries : ∀ dest entry, cache.arpCache.lookup dest = some entry →
    ArpEntryKept cfg cache.log (timed dest) dest entry
  accounted : ∀ dest, Accounted cache.log dest (cache.pendingOf dest)
  died : ∀ (place : Nat) (dest : Ipv4Address), cache.log[place]? = some (.dead dest) →
    retransmissions dest (cache.log.take place) = cfg.maxRetries.toNat

structure Changed (dest : Ipv4Address) (entry : ArpCacheEntry Datagram)
    (seen : List (ArpEvent Datagram)) (cache next : ArpCache Datagram) : Prop where
  log : next.log = cache.log ++ seen
  lookup : ∀ other, next.arpCache.lookup other =
    if other = dest then some entry else cache.arpCache.lookup other
  silent : ∀ other, other ≠ dest → SilentOn other seen

theorem Core.change (hcore : Core cfg timed cache) {seen : List (ArpEvent Datagram)}
    (hdiff : Changed dest entry seen cache next)
    (htimed : ∀ other moment, other ≠ dest → timed other moment → later other moment)
    (hent : ArpEntryKept cfg next.log (later dest) dest entry)
    (hacct : Accounted next.log dest entry.pending)
    (hdied : ∀ (place : Nat) (target : Ipv4Address),
      seen[place]? = some (.dead target) →
        retransmissions target (cache.log ++ seen.take place) = cfg.maxRetries.toNat) :
    Core cfg later next where
  entries other stored hstored := by
    rw [hdiff.lookup] at hstored
    split at hstored
    next heq =>
      cases hstored
      rw [heq]
      exact hent
    next hne =>
      have hkept := hcore.entries other stored hstored
      refine ⟨hkept.address, fun hwait => htimed other _ hne (hkept.waits hwait), hkept.idle,
        hkept.resolvable, hkept.retries, fun hwait => ?_⟩
      rw [hdiff.log, (hdiff.silent other hne).retransmissions]
      exact hkept.counted hwait
  accounted other := by
    unfold pendingOf
    rw [hdiff.lookup]
    split
    next heq =>
      rw [heq]
      exact hacct
    next hne =>
      rw [hdiff.log]
      exact (hcore.accounted other).silent (hdiff.silent other hne)
  died place target hplace := by
    rw [hdiff.log] at hplace ⊢
    by_cases hlt : place < cache.log.length
    · rw [getElem?_append_left hlt] at hplace
      rw [take_append_of_le_length (le_of_lt hlt)]
      exact hcore.died place target hplace
    · rw [getElem?_append_right (Nat.le_of_not_lt hlt)] at hplace
      rw [take_append, take_of_length_le (Nat.le_of_not_lt hlt)]
      exact hdied _ target hplace

theorem Core.note (hcore : Core cfg timed cache) {seen : List (ArpEvent Datagram)}
    (hsilent : ∀ dest, SilentOn dest seen) : Core cfg timed (cache.note seen) where
  entries dest entry hent := by
    have hkept := hcore.entries dest entry hent
    refine ⟨hkept.address, hkept.waits, hkept.idle, hkept.resolvable, hkept.retries,
      fun hwait => ?_⟩
    rw [ArpCache.note, (hsilent dest).retransmissions]
    exact hkept.counted hwait
  accounted dest := (hcore.accounted dest).silent (hsilent dest)
  died place target hplace := by
    dsimp only [ArpCache.note] at hplace ⊢
    by_cases hlt : place < cache.log.length
    · rw [getElem?_append_left hlt] at hplace
      rw [take_append_of_le_length (le_of_lt hlt)]
      exact hcore.died place target hplace
    · rw [getElem?_append_right (Nat.le_of_not_lt hlt)] at hplace
      exact absurd rfl (hsilent target _ (mem_of_getElem? hplace))

end ArpCache

end HomaSird.Internet
