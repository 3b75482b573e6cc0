import HomaSird.Data.EventSlots
import HomaSird.Internet.PartialPacket
import HomaSird.Transition.Machine

/-! # The timeouts of IPv4 reassembly

One timer serves all datagrams that are not entire. It is set when the list of timeouts gets its
first entry, is not moved when that entry leaves, and when it runs is set again for the then first
entry: it may run too early, never too late.
-/

namespace HomaSird.Internet

open Transition UnorderedMap List

/-- An entry of `m_timeoutEventList`; `iter` stands for the iterator to it. -/
structure FragmentsTimeout where
  iter : Nat
  time : Nat
  key : FragmentKey
  ipHeader : Ipv4Header
  iif : Nat
deriving DecidableEq

/-- A datagram that `HandleFragmentsTimeout` drops, and whether an ICMP message is sent of it. -/
structure FragmentsDrop where
  time : Nat
  key : FragmentKey
  ipHeader : Ipv4Header
  iif : Nat
  packet : List UInt8
  timeExceeded : Bool
deriving DecidableEq

/-- `HandleFragmentsTimeout` finds nothing under its key or no fragment, an iterator is not one of
the list, a delay is negative. -/
inductive ReassemblyFault
  | absentKey
  | danglingIterator
  | negativeDelay
deriving DecidableEq

/-- The part that reassembles; `timeoutIter` is `m_timeoutIter` of the fragments under a key. -/
structure Ipv4Reassembly where
  now : Nat
  protocol : Ipv4L3Protocol
  timeoutIter : UnorderedMap FragmentKey Nat
  timeoutEventList : List FragmentsTimeout
  nextIter : Nat
  timeoutEvent : Option Nat
  events : EventTable Unit
  dropped : List FragmentsDrop

namespace Ipv4Reassembly

def initial : Ipv4Reassembly where
  now := 0
  protocol := {}
  timeoutIter := ∅
  timeoutEventList := []
  nextIter := 0
  timeoutEvent := none
  events := .empty
  dropped := []

/-- `HandleTimeout` is scheduled, and `m_timeoutEvent` names the event. -/
def schedule (state : Ipv4Reassembly) (delay : Nat) : Ipv4Reassembly :=
  let scheduled := state.events.schedule state.now delay ()
  { state with timeoutEvent := some scheduled.1, events := scheduled.2 }

def setTimeout (fragmentExpirationTimeout : Nat) (state : Ipv4Reassembly) (key : FragmentKey)
    (ipHeader : Ipv4Header) (iif : Nat) : Ipv4Reassembly :=
  let timed :=
    if state.timeoutEventList = [] then state.schedule fragmentExpirationTimeout else state
  { timed with
    timeoutEventList := timed.timeoutEventList ++
      [⟨timed.nextIter, timed.now + fragmentExpirationTimeout, key, ipHeader, iif⟩]
    timeoutIter := timed.timeoutIter.insert key timed.nextIter
    nextIter := timed.nextIter + 1 }

/-- `m_timeoutEventList.erase` of the iterator that is kept with the fragments. -/
def eraseTimeout (state : Ipv4Reassembly) (key : FragmentKey) :
    Except ReassemblyFault Ipv4Reassembly :=
  match state.timeoutIter.lookup key with
  | none => .error .danglingIterator
  | some iter =>
    if state.timeoutEventList.any fun entry => entry.iter = iter then
      .ok { state with
        timeoutEventList := state.timeoutEventList.eraseP fun entry => entry.iter = iter
        timeoutIter := state.timeoutIter.erase key }
    else .error .danglingIterator

def processFragment (fragmentExpirationTimeout : Nat) (state : Ipv4Reassembly)
    (packet : Fragment) (iif : Nat) :
    Except ReassemblyFault (Option (List UInt8) × Ipv4Reassembly) := do
  let key := Ipv4L3Protocol.fragmentKey packet.header
  let opened :=
    if (state.protocol.fragments.lookup key).isNone then
      state.setTimeout fragmentExpirationTimeout key packet.header iif
    else state
  let (entire, protocol) := opened.protocol.processFragment packet
  if entire.isSome then
    .ok (entire, { ← opened.eraseTimeout key with protocol })
  else .ok (none, { opened with protocol })

def handleFragmentsTimeout (state : Ipv4Reassembly) (entry : FragmentsTimeout) :
    Except ReassemblyFault Ipv4Reassembly :=
  match state.protocol.handleFragmentsTimeout entry.key with
  | none => .error .absentKey
  | some (packet, timeExceeded, protocol) =>
    .ok { state with
      protocol
      timeoutIter := state.timeoutIter.erase entry.key
      dropped := state.dropped ++
        [⟨state.now, entry.key, entry.ipHeader, entry.iif, packet, timeExceeded⟩] }

/-- The loop of `HandleTimeout`, on the list of timeouts as it is popped. -/
def timeoutLoop : List FragmentsTimeout → Ipv4Reassembly → Except ReassemblyFault Ipv4Reassembly
  | [], state => .ok state
  | entry :: rest, state =>
    if entry.time = state.now then do
      let handled ← state.handleFragmentsTimeout entry
      timeoutLoop rest { handled with timeoutEventList := rest }
    else .ok state

def handleTimeout (state : Ipv4Reassembly) : Except ReassemblyFault Ipv4Reassembly := do
  let handled ← timeoutLoop state.timeoutEventList state
  match handled.timeoutEventList with
  | [] => .ok handled
  | first :: _ =>
    if first.time < handled.now then .error .negativeDelay
    else .ok (handled.schedule (first.time - handled.now))

end Ipv4Reassembly

inductive ReassemblyCall
  | processFragment (packet : Fragment) (iif : Nat)
  | handleTimeout (uid : Nat)

structure ReassemblyInput where
  now : Nat
  call : ReassemblyCall

namespace Ipv4Reassembly

def handle (fragmentExpirationTimeout : Nat) (state : Ipv4Reassembly) :
    ReassemblyCall → Except ReassemblyFault Ipv4Reassembly
  | .processFragment packet iif => do
    let (_, next) ← state.processFragment fragmentExpirationTimeout packet iif
    .ok next
  | .handleTimeout uid => { state with events := state.events.drop uid }.handleTimeout

def machine (fragmentExpirationTimeout : Nat) :
    Machine Ipv4Reassembly ReassemblyInput ReassemblyFault where
  init := initial
  step state input := handle fragmentExpirationTimeout { state with now := input.now } input.call

def inTime (state : Ipv4Reassembly) (input : ReassemblyInput) : Bool :=
  decide (state.now ≤ input.now) &&
    state.events.pending.entries.all (fun entry => decide (input.now ≤ entry.2.due)) &&
      match input.call with
      | .processFragment .. => true
      | .handleTimeout uid =>
        (state.events.pending.lookup uid).any fun event => decide (event.due = input.now)

end Ipv4Reassembly

/-! ## The fragments under a key -/

namespace Ipv4L3Protocol

variable {protocol : Ipv4L3Protocol} {packet : Fragment} {key : FragmentKey}

def Stored (protocol : Ipv4L3Protocol) : Prop :=
  ∀ key fragments, protocol.fragments.lookup key = some fragments → fragments.fragments ≠ []

theorem insertItem_ne_nil (item : List UInt8 × Nat)
    (items : List (List UInt8 × Nat)) : Fragments.insertItem item items ≠ [] := by
  cases items with
  | nil => exact cons_ne_nil _ _
  | cons first rest =>
    rw [Fragments.insertItem]
    split <;> exact cons_ne_nil _ _

theorem processFragment_cases (protocol : Ipv4L3Protocol) (packet : Fragment) :
    let result := protocol.processFragment packet
    result.1.isSome = true ∧
        result.2.fragments = protocol.fragments.erase (fragmentKey packet.header) ∨
      result.1 = none ∧ ∃ fragments : Fragments, fragments.fragments ≠ [] ∧
        result.2.fragments = protocol.fragments.insert (fragmentKey packet.header) fragments := by
  dsimp only [processFragment]
  split
  next hentire =>
    left
    refine ⟨?_, rfl⟩
    rw [Fragments.getPacket]
    split
    next hnone =>
      rw [Fragments.isEntire, hnone] at hentire
      simp at hentire
    · rfl
  · exact .inr ⟨rfl, _, insertItem_ne_nil _ _, rfl⟩

theorem Stored.processFragment (hstored : Stored protocol)
    (packet : Fragment) : Stored (protocol.processFragment packet).2 := by
  intro key fragments hlook
  rcases processFragment_cases protocol packet with ⟨-, herase⟩ | ⟨-, added, hadded, hinsert⟩
  · rw [herase, lookup_erase] at hlook
    split at hlook
    · cases hlook
    · exact hstored key fragments hlook
  · rw [hinsert, lookup_insert] at hlook
    split at hlook
    · exact Option.some.inj hlook ▸ hadded
    · exact hstored key fragments hlook

theorem handleFragmentsTimeout_ok (hstored : Stored protocol)
    (hopen : (protocol.fragments.lookup key).isSome = true) :
    ∃ packet timeExceeded, protocol.handleFragmentsTimeout key =
        some (packet, timeExceeded, ⟨protocol.fragments.erase key⟩) := by
  obtain ⟨fragments, hlook⟩ := Option.isSome_iff_exists.mp hopen
  obtain ⟨result, hpartial⟩ : ∃ result, fragments.getPartialPacket = some result := by
    rw [Fragments.getPartialPacket]
    split
    next hnone => exact absurd hnone (hstored key fragments hlook)
    · split
      · exact ⟨_, rfl⟩
      · exact ⟨_, rfl⟩
  refine ⟨result.1, result.1.length > 8, ?_⟩
  simp [handleFragmentsTimeout, hlook, hpartial]

theorem Stored.erase (hstored : Stored protocol)
    (key : FragmentKey) : Stored ⟨protocol.fragments.erase key⟩ := by
  intro other fragments hlook
  rw [lookup_erase] at hlook
  split at hlook
  · cases hlook
  · exact hstored other fragments hlook

end Ipv4L3Protocol

namespace Ipv4Reassembly

open Ipv4L3Protocol (fragmentKey Stored)

variable {timeout : Nat} {isOpen : FragmentKey → Prop} {state next : Ipv4Reassembly}
  {key : FragmentKey}

/-! ## The list of timeouts -/

structure Timed (timeout : Nat) (isOpen : FragmentKey → Prop) (state : Ipv4Reassembly) :
    Prop where
  once : (state.timeoutEventList.map FragmentsTimeout.key).Nodup
  keys : ∀ key, key ∈ state.timeoutEventList.map FragmentsTimeout.key ↔ isOpen key
  ordered : state.timeoutEventList.Pairwise fun first second => first.time ≤ second.time
  bounds : ∀ entry ∈ state.timeoutEventList,
    state.now ≤ entry.time ∧ entry.time ≤ state.now + timeout
  iters : ∀ entry ∈ state.timeoutEventList, state.timeoutIter.lookup entry.key = some entry.iter
  given : ∀ entry ∈ state.timeoutEventList, entry.iter < state.nextIter
  distinct : (state.timeoutEventList.map FragmentsTimeout.iter).Nodup

theorem setTimeout_eq (timeout : Nat) (state : Ipv4Reassembly) (key : FragmentKey)
    (ipHeader : Ipv4Header) (iif : Nat) :
    let timed := state.setTimeout timeout key ipHeader iif
    timed.timeoutEventList = state.timeoutEventList ++
        [⟨state.nextIter, state.now + timeout, key, ipHeader, iif⟩] ∧
      timed.timeoutIter = state.timeoutIter.insert key state.nextIter ∧
      timed.nextIter = state.nextIter + 1 ∧ timed.now = state.now ∧
      timed.protocol = state.protocol ∧ timed.dropped = state.dropped := by
  unfold setTimeout
  split
  · exact ⟨rfl, rfl, rfl, rfl, rfl, rfl⟩
  · exact ⟨rfl, rfl, rfl, rfl, rfl, rfl⟩

namespace Timed

theorem congr (htimed : Timed timeout isOpen state) {other : FragmentKey → Prop}
    (hsame : ∀ key, isOpen key ↔ other key) : Timed timeout other state where
  __ := htimed
  keys key := (htimed.keys key).trans (hsame key)

theorem setTimeout (htimed : Timed timeout isOpen state) (hnew : ¬ isOpen key)
    (ipHeader : Ipv4Header) (iif : Nat) :
    Timed timeout (fun other => isOpen other ∨ other = key)
      (state.setTimeout timeout key ipHeader iif) := by
  obtain ⟨hlist, hiters, hnext, hnow, -, -⟩ := setTimeout_eq timeout state key ipHeader iif
  have hent {holds : FragmentsTimeout → Prop}
      (hold : ∀ entry ∈ state.timeoutEventList, holds entry)
      (hlast : holds ⟨state.nextIter, state.now + timeout, key, ipHeader, iif⟩) :
      ∀ entry ∈ (state.setTimeout timeout key ipHeader iif).timeoutEventList, holds entry := by
    intro entry hmem
    rw [hlist, mem_append, mem_singleton] at hmem
    rcases hmem with hearly | rfl
    · exact hold entry hearly
    · exact hlast
  refine ⟨?_, fun other => ?_, ?_, ?_, ?_, ?_, ?_⟩
  · rw [hlist, map_append, map_singleton]
    refine nodup_append.mpr ⟨htimed.once, nodup_singleton _, ?_⟩
    intro first hfst second hsnd
    rw [mem_singleton.mp hsnd]
    rintro rfl
    exact hnew ((htimed.keys first).mp hfst)
  · rw [hlist, map_append, map_singleton, mem_append, mem_singleton]
    exact or_congr_left (htimed.keys other)
  · rw [hlist]
    refine pairwise_append.mpr ⟨htimed.ordered, pairwise_singleton _ _, ?_⟩
    intro first hfst second hsnd
    rw [mem_singleton.mp hsnd]
    exact (htimed.bounds first hfst).2
  · rw [hnow]
    exact hent htimed.bounds ⟨Nat.le_add_right _ _, Nat.le_refl _⟩
  · rw [hiters]
    refine hent (fun entry hmem => ?_) ?_
    · have hne : entry.key ≠ key := by
        rintro rfl
        exact hnew ((htimed.keys _).mp (mem_map_of_mem hmem))
      rw [lookup_insert, if_neg hne]
      exact htimed.iters entry hmem
    · rw [lookup_insert, if_pos rfl]
  · rw [hnext]
    exact hent (fun entry hmem => Nat.lt_succ_of_lt (htimed.given entry hmem))
      (Nat.lt_succ_self _)
  · rw [hlist, map_append, map_singleton]
    refine nodup_append.mpr ⟨htimed.distinct, nodup_singleton _, ?_⟩
    intro first hfst second hsnd
    rw [mem_singleton.mp hsnd]
    rintro rfl
    obtain ⟨entry, hmem, hiter⟩ := mem_map.mp hfst
    exact Nat.ne_of_lt (htimed.given entry hmem) hiter

theorem drop (htimed : Timed timeout isOpen state) {rest : List FragmentsTimeout}
    (hsub : rest.Sublist state.timeoutEventList)
    (hrest : ∀ entry ∈ state.timeoutEventList, entry ∈ rest ↔ entry.key ≠ key) :
    Timed timeout (fun other => isOpen other ∧ other ≠ key)
      { state with timeoutEventList := rest, timeoutIter := state.timeoutIter.erase key } where
  once := htimed.once.sublist (hsub.map _)
  keys other := by
    rw [← htimed.keys other, mem_map, mem_map]
    constructor
    · rintro ⟨entry, hmem, rfl⟩
      exact ⟨⟨entry, hsub.subset hmem, rfl⟩, (hrest entry (hsub.subset hmem)).mp hmem⟩
    · rintro ⟨⟨entry, hmem, rfl⟩, hne⟩
      exact ⟨entry, (hrest entry hmem).mpr hne, rfl⟩
  ordered := htimed.ordered.sublist hsub
  bounds entry hmem := htimed.bounds entry (hsub.subset hmem)
  iters entry hmem := by
    rw [lookup_erase, if_neg ((hrest entry (hsub.subset hmem)).mp hmem)]
    exact htimed.iters entry (hsub.subset hmem)
  given entry hmem := htimed.given entry (hsub.subset hmem)
  distinct := htimed.distinct.sublist (hsub.map _)

theorem mem_others (htimed : Timed timeout isOpen state) {entry : FragmentsTimeout} {before behind :
    List FragmentsTimeout} (hlist : state.timeoutEventList = before ++ entry :: behind) :
    ∀ other ∈ state.timeoutEventList, other ∈ before ++ behind ↔ other.key ≠ entry.key := by
  intro other hother
  have honce := htimed.once
  rw [hlist, map_append, map_cons] at honce
  have hmiddle := perm_middle.nodup_iff.mp honce
  rw [nodup_cons, ← map_append] at hmiddle
  constructor
  · intro hin hkey
    exact hmiddle.1 (hkey ▸ mem_map_of_mem hin)
  · intro hne
    rw [hlist, mem_append, mem_cons] at hother
    rcases hother with hin | rfl | hin
    · exact mem_append_left _ hin
    · exact absurd rfl hne
    · exact mem_append_right _ hin

section

variable {entry : FragmentsTimeout} {rest : List FragmentsTimeout}
  (htimed : Timed timeout isOpen state) (hlist : state.timeoutEventList = entry :: rest)
include htimed hlist

theorem dropFirst :
    Timed timeout (fun other => isOpen other ∧ other ≠ entry.key)
      { state with timeoutEventList := rest, timeoutIter := state.timeoutIter.erase entry.key } :=
  htimed.drop (hlist ▸ sublist_cons_self entry rest)
    (htimed.mem_others (@List.nil_append _ (entry :: rest) ▸ hlist))

theorem later_of_first (hlater : entry.time ≠ state.now) :
    ∀ other ∈ entry :: rest, state.now < other.time := by
  have hbounds := htimed.bounds entry (hlist ▸ mem_cons_self)
  have hord := htimed.ordered
  rw [hlist, pairwise_cons] at hord
  intro other hother
  rcases mem_cons.mp hother with rfl | hin
  · omega
  · have hafter := hord.1 other hin
    omega

end

theorem eraseTimeout (htimed : Timed timeout isOpen state) (hopen : isOpen key) :
    ∃ rest, state.eraseTimeout key =
        .ok { state with timeoutEventList := rest, timeoutIter := state.timeoutIter.erase key } ∧
      rest.Sublist state.timeoutEventList ∧
      ∀ entry ∈ state.timeoutEventList, entry ∈ rest ↔ entry.key ≠ key := by
  obtain ⟨entry, hmem, rfl⟩ := mem_map.mp ((htimed.keys key).mpr hopen)
  have hany : state.timeoutEventList.any (fun other => other.iter = entry.iter) = true :=
    any_eq_true.mpr ⟨entry, hmem, by simp⟩
  obtain ⟨found, before, behind, -, hiter, hlist, herased⟩ :=
    @List.exists_of_eraseP _ (fun other => decide (other.iter = entry.iter)) _ _ hmem (by simp)
  have hfound : found = entry := by
    have hin : found ∈ state.timeoutEventList := hlist ▸ mem_append_right _ mem_cons_self
    exact inj_on_of_nodup_map htimed.distinct hin hmem (of_decide_eq_true hiter)
  subst hfound
  refine ⟨before ++ behind, ?_, ?_, htimed.mem_others hlist⟩
  · rw [Ipv4Reassembly.eraseTimeout, htimed.iters found hmem]
    dsimp only
    rw [if_pos hany, herased]
  · rw [hlist]
    exact (sublist_cons_self _ _).append_left _

theorem of_same (htimed : Timed timeout isOpen state) (hlist : next.timeoutEventList =
    state.timeoutEventList) (hnow : next.now = state.now) (hiter : next.timeoutIter =
    state.timeoutIter) (hnext : next.nextIter = state.nextIter) : Timed timeout isOpen next where
  once := hlist ▸ htimed.once
  keys := hlist ▸ htimed.keys
  ordered := hlist ▸ htimed.ordered
  bounds := by
    rw [hlist, hnow]
    exact htimed.bounds
  iters := by
    rw [hlist, hiter]
    exact htimed.iters
  given := by
    rw [hlist, hnext]
    exact htimed.given
  distinct := hlist ▸ htimed.distinct

end Timed

/-! ## The timer -/

def Open (state : Ipv4Reassembly) (key : FragmentKey) : Prop :=
  (state.protocol.fragments.lookup key).isSome = true

/-- The event that `m_timeoutEvent` names is pending, and not too late for any entry. -/
def Pending (state : Ipv4Reassembly) : Prop :=
  ∀ entry ∈ state.timeoutEventList, ∃ event, state.events.find state.timeoutEvent = some event ∧
    state.now ≤ event.due ∧ event.due ≤ entry.time

structure Kept (timeout : Nat) (state : Ipv4Reassembly) : Prop where
  timed : Timed timeout state.Open state
  stored : Stored state.protocol
  pending : Pending state

theorem kept_initial (timeout : Nat) : Kept timeout initial where
  timed := by
    refine ⟨nodup_nil, fun key => ?_, List.Pairwise.nil, nofun, nofun, nofun, nodup_nil⟩
    simp [initial, Open]
  stored _ _ hlook := nomatch hlook
  pending _ hmem := nomatch hmem

theorem Pending.setTimeout (hpend : Pending state)
    (htimed : Timed timeout isOpen state) (key : FragmentKey)
    (ipHeader : Ipv4Header) (iif : Nat) : Pending (state.setTimeout timeout key ipHeader iif) := by
  intro entry hmem
  unfold Ipv4Reassembly.setTimeout at hmem ⊢
  split at hmem
  next hnil =>
    rw [if_pos hnil]
    refine ⟨⟨state.now + timeout, ()⟩, EventTable.find_schedule_self .., Nat.le_add_right _ _, ?_⟩
    simp only [schedule, hnil, nil_append, mem_singleton] at hmem
    subst hmem
    exact Nat.le_refl _
  next hsome =>
    rw [if_neg hsome]
    rcases mem_append.mp hmem with hearly | hlast
    · exact hpend entry hearly
    · -- the last entry is due after those that are there already
      obtain ⟨first, rest, hlist⟩ := exists_cons_of_ne_nil hsome
      have hfst : first ∈ state.timeoutEventList := hlist ▸ mem_cons_self
      obtain ⟨event, hev, hnow, hdue⟩ := hpend first hfst
      refine ⟨event, hev, hnow, hdue.trans ?_⟩
      rw [mem_singleton.mp hlast]
      exact (htimed.bounds first hfst).2

/-- The first entry of the list sets the timer for its deadline; a further one leaves it. -/
def TimerOpened (timeout : Nat) (state next : Ipv4Reassembly) (now : Nat) : Prop :=
  if state.timeoutEventList = [] then
    next.events.find next.timeoutEvent = some ⟨now + timeout, ()⟩
  else next.timeoutEvent = state.timeoutEvent ∧ next.events = state.events

theorem timerOpened_setTimeout (timeout : Nat) (state : Ipv4Reassembly) (key : FragmentKey)
    (ipHeader : Ipv4Header) (iif : Nat) :
    TimerOpened timeout state (state.setTimeout timeout key ipHeader iif) state.now := by
  unfold TimerOpened setTimeout
  split
  · exact EventTable.find_schedule_self ..
  · exact ⟨rfl, rfl⟩

structure Opened (timeout : Nat) (state : Ipv4Reassembly) (key : FragmentKey)
    (opened : Ipv4Reassembly) : Prop where
  timed : Timed timeout (fun other => state.Open other ∨ other = key) opened
  pending : Pending opened
  protocol : opened.protocol = state.protocol
  dropped : opened.dropped = state.dropped
  older : state.timeoutEventList ⊆ opened.timeoutEventList
  newer : ∀ entry ∈ opened.timeoutEventList, entry ∈ state.timeoutEventList ∨
    entry.key = key ∧ ¬ state.Open key ∧ entry.time = state.now + timeout
  timer : TimerOpened timeout state opened state.now

theorem Kept.opened (hkept : Kept timeout state) (key : FragmentKey) (ipHeader : Ipv4Header)
    (iif : Nat) :
    Opened timeout state key (if (state.protocol.fragments.lookup key).isNone then
        state.setTimeout timeout key ipHeader iif
      else state) := by
  split
  next hnone =>
    have hnew : ¬ state.Open key := by
      rw [Open, Option.isNone_iff_eq_none.mp hnone]
      exact Bool.false_ne_true
    obtain ⟨hlist, -, -, -, hprotocol, hdrop⟩ := setTimeout_eq timeout state key ipHeader iif
    refine ⟨hkept.timed.setTimeout hnew ipHeader iif, hkept.pending.setTimeout hkept.timed _ _ _,
      hprotocol, hdrop, ?_, fun entry hmem => ?_, timerOpened_setTimeout ..⟩
    · rw [hlist]
      exact subset_append_left _ _
    · rw [hlist, mem_append, mem_singleton] at hmem
      rcases hmem with hearly | rfl
      · exact .inl hearly
      · exact .inr ⟨rfl, hnew, rfl⟩
  next hsome =>
    have hopen : state.Open key := Option.isSome_iff_ne_none.mpr (by simpa using hsome)
    have hsome : state.timeoutEventList ≠ [] := by
      obtain ⟨entry, hmem, -⟩ := mem_map.mp ((hkept.timed.keys key).mpr hopen)
      exact ne_nil_of_mem hmem
    refine ⟨hkept.timed.congr fun other => ?_, hkept.pending, rfl, rfl, fun _ hmem => hmem,
      fun _ hmem => .inl hmem, ?_⟩
    · constructor
      · exact .inl
      · rintro (hother | rfl)
        · exact hother
        · exact hopen
    · rw [TimerOpened, if_neg hsome]
      exact ⟨rfl, rfl⟩

/-! ## What a call does -/

/-- A reassembly stays open unless the call completes it or it is due; what is due is dropped, and
a new one is due after the timeout. A fragment sets the timer when the list is empty and moves it
in no other case; when it runs, it is set for the deadline of the first entry that is left. -/
def Ends (timeout : Nat) (state : Ipv4Reassembly) (input : ReassemblyInput)
    (next : Ipv4Reassembly) : Prop :=
  match input.call with
  | .processFragment packet _ =>
    next.dropped = state.dropped ∧
      (∀ entry ∈ state.timeoutEventList, entry ∈ next.timeoutEventList ∨
        entry.key = fragmentKey packet.header ∧
          (state.protocol.processFragment packet).1.isSome = true) ∧
      (∀ entry ∈ next.timeoutEventList, entry ∈ state.timeoutEventList ∨
        entry.key = fragmentKey packet.header ∧ ¬ state.Open entry.key ∧
          entry.time = input.now + timeout) ∧
      TimerOpened timeout state next input.now
  | .handleTimeout uid =>
    next.timeoutEventList =
        state.timeoutEventList.filter (fun entry => decide (entry.time ≠ input.now)) ∧
      (∃ drops, next.dropped = state.dropped ++ drops ∧
        (∀ drop ∈ drops, drop.time = input.now) ∧
        drops.map FragmentsDrop.key = (state.timeoutEventList.filter
          fun entry => decide (entry.time = input.now)).map FragmentsTimeout.key) ∧
      (∀ first rest, next.timeoutEventList = first :: rest →
        next.events.find next.timeoutEvent = some ⟨first.time, ()⟩) ∧
      (next.timeoutEventList = [] → next.events = state.events.drop uid)

theorem processFragment_kept (hkept : Kept timeout state) (packet : Fragment) (iif : Nat) :
    ∃ result next,
      state.processFragment timeout packet iif = .ok (result, next) ∧ Kept timeout next ∧
        Ends timeout state ⟨state.now, .processFragment packet iif⟩ next := by
  have hopened := hkept.opened (fragmentKey packet.header) packet.header iif
  unfold processFragment
  dsimp only
  generalize (if (state.protocol.fragments.lookup (fragmentKey packet.header)).isNone then
    state.setTimeout timeout (fragmentKey packet.header) packet.header iif else state) = opened
    at *
  obtain ⟨htimed, hpend, hprotocol, hdrop, holder, hnewer, htimer⟩ := hopened
  have hstored := hkept.stored.processFragment packet
  rw [hprotocol]
  rcases Ipv4L3Protocol.processFragment_cases state.protocol packet with
    ⟨hentire, herase⟩ | ⟨hnone, fragments, -, hinsert⟩
  · obtain ⟨rest, herased, hsub, hrest⟩ := htimed.eraseTimeout (.inr rfl)
    have hkeys : ∀ other, (state.Open other ∨ other = fragmentKey packet.header) ∧
        other ≠ fragmentKey packet.header ↔
          ((state.protocol.processFragment packet).2.fragments.lookup other).isSome = true := by
      intro other
      rw [herase, isSome_lookup_erase]
      exact and_congr_left fun hne => or_iff_left hne
    rw [if_pos hentire, herased, Transition.bind_ok]
    refine ⟨_, _, rfl, ⟨?_, hstored, fun entry hmem => hpend entry (hsub.subset hmem)⟩, hdrop,
      fun entry hmem => ?_, fun entry hmem => ?_, htimer⟩
    · exact ((htimed.drop hsub hrest).congr hkeys).of_same rfl rfl rfl rfl
    · by_cases hkey : entry.key = fragmentKey packet.header
      · exact .inr ⟨hkey, hentire⟩
      · exact .inl ((hrest entry (holder hmem)).mpr hkey)
    · rcases hnewer entry (hsub.subset hmem) with hearly | ⟨hkey, hnew, htime⟩
      · exact .inl hearly
      · exact .inr ⟨hkey, hkey ▸ hnew, htime⟩
  · have hkeys : ∀ other, state.Open other ∨ other = fragmentKey packet.header ↔
        ((state.protocol.processFragment packet).2.fragments.lookup other).isSome = true := by
      intro other
      rw [hinsert, lookup_insert]
      split
      next hsame => simp [hsame]
      next hne => simp [hne, Open]
    rw [hnone]
    refine ⟨_, _, rfl, ⟨?_, hstored, hpend⟩, hdrop, fun entry hmem => .inl (holder hmem),
      fun entry hmem => ?_, htimer⟩
    · exact (htimed.congr hkeys).of_same rfl rfl rfl rfl
    · rcases hnewer entry hmem with hearly | ⟨hkey, hnew, htime⟩
      · exact .inl hearly
      · exact .inr ⟨hkey, hkey ▸ hnew, htime⟩

theorem timeoutLoop_ok (list : List FragmentsTimeout)
    (hlist : state.timeoutEventList = list) (htimed : Timed timeout state.Open state)
    (hstored : Stored state.protocol) :
    ∃ next drops, timeoutLoop list state = .ok next ∧
      Timed timeout next.Open next ∧ Stored next.protocol ∧
      next.timeoutEventList = list.filter (fun entry => decide (entry.time ≠ state.now)) ∧
      next.now = state.now ∧ next.events = state.events ∧
      next.dropped = state.dropped ++ drops ∧ (∀ drop ∈ drops, drop.time = state.now) ∧
      drops.map FragmentsDrop.key =
        (list.filter fun entry => decide (entry.time = state.now)).map FragmentsTimeout.key := by
  induction list generalizing state with
  | nil =>
    exact ⟨state, [], rfl, htimed, hstored, hlist, rfl, rfl, (append_nil _).symm, nofun, rfl⟩
  | cons entry rest ih =>
    have hmem : entry ∈ state.timeoutEventList := hlist ▸ mem_cons_self
    rw [timeoutLoop]
    split
    next hdue =>
      have hopen : state.Open entry.key := (htimed.keys entry.key).mp (mem_map_of_mem hmem)
      obtain ⟨packet, timeExceeded, hpkt⟩ :=
        Ipv4L3Protocol.handleFragmentsTimeout_ok hstored hopen
      rw [handleFragmentsTimeout, hpkt]
      dsimp only
      rw [Transition.bind_ok]
      have hkeys := fun other =>
        (isSome_lookup_erase state.protocol.fragments entry.key other).symm
      obtain ⟨next, drops, hloop, hnext, hnextStored, hrest, hnow, hevs, hdrops, htimes,
          hdropKeys⟩ :=
        @ih { state with
          protocol := ⟨state.protocol.fragments.erase entry.key⟩
          timeoutIter := state.timeoutIter.erase entry.key
          dropped := state.dropped ++
            [⟨state.now, entry.key, entry.ipHeader, entry.iif, packet, timeExceeded⟩]
          timeoutEventList := rest } rfl
        (((htimed.dropFirst hlist).congr hkeys).of_same rfl rfl rfl rfl)
        (hstored.erase entry.key)
      refine ⟨next, _, hloop, hnext, hnextStored, ?_, hnow, hevs,
        hdrops.trans (append_assoc ..), ?_, ?_⟩
      · rw [hrest, filter_cons_of_neg (by simpa using hdue)]
      · intro drop hdrop
        rcases mem_append.mp hdrop with hhead | hlater
        · rw [mem_singleton.mp hhead]
        · exact htimes drop hlater
      · rw [map_append, hdropKeys, filter_cons_of_pos (by simpa using hdue)]
        rfl
    next hlater =>
      have hall := htimed.later_of_first hlist hlater
      have hkept : (entry :: rest).filter (fun other => decide (other.time ≠ state.now)) =
          entry :: rest := by
        refine filter_eq_self.mpr fun other hother => ?_
        simpa using ne_of_gt (hall other hother)
      have hnone :
          (entry :: rest).filter (fun other => decide (other.time = state.now)) = [] := by
        refine filter_eq_nil_iff.mpr fun other hother => ?_
        simpa using ne_of_gt (hall other hother)
      refine ⟨state, [], rfl, htimed, hstored, hlist.trans hkept.symm, rfl, rfl,
        (append_nil _).symm, nofun, ?_⟩
      rw [hnone]
      rfl

theorem handleTimeout_kept (hkept : Kept timeout state) (uid : Nat) :
    ∃ next, { state with events := state.events.drop uid }.handleTimeout = .ok next ∧
      Kept timeout next ∧ Ends timeout state ⟨state.now, .handleTimeout uid⟩ next := by
  obtain ⟨handled, drops, hloop, htimed, hstored, hrest, hnow, hevs, hdrops, htimes, hkeys⟩ :=
    @timeoutLoop_ok timeout { state with events := state.events.drop uid } state.timeoutEventList
      rfl (hkept.timed.of_same rfl rfl rfl rfl) hkept.stored
  have hdropped : ∃ drops, handled.dropped = state.dropped ++ drops ∧
      (∀ drop ∈ drops, drop.time = state.now) ∧
      drops.map FragmentsDrop.key = (state.timeoutEventList.filter
        fun entry => decide (entry.time = state.now)).map FragmentsTimeout.key :=
    ⟨drops, hdrops, htimes, hkeys⟩
  rw [handleTimeout, hloop, Transition.bind_ok]
  split
  next hnil =>
    refine ⟨handled, rfl, ⟨htimed, hstored, fun entry hmem => ?_⟩, hrest, hdropped, ?_,
      fun _ => hevs⟩
    · rw [hnil] at hmem
      cases hmem
    · intro first rest hcons
      cases hnil.symm.trans hcons
  next first rest hlist =>
    have hfst : first ∈ handled.timeoutEventList := hlist ▸ mem_cons_self
    have hbounds := htimed.bounds first hfst
    rw [if_neg (Nat.not_lt.mpr hbounds.1)]
    -- the timer is set for the first deadline
    have hset : (handled.schedule (first.time - handled.now)).events.find
        (handled.schedule (first.time - handled.now)).timeoutEvent = some ⟨first.time, ()⟩ := by
      have hfind := EventTable.find_schedule_self handled.events handled.now
        (first.time - handled.now) ()
      rwa [Nat.add_sub_cancel' hbounds.1] at hfind
    refine ⟨_, rfl, ⟨htimed.of_same rfl rfl rfl rfl, hstored, fun entry hmem => ?_⟩, hrest,
      hdropped, ?_, fun hnil => ?_⟩
    · refine ⟨_, hset, hbounds.1, ?_⟩
      have hord := htimed.ordered
      rw [hlist, pairwise_cons] at hord
      rw [schedule, hlist] at hmem
      rcases mem_cons.mp hmem with rfl | hlater
      · exact Nat.le_refl _
      · exact hord.1 entry hlater
    · intro other others hcons
      obtain rfl : first = other := (List.cons.inj (hlist.symm.trans hcons)).1
      exact hset
    · cases hlist.symm.trans hnil

variable {input : ReassemblyInput}

theorem le_of_inTime (htime : state.inTime input = true) :
    state.now ≤ input.now ∧
      ∀ slot event, state.events.find slot = some event → input.now ≤ event.due := by
  rw [inTime, Bool.and_eq_true, Bool.and_eq_true, decide_eq_true_eq, all_eq_true] at htime
  refine ⟨htime.1.1, fun slot event hfind => ?_⟩
  cases slot with
  | none => cases hfind
  | some uid => exact of_decide_eq_true (htime.1.2 ⟨uid, event⟩ (AList.mem_lookup_iff.mp hfind))

theorem Kept.elapse (hkept : Kept timeout state)
    (htime : state.inTime input = true) : Kept timeout { state with now := input.now } := by
  obtain ⟨hlater, hevs⟩ := le_of_inTime htime
  refine ⟨⟨hkept.timed.once, hkept.timed.keys, hkept.timed.ordered, fun entry hmem => ?_,
    hkept.timed.iters, hkept.timed.given, hkept.timed.distinct⟩, hkept.stored, fun entry hmem => ?_⟩
  · obtain ⟨event, hfind, -, hdue⟩ := hkept.pending entry hmem
    have hnext := hevs _ event hfind
    have hrecent := (hkept.timed.bounds entry hmem).2
    dsimp only
    omega
  · obtain ⟨event, hfind, -, hdue⟩ := hkept.pending entry hmem
    exact ⟨event, hfind, hevs _ event hfind, hdue⟩

theorem step_kept (hkept : Kept timeout state) (htime : state.inTime input = true) :
    ∃ next,
      (machine timeout).step state input = .ok next ∧ Kept timeout next ∧
        Ends timeout state input next := by
  have hnow := hkept.elapse htime
  obtain ⟨now, call⟩ := input
  cases call with
  | processFragment packet iif =>
    obtain ⟨result, next, hnext, hkeptNext, hends⟩ := processFragment_kept hnow packet iif
    refine ⟨next, ?_, hkeptNext, hends⟩
    simp only [machine, handle, hnext, Transition.bind_ok]
  | handleTimeout uid => exact handleTimeout_kept hnow uid

/-- Between two calls the entries of the list are those of the keys, in the order of their
deadlines, the timer is set for no later than the first, no deadline has passed, and every call
comes to its end. -/
structure Tracks (timeout : Nat) (state : Ipv4Reassembly) : Prop where
  once : (state.timeoutEventList.map FragmentsTimeout.key).Nodup
  keys : ∀ key, key ∈ state.timeoutEventList.map FragmentsTimeout.key ↔ state.Open key
  ordered : state.timeoutEventList.Pairwise fun first second => first.time ≤ second.time
  pending : state.Pending
  notLate : ∀ entry ∈ state.timeoutEventList, state.now ≤ entry.time
  calls : ∀ input, state.inTime input = true →
    ∃ next, (machine timeout).step state input = .ok next ∧ Ends timeout state input next

theorem tracks_of_reachable
    (hreach :
      (machine timeout).ReachableUnder (fun state input => state.inTime input = true) state) :
    Tracks timeout state := by
  have hkept : Kept timeout state := by
    refine hreach.invariant (kept_initial timeout) ?_
    intro before input after hkept htime hstep
    obtain ⟨next, hnext, hkeptNext, -⟩ := step_kept hkept htime
    obtain rfl := Except.ok.inj (hstep.symm.trans hnext)
    exact hkeptNext
  refine ⟨hkept.timed.once, hkept.timed.keys, hkept.timed.ordered, hkept.pending,
    fun entry hmem => (hkept.timed.bounds entry hmem).1, fun input htime => ?_⟩
  obtain ⟨next, hnext, -, hends⟩ := step_kept hkept htime
  exact ⟨next, hnext, hends⟩

/-! ## A timer that is left behind -/

def half (identification : BitVec 16) (last : Bool) : Fragment where
  header := ⟨0x0a000001, 0x0a000002, identification, 17, 8, if last then 8 else 0, !last, false⟩
  bytes := List.replicate 8 0

def overtaken : List ReassemblyInput :=
  [⟨0, .processFragment (half 1 false) 0⟩, ⟨10, .processFragment (half 2 false) 0⟩,
    ⟨20, .processFragment (half 1 true) 0⟩]

def afterOvertaken : Ipv4Reassembly :=
  (machine 30).after (fun state input => state.inTime input) overtaken initial

theorem afterOvertaken_reachable :
    (machine 30).ReachableUnder (fun state input => state.inTime input = true) afterOvertaken :=
  Machine.ReachableUnder.after (fun _ _ htime => htime) overtaken .init

theorem tracks_afterOvertaken :
    Tracks 30 afterOvertaken ∧
      afterOvertaken.timeoutEventList.map (fun entry => (entry.key, entry.time)) =
        [(fragmentKey (half 2 false).header, 40)] :=
  ⟨tracks_of_reachable afterOvertaken_reachable, by decide +kernel⟩

/-- The second datagram is due at 40, and the only event that is pending at 30. -/
theorem timer_before_deadline :
    ¬ ∀ timeout state,
      (machine timeout).ReachableUnder (fun state input => state.inTime input = true) state →
        ∀ first rest,
          state.timeoutEventList = first :: rest →
            ∃ uid event, state.events.pending.lookup uid = some event ∧ event.due = first.time := by
  intro hall
  have hlist : ∃ first, afterOvertaken.timeoutEventList = [first] ∧ first.time = 40 :=
    ⟨_, by rfl, by decide +kernel⟩
  have hevs : ∀ entry ∈ afterOvertaken.events.pending.entries, entry.2.due = 30 := by
    decide +kernel
  obtain ⟨first, hfst, htime⟩ := hlist
  obtain ⟨uid, event, hlook, hdue⟩ := hall 30 _ afterOvertaken_reachable first [] hfst
  have hthirty := hevs ⟨uid, event⟩ (AList.mem_lookup_iff.mp hlook)
  rw [hdue, htime] at hthirty
  cases hthirty

end Ipv4Reassembly

end HomaSird.Internet
