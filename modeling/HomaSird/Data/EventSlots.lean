import HomaSird.Data.UnorderedMap

/-! # Pending events and the slots that name them

Whoever schedules an event keeps its number in a slot and cancels it through the slot. If a slot
is overwritten only when its event was cancelled or has run, a holder has at most one pending
event, which does not outlive it.
-/

namespace HomaSird

open List

universe u v

structure PendingEvent (Action : Type u) where
  due : Nat
  action : Action

/-- The events that wait to run, each under a number that has been given out. -/
structure EventTable (Action : Type u) where
  pending : UnorderedMap Nat (PendingEvent Action)
  nextUid : Nat
  given : ∀ uid event, pending.lookup uid = some event → uid < nextUid

namespace EventTable

variable {Action : Type u} {Key : Type v} {table : EventTable Action} {uid : Nat}
  {event : PendingEvent Action}

def empty : EventTable Action where
  pending := ∅
  nextUid := 0
  given _ _ hlook := nomatch hlook

def schedule (table : EventTable Action) (now delay : Nat) (action : Action) :
    Nat × EventTable Action :=
  (table.nextUid, {
    pending := table.pending.insert table.nextUid ⟨now + delay, action⟩
    nextUid := table.nextUid + 1
    given := fun uid event hlook => by
      rw [UnorderedMap.lookup_insert] at hlook
      split at hlook
      next heq => exact heq ▸ Nat.lt_succ_self _
      · exact Nat.lt_succ_of_lt (table.given uid event hlook) })

def drop (table : EventTable Action) (uid : Nat) : EventTable Action where
  pending := table.pending.erase uid
  nextUid := table.nextUid
  given := fun other event hlook => by
    rw [UnorderedMap.lookup_erase] at hlook
    split at hlook
    · cases hlook
    · exact table.given other event hlook

def cancel (table : EventTable Action) : Option Nat → EventTable Action
  | none => table
  | some uid => table.drop uid

def find (table : EventTable Action) (slot : Option Nat) : Option (PendingEvent Action) :=
  slot.bind fun uid => table.pending.lookup uid

def isRunning (table : EventTable Action) (slot : Option Nat) : Bool := (table.find slot).isSome

def getDelayLeft (table : EventTable Action) (now : Nat) (slot : Option Nat) : Nat :=
  (table.find slot).elim 0 fun event => event.due - now

theorem find_some : table.find (some uid) = table.pending.lookup uid := rfl

theorem lookup_schedule (table : EventTable Action) (now delay : Nat) (action : Action)
    (uid : Nat) :
    (table.schedule now delay action).2.pending.lookup uid =
      if uid = table.nextUid then some ⟨now + delay, action⟩ else table.pending.lookup uid :=
  UnorderedMap.lookup_insert ..

theorem lookup_drop (table : EventTable Action) (uid other : Nat) :
    (table.drop uid).pending.lookup other =
      if other = uid then none else table.pending.lookup other :=
  UnorderedMap.lookup_erase ..

theorem lookup_cancel (table : EventTable Action) (slot : Option Nat) (uid : Nat) :
    (table.cancel slot).pending.lookup uid =
      if slot = some uid then none else table.pending.lookup uid := by
  cases slot with
  | none => rfl
  | some cancelled =>
    rw [cancel, lookup_drop]
    simp [eq_comm]

@[simp] theorem nextUid_cancel (table : EventTable Action)
    (slot : Option Nat) : (table.cancel slot).nextUid = table.nextUid := by
  cases slot <;> rfl

theorem find_schedule_self (table : EventTable Action) (now delay : Nat) (action : Action) :
    (table.schedule now delay action).2.find (some (table.schedule now delay action).1) =
      some ⟨now + delay, action⟩ := by
  rw [find_some, lookup_schedule]
  exact if_pos rfl

structure Slotted (owner : Action → Option Key) (table : EventTable Action)
    (holders : List (Key × Option Nat)) : Prop where
  nodup : (holders.map Prod.fst).Nodup
  given : ∀ key uid, (key, some uid) ∈ holders → uid < table.nextUid
  owned : ∀ uid event key, table.pending.lookup uid = some event →
    owner event.action = some key → (key, some uid) ∈ holders
  names : ∀ key uid event, (key, some uid) ∈ holders → table.pending.lookup uid = some event →
    owner event.action = some key

namespace Slotted

variable {owner : Action → Option Key} {holders : List (Key × Option Nat)} {key other : Key}
  {slot : Option Nat}

theorem empty (owner : Action → Option Key) : Slotted owner .empty [] where
  nodup := nodup_nil
  given _ _ hmem := nomatch hmem
  owned _ _ _ hlook := nomatch hlook
  names _ _ _ hmem := nomatch hmem

theorem slot_eq (hslotted : Slotted owner table holders) {second : Option Nat}
    (hfst : (key, slot) ∈ holders) (hsnd : (key, second) ∈ holders) : slot = second := by
  have hsame := inj_on_of_nodup_map hslotted.nodup hfst hsnd rfl
  exact congrArg Prod.snd hsame

theorem single (hslotted : Slotted owner table holders)
    {second : Nat} {later : PendingEvent Action} (hfst : table.pending.lookup uid = some event)
    (hsnd : table.pending.lookup second = some later) (howner : owner event.action = some key)
    (hsame : owner later.action = some key) : uid = second := by
  have hslot := hslotted.slot_eq (hslotted.owned uid event key hfst howner)
    (hslotted.owned second later key hsnd hsame)
  exact Option.some.inj hslot

theorem perm (hslotted : Slotted owner table holders) {same : List (Key × Option Nat)}
    (hperm : holders.Perm same) : Slotted owner table same where
  nodup := (hperm.map Prod.fst).nodup hslotted.nodup
  given key uid hmem := hslotted.given key uid (hperm.mem_iff.mpr hmem)
  owned uid event key hlook howner :=
    hperm.mem_iff.mp (hslotted.owned uid event key hlook howner)
  names key uid event hmem := hslotted.names key uid event (hperm.mem_iff.mpr hmem)

theorem hold (hslotted : Slotted owner table holders) (hfresh : key ∉ holders.map Prod.fst) :
    Slotted owner table ((key, none) :: holders) where
  nodup := nodup_cons.mpr ⟨hfresh, hslotted.nodup⟩
  given other uid hmem := by
    rcases mem_cons.mp hmem with heq | hold
    · cases heq
    · exact hslotted.given other uid hold
  owned uid event other hlook howner :=
    mem_cons_of_mem _ (hslotted.owned uid event other hlook howner)
  names other uid event hmem hlook := by
    rcases mem_cons.mp hmem with heq | hold
    · cases heq
    · exact hslotted.names other uid event hold hlook

theorem drop (hslotted : Slotted owner table holders) (uid : Nat) :
    Slotted owner (table.drop uid) holders where
  nodup := hslotted.nodup
  given := hslotted.given
  owned other event key hlook howner := by
    rw [lookup_drop] at hlook
    split at hlook
    · cases hlook
    · exact hslotted.owned other event key hlook howner
  names key other event hmem hlook := by
    rw [lookup_drop] at hlook
    split at hlook
    · cases hlook
    · exact hslotted.names key other event hmem hlook

theorem cancel (hslotted : Slotted owner table holders)
    (slot : Option Nat) : Slotted owner (table.cancel slot) holders := by
  cases slot with
  | none => exact hslotted
  | some uid => exact hslotted.drop uid

theorem schedule (hslotted : Slotted owner table holders) (now delay : Nat) {action : Action}
    (hnone : owner action = none) :
    Slotted owner (table.schedule now delay action).2 holders where
  nodup := hslotted.nodup
  given key uid hmem := Nat.lt_succ_of_lt (hslotted.given key uid hmem)
  owned uid event key hlook howner := by
    rw [lookup_schedule] at hlook
    split at hlook
    · cases hlook
      rw [hnone] at howner
      cases howner
    · exact hslotted.owned uid event key hlook howner
  names key uid event hmem hlook := by
    rw [lookup_schedule, if_neg (ne_of_lt (hslotted.given key uid hmem))] at hlook
    exact hslotted.names key uid event hmem hlook

theorem leave {before behind : List (Key × Option Nat)}
    (hslotted : Slotted owner table (before ++ (key, slot) :: behind))
    (hidle : table.find slot = none) : Slotted owner table (before ++ behind) := by
  have hmoved := hslotted.perm perm_middle
  have hmem {item : Key × Option Nat} (hitem : item ∈ before ++ behind) :
      item ∈ (key, slot) :: (before ++ behind) := mem_cons_of_mem _ hitem
  refine ⟨(nodup_cons.mp hmoved.nodup).2, fun other uid hother =>
    hmoved.given other uid (hmem hother), ?_, fun other uid event hother =>
    hmoved.names other uid event (hmem hother)⟩
  intro uid event other hlook howner
  rcases mem_cons.mp (hmoved.owned uid event other hlook howner) with heq | hin
  · obtain ⟨-, rfl⟩ := Prod.mk.inj heq
    rw [find_some, hlook] at hidle
    cases hidle
  · exact hin

theorem find_drop (hslotted : Slotted owner table holders) (hmem : (key, slot) ∈ holders)
    (hforeign : ∀ event, table.pending.lookup uid = some event → owner event.action ≠ some key) :
    (table.drop uid).find slot = table.find slot := by
  cases slot with
  | none => rfl
  | some named =>
    rw [find_some, find_some, lookup_drop]
    split
    next hsame =>
      subst hsame
      cases hlook : table.pending.lookup named with
      | none => rfl
      | some event =>
        exact absurd (hslotted.names key named event hmem hlook) (hforeign event hlook)
    · rfl

theorem find_cancel (hslotted : Slotted owner table holders)
    {second : Option Nat} (hkey : (key, slot) ∈ holders) (hother : (other, second) ∈ holders)
    (hne : other ≠ key) : (table.cancel slot).find second = table.find second := by
  cases slot with
  | none => rfl
  | some uid =>
    refine hslotted.find_drop hother fun event hlook howner => hne ?_
    have hname := hslotted.names key uid event hkey hlook
    exact Option.some.inj (howner.symm.trans hname)

theorem find_schedule (hslotted : Slotted owner table holders)
    (hmem : (key, slot) ∈ holders) (now delay : Nat)
    (action : Action) : (table.schedule now delay action).2.find slot = table.find slot := by
  cases slot with
  | none => rfl
  | some uid =>
    rw [find_some, find_some, lookup_schedule, if_neg (ne_of_lt (hslotted.given key uid hmem))]

section

variable {before behind : List (Key × Option Nat)} {renamed : Key} {action : Action} (hslotted :
  Slotted owner table (before ++ (key, slot) :: behind))
include hslotted

/-- A holder without a pending event schedules one, perhaps under a new name. -/
theorem arm (hidle : table.find slot = none)
    (hrenamed : renamed = key ∨ renamed ∉ (before ++ (key, slot) :: behind).map Prod.fst)
    (now delay : Nat) (howner : owner action = some renamed) :
    Slotted owner (table.schedule now delay action).2
      (before ++ (renamed, some (table.schedule now delay action).1) :: behind) := by
  have hleft := hslotted.leave hidle
  have hnew : renamed ∉ (before ++ behind).map Prod.fst := by
    have hnodup := ((hslotted.perm perm_middle).nodup)
    rcases hrenamed with rfl | hfresh
    · exact (nodup_cons.mp hnodup).1
    · intro hmem
      apply hfresh
      rw [map_append] at hmem ⊢
      rcases mem_append.mp hmem with hfront | hback
      · exact mem_append_left _ hfront
      · exact mem_append_right _ (.tail _ hback)
  suffices hfst : Slotted owner (table.schedule now delay action).2
      ((renamed, some (table.schedule now delay action).1) :: (before ++ behind)) from
    hfst.perm perm_middle.symm
  refine ⟨nodup_cons.mpr ⟨hnew, hleft.nodup⟩, ?_, ?_, ?_⟩
  · intro other uid hmem
    rcases mem_cons.mp hmem with heq | hother
    · obtain ⟨-, huid⟩ := Prod.mk.inj heq
      cases huid
      exact Nat.lt_succ_self _
    · exact Nat.lt_succ_of_lt (hleft.given other uid hother)
  · intro uid event other hlook hother
    rw [lookup_schedule] at hlook
    split at hlook
    next huid =>
      cases hlook
      obtain rfl := Option.some.inj (howner.symm.trans hother)
      exact huid ▸ mem_cons_self
    · exact mem_cons_of_mem _ (hleft.owned uid event other hlook hother)
  · intro other uid event hmem hlook
    rw [lookup_schedule] at hlook
    rcases mem_cons.mp hmem with heq | hin
    · obtain ⟨rfl, huid⟩ := Prod.mk.inj heq
      have hnext : uid = table.nextUid := Option.some.inj huid
      rw [if_pos hnext] at hlook
      cases hlook
      exact howner
    · rw [if_neg (ne_of_lt (hleft.given other uid hin))] at hlook
      exact hleft.names other uid event hin hlook

theorem rearm (hrenamed : renamed = key ∨ renamed ∉ (before ++ (key, slot) :: behind).map Prod.fst)
    (now delay : Nat) (howner : owner action = some renamed) :
    Slotted owner ((table.cancel slot).schedule now delay action).2
      (before ++ (renamed, some ((table.cancel slot).schedule now delay action).1) :: behind) := by
  refine (hslotted.cancel slot).arm ?_ hrenamed now delay howner
  cases slot with
  | none => rfl
  | some uid =>
    rw [find_some, lookup_cancel]
    exact if_pos rfl

end

end Slotted

end EventTable

end HomaSird
