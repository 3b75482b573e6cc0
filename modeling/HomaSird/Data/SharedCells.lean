import Mathlib.Data.Finmap

/-! # Singly linked lists that share reference-counted tails

Cells point at their successors and count the pointers to them. A walk from a head through cells
with one pointer each is private to that head: only their own fields need care when the list
behind them changes.
-/

namespace HomaSird

universe u v

/-! ## Counting the entries of a map -/

section Tally

variable {Key : Type u} {Value : Type v} [DecidableEq Key]

def tally (test : Value → Bool) (map : Finmap fun _ : Key => Value) : Nat :=
  map.entries.countP fun entry => test entry.2

theorem countP_kerase (test : Value → Bool) (entries : List (Sigma fun _ : Key => Value))
    (key : Key) :
    (entries.kerase key).countP (fun entry => test entry.2) +
      ((entries.dlookup key).any test).toNat = entries.countP fun entry => test entry.2 := by
  induction entries with
  | nil => rfl
  | cons entry rest ih =>
    by_cases heq : key = entry.1
    · obtain ⟨stored, value⟩ := entry
      obtain rfl : key = stored := heq
      cases hval : test value <;> simp [hval]
    · rw [List.kerase_cons_ne heq, List.dlookup_cons_ne _ _ heq, List.countP_cons,
        List.countP_cons, ← ih]
      omega

theorem tally_erase (test : Value → Bool) (map : Finmap fun _ : Key => Value) (key : Key) :
    tally test (map.erase key) + ((map.lookup key).any test).toNat = tally test map := by
  induction map using Finmap.induction_on with
  | H entries =>
    have hcnt := countP_kerase test entries.entries key
    simpa [tally, AList.erase, AList.lookup] using hcnt

theorem tally_insert (test : Value → Bool) (map : Finmap fun _ : Key => Value) (key : Key)
    (value : Value) :
    tally test (map.insert key value) + ((map.lookup key).any test).toNat =
      tally test map + (test value).toNat := by
  rw [← tally_erase test map key]
  have hnot : key ∉ map.erase key := Finmap.notMem_erase_self
  have hinsert : map.insert key value = (map.erase key).insert key value := by
    refine Finmap.ext_lookup fun other => ?_
    by_cases heq : other = key
    · rw [heq, Finmap.lookup_insert, Finmap.lookup_insert]
    · rw [Finmap.lookup_insert_of_ne _ heq, Finmap.lookup_insert_of_ne _ heq,
        Finmap.lookup_erase_ne heq]
  have hcons : tally test ((map.erase key).insert key value) =
      tally test (map.erase key) + (test value).toNat := by
    rw [tally, Finmap.entries_insert_of_notMem hnot]
    cases hval : test value
    · exact Multiset.countP_cons_of_neg _ (by simp [hval])
    · exact Multiset.countP_cons_of_pos _ (by simp [hval])
  rw [hinsert, hcons]
  omega

theorem tally_pos (test : Value → Bool)
    {map : Finmap fun _ : Key => Value} {key : Key} {value : Value}
    (hlook : map.lookup key = some value) (htest : test value = true) : 0 < tally test map := by
  have herase := tally_erase test map key
  rw [hlook, Option.any_some, htest] at herase
  simp only [Bool.toNat_true] at herase
  omega

theorem two_le_tally (test : Value → Bool)
    {map : Finmap fun _ : Key => Value} {key other : Key} {value stored : Value} (hne : other ≠ key)
    (hlook : map.lookup key = some value) (hother : map.lookup other = some stored)
    (htest : test value = true) (hstored : test stored = true) : 2 ≤ tally test map := by
  have herase := tally_erase test map key
  have hpos := tally_pos test ((Finmap.lookup_erase_ne hne).trans hother) hstored
  rw [hlook, Option.any_some, htest] at herase
  simp only [Bool.toNat_true] at herase
  omega

theorem lookup_insert_ite (map : Finmap fun _ : Key => Value) (key other : Key) (value : Value) :
    (map.insert key value).lookup other = if other = key then some value else map.lookup other := by
  split
  next heq => rw [heq, Finmap.lookup_insert]
  next hne => rw [Finmap.lookup_insert_of_ne _ hne]

theorem lookup_erase_ite (map : Finmap fun _ : Key => Value) (key other : Key) :
    (map.erase key).lookup other = if other = key then none else map.lookup other := by
  split
  next heq => rw [heq, Finmap.lookup_erase]
  next hne => rw [Finmap.lookup_erase_ne hne]

end Tally

/-! ## Cells and the pointers to them -/

structure Cell (Payload : Type v) where
  next : Option Nat
  count : Nat
  payload : Payload
deriving DecidableEq

inductive Slot (Root : Type u) where
  | head (root : Root)
  | next (address : Nat)
deriving DecidableEq

structure SharedCells (Root : Type u) (Payload : Type v) where
  heads : Finmap fun _ : Root => Option Nat
  cells : Finmap fun _ : Nat => Cell Payload
  fresh : Nat

namespace SharedCells

variable {Root : Type u} {Payload : Type v} [DecidableEq Root]

def get (store : SharedCells Root Payload) : Slot Root → Option (Option Nat)
  | .head root => store.heads.lookup root
  | .next address => (store.cells.lookup address).map Cell.next

def set (store : SharedCells Root Payload) (slot : Slot Root) (target : Option Nat) :
    SharedCells Root Payload :=
  match slot with
  | .head root => { store with heads := store.heads.insert root target }
  | .next address =>
    match store.cells.lookup address with
    | some cell => { store with cells := store.cells.insert address { cell with next := target } }
    | none => store

def adjust (store : SharedCells Root Payload) (address : Nat) (change : Nat → Nat) :
    SharedCells Root Payload :=
  match store.cells.lookup address with
  | some cell =>
    { store with cells := store.cells.insert address { cell with count := change cell.count } }
  | none => store

/-- The count behind a pointer that may be null. -/
def adjustTarget (store : SharedCells Root Payload) (target : Option Nat) (change : Nat → Nat) :
    SharedCells Root Payload :=
  match target with
  | some address => store.adjust address change
  | none => store

def overwrite (store : SharedCells Root Payload) (address : Nat) (payload : Payload) :
    SharedCells Root Payload :=
  match store.cells.lookup address with
  | some cell =>
    { store with cells := store.cells.insert address { cell with payload := payload } }
  | none => store

def alloc (store : SharedCells Root Payload) (cell : Cell Payload) : SharedCells Root Payload where
  heads := store.heads
  cells := store.cells.insert store.fresh cell
  fresh := store.fresh + 1

def free (store : SharedCells Root Payload) (address : Nat) : SharedCells Root Payload :=
  { store with cells := store.cells.erase address }

def refs (store : SharedCells Root Payload) (address : Nat) : Nat :=
  tally (fun target => target == some address) store.heads +
    tally (fun cell => cell.next == some address) store.cells

def countOf (store : SharedCells Root Payload) (address : Nat) : Nat :=
  ((store.cells.lookup address).map Cell.count).getD 0

variable {store after : SharedCells Root Payload} {address other : Nat} {cell : Cell Payload}
  {slot holder start last : Slot Root} {target : Option Nat} {root : Root}

theorem ext_lookup (hheads : ∀ root, after.heads.lookup root = store.heads.lookup root)
    (hcells : ∀ address, after.cells.lookup address = store.cells.lookup address)
    (hfresh : after.fresh = store.fresh) : after = store := by
  obtain ⟨heads, cells, fresh⟩ := store
  obtain ⟨headsAfter, cellsAfter, freshAfter⟩ := after
  obtain rfl : headsAfter = heads := Finmap.ext_lookup hheads
  obtain rfl : cellsAfter = cells := Finmap.ext_lookup hcells
  obtain rfl : freshAfter = fresh := hfresh
  rfl

omit [DecidableEq Root] in
theorem countOf_eq (hcell : store.cells.lookup address = some cell) :
    store.countOf address = cell.count := by
  rw [countOf, hcell]
  rfl

omit [DecidableEq Root] in
theorem mem_cells : address ∈ store.cells ↔ ∃ cell, store.cells.lookup address = some cell :=
  Finmap.mem_iff

theorem heads_set (slot : Slot Root) (target : Option Nat) (root : Root) :
    (store.set slot target).heads.lookup root =
      if slot = .head root then some target else store.heads.lookup root := by
  cases slot with
  | head changed =>
    rw [set, lookup_insert_ite]
    simp only [Slot.head.injEq, eq_comm]
  | next address =>
    rw [if_neg (fun heq => nomatch heq), set]
    split <;> rfl

theorem cells_set (slot : Slot Root) (target : Option Nat) (address : Nat) :
    (store.set slot target).cells.lookup address =
      if slot = .next address then
        (store.cells.lookup address).map fun cell => { cell with next := target }
      else store.cells.lookup address := by
  cases slot with
  | head root => rw [if_neg (fun heq => nomatch heq), set]
  | next changed =>
    by_cases heq : changed = address
    · subst heq
      rw [if_pos rfl, set]
      split
      next cell hcell => rw [hcell, lookup_insert_ite, if_pos rfl, Option.map_some]
      next hcell => rw [hcell, Option.map_none]
    · rw [if_neg (fun hslot => heq (Slot.next.inj hslot)), set]
      split
      next cell _ => rw [lookup_insert_ite, if_neg (Ne.symm heq)]
      · rfl

@[simp] theorem cells_set_head (root : Root) (target : Option Nat) :
    (store.set (.head root) target).cells = store.cells := rfl

theorem exists_get (hslot : store.get slot = some target) (hheads : after.heads = store.heads)
    (hmem : ∀ address ∈ store.cells, address ∈ after.cells) :
    ∃ held, after.get slot = some held := by
  cases slot with
  | head root =>
    refine ⟨target, ?_⟩
    rw [get, hheads]
    exact hslot
  | next address =>
    obtain ⟨cell, hcell, -⟩ := Option.map_eq_some_iff.mp hslot
    obtain ⟨kept, hkept⟩ := mem_cells.mp (hmem address (mem_cells.mpr ⟨cell, hcell⟩))
    exact ⟨kept.next, by rw [get, hkept]; rfl⟩

theorem get_set_self (hslot : store.get slot = some target)
    (next : Option Nat) : (store.set slot next).get slot = some next := by
  cases slot with
  | head root => rw [get, heads_set, if_pos rfl]
  | next address =>
    obtain ⟨cell, hcell, -⟩ := Option.map_eq_some_iff.mp hslot
    rw [get, cells_set, if_pos rfl, hcell]
    rfl

theorem get_set_ne (hne : holder ≠ slot)
    (next : Option Nat) : (store.set slot next).get holder = store.get holder := by
  cases holder with
  | head root => rw [get, heads_set, if_neg (Ne.symm hne), get]
  | next address => rw [get, cells_set, if_neg (Ne.symm hne), get]

/-- A pointer stored over itself changes no head and no cell. -/
theorem heads_set_same (hslot : store.get slot = some target)
    (root : Root) : (store.set slot target).heads.lookup root = store.heads.lookup root := by
  rw [heads_set]
  split
  next heq =>
    subst heq
    exact hslot.symm
  · rfl

theorem cells_set_same (hslot : store.get slot = some target) (address : Nat) :
    (store.set slot target).cells.lookup address = store.cells.lookup address := by
  rw [cells_set]
  split
  next heq =>
    subst heq
    obtain ⟨cell, hcell, rfl⟩ := Option.map_eq_some_iff.mp hslot
    rw [hcell]
    rfl
  · rfl

@[simp] theorem fresh_set
    (slot : Slot Root) (target : Option Nat) : (store.set slot target).fresh = store.fresh := by
  cases slot with
  | head root => rfl
  | next address =>
    rw [set]
    split <;> rfl

omit [DecidableEq Root] in
theorem cells_adjust (address : Nat) (change : Nat → Nat) (other : Nat) :
    (store.adjust address change).cells.lookup other =
      if other = address then
        (store.cells.lookup other).map fun cell => { cell with count := change cell.count }
      else store.cells.lookup other := by
  by_cases heq : other = address
  · subst heq
    rw [if_pos rfl, adjust]
    split
    next cell hcell => rw [hcell, lookup_insert_ite, if_pos rfl, Option.map_some]
    next hcell => rw [hcell, Option.map_none]
  · rw [if_neg heq, adjust]
    split
    next cell _ => rw [lookup_insert_ite, if_neg heq]
    · rfl

omit [DecidableEq Root] in
theorem adjust_congr {change same : Nat → Nat}
    (hcell : store.cells.lookup address = some cell) (hsame : change cell.count = same cell.count) :
    store.adjust address change = store.adjust address same := by
  rw [adjust, adjust, hcell]
  simp only [hsame]

omit [DecidableEq Root] in
@[simp] theorem heads_adjust
    (address : Nat) (change : Nat → Nat) : (store.adjust address change).heads = store.heads := by
  rw [adjust]
  split <;> rfl

omit [DecidableEq Root] in
@[simp] theorem fresh_adjust
    (address : Nat) (change : Nat → Nat) : (store.adjust address change).fresh = store.fresh := by
  rw [adjust]
  split <;> rfl

omit [DecidableEq Root] in
@[simp] theorem heads_adjustTarget (target : Option Nat)
    (change : Nat → Nat) : (store.adjustTarget target change).heads = store.heads := by
  cases target with
  | none => rfl
  | some address => exact heads_adjust address change

omit [DecidableEq Root] in
@[simp] theorem fresh_adjustTarget (target : Option Nat)
    (change : Nat → Nat) : (store.adjustTarget target change).fresh = store.fresh := by
  cases target with
  | none => rfl
  | some address => exact fresh_adjust address change

omit [DecidableEq Root] in
theorem cells_adjustTarget_of_ne (hne : ∀ held, target = some held → address ≠ held)
    (change : Nat → Nat) :
    (store.adjustTarget target change).cells.lookup address = store.cells.lookup address := by
  cases target with
  | none => rfl
  | some held => rw [adjustTarget, cells_adjust, if_neg (hne held rfl)]

omit [DecidableEq Root] in
theorem cells_overwrite (address : Nat) (payload : Payload) (other : Nat) :
    (store.overwrite address payload).cells.lookup other =
      if other = address then
        (store.cells.lookup other).map fun cell => { cell with payload := payload }
      else store.cells.lookup other := by
  by_cases heq : other = address
  · subst heq
    rw [if_pos rfl, overwrite]
    split
    next cell hcell => rw [hcell, lookup_insert_ite, if_pos rfl, Option.map_some]
    next hcell => rw [hcell, Option.map_none]
  · rw [if_neg heq, overwrite]
    split
    next cell _ => rw [lookup_insert_ite, if_neg heq]
    · rfl

omit [DecidableEq Root] in
@[simp] theorem heads_overwrite (address : Nat)
    (payload : Payload) : (store.overwrite address payload).heads = store.heads := by
  rw [overwrite]
  split <;> rfl

omit [DecidableEq Root] in
@[simp] theorem fresh_free (address : Nat) : (store.free address).fresh = store.fresh := rfl

omit [DecidableEq Root] in
@[simp] theorem fresh_overwrite (address : Nat) (payload : Payload) :
    (store.overwrite address payload).fresh = store.fresh := by
  rw [overwrite]
  split <;> rfl

omit [DecidableEq Root] in
theorem cells_alloc (cell : Cell Payload) (other : Nat) :
    (store.alloc cell).cells.lookup other =
      if other = store.fresh then some cell else store.cells.lookup other :=
  lookup_insert_ite _ _ _ _

omit [DecidableEq Root] in
theorem cells_free (address other : Nat) :
    (store.free address).cells.lookup other =
      if other = address then none else store.cells.lookup other :=
  lookup_erase_ite _ _ _

/-! ## What becomes of the counts -/

@[simp] theorem countOf_set (slot : Slot Root) (target : Option Nat)
    (address : Nat) : (store.set slot target).countOf address = store.countOf address := by
  rw [countOf, cells_set, countOf]
  split
  · rw [Option.map_map]
    rfl
  · rfl

omit [DecidableEq Root] in
theorem countOf_adjust (hcell : store.cells.lookup address = some cell) (change : Nat → Nat)
    (other : Nat) :
    (store.adjust address change).countOf other =
      if other = address then change cell.count else store.countOf other := by
  rw [countOf, cells_adjust, countOf]
  split
  next heq =>
    rw [heq, hcell]
    rfl
  · rfl

omit [DecidableEq Root] in
@[simp] theorem countOf_overwrite (address : Nat) (payload : Payload)
    (other : Nat) : (store.overwrite address payload).countOf other = store.countOf other := by
  rw [countOf, cells_overwrite, countOf]
  split
  · rw [Option.map_map]
    rfl
  · rfl

omit [DecidableEq Root] in
theorem countOf_alloc (cell : Cell Payload) (address : Nat) :
    (store.alloc cell).countOf address =
      if address = store.fresh then cell.count else store.countOf address := by
  rw [countOf, cells_alloc, countOf]
  split <;> rfl

omit [DecidableEq Root] in
theorem countOf_free (address other : Nat) :
    (store.free address).countOf other = if other = address then 0 else store.countOf other := by
  rw [countOf, cells_free, countOf]
  split <;> rfl

@[simp] theorem mem_set (slot : Slot Root) (target : Option Nat)
    (address : Nat) : address ∈ (store.set slot target).cells ↔ address ∈ store.cells := by
  rw [← Finmap.lookup_isSome, ← Finmap.lookup_isSome, cells_set]
  split
  · rw [Option.isSome_map]
  · rfl

omit [DecidableEq Root] in
@[simp] theorem mem_adjust (address : Nat) (change : Nat → Nat)
    (other : Nat) : other ∈ (store.adjust address change).cells ↔ other ∈ store.cells := by
  rw [← Finmap.lookup_isSome, ← Finmap.lookup_isSome, cells_adjust]
  split
  · rw [Option.isSome_map]
  · rfl

omit [DecidableEq Root] in
@[simp] theorem mem_adjustTarget (target : Option Nat) (change : Nat → Nat)
    (other : Nat) : other ∈ (store.adjustTarget target change).cells ↔ other ∈ store.cells := by
  cases target with
  | none => exact Iff.rfl
  | some address => exact mem_adjust address change other

omit [DecidableEq Root] in
@[simp] theorem mem_overwrite (address : Nat) (payload : Payload)
    (other : Nat) : other ∈ (store.overwrite address payload).cells ↔ other ∈ store.cells := by
  rw [← Finmap.lookup_isSome, ← Finmap.lookup_isSome, cells_overwrite]
  split
  · rw [Option.isSome_map]
  · rfl

omit [DecidableEq Root] in
theorem mem_alloc (cell : Cell Payload) (address : Nat) :
    address ∈ (store.alloc cell).cells ↔ address = store.fresh ∨ address ∈ store.cells :=
  Finmap.mem_insert

omit [DecidableEq Root] in
theorem mem_free (address other : Nat) :
    other ∈ (store.free address).cells ↔ other ≠ address ∧ other ∈ store.cells :=
  Finmap.mem_erase

/-! ## How the number of references moves -/

def hits (target : Option Nat) (address : Nat) : Nat := (target == some address).toNat

@[simp] theorem hits_none (address : Nat) : hits none address = 0 := rfl

theorem hits_some (address other : Nat) :
    hits (some other) address = if address = other then 1 else 0 := by
  unfold hits
  by_cases heq : address = other
  · simp [heq]
  · simp [heq, Ne.symm heq]

omit [DecidableEq Root] in
theorem countOf_retain (htarget : ∀ address, target = some address → address ∈ store.cells)
    (address : Nat) :
    (store.adjustTarget target (· + 1)).countOf address =
      store.countOf address + hits target address := by
  cases target with
  | none => rfl
  | some held =>
    obtain ⟨cell, hcell⟩ := mem_cells.mp (htarget held rfl)
    rw [adjustTarget, countOf_adjust hcell, hits_some]
    split
    next heq => rw [heq, countOf_eq hcell]
    · rfl

theorem refs_set (hslot : store.get slot = some target) (next : Option Nat) (address : Nat) :
    (store.set slot next).refs address + hits target address =
      store.refs address + hits next address := by
  cases slot with
  | head root =>
    have htally := tally_insert (fun target => target == some address) store.heads root next
    rw [show store.heads.lookup root = some target from hslot, Option.any_some] at htally
    simp only [refs, hits, set]
    omega
  | next holder =>
    obtain ⟨cell, hcell, rfl⟩ := Option.map_eq_some_iff.mp hslot
    have htally := tally_insert (fun cell => cell.next == some address) store.cells holder
      { cell with next := next }
    simp only [hcell, Option.any_some] at htally
    simp only [refs, hits, set, hcell]
    omega

theorem refs_set_new (hroot : store.heads.lookup root = none) (next : Option Nat) (address : Nat) :
    (store.set (.head root) next).refs address = store.refs address + hits next address := by
  have htally := tally_insert (fun target => target == some address) store.heads root next
  rw [hroot, Option.any_none, Bool.toNat_false] at htally
  simp only [refs, hits, set]
  omega

omit [DecidableEq Root] in
@[simp] theorem refs_adjust (address : Nat) (change : Nat → Nat)
    (other : Nat) : (store.adjust address change).refs other = store.refs other := by
  rw [adjust]
  split
  next cell hcell =>
    have htally := tally_insert (fun cell => cell.next == some other) store.cells address
      { cell with count := change cell.count }
    simp only [hcell, Option.any_some] at htally
    simp only [refs]
    omega
  · rfl

omit [DecidableEq Root] in
@[simp] theorem refs_adjustTarget (target : Option Nat) (change : Nat → Nat)
    (other : Nat) : (store.adjustTarget target change).refs other = store.refs other := by
  cases target with
  | none => rfl
  | some address => exact refs_adjust address change other

omit [DecidableEq Root] in
theorem refs_overwrite (address : Nat) (payload : Payload)
    (other : Nat) : (store.overwrite address payload).refs other = store.refs other := by
  rw [overwrite]
  split
  next cell hcell =>
    have htally := tally_insert (fun cell => cell.next == some other) store.cells address
      { cell with payload := payload }
    simp only [hcell, Option.any_some] at htally
    simp only [refs]
    omega
  · rfl

omit [DecidableEq Root] in
theorem refs_alloc (hfresh : store.cells.lookup store.fresh = none) (cell : Cell Payload) (address :
    Nat) : (store.alloc cell).refs address = store.refs address + hits cell.next address := by
  have htally := tally_insert (fun cell => cell.next == some address) store.cells store.fresh cell
  rw [hfresh, Option.any_none, Bool.toNat_false] at htally
  simp only [refs, hits, alloc]
  omega

omit [DecidableEq Root] in
theorem refs_free (hcell : store.cells.lookup address = some cell)
    (other : Nat) : (store.free address).refs other + hits cell.next other = store.refs other := by
  have htally := tally_erase (fun cell => cell.next == some other) store.cells address
  rw [hcell, Option.any_some] at htally
  simp only [refs, hits, free]
  omega

theorem two_le_refs (hslot : store.get slot = some (some address)) (hholder :
    store.get holder = some (some address)) (hne : holder ≠ slot) : 2 ≤ store.refs address := by
  unfold refs
  cases slot with
  | head root =>
    cases holder with
    | head other =>
      have htwo := two_le_tally (fun target => target == some address)
        (fun heq => hne (congrArg Slot.head heq)) hslot hholder (beq_self_eq_true _)
        (beq_self_eq_true _)
      omega
    | next other =>
      obtain ⟨cell, hcell, hnext⟩ := Option.map_eq_some_iff.mp hholder
      have hhead := tally_pos (fun target => target == some address) hslot
        (beq_self_eq_true _)
      have htail := tally_pos (fun cell => cell.next == some address) hcell
        (by simp [hnext])
      omega
  | next behind =>
    obtain ⟨cell, hcell, hnext⟩ := Option.map_eq_some_iff.mp hslot
    cases holder with
    | head other =>
      have hhead := tally_pos (fun target => target == some address) hholder
        (beq_self_eq_true _)
      have htail := tally_pos (fun cell => cell.next == some address) hcell
        (by simp [hnext])
      omega
    | next other =>
      obtain ⟨second, hsnd, hnextSecond⟩ := Option.map_eq_some_iff.mp hholder
      have htwo := two_le_tally (fun cell => cell.next == some address)
        (fun heq => hne (congrArg Slot.next heq)) hcell hsnd (by simp [hnext])
        (by simp [hnextSecond])
      omega

end SharedCells

end HomaSird
