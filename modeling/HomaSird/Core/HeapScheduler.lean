import HomaSird.Core.ListScheduler
import HomaSird.Data.BinaryHeap

/-! # The heap event queue

`Remove` moves the last leaf into the place of the removed event and only ever lets it sink: the
heap stays in order as long as that leaf does not come before the parent of the place.
-/

namespace HomaSird.Core

open Transition List

namespace HeapScheduler

/-! ## The array -/

def emptyEvent : Event := ⟨0, ⟨0, 0, 0⟩⟩

/-- `m_heap[id]` -/
def entry (heap : List Event) (id : Nat) : Event := heap.getD id emptyEvent

def parent (id : Nat) : Nat := id / 2

def leftChild (id : Nat) : Nat := id * 2

def rightChild (id : Nat) : Nat := id * 2 + 1

def root : Nat := 1

def isRoot (id : Nat) : Bool := id == root

def last (heap : List Event) : Nat := heap.length - 1

def isBottom (heap : List Event) (id : Nat) : Bool := heap.length ≤ id

/-- `Exch` asserts that both places are in the array. -/
def exch (heap : List Event) (a b : Nat) : Option (List Event) :=
  if b < heap.length ∧ a < heap.length then
    some ((heap.set a (entry heap b)).set b (entry heap a))
  else none

def isLessStrictly (heap : List Event) (a b : Nat) : Bool :=
  (entry heap a).key.before (entry heap b).key

def smallest (heap : List Event) (a b : Nat) : Nat := if isLessStrictly heap a b then a else b

def isEmpty (heap : List Event) : Bool := heap.length == 1

/-! ## The repairs -/

/-- The loop of `BottomUp`; the place halves in every round. -/
def bottomUpLoop : Nat → Nat → List Event → Option (List Event)
  | 0, _, _ => none
  | fuel + 1, index, heap =>
    if !isRoot index && isLessStrictly heap index (parent index) then do
      let heap ← exch heap index (parent index)
      bottomUpLoop fuel (parent index) heap
    else some heap

def bottomUp (heap : List Event) : Option (List Event) :=
  bottomUpLoop heap.length (last heap) heap

/-- The loop of `TopDown`, and what follows it; the place doubles in every round. -/
def topDownLoop : Nat → Nat → List Event → Option (List Event)
  | 0, _, _ => none
  | fuel + 1, index, heap =>
    if !isBottom heap (rightChild index) then
      let tmp := smallest heap (leftChild index) (rightChild index)
      if isLessStrictly heap index tmp then some heap
      else do
        let heap ← exch heap index tmp
        topDownLoop fuel tmp heap
    else if isBottom heap index then some heap
    else if isBottom heap (leftChild index) then some heap
    else if isLessStrictly heap index (leftChild index) then some heap
    else exch heap index (leftChild index)

def topDown (start : Nat) (heap : List Event) : Option (List Event) :=
  topDownLoop (heap.length + 1) start heap

/-! ## The calls -/

def insert (ev : Event) (heap : List Event) : Option (List Event) := bottomUp (heap ++ [ev])

def peekNext (heap : List Event) : Option Event := heap[root]?

def removeNext (heap : List Event) : Option (Event × List Event) := do
  let next ← heap[root]?
  let heap ← exch heap root (last heap)
  let heap ← topDown root heap.dropLast
  return (next, heap)

def findUid (uid : Nat) (heap : List Event) : Option Nat :=
  (List.range' 1 (heap.length - 1)).find? fun i => uid == (entry heap i).key.uid

def remove (ev : Event) (heap : List Event) : Option (List Event) := do
  let i ← findUid ev.key.uid heap
  if (entry heap i).impl = ev.impl then
    let heap ← exch heap i (last heap)
    topDown i heap.dropLast
  else none

end HeapScheduler

def heapScheduler : Scheduler (List Event) where
  empty := [HeapScheduler.emptyEvent]
  events := List.tail
  insert := HeapScheduler.insert
  isEmpty := HeapScheduler.isEmpty
  peekNext := HeapScheduler.peekNext
  removeNext := HeapScheduler.removeNext
  remove := HeapScheduler.remove

namespace HeapScheduler

open BinaryHeap

def Le (ev other : Event) : Prop := other.key.before ev.key = false

theorem Le.refl (ev : Event) : Le ev ev := EventKey.before_irrefl _

theorem Le.trans (a b c : Event) (hab : Le a b) (hbc : Le b c) : Le a c := by
  rw [Le, ← Bool.not_eq_true, EventKey.before_iff] at *
  omega

theorem Le.of_before {ev other : Event} (hpre : ev.key.before other.key = true) :
    Le ev other := EventKey.before_asymm hpre

theorem le_of_not_less {heap : List Event} {a b : Nat} (hnot : isLessStrictly heap a b = false) :
    Le (entry heap b) (entry heap a) := hnot

theorem entry_of_lt {heap : List Event} {id : Nat} (hid : id < heap.length) :
    entry heap id = heap[id] := by
  simp [entry, hid]

theorem exch_spec {heap : List Event} {a b : Nat} (ha : a < heap.length) (hb : b < heap.length)
    (hapos : 1 ≤ a) (hbpos : 1 ≤ b) :
    ∃ next,
      exch heap a b = some next ∧ next.length = heap.length ∧
        entry next = swapped (entry heap) a b ∧ next.tail.Perm heap.tail := by
  refine ⟨_, if_pos ⟨hb, ha⟩, by simp, ?_, ?_⟩
  · funext place
    by_cases hsnd : place = b
    · rw [hsnd, swapped_second]
      simp [entry, hb]
    · by_cases hfst : place = a
      · rw [hfst, swapped_first, entry, getD_eq_getElem?_getD,
          getElem?_set_ne (fun heq => hsnd (hfst.trans heq.symm))]
        simp [ha]
      · rw [swapped_of_ne hfst hsnd, entry, getD_eq_getElem?_getD,
          getElem?_set_ne (Ne.symm hsnd),
          getElem?_set_ne (Ne.symm hfst), entry, getD_eq_getElem?_getD]
  · cases heap with
    | nil => simp at ha
    | cons first rest =>
      obtain ⟨a, rfl⟩ := Nat.exists_eq_add_of_le' hapos
      obtain ⟨b, rfl⟩ := Nat.exists_eq_add_of_le' hbpos
      rw [length_cons, Nat.add_lt_add_iff_right] at ha hb
      have hperm := set_set_perm ha hb
      simpa [entry, ha, hb] using hperm

def InOrder (heap : List Event) : Prop := Ordered Le heap.length (entry heap)

theorem bottomUpLoop_spec {fuel index : Nat} {heap : List Event} (hfuel : index < fuel)
    (hpos : 1 ≤ index) (hidx : index < heap.length)
    (hup : OrderedUp Le heap.length (entry heap) index) :
    ∃ next,
      bottomUpLoop fuel index heap = some next ∧ InOrder next ∧ next.tail.Perm heap.tail ∧
        next.length = heap.length := by
  induction fuel generalizing index heap with
  | zero => omega
  | succ fuel ih =>
    rw [bottomUpLoop]
    split
    next hrise =>
      obtain ⟨hroot, hless⟩ := (Bool.and_eq_true _ _).mp hrise
      have htwo : 2 ≤ index := by
        simp only [isRoot, root, Bool.not_eq_true', beq_eq_false_iff_ne] at hroot
        omega
      have hparent : parent index = index / 2 := rfl
      obtain ⟨middle, hexch, hlen, hent, hperm⟩ := @exch_spec heap index (parent index)
        hidx (by omega) hpos (by omega)
      have hmoved := hup.swap Le.trans htwo hidx (Le.of_before hless)
      rw [← hparent, ← hent, ← hlen] at hmoved
      obtain ⟨next, hnext, hord, hperm', hlength'⟩ := ih (by omega) (by omega) (by omega) hmoved
      exact ⟨next, by rw [hexch]; exact hnext, hord, hperm'.trans hperm, hlength'.trans hlen⟩
    next hstop =>
      refine ⟨heap, rfl, hup.done fun htwo => ?_, .refl _, rfl⟩
      have hroot : isRoot index = false := by
        simp only [isRoot, root, beq_eq_false_iff_ne]
        omega
      rw [hroot] at hstop
      exact @le_of_not_less heap index (parent index) (by simpa using hstop)

theorem smallest_spec (heap : List Event) (index : Nat) :
    smallest heap (leftChild index) (rightChild index) / 2 = index ∧
      smallest heap (leftChild index) (rightChild index) ≤ rightChild index ∧
      ∀ other,
        other / 2 = index →
          Le (entry heap (smallest heap (leftChild index) (rightChild index)))
            (entry heap other) := by
  have hcases : ∀ other, other / 2 = index →
      other = leftChild index ∨ other = rightChild index := by
    intro other hother
    simp only [leftChild, rightChild]
    omega
  rw [smallest]
  split
  next hless =>
    refine ⟨by simp [leftChild], by simp [leftChild, rightChild], fun other hother => ?_⟩
    rcases hcases other hother with rfl | rfl
    · exact .refl _
    · exact .of_before hless
  next hnot =>
    refine ⟨by simp only [rightChild]; omega, Nat.le_refl _, fun other hother => ?_⟩
    rcases hcases other hother with rfl | rfl
    · exact le_of_not_less (eq_false_of_ne_true hnot)
    · exact .refl _

theorem topDownLoop_spec {fuel index : Nat}
    {heap : List Event} (hfuel : heap.length < fuel + index) (hsome : 0 < fuel) (hpos : 1 ≤ index) :
    ∃ next, topDownLoop fuel index heap = some next ∧ next.tail.Perm heap.tail ∧
    next.length = heap.length ∧ (OrderedDown Le heap.length (entry heap) index → InOrder next) := by
  induction fuel generalizing index heap with
  | zero => omega
  | succ fuel ih =>
    rw [topDownLoop]
    have hleft : leftChild index = index * 2 := rfl
    have hright : rightChild index = index * 2 + 1 := rfl
    have hdone : (∀ child, child < heap.length → child / 2 = index →
        Le (entry heap index) (entry heap child)) →
        ∃ next, some heap = some next ∧ next.tail.Perm heap.tail ∧ next.length = heap.length ∧
          (OrderedDown Le heap.length (entry heap) index → InOrder next) :=
      fun hstop => ⟨heap, rfl, .refl _, rfl, fun hdown => hdown.done hstop⟩
    split
    -- both children are there: the smaller one decides
    next hboth =>
      have hroom : rightChild index < heap.length := by simpa [isBottom] using hboth
      obtain ⟨hchild, hbd, hfst⟩ := smallest_spec heap index
      dsimp only
      generalize smallest heap (leftChild index) (rightChild index) = tmp at hchild hbd hfst
      split
      next hless =>
        exact hdone fun child _ hbelow =>
          Le.trans _ _ _ (.of_before hless) (hfst child hbelow)
      next hsink =>
        obtain ⟨middle, hexch, hlen, hent, hperm⟩ := @exch_spec heap index tmp
          (by omega) (by omega) hpos (by omega)
        obtain ⟨next, hnext, hperm', hlength', hord⟩ :=
          @ih tmp middle (by omega) (by omega) (by omega)
        refine ⟨next, by rw [hexch]; exact hnext, hperm'.trans hperm, hlength'.trans hlen,
          fun hdown => hord ?_⟩
        rw [hent, hlen]
        exact hdown.swap hchild (by omega) (le_of_not_less (eq_false_of_ne_true hsink))
          fun other _ hbelow => hfst other hbelow
    next hbottom =>
      have hnoRight : heap.length ≤ rightChild index := by simpa [isBottom] using hbottom
      split
      next hout =>
        have hnone : heap.length ≤ index := by simpa [isBottom] using hout
        exact hdone fun child hchild hbelow => by omega
      · split
        next hout =>
          have hnone : heap.length ≤ leftChild index := by simpa [isBottom] using hout
          exact hdone fun child hchild hbelow => by omega
        -- a left child alone is the last entry, and nothing stands below it
        next hin =>
          have hroom : leftChild index < heap.length := by simpa [isBottom] using hin
          have hone : ∀ child, child < heap.length → child / 2 = index →
              child = leftChild index := by
            intro child hchild hbelow
            omega
          split
          next hless =>
            exact hdone fun child hchild hbelow => hone child hchild hbelow ▸ .of_before hless
          next hsink =>
            obtain ⟨next, hexch, hlen, hent, hperm⟩ :=
              @exch_spec heap index (leftChild index) (by omega) hroom hpos (by omega)
            refine ⟨next, hexch, hperm, hlen, fun hdown => ?_⟩
            have hmoved := @OrderedDown.swap _ _ _ _ _ hdown (leftChild index)
              (by omega) hroom (le_of_not_less (eq_false_of_ne_true hsink))
              fun other hother hbelow => hone other hother hbelow ▸ .refl _
            rw [← hent, ← hlen] at hmoved
            exact hmoved.done fun child hchild hbelow => by omega

/-! ## The calls keep the order -/

structure Valid (heap : List Event) : Prop where
  length_pos : 0 < heap.length
  inOrder : InOrder heap
  distinct : Distinct heap.tail

theorem insert_spec {heap : List Event}
    {ev : Event} (hvalid : Valid heap) (hnew : ∀ other ∈ heap.tail, other.key.uid ≠ ev.key.uid) :
    ∃ next, insert ev heap = some next ∧ Valid next ∧ next.tail.Perm (ev :: heap.tail) := by
  obtain ⟨hlen, hord, hdist⟩ := hvalid
  have hent : ∀ id, id < heap.length → entry (heap ++ [ev]) id = entry heap id :=
    fun id hid => by
      rw [entry_of_lt (by simp; omega), entry_of_lt hid, getElem_append_left hid]
  have hkept : Ordered Le heap.length (entry (heap ++ [ev])) := by
    intro child hchild hless
    rw [hent child hless, hent (child / 2) (by omega)]
    exact hord child hchild hless
  have hup := hkept.up
  have hsz : (heap ++ [ev]).length = heap.length + 1 := by simp
  rw [← hsz] at hup
  obtain ⟨next, hnext, hnextOrder, hperm, hnextLength⟩ :=
    @bottomUpLoop_spec (heap ++ [ev]).length heap.length (heap ++ [ev]) (by omega) hlen
      (by omega) hup
  have hlast : last (heap ++ [ev]) = heap.length := by simp [last]
  have htail : next.tail.Perm (ev :: heap.tail) := by
    rw [tail_append_of_ne_nil (ne_nil_of_length_pos hlen)] at hperm
    exact hperm.trans (perm_append_singleton ev heap.tail)
  refine ⟨next, by rw [insert, bottomUp, hlast]; exact hnext, ⟨by omega, hnextOrder, ?_⟩, htail⟩
  have hadded : Distinct (ev :: heap.tail) := by
    refine nodup_cons.mpr ⟨fun hmem => ?_, hdist⟩
    obtain ⟨other, hother, huid⟩ := mem_map.mp hmem
    exact hnew other hother huid
  exact hadded.perm htail.symm

def LeafFits (heap : List Event) (place : Nat) : Prop :=
  place < last heap → 2 ≤ place → Le (entry heap (parent place)) (entry heap (last heap))

theorem entry_dropLast {heap : List Event}
    {id : Nat} (hid : id < heap.length - 1) : entry heap.dropLast id = entry heap id := by
  rw [entry_of_lt (by rw [length_dropLast]; exact hid), entry_of_lt (by omega), getElem_dropLast]

theorem perm_dropLast {heap : List Event}
    (hroom : 2 ≤ heap.length) : (entry heap (last heap) :: heap.dropLast.tail).Perm heap.tail := by
  have hne : heap.tail ≠ [] := ne_nil_of_length_pos (by rw [length_tail]; omega)
  have hlast : entry heap (last heap) = heap.tail.getLast hne := by
    rw [entry_of_lt (by rw [last]; omega), getLast_eq_getElem, getElem_tail]
    congr 1
    rw [last, length_tail]
    omega
  have hsplit : heap.dropLast.tail ++ [heap.tail.getLast hne] = heap.tail := by
    rw [tail_dropLast, dropLast_concat_getLast]
  have hperm := perm_append_singleton (heap.tail.getLast hne) heap.dropLast.tail
  rw [hsplit] at hperm
  rw [hlast]
  exact hperm.symm

theorem takeOut_spec {heap : List Event} {place : Nat} (hvalid : Valid heap) (hpos : 1 ≤ place)
    (hplace : place < heap.length) :
    ∃ middle next,
      exch heap place (last heap) = some middle ∧ topDown place middle.dropLast = some next ∧
        next.tail.Perm (heap.tail.erase (entry heap place)) ∧
        (LeafFits heap place → Valid next) := by
  obtain ⟨-, hord, hdist⟩ := hvalid
  have hlast : last heap = heap.length - 1 := rfl
  obtain ⟨middle, hexch, hlen, hent, hperm⟩ :=
    @exch_spec heap place (last heap) hplace (by omega) hpos (by omega)
  have hdrop : middle.dropLast.length = heap.length - 1 := by rw [length_dropLast, hlen]
  obtain ⟨next, hnext, hperm', hlength', hkeep⟩ :=
    @topDownLoop_spec (middle.dropLast.length + 1) place middle.dropLast (by omega) (by omega) hpos
  have hswapped : ∀ id, id < heap.length - 1 →
      entry middle.dropLast id = swapped (entry heap) place (last heap) id := by
    intro id hid
    rw [entry_dropLast (by omega), hent]
  -- the removed event is the item that is popped
  have hpopped : entry middle (last middle) = entry heap place := by
    rw [hent, show last middle = last heap by rw [last, hlen, hlast], swapped_second]
  have hevs : middle.dropLast.tail.Perm (heap.tail.erase (entry heap place)) := by
    have hsplit := (perm_dropLast (by omega : 2 ≤ middle.length)).trans hperm
    rw [hpopped] at hsplit
    simpa using hsplit.erase (entry heap place)
  refine ⟨middle, next, hexch, hnext, hperm'.trans hevs, fun hfits => ⟨by omega, hkeep ?_, ?_⟩⟩
  · rw [hdrop]
    by_cases hless : place < last heap
    · have hreplaced := @Ordered.replace _ Le (entry heap) place (last heap)
        (by rw [hlast, Nat.sub_add_cancel (by omega)]; exact hord) Le.trans hless (hfits hless)
      exact hreplaced.congr (by omega) fun id hid => hswapped id hid
    · have hkept : Ordered Le (heap.length - 1) (entry middle.dropLast) := by
        intro child hchild hsz
        rw [hswapped child hsz, hswapped (child / 2) (by omega),
          swapped_of_ne (by omega) (by omega), swapped_of_ne (by omega) (by omega)]
        exact hord child hchild (by omega)
      exact hkept.down fun child hsz hbelow => by omega
  · have hleft : Distinct (heap.tail.erase (entry heap place)) :=
      hdist.sublist (erase_sublist.map _)
    exact hleft.perm (hperm'.trans hevs).symm

theorem entry_mem {heap : List Event}
    {id : Nat} (hpos : 1 ≤ id) (hid : id < heap.length) : entry heap id ∈ heap.tail := by
  rw [entry_of_lt hid]
  have hmem := getElem_mem (l := heap.tail) (n := id - 1) (by rw [length_tail]; omega)
  rw [getElem_tail] at hmem
  simpa [Nat.sub_add_cancel hpos] using hmem

theorem findUid_spec {heap : List Event} {ev : Event} (hdist : Distinct heap.tail)
    (hev : ev ∈ heap.tail) :
    ∃ place,
      findUid ev.key.uid heap = some place ∧ 1 ≤ place ∧ place < heap.length ∧
        entry heap place = ev := by
  obtain ⟨index, hidx, hat⟩ := getElem_of_mem hev
  rw [getElem_tail] at hat
  rw [length_tail] at hidx
  cases hfound : findUid ev.key.uid heap with
  | none =>
    rw [findUid, find?_eq_none] at hfound
    have hno := hfound (index + 1) (mem_range'_1.mpr (by omega))
    rw [entry_of_lt (by omega), hat] at hno
    simp at hno
  | some place =>
    obtain ⟨hpos, hplace⟩ := mem_range'_1.mp (mem_of_find?_eq_some hfound)
    have huid := find?_some hfound
    have hmem := @entry_mem heap place hpos (by omega)
    exact ⟨place, rfl, hpos, by omega, hdist.eq_of_uid hmem hev (Eq.symm (by simpa using huid))⟩

theorem root_least {heap : List Event}
    (hvalid : Valid heap) (hsome : 2 ≤ heap.length) : Least (entry heap root) heap.tail := by
  refine ⟨entry_mem (Nat.le_refl 1) hsome, fun other hother hne => ?_⟩
  obtain ⟨place, -, hpos, hplace, rfl⟩ := findUid_spec hvalid.distinct hother
  have hle : Le (entry heap root) (entry heap place) :=
    hvalid.inOrder.root_le Le.refl Le.trans hpos hplace
  have huid : (entry heap root).key.uid ≠ (entry heap place).key.uid := fun huid =>
    hne (hvalid.distinct.eq_of_uid hother (entry_mem (Nat.le_refl 1) hsome) huid.symm)
  exact (EventKey.before_or_before huid).resolve_right (by rw [hle]; exact Bool.false_ne_true)

theorem two_le_length {heap : List Event} (hsome : heap.tail ≠ []) : 2 ≤ heap.length := by
  have hpos := length_pos_iff.mpr hsome
  rw [length_tail] at hpos
  omega

/-! ## The heap as a priority queue -/

/-- The leaf that `Remove` moves does not come before the parent of the place it goes to. -/
def keepsOrder (heap : List Event) : SchedulerCall → Bool
  | .remove ev => (findUid ev.key.uid heap).all fun place =>
    place == last heap || isRoot place || !isLessStrictly heap (last heap) (parent place)
  | _ => true

theorem correct : Correct heapScheduler Valid fun heap call => keepsOrder heap call = true where
  empty := ⟨Nat.one_pos, fun child hchild hless => by simp [heapScheduler] at hless; omega,
    nodup_nil⟩
  events_empty := rfl
  distinct _ hvalid := hvalid.distinct
  isEmpty heap hvalid := by
    have hpos := hvalid.length_pos
    cases heap with
    | nil => simp at hpos
    | cons first rest => cases rest <;> rfl
  insert heap ev hvalid _ hnew := insert_spec hvalid hnew
  removeNext heap hvalid hsome := by
    have hroom := two_le_length hsome
    have hpeek : heap[root]? = some (entry heap root) := by
      rw [entry, getD_eq_getElem?_getD,
        getElem?_eq_getElem (show root < heap.length from hroom)]
      rfl
    obtain ⟨middle, next, hexch, hnext, hevs, hkeep⟩ :=
      takeOut_spec hvalid (Nat.le_refl root) hroom
    refine ⟨entry heap root, next, hpeek, ?_, root_least hvalid hroom, fun _ => ⟨hkeep ?_, hevs⟩⟩
    · change removeNext heap = _
      rw [removeNext, hpeek]
      change (exch heap root (last heap) >>= _) = _
      rw [hexch]
      change (topDown root middle.dropLast >>= _) = _
      rw [hnext]
      rfl
    · intro _ htwo
      exact absurd htwo (by decide)
  removeNext_empty heap hvalid hnil := by
    have hone : heap.length = 1 := by
      have hzero : heap.tail.length = 0 := length_eq_zero_iff.mpr hnil
      have hpos := hvalid.length_pos
      rw [length_tail] at hzero
      omega
    change removeNext heap = none
    rw [removeNext, getElem?_eq_none (by rw [hone]; exact Nat.le_refl 1)]
    rfl
  remove heap ev hvalid hev := by
    obtain ⟨place, hfind, hpos, hplace, hent⟩ := findUid_spec hvalid.distinct hev
    obtain ⟨middle, next, hexch, hnext, hevs, hkeep⟩ := takeOut_spec hvalid hpos hplace
    rw [hent] at hevs
    refine ⟨next, ?_, fun hfits => ⟨hkeep fun hless htwo => ?_, hevs⟩⟩
    · change remove ev heap = _
      rw [remove, hfind]
      change (if (entry heap place).impl = ev.impl then _ else _) = _
      rw [if_pos (by rw [hent]), hexch]
      exact hnext
    -- removal repairs downwards only, so the moved entry must not be above its parent
    · have hplaceFits : (place == last heap || isRoot place ||
          !isLessStrictly heap (last heap) (parent place)) = true := by
        simpa [keepsOrder, hfind] using hfits
      have hnotLast : (place == last heap) = false := beq_false_of_ne (Nat.ne_of_lt hless)
      have hnotRoot : isRoot place = false := beq_false_of_ne (by rw [root]; omega)
      rw [hnotLast, hnotRoot] at hplaceFits
      exact le_of_not_less (by simpa using hplaceFits)

/-- As long as no removal moves a leaf below a later event, the heap hands out what the sorted list
does. -/
theorem heapScheduler_serves {state : Driven (List Event)}
    (hst : (Driven.machine heapScheduler).ReachableUnder
      (fun state call => state.offered call = true ∧ keepsOrder state.queue call = true) state) :
    Driven.Serves heapScheduler (fun _ _ => True) state :=
  Driven.serves correct (fun _ _ _ => rfl) hst

def timed (time : Nat) : Event := ⟨time, time, time, 0⟩

theorem heapScheduler_serves_inserted :
    Driven.Serves heapScheduler (fun _ _ => True) ((Driven.machine heapScheduler).after
        (fun state call => state.offered call && keepsOrder state.queue call)
        [.insert (timed 2), .insert (timed 1), .insert (timed 3), .remove (timed 2), .removeNext]
        (Driven.machine heapScheduler).init) :=
  heapScheduler_serves (.after (fun _ _ hboth => by simpa using hboth) _ .init)

def outOfOrder : Driven (List Event) :=
  (Driven.machine heapScheduler).after (fun state call => state.offered call)
    [.insert (timed 1), .insert (timed 10), .insert (timed 2), .insert (timed 11),
      .insert (timed 12), .insert (timed 13), .insert (timed 3), .remove (timed 11),
      .removeNext, .removeNext]
    (Driven.machine heapScheduler).init

theorem remove_breaks_order :
    ¬ ∀ state,
      (Driven.machine heapScheduler).ReachableUnder (fun state call => state.offered call = true)
        state →
        Driven.Serves heapScheduler (fun _ _ => True) state := by
  intro hall
  have hserves := hall outOfOrder (.after (fun _ _ hoffered => hoffered) _ .init)
  obtain ⟨ev, hpeek, hleast⟩ := hserves.peekNext (by decide +kernel)
  have hten : heapScheduler.peekNext outOfOrder.queue = some (timed 10) := by decide +kernel
  obtain rfl := Option.some.inj (hten.symm.trans hpeek)
  have hpre := hleast.2 (timed 3) (by decide +kernel) (by decide)
  exact absurd hpre (by decide)

end HeapScheduler

end HomaSird.Core
