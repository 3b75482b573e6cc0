import HomaSird.Network.TagWriters

/-! # Tag lists are persistent maps

The lists keep the maps kept beside them through every sequence of calls, the counts are
the numbers of references, and a node goes with the last of them.
-/

namespace HomaSird.Network.PacketTagList

open HomaSird.Transition SharedCells UnorderedMap

variable {TypeId Tag : Type} [DecidableEq TypeId]
variable {format : TagFormat TypeId Tag} {store after view : TagStore TypeId} {cur : Nat}
  {data : TagData TypeId} {prevNext : Slot ListId} {prev target : Option Nat} {list o : ListId}
  {map : TagMap TypeId Tag} {path rest : List (Nat × TagContent TypeId)}

/-! ## Letting a list go -/

def passed (store : TagStore TypeId) (prev : Option Nat) (list : ListId) (cur : Option Nat) :
    TagStore TypeId :=
  (freeNonNull store prev).set (.head list) cur

omit [DecidableEq TypeId] in
@[simp] theorem heads_freeNonNull (store : TagStore TypeId)
    (prev : Option Nat) : (freeNonNull store prev).heads = store.heads := by
  cases prev <;> rfl

omit [DecidableEq TypeId] in
@[simp] theorem fresh_freeNonNull (store : TagStore TypeId)
    (prev : Option Nat) : (freeNonNull store prev).fresh = store.fresh := by
  cases prev <;> rfl

omit [DecidableEq TypeId] in
theorem cells_freeNonNull (store : TagStore TypeId) (prev : Option Nat) (address : Nat) :
    (freeNonNull store prev).cells.lookup address =
      if prev = some address then none else store.cells.lookup address := by
  cases prev with
  | none => rfl
  | some held =>
    rw [freeNonNull, cells_free]
    simp only [Option.some.injEq, eq_comm]

omit [DecidableEq TypeId] in
theorem heads_passed (store : TagStore TypeId) (prev : Option Nat) (list : ListId)
    (cur : Option Nat) (other : ListId) :
    (passed store prev list cur).heads.lookup other =
      if list = other then some cur else store.heads.lookup other := by
  rw [passed, heads_set, heads_freeNonNull]
  simp only [Slot.head.injEq]

omit [DecidableEq TypeId] in
theorem cells_passed (store : TagStore TypeId) (prev : Option Nat) (list : ListId)
    (cur : Option Nat) (address : Nat) :
    (passed store prev list cur).cells.lookup address =
      if prev = some address then none else store.cells.lookup address :=
  cells_freeNonNull store prev address

omit [DecidableEq TypeId] in
theorem passed_shared (cur : Nat) :
    ((passed store prev list (some cur)).adjust cur (· - 1)).set (.head list) none =
      passed (store.adjust cur (· - 1)) prev list none := by
  refine ext_lookup (fun other => ?_) (fun address => ?_) ?_
  · rw [heads_set, heads_adjust, heads_passed, heads_passed, heads_adjust]
    simp only [Slot.head.injEq]
    split
    · rfl
    · rfl
  · rw [cells_set_head, cells_adjust, cells_passed, cells_passed,
      cells_adjust]
    split <;> split <;> rfl
  · simp only [passed, fresh_set, fresh_adjust, fresh_freeNonNull]

omit [DecidableEq TypeId] in
theorem passed_owned (cur : Nat) (next : Option Nat) :
    ((passed store prev list (some cur)).set (.head list) next).free cur =
      passed (freeNonNull (store.adjust cur (· - 1)) prev) (some cur) list next := by
  refine ext_lookup (fun other => ?_) (fun address => ?_) ?_
  · change ((passed store prev list (some cur)).set (.head list) next).heads.lookup other = _
    rw [heads_set, heads_passed, heads_passed, heads_freeNonNull, heads_adjust]
    simp only [Slot.head.injEq]
    split
    · rfl
    · rfl
  · rw [cells_free, cells_set_head, cells_passed, cells_passed, cells_freeNonNull,
      cells_adjust]
    by_cases heq : address = cur
    · rw [if_pos heq, if_pos (congrArg some heq.symm)]
    · rw [if_neg heq, if_neg (fun hsome => heq (Option.some.inj hsome).symm), if_neg heq]
  · simp only [passed, fresh_free, fresh_set, fresh_adjust, fresh_freeNonNull]

omit [DecidableEq TypeId] in
theorem removeLoop_spec (list : ListId) (prev cur : Option Nat) {fuel : Nat}
    (hcnt : (passed store prev list cur).Counted)
    (hlnk : (passed store prev list cur).Linked cur path)
    (hroom : ∀ address, (passed store prev list cur).countOf address < 2 ^ 32)
    (hfuel : path.length < fuel) :
    ∃ after last,
      removeLoop fuel store prev cur = .ok (after, last) ∧ after.heads = store.heads ∧
        Rewrites (passed store prev list cur) (passed after last list none) list [] ∧
        ∀ address, (passed after last list none).countOf address ≤
            (passed store prev list cur).countOf address := by
  induction fuel generalizing store prev cur path with
  | zero => exact absurd hfuel (Nat.not_lt_zero _)
  | succ fuel ih =>
    cases hlnk with
    | nil =>
      refine ⟨store, prev, rfl, rfl, .refl hcnt ⟨none, ?_, .nil⟩, fun _ => Nat.le_refl _⟩
      rw [heads_passed, if_pos rfl]
    | @cons cur data rest hcell hrest =>
      have hhead : (passed store prev list (some cur)).heads.lookup list = some (some cur) := by
        rw [heads_passed, if_pos rfl]
      have hhere := hcell
      rw [cells_passed] at hhere
      split at hhere
      · exact nomatch hhere
      next hprev =>
        have hlive := (hcnt.live cur (mem_cells.mpr ⟨data, hcell⟩)).1
        have hlt := hroom cur
        rw [countOf_eq hcell] at hlive hlt
        have hdecremented : deref (store.adjust cur (· - 1)) cur =
            .ok { data with count := data.count - 1 } := by
          refine deref_eq ?_
          rw [cells_adjust, if_pos rfl, hhere]
          rfl
        rw [removeLoop]
        simp only [bind, Except.bind, decrement_eq hhere hlive hlt, hdecremented]
        -- at the first node that others hold too the loop stops; behind it nothing is owned
        by_cases hshared : data.count - 1 > 0
        · rw [if_pos hshared]
          have hrelease := release_shared hcnt hhead hcell hrest (by omega)
          rw [passed_shared] at hrelease
          refine ⟨_, _, rfl, heads_adjust _ _, hrelease, fun address => ?_⟩
          rw [← passed_shared, countOf_set, countOf_adjust hcell]
          split
          next heq =>
            rw [heq, countOf_eq hcell]
            exact Nat.sub_le _ _
          · exact Nat.le_refl _
        · rw [if_neg hshared]
          have hunlink := unlink_owned hcnt (.nil (.head list)) hhead hcell hrest
            (by omega)
          rw [passed_owned, List.nil_append] at hunlink
          have hless : ∀ address, (passed (freeNonNull (store.adjust cur (· - 1)) prev)
              (some cur) list data.next).countOf address ≤
                (passed store prev list (some cur)).countOf address := by
            intro address
            rw [← passed_owned, countOf_free, countOf_set]
            split
            · exact Nat.zero_le _
            · exact Nat.le_refl _
          obtain ⟨first, hfst, hlist⟩ := hunlink.own
          rw [heads_passed, if_pos rfl] at hfst
          cases hfst
          obtain ⟨after, last, hloop, hheads, hwrites, hle⟩ :=
            ih (some cur) data.next hunlink.counted hlist
              (fun address => Nat.lt_of_le_of_lt (hless address) (hroom address))
              (Nat.lt_of_succ_lt_succ hfuel)
          refine ⟨after, last, hloop, ?_, hunlink.trans hwrites, fun address =>
            Nat.le_trans (hle address) (hless address)⟩
          rw [hheads, heads_freeNonNull, heads_adjust]

omit [DecidableEq TypeId] in
theorem removeAll_spec (hcnt : store.Counted) (hhead : store.heads.lookup list = some target)
    (hlnk : store.Linked target path) (hroom : ∀ address, store.countOf address < 2 ^ 32) :
    ∃ after, removeAll store list = .ok after ∧
    Rewrites store after list [] ∧ ∀ address, after.countOf address ≤ store.countOf address := by
  have hsame : passed store none list target = store := by
    refine ext_lookup (fun other => ?_) (fun address => ?_) (fresh_set _ _)
    · exact heads_set_same (show store.get (.head list) = some target from hhead) other
    · rw [cells_passed, if_neg (fun heq => nomatch heq)]
  have hfuel := length_lt_loopFuel hlnk
  rw [← hsame] at hcnt hlnk hroom
  obtain ⟨after, last, hremove, hheads, hwrites, hle⟩ :=
    removeLoop_spec list none target hcnt hlnk hroom hfuel
  rw [hsame] at hwrites hle
  refine ⟨passed after last list none, ?_, hwrites, hle⟩
  rw [removeAll, mNext_eq hhead]
  simp only [bind, Except.bind, hremove]
  have hheld : (freeNonNull after last).get (.head list) = some target := by
    rw [SharedCells.get, heads_freeNonNull, hheads, hhead]
  exact setPointer_eq hheld none

omit [DecidableEq TypeId] in
theorem Linked.eq_none (hlnk : store.Linked target []) : target = none := by
  cases hlnk
  rfl

/-! ## The lists and the maps -/

structure Kept (format : TagFormat TypeId Tag) (store : TagStore TypeId)
    (maps : TagMaps TypeId Tag) : Prop where
  counted : store.Counted
  heads : ∀ list, (store.heads.lookup list).isSome = (maps.lookup list).isSome
  tags : ∀ list target map, store.heads.lookup list = some target →
    maps.lookup list = some map → Tags format store target map

variable {maps : TagMaps TypeId Tag}

omit [DecidableEq TypeId] in
theorem Kept.of_mem (hkept : Kept format store maps) (hmem : list ∈ maps) :
    ∃ target map path,
      store.heads.lookup list = some target ∧ maps.lookup list = some map ∧
        TagCall.mapOf maps list = map ∧ store.Linked target path ∧
        List.Forall₂ (Holds format) (path.map Prod.snd) map.entries := by
  obtain ⟨map, hmap⟩ := Option.isSome_iff_exists.mp (AList.lookup_isSome.mpr hmem)
  have hsome := hkept.heads list
  rw [hmap, Option.isSome_some] at hsome
  obtain ⟨target, htarget⟩ := Option.isSome_iff_exists.mp hsome
  obtain ⟨path, hlnk, hholds⟩ := hkept.tags list target map htarget hmap
  refine ⟨target, map, path, htarget, hmap, ?_, hlnk, hholds⟩
  rw [TagCall.mapOf, getD, hmap, Option.getD_some]

omit [DecidableEq TypeId] in
theorem Kept.not_mem (hkept : Kept format store maps)
    (hnot : list ∉ maps) : store.heads.lookup list = none := by
  have hsome := hkept.heads list
  rw [AList.lookup_eq_none.mpr hnot, Option.isSome_none] at hsome
  exact Option.not_isSome_iff_eq_none.mp (by rw [hsome]; exact Bool.false_ne_true)

omit [DecidableEq TypeId] in
theorem Kept.rewrites (hkept : Kept format store maps) (hwrites : Rewrites store after list path)
    (hholds : List.Forall₂ (Holds format) (path.map Prod.snd) map.entries) :
    Kept format after (maps.insert list map) where
  counted := hwrites.counted
  heads other := by
    rw [lookup_insert]
    split
    next heq =>
      obtain ⟨target, htarget, -⟩ := hwrites.own
      rw [heq, htarget]
      rfl
    next hne => rw [hwrites.heads other hne, hkept.heads]
  tags other target held htarget hheld := by
    rw [lookup_insert] at hheld
    split at hheld
    next heq =>
      obtain ⟨own, hown, hlnk⟩ := hwrites.own
      cases hheld
      rw [heq, hown] at htarget
      cases htarget
      exact ⟨path, hlnk, hholds⟩
    next hne =>
      rw [hwrites.heads other hne] at htarget
      obtain ⟨kept, hlnk, hents⟩ := hkept.tags other target held htarget hheld
      exact ⟨kept, hwrites.others other target kept hne htarget hlnk, hents⟩

omit [DecidableEq TypeId] in
theorem Kept.forget (hkept : Kept format store maps) (hwrites : Rewrites store after list [])
    (hnone : after.heads.lookup list = some none) :
    Kept format (after.forget list) (maps.erase list) where
  counted := hwrites.counted.forget hnone
  heads other := by
    rw [SharedCells.forget, lookup_erase_ite, lookup_erase]
    split
    · rfl
    next hne => rw [hwrites.heads other hne, hkept.heads]
  tags other target held htarget hheld := by
    rw [SharedCells.forget, lookup_erase_ite] at htarget
    rw [lookup_erase] at hheld
    split at htarget
    · exact nomatch htarget
    next hne =>
      rw [if_neg hne] at hheld
      rw [hwrites.heads other hne] at htarget
      obtain ⟨path, hlnk, hholds⟩ := hkept.tags other target held htarget hheld
      have hmoved := hwrites.others other target path hne htarget hlnk
      exact ⟨path, hmoved.frame fun _ _ cell hcell => ⟨cell, hcell, rfl, rfl⟩, hholds⟩

omit [DecidableEq TypeId] in
theorem copyConstruct_spec (hcnt : store.Counted)
    (hnew : store.heads.lookup list = none) (hhead : store.heads.lookup o = some target)
    (hlnk : store.Linked target path) (hroom : ∀ address, store.countOf address < 2 ^ 32 - 1) :
    ∃ after, copyConstruct store list o = .ok after ∧ Rewrites store after list path := by
  refine ⟨_, ?_, share hcnt (by rw [hnew]; rfl) hlnk⟩
  rw [copyConstruct, mNext_eq hhead]
  refine incrementNonNull_eq _ target (fun address heq => ?_) (fun address _ => ?_)
  · exact (mem_set _ _ _).mpr (hlnk.mem_of_target address heq)
  · rw [countOf_set]
    exact hroom address

omit [DecidableEq TypeId] in
theorem assign_spec {own : Option Nat} {kept : List (Nat × TagContent TypeId)}
    (hcnt : store.Counted) (hhead : store.heads.lookup list = some own)
    (hlnk : store.Linked own kept) (hother : store.heads.lookup o = some target)
    (hpath : store.Linked target path) (hroom : ∀ address, store.countOf address < 2 ^ 32 - 1) :
    ∃ after, assign store list o = .ok after ∧ Rewrites store after list path := by
  rw [assign, mNext_eq hhead, mNext_eq hother]
  by_cases hsame : own = target
  · refine ⟨store, if_pos hsame, .refl hcnt ⟨target, hsame ▸ hhead, hpath⟩⟩
  · have hne : o ≠ list := by
      rintro rfl
      exact hsame (Option.some.inj (hhead.symm.trans hother))
    obtain ⟨middle, hremove, hemptied, hle⟩ := removeAll_spec hcnt hhead hlnk
      fun address => lt_of_lt_of_le (hroom address) (Nat.sub_le _ _)
    obtain ⟨none', hnone, hend⟩ := hemptied.own
    obtain rfl := Linked.eq_none hend
    have hmoved := (hemptied.heads o hne).trans hother
    have hkept := hemptied.others o target path hne hother hpath
    refine ⟨_, ?_, hemptied.trans (share hemptied.counted (by rw [hnone]; rfl) hkept)⟩
    have hheld : middle.get (.head list) = some none := hnone
    simp only [bind, Except.bind, if_neg hsame, hremove, mNext_eq hmoved, setPointer_eq hheld]
    refine incrementNonNull_eq _ target (fun address heq => ?_) (fun address _ => ?_)
    · exact (mem_set _ _ _).mpr (hkept.mem_of_target address heq)
    · rw [countOf_set]
      exact lt_of_le_of_lt (hle address) (hroom address)

omit [DecidableEq TypeId] in
theorem countOf_lt (hcnt : store.Counted) (hroom : ∀ address < store.fresh,
    store.countOf address < 2 ^ 32 - 1) (address : Nat) : store.countOf address < 2 ^ 32 - 1 := by
  by_cases hmem : address ∈ store.cells
  · exact hroom address (hcnt.live address hmem).2
  · rw [countOf, Finmap.lookup_eq_none.mpr hmem]
    exact (by decide : 0 < 2 ^ 32 - 1)

theorem Kept.perform (hkept : Kept format store maps) (call : TagCall TypeId Tag)
    (hoffer : call.Offered format maps) (hfits : call.Fits format store) :
    ∃ after,
      call.perform format store = .ok ((call.expect format maps).1, after) ∧
        Kept format after (call.expect format maps).2 := by
  have hcnt := hkept.counted
  have hroom := countOf_lt hcnt hfits.1
  cases call with
  | create list =>
    have hnew := hkept.not_mem hoffer
    exact ⟨_, rfl, hkept.rewrites (share hcnt (by rw [hnew]; rfl) .nil) .nil⟩
  | copy list o =>
    obtain ⟨target, map, path, hhead, hmap, hmapOf, hlnk, hholds⟩ := hkept.of_mem hoffer.2
    obtain ⟨after, hcopy, hwrites⟩ :=
      copyConstruct_spec hcnt (hkept.not_mem hoffer.1) hhead hlnk hroom
    refine ⟨after, ?_, ?_⟩
    · simp only [TagCall.perform, hcopy, bind, Except.bind, TagCall.expect]
      rfl
    · rw [TagCall.expect, hmapOf]
      exact hkept.rewrites hwrites hholds
  | assign list o =>
    obtain ⟨own, held, kept, hown, -, -, hkeptLinked, -⟩ := hkept.of_mem hoffer.1
    obtain ⟨target, map, path, hhead, hmap, hmapOf, hlnk, hholds⟩ := hkept.of_mem hoffer.2
    obtain ⟨after, hassign, hwrites⟩ := assign_spec hcnt hown hkeptLinked hhead hlnk hroom
    refine ⟨after, ?_, ?_⟩
    · simp only [TagCall.perform, hassign, bind, Except.bind, TagCall.expect]
      rfl
    · rw [TagCall.expect, hmapOf]
      exact hkept.rewrites hwrites hholds
  | destroy list =>
    obtain ⟨target, map, path, hhead, hmap, hmapOf, hlnk, hholds⟩ := hkept.of_mem hoffer
    obtain ⟨middle, hremove, hwrites, -⟩ := removeAll_spec hcnt hhead hlnk
      fun address => lt_of_lt_of_le (hroom address) (Nat.sub_le _ _)
    -- what is left of a destroyed list is its null head
    obtain ⟨none', hnone, hend⟩ := hwrites.own
    obtain rfl := Linked.eq_none hend
    refine ⟨middle.forget list, ?_, hkept.forget hwrites hnone⟩
    simp only [TagCall.perform, destroy, hremove, bind, Except.bind, TagCall.expect]
    rfl
  | add list tag =>
    obtain ⟨target, map, path, hhead, hmap, hmapOf, hlnk, hholds⟩ := hkept.of_mem hoffer.1
    have habsent := hoffer.2
    rw [hmapOf] at habsent
    obtain ⟨after, new, hadd, hwrites, hnew⟩ := add_spec hcnt hhead hlnk hholds tag habsent
    refine ⟨after, ?_, ?_⟩
    · simp only [TagCall.perform, hadd, bind, Except.bind, TagCall.expect]
      rfl
    · rw [TagCall.expect, hmapOf]
      exact hkept.rewrites hwrites hnew
  | remove list tid =>
    obtain ⟨target, map, path, hhead, hmap, hmapOf, hlnk, hholds⟩ := hkept.of_mem hoffer
    obtain ⟨after, new, hremove, hwrites, hnew⟩ := remove_spec hcnt hhead hlnk hholds hroom tid
    refine ⟨after, ?_, ?_⟩
    · simp only [TagCall.perform, hremove, bind, Except.bind, TagCall.expect, hmapOf]
      rfl
    · rw [TagCall.expect, hmapOf]
      exact hkept.rewrites hwrites hnew
  | replace list tag =>
    obtain ⟨target, map, path, hhead, hmap, hmapOf, hlnk, hholds⟩ := hkept.of_mem hoffer
    obtain ⟨after, new, hreplace, hwrites, hnew⟩ :=
      replace_spec hcnt hhead hlnk hholds hroom tag hfits.2
    -- a replaced tag takes its old place, a new one goes to the front
    have hkeptAfter := hkept.rewrites hwrites hnew
    refine ⟨after, ?_, ?_⟩
    · simp only [TagCall.perform, hreplace, bind, Except.bind, TagCall.expect, hmapOf]
      cases (map.lookup (format.typeId tag)).isSome <;> rfl
    · rw [TagCall.expect, hmapOf]
      cases hsome : (map.lookup (format.typeId tag)).isSome <;> rw [hsome] at hkeptAfter
      · exact hkeptAfter
      · exact hkeptAfter
  | peek list tid =>
    obtain ⟨target, map, path, hhead, hmap, hmapOf, hlnk, hholds⟩ := hkept.of_mem hoffer
    refine ⟨store, ?_, hkept⟩
    simp only [TagCall.perform, peek_spec hhead hlnk hholds tid, bind, Except.bind,
      TagCall.expect, hmapOf]
    rfl

end PacketTagList

namespace TagLists

open PacketTagList SharedCells HomaSird.Transition

variable {TypeId Tag : Type} [DecidableEq TypeId]

/-- The lists hold the maps in order and answer as they do; a count is the number of heads and next
pointers, and a node stays while there is one. -/
structure Persistent (format : TagFormat TypeId Tag) (lists : TagLists TypeId Tag) : Prop where
  heads : ∀ list, list ∈ lists.store.heads ↔ list ∈ lists.maps
  tags : ∀ list target map, lists.store.heads.lookup list = some target →
    lists.maps.lookup list = some map → Tags format lists.store target map
  counts : ∀ address data, lists.store.cells.lookup address = some data →
    data.count = lists.store.refs address
  freed : ∀ address, address ∈ lists.store.cells ↔ 0 < lists.store.refs address
  answers : ∀ call : TagCall TypeId Tag, call.Offered format lists.maps →
    call.Fits format lists.store → ∃ after,
      call.perform format lists.store = .ok ((call.expect format lists.maps).1, after)

variable {format : TagFormat TypeId Tag} {lists : TagLists TypeId Tag}

theorem Persistent.of_kept (hkept : Kept format lists.store lists.maps) :
    Persistent format lists where
  heads list := by
    rw [← Finmap.lookup_isSome, ← AList.lookup_isSome, hkept.heads]
  tags := hkept.tags
  counts address data hdata := by rw [← hkept.counted.counts, countOf_eq hdata]
  freed address := by
    rw [← hkept.counted.counts]
    refine ⟨fun hmem => (hkept.counted.live address hmem).1, fun hpos => ?_⟩
    by_contra hnot
    rw [countOf, Finmap.lookup_eq_none.mpr hnot] at hpos
    exact lt_irrefl _ hpos
  answers call hoffer hfits := by
    obtain ⟨after, hperform, -⟩ := hkept.perform call hoffer hfits
    exact ⟨after, hperform⟩

/-- While no tag is written in place of a shorter one and no count runs over, lists are persistent
maps. -/
theorem persistent_of_fits
    (hreach : (machine format).ReachableUnder
      (fun lists call => call.Offered format lists.maps ∧ call.Fits format lists.store) lists) :
    Persistent format lists := by
  refine .of_kept (@Machine.ReachableUnder.invariant _ _ _ (machine format) _
    (fun lists => Kept format lists.store lists.maps) ?_ ?_ lists hreach)
  · exact ⟨⟨fun _ => rfl, fun _ hmem => absurd hmem Finmap.notMem_empty⟩, fun _ => rfl,
      fun _ _ _ hlook => nomatch hlook⟩
  · intro lists call next hkept hallowed hstep
    obtain ⟨after, hperform, hafter⟩ := hkept.perform call hallowed.1 hallowed.2
    have hstepped : step format lists call = .ok ⟨after, (call.expect format lists.maps).2⟩ := by
      rw [step, hperform]
      rfl
    obtain rfl := Except.ok.inj (hstepped.symm.trans hstep)
    exact hafter

def flagFormat : TagFormat Nat Bool where
  typeId _ := 0
  serialize
    | false => [0]
    | true => [1, 1]
  deserialize _ data := data.head? != some 0
  deserialize_serialize tag _ := by cases tag <;> rfl
  size_lt tag := by cases tag <;> decide

def fits (lists : TagLists Nat Bool) (call : TagCall Nat Bool) : Bool :=
  decide (call.Offered flagFormat lists.maps ∧ call.Fits flagFormat lists.store)

theorem persistent_of_fits_copy :
    let lists := (machine flagFormat).after fits
      [.create 0, .add 0 true, .copy 1 0, .replace 1 false] {}
    Persistent flagFormat lists ∧ peek flagFormat 0 lists.store 0 = .ok (some true) ∧
      peek flagFormat 0 lists.store 1 = .ok (some false) :=
  ⟨persistent_of_fits (Machine.ReachableUnder.after (fun _ _ hfits => of_decide_eq_true hfits) _
    .init), by decide +kernel, by decide +kernel⟩

theorem replace_longer_fails :
    ∃ lists,
      (machine flagFormat).ReachableUnder (fun lists call => call.Offered flagFormat lists.maps)
        lists ∧
        (TagCall.replace 0 true).Offered flagFormat lists.maps ∧
        (TagCall.replace 0 true).perform flagFormat lists.store = .error .assertion := by
  refine ⟨(machine flagFormat).after fits [.create 0, .add 0 false] {}, ?_, ?_, ?_⟩
  · exact Machine.ReachableUnder.after (fun _ _ hfits => (of_decide_eq_true hfits).1) _ .init
  · decide +kernel
  · rfl

end TagLists

end HomaSird.Network
