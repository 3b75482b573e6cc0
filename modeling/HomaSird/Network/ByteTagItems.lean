import HomaSird.Network.ByteTagArray

/-! # The tags of a list, byte by byte

Reading a list gives the entries that have been added to it. The list says for each byte
which tags the byte carries; cutting and joining lists is described by that alone.
-/

namespace HomaSird.Network.ByteTagList

open HomaSird.Transition List Iterator

def encodeAll (entries : List TagEntry) : List UInt8 := entries.flatMap encode

structure Stores (heap : ByteTagHeap) (list : ByteTagList) (entries : List TagEntry) : Prop where
  holds : Holds heap list.data list.used (encodeAll entries)
  used_lt : list.used < 2 ^ 32
  adjusted : InInt32 list.adjustment
  least : ∀ entry ∈ entries, list.minStart ≤ entry.start
  greatest : ∀ entry ∈ entries, entry.stop ≤ list.maxEnd
  ordered : ∀ entry ∈ entries, entry.start ≤ entry.stop
  stored : ∀ entry ∈ entries, InInt32 entry.start ∧ InInt32 entry.stop
  placed : ∀ entry ∈ entries, InInt32 (entry.start + list.adjustment) ∧
    InInt32 (entry.stop + list.adjustment)

variable {heap after final : ByteTagHeap} {list new o : ByteTagList}
  {lists others : List ByteTagList} {entry : TagEntry} {entries done rest : List TagEntry}
  {iterator : Iterator} {bytes : List UInt8} {target : Option Nat} {used : Nat}

theorem Stores.keeps (hstores : Stores heap list entries)
    (hkeeps : Keeps heap after lists) (hmem : list ∈ lists) : Stores after list entries :=
  { hstores with holds := hkeeps list hmem _ hstores.holds }

theorem Stores.empty (heap : ByteTagHeap) : Stores heap {} [] :=
  ⟨.empty, by decide, by decide, by simp, by simp, by simp, by simp, by simp⟩

theorem encodeAll_cons (entry : TagEntry) (rest : List TagEntry) :
    encodeAll (entry :: rest) = encode entry ++ encodeAll rest := rfl

theorem encodeAll_append (entries rest : List TagEntry) :
    encodeAll (entries ++ rest) = encodeAll entries ++ encodeAll rest := flatMap_append

theorem length_le_encodeAll (entries : List TagEntry) :
    entries.length ≤ (encodeAll entries).length := by
  induction entries with
  | nil => exact le_rfl
  | cons entry rest ih =>
    rw [encodeAll_cons, length_append, length_encode, length_cons]
    omega

theorem Holds.length (hholds : Holds heap target used bytes) : bytes.length = used := by
  cases hholds with
  | empty => rfl
  | front _ hused hdirty => exact length_take_of_le (le_trans hused hdirty)

/-! ## Reading -/

structure Reads (heap : ByteTagHeap) (list : ByteTagList) (iterator : Iterator)
    (done rest : List TagEntry) : Prop where
  block : iterator.block = list.data
  stop : iterator.stop = list.used
  current : iterator.current = (encodeAll done).length
  holds : Holds heap list.data list.used (encodeAll done ++ encodeAll rest)
  small : ∀ entry ∈ rest, entry.tag.data.length < 2 ^ 32
  placed : ∀ entry ∈ rest, InInt32 (entry.start + iterator.adjustment) ∧
    InInt32 (entry.stop + iterator.adjustment)

theorem Reads.keeps (hreads : Reads heap list iterator done rest)
    (hkeeps : Keeps heap after lists) (hmem : list ∈ lists) : Reads after list iterator done rest :=
  { hreads with holds := hkeeps list hmem _ hreads.holds }

theorem Reads.stop_eq (hreads : Reads heap list iterator done rest) :
    iterator.stop = iterator.current + (encodeAll rest).length := by
  rw [hreads.stop, hreads.current, ← hreads.holds.length, length_append]

theorem Reads.view (hreads : Reads heap list iterator done (entry :: rest)) :
    iterator.view heap = .ok (encodeAll (entry :: rest)) := by
  have hholds := hreads.holds
  have hlen := hholds.length
  rw [Iterator.view, hreads.block, hreads.stop, hreads.current]
  generalize hbytes : encodeAll done ++ encodeAll (entry :: rest) = bytes at hholds hlen
  generalize list.data = target at hholds
  generalize list.used = used at hholds hlen
  cases hholds with
  | empty =>
    have hempty := congrArg length hbytes
    rw [length_append, encodeAll_cons, length_append, length_encode] at hempty
    simp at hempty
  | @front address used content hcont hused hdirty =>
    obtain ⟨block, hblock, rfl⟩ := Option.map_eq_some_iff.mp hcont
    simp only [deref_eq hblock, bind, Except.bind, if_pos (le_trans hused hdirty)]
    rw [← hbytes, drop_left]
    rfl

def Visible (iterator : Iterator) (entry : TagEntry) : Prop :=
  ¬(entry.start + iterator.adjustment ≥ iterator.offsetEnd ∨
    entry.stop + iterator.adjustment ≤ iterator.offsetStart)

instance (iterator : Iterator) : DecidablePred (Visible iterator) :=
  fun _ => inferInstanceAs (Decidable (¬_))

def itemOf (iterator : Iterator) (entry : TagEntry) : Item :=
  ⟨entry.tag, max (entry.start + iterator.adjustment) iterator.offsetStart,
    min (entry.stop + iterator.adjustment) iterator.offsetEnd⟩

theorem word_u32Bytes {value : Nat} (hval : value < 2 ^ 32)
    (rest : List UInt8) : word (u32Bytes value ++ rest) = .ok (value, rest) := by
  rw [word, readU32_u32Bytes hval]

def Iterator.pass (iterator : Iterator) (entry : TagEntry) : Iterator :=
  { iterator with current := iterator.current + (4 + 4 + 4 + 4 + entry.tag.data.length) }

theorem Reads.pass (hreads : Reads heap list iterator done (entry :: rest)) :
    Reads heap list (iterator.pass entry) (done ++ [entry]) rest where
  block := hreads.block
  stop := hreads.stop
  current := by
    rw [encodeAll_append, length_append, encodeAll_cons, length_append, length_encode,
      ← hreads.current]
    rfl
  holds := by
    have hholds := hreads.holds
    rw [encodeAll_cons, ← append_assoc] at hholds
    rwa [encodeAll_append, show encodeAll [entry] = encode entry from append_nil _]
  small := fun other hother => hreads.small other (.tail _ hother)
  placed := fun other hother => hreads.placed other (.tail _ hother)

theorem next_cons (hreads : Reads heap list iterator done (entry :: rest)) (fuel : Nat) :
    iterator.next heap (fuel + 1) =
      if Visible iterator entry then .ok (some (itemOf iterator entry, iterator.pass entry))
      else (iterator.pass entry).next heap fuel := by
  have hsmall := hreads.small entry mem_cons_self
  obtain ⟨hstart, hstop⟩ := hreads.placed entry mem_cons_self
  have hmore : iterator.current < iterator.stop := by
    rw [hreads.stop_eq, encodeAll_cons, length_append, length_encode]
    omega
  have htid : entry.tag.tid.toNat < 2 ^ 32 := by
    have hlt := entry.tag.tid.toNat_lt
    omega
  have hbytes : encodeAll (entry :: rest) = u32Bytes entry.tag.tid.toNat ++
      (u32Bytes entry.tag.data.length ++ (u32Bytes (uint32OfInt entry.start) ++
        (u32Bytes (uint32OfInt entry.stop) ++ (entry.tag.data ++ encodeAll rest)))) := by
    rw [encodeAll_cons, encode, entryHeader]
    simp only [append_assoc]
  rw [Iterator.next, if_pos hmore, hreads.view, hbytes]
  simp only [bind, Except.bind, word_u32Bytes htid, word_u32Bytes hsmall,
    word_u32Bytes (uint32OfInt_lt _), int32_uint32OfInt_add, int32_of_inInt32 hstart,
    int32_of_inInt32 hstop]
  by_cases hvis : Visible iterator entry
  · have hshown : ¬(entry.start + iterator.adjustment ≥ iterator.offsetEnd ∨
        entry.stop + iterator.adjustment ≤ iterator.offsetStart) := hvis
    rw [if_pos hvis, if_neg hshown, if_pos (by simp), UInt16.ofNat_toNat, take_left]
    rfl
  · have hhidden : entry.start + iterator.adjustment ≥ iterator.offsetEnd ∨
        entry.stop + iterator.adjustment ≤ iterator.offsetStart := not_not.mp hvis
    rw [if_neg hvis, if_pos hhidden]
    rfl

theorem next_nil (hreads : Reads heap list iterator done [])
    (fuel : Nat) : iterator.next heap (fuel + 1) = .ok none := by
  have hend := hreads.stop_eq
  rw [Iterator.next, if_neg]
  · rfl
  · rw [hend]
    exact lt_irrefl _

variable {fuel : Nat}

theorem next_spec (hreads : Reads heap list iterator done rest) (hfuel : rest.length < fuel) :
    (iterator.next heap fuel = .ok none ∧ ∀ entry ∈ rest, ¬Visible iterator entry) ∨
      ∃ hidden entry behind current, rest = hidden ++ entry :: behind ∧
        (∀ other ∈ hidden, ¬Visible iterator other) ∧ Visible iterator entry ∧
        iterator.next heap fuel =
          .ok (some (itemOf iterator entry, { iterator with current := current })) ∧
        Reads heap list { iterator with current := current } (done ++ hidden ++ [entry]) behind := by
  induction rest generalizing fuel iterator done with
  | nil =>
    obtain ⟨fuel, rfl⟩ := Nat.exists_eq_succ_of_ne_zero (ne_of_gt hfuel)
    exact .inl ⟨next_nil hreads fuel, fun _ hmem => absurd hmem not_mem_nil⟩
  | cons entry rest ih =>
    obtain ⟨fuel, rfl⟩ := Nat.exists_eq_succ_of_ne_zero (Nat.ne_zero_of_lt hfuel)
    rw [Nat.succ_eq_add_one, next_cons hreads]
    have hpassed := hreads.pass
    by_cases hvis : Visible iterator entry
    · refine .inr ⟨[], entry, rest, (iterator.pass entry).current, rfl,
        fun _ hmem => absurd hmem not_mem_nil, hvis, if_pos hvis, ?_⟩
      rw [append_nil]
      exact hpassed
    · rw [if_neg hvis]
      rcases ih hpassed (Nat.lt_of_succ_lt_succ hfuel) with
        ⟨hnone, hhidden⟩ |
        ⟨hidden, shown, behind, current, rfl, hhidden, hshown, hnext, hbehind⟩
      · exact .inl ⟨hnone, forall_mem_cons.mpr ⟨hvis, hhidden⟩⟩
      · refine .inr ⟨entry :: hidden, shown, behind, current, rfl,
          forall_mem_cons.mpr ⟨hvis, hhidden⟩, hshown, hnext, ?_⟩
        rw [← append_cons] at hbehind
        exact hbehind

theorem length_lt_fuel (hreads : Reads heap list iterator done rest) :
    rest.length < iterator.fuel := by
  have hle := length_le_encodeAll rest
  have hstop := hreads.stop_eq
  rw [fuel]
  omega

theorem filterMap_hidden {Value : Type} {hidden behind : List TagEntry}
    {f : TagEntry → Option Value} (hhidden : ∀ other ∈ hidden, f other = none) :
    (hidden ++ behind).filterMap f = behind.filterMap f := by
  rw [filterMap_append, filterMap_eq_nil_iff.mpr hhidden, nil_append]

def shown (iterator : Iterator) (entry : TagEntry) : Option Item :=
  if Visible iterator entry then some (itemOf iterator entry) else none

theorem shown_visible (hvis : Visible iterator entry) :
    shown iterator entry = some (itemOf iterator entry) := if_pos hvis

theorem shown_hidden (hhidden : ¬Visible iterator entry) : shown iterator entry = none :=
  if_neg hhidden

theorem itemsLoop_spec (hreads : Reads heap list iterator done rest) (hfuel : rest.length < fuel) :
    iterator.itemsLoop heap fuel = .ok (rest.filterMap (shown iterator)) := by
  induction fuel generalizing iterator done rest with
  | zero => exact absurd hfuel (Nat.not_lt_zero _)
  | succ fuel ih =>
    rw [itemsLoop]
    rcases next_spec hreads (length_lt_fuel hreads) with
      ⟨hnone, hhidden⟩ | ⟨hidden, entry, behind, current, rfl, hhidden, hvis, hnext, hbehind⟩
    · rw [filterMap_eq_nil_iff.mpr fun entry hmem => shown_hidden (hhidden entry hmem)]
      simp only [bind, Except.bind, hnone]
      rfl
    · rw [filterMap_hidden fun other hmem => shown_hidden (hhidden other hmem),
        filterMap_cons_some (shown_visible hvis)]
      simp only [bind, Except.bind, hnext]
      rw [ih hbehind (by simp at hfuel; omega)]
      rfl

/-! ## Adding what is read -/

theorem addTag_stores (tag : ByteTag) (start stop : Int) (hshared : Shared heap (list :: others))
    (hstores : Stores heap list entries) (hroom : others.length + 2 < 2 ^ 32)
    (hspace : list.used + 16 + tag.data.length < 2 ^ 32) (hord : start ≤ stop)
    (hplaced : InInt32 start ∧ InInt32 stop)
    (hstored : InInt32 (start - list.adjustment) ∧ InInt32 (stop - list.adjustment)) :
    ∃ after new,
      addTag heap list tag start stop = .ok (after, new) ∧ Shared after (new :: others) ∧
        Keeps heap after others ∧
        Stores after new (entries ++ [⟨start - list.adjustment, stop - list.adjustment, tag⟩]) ∧
        new.adjustment = list.adjustment ∧ new.used = list.used + 16 + tag.data.length := by
  obtain ⟨after, new, hadd, hafter, hkeeps, hholds, hadj, hused, hmin, hmax⟩ :=
    addTag_spec hshared hstores.holds hroom hspace hstored.1 hstored.2
  refine ⟨after, new, hadd, hafter, hkeeps, ?_, hadj, hused⟩
  have hboth : ∀ {holds : TagEntry → Prop}, (∀ entry ∈ entries, holds entry) →
      holds ⟨start - list.adjustment, stop - list.adjustment, tag⟩ →
      ∀ entry ∈ entries ++ [⟨start - list.adjustment, stop - list.adjustment, tag⟩],
        holds entry := by
    intro holds hold hnew entry hmem
    rcases mem_append.mp hmem with hin | hlast
    · exact hold entry hin
    · exact mem_singleton.mp hlast ▸ hnew
  refine ⟨?_, hused ▸ hspace, hadj ▸ hstores.adjusted, ?_, ?_, ?_, ?_, ?_⟩
  · rw [encodeAll_append, show encodeAll [_] = encode _ from append_nil _]
    exact hholds
  · rw [hmin]
    exact hboth (fun entry hmem => (Int.min_le_right _ _).trans (hstores.least entry hmem))
      (Int.min_le_left _ _)
  · rw [hmax]
    exact hboth (fun entry hmem => (hstores.greatest entry hmem).trans (Int.le_max_right _ _))
      (Int.le_max_left _ _)
  · exact hboth hstores.ordered (Int.sub_le_sub_right hord _)
  · exact hboth hstores.stored hstored
  · rw [hadj]
    refine hboth hstores.placed ?_
    simpa only [Int.sub_add_cancel] using hplaced

def kept (keep : Item → Option Item) (iterator : Iterator) (adjustment : Int)
    (entry : TagEntry) : Option TagEntry :=
  ((shown iterator entry).bind keep).map fun item =>
    ⟨item.start - adjustment, item.stop - adjustment, item.tag⟩

theorem kept_hidden {keep : Item → Option Item} {adjustment : Int}
    (hhidden : ¬Visible iterator entry) : kept keep iterator adjustment entry = none := by
  rw [kept, shown_hidden hhidden]
  rfl

/-- An item is kept whole or cut, and its offsets stay in range. -/
structure Fitting (adjustment : Int) (entry : TagEntry) (item : Item) : Prop where
  tag : item.tag = entry.tag
  ordered : item.start ≤ item.stop
  placed : InInt32 item.start ∧ InInt32 item.stop
  stored : InInt32 (item.start - adjustment) ∧ InInt32 (item.stop - adjustment)

theorem addLoop_spec (keep : Item → Option Item) (hshared : Shared heap (list :: others))
    (hmem : o ∈ others) (hreads : Reads heap o iterator done rest)
    (hstores : Stores heap list entries)
    (hfit : ∀ entry ∈ rest, ∀ item,
      (shown iterator entry).bind keep = some item → Fitting list.adjustment entry item)
    (hspace : list.used + (encodeAll rest).length < 2 ^ 32) (hroom : others.length + 2 < 2 ^ 32)
    (hfuel : rest.length < fuel) :
    ∃ after new,
      addLoop keep fuel heap list iterator = .ok (after, new) ∧ Shared after (new :: others) ∧
        Keeps heap after others ∧
        Stores after new (entries ++ rest.filterMap (kept keep iterator list.adjustment)) ∧
        new.adjustment = list.adjustment := by
  induction fuel generalizing heap list iterator done rest entries with
  | zero => exact absurd hfuel (Nat.not_lt_zero _)
  | succ fuel ih =>
    rw [addLoop]
    rcases next_spec hreads (length_lt_fuel hreads) with
      ⟨hnone, hhidden⟩ | ⟨hidden, entry, behind, current, rfl, hhidden, hvis, hnext, hbehind⟩
    · refine ⟨heap, list, ?_, hshared, Keeps.refl _ _, ?_, rfl⟩
      · simp only [bind, Except.bind, hnone]
        rfl
      · rw [filterMap_eq_nil_iff.mpr, append_nil]
        · exact hstores
        · exact fun entry hent => kept_hidden (hhidden entry hent)
    · have hless : behind.length < fuel := by
        simp at hfuel
        omega
      have hlen : (encodeAll (hidden ++ entry :: behind)).length =
          (encodeAll hidden).length + (16 + entry.tag.data.length +
            (encodeAll behind).length) := by
        rw [encodeAll_append, length_append, encodeAll_cons, length_append, length_encode]
      rw [filterMap_hidden fun other hother => kept_hidden (hhidden other hother)]
      -- the items behind still fit: adding one does not move the adjustment
      have hlater : ∀ other ∈ behind, ∀ item, (shown iterator other).bind keep = some item →
          Fitting list.adjustment other item := fun other hother =>
        hfit other (mem_append_right _ (.tail _ hother))
      simp only [bind, Except.bind, hnext]
      cases hkeep : keep (itemOf iterator entry) with
      | none =>
        rw [filterMap_cons_none]
        · exact ih hshared hbehind hstores hlater (by omega) hless
        · rw [kept, shown_visible hvis, Option.bind_some, hkeep]
          rfl
      | some item =>
        have hitem : (shown iterator entry).bind keep = some item := by
          rw [shown_visible hvis, Option.bind_some, hkeep]
        obtain ⟨htag, hord, hplaced, hstored⟩ :=
          hfit entry (mem_append_right _ mem_cons_self) item hitem
        obtain ⟨middle, next, hadd, hmiddle, hkeeps, hnew, hadj, hused⟩ :=
          addTag_stores item.tag item.start item.stop hshared hstores hroom
            (by rw [htag]; omega) hord hplaced hstored
        obtain ⟨after, new, hloop, hafter, hkeepsAfter, hall, hsame⟩ :=
          ih hmiddle (hbehind.keeps hkeeps hmem) hnew (by rw [hadj]; exact hlater)
            (by rw [hused, htag]; omega) hless
        refine ⟨after, new, ?_, hafter, hkeeps.trans hkeepsAfter, ?_, hsame.trans hadj⟩
        · simp only [hadd]
          exact hloop
        · rw [filterMap_cons_some (b := ⟨item.start - list.adjustment,
            item.stop - list.adjustment, item.tag⟩) (by rw [kept, hitem]; rfl)]
          rw [hadj, append_assoc] at hall
          exact hall

end HomaSird.Network.ByteTagList
