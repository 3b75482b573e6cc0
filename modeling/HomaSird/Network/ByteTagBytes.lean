import HomaSird.Network.ByteTagItems

/-! # Which byte carries which tags

Cutting a list at an offset takes the tags off the bytes beyond it and off no others, and
joining lists gives each byte the tags of both.
-/

namespace HomaSird.Network.ByteTagList

open HomaSird.Transition List

def Covers (entry : TagEntry) (adjustment byte : Int) : Prop :=
  entry.start + adjustment ≤ byte ∧ byte < entry.stop + adjustment

instance (adjustment byte : Int) : DecidablePred fun entry => Covers entry adjustment byte :=
  fun _ => inferInstanceAs (Decidable (_ ∧ _))

def tagsAt (entries : List TagEntry) (adjustment byte : Int) : List ByteTag :=
  (entries.filter fun entry => Covers entry adjustment byte).map TagEntry.tag

variable {heap after : ByteTagHeap} {list o : ByteTagList} {others : List ByteTagList}
  {entry : TagEntry} {entries rest : List TagEntry} {byte offset : Int}

theorem tagsAt_append (entries rest : List TagEntry) (adjustment byte : Int) :
    tagsAt (entries ++ rest) adjustment byte =
      tagsAt entries adjustment byte ++ tagsAt rest adjustment byte := by
  rw [tagsAt, filter_append, map_append, tagsAt, tagsAt]

variable {adjustment : Int}

theorem tagsAt_eq_nil (hnone : ∀ entry ∈ entries, ¬Covers entry adjustment byte) :
    tagsAt entries adjustment byte = [] := by
  rw [tagsAt, map_eq_nil_iff, filter_eq_nil_iff]
  intro entry hmem
  simpa using hnone entry hmem

theorem tagsAt_adjust (entries : List TagEntry) (adjustment more byte : Int) :
    tagsAt entries (adjustment + more) byte = tagsAt entries adjustment (byte - more) := by
  refine congrArg (map TagEntry.tag) (filter_congr fun entry _ => ?_)
  have hcov : Covers entry (adjustment + more) byte ↔
      Covers entry adjustment (byte - more) := by
    unfold Covers
    omega
  exact decide_eq_decide.mpr hcov

theorem filter_filterMap {Value : Type} {tag : Value → ByteTag} {covers : Value → Prop}
    [DecidablePred covers] {f : TagEntry → Option Value}
    (hnone : ∀ entry ∈ entries, f entry = none → ¬Covers entry adjustment byte)
    (hsome : ∀ entry ∈ entries, ∀ new,
      f entry = some new → tag new = entry.tag ∧ (covers new ↔ Covers entry adjustment byte)) :
    ((entries.filterMap f).filter fun new => covers new).map tag =
      tagsAt entries adjustment byte := by
  induction entries with
  | nil => rfl
  | cons entry rest ih =>
    have hrest := ih (fun other hmem => hnone other (.tail _ hmem))
      (fun other hmem => hsome other (.tail _ hmem))
    unfold tagsAt at hrest ⊢
    cases hf : f entry with
    | none =>
      rw [filterMap_cons_none hf, hrest, filter_cons_of_neg]
      simpa using hnone entry mem_cons_self hf
    | some new =>
      obtain ⟨htag, hcov⟩ := hsome entry mem_cons_self new hf
      rw [filterMap_cons_some hf]
      by_cases hcover : Covers entry adjustment byte
      · rw [filter_cons_of_pos (by simpa using hcov.mpr hcover),
          filter_cons_of_pos (by simpa using hcover), map_cons, map_cons,
          hrest, htag]
      · rw [filter_cons_of_neg (by simpa using fun hnew => hcover (hcov.mp hnew)),
          filter_cons_of_neg (by simpa using hcover), hrest]

theorem begin_reads (hstores : Stores heap list entries) (offsetStart offsetEnd : Int) :
    Reads heap list (list.begin offsetStart offsetEnd) [] entries := by
  have hholds := hstores.holds
  have hlen := hholds.length
  have hsmall : ∀ entry ∈ entries, entry.tag.data.length < 2 ^ 32 := by
    intro entry hmem
    have hle : (encode entry).length ≤ (encodeAll entries).length :=
      (sublist_flatten_of_mem (mem_map_of_mem hmem)).length_le
    rw [length_encode, hlen] at hle
    have hused := hstores.used_lt
    omega
  unfold begin
  split
  next hdata =>
    rw [hdata] at hholds
    generalize hbytes : encodeAll entries = bytes at hholds
    generalize hused : list.used = used at hholds
    cases hholds
    have hempty := length_le_encodeAll entries
    rw [hbytes] at hempty
    obtain rfl := length_eq_zero_iff.mp (Nat.le_zero.mp hempty)
    exact ⟨hdata.symm, hused.symm, rfl, hstores.holds, hsmall,
      fun _ hmem => absurd hmem not_mem_nil⟩
  next address hdata =>
    exact ⟨hdata.symm, rfl, rfl, hstores.holds, hsmall, hstores.placed⟩

theorem begin_adjustment (hstores : Stores heap list entries) (hne : entries ≠ [])
    (offsetStart offsetEnd : Int) :
    (list.begin offsetStart offsetEnd).adjustment = list.adjustment := by
  unfold begin
  split
  next hdata =>
    have hholds := hstores.holds
    rw [hdata] at hholds
    generalize hbytes : encodeAll entries = bytes at hholds
    generalize list.used = used at hholds
    cases hholds
    have hempty := length_le_encodeAll entries
    rw [hbytes] at hempty
    exact absurd (length_eq_zero_iff.mp (Nat.le_zero.mp hempty)) hne
  · rfl

theorem begin_offsets (list : ByteTagList) (offsetStart offsetEnd : Int) :
    (list.begin offsetStart offsetEnd).offsetStart = offsetStart ∧
      (list.begin offsetStart offsetEnd).offsetEnd = offsetEnd := by
  unfold begin
  split
  · exact ⟨rfl, rfl⟩
  · exact ⟨rfl, rfl⟩

theorem shown_begin (hstores : Stores heap list entries) (hmem : entry ∈ entries)
    (offsetStart offsetEnd : Int) :
    shown (list.begin offsetStart offsetEnd) entry =
      if entry.start + list.adjustment < offsetEnd ∧ offsetStart < entry.stop + list.adjustment then
        some ⟨entry.tag, max (entry.start + list.adjustment) offsetStart,
            min (entry.stop + list.adjustment) offsetEnd⟩
      else none := by
  obtain ⟨hstart, hend⟩ := begin_offsets list offsetStart offsetEnd
  have hadj := begin_adjustment hstores (ne_nil_of_mem hmem) offsetStart offsetEnd
  have hvis : Visible (list.begin offsetStart offsetEnd) entry ↔
      entry.start + list.adjustment < offsetEnd ∧
        offsetStart < entry.stop + list.adjustment := by
    rw [Visible, hstart, hend, hadj]
    omega
  rw [shown, itemOf, hstart, hend, hadj]
  exact if_congr hvis rfl rfl

theorem length_encodeAll_filterMap {f : TagEntry → Option TagEntry}
    (htag : ∀ entry ∈ entries, ∀ new, f entry = some new → new.tag = entry.tag) :
    (encodeAll (entries.filterMap f)).length ≤ (encodeAll entries).length := by
  induction entries with
  | nil => exact le_rfl
  | cons entry rest ih =>
    have hrest := ih fun other hmem => htag other (.tail _ hmem)
    rw [encodeAll_cons, length_append]
    cases hf : f entry with
    | none =>
      rw [filterMap_cons_none hf]
      omega
    | some new =>
      rw [filterMap_cons_some hf, encodeAll_cons, length_append, length_encode,
        htag entry mem_cons_self new hf, length_encode]
      omega

/-! ## Cutting -/

/-- What a cut keeps begins at 0 or later and ends where the item does or before. -/
def Cuts (keep : Item → Option Item) : Prop :=
  ∀ item new, keep item = some new → item.start ≤ item.stop → 0 < item.stop → 0 ≤ item.start →
    new.tag = item.tag ∧ 0 ≤ new.start ∧ new.start ≤ new.stop ∧ new.stop ≤ item.stop

variable {keep : Item → Option Item}

theorem kept_spec (hstores : Stores heap list entries) (hcuts : Cuts keep) (hmem : entry ∈ entries)
    {new : Item} (hkept : (shown list.beginAll entry).bind keep = some new) :
    new.tag = entry.tag ∧ 0 ≤ new.start ∧ new.start ≤ new.stop ∧
      new.stop ≤ entry.stop + list.adjustment := by
  rw [beginAll, shown_begin hstores hmem] at hkept
  have hord := hstores.ordered entry hmem
  split at hkept
  next hvis =>
    rw [Option.bind_some] at hkept
    have hoff : (0 : Int) < offsetMax := by decide
    obtain ⟨htag, hfst, hle, hlast⟩ := hcuts _ new hkept (by dsimp only; omega)
      (by dsimp only; omega) (by dsimp only; omega)
    exact ⟨htag, hfst, hle, by dsimp only at hlast; omega⟩
  · exact nomatch hkept

theorem rebuild_spec (hcuts : Cuts keep) (hshared : Shared heap (list :: others))
    (hstores : Stores heap list entries) (hroom : others.length + 4 < 2 ^ 32) :
    ∃ after new,
      rebuild keep heap list = .ok (after, new) ∧ Shared after (new :: others) ∧
        Keeps heap after others ∧ Stores after new (entries.filterMap (kept keep list.beginAll 0)) ∧
        new.adjustment = 0 := by
  have hempty : Shared heap (({} : ByteTagList) :: list :: others) :=
    ⟨hshared.counted.none_cons, forall_mem_cons.mpr ⟨⟨[], .empty⟩, hshared.holds⟩⟩
  have hused : (encodeAll entries).length < 2 ^ 32 := by
    rw [hstores.holds.length]
    exact hstores.used_lt
  have hreads : Reads heap list list.beginAll [] entries := begin_reads hstores 0 offsetMax
  obtain ⟨built, new, hloop, hbuilt, hkeeps, hnew, hadj⟩ :=
    addLoop_spec keep hempty mem_cons_self hreads (.empty heap)
      (fun entry hmem item hkept => by
        obtain ⟨htag, hfst, hle, hlast⟩ := kept_spec hstores hcuts hmem hkept
        have hplaced := (hstores.placed entry hmem).2.2
        have hboth : InInt32 item.start ∧ InInt32 item.stop := by
          unfold InInt32
          omega
        refine ⟨htag, hle, hboth, ?_⟩
        simpa only [Int.sub_zero] using hboth)
      (by simpa using hused) (by rw [length_cons]; omega)
      (length_lt_fuel hreads)
  -- the old array goes, the new one is shared for a moment and then the list's own
  obtain ⟨hfreed, hsame⟩ := @deallocate_spec built list.data
    (new.data :: others.map ByteTagList.data) (hbuilt.counted.perm (.swap _ _ _))
    (by rw [length_cons, length_map]; omega)
  have hkeepsFreed : Keeps built (built.deallocate list.data) (new :: others) := Keeps.of_same hsame
  obtain ⟨hcopy, hcopied, hkeepsCopied⟩ := @copy_spec _ new (new :: others) hfreed
    mem_cons_self (by rw [length_cons]; omega)
  obtain ⟨hlast, hsameLast⟩ := @deallocate_spec _ new.data
    ((new :: others).map ByteTagList.data) hcopied
    (by rw [length_map, length_cons]; omega)
  have hkeepsNew := (hkeepsFreed.trans hkeepsCopied.tail).trans (Keeps.of_same hsameLast)
  have hheld : ∀ o ∈ new :: others, ∃ bytes, Holds built o.data o.used bytes :=
    forall_mem_cons.mpr ⟨hbuilt.holds new mem_cons_self,
      fun o hmem => hbuilt.holds o (mem_cons_of_mem _ (.tail _ hmem))⟩
  refine ⟨_, new, ?_, ⟨hlast, fun o hmem => ?_⟩, hkeeps.tail.trans hkeepsNew.tail,
    hnew.keeps hkeepsNew mem_cons_self, hadj⟩
  · simp only [rebuild, hloop, bind, Except.bind]
    rw [hcopy]
    rfl
  · obtain ⟨bytes, hholds⟩ := hheld o hmem
    exact ⟨bytes, hkeepsNew o hmem bytes hholds⟩

structure Within (list : ByteTagList) (entries : List TagEntry) (new : ByteTagList)
    (rest : List TagEntry) : Prop where
  used : new.used ≤ list.used
  adjustment : new.adjustment = list.adjustment ∨ new.adjustment = 0
  stop : ∀ entry ∈ rest, ∃ old ∈ entries,
    entry.stop + new.adjustment ≤ old.stop + list.adjustment

theorem Within.refl (list : ByteTagList)
    (entries : List TagEntry) : Within list entries list entries :=
  ⟨le_rfl, .inl rfl, fun entry hmem => ⟨entry, hmem, Int.le_refl _⟩⟩

theorem kept_eq_some (hstores : Stores heap list entries) (hmem : entry ∈ entries)
    {new : TagEntry} :
    kept keep list.beginAll adjustment entry = some new ↔
      entry.start + list.adjustment < offsetMax ∧ 0 < entry.stop + list.adjustment ∧
        keep ⟨entry.tag, max (entry.start + list.adjustment) 0,
            min (entry.stop + list.adjustment) offsetMax⟩ =
          some ⟨new.tag, new.start + adjustment, new.stop + adjustment⟩ := by
  rw [kept, beginAll, shown_begin hstores hmem]
  split
  next hvis =>
    rw [Option.bind_some, Option.map_eq_some_iff]
    constructor
    · rintro ⟨item, hkeep, rfl⟩
      simp only [Int.sub_add_cancel]
      exact ⟨hvis.1, hvis.2, hkeep⟩
    · rintro ⟨-, -, hkeep⟩
      refine ⟨_, hkeep, ?_⟩
      simp only [Int.add_sub_cancel]
  next hhidden =>
    exact iff_of_false (by simp) fun hboth => hhidden ⟨hboth.1, hboth.2.1⟩

theorem kept_eq_none (hstores : Stores heap list entries) (hmem : entry ∈ entries) :
    kept keep list.beginAll adjustment entry = none ↔
      (entry.start + list.adjustment < offsetMax → 0 < entry.stop + list.adjustment →
        keep ⟨entry.tag, max (entry.start + list.adjustment) 0,
            min (entry.stop + list.adjustment) offsetMax⟩ = none) := by
  rw [kept, beginAll, shown_begin hstores hmem, Option.map_eq_none_iff]
  split
  next hvis =>
    rw [Option.bind_some]
    exact ⟨fun hkeep _ _ => hkeep, fun hkeep => hkeep hvis.1 hvis.2⟩
  next hhidden =>
    exact ⟨fun _ hstart hstop => absurd ⟨hstart, hstop⟩ hhidden, fun _ => rfl⟩

theorem rebuild_within (hcuts : Cuts keep) (hstores : Stores heap list entries) {new : ByteTagList}
    (hnew : Stores after new (entries.filterMap (kept keep list.beginAll 0)))
    (hadj : new.adjustment = 0) :
    Within list entries new (entries.filterMap (kept keep list.beginAll 0)) where
  used := by
    rw [← hnew.holds.length, ← hstores.holds.length]
    refine length_encodeAll_filterMap fun entry hmem new hkept => ?_
    obtain ⟨item, hitem, rfl⟩ := Option.map_eq_some_iff.mp hkept
    exact (kept_spec hstores hcuts hmem hitem).1
  adjustment := .inr hadj
  stop entry hent := by
    obtain ⟨old, hmem, hkept⟩ := mem_filterMap.mp hent
    obtain ⟨item, hitem, rfl⟩ := Option.map_eq_some_iff.mp hkept
    refine ⟨old, hmem, ?_⟩
    rw [hadj]
    simpa only [Int.sub_zero, Int.add_zero] using (kept_spec hstores hcuts hmem hitem).2.2.2

def KeepsByte (keep : Item → Option Item) (byte : Int) : Prop :=
  ∀ item, (keep item = none → ¬(item.start ≤ byte ∧ byte < item.stop)) ∧
    ∀ new, keep item = some new → new.tag = item.tag ∧
      (new.start ≤ byte ∧ byte < new.stop ↔ item.start ≤ byte ∧ byte < item.stop)

theorem tagsAt_kept (hstores : Stores heap list entries) (hkeep : KeepsByte keep byte)
    (hpos : 0 ≤ byte) (hlt : byte < offsetMax) (adjustment : Int) :
    tagsAt (entries.filterMap (kept keep list.beginAll adjustment)) adjustment byte =
      tagsAt entries list.adjustment byte := by
  -- the bytes of the packet are between the bounds of the iterator
  have hclip : ∀ entry : TagEntry, (max (entry.start + list.adjustment) 0 ≤ byte ∧
      byte < min (entry.stop + list.adjustment) offsetMax) ↔
        Covers entry list.adjustment byte := by
    intro entry
    unfold Covers
    omega
  refine filter_filterMap (fun entry hmem hnone hcov => ?_) (fun entry hmem new hsome => ?_)
  · have hnot := (kept_eq_none hstores hmem).mp hnone
    have hthere := (hclip entry).mpr hcov
    unfold Covers at hcov
    exact (hkeep _).1 (hnot (by omega) (by omega)) hthere
  · obtain ⟨-, -, hsome⟩ := (kept_eq_some hstores hmem).mp hsome
    obtain ⟨htag, hcov⟩ := (hkeep _).2 _ hsome
    exact ⟨htag, hcov.trans (hclip entry)⟩

theorem cuts_cutBehind (offset : Int) : Cuts (cutBehind offset) := by
  intro item new hkeep hord hstop hstart
  rw [cutBehind] at hkeep
  split at hkeep
  · exact nomatch hkeep
  · cases hkeep
    refine ⟨rfl, hstart, ?_, Int.min_le_left _ _⟩
    dsimp only
    omega

theorem cuts_cutBefore (offset : Int) : Cuts (cutBefore offset) := by
  intro item new hkeep hord hstop hstart
  rw [cutBefore] at hkeep
  split at hkeep
  · exact nomatch hkeep
  · cases hkeep
    refine ⟨rfl, hstart.trans (Int.le_max_left _ _), ?_, Int.le_refl _⟩
    dsimp only
    omega

theorem keepsByte_cutBehind (hbyte : byte < offset) : KeepsByte (cutBehind offset) byte := by
  intro item
  rw [cutBehind]
  split
  next hbehind =>
    exact ⟨fun _ => by omega, (fun _ hnew => nomatch hnew)⟩
  next hpre =>
    refine ⟨(fun hnone => nomatch hnone), fun new hnew => ?_⟩
    cases hnew
    refine ⟨rfl, ?_⟩
    dsimp only
    omega

theorem keepsByte_cutBefore (hbyte : offset ≤ byte) : KeepsByte (cutBefore offset) byte := by
  intro item
  rw [cutBefore]
  split
  next hpre =>
    exact ⟨fun _ => by omega, (fun _ hnew => nomatch hnew)⟩
  next hbehind =>
    refine ⟨(fun hnone => nomatch hnone), fun new hnew => ?_⟩
    cases hnew
    refine ⟨rfl, ?_⟩
    dsimp only
    omega

theorem cutBehind_stop {item new : Item}
    (hkeep : cutBehind offset item = some new) : new.stop ≤ offset := by
  rw [cutBehind] at hkeep
  split at hkeep
  · exact nomatch hkeep
  · exact Option.some.inj hkeep ▸ Int.min_le_right _ _

theorem cutBefore_start {item new : Item}
    (hkeep : cutBefore offset item = some new) : offset ≤ new.start := by
  rw [cutBefore] at hkeep
  split at hkeep
  · exact nomatch hkeep
  · exact Option.some.inj hkeep ▸ Int.le_max_right _ _

section

variable (hshared : Shared heap (list :: others)) (hstores : Stores heap list entries) (hroom :
  others.length + 4 < 2 ^ 32)
include hshared hstores hroom

theorem addAtEnd_spec (hlt : offset < 2 ^ 31) (hbd : InInt32 (offset - list.adjustment)) :
    ∃ after new rest,
      addAtEnd heap list offset = .ok (after, new) ∧ Shared after (new :: others) ∧
        Keeps heap after others ∧ Stores after new rest ∧ Within list entries new rest ∧
        (∀ byte,
          0 ≤ byte → byte < offset →
            tagsAt rest new.adjustment byte = tagsAt entries list.adjustment byte) ∧
        ∀ byte, offset ≤ byte → tagsAt rest new.adjustment byte = [] := by
  simp only [addAtEnd, signed, if_pos hbd, bind, Except.bind]
  by_cases hskip : list.maxEnd ≤ offset - list.adjustment
  · refine ⟨heap, list, entries, if_pos hskip, hshared, Keeps.refl _ _, hstores, .refl _ _,
      fun _ _ _ => rfl, fun byte hbyte => tagsAt_eq_nil fun entry hmem hcov => ?_⟩
    have hgreatest := hstores.greatest entry hmem
    unfold Covers at hcov
    omega
  · obtain ⟨after, new, hrebuild, hafter, hkeeps, hnew, hadj⟩ :=
      rebuild_spec (cuts_cutBehind offset) hshared hstores hroom
    refine ⟨after, new, _, (if_neg hskip).trans hrebuild, hafter, hkeeps, hnew,
      rebuild_within (cuts_cutBehind offset) hstores hnew hadj, fun byte hpos hbyte => ?_,
      fun byte hbyte => tagsAt_eq_nil fun entry hent hcov => ?_⟩
    · rw [hadj]
      refine tagsAt_kept hstores (keepsByte_cutBehind hbyte) hpos ?_ 0
      unfold offsetMax
      omega
    · obtain ⟨old, hmem, hkept⟩ := mem_filterMap.mp hent
      have hstop := cutBehind_stop ((kept_eq_some hstores hmem).mp hkept).2.2
      unfold Covers at hcov
      dsimp only at hstop
      omega

theorem addAtStart_spec (hoff : 0 ≤ offset) (hbd : InInt32 (offset - list.adjustment)) :
    ∃ after new rest,
      addAtStart heap list offset = .ok (after, new) ∧ Shared after (new :: others) ∧
        Keeps heap after others ∧ Stores after new rest ∧ Within list entries new rest ∧
        (∀ byte,
          offset ≤ byte → byte < offsetMax →
            tagsAt rest new.adjustment byte = tagsAt entries list.adjustment byte) ∧
        ∀ entry ∈ rest, offset ≤ entry.start + new.adjustment := by
  simp only [addAtStart, signed, if_pos hbd, bind, Except.bind]
  by_cases hskip : list.minStart ≥ offset - list.adjustment
  · refine ⟨heap, list, entries, if_pos hskip, hshared, Keeps.refl _ _, hstores, .refl _ _,
      fun _ _ _ => rfl, fun entry hmem => ?_⟩
    have hleast := hstores.least entry hmem
    omega
  · obtain ⟨after, new, hrebuild, hafter, hkeeps, hnew, hadj⟩ :=
      rebuild_spec (cuts_cutBefore offset) hshared hstores hroom
    refine ⟨after, new, _, (if_neg hskip).trans hrebuild, hafter, hkeeps, hnew,
      rebuild_within (cuts_cutBefore offset) hstores hnew hadj, fun byte hbyte hlt => ?_,
      fun entry hent => ?_⟩
    · rw [hadj]
      exact tagsAt_kept hstores (keepsByte_cutBefore hbyte) (hoff.trans hbyte) hlt 0
    · obtain ⟨old, hmem, hkept⟩ := mem_filterMap.mp hent
      rw [hadj]
      exact cutBefore_start ((kept_eq_some hstores hmem).mp hkept).2.2

end

/-! ## Moving and joining -/

theorem adjust_spec {more : Int} (hstores : Stores heap list entries)
    (hadj : InInt32 (list.adjustment + more))
    (hplaced : ∀ entry ∈ entries, InInt32 (entry.start + list.adjustment + more) ∧
      InInt32 (entry.stop + list.adjustment + more)) :
    adjust list more = .ok { list with adjustment := list.adjustment + more } ∧
      Stores heap { list with adjustment := list.adjustment + more } entries := by
  refine ⟨?_, { hstores with adjusted := hadj, placed := fun entry hmem => ?_ }⟩
  · simp only [adjust, signed, if_pos hadj, bind, Except.bind]
    rfl
  · simpa only [Int.add_assoc] using hplaced entry hmem

theorem Shared.adjust (hshared : Shared heap (list :: others)) (adjustment : Int) :
    Shared heap ({ list with adjustment := adjustment } :: others) :=
  ⟨hshared.counted, forall_mem_cons.mpr (forall_mem_cons.mp hshared.holds)⟩

theorem keepsByte_some (byte : Int) : KeepsByte some byte := fun _ =>
  ⟨(fun hnone => nomatch hnone), fun _ hnew => Option.some.inj hnew ▸ ⟨rfl, Iff.rfl⟩⟩

theorem addList_spec {more : List TagEntry} (hshared : Shared heap (list :: others))
    (hmem : o ∈ others) (hstores : Stores heap list entries) (hmore : Stores heap o more)
    (hroom : others.length + 2 < 2 ^ 32) (hspace : list.used + o.used < 2 ^ 32)
    (hstored : ∀ entry ∈ more,
      0 ≤ entry.start + o.adjustment ∧ InInt32 (entry.start + o.adjustment - list.adjustment) ∧
        InInt32 (entry.stop + o.adjustment - list.adjustment)) :
    ∃ after new rest,
      addList heap list o = .ok (after, new) ∧ Shared after (new :: others) ∧
        Keeps heap after others ∧ Stores after new rest ∧
        ∀ byte,
          0 ≤ byte → byte < offsetMax →
            tagsAt rest new.adjustment byte =
              tagsAt entries list.adjustment byte ++ tagsAt more o.adjustment byte := by
  have hreads : Reads heap o o.beginAll [] more := begin_reads hmore 0 offsetMax
  have hfit : ∀ entry ∈ more, ∀ item, (shown o.beginAll entry).bind some = some item →
      Fitting list.adjustment entry item := by
    intro entry hent item hitem
    obtain ⟨hpos, hstart, hstop⟩ := hstored entry hent
    obtain ⟨hplacedStart, hplacedStop⟩ := hmore.placed entry hent
    have hord := hmore.ordered entry hent
    rw [beginAll, shown_begin hmore hent] at hitem
    split at hitem
    · cases hitem
      have hmin : min (entry.stop + o.adjustment) offsetMax = entry.stop + o.adjustment := by
        unfold InInt32 at hplacedStop
        unfold offsetMax
        omega
      rw [max_eq_left hpos, hmin]
      exact ⟨rfl, Int.add_le_add_right hord _, ⟨hplacedStart, hplacedStop⟩, hstart, hstop⟩
    · exact nomatch hitem
  obtain ⟨after, new, hloop, hafter, hkeeps, hnew, hadj⟩ :=
    addLoop_spec some hshared hmem hreads hstores hfit (by rwa [hmore.holds.length]) hroom
      (length_lt_fuel hreads)
  refine ⟨after, new, _, hloop, hafter, hkeeps, hnew, fun byte hpos hlt => ?_⟩
  rw [hadj, tagsAt_append, tagsAt_kept hmore (keepsByte_some byte) hpos hlt]

theorem items_spec (hstores : Stores heap list entries) (size : Int) :
    ∃ items,
      (list.begin 0 size).itemsLoop heap (list.begin 0 size).fuel = .ok items ∧
        (∀ item ∈ items, 0 ≤ item.start ∧ item.stop ≤ size) ∧
        ∀ byte,
          0 ≤ byte → byte < size →
            (items.filter fun item => item.start ≤ byte ∧ byte < item.stop).map Item.tag =
              tagsAt entries list.adjustment byte := by
  have hreads := begin_reads hstores 0 size
  refine ⟨_, itemsLoop_spec hreads (length_lt_fuel hreads), fun item hitem => ?_,
    fun byte hpos hlt => ?_⟩
  · obtain ⟨entry, hmem, hshown⟩ := mem_filterMap.mp hitem
    rw [shown_begin hstores hmem] at hshown
    split at hshown
    · rw [← Option.some.inj hshown]
      exact ⟨Int.le_max_right _ _, Int.min_le_right _ _⟩
    · exact nomatch hshown
  · refine filter_filterMap (fun entry hmem hnone hcov => ?_) (fun entry hmem new hsome => ?_)
    · rw [shown_begin hstores hmem] at hnone
      unfold Covers at hcov
      split at hnone
      · exact nomatch hnone
      next hhidden => omega
    · rw [shown_begin hstores hmem] at hsome
      split at hsome
      · cases hsome
        refine ⟨rfl, ?_⟩
        unfold Covers
        dsimp only
        omega
      · exact nomatch hsome

end HomaSird.Network.ByteTagList
