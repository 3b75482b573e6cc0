import HomaSird.Tcp.TxState

/-! # Where the walks of the send buffer end

`GetPacketFromList` cuts the item that holds a sequence number and joins items behind it,
walking the list again after each edit. Below the walks are followed to their end: they
return the bytes asked for when these carry the same flags, and stop at an assertion when
they do not.
-/

namespace HomaSird.Tcp

open Transition SequenceNumber List

/-! ## The flags of a stretch of bytes -/

def resent (items : List TxItem) : List Bool :=
  items.flatMap fun item => List.replicate item.size item.retrans

def alike {Mark : Type} [BEq Mark] : List Mark → Bool
  | [] => true
  | mark :: others => others.all (· == mark)

/-- Whether an item starts `offset` bytes into a list. -/
def startsAt (offset : Nat) : List TxItem → Bool
  | [] => false
  | item :: rest => offset == 0 || (item.size ≤ offset && startsAt (offset - item.size) rest)

@[simp] theorem resent_cons (item : TxItem) (rest : List TxItem) :
    resent (item :: rest) = replicate item.size item.retrans ++ resent rest := rfl

theorem alike_iff {Mark : Type} [BEq Mark] [LawfulBEq Mark] {mark : Mark} {stretch : List Mark}
    (hfst : stretch.head? = some mark) :
    alike stretch = true ↔ stretch = replicate stretch.length mark := by
  cases stretch with
  | nil => cases hfst
  | cons first others =>
    cases hfst
    rw [alike, all_eq_true, eq_replicate_iff]
    simp

theorem alike_take {Mark : Type} [BEq Mark] {stretch : List Mark}
    (count : Nat) (halike : alike stretch = true) : alike (stretch.take count) = true := by
  cases stretch with
  | nil => rw [take_nil]; rfl
  | cons first others =>
    cases count with
    | zero => rfl
    | succ less =>
      rw [alike, all_eq_true] at halike
      rw [take_succ_cons, alike, all_eq_true]
      exact fun mark hmark => halike mark (mem_of_mem_take hmark)

theorem exists_holding {offset : Nat} {list : List TxItem} (hoff : offset < totalSize list) :
    ∃ front item back,
      list = front ++ item :: back ∧ totalSize front ≤ offset ∧
        offset < totalSize front + item.size := by
  induction list generalizing offset with
  | nil => cases hoff
  | cons item rest ih =>
    rw [totalSize_cons] at hoff
    by_cases hhere : offset < item.size
    · exact ⟨[], item, rest, rfl, Nat.zero_le _, by simpa using hhere⟩
    · obtain ⟨front, holder, back, rfl, hle, hlt⟩ := @ih (offset - item.size) (by omega)
      refine ⟨item :: front, holder, back, rfl, ?_, ?_⟩
      · rw [totalSize_cons]
        omega
      · rw [totalSize_cons]
        omega

theorem startsAt_of_eq {front back : List TxItem}
    {item : TxItem} : startsAt (totalSize front) (front ++ item :: back) = true := by
  induction front with
  | nil => rfl
  | cons first rest ih =>
    rw [cons_append, startsAt, totalSize_cons, Nat.add_sub_cancel_left, ih,
      decide_eq_true (Nat.le_add_right _ _)]
    exact Bool.or_true _

theorem exists_of_startsAt {offset : Nat} {list : List TxItem}
    (hstarts : startsAt offset list = true) :
    ∃ front item back, list = front ++ item :: back ∧ totalSize front = offset := by
  induction list generalizing offset with
  | nil => cases hstarts
  | cons item rest ih =>
    rw [startsAt, Bool.or_eq_true, beq_iff_eq, Bool.and_eq_true, decide_eq_true_eq] at hstarts
    rcases hstarts with rfl | ⟨hle, hrest⟩
    · exact ⟨[], item, rest, rfl, rfl⟩
    · obtain ⟨front, holder, back, rfl, htotal⟩ := ih hrest
      exact ⟨item :: front, holder, back, rfl, by rw [totalSize_cons]; omega⟩

theorem drop_marks (front : List TxItem)
    (rest : List TxItem) : (marks (front ++ rest)).drop (totalSize front) = marks rest := by
  rw [marks_append, ← marks_length front, drop_left]

theorem drop_content (front : List TxItem)
    (rest : List TxItem) : (content (front ++ rest)).drop (totalSize front) = content rest := by
  rw [content_append, ← content_length front, drop_left]

/-! ## The walks of `GetPacketFromList` -/

section Walks

variable {check : TxItem → Bool} {size retrans nextNode : Nat} {isn : SequenceNumber32}
  {start offset : Nat} {front back : List TxItem} {item : TxItem}

theorem walkList_past {rest : List TxItem} (hcheck : ∀ other ∈ front, check other = true)
    (hle : totalSize front ≤ offset) (hoff : offset < 2 ^ 31) :
    walkList check size (isn.byte (start + offset)) retrans nextNode (isn.byte start)
      (front ++ rest) = (walkList check size (isn.byte (start + offset)) retrans nextNode
        (isn.byte (start + totalSize front)) rest).map fun walk => front.foldr Walk.behind
        walk := by
  induction front generalizing start offset with
  | nil =>
    rw [nil_append, totalSize_nil, Nat.add_zero]
    exact (congrFun Except.map_id _).symm
  | cons first others ih =>
    rw [forall_mem_cons] at hcheck
    rw [totalSize_cons] at hle
    have hpast : (isn.byte (start + offset)).lt (isn.byte (start + first.size)) = false := by
      rw [lt_byte ⟨by omega, by omega⟩, decide_eq_false_iff_not]
      omega
    have hplace : start + offset = start + first.size + (offset - first.size) := by omega
    have hrest := @ih (start + first.size) (offset - first.size) hcheck.2 (by omega) (by omega)
    rw [← hplace, Nat.add_assoc] at hrest
    rw [cons_append, walkList.eq_def]
    simp only [assert_of hcheck.1, ok_bind, byte_add, hpast, Bool.false_eq_true, if_false]
    rw [hrest, totalSize_cons]
    cases walkList check size (isn.byte (start + offset)) retrans nextNode
      (isn.byte (start + (first.size + totalSize others))) rest <;> rfl

theorem walkList_here (hcheck : check item = true) (hsz : 0 < size)
    (hsome : 0 < item.size) (hword : size < 2 ^ 31) (hitem : item.size < 2 ^ 31) :
    walkList check size (isn.byte start) retrans nextNode (isn.byte start) (item :: back) =
      if size = item.size then .ok (.found ⟨[], item, back, retrans, nextNode⟩)
      else if size < item.size then
        (splitItems nextNode item size).map fun parts =>
          .found ⟨[], parts.1, parts.2 :: back, retrans, nextNode + 1⟩
      else match back with
        | [] => .ok (.found ⟨[], item, [], retrans, nextNode⟩)
        | following :: others =>
          (mergeItems retrans item following).map fun merged =>
            .again (merged.2 :: others) merged.1 nextNode := by
  have hin : (isn.byte start).lt (isn.byte (start + item.size)) = true := by
    rw [lt_byte ⟨by omega, by omega⟩, decide_eq_true_eq]
    omega
  have hend : (isn.byte (start + size)).le (isn.byte (start + item.size)) =
      decide (size ≤ item.size) := by
    rw [le_byte ⟨by omega, by omega⟩]
    simp
  rw [walkList.eq_def]
  simp only [assert_of hcheck, ok_bind, byte_add, hin, if_true, hend,
    decide_eq_true_eq]
  by_cases hexact : size = item.size
  · rw [if_pos (Nat.le_of_eq hexact), if_pos hexact, if_pos hexact]
    rfl
  · rw [if_neg hexact, if_neg hexact]
    by_cases hless : size < item.size
    · rw [if_pos (Nat.le_of_lt hless), if_pos hless, if_pos hless]
      cases splitItems nextNode item size <;> rfl
    · rw [if_neg (by omega), if_neg hless]
      cases back with
      | nil => rfl
      | cons following others =>
        cases mergeItems retrans item following <;> rfl

theorem splitItems_of_le {node cut : Nat} (hword : item.size < 2 ^ 32) (hcut : cut ≤ item.size) :
    splitItems node item cut = .ok ({ item with node := node, packet := item.packet.take cut },
          { item with packet := item.packet.drop cut, startSeq := item.startSeq.byte cut }) := by
  obtain ⟨parts, hparts⟩ := @splitItems_ok node cut item hword hcut
  rw [hparts, splitItems_eq hparts]

theorem walkList_inside (hcheck : check item = true) {cut : Nat} (hcut : 0 < cut)
    (hless : cut < item.size) (hback : cut < 2 ^ 31) (hahead : item.size < cut + 2 ^ 31) :
    walkList check size (isn.byte (start + cut)) retrans nextNode (isn.byte start)
        (item :: back) =
      .ok (.again ({ item with node := nextNode, packet := item.packet.take cut } ::
        { item with packet := item.packet.drop cut, startSeq := item.startSeq.byte cut } :: back)
          retrans (nextNode + 1)) := by
  have hin : (isn.byte (start + cut)).lt (isn.byte (start + item.size)) = true := by
    rw [lt_byte ⟨by omega, by omega⟩, decide_eq_true_eq]
    omega
  have hne : isn.byte (start + cut) ≠ isn.byte start := by
    rw [ne_eq, byte_inj ⟨by omega, by omega⟩]
    omega
  have hgt : (isn.byte (start + cut)).gt (isn.byte start) = true := by
    rw [gt_byte ⟨by omega, by omega⟩, decide_eq_true_eq]
    omega
  have hdist : uint32OfInt ((isn.byte (start + cut)).sub (isn.byte start)) = cut := by
    rw [uint32_sub_byte (by omega) (by omega), Nat.add_sub_cancel_left]
  rw [walkList.eq_def]
  simp only [assert_of hcheck, ok_bind, byte_add, hin, if_true, if_neg hne, hgt,
    hdist, splitItems_of_le (by omega : item.size < 2 ^ 32) (Nat.le_of_lt hless)]
  rfl

theorem foldr_behind_found (front : List TxItem) (result : Found) :
    front.foldr Walk.behind (.found result) =
      .found { result with front := front ++ result.front } := by
  induction front with
  | nil => rfl
  | cons first rest ih => rw [foldr_cons, ih]; rfl

theorem foldr_behind_again (front list : List TxItem) (retrans nextNode : Nat) :
    front.foldr Walk.behind (.again list retrans nextNode) =
      .again (front ++ list) retrans nextNode := by
  induction front with
  | nil => rfl
  | cons first rest ih => rw [foldr_cons, ih]; rfl

/-- What the walks from `seq` on come to when the bytes they join have the same flags, and when
not. -/
inductive Gets (item : TxItem) (back : List TxItem) (size : Nat) : Except Fault Found → Prop
  | joined {found : Found}
      (hmarks : (marks (item :: back)).take size = List.replicate size item.flags)
      (hpkt : found.item.packet = (content (item :: back)).take size)
      (hflags : found.item.flags = item.flags) (hstart : found.item.startSeq = item.startSeq)
      (hretrans : found.item.retrans = ((resent (item :: back)).take size).all id) :
      Gets item back size (.ok found)
  | stopped (hmarks : (marks (item :: back)).take size ≠ List.replicate size item.flags) :
      Gets item back size (.error .assertion)

theorem getPacketFromList_short (hcheck : ∀ other ∈ front, check other = true)
    (hitem : check item = true) (hsz : 0 < size) (hle : size ≤ item.size)
    (hbehind : totalSize front < 2 ^ 31) (hahead : item.size < 2 ^ 31) {fuel : Nat} :
    Gets item back size
      (getPacketFromList check (isn.byte start) size (isn.byte (start + totalSize front)) (fuel + 1)
        (front ++ item :: back) retrans nextNode) := by
  have hmarks : (marks (item :: back)).take size = replicate size item.flags := by
    rw [marks_cons, take_append_of_le_length (by rwa [length_replicate]),
      take_replicate, Nat.min_eq_left hle]
  have hrtx : ((resent (item :: back)).take size).all id = item.retrans := by
    rw [resent_cons, take_append_of_le_length (by rwa [length_replicate]),
      take_replicate, Nat.min_eq_left hle]
    obtain ⟨less, rfl⟩ := Nat.exists_eq_succ_of_ne_zero (Nat.ne_of_gt hsz)
    simp
  have hcont : (content (item :: back)).take size = item.packet.take size :=
    take_append_of_le_length hle
  rw [getPacketFromList, walkList_past hcheck (Nat.le_refl _) hbehind,
    walkList_here hitem hsz (by omega) (by omega) hahead]
  by_cases hexact : size = item.size
  · rw [if_pos hexact]
    simp only [Except.map, foldr_behind_found, ok_bind]
    refine .joined hmarks ?_ rfl rfl hrtx.symm
    rw [hcont, take_of_length_le (Nat.le_of_eq hexact.symm)]
  · rw [if_neg hexact, if_pos (by omega), splitItems_of_le (by omega) hle]
    simp only [Except.map, foldr_behind_found, ok_bind]
    exact .joined hmarks hcont.symm rfl rfl hrtx.symm

theorem size_mergedItem (t1 t2 : TxItem) : (mergedItem t1 t2).size = t1.size + t2.size :=
  length_append

variable {t1 t2 : TxItem}

theorem marks_mergedItem (hflags : t1.flags = t2.flags)
    (rest : List TxItem) : marks (mergedItem t1 t2 :: rest) = marks (t1 :: t2 :: rest) := by
  have hmerged : (mergedItem t1 t2).flags = t1.flags := rfl
  rw [marks_cons, marks_cons, marks_cons, size_mergedItem, hmerged, ← hflags, ← append_assoc,
    replicate_append_replicate]

theorem all_resent_mergedItem (hsome : 0 < t1.size) (hnext : 0 < t2.size) (hreach : t1.size < size)
    (rest : List TxItem) :
    ((resent (mergedItem t1 t2 :: rest)).take size).all id =
      ((resent (t1 :: t2 :: rest)).take size).all id := by
  have hall : ∀ (count : Nat) (flag : Bool), 0 < count →
      (replicate count flag).all id = flag := by
    intro count flag hcnt
    obtain ⟨less, rfl⟩ := Nat.exists_eq_succ_of_ne_zero (Nat.ne_of_gt hcnt)
    simp
  have hmerged : (mergedItem t1 t2).retrans = (t1.retrans && t2.retrans) := rfl
  have hrest : size - (t1.size + t2.size) = size - t1.size - t2.size := by omega
  simp only [resent_cons, take_append, take_replicate, all_append,
    length_replicate, size_mergedItem, hmerged, hrest]
  rw [hall _ _ (by omega), hall _ _ (by omega), hall _ _ (by omega), Bool.and_assoc]

theorem mergeItems_eq_error (hflags : t1.flags ≠ t2.flags) :
    mergeItems retrans t1 t2 = .error .assertion := by
  rw [mergeItems, assert, assert]
  by_cases hsack : t1.sacked = t2.sacked
  · have hlost : t1.lost ≠ t2.lost := fun heq => hflags (Prod.ext hsack heq)
    rw [if_pos (beq_iff_eq.mpr hsack), if_neg (by simpa using hlost)]
    rfl
  · rw [if_neg (by simpa using hsack)]
    rfl

theorem take_marks_ne {rest : List TxItem} (hflags : t1.flags ≠ t2.flags) (hnext : 0 < t2.size)
    (hreach : t1.size < size) : (marks (t1 :: t2 :: rest)).take size ≠ replicate size t1.flags := by
  intro heq
  have hbyte := congrArg (fun stretch => stretch[t1.size]?) heq
  simp only [marks_cons, getElem?_take, if_pos hreach, getElem?_replicate] at hbyte
  rw [getElem?_append_right (by simp), length_replicate,
    Nat.sub_self, getElem?_append_left (by rwa [length_replicate]),
    getElem?_replicate, if_pos hnext] at hbyte
  exact hflags (Option.some.inj hbyte).symm

theorem getPacketFromList_here
    (hstart :
      ∀ first second : TxItem, first.startSeq = second.startSeq → check first = check second)
    (hcheck : ∀ other ∈ front, check other = true) (hitem : check item = true)
    (hne : ∀ other ∈ item :: back, 0 < other.size) (hsz : 0 < size)
    (hle : size ≤ item.size + totalSize back) (hbehind : totalSize front < 2 ^ 31)
    (hahead : item.size + totalSize back < 2 ^ 31) {fuel : Nat} (hfuel : back.length < fuel) :
    Gets item back size (getPacketFromList check (isn.byte start) size
        (isn.byte (start + totalSize front)) fuel (front ++ item :: back) retrans nextNode) := by
  induction back generalizing item retrans fuel with
  | nil =>
    obtain ⟨fuel, rfl⟩ := Nat.exists_eq_succ_of_ne_zero (Nat.ne_of_gt hfuel)
    rw [totalSize_nil, Nat.add_zero] at hle hahead
    exact getPacketFromList_short hcheck hitem hsz hle hbehind hahead
  | cons following others ih =>
    obtain ⟨fuel, rfl⟩ := Nat.exists_eq_succ_of_ne_zero (Nat.ne_of_gt (Nat.zero_lt_of_lt hfuel))
    rw [totalSize_cons] at hle hahead
    by_cases hshort : size ≤ item.size
    · exact getPacketFromList_short hcheck hitem hsz hshort hbehind (by omega)
    · obtain ⟨hsome, hnext, hothers⟩ : 0 < item.size ∧ 0 < following.size ∧
          ∀ other ∈ others, 0 < other.size := by simpa using hne
      rw [getPacketFromList, walkList_past hcheck (Nat.le_refl _) hbehind,
        walkList_here hitem hsz hsome (by omega) (by omega), if_neg (by omega),
        if_neg (by omega)]
      by_cases hflags : item.flags = following.flags
      · have hmerge : mergeItems retrans item following =
            .ok (mergedRetrans retrans item following, mergedItem item following) :=
          mergeItems_eq_ok.mpr ⟨Prod.mk.inj hflags, rfl⟩
        have hjoined := @ih (mergedRetrans retrans item following) (mergedItem item following)
          ((hstart (mergedItem item following) item rfl).trans hitem)
          (forall_mem_cons.mpr ⟨by rw [size_mergedItem]; omega, hothers⟩)
          (by rw [size_mergedItem]; omega) (by rw [size_mergedItem]; omega) fuel
          (Nat.lt_of_succ_lt_succ hfuel)
        have hsame := all_resent_mergedItem hsome hnext (Nat.lt_of_not_le hshort) others
        have hcont : content (mergedItem item following :: others) =
            content (item :: following :: others) := append_assoc _ _ _
        simp only [hmerge, Except.map, foldr_behind_again, ok_bind]
        generalize getPacketFromList check _ _ _ _ _ _ _ = outcome at hjoined ⊢
        cases hjoined with
        | joined hmarks hpkt hkept hplaced hrtx =>
          exact .joined (marks_mergedItem hflags others ▸ hmarks) (hcont ▸ hpkt) hkept
            hplaced (hrtx.trans hsame)
        | stopped hmarks => exact .stopped (marks_mergedItem hflags others ▸ hmarks)
      · simp only [mergeItems_eq_error hflags]
        exact .stopped (take_marks_ne hflags hnext (Nat.lt_of_not_le hshort))

/-- The items on the way to a position pass the check, and so does the part of the last that starts
there. -/
structure Passes (check : TxItem → Bool) (offset : Nat) (list : List TxItem) : Prop where
  start : ∀ first second : TxItem, first.startSeq = second.startSeq → check first = check second
  whole : ∀ front item back, list = front ++ item :: back → totalSize front ≤ offset →
    check item = true
  part : ∀ front item back, list = front ++ item :: back → totalSize front ≤ offset →
    check { item with startSeq := item.startSeq.byte (offset - totalSize front) } = true

theorem Passes.before (hpasses : Passes check offset (front ++ item :: back))
    (hle : totalSize front ≤ offset) : ∀ other ∈ front, check other = true := by
  intro other hother
  obtain ⟨before, behind, rfl⟩ := append_of_mem hother
  rw [totalSize_append] at hle
  exact hpasses.whole before other (behind ++ item :: back) (by simp) (by omega)

theorem getPacketFromList_gets {list : List TxItem} (hpasses : Passes check offset list)
    (hne : ∀ other ∈ list, 0 < other.size) (hsz : 0 < size) (hle : offset + size ≤ totalSize list)
    (hoff : offset < 2 ^ 31) (hahead : totalSize list < offset + 2 ^ 31) {fuel : Nat}
    (hfuel : list.length + 1 < fuel) :
    ∃ item back,
      0 < item.size ∧ check item = true ∧ marks (item :: back) = (marks list).drop offset ∧
        content (item :: back) = (content list).drop offset ∧
        Gets item back size (getPacketFromList check (isn.byte start) size
            (isn.byte (start + offset)) fuel list retrans nextNode) := by
  obtain ⟨front, item, back, rfl, hfront, hin⟩ :=
    exists_holding (by omega : offset < totalSize list)
  have hitem := hpasses.whole front item back rfl hfront
  have hothers := hpasses.before hfront
  rw [totalSize_append, totalSize_cons] at hle hahead
  rw [length_append, length_cons] at hfuel
  obtain ⟨hsome, hback⟩ := forall_mem_cons.mp (forall_mem_append.mp hne).2
  rcases Nat.eq_or_lt_of_le hfront with rfl | hinside
  · refine ⟨item, back, hsome, hitem, (drop_marks front _).symm, (drop_content front _).symm, ?_⟩
    exact getPacketFromList_here hpasses.start hothers hitem
      (forall_mem_cons.mpr ⟨hsome, hback⟩) hsz (by omega) hoff (by omega) (by omega)
  · -- the item is cut in two first, and then the second part starts at `seq`
    obtain ⟨fuel, rfl⟩ := Nat.exists_eq_succ_of_ne_zero (Nat.ne_of_gt (Nat.zero_lt_of_lt hfuel))
    have hplace : start + offset = start + totalSize front + (offset - totalSize front) := by
      omega
    have hpart := hpasses.part front item back rfl hfront
    generalize hcut : offset - totalSize front = cut at *
    have hless : cut < item.size := by omega
    have hinner := @walkList_inside check size retrans nextNode isn (start + totalSize front) back
      item hitem cut (by omega) hless (by omega) (by omega)
    rw [← hplace] at hinner
    rw [getPacketFromList, walkList_past hothers hfront hoff, hinner]
    simp only [Except.map, foldr_behind_again, ok_bind]
    generalize hfst : ({ item with node := nextNode, packet := item.packet.take cut } : TxItem) =
      first
    generalize hsnd : ({ item with
      packet := item.packet.drop cut, startSeq := item.startSeq.byte cut } : TxItem) = second
    have hfirstSize : first.size = cut := by
      rw [← hfst]
      exact length_take_of_le (Nat.le_of_lt hless)
    have hsecondSize : second.size = item.size - cut := by
      rw [← hsnd]
      exact length_drop
    have hfront' : totalSize (front ++ [first]) = offset := by
      rw [totalSize_append, totalSize_cons, totalSize_nil, hfirstSize]
      omega
    have hedit : Edit (fun _ => True) ⟨front ++ item :: back, retrans, nextNode⟩
        ⟨front ++ [first] ++ second :: back, retrans, nextNode + 1⟩ := by
      rw [← hfst, ← hsnd, append_assoc]
      exact .split (splitItems_of_le (by omega) (Nat.le_of_lt hless)) (by omega) hless trivial
    have hpassed : ∀ other ∈ front ++ [first], check other = true := by
      refine forall_mem_append.mpr ⟨hothers, forall_mem_singleton.mpr ?_⟩
      rw [← hfst]
      refine (hpasses.start _ item ?_).trans hitem
      rfl
    have hstarts : check second = true := by
      rw [← hsnd]
      refine (hpasses.start _ _ ?_).trans hpart
      rfl
    have hgets := @getPacketFromList_here check size retrans (nextNode + 1) isn start
      (front ++ [first]) back second hpasses.start hpassed hstarts
      (forall_mem_cons.mpr ⟨by omega, hback⟩) hsz (by omega) (by omega) (by omega) fuel
      (by omega)
    rw [hfront', append_assoc, singleton_append] at hgets
    refine ⟨second, back, by omega, hstarts, ?_, ?_, hgets⟩
    · rw [← hedit.marks_eq, ← hfront', drop_marks]
    · rw [← hedit.content_eq, ← hfront', drop_content]

theorem head_take_marks (hsome : 0 < item.size) (hsz : 0 < size)
    (rest : List TxItem) : ((marks (item :: rest)).take size).head? = some item.flags := by
  rw [marks_cons, head?_take, if_neg (Nat.ne_of_gt hsz), head?_append,
    head?_replicate, if_neg (Nat.ne_of_gt hsome)]
  rfl

end Walks

end HomaSird.Tcp
