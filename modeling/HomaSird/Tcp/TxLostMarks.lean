import HomaSird.Tcp.TxCounts
import HomaSird.Tcp.TxWalks

/-! # The lost marks of the scoreboard

`UpdateLostCount` only adds marks, from the highest SACKed item down. What the marks say
at the end of every call is what a count from scratch would say: an item that is not
SACKed is marked exactly when enough SACKed ones lie between it and the highest one.
-/

namespace HomaSird.Tcp

open Transition SequenceNumber List

/-! ## Items judged by the SACKed ones behind them -/

/-- Every item is as it should be for the number of SACKed items behind it, `above` of them behind
the list. -/
def Judged (holds : TxItem → Nat → Prop) (above : Nat) : List TxItem → Prop
  | [] => True
  | item :: rest => holds item (rest.countP TxItem.sacked + above) ∧ Judged holds above rest

def LostOnly (dupAckThresh : Nat) (item : TxItem) (above : Nat) : Prop :=
  item.lost = true → dupAckThresh ≤ above

def LostExactly (dupAckThresh : Nat) (item : TxItem) (above : Nat) : Prop :=
  item.sacked = false → (item.lost = true ↔ dupAckThresh ≤ above)

section Judged

variable {holds holds' : TxItem → Nat → Prop} {dupAckThresh above more : Nat}
  {items front back : List TxItem}

theorem judged_append :
    Judged holds above (front ++ back) ↔
      Judged holds (back.countP TxItem.sacked + above) front ∧ Judged holds above back := by
  induction front with
  | nil => simp [Judged]
  | cons item rest ih =>
    simp only [cons_append, Judged, ih, countP_append, Nat.add_assoc, and_assoc]

theorem Judged.imp (hjudged : Judged holds above items) (himp :
    ∀ item ∈ items, ∀ count, holds item count → holds' item count) : Judged holds' above items := by
  induction items with
  | nil => trivial
  | cons item rest ih =>
    obtain ⟨hitem, hrest⟩ := forall_mem_cons.mp himp
    exact ⟨hitem _ hjudged.1, ih hjudged.2 hrest⟩

theorem Judged.mono (hjudged : Judged (LostOnly dupAckThresh) above items)
    (hle : above ≤ more) : Judged (LostOnly dupAckThresh) more items := by
  induction items with
  | nil => trivial
  | cons item rest ih =>
    refine ⟨fun hlost => ?_, ih hjudged.2⟩
    have := hjudged.1 hlost
    omega

theorem judged_of_unmarked (hnone : ∀ item ∈ items, item.lost = false) :
    Judged (LostOnly dupAckThresh) above items := by
  induction items with
  | nil => trivial
  | cons item rest ih =>
    obtain ⟨hitem, hrest⟩ := forall_mem_cons.mp hnone
    exact ⟨fun hlost => absurd hlost (by simp [hitem]), ih hrest⟩

theorem countP_sacked_eq_zero (hnone : ∀ item ∈ items, item.sacked = false) :
    items.countP TxItem.sacked = 0 :=
  countP_eq_zero.mpr fun item hitem => by simp [hnone item hitem]

end Judged

/-! ## The highest SACKed item -/

/-- The flags of a list from `first` on: nothing is SACKed or lost; or the highest SACKed item has
only SACKed ones and then unmarked ones behind it, and those before are judged by what is SACKed up
to it. -/
inductive Board (holds : TxItem → Nat → Prop) (first : SequenceNumber32)
    (highestSack : ListIterator × SequenceNumber32) (list : List TxItem) : Prop
  | clear (hhighest : highestSack.1 = .atEnd)
      (hnone : ∀ item ∈ list, item.sacked = false ∧ item.lost = false)
  | sacked {front run rest : List TxItem} {highest : TxItem}
      (hlist : list = front ++ highest :: (run ++ rest))
      (hhighest : highestSack = (.node highest.node, first.byte (totalSize front)))
      (hsacked : highest.sacked = true) (hrun : ∀ item ∈ run, item.sacked = true)
      (hrest : ∀ item ∈ rest, item.sacked = false ∧ item.lost = false)
      (hjudged : Judged holds 1 front)

theorem unsacked_place {front run rest before after : List TxItem} {highest item : TxItem}
    (hlist : front ++ highest :: (run ++ rest) = before ++ item :: after) (hhigh :
    highest.sacked = true) (hrun : ∀ item ∈ run, item.sacked = true) (hitem : item.sacked = false) :
    (∃ between, front = before ++ item :: between ∧ after = between ++ highest :: (run ++ rest)) ∨
    ∃ between, before = front ++ highest :: (run ++ between) ∧ rest = between ++ item :: after := by
  rcases append_eq_append_iff.mp hlist with
    ⟨between, hpre, hrest⟩ | ⟨between, hfront, hafter⟩
  · cases between with
    | nil =>
      obtain ⟨rfl, -⟩ := cons.inj hrest
      rw [hhigh] at hitem
      cases hitem
    | cons first others =>
      obtain ⟨rfl, hbehind⟩ := cons.inj hrest
      right
      rcases append_eq_append_iff.mp hbehind with
        ⟨behind, hothers, hrest⟩ | ⟨behind, hrun', hafter⟩
      · exact ⟨behind, by rw [hpre, hothers], hrest⟩
      · cases behind with
        | nil => exact ⟨[], by simp [hpre, hrun'], hafter.symm⟩
        | cons next others =>
          obtain ⟨rfl, -⟩ := cons.inj hafter
          have := hrun item (by simp [hrun'])
          rw [hitem] at this
          cases this
  · cases between with
    | nil =>
      obtain ⟨rfl, -⟩ := cons.inj hafter
      rw [hhigh] at hitem
      cases hitem
    | cons first others =>
      obtain ⟨rfl, hbehind⟩ := cons.inj hafter
      exact .inl ⟨others, hfront, hbehind⟩

variable {before after : TxBuffer × Nat}

namespace TxBuffer

variable {buf next : TxBuffer} {dupAckThresh : Nat}

/-! ## Selective acknowledgements -/

/-- One more SACKed item keeps every mark justified: right before the highest one it takes its
place, so the items before count as many as they did. -/
theorem board_sacks (hsack : Sacks before after)
    (hcnt : before.1.Counted) (hnear : before.1.size < 2 ^ 31) (hboard :
    Board (LostOnly dupAckThresh) before.1.firstByteSeq before.1.highestSack before.1.sentList) :
    Board (LostOnly dupAckThresh) after.1.firstByteSeq after.1.highestSack after.1.sentList := by
  cases hsack with
  | @sack buf bytesSacked before after item hlist hsacked =>
    dsimp only at hcnt hnear hboard ⊢
    have hsep := hcnt.separate
    have hne := hcnt.layout.sent_nonempty
    have hsz := hcnt.layout.size_eq
    cases hboard with
    | clear hhighest hnone =>
      rw [hlist, forall_mem_append, forall_mem_cons] at hnone
      simp only [hhighest, decide_true, Bool.true_or, if_true]
      exact @Board.sacked _ _ _ _ before [] after { item with lost := false, sacked := true }
        rfl rfl rfl (by simp) hnone.2.2
        (judged_of_unmarked fun item hitem => (hnone.1 item hitem).2)
    | @sacked front run rest highest hsplit hhighest hhigh hrun hrest hjudged =>
      rw [hsplit] at hsep hne hsz
      simp only [totalSize_append, totalSize_cons] at hsz
      simp only [hhighest, reduceCtorEq, decide_false, Bool.false_or, byte_add]
      rcases unsacked_place (hsplit.symm.trans hlist) hhigh hrun hsacked with
        ⟨between, rfl, rfl⟩ | ⟨between, rfl, rfl⟩
      · simp only [totalSize_append, totalSize_cons] at hsz ⊢
        rw [le_byte ⟨by omega, by omega⟩]
        obtain ⟨hfront, hitem, hbetween⟩ := judged_append.mp hjudged
        rw [countP_cons_of_neg (by simp [hsacked])] at hfront
        cases between with
        | nil =>
          rw [if_pos (by simp)]
          exact @Board.sacked _ _ _ _ before (highest :: run) rest
            { item with lost := false, sacked := true } rfl rfl rfl
            (forall_mem_cons.mpr ⟨hhigh, hrun⟩) hrest hfront
        | cons next others =>
          have hpos := hne next (by simp)
          rw [if_neg (by rw [totalSize_cons, decide_eq_true_eq]; omega)]
          refine @Board.sacked _ _ _ _
            (before ++ { item with lost := false, sacked := true } :: next :: others) run
            rest highest (by simp) ?_ hhigh hrun hrest ?_
          · simp only [totalSize_append, totalSize_cons]
            rfl
          · refine judged_append.mpr
              ⟨hfront.mono ?_, ⟨fun hlost => Bool.noConfusion hlost, hbetween⟩⟩
            simp only [countP_cons]
            omega
      · simp only [totalSize_append, totalSize_cons] at hsz ⊢
        rw [le_byte ⟨by omega, by omega⟩, if_pos (by simp; omega)]
        simp only [forall_mem_append, forall_mem_cons] at hsep hrest
        refine @Board.sacked _ _ _ _ (front ++ highest :: (run ++ between)) [] after
          { item with lost := false, sacked := true } (by simp) ?_ rfl (by simp) hrest.2.2
          (judged_append.mpr ⟨hjudged.mono (by omega), ?_⟩)
        · simp only [totalSize_append, totalSize_cons]
        · refine judged_of_unmarked ?_
          simp only [forall_mem_append, forall_mem_cons]
          refine ⟨?_, fun item hitem => ?_, fun item hitem => (hrest.1 item hitem).2⟩
          · have := hsep.2.1
            simpa [hhigh] using this
          · have := hsep.2.2.1 item hitem
            simpa [hrun item hitem] using this

end TxBuffer

def TxItem.unmarked (item : TxItem) : TxItem := { item with lost := false, sacked := false }

theorem totalSize_of_unmarked {items others : List TxItem}
    (hmap : items.map TxItem.unmarked = others.map TxItem.unmarked) :
    totalSize items = totalSize others := by
  have hplain : ∀ list : List TxItem, totalSize (list.map TxItem.unmarked) = totalSize list := by
    intro list
    induction list with
    | nil => rfl
    | cons item rest ih => simp only [map_cons, totalSize_cons, ih]; rfl
  rw [← hplain items, hmap, hplain]

def Fits (segmentSize : Nat) (item : TxItem) : Prop :=
  (item.retrans = true → item.lost = true) ∧ (item.sacked = true → item.size ≤ segmentSize)

variable {first : SequenceNumber32}

namespace TxBuffer

def coversFresh (segmentSize : Nat) (block : SackBlock) :
    SequenceNumber32 → List TxItem → Bool
  | _, [] => true
  | begin, item :: rest =>
    let next := begin + .of item.size
    if begin.ge block.first && next.le block.second then
      !item.retrans && decide (item.size ≤ segmentSize) &&
        coversFresh segmentSize block next rest
    else if next.gt block.second then true
    else coversFresh segmentSize block next rest

variable {buf : TxBuffer} {segmentSize : Nat}

theorem coversFresh_unmarked (block : SackBlock) (begin : SequenceNumber32) (list : List TxItem) :
    coversFresh segmentSize block begin (list.map TxItem.unmarked) =
      coversFresh segmentSize block begin list := by
  induction list generalizing begin with
  | nil => rfl
  | cons item rest ih =>
    have hsz : item.unmarked.size = item.size := rfl
    have hrtx : item.unmarked.retrans = item.retrans := rfl
    simp only [map_cons, coversFresh, hsz, hrtx, ih]

theorem sackBlock_fits {block : SackBlock} {begin : SequenceNumber32} {list : List TxItem}
    {sacking : Sacking} {result : List TxItem × Sacking}
    (hsack : sackBlock block begin list sacking = .ok result)
    (hfresh : coversFresh segmentSize block begin list = true)
    (hfits : ∀ item ∈ list, Fits segmentSize item) :
    result.1.map TxItem.unmarked = list.map TxItem.unmarked ∧
      ∀ item ∈ result.1, Fits segmentSize item := by
  induction list generalizing begin sacking result with
  | nil =>
    cases hsack
    exact ⟨rfl, hfits⟩
  | cons item rest ih =>
    obtain ⟨hitem, hrest⟩ := forall_mem_cons.mp hfits
    rw [sackBlock] at hsack
    rw [coversFresh] at hfresh
    split at hsack
    next hcov =>
      rw [if_pos hcov, Bool.and_eq_true, Bool.and_eq_true, Bool.not_eq_true',
        decide_eq_true_eq] at hfresh
      obtain ⟨⟨hrtx, hsz⟩, hfresh⟩ := hfresh
      split at hsack
      · obtain ⟨_, -, hsack⟩ := bind_eq_ok.mp hsack
        obtain ⟨walked, hwalked, hsack⟩ := bind_eq_ok.mp hsack
        cases hsack
        obtain ⟨hmap, hall⟩ := ih hwalked hfresh hrest
        exact ⟨congrArg (cons item.unmarked) hmap, forall_mem_cons.mpr ⟨hitem, hall⟩⟩
      · obtain ⟨walked, hwalked, hsack⟩ := bind_eq_ok.mp hsack
        cases hsack
        obtain ⟨hmap, hall⟩ := ih hwalked hfresh hrest
        refine ⟨congrArg (cons item.unmarked) hmap,
          forall_mem_cons.mpr ⟨⟨fun hresent => ?_, fun _ => hsz⟩, hall⟩⟩
        rw [hrtx] at hresent
        cases hresent
    next hnot =>
      rw [if_neg hnot] at hfresh
      split at hsack
      · cases hsack
        exact ⟨rfl, hfits⟩
      next hon =>
        rw [if_neg hon] at hfresh
        obtain ⟨walked, hwalked, hsack⟩ := bind_eq_ok.mp hsack
        cases hsack
        obtain ⟨hmap, hall⟩ := ih hwalked hfresh hrest
        exact ⟨congrArg (cons item.unmarked) hmap, forall_mem_cons.mpr ⟨hitem, hall⟩⟩

theorem sackBlocks_fits {list : List SackBlock} {bytesSacked : Nat} {result : Bool × Nat × TxBuffer}
    (hsack : sackBlocks list bytesSacked buf = .ok result)
    (hfresh : ∀ block ∈ list,
      buf.sentEnd.lt block.first = false ∧
        coversFresh segmentSize block buf.firstByteSeq buf.sentList = true)
    (hfits : ∀ item ∈ buf.sentList, Fits segmentSize item) :
    result.1 = true ∧ result.2.2.sentList.map TxItem.unmarked = buf.sentList.map TxItem.unmarked ∧
      ∀ item ∈ result.2.2.sentList, Fits segmentSize item := by
  induction list generalizing bytesSacked buf with
  | nil =>
    cases hsack
    exact ⟨rfl, rfl, hfits⟩
  | cons block rest ih =>
    obtain ⟨⟨hsent, hblock⟩, hrest⟩ := forall_mem_cons.mp hfresh
    rw [sackBlocks, if_neg (by simp [hsent])] at hsack
    obtain ⟨walked, hwalked, hsack⟩ := bind_eq_ok.mp hsack
    obtain ⟨hmap, hall⟩ := sackBlock_fits hwalked hblock hfits
    have hnext := ih hsack (fun other hother => ?_) hall
    · exact ⟨hnext.1, hnext.2.1.trans hmap, hnext.2.2⟩
    · obtain ⟨hother, hcov⟩ := hrest other hother
      refine ⟨hother, ?_⟩
      rwa [← coversFresh_unmarked, hmap, coversFresh_unmarked]


/-! ## `UpdateLostCount` -/

variable {buf next : TxBuffer} {segmentSize dupAckThresh : Nat}

theorem splitAtNode_append {front back : List TxItem} {item : TxItem}
    (hfront : ∀ other ∈ front, other.node ≠ item.node) :
    splitAtNode item.node (front ++ item :: back) = some (front ++ [item], back) := by
  induction front with
  | nil => exact if_pos rfl
  | cons first rest ih =>
    obtain ⟨hfst, hrest⟩ := forall_mem_cons.mp hfront
    rw [cons_append, splitAtNode, if_neg hfst, ih hrest]
    rfl

theorem countP_sacked_of_map {items others : List TxItem}
    (hmap : items.map TxItem.sacked = others.map TxItem.sacked) :
    items.countP TxItem.sacked = others.countP TxItem.sacked := by
  have hcnt := congrArg (countP id) hmap
  simpa [countP_map] using hcnt

theorem foldr_markLost (items tail : List TxItem) (above lostOut : Nat) :
    ∃ marked,
      (items.foldr (markLost dupAckThresh) (above, tail, lostOut)).1 =
        items.countP TxItem.sacked + above ∧
        (items.foldr (markLost dupAckThresh) (above, tail, lostOut)).2.1 = marked ++ tail ∧
        marked.map TxItem.unmarked = items.map TxItem.unmarked ∧
        marked.map TxItem.sacked = items.map TxItem.sacked ∧
        (Judged (LostOnly dupAckThresh) above items →
          Judged (LostExactly dupAckThresh) above marked) ∧
        ((∀ item ∈ items, Fits segmentSize item) → ∀ item ∈ marked, Fits segmentSize item) := by
  induction items with
  | nil => exact ⟨[], (Nat.zero_add _).symm, rfl, rfl, rfl, fun _ => trivial, fun hfits => hfits⟩
  | cons item rest ih =>
    obtain ⟨marked, hcnt, hlist, hmap, hsacked, hjudged, hfits⟩ := ih
    have hbehind := countP_sacked_of_map hsacked
    rw [foldr_cons, markLost]
    generalize rest.foldr (markLost dupAckThresh) (above, tail, lostOut) = walked at hcnt hlist
    have hnow : walked.1 + (if item.sacked then 1 else 0) =
        (item :: rest).countP TxItem.sacked + above := by
      rw [hcnt, countP_cons]
      omega
    simp only [hnow, hlist, forall_mem_cons]
    split
    next hmark =>
      obtain ⟨hthresh, hitem, hlost⟩ := hmark
      rw [countP_cons_of_neg (by simp [hitem])] at hthresh
      refine ⟨{ item with lost := true } :: marked, rfl, rfl,
        congrArg (cons item.unmarked) hmap, congrArg (cons item.sacked) hsacked,
        fun hjust => ⟨fun _ => ⟨fun _ => ?_, fun _ => rfl⟩, hjudged hjust.2⟩,
        fun hall => forall_mem_cons.mpr ⟨⟨fun _ => rfl, hall.1.2⟩, hfits hall.2⟩⟩
      rwa [hbehind]
    next hmark =>
      refine ⟨item :: marked, rfl, rfl, congrArg (cons item.unmarked) hmap,
        congrArg (cons item.sacked) hsacked,
        fun hjust => ⟨fun hitem => ⟨fun hlost => ?_, fun hthresh => ?_⟩, hjudged hjust.2⟩,
        fun hall => forall_mem_cons.mpr ⟨hall.1, hfits hall.2⟩⟩
      · rw [hbehind]
        exact hjust.1 hlost
      · rw [hbehind] at hthresh
        rw [countP_cons_of_neg (by simp [hitem])] at hmark
        by_contra hlost
        exact hmark ⟨hthresh, hitem, by simpa using hlost⟩

theorem updateLostCount_eq_ok (hupd : buf.updateLostCount = .ok next) :
    next = { buf with sentList := next.sentList, lostOut := next.lostOut } := by
  rw [updateLostCount] at hupd
  split at hupd
  · split at hupd
    · cases hupd
    · rw [← Except.ok.inj hupd]
  · cases hupd

theorem updateLostCount_exact (hupd : buf.updateLostCount = .ok next)
    (hhead : ∀ head, next.sentList.head? = some head → head.sacked = false)
    (hnodes : (buf.sentList.map TxItem.node).Nodup)
    (hboard : Board (LostOnly buf.dupAckThresh) buf.firstByteSeq buf.highestSack buf.sentList)
    (hfits : ∀ item ∈ buf.sentList, Fits segmentSize item) :
    Board (LostExactly buf.dupAckThresh) next.firstByteSeq next.highestSack next.sentList ∧
      next.sentList.map TxItem.unmarked = buf.sentList.map TxItem.unmarked ∧
      ∀ item ∈ next.sentList, Fits segmentSize item := by
  rw [updateLostCount] at hupd
  split at hupd
  next node head rest hhighest hlist =>
    cases hboard with
    | clear hend _ =>
      rw [hend] at hhighest
      cases hhighest
    | @sacked front run behind highest hsplit hsome hhigh hrun hrest hjudged =>
      rw [hsome] at hhighest
      obtain rfl := ListIterator.node.inj hhighest
      rw [hsplit] at hnodes hfits
      have hfront : ∀ other ∈ front, other.node ≠ highest.node := by
        rw [map_append, nodup_append] at hnodes
        exact fun other hother =>
          hnodes.2.2 _ (mem_map_of_mem hother) _ (by simp)
      rw [← hlist, hsplit, splitAtNode_append hfront] at hupd
      cases hupd
      have hsacked := hhead _ rfl
      change head.sacked = false at hsacked
      cases front with
      | nil =>
        obtain ⟨rfl, -⟩ := cons.inj (hlist.symm.trans hsplit)
        rw [hhigh] at hsacked
        cases hsacked
      | cons first others =>
        obtain ⟨rfl, -⟩ := cons.inj (hlist.symm.trans hsplit)
        have hlast : markLost buf.dupAckThresh highest (0, [], buf.lostOut) =
            (1, [highest], buf.lostOut) := by
          simp [markLost, hhigh]
        obtain ⟨marked, hcnt, hmarked, hmap, hmapSacked, hexact, hall⟩ :=
          @foldr_markLost segmentSize buf.dupAckThresh others [highest] 1 buf.lostOut
        obtain ⟨hheadJust, hothersJust⟩ := hjudged
        simp only [cons_append, tail_cons, foldr_append, foldr_cons,
          foldr_nil, hlast, hcnt, hmarked, forall_mem_cons,
          forall_mem_append] at hfits ⊢
        obtain ⟨hheadFits, hothersFits, hhighFits, hbehindFits⟩ := hfits
        have htotal := totalSize_of_unmarked hmap
        refine ⟨?_, ?_, ?_⟩
        · refine @Board.sacked _ _ _ _ ({ head with
              lost := if buf.dupAckThresh ≤ others.countP TxItem.sacked + 1 then true
                else head.lost } :: marked) run behind highest (by simp) ?_ hhigh
            hrun hrest ⟨fun _ => ?_, hexact hothersJust⟩
          · rw [hsome]
            simp only [totalSize_cons, htotal]
            rfl
          · rw [countP_sacked_of_map hmapSacked]
            dsimp only
            split
            next hthresh => exact iff_of_true rfl hthresh
            next hthresh => exact ⟨hheadJust, fun h => absurd h hthresh⟩
        · rw [hsplit]
          simp only [map_cons, map_append, hmap, cons_append, nil_append, append_assoc]
          rfl
        · refine ⟨⟨fun hresent => ?_, hheadFits.2⟩,
            ⟨hall hothersFits, by simpa using hhighFits⟩, hbehindFits⟩
          dsimp only
          split
          · rfl
          · exact hheadFits.1 hresent
  · cases hupd


/-! ## What the calls keep -/

/-- The marks are what a count from scratch gives, for the attributes that the socket sets once. -/
structure Tracked (dupAckThresh segmentSize : Nat) (buf : TxBuffer) : Prop where
  counted : buf.Counted
  near : buf.size < 2 ^ 31
  dupAckThresh_eq : buf.dupAckThresh = dupAckThresh
  segmentSize_eq : buf.segmentSize = segmentSize
  board : Board (LostExactly dupAckThresh) buf.firstByteSeq buf.highestSack buf.sentList
  fits : ∀ item ∈ buf.sentList, Fits segmentSize item
  head : ∀ head, buf.sentList.head? = some head → head.sacked = false
  nodes : (buf.sentList.map TxItem.node).Nodup
  nodes_lt : ∀ item ∈ buf.sentList, item.node < buf.nextNode

theorem board_lostOnly {dupAckThresh : Nat} {highestSack : ListIterator × SequenceNumber32}
    {list : List TxItem} (hboard : Board (LostExactly dupAckThresh) first highestSack list)
    (hsep : ∀ item ∈ list, ¬(item.sacked = true ∧ item.lost = true)) :
    Board (LostOnly dupAckThresh) first highestSack list := by
  cases hboard with
  | clear hhighest hnone => exact .clear hhighest hnone
  | sacked hlist hhighest hhigh hrun hrest hjudged =>
    refine .sacked hlist hhighest hhigh hrun hrest
      (hjudged.imp fun item hitem count hexact hlost => ?_)
    have hnot := hsep item (by simp [hlist, hitem])
    exact (hexact (by simpa [hlost] using hnot)).mp hlost

theorem nodes_of_unmarked {items others : List TxItem}
    (hmap : items.map TxItem.unmarked = others.map TxItem.unmarked) :
    items.map TxItem.node = others.map TxItem.node := by
  have hnodes := congrArg (map TxItem.node) hmap
  rwa [map_map, map_map] at hnodes

/-- What the loop of `Update` keeps, with the bytes that it has SACKed so far. -/
structure Midway (buf : TxBuffer) (pair : TxBuffer × Nat) : Prop where
  counted : pair.1.Counted
  flags : Reflagged buf pair.1
  dupAckThresh_eq : pair.1.dupAckThresh = buf.dupAckThresh
  segmentSize_eq : pair.1.segmentSize = buf.segmentSize
  nextNode_eq : pair.1.nextNode = buf.nextNode
  bytesSacked_eq : buf.sackedOut + pair.2 = pair.1.sackedOut
  board : Board (LostOnly buf.dupAckThresh) pair.1.firstByteSeq pair.1.highestSack
    pair.1.sentList

theorem Midway.step {buf : TxBuffer} (hmidway : Midway buf before) (hnear : buf.size < 2 ^
    31) (hsack : Sacks before after) : Midway buf after ∧ before.2 < after.2 := by
  have hsz : before.1.size < 2 ^ 31 := hmidway.flags.size ▸ hnear
  have hboard := board_sacks hsack hmidway.counted hsz hmidway.board
  have hcnt := Counted.sacks hsack hmidway.counted
  have hflags := hmidway.flags.trans hsack.reflagged
  have hbytes := hmidway.bytesSacked_eq
  cases hsack with
  | @sack middle bytesSacked front back item hlist hsacked =>
    have hadd := hmidway.counted.layout.add_lt hlist hsacked
    rw [← hmidway.counted.sackedOut_eq] at hadd
    have hpos := hmidway.counted.layout.sent_nonempty item (by simp [hlist])
    dsimp only at hbytes hadd ⊢
    rw [uint32_of_lt (show bytesSacked + item.size < 2 ^ 32 by omega)]
    refine ⟨⟨hcnt, hflags, hmidway.dupAckThresh_eq, hmidway.segmentSize_eq,
      hmidway.nextNode_eq, ?_, hboard⟩, by omega⟩
    dsimp only
    rw [uint32_of_lt hadd]
    omega

namespace Tracked

variable {buf next : TxBuffer} {dupAckThresh segmentSize : Nat}

theorem update {list : List SackBlock} {result : Nat × TxBuffer}
    (htrack : Tracked dupAckThresh segmentSize buf)
    (hfresh : ∀ block ∈ list,
      buf.sentEnd.lt block.first = false ∧
        coversFresh segmentSize block buf.firstByteSeq buf.sentList = true)
    (hupd : buf.update list = .ok result) :
    Tracked dupAckThresh segmentSize result.2 := by
  have hcnt := htrack.counted.update hupd
  have hflags := update_reflagged hupd
  obtain ⟨⟨ranToEnd, bytesSacked, middle⟩, hsack, hupd⟩ := bind_eq_ok.mp hupd
  obtain ⟨hran, hmap, hfits⟩ := sackBlocks_fits hsack hfresh htrack.fits
  dsimp only at hran hmap hfits hupd
  have hchain := sacks_of_sackBlocks hsack
  have hstart : Midway buf (buf, 0) :=
    ⟨htrack.counted, .refl buf, rfl, rfl, rfl, rfl,
      htrack.dupAckThresh_eq ▸ board_lostOnly htrack.board htrack.counted.separate⟩
  have hmidway := chain_keep (Midway buf) hchain
    (fun _ _ hstep hpre => (hpre.step htrack.near hstep).1) hstart
  rw [hran, if_neg (by simp)] at hupd
  obtain ⟨next, hnext, hupd⟩ := bind_eq_ok.mp hupd
  split at hupd
  · cases hupd
  next head rest hlist =>
    obtain ⟨_, hhead, hupd⟩ := bind_eq_ok.mp hupd
    obtain ⟨_, -, hupd⟩ := bind_eq_ok.mp hupd
    cases hupd
    have hunsacked : ∀ item, next.sentList.head? = some item → item.sacked = false := by
      intro item hitem
      rw [hlist, head?_cons, Option.some.injEq] at hitem
      simpa [hitem] using assert_eq_ok.mp hhead
    split at hnext
    next hsome =>
      obtain ⟨_, -, hnext⟩ := bind_eq_ok.mp hnext
      have hlists := nodes_of_unmarked hmap
      have hthresh := hmidway.dupAckThresh_eq
      obtain ⟨hboard, hmarked, hall⟩ := updateLostCount_exact hnext hunsacked
        (hlists ▸ htrack.nodes) (hthresh ▸ hmidway.board) hfits
      have hsame := nodes_of_unmarked (hmarked.trans hmap)
      have hrest := updateLostCount_eq_ok hnext
      have hnextNode : next.nextNode = buf.nextNode := hrest ▸ hmidway.nextNode_eq
      refine ⟨hcnt, hflags.size ▸ htrack.near, ?_, ?_, ?_, hall, hunsacked,
        hsame ▸ htrack.nodes, ?_⟩
      · exact hrest ▸ hthresh.trans htrack.dupAckThresh_eq
      · exact hrest ▸ hmidway.segmentSize_eq.trans htrack.segmentSize_eq
      · rwa [hthresh, htrack.dupAckThresh_eq] at hboard
      · have hlt := (@List.forall_mem_map _ _ TxItem.node _ (· < buf.nextNode)).mpr
          htrack.nodes_lt
        rw [← hsame] at hlt
        rw [hnextNode]
        exact forall_mem_map.mp hlt
    next hzero =>
      cases hnext
      -- with nothing new the loop has not changed the buffer
      obtain hsame | ⟨before, hpre, hlast⟩ := Relation.ReflTransGen.cases_tail hchain
      · obtain ⟨rfl, -⟩ := Prod.ext_iff.mp hsame
        exact htrack
      · have hstep := (chain_keep (Midway buf) hpre
          (fun _ _ hstep hpre => (hpre.step htrack.near hstep).1) hstart).step
            htrack.near hlast
        exact absurd (Nat.lt_of_le_of_lt (Nat.zero_le _) hstep.2) hzero

end Tracked

end TxBuffer

/-! ## Retransmissions -/

def Missing (item : TxItem) : Prop := item.sacked = false ∧ item.lost = true

variable {highestSack : ListIterator × SequenceNumber32}

section Stretch

variable {dupAckThresh above : Nat} {items : List TxItem}

theorem judged_lost (hlost : ∀ item ∈ items, Missing item) (hsome : items ≠ []) :
    Judged (LostExactly dupAckThresh) above items ↔ dupAckThresh ≤ above := by
  induction items with
  | nil => exact absurd rfl hsome
  | cons item rest ih =>
    obtain ⟨hitem, hrest⟩ := forall_mem_cons.mp hlost
    have hcnt := countP_sacked_eq_zero fun other hother => (hrest other hother).1
    rw [Judged, hcnt, Nat.zero_add, LostExactly]
    constructor
    · exact fun hjudged => (hjudged.1 hitem.1).mp hitem.2
    · refine fun hle => ⟨fun _ => iff_of_true hitem.2 hle, ?_⟩
      cases rest with
      | nil => trivial
      | cons next others => exact (ih hrest (by simp)).mpr hle

theorem lost_place {front run rest before after : List TxItem} {highest : TxItem}
    (hlist : front ++ highest :: (run ++ rest) = before ++ (items ++ after)) (hsome : items ≠ [])
    (hhigh : highest.sacked = true) (hrun : ∀ item ∈ run, item.sacked = true)
    (hrest : ∀ item ∈ rest, item.sacked = false ∧ item.lost = false)
    (hlost : ∀ item ∈ items, Missing item) :
    ∃ between,
      front = before ++ (items ++ between) ∧ after = between ++ highest :: (run ++ rest) := by
  induction items generalizing before with
  | nil => exact absurd rfl hsome
  | cons item others ih =>
    obtain ⟨⟨hsacked, hmark⟩, hothers⟩ := forall_mem_cons.mp hlost
    obtain ⟨between, rfl, hafter⟩ | ⟨between, -, rfl⟩ := unsacked_place hlist hhigh hrun hsacked
    · cases others with
      | nil => exact ⟨between, rfl, hafter⟩
      | cons next more =>
        obtain ⟨between', hfront, hafter'⟩ := @ih (before ++ [item]) (by simpa using hlist)
          (by simp) hothers
        exact ⟨between', by simpa using hfront, hafter'⟩
    · have := (hrest item (by simp)).2
      rw [hmark] at this
      cases this

theorem Board.edit {before after olds news : List TxItem}
    (hboard : Board (LostExactly dupAckThresh) first highestSack (before ++ (olds ++ after)))
    (holds : ∀ item ∈ olds, Missing item) (hsome : olds ≠ []) (hnews : ∀ item ∈ news, Missing item)
    (hnot : news ≠ []) (hsz : totalSize news = totalSize olds) :
    Board (LostExactly dupAckThresh) first highestSack (before ++ (news ++ after)) := by
  cases hboard with
  | clear hhighest hnone =>
    obtain ⟨item, hitem⟩ := exists_mem_of_ne_nil olds hsome
    have hmark := (holds item hitem).2
    rw [(hnone item (by simp [hitem])).2] at hmark
    cases hmark
  | @sacked front run rest highest hlist hhighest hhigh hrun hrest hjudged =>
    obtain ⟨between, rfl, rfl⟩ := lost_place hlist.symm hsome hhigh hrun hrest holds
    obtain ⟨hpre, hboth⟩ := judged_append.mp hjudged
    obtain ⟨hlost, hbetween⟩ := judged_append.mp hboth
    refine @Board.sacked _ _ _ _ (before ++ (news ++ between)) run rest highest (by simp) ?_
      hhigh hrun hrest (judged_append.mpr ⟨?_, judged_append.mpr ⟨?_, hbetween⟩⟩)
    · rw [hhighest]
      simp only [totalSize_append, hsz]
    · rw [countP_append, countP_sacked_eq_zero fun item hitem => (holds item hitem).1]
        at hpre
      rwa [countP_append, countP_sacked_eq_zero fun item hitem => (hnews item hitem).1]
    · rw [judged_lost hnews hnot]
      rwa [judged_lost holds hsome] at hlost

structure Edited (dupAckThresh segmentSize : Nat) (first : SequenceNumber32)
    (highestSack : ListIterator × SequenceNumber32) (editing : Editing) : Prop where
  board : Board (LostExactly dupAckThresh) first highestSack editing.list
  fits : ∀ item ∈ editing.list, Fits segmentSize item
  nodes : (editing.list.map TxItem.node).Nodup
  nodes_lt : ∀ item ∈ editing.list, item.node < editing.nextNode

theorem Edited.step {segmentSize : Nat} {highestSack : ListIterator × SequenceNumber32}
    {before after : Editing} (hedit : Edit Missing before after)
    (hedited : Edited dupAckThresh segmentSize first highestSack before) :
    Edited dupAckThresh segmentSize first highestSack after := by
  obtain ⟨hboard, hfits, hnodes, hlt⟩ := hedited
  cases hedit with
  | @split front back item parts size retrans nextNode hsplit hpos hless hitem =>
    obtain rfl := splitItems_eq hsplit
    simp only [forall_mem_append, forall_mem_cons, map_append, map_cons]
      at hfits hnodes hlt ⊢
    refine ⟨?_, ?_, ?_, ?_⟩
    · refine @Board.edit _ _ _ front back [item] [_, _] hboard (by simpa using hitem) (by simp)
        (by simpa [Missing] using hitem) (by simp) ?_
      simp only [totalSize_cons, totalSize_nil, TxItem.size, length_take, length_drop] at hless ⊢
      omega
    · refine forall_mem_append.mpr ⟨hfits.1, forall_mem_cons.mpr ⟨?_,
        forall_mem_cons.mpr ⟨?_, hfits.2.2⟩⟩⟩
      · exact ⟨hfits.2.1.1, fun hsacked => by simp [hitem.1] at hsacked⟩
      · exact ⟨hfits.2.1.1, fun hsacked => by simp [hitem.1] at hsacked⟩
    · simp only [map_append, map_cons]
      refine perm_middle.nodup_iff.mpr (nodup_cons.mpr ⟨?_, hnodes⟩)
      simp only [mem_append, mem_cons, mem_map, not_or, not_exists, not_and]
      exact ⟨fun other hother => Nat.ne_of_lt (hlt.1 other hother), Nat.ne_of_gt hlt.2.1,
        fun other hother => Nat.ne_of_lt (hlt.2.2 other hother)⟩
    · simp only [forall_mem_append, forall_mem_cons]
      exact ⟨fun other hother => Nat.lt_succ_of_lt (hlt.1 other hother), Nat.lt_succ_self _,
        Nat.lt_succ_of_lt hlt.2.1, fun other hother => Nat.lt_succ_of_lt (hlt.2.2 other hother)⟩
  | @merge front back t1 t2 merged retrans nextNode hmerge ht1 ht2 =>
    obtain ⟨⟨hsacked, hlost⟩, rfl⟩ := mergeItems_eq_ok.mp hmerge
    simp only [forall_mem_append, forall_mem_cons, map_append, map_cons]
      at hfits hnodes hlt ⊢
    refine ⟨?_, ?_, ?_, ?_⟩
    · refine @Board.edit _ _ _ front back [t1, t2] [mergedItem t1 t2] hboard
        (by simpa using ⟨ht1, ht2⟩) (by simp) (by simpa [mergedItem, Missing] using ht1)
        (by simp) ?_
      simp only [totalSize_cons, totalSize_nil, mergedItem, TxItem.size, length_append]
      omega
    · refine forall_mem_append.mpr ⟨hfits.1, forall_mem_cons.mpr ⟨?_, hfits.2.2.2⟩⟩
      exact ⟨fun _ => ht1.2, fun hsacked => by simp [mergedItem, ht1.1] at hsacked⟩
    · simp only [map_append, map_cons]
      exact hnodes.sublist (((sublist_cons_self _ _).cons_cons _).append_left _)
    · simp only [forall_mem_append, forall_mem_cons]
      exact ⟨hlt.1, hlt.2.1, hlt.2.2.2⟩

end Stretch

theorem marks_at {front back : List TxItem} {item : TxItem} {offset : Nat}
    (hle : totalSize front ≤ offset) (hlt : offset < totalSize front + item.size) :
    (marks (front ++ item :: back))[offset]? = some item.flags := by
  rw [marks_append, getElem?_append_right (by rwa [marks_length]), marks_length, marks_cons,
    getElem?_append_left (by rw [length_replicate]; omega), getElem?_replicate,
    if_pos (by omega)]

theorem head_flags {list other : List TxItem} {head : TxItem} (hmarks : marks list = marks other)
    (hlist : ∀ item ∈ list, 0 < item.size) (hother : ∀ item ∈ other, 0 < item.size) (hhead :
    list.head? = some head) : ∃ first, other.head? = some first ∧ first.flags = head.flags := by
  cases list with
  | nil => cases hhead
  | cons first rest =>
    obtain rfl := Option.some.inj hhead
    have hfst := @marks_at [] rest first 0 (Nat.le_refl _)
      (by simpa using hlist first (by simp))
    rw [nil_append, hmarks] at hfst
    cases other with
    | nil => cases hfst
    | cons second others =>
      have hsnd := @marks_at [] others second 0 (Nat.le_refl _)
        (by simpa using hother second (by simp))
      rw [nil_append, hfst] at hsnd
      exact ⟨second, rfl, (Option.some.inj hsnd).symm⟩

theorem Edit.nextNode_le {touched : TxItem → Prop} {before after : Editing}
    (hedit : Edit touched before after) : before.nextNode ≤ after.nextNode := by
  cases hedit with
  | split => exact Nat.le_succ _
  | merge => exact Nat.le_refl _

theorem Board.append {holds : TxItem → Nat → Prop} {list : List TxItem} {item : TxItem}
    (hboard : Board holds first highestSack list) (hitem : item.sacked = false ∧ item.lost = false)
    : Board holds first highestSack (list ++ [item]) := by
  cases hboard with
  | clear hhighest hnone =>
    exact .clear hhighest (forall_mem_append.mpr ⟨hnone, by simpa using hitem⟩)
  | @sacked front run rest highest hlist hhighest hhigh hrun hrest hjudged =>
    exact @Board.sacked _ _ _ _ front run (rest ++ [item]) highest (by simp [hlist]) hhighest
      hhigh hrun (forall_mem_append.mpr ⟨hrest, by simpa using hitem⟩) hjudged

variable {seq : SequenceNumber32}

namespace TxBuffer

def lostAt (buf : TxBuffer) (seq : SequenceNumber32) : Bool :=
  (holding (uint32OfInt (seq.sub buf.firstByteSeq)) buf.sentList).all fun held =>
    held.1.lost

namespace Tracked

variable {buf next : TxBuffer} {dupAckThresh segmentSize : Nat}

section

variable (htrack : Tracked dupAckThresh segmentSize buf)
include htrack

theorem add {p : List UInt8} (hnear : buf.size + p.length < 2 ^ 31) :
    Tracked dupAckThresh segmentSize (buf.add p).2 := by
  have hcnt := htrack.counted.add p
  obtain ⟨-, hold, hthresh, hseg, hboard, hfits, hhead, hnodes, hlt⟩ := htrack
  rw [TxBuffer.add] at hcnt ⊢
  by_cases hfit : p.length ≤ buf.available
  · by_cases hpos : 0 < p.length
    · rw [if_pos hfit, if_pos hpos] at hcnt ⊢
      refine ⟨hcnt, ?_, hthresh, hseg, hboard, hfits, hhead, hnodes, hlt⟩
      dsimp only
      rwa [uint32_of_lt (by omega)]
    · rw [if_pos hfit, if_neg hpos] at hcnt ⊢
      exact ⟨hcnt, hold, hthresh, hseg, hboard, hfits, hhead, hnodes, hlt⟩
  · rw [if_neg hfit] at hcnt ⊢
    exact ⟨hcnt, hold, hthresh, hseg, hboard, hfits, hhead, hnodes, hlt⟩

theorem missing_around {offset : Nat} (hoff : offset < totalSize buf.sentList)
    (hlost : buf.lostAt (buf.firstByteSeq.byte offset) = true) {front back : List TxItem}
    {item : TxItem} (hne : ∀ other ∈ front ++ item :: back, 0 < other.size)
    (hmarks : marks (front ++ item :: back) = marks buf.sentList)
    (haround :
      Around (buf.firstByteSeq.byte offset) (buf.firstByteSeq.byte (totalSize front)) item) :
    Missing item := by
  have hnear := htrack.near
  have hsz := htrack.counted.layout.size_eq
  have htotal := congrArg length hmarks
  simp only [marks_length, totalSize_append, totalSize_cons] at htotal
  have hitem := hne item (by simp)
  -- the item holds the byte in the list that was edited
  have hholds : totalSize front ≤ offset ∧ offset < totalSize front + item.size := by
    rcases haround with heq | ⟨hlt, hgt⟩
    · rw [byte_inj ⟨by omega, by omega⟩] at heq
      omega
    · rw [byte_byte, lt_byte ⟨by omega, by omega⟩,
        decide_eq_true_eq] at hlt
      rw [gt_byte ⟨by omega, by omega⟩, decide_eq_true_eq] at hgt
      omega
  -- and another one held it before
  obtain ⟨before, held, behind, hlist, hle, hlt⟩ := exists_holding hoff
  have hflag := @marks_at front back item offset hholds.1 hholds.2
  rw [hmarks, hlist, marks_at hle hlt, Option.some.injEq] at hflag
  have hheld : held.lost = true := by
    have hsub := @SequenceNumber.uint32_sub_byte buf.firstByteSeq offset 0 (Nat.zero_le _)
      (by omega)
    rw [byte_zero, Nat.sub_zero] at hsub
    rw [lostAt, hsub, hlist, holding_eq hle hlt] at hlost
    exact hlost
  have hnot := htrack.counted.separate held (by simp [hlist])
  rw [hheld] at hnot
  exact ⟨(congrArg Prod.fst hflag).symm.trans (by simpa [TxItem.flags] using hnot),
    (congrArg Prod.snd hflag).symm.trans hheld⟩

theorem copied {now numBytes : Nat} {result : Option TxItem × TxBuffer}
    (hlost : buf.lostAt seq = true) (hcopied : Copied buf now numBytes seq result) :
    Tracked dupAckThresh segmentSize result.2 := by
  have hcnt := htrack.counted.copied hcopied
  have hlay := htrack.counted.layout
  cases hcopied with
  | nothing => exact htrack
  | @retransmitted s found hpos hle hfinds hsacked =>
    obtain ⟨-, htotal, hne, -⟩ := hfinds.same_bytes hpos hlay.sent_nonempty
    have hposition := hfinds.position
    have hsome := hne found.item (by simp [Found.editing])
    have hoff : totalSize found.front < totalSize buf.sentList := by
      rw [← htotal]
      simp only [Found.editing, totalSize_append, totalSize_cons]
      omega
    rw [← hposition] at hlost hfinds
    have hedits := @Finds.edits _ _ _ Missing _ _ hfinds hpos hlay.sent_nonempty
      (fun item other hitem hflags =>
        ⟨(congrArg Prod.fst hflags).symm.trans hitem.1,
          (congrArg Prod.snd hflags).symm.trans hitem.2⟩)
      (fun front item back hall hmarks haround =>
        htrack.missing_around hoff hlost hall hmarks haround)
    obtain ⟨hboard, hfits, hnodes, hlt⟩ := chain_keep
      (Edited dupAckThresh segmentSize buf.firstByteSeq buf.highestSack) hedits
      (fun _ _ => Edited.step) ⟨htrack.board, htrack.fits, htrack.nodes, htrack.nodes_lt⟩
    have hmiss : Missing found.item :=
      htrack.missing_around hoff hlost hne hedits.marks_eq (.inl rfl)
    simp only [Found.editing, forall_mem_append, forall_mem_cons, map_append,
      map_cons] at hboard hfits hnodes hlt
    refine ⟨hcnt, htrack.near, htrack.dupAckThresh_eq, htrack.segmentSize_eq, ?_, ?_, ?_, ?_, ?_⟩
    · exact @Board.edit _ _ _ found.front found.back [found.item] [_] hboard
        (by simpa using hmiss) (by simp) (by simpa [Missing] using hmiss) (by simp) rfl
    · simp only [forall_mem_append, forall_mem_cons]
      exact ⟨hfits.1, ⟨fun _ => hmiss.2, hfits.2.1.2⟩, hfits.2.2⟩
    · intro head hhead
      have hmarks : marks (found.front ++
          { found.item with retrans := true, lastSent := now } :: found.back) =
          marks buf.sentList := by
        rw [← hedits.marks_eq]
        simp [Found.editing, TxItem.flags, TxItem.size]
      have hkept := hcnt.layout.sent_nonempty
      obtain ⟨first, hfst, hflags⟩ := head_flags hmarks hkept hlay.sent_nonempty hhead
      exact (congrArg Prod.fst hflags).symm.trans (htrack.head first hfst)
    · simpa only [map_append, map_cons] using hnodes
    · simp only [forall_mem_append, forall_mem_cons]
      exact hlt
  | @transmitted s found hpos hle hseq hfinds hrtx =>
    obtain ⟨-, -, hflags⟩ := htrack.counted.finds_unflagged hpos hfinds
    have hitem := hflags found.item (by simp [Found.editing])
    have hedits := @Finds.edits _ _ _ (fun _ => True) _ _ hfinds hpos hlay.app_nonempty
      (fun _ _ _ _ => trivial) (fun _ _ _ _ _ _ => trivial)
    have hnextNode : buf.nextNode ≤ found.nextNode :=
      chain_keep (fun editing => buf.nextNode ≤ editing.nextNode) hedits
        (fun _ _ hedit hle => Nat.le_trans hle hedit.nextNode_le) (Nat.le_refl _)
    have hitemSacked : found.item.sacked = false := congrArg Prod.fst hitem
    have hitemLost : found.item.lost = false := congrArg Prod.snd hitem
    refine ⟨hcnt, htrack.near, htrack.dupAckThresh_eq, htrack.segmentSize_eq,
      htrack.board.append ⟨hitemSacked, hitemLost⟩, ?_, ?_, ?_, ?_⟩
    · rw [forall_mem_append, forall_mem_singleton]
      exact ⟨htrack.fits, fun hresent => by simp [hrtx] at hresent,
        fun hsacked => by simp [hitemSacked] at hsacked⟩
    · intro head hhead
      cases hlist : buf.sentList with
      | nil =>
        simp only [hlist, nil_append, head?_cons, Option.some.injEq] at hhead
        rw [← hhead]
        exact hitemSacked
      | cons first rest =>
        simp only [hlist, cons_append, head?_cons] at hhead
        exact htrack.head head (by rw [hlist]; exact hhead)
    · rw [map_append, nodup_append]
      refine ⟨htrack.nodes, by simp, fun node hnode other hother => ?_⟩
      obtain ⟨item, hitem, rfl⟩ := mem_map.mp hnode
      have hlt := htrack.nodes_lt item hitem
      obtain rfl : other = found.nextNode := by simpa using hother
      omega
    · rw [forall_mem_append, forall_mem_singleton]
      refine ⟨fun item hitem => ?_, Nat.lt_succ_self _⟩
      have hlt := htrack.nodes_lt item hitem
      exact Nat.lt_succ_of_lt (Nat.lt_of_lt_of_le hlt hnextNode)

end

end Tracked

end TxBuffer

/-! ## Cumulative acknowledgements -/

/-- What is left of a sent list: the rest of an item and all behind it, or only items without a
flag. -/
def Trimmed (sent : List TxItem) (done : Nat) (list : List TxItem) : Prop :=
  (totalSize sent ≤ done ∧
    ∀ item ∈ list, (item.sacked = false ∧ item.lost = false) ∧ item.retrans = false) ∨
  ∃ front item back changed, sent = front ++ item :: back ∧ list = changed :: back ∧
    changed.flags = item.flags ∧ changed.retrans = item.retrans ∧ 0 < changed.size ∧
    changed.size ≤ item.size ∧ done + changed.size = totalSize front + item.size

namespace TxBuffer

/-- What the loop of `DiscardUpTo` keeps, with the bytes that it has dropped so far. -/
structure Dropping (buf : TxBuffer) (pair : TxBuffer × Nat) : Prop where
  counted : pair.1.Counted
  dupAckThresh_eq : pair.1.dupAckThresh = buf.dupAckThresh
  segmentSize_eq : pair.1.segmentSize = buf.segmentSize
  highestSack_eq : pair.1.highestSack = buf.highestSack
  nodes : (pair.1.sentList.map TxItem.node).Nodup
  nodes_lt : ∀ item ∈ pair.1.sentList, item.node < pair.1.nextNode
  trimmed : Trimmed buf.sentList pair.2 pair.1.sentList

theorem Dropping.step {now : Nat} {buf : TxBuffer} (hdrop : Dropping buf before)
    (hdiscarding : Discarding now before after) :
    Dropping buf after := by
  obtain ⟨hcounted, hthresh, hseg, hhigh, hnodes, hlt, htrim⟩ := hdrop
  cases hdiscarding with
  | @send middle done offset result hempty hcopied =>
    have hnext := hcounted.copied hcopied
    cases hcopied with
    | nothing => exact ⟨hcounted, hthresh, hseg, hhigh, hnodes, hlt, htrim⟩
    | retransmitted hpos hle hfinds hsacked =>
      obtain ⟨-, htotal, hne, -⟩ := hfinds.same_bytes hpos hcounted.layout.sent_nonempty
      simp only [Found.editing, hempty, totalSize_append, totalSize_cons, totalSize_nil,
        forall_mem_append, forall_mem_cons] at htotal hne
      omega
    | @transmitted s found hpos hle hseq hfinds hrtx =>
      obtain ⟨-, -, hflags⟩ := hcounted.finds_unflagged hpos hfinds
      have hitem := hflags found.item (by simp [Found.editing])
      refine ⟨hnext, hthresh, hseg, hhigh, by simp [hempty], by simp [hempty], .inl ?_⟩
      obtain ⟨hdone, -⟩ | ⟨front, item, back, changed, -, hlist, -⟩ := htrim
      · refine ⟨hdone, ?_⟩
        simp only [hempty, nil_append, forall_mem_singleton]
        exact ⟨⟨congrArg Prod.fst hitem, congrArg Prod.snd hitem⟩, hrtx⟩
      · rw [hempty] at hlist
        cases hlist
  | @drop middle after done count hdrops =>
    have hnext := hcounted.drops hdrops
    cases hdrops with
    | @whole head rest hhead =>
      dsimp only at hnodes hlt htrim
      rw [hhead] at hnodes hlt htrim
      rw [map_cons, nodup_cons] at hnodes
      refine ⟨hnext, hthresh, hseg, hhigh, hnodes.2,
        fun item hitem => hlt item (.tail _ hitem), ?_⟩
      obtain ⟨hdone, hnone⟩ |
        ⟨front, item, back, changed, hsent, hlist, hflags, hrtx, hpos, hle, hdone⟩ := htrim
      · exact .inl ⟨Nat.le_trans hdone (Nat.le_add_right _ _),
          (forall_mem_cons.mp hnone).2⟩
      · obtain ⟨rfl, rfl⟩ := cons.inj hlist
        cases rest with
        | nil =>
          refine .inl ⟨?_, by simp⟩
          rw [hsent, totalSize_append, totalSize_cons, totalSize_nil]
          omega
        | cons following others =>
          have hsome := hcounted.layout.sent_nonempty following (by simp [hhead])
          refine .inr ⟨front ++ [item], following, others, following, by simp [hsent], rfl,
            rfl, rfl, hsome, Nat.le_refl _, ?_⟩
          rw [totalSize_append, totalSize_cons, totalSize_nil]
          omega
    | @part head rest _ hhead hcnt hless =>
      have hcut : ({ head with
          packet := head.packet.drop count
          startSeq := head.startSeq.byte count } : TxItem).size = head.size - count :=
        length_drop
      dsimp only at hnodes hlt htrim
      rw [hhead] at hnodes hlt htrim
      refine ⟨hnext, hthresh, hseg, hhigh, hnodes, forall_mem_cons.mpr (forall_mem_cons.mp hlt), ?_⟩
      obtain ⟨hdone, hnone⟩ |
        ⟨front, item, back, changed, hsent, hlist, hflags, hrtx, hpos, hle, hdone⟩ := htrim
      · exact .inl ⟨Nat.le_trans hdone (Nat.le_add_right _ _),
          forall_mem_cons.mpr (forall_mem_cons.mp hnone)⟩
      · obtain ⟨rfl, rfl⟩ := cons.inj hlist
        refine .inr ⟨front, item, rest, _, hsent, rfl, hflags, hrtx, ?_, ?_, ?_⟩ <;>
          rw [hcut] <;> omega

theorem repairHead_unsacked {buf next : TxBuffer}
    (hhead : ∀ head, buf.sentList.head? = some head → head.sacked = false)
    (hrepair : buf.repairHead seq = .ok next) :
    next = buf := by
  rw [repairHead] at hrepair
  split at hrepair
  · exact (Except.ok.inj hrepair).symm
  next head rest hlist =>
    rw [hhead head (by rw [hlist]; rfl), if_neg (by simp)] at hrepair
    obtain ⟨_, hsame, hrepair⟩ := bind_eq_ok.mp hrepair
    obtain ⟨_, -, hrepair⟩ := bind_eq_ok.mp hrepair
    rw [← Except.ok.inj hrepair, Except.ok.inj hsame]

theorem ackedBy_le {buf : TxBuffer} (hahead :
    buf.firstByteSeq.ge seq = false) : uint32OfInt (seq.sub buf.firstByteSeq) ≤ 2 ^ 31 := by
  have hlt := uint32OfInt_lt (seq.sub buf.firstByteSeq)
  have hseq := byte_sub seq buf.firstByteSeq
  by_contra hfar
  have hgt := (@SequenceNumber.gt_byte_far buf.firstByteSeq 0
    (uint32OfInt (seq.sub buf.firstByteSeq)) (by omega) (by omega)).1
  rw [byte_zero, hseq] at hgt
  simp [ge, hgt] at hahead

def headUnsacked (buf : TxBuffer) (call : TxCall) : Bool :=
  buf.ackedBy call == 0 ||
    (holding (buf.ackedBy call) buf.sentList).all fun held => !held.1.sacked

end TxBuffer

theorem Board.trimmed {dupAckThresh acked size : Nat} {sent list : List TxItem}
    (hboard : Board (LostExactly dupAckThresh) first highestSack sent)
    (htrim : Trimmed sent (min acked size) list) (hacked : acked ≤ 2 ^ 31)
    (hsz : totalSize sent ≤ size) (hnear : size < 2 ^ 31) (hne : ∀ item ∈ sent, 0 < item.size)
    (hsentHead : ∀ head, sent.head? = some head → head.sacked = false)
    (hhead : ∀ head, list.head? = some head → head.sacked = false) :
    ((∀ item ∈ list, item.sacked = false ∧ item.lost = false) ∧
      (highestSack.1 = .atEnd ∨ highestSack.2.le (first.byte acked) = true)) ∨
      highestSack.2.le (first.byte acked) = false ∧
        Board (LostExactly dupAckThresh) (first.byte acked) highestSack list := by
  cases hboard with
  | clear hhighest hnone =>
    refine .inl ⟨?_, .inl hhighest⟩
    obtain ⟨-, hclear⟩ | ⟨front, item, back, changed, rfl, rfl, hflags, -⟩ := htrim
    · exact fun item hitem => (hclear item hitem).1
    · rw [forall_mem_append, forall_mem_cons] at hnone
      refine forall_mem_cons.mpr ⟨?_, hnone.2.2⟩
      exact ⟨(congrArg Prod.fst hflags).trans hnone.2.1.1,
        (congrArg Prod.snd hflags).trans hnone.2.1.2⟩
  | @sacked before run rest highest hsent hhighest hhigh hrun hrest hjudged =>
    subst hsent
    rw [hhighest]
    simp only [totalSize_append, totalSize_cons] at hsz
    -- the head is not SACKed, so there is something before the highest SACKed item
    have hpre : 0 < totalSize before := by
      cases before with
      | nil => simp [hsentHead highest rfl] at hhigh
      | cons head others =>
        have := hne head (by simp)
        rw [totalSize_cons]
        omega
    obtain ⟨hdone, hclear⟩ |
      ⟨front, item, back, changed, hsplit, rfl, hflags, -, hpos, hle, hdone⟩ := htrim
    · simp only [totalSize_append, totalSize_cons] at hdone
      refine .inl ⟨fun item hitem => (hclear item hitem).1, .inr ?_⟩
      rw [le_byte ⟨by omega, by omega⟩, decide_eq_true_eq]
      omega
    · have hitem : item.sacked = false := (congrArg Prod.fst hflags).symm.trans (hhead changed rfl)
      have htotal := congrArg totalSize hsplit
      simp only [totalSize_append, totalSize_cons] at htotal
      obtain ⟨between, rfl, rfl⟩ | ⟨between, rfl, rfl⟩ := unsacked_place hsplit hhigh hrun hitem
      · simp only [totalSize_append, totalSize_cons] at hsz htotal ⊢
        refine .inr ⟨?_, @Board.sacked _ _ _ _ (changed :: between) run rest highest rfl ?_ hhigh
          hrun hrest ?_⟩
        · rw [le_byte ⟨by omega, by omega⟩, decide_eq_false_iff_not]
          omega
        · rw [byte_byte, totalSize_cons]
          congr 2
          omega
        · obtain ⟨-, hrest⟩ := judged_append.mp hjudged
          refine ⟨fun _ => ?_, hrest.2⟩
          rw [show changed.lost = item.lost from congrArg Prod.snd hflags]
          exact hrest.1 hitem
      · rw [forall_mem_append, forall_mem_cons] at hrest
        simp only [totalSize_append, totalSize_cons] at hsz hdone
        refine .inl ⟨forall_mem_cons.mpr ⟨?_, hrest.2.2⟩, .inr ?_⟩
        · exact ⟨hhead changed rfl, (congrArg Prod.snd hflags).trans hrest.2.1.2⟩
        · rw [le_byte ⟨by omega, by omega⟩, decide_eq_true_eq]
          omega

theorem Trimmed.fits {segmentSize done : Nat} {sent list : List TxItem}
    (htrim : Trimmed sent done list) (hfits : ∀ item ∈ sent, Fits segmentSize item)
    (hhead : ∀ head, list.head? = some head → head.sacked = false) :
    ∀ item ∈ list, Fits segmentSize item := by
  obtain ⟨-, hnone⟩ | ⟨front, item, back, changed, rfl, rfl, hflags, hrtx, -⟩ := htrim
  · intro item hitem
    obtain ⟨⟨hsacked, -⟩, hresent⟩ := hnone item hitem
    exact ⟨fun hflag => by simp [hresent] at hflag, fun hflag => by simp [hsacked] at hflag⟩
  · rw [forall_mem_append, forall_mem_cons] at hfits
    refine forall_mem_cons.mpr ⟨⟨fun hresent => ?_, fun hsacked => ?_⟩, hfits.2.2⟩
    · exact (congrArg Prod.snd hflags).trans (hfits.2.1.1 (hrtx ▸ hresent))
    · simp [hhead changed rfl] at hsacked

namespace TxBuffer

namespace Tracked

variable {buf next : TxBuffer} {dupAckThresh segmentSize : Nat}

theorem trimmed_head {acked : Nat} {discarded : TxBuffer}
    (hclean : (holding acked buf.sentList).all (fun held => !held.1.sacked) = true)
    (hsz : totalSize buf.sentList ≤ buf.size)
    (htrim : Trimmed buf.sentList (min acked buf.size) discarded.sentList) {head : TxItem}
    (hhead : discarded.sentList.head? = some head) :
    head.sacked = false := by
  obtain ⟨-, hnone⟩ | ⟨front, item, back, changed, hsent, hlist, hflags, -, hpos, hle, hdone⟩ :=
    htrim
  · exact (hnone head (mem_of_mem_head? hhead)).1.1
  · rw [hlist, head?_cons, Option.some.injEq] at hhead
    subst hhead
    rw [hsent, totalSize_append, totalSize_cons] at hsz
    rw [hsent, holding_eq (by omega) (by omega)] at hclean
    exact (congrArg Prod.fst hflags).trans (by simpa [TxItem.flags] using hclean)

theorem discardUpTo {now : Nat} (htrack : Tracked dupAckThresh segmentSize buf)
    (hclean : buf.headUnsacked (.discardUpTo now seq) = true)
    (hdisc : buf.discardUpTo now seq = .ok next) :
    Tracked dupAckThresh segmentSize next := by
  cases hahead : buf.firstByteSeq.ge seq with
  | true =>
    rw [TxBuffer.discardUpTo, if_pos hahead] at hdisc
    exact Except.ok.inj hdisc ▸ htrack
  | false =>
    have hlay := htrack.counted.layout
    obtain ⟨discarded, repaired, hchain, hdiscards, hrep, rfl⟩ :=
      discardUpTo_eq_ok hlay hdisc hahead
    have hseq := byte_sub seq buf.firstByteSeq
    have hfar := ackedBy_le hahead
    have hacked : buf.ackedBy (.discardUpTo now seq) =
        uint32OfInt (seq.sub buf.firstByteSeq) := by
      simp [ackedBy, hahead]
    rw [headUnsacked, hacked] at hclean
    generalize uint32OfInt (seq.sub buf.firstByteSeq) = acked at *
    have hpos : 0 < acked := by
      refine Nat.pos_of_ne_zero fun hzero => ?_
      rw [hzero, byte_zero] at hseq
      simp [ge, hseq] at hahead
    rw [Bool.or_eq_true, beq_iff_eq, or_iff_right (Nat.ne_of_gt hpos)] at hclean
    have hsizes := hlay.size_eq
    have hnear := htrack.near
    have hstart : Dropping buf (buf, 0) := by
      refine ⟨htrack.counted, rfl, rfl, rfl, htrack.nodes, htrack.nodes_lt, ?_⟩
      cases hlist : buf.sentList with
      | nil => exact .inl ⟨Nat.le_refl _, by simp⟩
      | cons head rest =>
        have hsome := hlay.sent_nonempty head (by simp [hlist])
        exact .inr ⟨[], head, rest, head, rfl, rfl, rfl, rfl, hsome, Nat.le_refl _, rfl⟩
    have hdrop := chain_keep (Dropping buf) hchain (fun _ _ hstep hpre =>
      hpre.step hstep) hstart
    have hhead : ∀ head, (discarded.atSeq seq).sentList.head? = some head →
        head.sacked = false := by
      intro head hhead
      refine trimmed_head hclean (by omega) hdrop.trimmed ?_
      rw [TxBuffer.atSeq] at hhead
      split at hhead <;> exact hhead
    obtain rfl := repairHead_unsacked hhead hrep
    have hcnt := (hdrop.counted.atSeq seq).forgetSack
    obtain ⟨-, hthresh, hseg, hhigh, hnodes, hlt, htrim⟩ := hdrop
    dsimp only at hthresh hseg hhigh hnodes hlt htrim
    have hsz := hdiscards.size_eq hlay
    have hfst : (discarded.atSeq seq).firstByteSeq = buf.firstByteSeq.byte acked := by
      rw [TxBuffer.atSeq]
      split
      · exact hseq.symm
      · rw [hdiscards.firstByteSeq_eq, Nat.min_eq_left (by omega)]
    have hlists : (discarded.atSeq seq).forgetSack.sentList = discarded.sentList ∧
        (discarded.atSeq seq).forgetSack.nextNode = discarded.nextNode ∧
        (discarded.atSeq seq).forgetSack.size = discarded.size ∧
        (discarded.atSeq seq).forgetSack.dupAckThresh = discarded.dupAckThresh ∧
        (discarded.atSeq seq).forgetSack.segmentSize = discarded.segmentSize := by
      rw [TxBuffer.forgetSack, TxBuffer.atSeq]
      split <;> split <;> exact ⟨rfl, rfl, rfl, rfl, rfl⟩
    obtain ⟨hlist, hnextNode, hleft, hsameThresh, hsameSegment⟩ := hlists
    have hatHead : ∀ head, discarded.sentList.head? = some head → head.sacked = false :=
      fun head => trimmed_head hclean (by omega) htrim
    refine ⟨hcnt, by omega, ?_, ?_, ?_, ?_, ?_, ?_, ?_⟩
    · exact hsameThresh.trans (hthresh.trans htrack.dupAckThresh_eq)
    · exact hsameSegment.trans (hseg.trans htrack.segmentSize_eq)
    · have hkeep : (discarded.atSeq seq).highestSack = buf.highestSack := by
        rw [TxBuffer.atSeq, ← hhigh]
        split <;> rfl
      have hboard := htrack.board.trimmed htrim hfar (by omega) hnear
        hlay.sent_nonempty htrack.head hatHead
      rw [hlist]
      rw [TxBuffer.forgetSack, hkeep, hfst]
      split
      next hle =>
        obtain ⟨hnone, -⟩ | ⟨hnot, -⟩ := hboard
        · exact .clear rfl hnone
        · rw [hle] at hnot
          cases hnot
      next hnot =>
        rw [hkeep, hfst]
        obtain ⟨hnone, hend | hle⟩ | ⟨-, hboard⟩ := hboard
        · exact .clear hend hnone
        · exact absurd hle hnot
        · exact hboard
    · rw [hlist]
      exact htrim.fits htrack.fits hatHead
    · rwa [hlist]
    · rwa [hlist]
    · rwa [hlist, hnextNode]

end Tracked

end TxBuffer

end HomaSird.Tcp
