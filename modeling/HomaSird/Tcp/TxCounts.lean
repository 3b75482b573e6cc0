import HomaSird.Tcp.TxState

/-! # The counters of the scoreboard

The counts of SACKed, lost and retransmitted bytes are adjusted by hand in every call.
They are the sums over the flagged items as long as a segment that is taken back
carries no flag and no Reno SACK lands on a lost segment.
-/

namespace HomaSird.Tcp

open Transition TxBuffer List

namespace TxBuffer

structure Counted (buf : TxBuffer) : Prop where
  layout : buf.Layout
  sackedOut_eq : buf.sackedOut = bytesOf TxItem.sacked buf.sentList
  lostOut_eq : buf.lostOut = bytesOf TxItem.lost buf.sentList
  retrans_eq : buf.retrans = bytesOf TxItem.retrans buf.sentList
  separate : ∀ item ∈ buf.sentList, ¬(item.sacked = true ∧ item.lost = true)
  unflagged : ∀ item ∈ buf.appList,
    item.sacked = false ∧ item.lost = false ∧ item.retrans = false

theorem bytesOf_replace (flag : TxItem → Bool) (front back : List TxItem) (item : TxItem) :
    bytesOf flag (front ++ item :: back) =
      bytesOf flag (front ++ back) + if flag item then item.size else 0 := by
  simp only [bytesOf_append, bytesOf_cons]
  omega

variable {buf next : TxBuffer} {front back : List TxItem} {item changed : TxItem}
  {flag : TxItem → Bool}

theorem Layout.add_lt (hlay : buf.Layout) (hlist : buf.sentList = front ++ item :: back)
    (hflag : flag item = false) : bytesOf flag buf.sentList + item.size < 2 ^ 32 := by
  have hword := hlay.sent_lt
  have hfront := bytesOf_le_totalSize flag front
  have hback := bytesOf_le_totalSize flag back
  simp only [hlist, bytesOf_append, bytesOf_cons, totalSize_append, totalSize_cons, hflag,
    Bool.false_eq_true, if_false] at hword ⊢
  omega

theorem Layout.size_le_bytesOf (hlay : buf.Layout) (hlist : buf.sentList = front ++ item :: back)
    (hflag : flag item = true) :
    uint32OfInt ((bytesOf flag buf.sentList : Nat) - (item.size : Nat)) =
      bytesOf flag buf.sentList - item.size ∧
      item.size ≤ bytesOf flag buf.sentList := by
  have hword := hlay.sent_lt
  have hsum := bytesOf_le_totalSize flag buf.sentList
  have hle : item.size ≤ bytesOf flag buf.sentList := by
    rw [hlist, bytesOf_replace, if_pos hflag]
    omega
  refine ⟨?_, hle⟩
  rw [uint32OfInt]
  omega

def landsClean (behind : List TxItem) : Bool :=
  (behind.find? fun item => !item.sacked).all fun target => !target.lost

def holding : Nat → List TxItem → Option (TxItem × List TxItem)
  | _, [] => none
  | offset, item :: rest =>
    if offset < item.size then some (item, rest) else holding (offset - item.size) rest

theorem holding_eq {offset : Nat} (hfront : totalSize front ≤ offset) (hitem : offset <
    totalSize front + item.size) : holding offset (front ++ item :: back) = some (item, back) := by
  induction front generalizing offset with
  | nil =>
    rw [totalSize_nil, Nat.zero_add] at hitem
    exact if_pos hitem
  | cons first rest ih =>
    rw [totalSize_cons] at hfront hitem
    rw [cons_append, holding, if_neg (by omega)]
    exact ih (by omega) (by omega)

/-- The segment taken back carries no flag, and a Reno SACK lands on no lost segment: neither at
`AddRenoSack`, nor at the end of `DiscardUpTo` when the segment at `seq` is SACKed. -/
def clean (buf : TxBuffer) (call : TxCall) : Bool :=
  match call with
  | .addRenoSack => landsClean buf.sentList.tail
  | .discardUpTo _ _ =>
    buf.ackedBy call == 0 || (holding (buf.ackedBy call) buf.sentList).all fun held =>
      !held.1.sacked || landsClean held.2
  | .resetLastSegmentSent =>
    buf.sentList.getLast?.all fun item => !item.sacked && !item.lost && !item.retrans
  | _ => true

/-- What is left of a sent list: nothing that is SACKed, or the rest of an item and all items
behind it. -/
def Left (sent : List TxItem) (done : Nat) (list : List TxItem) : Prop :=
  (∀ item ∈ list, item.sacked = false) ∨
    ∃ front item back changed, sent = front ++ item :: back ∧ list = changed :: back ∧
      changed.sacked = item.sacked ∧ 0 < changed.size ∧
      done + changed.size = totalSize front + item.size ∧ changed.size ≤ item.size

namespace Counted

theorem of_replace (hcnt : buf.Counted) (hflags : Reflagged buf next)
    (hlist : buf.sentList = front ++ item :: back)
    (hnext : next.sentList = front ++ changed :: back) (hsz : changed.size = item.size)
    (hsep : ¬(changed.sacked = true ∧ changed.lost = true))
    (hsacked : next.sackedOut + (if item.sacked then item.size else 0) =
      buf.sackedOut + if changed.sacked then item.size else 0)
    (hlost : next.lostOut + (if item.lost then item.size else 0) =
      buf.lostOut + if changed.lost then item.size else 0)
    (hrtx : next.retrans + (if item.retrans then item.size else 0) =
      buf.retrans + if changed.retrans then item.size else 0) :
    next.Counted where
  layout := hflags.layout hcnt.layout
  sackedOut_eq := by
    have hsum := hcnt.sackedOut_eq
    rw [hlist, bytesOf_replace] at hsum
    rw [hnext, bytesOf_replace, hsz]
    omega
  lostOut_eq := by
    have hsum := hcnt.lostOut_eq
    rw [hlist, bytesOf_replace] at hsum
    rw [hnext, bytesOf_replace, hsz]
    omega
  retrans_eq := by
    have hsum := hcnt.retrans_eq
    rw [hlist, bytesOf_replace] at hsum
    rw [hnext, bytesOf_replace, hsz]
    omega
  separate := by
    have hpre := hcnt.separate
    rw [hlist, forall_mem_append, forall_mem_cons] at hpre
    rw [hnext, forall_mem_append, forall_mem_cons]
    exact ⟨hpre.1, hsep, hpre.2.2⟩
  unflagged := hflags.appList ▸ hcnt.unflagged

theorem sacks {before after : TxBuffer × Nat}
    (hsack : Sacks before after) (hcnt : before.1.Counted) : after.1.Counted := by
  have hflags := hsack.reflagged
  cases hsack with
  | @sack buf bytesSacked front back item hlist hsacked =>
    have hadd := hcnt.layout.add_lt hlist hsacked
    rw [← hcnt.sackedOut_eq] at hadd
    refine hcnt.of_replace hflags hlist rfl rfl (by simp) ?_ ?_ rfl
    · simp [hsacked, uint32_of_lt hadd]
    · cases hlost : item.lost with
      | false => simp
      | true =>
        have hsub := hcnt.layout.size_le_bytesOf hlist hlost
        rw [← hcnt.lostOut_eq] at hsub
        simp [hsub]

theorem loses {before after : TxBuffer}
    (hlose : Loses before after) (hcnt : before.Counted) : after.Counted := by
  have hflags := hlose.reflagged
  cases hlose with
  | @lose front back item hlist hsacked hlost =>
    have hadd := hcnt.layout.add_lt hlist hlost
    rw [← hcnt.lostOut_eq] at hadd
    refine hcnt.of_replace hflags hlist rfl rfl (by simp [hsacked]) rfl ?_ rfl
    simp [hlost, uint32_of_lt hadd]

theorem update {list : List SackBlock} {result : Nat × TxBuffer}
    (hcnt : buf.Counted) (hupd : buf.update list = .ok result) : result.2.Counted := by
  obtain ⟨middle, hsacks, hloses⟩ := update_eq_ok hupd
  have hmiddle := chain_keep (fun pair => pair.1.Counted) hsacks
    (fun _ _ hsack => sacks hsack) hcnt
  exact chain_keep Counted hloses (fun _ _ hlose => loses hlose) hmiddle

theorem addRenoSack (hcnt : buf.Counted) (htarget : landsClean buf.sentList.tail = true)
    (hadd : buf.addRenoSack = .ok next) : next.Counted := by
  have hflags := addRenoSack_reflagged hadd
  obtain ⟨_, -, hadd⟩ := bind_eq_ok.mp hadd
  dsimp only at hadd
  split at hadd
  · cases hadd
  next head rest hlist =>
    split at hadd
    · cases hadd
      exact ⟨hflags.layout hcnt.layout, hcnt.sackedOut_eq, hcnt.lostOut_eq,
        hcnt.retrans_eq, hcnt.separate, hcnt.unflagged⟩
    next item others hsack =>
      cases hadd
      obtain ⟨front, back, hrest, hfront, hsacked, rfl⟩ := sackFirst_eq hsack
      have hitem : buf.sentList = (head :: front) ++ item :: back := by rw [hlist, hrest]; rfl
      have hfind : buf.sentList.tail.find? (fun item => !item.sacked) = some item := by
        rw [hlist, tail_cons, hrest, find?_append, find?_eq_none.mpr]
        · simp [hsacked]
        · simpa using hfront
      have hlost : item.lost = false := by simpa [landsClean, hfind] using htarget
      have hadd := hcnt.layout.add_lt hitem hsacked
      rw [← hcnt.sackedOut_eq] at hadd
      refine hcnt.of_replace hflags hitem rfl rfl (by simp [hlost]) ?_ rfl rfl
      simp [hsacked, uint32_of_lt hadd]

theorem markHeadAsLost (hcnt : buf.Counted) : buf.markHeadAsLost.Counted := by
  have hflags := markHeadAsLost_reflagged buf
  rw [TxBuffer.markHeadAsLost] at hflags ⊢
  split at hflags
  · exact hcnt
  next head rest hlist =>
    have hitem : buf.sentList = [] ++ head :: rest := hlist
    refine hcnt.of_replace hflags hitem rfl rfl (by simp) ?_ ?_ ?_
    · cases hsacked : head.sacked with
      | false => simp
      | true =>
        have hsub := hcnt.layout.size_le_bytesOf hitem hsacked
        rw [← hcnt.sackedOut_eq] at hsub
        simp [hsub]
    · cases hlost : head.lost with
      | false =>
        have hadd := hcnt.layout.add_lt hitem hlost
        rw [← hcnt.lostOut_eq] at hadd
        simp [uint32_of_lt hadd]
      | true => simp
    · cases hrtx : head.retrans with
      | false => simp
      | true =>
        have hsub := hcnt.layout.size_le_bytesOf hitem hrtx
        rw [← hcnt.retrans_eq] at hsub
        simp [hsub]

theorem deleteRetransmittedFlagFromHead (hcnt : buf.Counted)
    (hdelete : buf.deleteRetransmittedFlagFromHead = .ok next) : next.Counted := by
  have hflags := deleteRetransmittedFlagFromHead_reflagged hdelete
  rw [TxBuffer.deleteRetransmittedFlagFromHead] at hdelete
  split at hdelete
  · exact Except.ok.inj hdelete ▸ hcnt
  · split at hdelete
    · cases hdelete
    next head rest hlist =>
      split at hdelete
      next hrtx =>
        cases hdelete
        have hitem : buf.sentList = [] ++ head :: rest := hlist
        have hsub := hcnt.layout.size_le_bytesOf hitem hrtx
        rw [← hcnt.retrans_eq] at hsub
        refine hcnt.of_replace hflags hitem rfl rfl ?_ rfl rfl (by simp [hrtx, hsub])
        exact hcnt.separate head (by simp [hlist])
      · exact Except.ok.inj hdelete ▸ hcnt

theorem resetRenoSack (hcnt : buf.Counted) : buf.resetRenoSack.Counted where
  layout := (resetRenoSack_reflagged buf).layout hcnt.layout
  sackedOut_eq := by
    have hnone : ∀ item ∈ buf.resetRenoSack.sentList, item.sacked = false := by
      simp [TxBuffer.resetRenoSack]
    exact (bytesOf_eq_zero hnone).symm
  lostOut_eq := hcnt.lostOut_eq.trans
    (bytesOf_map TxItem.lost (fun item => { item with sacked := false }) _ fun _ => rfl).symm
  retrans_eq := hcnt.retrans_eq.trans
    (bytesOf_map TxItem.retrans (fun item => { item with sacked := false }) _ fun _ => rfl).symm
  separate := by
    rw [TxBuffer.resetRenoSack, forall_mem_map]
    simp
  unflagged := hcnt.unflagged

theorem resetSentList (hcnt : buf.Counted) : buf.resetSentList.Counted where
  layout := (resetSentList_keeps hcnt.layout).layout
  sackedOut_eq := rfl
  lostOut_eq := rfl
  retrans_eq := rfl
  separate := by simp [TxBuffer.resetSentList]
  unflagged := by
    rw [TxBuffer.resetSentList, forall_mem_append, forall_mem_map]
    exact ⟨fun _ _ => ⟨rfl, rfl, rfl⟩, hcnt.unflagged⟩

theorem resetLastSegmentSent (hcnt : buf.Counted)
    (hclean : buf.clean .resetLastSegmentSent = true) : buf.resetLastSegmentSent.Counted := by
  have hlay := (resetLastSegmentSent_keeps hcnt.layout).layout
  rw [TxBuffer.resetLastSegmentSent] at hlay ⊢
  split at hlay
  · exact hcnt
  next item hsome =>
    obtain ⟨front, hlist⟩ := getLast?_eq_some_iff.mp hsome
    obtain ⟨⟨hsacked, hlost⟩, hrtx⟩ :
        (item.sacked = false ∧ item.lost = false) ∧ item.retrans = false := by
      simpa [clean, hsome] using hclean
    have hdrop : buf.sentList.dropLast = front := by rw [hlist, dropLast_concat]
    have hsum : ∀ {flag : TxItem → Bool}, flag item = false →
        bytesOf flag buf.sentList = bytesOf flag front := by
      intro flag hflag
      simp [hlist, hflag]
    have hsep := hcnt.separate
    rw [hlist, forall_mem_append] at hsep
    refine ⟨hlay, ?_, ?_, ?_, ?_, ?_⟩
    · simp only [hdrop]
      exact hcnt.sackedOut_eq.trans (hsum hsacked)
    · simp only [hdrop]
      exact hcnt.lostOut_eq.trans (hsum hlost)
    · simp only [hdrop, hrtx, Bool.false_eq_true, if_false]
      exact hcnt.retrans_eq.trans (hsum hrtx)
    · simpa only [hdrop] using hsep.1
    · exact forall_mem_cons.mpr ⟨⟨hsacked, hlost, hrtx⟩, hcnt.unflagged⟩

theorem loseUnsacked_spec {items : List TxItem} {lostOut : Nat}
    (hword : lostOut + totalSize items < 2 ^ 32)
    (hsep : ∀ item ∈ items, ¬(item.sacked = true ∧ item.lost = true)) :
    (loseUnsacked items lostOut).2 = lostOut + bytesOf TxItem.lost (loseUnsacked items lostOut).1 ∧
      bytesOf TxItem.sacked (loseUnsacked items lostOut).1 = bytesOf TxItem.sacked items ∧
      ∀ item ∈ (loseUnsacked items lostOut).1,
        ¬(item.sacked = true ∧ item.lost = true) ∧ item.retrans = false := by
  induction items generalizing lostOut with
  | nil => simp [loseUnsacked]
  | cons item rest ih =>
    obtain ⟨hitem, hrest⟩ := forall_mem_cons.mp hsep
    rw [totalSize_cons] at hword
    have hadd : uint32 (lostOut + item.size) = lostOut + item.size := uint32_of_lt (by omega)
    obtain ⟨hlost, hsacked, hflags⟩ := @ih (lostOut + item.size) (by omega) hrest
    obtain ⟨hlost', hsacked', hflags'⟩ := @ih lostOut (by omega) hrest
    rw [loseUnsacked]
    split
    next hislost =>
      have hnot : item.sacked = false := by simpa [hislost] using hitem
      simp only [hadd, bytesOf_cons, hislost, hnot, hlost, hsacked, forall_mem_cons]
      refine ⟨?_, rfl, by simp, hflags⟩
      exact Nat.add_assoc _ _ _
    next hislost =>
      split
      next hnot =>
        simp only [hadd, bytesOf_cons, hnot, hlost, hsacked, forall_mem_cons]
        refine ⟨?_, rfl, by simp, hflags⟩
        exact Nat.add_assoc _ _ _
      next hnot =>
        simp only [bytesOf_cons, hislost, hlost', hsacked', forall_mem_cons]
        refine ⟨?_, rfl, by simp, hflags'⟩
        rw [if_neg (by simp), Nat.zero_add]

theorem setSentListLost {resetSack : Bool} (hcnt : buf.Counted)
    (hset : buf.setSentListLost resetSack = .ok next) : next.Counted := by
  have hlay := (setSentListLost_reflagged hset).layout hcnt.layout
  obtain ⟨_, -, hset⟩ := bind_eq_ok.mp hset
  cases hset
  cases resetSack with
  | true =>
    have hall : buf.sentSize = bytesOf TxItem.lost (buf.sentList.map fun item =>
        { item with sacked := false, lost := true, retrans := false }) := by
      rw [hcnt.layout.sentSize_eq, ← bytesOf_true]
      exact (bytesOf_map TxItem.lost (fun item =>
        { item with sacked := false, lost := true, retrans := false }) _ fun _ => rfl).symm
    refine ⟨hlay, ?_, hall, ?_, ?_, hcnt.unflagged⟩
    · exact (bytesOf_eq_zero (by simp)).symm
    · exact (bytesOf_eq_zero (by simp)).symm
    · simp
  | false =>
    have hword := hcnt.layout.sent_lt
    obtain ⟨hlost, hsacked, hflags⟩ := @loseUnsacked_spec buf.sentList 0
      (by rwa [Nat.zero_add]) hcnt.separate
    refine ⟨hlay, ?_, ?_, ?_, fun item hitem => (hflags item hitem).1, hcnt.unflagged⟩
    · exact hcnt.sackedOut_eq.trans hsacked.symm
    · exact hlost.trans (Nat.zero_add _)
    · exact (bytesOf_eq_zero fun item hitem => (hflags item hitem).2).symm

theorem add (p : List UInt8) (hcnt : buf.Counted) : (buf.add p).2.Counted := by
  have hlay := (add_layout (p := p) hcnt.layout).1
  rw [TxBuffer.add] at hlay ⊢
  by_cases hfits : p.length ≤ buf.available
  · by_cases hpos : 0 < p.length
    · rw [if_pos hfits, if_pos hpos] at hlay ⊢
      refine ⟨hlay, hcnt.sackedOut_eq, hcnt.lostOut_eq, hcnt.retrans_eq,
        hcnt.separate, ?_⟩
      rw [forall_mem_append, forall_mem_singleton]
      exact ⟨hcnt.unflagged, rfl, rfl, rfl⟩
    · rw [if_pos hfits, if_neg hpos]
      exact hcnt
  · rw [if_neg hfits]
    exact hcnt

variable {seq : SequenceNumber32}

theorem finds_unflagged {s : Nat} {found : Found} (hcnt : buf.Counted) (hpos : 0 < s)
    (hfinds : Finds s seq seq ⟨buf.appList, buf.retrans, buf.nextNode⟩ found) :
    found.retrans = buf.retrans ∧ (∀ item ∈ found.editing.list, item.retrans = false) ∧
    ∀ item ∈ found.editing.list, item.flags = (false, false) := by
  have hedits := @Finds.edits _ _ _ (fun _ => True) _ _ hfinds hpos
    hcnt.layout.app_nonempty (fun _ _ _ _ => trivial) (fun _ _ _ _ _ _ => trivial)
  have hrtx := chain_keep (fun editing => editing.retrans = buf.retrans ∧
    ∀ item ∈ editing.list, item.retrans = false) hedits
    (fun _ _ hedit hpre => ⟨(hedit.unflagged hpre.2).1.trans hpre.1,
      (hedit.unflagged hpre.2).2⟩)
    ⟨rfl, fun item hitem => (hcnt.unflagged item hitem).2.2⟩
  have hflags := chain_keep (fun editing => ∀ item ∈ editing.list,
    item.flags = (false, false)) hedits
    (fun _ _ hedit => @Edit.forall_flags _ _ _ hedit (· = (false, false)))
    (fun item hitem => Prod.ext (hcnt.unflagged item hitem).1
      (hcnt.unflagged item hitem).2.1)
  exact ⟨hrtx.1, hrtx.2, hflags⟩

theorem copied {now numBytes : Nat} {result : Option TxItem × TxBuffer} (hcounted : buf.Counted)
    (hcopied : Copied buf now numBytes seq result) : result.2.Counted := by
  have hlay := (hcopied.keeps hcounted.layout).layout
  cases hcopied with
  | nothing => exact hcounted
  | @retransmitted s found hpos hle hfinds hsacked =>
    -- splitting and merging edit the list without changing what each byte is flagged as
    have hedits := @Finds.edits _ _ _ (fun _ => True) _ _ hfinds hpos
      hcounted.layout.sent_nonempty (fun _ _ _ _ => trivial) (fun _ _ _ _ _ _ => trivial)
    have hrtx := hedits.retrans_eq hcounted.layout.sent_lt hcounted.retrans_eq
    have hsep := chain_keep (fun editing => ∀ item ∈ editing.list,
      ¬(item.flags.1 = true ∧ item.flags.2 = true)) hedits
      (fun _ _ hedit => @Edit.forall_flags _ _ _ hedit
        fun flags => ¬(flags.1 = true ∧ flags.2 = true)) hcounted.separate
    have hword := hcounted.layout.sent_lt
    rw [← hedits.totalSize_eq] at hword
    have hbd := bytesOf_le_totalSize TxItem.retrans found.front
    have hbound' := bytesOf_le_totalSize TxItem.retrans found.back
    have hsackedSum : bytesOf TxItem.sacked found.editing.list =
      bytesOf TxItem.sacked buf.sentList := hedits.bytesOf_flags Prod.fst
    have hlostSum : bytesOf TxItem.lost found.editing.list =
      bytesOf TxItem.lost buf.sentList := hedits.bytesOf_flags Prod.snd
    simp only [Found.editing, forall_mem_append, forall_mem_cons, bytesOf_append,
      bytesOf_cons, totalSize_append, totalSize_cons]
      at hrtx hsep hword hsackedSum hlostSum
    refine ⟨hlay, ?_, ?_, ?_, ?_, hcounted.unflagged⟩
    · simp only [bytesOf_append, bytesOf_cons]
      exact hcounted.sackedOut_eq.trans hsackedSum.symm
    · simp only [bytesOf_append, bytesOf_cons]
      exact hcounted.lostOut_eq.trans hlostSum.symm
    · simp only [bytesOf_append, bytesOf_cons, if_true]
      split
      -- only a part not marked yet is added to the retransmitted bytes
      next hwas =>
        rw [hrtx, if_pos hwas]
        rfl
      next hwas =>
        rw [if_neg hwas] at hrtx
        rw [uint32_of_lt (by omega), hrtx]
        change _ = bytesOf TxItem.retrans found.front +
          (found.item.size + bytesOf TxItem.retrans found.back)
        omega
    · simp only [forall_mem_append, forall_mem_cons]
      exact hsep
  | @transmitted s found hpos hle hseq hfinds hrtx =>
    obtain ⟨hcnt, hnone, hflags⟩ := hcounted.finds_unflagged hpos hfinds
    simp only [Found.editing, forall_mem_append, forall_mem_cons] at hcnt hnone hflags
    obtain ⟨hfront, hitem, hback⟩ := hflags
    have hitemSacked : found.item.sacked = false := congrArg Prod.fst hitem
    have hitemLost : found.item.lost = false := congrArg Prod.snd hitem
    refine ⟨hlay, ?_, ?_, ?_, ?_, ?_⟩
    · simp [hcounted.sackedOut_eq, hitemSacked]
    · simp [hcounted.lostOut_eq, hitemLost]
    · simp [hcnt, hcounted.retrans_eq, hrtx]
    · simp only [forall_mem_append, forall_mem_singleton]
      exact ⟨hcounted.separate, by simp [hitemSacked]⟩
    · simp only [forall_mem_append]
      exact ⟨fun item hmem => ⟨congrArg Prod.fst (hfront item hmem),
          congrArg Prod.snd (hfront item hmem), hnone.1 item hmem⟩,
        fun item hmem => ⟨congrArg Prod.fst (hback item hmem),
          congrArg Prod.snd (hback item hmem), hnone.2.2 item hmem⟩⟩

theorem count_whole {counter : Nat} {rest : List TxItem} (hctr : counter = bytesOf flag (item ::
    rest)) : (if flag item then counter - item.size else counter) = bytesOf flag rest := by
  rw [bytesOf_cons] at hctr
  split at hctr
  next hflag => rw [if_pos hflag, hctr, Nat.add_sub_cancel_left]
  next hflag => rw [if_neg hflag, hctr, Nat.zero_add]

theorem count_part {counter count : Nat} {rest : List TxItem}
    (hctr : counter = bytesOf flag (item :: rest)) (hsame : flag changed = flag item)
    (hsz : changed.size = item.size - count) (hle : count ≤ item.size) :
    (if flag item then counter - count else counter) = bytesOf flag (changed :: rest) := by
  rw [bytesOf_cons] at hctr ⊢
  rw [hsame, hsz]
  split at hctr
  next hflag =>
    rw [if_pos hflag, if_pos hflag]
    omega
  next hflag => rw [if_neg hflag, if_neg hflag, hctr]

theorem drops {count : Nat}
    (hcnt : buf.Counted) (hdrops : Drops buf count next) : next.Counted := by
  have hlay := (hdrops.discards hcnt.layout).2.layout
  have hsacked := hcnt.sackedOut_eq
  have hlost := hcnt.lostOut_eq
  have hrtx := hcnt.retrans_eq
  have hsep := hcnt.separate
  cases hdrops with
  | @whole item rest hlist =>
    rw [hlist] at hsacked hlost hrtx
    rw [hlist, forall_mem_cons] at hsep
    exact ⟨hlay, count_whole hsacked, count_whole hlost, count_whole hrtx, hsep.2,
      hcnt.unflagged⟩
  | @part item rest count hlist hpos hless =>
    have hcut : ({ item with
        packet := item.packet.drop count
        startSeq := item.startSeq.byte count } : TxItem).size = item.size - count :=
      length_drop
    rw [hlist] at hsacked hlost hrtx
    rw [hlist, forall_mem_cons] at hsep
    have hle := Nat.le_of_lt hless
    exact ⟨hlay, count_part hsacked rfl hcut hle, count_part hlost rfl hcut hle,
      count_part hrtx rfl hcut hle, forall_mem_cons.mpr hsep, hcnt.unflagged⟩

theorem atSeq (seq : SequenceNumber32) (hcnt : buf.Counted) : (buf.atSeq seq).Counted := by
  have hlay := atSeq_layout seq hcnt.layout
  rw [TxBuffer.atSeq] at hlay ⊢
  by_cases hzero : buf.size = 0
  · rw [if_pos hzero] at hlay ⊢
    exact ⟨hlay, hcnt.sackedOut_eq, hcnt.lostOut_eq, hcnt.retrans_eq,
      hcnt.separate, hcnt.unflagged⟩
  · rwa [if_neg hzero]

theorem forgetSack (hcnt : buf.Counted) : buf.forgetSack.Counted := by
  have hlay := (forgetSack_reflagged buf).layout hcnt.layout
  rw [TxBuffer.forgetSack] at hlay ⊢
  by_cases hle : buf.highestSack.2.le buf.firstByteSeq = true
  · rw [if_pos hle] at hlay ⊢
    exact ⟨hlay, hcnt.sackedOut_eq, hcnt.lostOut_eq, hcnt.retrans_eq,
      hcnt.separate, hcnt.unflagged⟩
  · rwa [if_neg hle]

theorem repairHead (hcnt : buf.Counted)
    (hclean : ∀ head rest, buf.sentList = head :: rest → head.sacked = true →
    landsClean rest = true) (hrepair : buf.repairHead seq = .ok next) : next.Counted := by
  rw [TxBuffer.repairHead] at hrepair
  split at hrepair
  · exact Except.ok.inj hrepair ▸ hcnt
  next head rest hlist =>
    obtain ⟨repaired, hrep, hrepair⟩ := bind_eq_ok.mp hrepair
    obtain ⟨_, -, hrepair⟩ := bind_eq_ok.mp hrepair
    cases hrepair
    split at hrep
    next hsacked =>
      obtain ⟨_, -, hrep⟩ := bind_eq_ok.mp hrep
      obtain ⟨added, hadded, hrep⟩ := bind_eq_ok.mp hrep
      cases hrep
      have hitem : buf.sentList = [] ++ head :: rest := hlist
      have hsub := hcnt.layout.size_le_bytesOf hitem hsacked
      rw [← hcnt.sackedOut_eq] at hsub
      have hunsacked : Counted
          { buf with
            sentList := { head with sacked := false } :: rest
            sackedOut := uint32OfInt (buf.sackedOut - head.size) } := by
        refine hcnt.of_replace (.of_replace hitem rfl rfl) hitem rfl rfl (by simp) ?_ rfl rfl
        simp [hsacked, hsub]
      exact (hunsacked.addRenoSack (hclean head rest hlist hsacked) hadded).markHeadAsLost
    · exact Except.ok.inj hrep ▸ hcnt

theorem discarding {now done done' : Nat} {sent : List TxItem}
    (hdiscarding : Discarding now (buf, done) (next, done')) (hpre : buf.Counted ∧
    Left sent done buf.sentList) : next.Counted ∧ Left sent done' next.sentList := by
  obtain ⟨hcounted, hleft⟩ := hpre
  cases hdiscarding with
  | @send _ _ offset result hempty hcopied =>
    have hnext := hcounted.copied hcopied
    refine ⟨hnext, .inl ?_⟩
    cases hcopied with
    | nothing => simp [hempty]
    | retransmitted hpos hle hfinds hsacked =>
      obtain ⟨-, htotal, hne, -⟩ := hfinds.same_bytes hpos hcounted.layout.sent_nonempty
      simp only [Found.editing, hempty, totalSize_append, totalSize_cons, totalSize_nil,
        forall_mem_append, forall_mem_cons] at htotal hne
      omega
    | @transmitted s found hpos hle hseq hfinds hrtx =>
      obtain ⟨-, -, hflags⟩ := hcounted.finds_unflagged hpos hfinds
      have hitem : found.item.sacked = false :=
        congrArg Prod.fst (hflags found.item (by simp [Found.editing]))
      simpa [hempty] using hitem
  | @drop _ _ _ count hdrops =>
    refine ⟨hcounted.drops hdrops, ?_⟩
    obtain hnone | ⟨front, item, back, changed, hsent, hlist, hsacked, hpos, hdone, hle⟩ := hleft
    · left
      cases hdrops with
      | whole hlist =>
        rw [hlist, forall_mem_cons] at hnone
        exact hnone.2
      | part hlist hpos hless =>
        rw [hlist, forall_mem_cons] at hnone
        exact forall_mem_cons.mpr hnone
    · cases hdrops with
      | @whole head rest hhead =>
        obtain ⟨rfl, rfl⟩ := cons.inj (hhead.symm.trans hlist)
        cases hrest : rest with
        | nil => exact .inl (by simp)
        | cons following others =>
          have hfollowing := hcounted.layout.sent_nonempty following (by simp [hhead, hrest])
          refine .inr ⟨front ++ [item], following, others, following, ?_, rfl, rfl,
            hfollowing, ?_, Nat.le_refl _⟩
          · rw [hsent, hrest, append_assoc, singleton_append]
          · rw [totalSize_append, totalSize_cons, totalSize_nil]
            omega
      | @part head rest count hhead hcnt hless =>
        obtain ⟨rfl, rfl⟩ := cons.inj (hhead.symm.trans hlist)
        have hcut : ({ head with
            packet := head.packet.drop count
            startSeq := head.startSeq.byte count } : TxItem).size = head.size - count :=
          length_drop
        refine .inr ⟨front, item, rest, _, hsent, rfl, hsacked, ?_, ?_, ?_⟩
        · rw [hcut]
          omega
        · rw [hcut]
          omega
        · rw [hcut]
          omega

theorem discardUpTo {now : Nat} (hcnt : buf.Counted)
    (hclean : buf.clean (.discardUpTo now seq) = true)
    (hdisc : buf.discardUpTo now seq = .ok next) :
    next.Counted := by
  cases hahead : buf.firstByteSeq.ge seq with
  | true =>
    rw [TxBuffer.discardUpTo, if_pos hahead] at hdisc
    exact Except.ok.inj hdisc ▸ hcnt
  | false =>
    obtain ⟨discarded, repaired, hchain, -, hrep, rfl⟩ :=
      discardUpTo_eq_ok hcnt.layout hdisc hahead
    have hpos : 0 < buf.ackedBy (.discardUpTo now seq) := by
      refine Nat.pos_of_ne_zero fun hzero => ?_
      have hseq := SequenceNumber.byte_sub seq buf.firstByteSeq
      simp only [ackedBy, hahead, Bool.false_eq_true, if_false] at hzero
      rw [hzero, SequenceNumber.byte_zero] at hseq
      simp [SequenceNumber.ge, hseq] at hahead
    have hacked : uint32OfInt (seq.sub buf.firstByteSeq) =
        buf.ackedBy (.discardUpTo now seq) := by
      simp [ackedBy, hahead]
    rw [hacked] at hchain
    have hstart : Left buf.sentList 0 buf.sentList := by
      cases hlist : buf.sentList with
      | nil => exact .inl (by simp)
      | cons head rest =>
        have hhead := hcnt.layout.sent_nonempty head (by simp [hlist])
        exact .inr ⟨[], head, rest, head, rfl, rfl, rfl, hhead, rfl, Nat.le_refl _⟩
    obtain ⟨hleft, hrest⟩ := chain_keep
      (fun pair => pair.1.Counted ∧ Left buf.sentList pair.2 pair.1.sentList) hchain
      (fun _ _ hstep hpre => Counted.discarding hstep hpre) ⟨hcnt, hstart⟩
    refine ((hleft.atSeq seq).repairHead (fun head rest hlist hsacked => ?_) hrep).forgetSack
    have hsent : discarded.sentList = head :: rest := by
      rw [TxBuffer.atSeq] at hlist
      split at hlist <;> exact hlist
    dsimp only at hrest
    obtain hnone | ⟨front, item, back, changed, hsplit, hlist', hsame, hsome, hdone, hle⟩ := hrest
    · rw [hsent, forall_mem_cons] at hnone
      rw [hsacked] at hnone
      exact absurd hnone.1 (by simp)
    · obtain ⟨rfl, rfl⟩ := cons.inj (hsent.symm.trans hlist')
      have hsz := hcnt.layout.size_eq
      rw [hsplit, totalSize_append, totalSize_cons] at hsz
      have hheld := @holding_eq front rest item (buf.ackedBy (.discardUpTo now seq))
        (by omega) (by omega)
      have hitem : item.sacked = true := hsame ▸ hsacked
      rw [← hsplit] at hheld
      simpa [clean, hheld, hitem, Nat.ne_of_gt hpos] using hclean

end Counted

theorem Counted.call {call : TxCall} (hcnt : buf.Counted)
    (hclean : buf.clean call = true) (hcall : buf.call call = .ok next) : next.Counted := by
  cases call with
  | add p =>
    cases hcall
    exact hcnt.add p
  | copyFromSequence now numBytes seq =>
    obtain ⟨result, hcopy, hres⟩ := bind_eq_ok.mp hcall
    cases hres
    exact hcnt.copied (copied_of_copyFromSequence hcnt.layout hcopy)
  | discardUpTo now seq => exact hcnt.discardUpTo hclean hcall
  | update list =>
    obtain ⟨result, hupd, hres⟩ := bind_eq_ok.mp hcall
    cases hres
    exact hcnt.update hupd
  | addRenoSack => exact hcnt.addRenoSack hclean hcall
  | resetRenoSack => exact Except.ok.inj hcall ▸ hcnt.resetRenoSack
  | markHeadAsLost => exact Except.ok.inj hcall ▸ hcnt.markHeadAsLost
  | deleteRetransmittedFlagFromHead => exact hcnt.deleteRetransmittedFlagFromHead hcall
  | setSentListLost resetSack => exact hcnt.setSentListLost hcall
  | resetSentList => exact Except.ok.inj hcall ▸ hcnt.resetSentList
  | resetLastSegmentSent => exact Except.ok.inj hcall ▸ hcnt.resetLastSegmentSent hclean

/-- The counters are the sums over the items of both lists that carry the flag, no item is SACKed
and lost, and the bytes in flight do not wrap. -/
structure Exact (buf : TxBuffer) : Prop where
  sackedOut_eq : buf.sackedOut = bytesOf TxItem.sacked (buf.sentList ++ buf.appList)
  lostOut_eq : buf.lostOut = bytesOf TxItem.lost (buf.sentList ++ buf.appList)
  retrans_eq : buf.retrans = bytesOf TxItem.retrans (buf.sentList ++ buf.appList)
  sentSize_eq : buf.sentSize = totalSize buf.sentList
  size_eq : buf.size = totalSize (buf.sentList ++ buf.appList)
  separate : ∀ item ∈ buf.sentList ++ buf.appList, ¬(item.sacked = true ∧ item.lost = true)
  leftOut_le : buf.sackedOut + buf.lostOut ≤ buf.sentSize
  bytesInFlight_eq : buf.bytesInFlight =
    .ok (uint32 (buf.sentSize - (buf.sackedOut + buf.lostOut) + buf.retrans))

theorem bytesOf_separate {items : List TxItem}
    (hsep : ∀ item ∈ items, ¬(item.sacked = true ∧ item.lost = true)) :
    bytesOf TxItem.sacked items + bytesOf TxItem.lost items ≤ totalSize items := by
  induction items with
  | nil => simp
  | cons item rest ih =>
    obtain ⟨hitem, hrest⟩ := forall_mem_cons.mp hsep
    have hsum := ih hrest
    simp only [bytesOf_cons, totalSize_cons]
    split
    next hsacked =>
      rw [if_neg fun hlost => hitem ⟨hsacked, hlost⟩]
      omega
    · split <;> omega

theorem Counted.exact (hcnt : buf.Counted) : buf.Exact := by
  have hunflagged := hcnt.unflagged
  have hleft : buf.sackedOut + buf.lostOut ≤ buf.sentSize := by
    rw [hcnt.sackedOut_eq, hcnt.lostOut_eq, hcnt.layout.sentSize_eq]
    exact bytesOf_separate hcnt.separate
  have hword := hcnt.layout.sent_lt
  have hsent := hcnt.layout.sentSize_eq
  refine ⟨?_, ?_, ?_, hsent, ?_, ?_, hleft, ?_⟩
  · rw [bytesOf_append, bytesOf_eq_zero fun item hitem => (hunflagged item hitem).1]
    exact hcnt.sackedOut_eq
  · rw [bytesOf_append, bytesOf_eq_zero fun item hitem => (hunflagged item hitem).2.1]
    exact hcnt.lostOut_eq
  · rw [bytesOf_append, bytesOf_eq_zero fun item hitem => (hunflagged item hitem).2.2]
    exact hcnt.retrans_eq
  · rw [totalSize_append]
    exact hcnt.layout.size_eq
  · rw [forall_mem_append]
    exact ⟨hcnt.separate, fun item hitem => by simp [(hunflagged item hitem).1]⟩
  · rw [bytesInFlight, uint32_of_lt (by omega), assert_of (decide_eq_true hleft)]
    rfl

end TxBuffer

/-! ## Runs -/

section Runs

variable {isn : SequenceNumber32} {maxBuffer dupAckThresh segmentSize : Nat} {sackEnabled : Bool}

theorem create_counted (hmax : maxBuffer < 2 ^ 32) :
    (create isn maxBuffer dupAckThresh segmentSize sackEnabled).Counted where
  layout := ⟨by simp [create], trivial, rfl, rfl, Nat.zero_le _, hmax⟩
  sackedOut_eq := rfl
  lostOut_eq := rfl
  retrans_eq := rfl
  separate := by simp [create]
  unflagged := by simp [create]

/-- In whatever order the calls come, the counters are exact as long as no flagged segment is taken
back and no Reno SACK lands on a lost one. -/
theorem counters_exact (hmax : maxBuffer < 2 ^ 32) {state : TxState}
    (hst : (txMachine (.create isn maxBuffer dupAckThresh segmentSize sackEnabled)).ReachableUnder
      (fun state call => state.buffer.clean call = true) state) :
    state.buffer.Exact := by
  have hcounted : state.buffer.Counted := by
    induction hst with
    | init => exact create_counted hmax
    | step _ hclean hstep ih =>
      obtain ⟨buf, hcall, hnext⟩ := bind_eq_ok.mp hstep
      cases hnext
      exact ih.call hclean hcall
  exact hcounted.exact

theorem counters_exact_sacked :
    let isn : SequenceNumber32 := .of (2 ^ 32 - 2)
    let initial := TxBuffer.create isn 100 1 2 true
    let state := (txMachine initial).after (fun state call => state.buffer.clean call)
      [.add [1, 2, 3, 4, 5, 6], .copyFromSequence 1 2 (isn.byte 0),
        .copyFromSequence 2 2 (isn.byte 2), .copyFromSequence 3 2 (isn.byte 4),
        .update [⟨isn.byte 2, isn.byte 4⟩],
        .copyFromSequence 4 2 (isn.byte 0), .discardUpTo 5 (isn.byte 1)] (txMachine initial).init
    (state.buffer.sackedOut = 2 ∧ state.buffer.lostOut = 1 ∧ state.buffer.retrans = 1 ∧
        state.buffer.sentSize = 5) ∧
      state.buffer.Exact := by
  intro isn initial state
  have hst : (txMachine initial).ReachableUnder
      (fun state call => state.buffer.clean call = true) state :=
    Machine.ReachableUnder.after (fun _ _ hclean => hclean) _ .init
  exact ⟨by decide +kernel, counters_exact (by decide) hst⟩

/-- A segment marked lost and retransmitted is taken back with its flags: its bytes stay counted as
lost, and `BytesInFlight` fails. -/
theorem reset_last_segment_drifts :
    ¬ ∀ (isn : SequenceNumber32) (maxBuffer dupAckThresh segmentSize : Nat) (sackEnabled : Bool)
      (state : TxState),
      maxBuffer < 2 ^ 32 →
        (txMachine (.create isn maxBuffer dupAckThresh segmentSize sackEnabled)).Reachable state →
        state.buffer.Exact := by
  intro hclaim
  let isn : SequenceNumber32 := .of 1
  let initial := TxBuffer.create isn 1000 3 100 true
  let state := (txMachine initial).after (fun _ _ => true)
    [.add (List.replicate 100 0), .copyFromSequence 0 100 isn, .markHeadAsLost,
      .copyFromSequence 1 100 isn, .resetLastSegmentSent] (txMachine initial).init
  have hst : (txMachine initial).Reachable state :=
    Machine.ReachableUnder.after (fun _ _ _ => trivial) _ .init
  have hexact := hclaim isn 1000 3 100 true state (by decide) hst
  have hdrift : state.buffer.lostOut = 100 ∧ state.buffer.sentSize = 0 := by decide +kernel
  have hleft := hexact.leftOut_le
  omega

end Runs

end HomaSird.Tcp
