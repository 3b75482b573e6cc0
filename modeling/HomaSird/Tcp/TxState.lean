import HomaSird.Tcp.TxEdit

/-! # Runs of the send buffer

The calls of the buffer as a machine, next to what the application wrote and how much of
it was acknowledged. Below are the two facts that the results about runs share: what a
call of `CopyFromSequence` can do, and how the bytes lie in the two lists.
-/

namespace HomaSird.Tcp

open Transition SequenceNumber TxBuffer List

/-! ## The machine -/

inductive TxCall where
  | add (p : List UInt8)
  | copyFromSequence (now numBytes : Nat) (seq : SequenceNumber32)
  | discardUpTo (now : Nat) (seq : SequenceNumber32)
  | update (list : List SackBlock)
  | addRenoSack
  | resetRenoSack
  | markHeadAsLost
  | deleteRetransmittedFlagFromHead
  | setSentListLost (resetSack : Bool)
  | resetSentList
  | resetLastSegmentSent
deriving DecidableEq

namespace TxBuffer

def call (buf : TxBuffer) : TxCall → Except Fault TxBuffer
  | .add p => .ok (buf.add p).2
  | .copyFromSequence now numBytes seq => do
    let result ← buf.copyFromSequence now numBytes seq
    return result.2
  | .discardUpTo now seq => buf.discardUpTo now seq
  | .update list => do
    let result ← buf.update list
    return result.2
  | .addRenoSack => buf.addRenoSack
  | .resetRenoSack => .ok buf.resetRenoSack
  | .markHeadAsLost => .ok buf.markHeadAsLost
  | .deleteRetransmittedFlagFromHead => buf.deleteRetransmittedFlagFromHead
  | .setSentListLost resetSack => buf.setSentListLost resetSack
  | .resetSentList => .ok buf.resetSentList
  | .resetLastSegmentSent => .ok buf.resetLastSegmentSent

def ackedBy (buf : TxBuffer) : TxCall → Nat
  | .discardUpTo _ seq =>
    if buf.firstByteSeq.ge seq then 0 else uint32OfInt (seq.sub buf.firstByteSeq)
  | _ => 0

def writtenBy (buf : TxBuffer) : TxCall → List UInt8
  | .add p => if (buf.add p).1 then p else []
  | _ => []

end TxBuffer

/-- A buffer, what the application wrote, how many bytes were acknowledged, and how many numbers
beyond it (those of a FIN). -/
structure TxState where
  buffer : TxBuffer
  written : List UInt8
  acked : Nat
  beyond : Nat
deriving DecidableEq

def TxState.step (state : TxState) (call : TxCall) : Except Fault TxState := do
  let buf ← state.buffer.call call
  return {
    buffer := buf
    written := state.written ++ state.buffer.writtenBy call
    acked := state.acked + min (state.buffer.ackedBy call) state.buffer.size
    beyond := state.beyond + (state.buffer.ackedBy call - state.buffer.size) }

def txMachine (initial : TxBuffer) : Machine TxState TxCall Fault where
  init := ⟨initial, [], 0, 0⟩
  step := TxState.step

/-! ## How the bytes lie -/

namespace TxBuffer

/-- The sent list starts at the head and the counts of bytes are those of the lists. -/
structure Layout (buf : TxBuffer) : Prop where
  nonempty : ∀ item ∈ buf.sentList ++ buf.appList, 0 < item.size
  contiguous : Contiguous buf.firstByteSeq buf.sentList
  sentSize_eq : buf.sentSize = totalSize buf.sentList
  size_eq : buf.size = totalSize buf.sentList + totalSize buf.appList
  size_le : buf.size ≤ buf.maxBuffer
  maxBuffer_lt : buf.maxBuffer < 2 ^ 32

def unacked (buf : TxBuffer) : List UInt8 := content (buf.sentList ++ buf.appList)

namespace Layout

variable {buf : TxBuffer}

section

variable (hlay : buf.Layout)
include hlay

theorem sent_nonempty : ∀ item ∈ buf.sentList, 0 < item.size :=
  fun item hitem => hlay.nonempty item (mem_append_left _ hitem)

theorem app_nonempty : ∀ item ∈ buf.appList, 0 < item.size :=
  fun item hitem => hlay.nonempty item (mem_append_right _ hitem)

theorem sent_lt : totalSize buf.sentList < 2 ^ 32 := by
  have := hlay.size_eq
  have := hlay.size_le
  have := hlay.maxBuffer_lt
  omega

theorem app_lt : totalSize buf.appList < 2 ^ 32 := by
  have := hlay.size_eq
  have := hlay.size_le
  have := hlay.maxBuffer_lt
  omega

theorem unacked_length : buf.unacked.length = buf.size := by
  rw [unacked, content_length, totalSize_append, hlay.size_eq]

end

end Layout

/-! ## What a copy can do -/

theorem mergeLimit_le (s : Nat)
    (seq : SequenceNumber32) (list : List TxItem) : mergeLimit s seq list ≤ s := by
  induction list with
  | nil => exact Nat.le_refl s
  | cons item rest ih =>
    rw [mergeLimit.eq_def]
    dsimp only
    split
    · cases rest with
      | nil => exact Nat.min_le_left _ _
      | cons next others =>
        dsimp only
        split <;> exact Nat.min_le_left _ _
    · exact ih

theorem mergeLimit_pos {s : Nat} {seq : SequenceNumber32}
    {list : List TxItem} (hpos : 0 < s) (hne : ∀ item ∈ list, 0 < item.size)
    (hword : totalSize list < 2 ^ 32) : 0 < mergeLimit s seq list := by
  induction list with
  | nil => exact hpos
  | cons item rest ih =>
    obtain ⟨hitem, hrest⟩ := forall_mem_cons.mp hne
    rw [totalSize_cons] at hword
    rw [mergeLimit.eq_def]
    dsimp only
    split
    · cases rest with
      | nil => exact Nat.lt_min.mpr ⟨hpos, hitem⟩
      | cons next others =>
        rw [totalSize_cons] at hword
        dsimp only
        rw [uint32_of_lt (by omega)]
        split
        · exact Nat.lt_min.mpr ⟨hpos, by omega⟩
        · exact Nat.lt_min.mpr ⟨hpos, hitem⟩
    · exact ih hrest (by omega)

/-- What a call of `CopyFromSequence` that returns has done. -/
inductive Copied (buf : TxBuffer) (now numBytes : Nat) (seq : SequenceNumber32) :
    Option TxItem × TxBuffer → Prop
  | nothing : Copied buf now numBytes seq (none, buf)
  | retransmitted {s : Nat} {found : Found} (hpos : 0 < s) (hle : s ≤ numBytes)
      (hfinds : Finds s seq buf.firstByteSeq
        ⟨buf.sentList, buf.retrans, buf.nextNode⟩ found)
      (hsacked : found.item.sacked = false) :
      Copied buf now numBytes seq
        (some { found.item with retrans := true, lastSent := now },
          { buf with
            sentList :=
              found.front ++ { found.item with retrans := true, lastSent := now } :: found.back
            retrans :=
              if found.item.retrans then found.retrans
              else uint32 (found.retrans + found.item.size)
            nextNode := found.nextNode })
  | transmitted {s : Nat} {found : Found} (hpos : 0 < s) (hle : s ≤ numBytes)
      (hseq : seq = buf.sentEnd)
      (hfinds : Finds s seq seq ⟨buf.appList, buf.retrans, buf.nextNode⟩ found)
      (hretrans : found.item.retrans = false) :
      Copied buf now numBytes seq
        (some { found.item with node := found.nextNode, startSeq := seq, lastSent := now },
          { buf with
            appList := found.front ++ found.back
            sentList := buf.sentList ++
              [{ found.item with node := found.nextNode, startSeq := seq, lastSent := now }]
            sentSize := uint32 (buf.sentSize + found.item.size)
            retrans := found.retrans
            nextNode := found.nextNode + 1 })

theorem handOut_eq_ok {now : Nat} {found : Found} {buf : TxBuffer}
    {result : Option TxItem × TxBuffer} (hout : handOut now found buf = .ok result) :
    result = (some { found.item with lastSent := now },
      { buf with
        sentList := found.front ++ { found.item with lastSent := now } :: found.back
        retrans := found.retrans
        nextNode := found.nextNode }) := by
  obtain ⟨-, -, hout⟩ := bind_eq_ok.mp hout
  exact (Except.ok.inj hout).symm

theorem getTransmittedSegment_eq_ok {buf : TxBuffer} {s : Nat} {seq : SequenceNumber32}
    {result : Found × TxBuffer} (hget : buf.getTransmittedSegment s seq = .ok result) :
    ∃ found, Finds (mergeLimit s seq buf.sentList) seq buf.firstByteSeq
        ⟨buf.sentList, buf.retrans, buf.nextNode⟩ found ∧
      result = ({ found with
        retrans :=
          if found.item.retrans then found.retrans else uint32 (found.retrans + found.item.size)
        item := { found.item with retrans := true } }, buf) := by
  obtain ⟨-, -, hget⟩ := bind_eq_ok.mp hget
  obtain ⟨-, -, hget⟩ := bind_eq_ok.mp hget
  obtain ⟨-, -, hget⟩ := bind_eq_ok.mp hget
  obtain ⟨found, hfound, hget⟩ := bind_eq_ok.mp hget
  refine ⟨found, finds_of_getPacketFromList hfound, ?_⟩
  rw [← Except.ok.inj hget]
  obtain ⟨front, item, back, retrans, nextNode⟩ := found
  cases hrtx : item.retrans with
  | true =>
    obtain ⟨_, _, _, _, _, _, _⟩ := item
    cases hrtx
    rfl
  | false => simp only [Bool.false_eq_true, if_false]

theorem getNewSegment_eq_ok {buf : TxBuffer} {s : Nat} {result : Found × TxBuffer}
    (hget : buf.getNewSegment s = .ok result) :
    ∃ found, Finds s buf.sentEnd buf.sentEnd
        ⟨buf.appList, buf.retrans, buf.nextNode⟩ found ∧
      result = (⟨buf.sentList,
          { found.item with node := found.nextNode, startSeq := buf.sentEnd }, [],
          found.retrans, found.nextNode + 1⟩,
        { buf with
          appList := found.front ++ found.back
          sentSize := uint32 (buf.sentSize + found.item.size) }) := by
  obtain ⟨found, hfound, hget⟩ := bind_eq_ok.mp hget
  exact ⟨found, finds_of_getPacketFromList hfound, (Except.ok.inj hget).symm⟩

theorem Copied.mono {buf : TxBuffer} {now fewer numBytes : Nat} {seq : SequenceNumber32}
    {result : Option TxItem × TxBuffer} (hcopied : Copied buf now fewer seq result)
    (hle : fewer ≤ numBytes) : Copied buf now numBytes seq result := by
  cases hcopied with
  | nothing => exact .nothing
  | retransmitted hpos hfewer hfinds hsacked =>
    exact .retransmitted hpos (Nat.le_trans hfewer hle) hfinds hsacked
  | transmitted hpos hfewer hseq hfinds hrtx =>
    exact .transmitted hpos (Nat.le_trans hfewer hle) hseq hfinds hrtx

section

variable {buf : TxBuffer} {now numBytes : Nat} {seq : SequenceNumber32}
  {result : Option TxItem × TxBuffer} (hlay : buf.Layout)
include hlay

theorem copied_of_copyLoop {fuel : Nat} (hcopy : copyLoop now fuel buf numBytes seq = .ok result)
    : Copied buf now numBytes seq result := by
  induction fuel generalizing numBytes with
  | zero => cases hcopy
  | succ fuel ih =>
    rw [copyLoop] at hcopy
    split at hcopy
    · cases hcopy
    · have hle : min numBytes (buf.sizeFromSequence seq) ≤ numBytes := Nat.min_le_left _ _
      generalize min numBytes (buf.sizeFromSequence seq) = s at hcopy hle
      dsimp only at hcopy
      split at hcopy
      · cases hcopy
        exact .nothing
      next hs =>
        have hpos : 0 < s := Nat.pos_of_ne_zero hs
        split at hcopy
        · obtain ⟨segment, hseg, hcopy⟩ := bind_eq_ok.mp hcopy
          obtain ⟨_, hsacked, hcopy⟩ := bind_eq_ok.mp hcopy
          obtain ⟨found, hfinds, rfl⟩ := getTransmittedSegment_eq_ok hseg
          have hlim :=
            @mergeLimit_pos s seq buf.sentList hpos hlay.sent_nonempty hlay.sent_lt
          rw [handOut_eq_ok hcopy]
          exact @Copied.retransmitted buf now numBytes seq _ found hlim
            (Nat.le_trans (mergeLimit_le s seq _) hle) hfinds
            (by simpa using assert_eq_ok.mp hsacked)
        · split at hcopy
          · split at hcopy
            · cases hcopy
            next hseq =>
              rw [ne_eq, not_not] at hseq
              obtain ⟨segment, hseg, hcopy⟩ := bind_eq_ok.mp hcopy
              obtain ⟨_, hrtx, hcopy⟩ := bind_eq_ok.mp hcopy
              obtain ⟨found, hfinds, rfl⟩ := getNewSegment_eq_ok hseg
              rw [handOut_eq_ok hcopy]
              subst hseq
              exact @Copied.transmitted buf now numBytes _ s found hpos hle rfl hfinds
                (by simpa using assert_eq_ok.mp hrtx)
          · split at hcopy
            -- raw 32-bit comparison of the source: it asks again for a part of the bytes
            next hraw =>
              have hend : uint32 (seq.value.toNat + s) ≤ seq.value.toNat + s := Nat.mod_le _ _
              exact (ih hcopy).mono (by omega)
            · cases hcopy

theorem copied_of_copyFromSequence (hcopy : buf.copyFromSequence now numBytes seq = .ok result) :
    Copied buf now numBytes seq result :=
  copied_of_copyLoop hlay hcopy

end

end TxBuffer

/-! ## Calls that only change flags -/

def TxItem.plain (item : TxItem) : TxItem :=
  { item with lost := false, retrans := false, sacked := false, lastSent := 0 }

theorem totalSize_plain (items : List TxItem) :
    totalSize (items.map TxItem.plain) = totalSize items := by
  induction items with
  | nil => rfl
  | cons item rest ih => simp only [map_cons, totalSize_cons, ih]; rfl

theorem content_plain (items : List TxItem) : content (items.map TxItem.plain) = content items := by
  induction items with
  | nil => rfl
  | cons item rest ih => simp only [map_cons, content_cons, ih]; rfl

theorem contiguous_plain {begin : SequenceNumber32}
    {items : List TxItem} : Contiguous begin (items.map TxItem.plain) ↔ Contiguous begin items := by
  induction items generalizing begin with
  | nil => exact Iff.rfl
  | cons item rest ih => exact and_congr Iff.rfl ih

theorem forall_plain {holds : Nat → Prop} {items : List TxItem} :
    (∀ item ∈ items.map TxItem.plain, holds item.size) ↔ ∀ item ∈ items, holds item.size :=
  forall_mem_map

namespace TxBuffer

/-- Two buffers that differ only in flags, their counts and the highest SACKed item. -/
structure Reflagged (buf next : TxBuffer) : Prop where
  plain : next.sentList.map TxItem.plain = buf.sentList.map TxItem.plain
  appList : next.appList = buf.appList
  size : next.size = buf.size
  sentSize : next.sentSize = buf.sentSize
  maxBuffer : next.maxBuffer = buf.maxBuffer
  firstByteSeq : next.firstByteSeq = buf.firstByteSeq

namespace Reflagged

variable {buf middle next : TxBuffer}

theorem refl (buf : TxBuffer) : Reflagged buf buf := ⟨rfl, rfl, rfl, rfl, rfl, rfl⟩

theorem trans (hfst : Reflagged buf middle) (hsnd : Reflagged middle next) :
    Reflagged buf next where
  plain := hsnd.plain.trans hfst.plain
  appList := hsnd.appList.trans hfst.appList
  size := hsnd.size.trans hfst.size
  sentSize := hsnd.sentSize.trans hfst.sentSize
  maxBuffer := hsnd.maxBuffer.trans hfst.maxBuffer
  firstByteSeq := hsnd.firstByteSeq.trans hfst.firstByteSeq

theorem totalSize_eq (hflags : Reflagged buf next) :
    totalSize next.sentList = totalSize buf.sentList := by
  rw [← totalSize_plain, hflags.plain, totalSize_plain]

theorem unacked_eq (hflags : Reflagged buf next) : next.unacked = buf.unacked := by
  rw [unacked, unacked, content_append, content_append, hflags.appList, ← content_plain,
    hflags.plain, content_plain]

theorem layout (hflags : Reflagged buf next) (hlay : buf.Layout) : next.Layout where
  nonempty := by
    have hsent := forall_plain.mpr hlay.sent_nonempty
    rw [← hflags.plain] at hsent
    rw [forall_mem_append, hflags.appList]
    exact ⟨forall_plain.mp hsent, hlay.app_nonempty⟩
  contiguous := by
    rw [hflags.firstByteSeq, ← contiguous_plain, hflags.plain, contiguous_plain]
    exact hlay.contiguous
  sentSize_eq := by rw [hflags.sentSize, hlay.sentSize_eq, hflags.totalSize_eq]
  size_eq := by rw [hflags.size, hlay.size_eq, hflags.totalSize_eq, hflags.appList]
  size_le := by rw [hflags.size, hflags.maxBuffer]; exact hlay.size_le
  maxBuffer_lt := hflags.maxBuffer ▸ hlay.maxBuffer_lt

end Reflagged

/-- One item that the loop of `Update` SACKs, with the bytes SACKed so far. -/
inductive Sacks : TxBuffer × Nat → TxBuffer × Nat → Prop
  | sack {buf : TxBuffer} {bytesSacked : Nat} {front back : List TxItem} {item : TxItem}
      (hlist : buf.sentList = front ++ item :: back) (hsacked : item.sacked = false) :
      Sacks (buf, bytesSacked)
        ({ buf with
            sentList := front ++ { item with lost := false, sacked := true } :: back
            lostOut :=
              if item.lost then uint32OfInt (buf.lostOut - item.size) else buf.lostOut
            sackedOut := uint32 (buf.sackedOut + item.size)
            highestSack :=
              if buf.highestSack.1 = .atEnd ||
                  buf.highestSack.2.le
                    (buf.firstByteSeq.byte (totalSize front) + .of item.size) then
                (.node item.node, buf.firstByteSeq.byte (totalSize front))
              else buf.highestSack },
          uint32 (bytesSacked + item.size))

/-- The buffer with what the loop of `Update` keeps in hand written back. -/
def writeBack (buf : TxBuffer) (list : List TxItem) (sacking : Sacking) : TxBuffer :=
  { buf with
    sentList := list
    lostOut := sacking.lostOut
    sackedOut := sacking.sackedOut
    highestSack := sacking.highestSack }

variable {buf : TxBuffer}

theorem sacks_of_sackBlock {block : SackBlock} {front list : List TxItem} {sacking : Sacking}
    {result : List TxItem × Sacking}
    (hsack : sackBlock block (buf.firstByteSeq.byte (totalSize front)) list sacking = .ok result) :
    Relation.ReflTransGen Sacks (buf.writeBack (front ++ list) sacking, sacking.bytesSacked)
      (buf.writeBack (front ++ result.1) result.2, result.2.bytesSacked) := by
  induction list generalizing front sacking result with
  | nil =>
    cases hsack
    exact .refl
  | cons item rest ih =>
    have hbehind : ∀ {changed : TxItem} {left : Sacking} {walked : List TxItem × Sacking},
        changed.size = item.size →
        sackBlock block (buf.firstByteSeq.byte (totalSize front) + .of item.size) rest left =
          .ok walked →
        Relation.ReflTransGen Sacks
          (buf.writeBack (front ++ changed :: rest) left, left.bytesSacked)
          (buf.writeBack (front ++ changed :: walked.1) walked.2, walked.2.bytesSacked) := by
      intro changed left walked hsz hwalked
      rw [byte_add] at hwalked
      have hrest := @ih (front ++ [changed]) left walked (by simpa [hsz] using hwalked)
      simpa using hrest
    rw [sackBlock] at hsack
    split at hsack
    · split at hsack
      · obtain ⟨_, -, hsack⟩ := bind_eq_ok.mp hsack
        obtain ⟨walked, hwalked, hsack⟩ := bind_eq_ok.mp hsack
        cases hsack
        exact hbehind rfl hwalked
      next hsacked =>
        obtain ⟨walked, hwalked, hsack⟩ := bind_eq_ok.mp hsack
        cases hsack
        have hrest := @hbehind { item with lost := false, sacked := true } _ walked rfl hwalked
        have hstep := @Sacks.sack (buf.writeBack (front ++ item :: rest) sacking)
          sacking.bytesSacked front rest item rfl (eq_false_of_ne_true hsacked)
        exact .head hstep hrest
    · split at hsack
      · cases hsack
        exact .refl
      · obtain ⟨walked, hwalked, hsack⟩ := bind_eq_ok.mp hsack
        cases hsack
        exact hbehind rfl hwalked

variable {list : List SackBlock}

theorem sacks_of_sackBlocks {bytesSacked : Nat}
    {result : Bool × Nat × TxBuffer} (hsack : sackBlocks list bytesSacked buf = .ok result) :
    Relation.ReflTransGen Sacks (buf, bytesSacked) (result.2.2, result.2.1) := by
  induction list generalizing bytesSacked buf with
  | nil =>
    cases hsack
    exact .refl
  | cons block rest ih =>
    rw [sackBlocks] at hsack
    split at hsack
    · cases hsack
      exact .refl
    · obtain ⟨walked, hwalked, hsack⟩ := bind_eq_ok.mp hsack
      have hblock := @sacks_of_sackBlock buf block [] _ _ _
        (by rwa [totalSize_nil, byte_zero])
      exact hblock.trans (ih hsack)

/-- One item that `UpdateLostCount` marks. -/
inductive Loses : TxBuffer → TxBuffer → Prop
  | lose {buf : TxBuffer} {front back : List TxItem} {item : TxItem}
      (hlist : buf.sentList = front ++ item :: back) (hsacked : item.sacked = false)
      (hlost : item.lost = false) :
      Loses buf
        { buf with
          sentList := front ++ { item with lost := true } :: back
          lostOut := uint32 (buf.lostOut + item.size) }

theorem splitAtNode_eq {node : Nat} {list : List TxItem}
    {parts : List TxItem × List TxItem} (hparts : splitAtNode node list = some parts) :
    ∃ front item, parts.1 = front ++ [item] ∧ item.node = node ∧ list = parts.1 ++ parts.2 := by
  induction list generalizing parts with
  | nil => cases hparts
  | cons item rest ih =>
    rw [splitAtNode] at hparts
    split at hparts
    next hnode =>
      cases hparts
      exact ⟨[], item, rfl, hnode, rfl⟩
    · obtain ⟨inner, hinner, rfl⟩ := Option.map_eq_some_iff.mp hparts
      obtain ⟨front, last, hfront, hnode, hlist⟩ := ih hinner
      exact ⟨item :: front, last, by simp [hfront], hnode, by simp [hlist]⟩

theorem loses_of_markLost {dupAckThresh lostOut : Nat}
    {front items back : List TxItem} : Relation.ReflTransGen Loses
      { buf with sentList := front ++ items ++ back, lostOut := lostOut }
      { buf with
        sentList := front ++ (items.foldr (markLost dupAckThresh) (0, [], lostOut)).2.1 ++ back
        lostOut := (items.foldr (markLost dupAckThresh) (0, [], lostOut)).2.2 } := by
  induction items generalizing front with
  | nil => exact .refl
  | cons item rest ih =>
    have hrest := @ih (front ++ [item])
    rw [foldr_cons, markLost]
    generalize rest.foldr (markLost dupAckThresh) (0, [], lostOut) = walked at hrest
    simp only [append_assoc, cons_append, nil_append] at hrest ⊢
    by_cases hmark : dupAckThresh ≤ walked.1 + (if item.sacked then 1 else 0) ∧
        item.sacked = false ∧ item.lost = false
    · rw [if_pos hmark]
      exact hrest.tail (@Loses.lose { buf with
        sentList := front ++ item :: (walked.2.1 ++ back), lostOut := walked.2.2 }
        front (walked.2.1 ++ back) item rfl hmark.2.1 hmark.2.2)
    · rw [if_neg hmark]
      exact hrest

theorem loses_of_updateLostCount {buf next : TxBuffer}
    (hhead : ∀ head, next.sentList.head? = some head → head.sacked = false)
    (hupd : buf.updateLostCount = .ok next) : Relation.ReflTransGen Loses buf next := by
  rw [updateLostCount] at hupd
  split at hupd
  next node head rest _ hlist =>
    split at hupd
    · cases hupd
    next upTo behind hparts =>
      cases hupd
      obtain ⟨front, item, hfront, -, hsplit⟩ := splitAtNode_eq hparts
      have hsacked := hhead _ rfl
      change head.sacked = false at hsacked
      have hupTo : upTo = head :: upTo.tail := by
        cases front with
        | nil => simp_all
        | cons first others => simp_all
      have hbuf : { buf with
          sentList := [head] ++ upTo.tail ++ behind, lostOut := buf.lostOut } = buf := by
        rw [hupTo] at hsplit
        rw [singleton_append, ← hsplit, ← hlist]
      have hloop := @loses_of_markLost buf buf.dupAckThresh buf.lostOut [head]
        upTo.tail behind
      rw [hbuf] at hloop
      generalize upTo.tail.foldr (markLost buf.dupAckThresh) (0, [], buf.lostOut) = walked
        at hloop ⊢
      by_cases hmark : buf.dupAckThresh ≤ walked.1
      · rw [if_pos hmark]
        cases hlost : head.lost with
        | false =>
          rw [if_pos ⟨hmark, rfl⟩]
          exact hloop.tail (@Loses.lose { buf with
            sentList := [head] ++ walked.2.1 ++ behind, lostOut := walked.2.2 }
            [] (walked.2.1 ++ behind) head rfl hsacked hlost)
        | true =>
          have hsame : ({ head with lost := true } : TxItem) = head := by rw [← hlost]
          rw [if_neg (by simp), hsame]
          exact hloop
      · rw [if_neg hmark, if_neg (fun hboth => hmark hboth.1)]
        exact hloop
  · cases hupd

theorem update_eq_ok {result : Nat × TxBuffer} (hupd : buf.update list = .ok result) :
    ∃ middle,
      Relation.ReflTransGen Sacks (buf, 0) (middle, result.1) ∧
        Relation.ReflTransGen Loses middle result.2 := by
  obtain ⟨⟨ranToEnd, bytesSacked, middle⟩, hsack, hupd⟩ := bind_eq_ok.mp hupd
  have hsacks := sacks_of_sackBlocks hsack
  dsimp only at hupd hsacks
  split at hupd
  · cases hupd
    exact ⟨middle, hsacks, .refl⟩
  · obtain ⟨next, hnext, hupd⟩ := bind_eq_ok.mp hupd
    split at hupd
    · cases hupd
    next head rest hlist =>
      obtain ⟨_, hhead, hupd⟩ := bind_eq_ok.mp hupd
      obtain ⟨_, -, hupd⟩ := bind_eq_ok.mp hupd
      cases hupd
      refine ⟨middle, hsacks, ?_⟩
      split at hnext
      · obtain ⟨_, -, hnext⟩ := bind_eq_ok.mp hnext
        refine loses_of_updateLostCount (fun item hitem => ?_) hnext
        rw [hlist, head?_cons, Option.some.injEq] at hitem
        simpa [hitem] using assert_eq_ok.mp hhead
      · cases hnext
        exact .refl

theorem sackFirst_eq {list others : List TxItem} {item : TxItem}
    (hsack : sackFirst list = some (item, others)) :
    ∃ front back, list = front ++ item :: back ∧ (∀ other ∈ front, other.sacked = true) ∧
      item.sacked = false ∧ others = front ++ { item with sacked := true } :: back := by
  induction list generalizing others with
  | nil => cases hsack
  | cons first rest ih =>
    rw [sackFirst] at hsack
    split at hsack
    next hfst =>
      obtain ⟨inner, hinner, hres⟩ := Option.map_eq_some_iff.mp hsack
      obtain ⟨rfl, rfl⟩ := Prod.ext_iff.mp hres
      obtain ⟨front, back, hrest, hfront, hitem, hothers⟩ := ih hinner
      exact ⟨first :: front, back, by rw [hrest]; rfl,
        forall_mem_cons.mpr ⟨hfst, hfront⟩, hitem, by rw [hothers]; rfl⟩
    next hfst =>
      obtain ⟨rfl, rfl⟩ := Prod.ext_iff.mp (Option.some.inj hsack)
      exact ⟨[], rest, rfl, by simp, eq_false_of_ne_true hfst, rfl⟩

theorem Reflagged.of_replace {buf next : TxBuffer} {front back : List TxItem}
    {item changed : TxItem} (hlist : buf.sentList = front ++ item :: back)
    (hnext : next = { buf with
      sentList := front ++ changed :: back
      lostOut := next.lostOut
      sackedOut := next.sackedOut
      retrans := next.retrans
      highestSack := next.highestSack
      renoSack := next.renoSack })
    (hplain : changed.plain = item.plain) : Reflagged buf next := by
  rw [hnext]
  exact ⟨by simp [hlist, hplain], rfl, rfl, rfl, rfl, rfl⟩

theorem Sacks.reflagged {before after : TxBuffer × Nat}
    (hsack : Sacks before after) : Reflagged before.1 after.1 := by
  cases hsack with
  | sack hlist hsacked => exact .of_replace hlist rfl rfl

theorem Loses.reflagged {before after : TxBuffer}
    (hlose : Loses before after) : Reflagged before after := by
  cases hlose with
  | lose hlist hsacked hlost => exact .of_replace hlist rfl rfl

theorem update_reflagged {result : Nat × TxBuffer}
    (hupd : buf.update list = .ok result) : Reflagged buf result.2 := by
  obtain ⟨middle, hsacks, hloses⟩ := update_eq_ok hupd
  have hmiddle := chain_keep (fun pair => Reflagged buf pair.1) hsacks
    (fun _ _ hsack hpre => hpre.trans hsack.reflagged) (.refl buf)
  exact chain_keep (Reflagged buf) hloses
    (fun _ _ hlose hpre => hpre.trans hlose.reflagged) hmiddle

theorem addRenoSack_reflagged {buf next : TxBuffer}
    (hadd : buf.addRenoSack = .ok next) : Reflagged buf next := by
  obtain ⟨_, -, hadd⟩ := bind_eq_ok.mp hadd
  dsimp only at hadd
  split at hadd
  · cases hadd
  next head rest hlist =>
    split at hadd
    · cases hadd
      exact ⟨rfl, rfl, rfl, rfl, rfl, rfl⟩
    next item others hsack =>
      cases hadd
      obtain ⟨front, back, hrest, -, -, rfl⟩ := sackFirst_eq hsack
      exact @Reflagged.of_replace _ _ (head :: front) back item _
        (by rw [hlist, hrest]; rfl) rfl rfl

theorem markHeadAsLost_reflagged (buf : TxBuffer) : Reflagged buf buf.markHeadAsLost := by
  rw [markHeadAsLost]
  split
  · exact .refl buf
  next head rest hlist => exact @Reflagged.of_replace _ _ [] rest head _ hlist rfl rfl

theorem deleteRetransmittedFlagFromHead_reflagged {buf next : TxBuffer}
    (hdelete : buf.deleteRetransmittedFlagFromHead = .ok next) : Reflagged buf next := by
  rw [deleteRetransmittedFlagFromHead] at hdelete
  split at hdelete
  · cases hdelete
    exact .refl buf
  · split at hdelete
    · cases hdelete
    next head rest hlist =>
      split at hdelete <;> cases hdelete
      · exact @Reflagged.of_replace _ _ [] rest head _ hlist rfl rfl
      · exact .refl buf

theorem resetRenoSack_reflagged (buf : TxBuffer) : Reflagged buf buf.resetRenoSack :=
  ⟨by simp [resetRenoSack, TxItem.plain], rfl, rfl, rfl, rfl, rfl⟩

theorem loseUnsacked_plain (items : List TxItem)
    (lostOut : Nat) : (loseUnsacked items lostOut).1.map TxItem.plain = items.map TxItem.plain := by
  induction items generalizing lostOut with
  | nil => rfl
  | cons item rest ih =>
    rw [loseUnsacked]
    split
    · exact congrArg (cons item.plain) (ih _)
    · split <;> exact congrArg (cons item.plain) (ih _)

theorem setSentListLost_reflagged {buf next : TxBuffer} {resetSack : Bool}
    (hset : buf.setSentListLost resetSack = .ok next) : Reflagged buf next := by
  obtain ⟨_, -, hset⟩ := bind_eq_ok.mp hset
  cases hset
  cases resetSack with
  | true => exact ⟨by simp [TxItem.plain], rfl, rfl, rfl, rfl, rfl⟩
  | false => exact ⟨loseUnsacked_plain _ _, rfl, rfl, rfl, rfl, rfl⟩

/-! ## Calls that keep the bytes -/

/-- The buffer still holds the same bytes from the same head on. -/
structure Keeps (buf next : TxBuffer) : Prop where
  layout : next.Layout
  unacked_eq : next.unacked = buf.unacked
  firstByteSeq_eq : next.firstByteSeq = buf.firstByteSeq

variable {buf next : TxBuffer}

theorem Reflagged.keeps (hflags : Reflagged buf next)
    (hlay : buf.Layout) : Keeps buf next :=
  ⟨hflags.layout hlay, hflags.unacked_eq, hflags.firstByteSeq⟩

variable {seq : SequenceNumber32}

theorem front_eq_nil {s : Nat} {list : List TxItem} {retrans nextNode : Nat}
    {found : Found} (hpos : 0 < s) (hfinds : Finds s seq seq ⟨list, retrans, nextNode⟩ found)
    (hne : ∀ item ∈ list, 0 < item.size) (hword : totalSize list < 2 ^ 32) : found.front = [] := by
  obtain ⟨-, htotal, hkept, -⟩ := hfinds.same_bytes hpos hne
  simp only [Found.editing, totalSize_append] at htotal
  have hposition := hfinds.position
  rw [← byte_zero seq, byte_byte, byte_inj_of_lt (by omega) (by omega)] at hposition
  cases hfront : found.front with
  | nil => rfl
  | cons first rest =>
    have hfst := hkept first (by simp [Found.editing, hfront])
    rw [hfront, totalSize_cons] at hposition
    omega

theorem Copied.keeps {now numBytes : Nat} {result : Option TxItem × TxBuffer} (hcopied :
    Copied buf now numBytes seq result) (hlay : buf.Layout) : Keeps buf result.2 := by
  cases hcopied with
  | nothing => exact ⟨hlay, rfl, rfl⟩
  | @retransmitted s found hpos hle hfinds hsacked =>
    obtain ⟨hcont, htotal, hne, hcontig⟩ := hfinds.same_bytes hpos hlay.sent_nonempty
    have hplain : (found.front ++
        { found.item with retrans := true, lastSent := now } :: found.back).map TxItem.plain =
        found.editing.list.map TxItem.plain := by
      simp [Found.editing, TxItem.plain]
    have hhead := hcontig _ hlay.contiguous
    rw [← forall_plain, ← hplain, forall_plain] at hne
    rw [← contiguous_plain, ← hplain, contiguous_plain] at hhead
    rw [← totalSize_plain, ← hplain, totalSize_plain] at htotal
    rw [← content_plain, ← hplain, content_plain] at hcont
    refine ⟨⟨?_, hhead, ?_, ?_, hlay.size_le, hlay.maxBuffer_lt⟩, ?_, rfl⟩
    · exact forall_mem_append.mpr ⟨hne, hlay.app_nonempty⟩
    · exact hlay.sentSize_eq.trans htotal.symm
    · exact hlay.size_eq.trans (congrArg (· + _) htotal.symm)
    · exact (content_append _ _).trans
        ((congrArg (· ++ _) hcont).trans (content_append _ _).symm)
  | @transmitted s found hpos hle hseq hfinds hrtx =>
    have hfront := front_eq_nil hpos hfinds hlay.app_nonempty hlay.app_lt
    obtain ⟨hcont, htotal, hne, -⟩ := hfinds.same_bytes hpos hlay.app_nonempty
    have hsz := hlay.size_eq
    have hle := hlay.size_le
    have hlt := hlay.maxBuffer_lt
    simp only [Found.editing, hfront, nil_append, content_cons, totalSize_cons,
      forall_mem_cons] at hcont htotal hne
    refine ⟨⟨?_, ?_, ?_, ?_, hle, hlt⟩, ?_, rfl⟩
    · simp only [hfront, nil_append, forall_mem_append, forall_mem_singleton]
      exact ⟨⟨hlay.sent_nonempty, hne.1⟩, hne.2⟩
    · refine contiguous_append.mpr ⟨hlay.contiguous, ?_, trivial⟩
      rw [hseq, sentEnd, hlay.sentSize_eq]
      rfl
    · simp only [totalSize_append, totalSize_cons, totalSize_nil]
      rw [hlay.sentSize_eq, uint32_of_lt (by omega)]
      rfl
    · simp only [hfront, nil_append, totalSize_append, totalSize_cons, totalSize_nil]
      change buf.size =
        totalSize buf.sentList + (found.item.size + 0) + totalSize found.back
      omega
    · simp only [unacked, hfront, nil_append, content_append, content_cons, content_nil,
        append_nil, append_assoc, hcont]

theorem resetSentList_keeps (hlay : buf.Layout) : Keeps buf buf.resetSentList := by
  have hplain : (buf.sentList.map fun item =>
      { item with retrans := false, sacked := false, lost := false }).map TxItem.plain =
      buf.sentList.map TxItem.plain := by
    simp [TxItem.plain]
  have hne := forall_plain.mpr hlay.sent_nonempty
  rw [← hplain, forall_plain] at hne
  refine ⟨⟨?_, trivial, rfl, ?_, hlay.size_le, hlay.maxBuffer_lt⟩, ?_, rfl⟩
  · simp only [resetSentList, nil_append]
    exact forall_mem_append.mpr ⟨hne, hlay.app_nonempty⟩
  · simp only [resetSentList, totalSize_nil, totalSize_append, Nat.zero_add]
    rw [← totalSize_plain, hplain, totalSize_plain]
    exact hlay.size_eq
  · simp only [unacked, resetSentList, nil_append, content_append]
    rw [← content_plain, hplain, content_plain]

theorem resetLastSegmentSent_keeps (hlay : buf.Layout) :
    Keeps buf buf.resetLastSegmentSent := by
  rw [resetLastSegmentSent]
  split
  · exact ⟨hlay, rfl, rfl⟩
  next item hlast =>
    obtain ⟨front, hlist⟩ := getLast?_eq_some_iff.mp hlast
    have hne := hlay.nonempty
    have hcontig := hlay.contiguous
    have hsent := hlay.sentSize_eq
    have hsz := hlay.size_eq
    have hword := hlay.sent_lt
    simp only [hlist, contiguous_append, totalSize_append, totalSize_cons, totalSize_nil]
      at hcontig hsent hsz hword
    have hdrop : buf.sentList.dropLast = front := by rw [hlist, dropLast_concat]
    refine ⟨⟨?_, ?_, ?_, ?_, hlay.size_le, hlay.maxBuffer_lt⟩, ?_, rfl⟩
    · rw [hlist, append_assoc, singleton_append] at hne
      simpa only [hdrop] using hne
    · simpa only [hdrop] using hcontig.1
    · simp only [hdrop, uint32OfInt]
      omega
    · simp only [hdrop, totalSize_cons]
      omega
    · simp [unacked, hlist]

theorem add_layout {p : List UInt8} (hlay : buf.Layout) :
    (buf.add p).2.Layout ∧ (buf.add p).2.unacked = buf.unacked ++ buf.writtenBy (.add p) ∧
      (buf.add p).2.firstByteSeq = buf.firstByteSeq := by
  have hsz := hlay.size_eq
  have hle := hlay.size_le
  have hlt := hlay.maxBuffer_lt
  have havail : buf.available = buf.maxBuffer - buf.size := by
    rw [available, uint32OfInt]
    omega
  rw [writtenBy, add]
  split
  next hfits =>
    split
    next hpos =>
      refine ⟨⟨?_, hlay.contiguous, hlay.sentSize_eq, ?_, ?_, hlt⟩, ?_, rfl⟩
      · rw [← append_assoc, forall_mem_append, forall_mem_singleton]
        exact ⟨hlay.nonempty, hpos⟩
      · simp only [totalSize_append, totalSize_cons, totalSize_nil, TxItem.ofPacket, TxItem.size]
        rw [uint32_of_lt (by omega)]
        omega
      · rw [uint32_of_lt (by omega)]
        change buf.size + p.length ≤ buf.maxBuffer
        omega
      · simp [unacked, TxItem.ofPacket]
    next hpos =>
      have hnil : p = [] := length_eq_zero_iff.mp (by omega)
      exact ⟨hlay, by simp [hnil], rfl⟩
  · exact ⟨hlay, by simp, rfl⟩

/-! ## Cumulative acknowledgements -/

/-- The buffer without its first `count` bytes. -/
structure Discards (buf : TxBuffer) (count : Nat) (next : TxBuffer) : Prop where
  layout : next.Layout
  count_le : count ≤ buf.size
  unacked_eq : next.unacked = buf.unacked.drop count
  firstByteSeq_eq : next.firstByteSeq = buf.firstByteSeq.byte count

theorem Keeps.discards (hkeeps : Keeps buf next) : Discards buf 0 next :=
  ⟨hkeeps.layout, Nat.zero_le _, hkeeps.unacked_eq,
    hkeeps.firstByteSeq_eq.trans (byte_zero _).symm⟩

theorem Discards.size_eq {count : Nat} (hdisc : Discards buf count next)
    (hlay : buf.Layout) : next.size = buf.size - count := by
  rw [← hdisc.layout.unacked_length, hdisc.unacked_eq, length_drop, hlay.unacked_length]

theorem Discards.trans {count more : Nat} {middle : TxBuffer}
    (hfst : Discards buf count middle) (hsnd : Discards middle more next)
    (hlay : buf.Layout) : Discards buf (count + more) next where
  layout := hsnd.layout
  count_le := by
    have hle := hfst.count_le
    have hmore := hsnd.count_le
    rw [hfst.size_eq hlay] at hmore
    omega
  unacked_eq := by rw [hsnd.unacked_eq, hfst.unacked_eq, drop_drop]
  firstByteSeq_eq := by
    rw [hsnd.firstByteSeq_eq, hfst.firstByteSeq_eq, byte_byte]

theorem removeFromCounts_eq_ok {item : TxItem} {size : Nat}
    (hremove : buf.removeFromCounts item size = .ok next) :
    next = { buf with
      sackedOut := if item.sacked then buf.sackedOut - size else buf.sackedOut
      retrans := if item.retrans then buf.retrans - size else buf.retrans
      lostOut := if item.lost then buf.lostOut - size else buf.lostOut } := by
  obtain ⟨_, -, hremove⟩ := bind_eq_ok.mp hremove
  obtain ⟨_, -, hremove⟩ := bind_eq_ok.mp hremove
  obtain ⟨_, -, hremove⟩ := bind_eq_ok.mp hremove
  exact (Except.ok.inj hremove).symm

/-- One round of `DiscardUpTo`: the head goes whole, or its first bytes go. -/
inductive Drops : TxBuffer → Nat → TxBuffer → Prop
  | whole {buf : TxBuffer} {item : TxItem} {rest : List TxItem}
      (hlist : buf.sentList = item :: rest) :
      Drops buf item.size
        { buf.acknowledge item.size with
          sentList := rest
          sackedOut := if item.sacked then buf.sackedOut - item.size else buf.sackedOut
          retrans := if item.retrans then buf.retrans - item.size else buf.retrans
          lostOut := if item.lost then buf.lostOut - item.size else buf.lostOut }
  | part {buf : TxBuffer} {item : TxItem} {rest : List TxItem} {count : Nat}
      (hlist : buf.sentList = item :: rest) (hpos : 0 < count) (hless : count < item.size) :
      Drops buf count
        { buf.acknowledge count with
          sentList :=
            { item with
              packet := item.packet.drop count
              startSeq := item.startSeq.byte count } :: rest
          sackedOut := if item.sacked then buf.sackedOut - count else buf.sackedOut
          retrans := if item.retrans then buf.retrans - count else buf.retrans
          lostOut := if item.lost then buf.lostOut - count else buf.lostOut }

theorem Drops.discards {count : Nat} (hdrops : Drops buf count next)
    (hlay : buf.Layout) : 0 < count ∧ Discards buf count next := by
  have hcontig := hlay.contiguous
  have hsent := hlay.sentSize_eq
  have hsz := hlay.size_eq
  have hle := hlay.size_le
  have hlt := hlay.maxBuffer_lt
  have hne := hlay.nonempty
  cases hdrops with
  | @whole item rest hlist =>
    rw [hlist] at hcontig hsent hsz hne
    rw [totalSize_cons] at hsent hsz
    rw [cons_append, forall_mem_cons] at hne
    refine ⟨hne.1, ⟨hne.2, hcontig.2, ?_, ?_, ?_, hlt⟩, ?_, ?_, rfl⟩
    · simp only [acknowledge, uint32OfInt]
      omega
    · simp only [acknowledge, uint32OfInt]
      omega
    · simp only [acknowledge, uint32OfInt]
      omega
    · omega
    · simp [unacked, hlist, TxItem.size, acknowledge]
  | @part item rest _ hlist hpos hless =>
    rw [hlist] at hcontig hsent hsz hne
    rw [totalSize_cons] at hsent hsz
    rw [cons_append, forall_mem_cons] at hne
    -- a dropped front shortens the item by what was acknowledged
    have hcut : ({ item with
        packet := item.packet.drop count
        startSeq := item.startSeq.byte count } : TxItem).size = item.size - count :=
      length_drop
    refine ⟨hpos, ⟨?_, ⟨?_, ?_⟩, ?_, ?_, ?_, hlt⟩, ?_, ?_, rfl⟩
    · refine forall_mem_cons.mpr ⟨?_, hne.2⟩
      rw [hcut]
      omega
    · rw [hcontig.1]
      rfl
    · have hrest := hcontig.2
      rw [hcut]
      simp only [acknowledge, add_of, byte_byte]
      rwa [Nat.add_sub_cancel' (Nat.le_of_lt hless)]
    · rw [totalSize_cons, hcut]
      simp only [acknowledge, uint32OfInt]
      omega
    · rw [totalSize_cons, hcut]
      simp only [acknowledge, uint32OfInt]
      omega
    · simp only [acknowledge, uint32OfInt]
      omega
    · omega
    · simp [unacked, hlist, acknowledge, drop_append_of_le_length (Nat.le_of_lt hless)]

/-- One step of `DiscardUpTo`, with the bytes dropped so far: with an empty sent list it first
sends what is acknowledged. -/
inductive Discarding (now : Nat) : TxBuffer × Nat → TxBuffer × Nat → Prop
  | send {buf : TxBuffer} {done offset : Nat} {result : Option TxItem × TxBuffer}
      (hempty : buf.sentList = [])
      (hcopied : Copied buf now offset buf.firstByteSeq result) :
      Discarding now (buf, done) (result.2, done)
  | drop {buf next : TxBuffer} {done count : Nat} (hdrops : Drops buf count next) :
      Discarding now (buf, done) (next, done + count)

theorem discarding_of_discardLoop {now rounds offset done : Nat} (hlay : buf.Layout)
    (hrounds : offset ≤ rounds) (hloop : discardLoop now rounds offset buf = .ok next) :
    Relation.ReflTransGen (Discarding now) (buf, done) (next, done + min offset buf.size) ∧
      Discards buf (min offset buf.size) next := by
  induction rounds generalizing offset done buf with
  | zero =>
    obtain rfl := Except.ok.inj hloop
    obtain rfl : offset = 0 := by omega
    rw [Nat.zero_min]
    exact ⟨.refl, (Keeps.mk hlay rfl rfl).discards⟩
  | succ rounds ih =>
    rw [discardLoop] at hloop
    split at hloop
    next hmore =>
      obtain ⟨sent, hsent, hloop⟩ := bind_eq_ok.mp hloop
      -- with nothing sent the source first moves a segment over from the app list
      have hsend : Relation.ReflTransGen (Discarding now) (buf, done) (sent, done) ∧
          Keeps buf sent := by
        split at hsent
        next hempty =>
          obtain ⟨result, hres, hsent⟩ := bind_eq_ok.mp hsent
          split at hsent
          · cases hsent
          · obtain rfl := Except.ok.inj hsent
            have hcopied := copied_of_copyFromSequence hlay hres
            exact ⟨.single (.send (isEmpty_iff.mp hempty) hcopied), hcopied.keeps hlay⟩
        · obtain rfl := Except.ok.inj hsent
          exact ⟨.refl, ⟨hlay, rfl, rfl⟩⟩
      obtain ⟨hchain, hkeeps⟩ := hsend
      have hsz := hkeeps.discards.size_eq hlay
      split at hloop
      · cases hloop
      next item rest hlist =>
        obtain ⟨_, -, hloop⟩ := bind_eq_ok.mp hloop
        split at hloop
        -- a whole item goes and the loop runs on
        next hle =>
          obtain ⟨removed, hrem, hloop⟩ := bind_eq_ok.mp hloop
          rw [removeFromCounts_eq_ok hrem] at hloop
          have hdrops := @Drops.whole sent item rest hlist
          obtain ⟨hpos, hdisc⟩ := hdrops.discards hkeeps.layout
          have hfewer : offset - item.size ≤ rounds := by omega
          obtain ⟨hrest, hmore⟩ := @ih _ _ (done + item.size) hdisc.layout hfewer hloop
          have hboth := hkeeps.discards.trans (hdisc.trans hmore hkeeps.layout) hlay
          rw [hdisc.size_eq hkeeps.layout, hsz] at hboth hrest
          have hcnt : item.size + min (offset - item.size) (buf.size - 0 - item.size) =
              min offset buf.size := by
            have := hdisc.count_le
            omega
          rw [Nat.add_assoc, hcnt] at hrest
          rw [Nat.zero_add, hcnt] at hboth
          exact ⟨hchain.trans (.head (.drop hdrops) hrest), hboth⟩
        -- only the front of the item goes, which ends the loop
        next hless =>
          obtain ⟨packet, hpkt, hloop⟩ := bind_eq_ok.mp hloop
          obtain ⟨removed, hrem, hloop⟩ := bind_eq_ok.mp hloop
          rw [removeFromCounts_eq_ok hrem] at hloop
          obtain rfl := Except.ok.inj hloop
          have hdrops := @Drops.part sent item rest offset hlist hmore.2 (by omega)
          have hpart : packet = item.packet.drop offset := by
            rw [createFragment] at hpkt
            split at hpkt
            · rw [← Except.ok.inj hpkt]
              exact take_of_length_le (by rw [length_drop]; exact Nat.le_refl _)
            · cases hpkt
          obtain ⟨-, hdisc⟩ := hdrops.discards hkeeps.layout
          rw [hpart]
          have hboth := hkeeps.discards.trans hdisc hlay
          have hcnt : min offset buf.size = offset := by
            have := hdisc.count_le
            omega
          rw [Nat.zero_add] at hboth
          rw [hcnt]
          exact ⟨hchain.trans (.single (.drop hdrops)), hboth⟩
    next hdone =>
      obtain rfl := Except.ok.inj hloop
      have hcnt : min offset buf.size = 0 := by omega
      rw [hcnt]
      exact ⟨.refl, (Keeps.mk hlay rfl rfl).discards⟩

theorem repairHead_reflagged (hrepair : buf.repairHead seq = .ok next) :
    Reflagged buf next := by
  rw [repairHead] at hrepair
  split at hrepair
  · cases hrepair
    exact .refl buf
  next head rest hlist =>
    obtain ⟨repaired, hrep, hrepair⟩ := bind_eq_ok.mp hrepair
    obtain ⟨_, -, hrepair⟩ := bind_eq_ok.mp hrepair
    cases hrepair
    split at hrep
    · obtain ⟨_, -, hrep⟩ := bind_eq_ok.mp hrep
      obtain ⟨added, hadded, hrep⟩ := bind_eq_ok.mp hrep
      cases hrep
      have hunsacked : Reflagged buf
          { buf with
            sentList := { head with sacked := false } :: rest
            sackedOut := uint32OfInt (buf.sackedOut - head.size) } :=
        @Reflagged.of_replace _ _ [] rest head _ hlist rfl rfl
      exact hunsacked.trans ((addRenoSack_reflagged hadded).trans (markHeadAsLost_reflagged added))
    · cases hrep
      exact .refl buf

/-- The buffer that the end of `DiscardUpTo` starts from. -/
def atSeq (buf : TxBuffer) (seq : SequenceNumber32) : TxBuffer :=
  if buf.size = 0 then { buf with firstByteSeq := seq } else buf

def forgetSack (buf : TxBuffer) : TxBuffer :=
  if buf.highestSack.2.le buf.firstByteSeq then
    { buf with highestSack := (.atEnd, .of 0) }
  else buf

theorem discardUpTo_eq_ok {now : Nat} (hlay : buf.Layout)
    (hdisc : buf.discardUpTo now seq = .ok next) (hahead : buf.firstByteSeq.ge seq = false) :
    ∃ discarded repaired,
      Relation.ReflTransGen (Discarding now) (buf, 0)
        (discarded, min (uint32OfInt (seq.sub buf.firstByteSeq)) buf.size) ∧
        Discards buf (min (uint32OfInt (seq.sub buf.firstByteSeq)) buf.size) discarded ∧
        (discarded.atSeq seq).repairHead seq = .ok repaired ∧ next = repaired.forgetSack := by
  rw [discardUpTo, if_neg (by simp [hahead])] at hdisc
  obtain ⟨discarded, hdiscarded, hdisc⟩ := bind_eq_ok.mp hdisc
  obtain ⟨repaired, hrep, hdisc⟩ := bind_eq_ok.mp hdisc
  obtain ⟨_, -, hdisc⟩ := bind_eq_ok.mp hdisc
  obtain ⟨_, -, hdisc⟩ := bind_eq_ok.mp hdisc
  obtain ⟨hchain, hdiscards⟩ :=
    @discarding_of_discardLoop _ _ _ _ _ 0 hlay (Nat.le_refl _) hdiscarded
  rw [Nat.zero_add] at hchain
  exact ⟨discarded, repaired, hchain, hdiscards, hrep, (Except.ok.inj hdisc).symm⟩

theorem forgetSack_reflagged (buf : TxBuffer) : Reflagged buf buf.forgetSack := by
  rw [forgetSack]
  split
  · exact ⟨rfl, rfl, rfl, rfl, rfl, rfl⟩
  · exact .refl buf

theorem atSeq_layout (seq : SequenceNumber32)
    (hlay : buf.Layout) : (buf.atSeq seq).Layout := by
  rw [atSeq]
  split
  next hzero =>
    have hsent := hlay.size_eq
    have hnil : buf.sentList = [] := by
      cases hlist : buf.sentList with
      | nil => rfl
      | cons head rest =>
        have hhead := hlay.sent_nonempty head (by simp [hlist])
        rw [hlist, totalSize_cons] at hsent
        omega
    obtain ⟨hne, -, hsentSize, hboth, hle, hlt⟩ := hlay
    refine ⟨hne, ?_, hsentSize, hboth, hle, hlt⟩
    rw [hnil]
    trivial
  · exact hlay

theorem discardUpTo_keeps {now : Nat} (hlay : buf.Layout)
    (hdisc : buf.discardUpTo now seq = .ok next) :
    next.Layout ∧
      next.unacked = buf.unacked.drop (min (buf.ackedBy (.discardUpTo now seq)) buf.size) ∧
      next.firstByteSeq = buf.firstByteSeq.byte (buf.ackedBy (.discardUpTo now seq)) := by
  cases hahead : buf.firstByteSeq.ge seq with
  | true =>
    rw [discardUpTo, if_pos hahead] at hdisc
    cases hdisc
    simp [ackedBy, hahead, hlay]
  | false =>
    obtain ⟨discarded, repaired, -, hdiscards, hrep, rfl⟩ := discardUpTo_eq_ok hlay hdisc hahead
    have hflags := (repairHead_reflagged hrep).trans (forgetSack_reflagged repaired)
    have hsz := hdiscards.size_eq hlay
    have hseq := byte_sub seq buf.firstByteSeq
    have hat : (discarded.atSeq seq).unacked = discarded.unacked ∧
        (discarded.atSeq seq).firstByteSeq =
          buf.firstByteSeq.byte (uint32OfInt (seq.sub buf.firstByteSeq)) := by
      rw [atSeq]
      split
      next hzero => exact ⟨rfl, hseq.symm⟩
      next hsome =>
        refine ⟨rfl, ?_⟩
        rw [hdiscards.firstByteSeq_eq, Nat.min_eq_left (by omega)]
    obtain ⟨hatUnacked, hatFirst⟩ := hat
    simp only [ackedBy, hahead, Bool.false_eq_true, if_false]
    refine ⟨hflags.layout (atSeq_layout seq hdiscards.layout), ?_,
      hflags.firstByteSeq.trans hatFirst⟩
    rw [hflags.unacked_eq, hatUnacked, hdiscards.unacked_eq]

end TxBuffer

/-! ## What holds in every state -/

structure Stored (isn : SequenceNumber32) (state : TxState) : Prop where
  layout : state.buffer.Layout
  acked_le : state.acked ≤ state.written.length
  unacked_eq : state.buffer.unacked = state.written.drop state.acked
  firstByteSeq_eq : state.buffer.firstByteSeq = isn.byte (state.acked + state.beyond)

namespace Stored

variable {isn : SequenceNumber32} {state next : TxState} {call : TxCall}

theorem of_keeps (hstored : Stored isn state) {buf : TxBuffer}
    (hkeeps : state.buffer.Keeps buf) :
    Stored isn { state with buffer := buf } where
  layout := hkeeps.layout
  acked_le := hstored.acked_le
  unacked_eq := hkeeps.unacked_eq.trans hstored.unacked_eq
  firstByteSeq_eq := hkeeps.firstByteSeq_eq.trans hstored.firstByteSeq_eq

theorem size_eq (hstored : Stored isn state) :
    state.buffer.size = state.written.length - state.acked := by
  rw [← hstored.layout.unacked_length, hstored.unacked_eq, length_drop]

theorem step (hstored : Stored isn state)
    (hstep : state.step call = .ok next) : Stored isn next := by
  obtain ⟨buf, hcall, hnext⟩ := bind_eq_ok.mp hstep
  cases hnext
  have hlay := hstored.layout
  -- calls that neither write nor acknowledge keep the bytes of both lists
  have hkeep : ∀ {buf}, state.buffer.Keeps buf → state.buffer.writtenBy call = [] →
      state.buffer.ackedBy call = 0 →
      Stored isn ⟨buf, state.written ++ state.buffer.writtenBy call,
        state.acked + min (state.buffer.ackedBy call) state.buffer.size,
        state.beyond + (state.buffer.ackedBy call - state.buffer.size)⟩ := by
    intro buf hkeeps hwrote hacked
    rw [hwrote, hacked]
    simpa using hstored.of_keeps hkeeps
  cases call with
  | add p =>
    cases hcall
    obtain ⟨hadded, hunacked, hfst⟩ := add_layout (p := p) hlay
    have hle := hstored.acked_le
    refine ⟨hadded, ?_, ?_, ?_⟩
    · simp only [ackedBy, length_append]
      omega
    · simp only [ackedBy, Nat.zero_min, Nat.add_zero]
      rw [hunacked, hstored.unacked_eq, drop_append_of_le_length hle]
    · simp only [ackedBy, Nat.zero_min, Nat.zero_sub, Nat.add_zero]
      rw [hfst, hstored.firstByteSeq_eq]
  | copyFromSequence now numBytes seq =>
    obtain ⟨result, hcopy, hres⟩ := bind_eq_ok.mp hcall
    cases hres
    exact hkeep ((copied_of_copyFromSequence hlay hcopy).keeps hlay) rfl rfl
  | discardUpTo now seq =>
    obtain ⟨hnext, hunacked, hfst⟩ := discardUpTo_keeps hlay hcall
    have hsz := hstored.size_eq
    have hle := hstored.acked_le
    refine ⟨hnext, ?_, ?_, ?_⟩
    · simp only [writtenBy, append_nil]
      omega
    · simp only [writtenBy, append_nil]
      rw [hunacked, hstored.unacked_eq, drop_drop]
    · dsimp only
      rw [hfst, hstored.firstByteSeq_eq, byte_byte]
      congr 1
      omega
  | update list =>
    obtain ⟨result, hupd, hres⟩ := bind_eq_ok.mp hcall
    cases hres
    exact hkeep ((update_reflagged hupd).keeps hlay) rfl rfl
  | addRenoSack => exact hkeep ((addRenoSack_reflagged hcall).keeps hlay) rfl rfl
  | resetRenoSack =>
    cases hcall
    exact hkeep ((resetRenoSack_reflagged _).keeps hlay) rfl rfl
  | markHeadAsLost =>
    cases hcall
    exact hkeep ((markHeadAsLost_reflagged _).keeps hlay) rfl rfl
  | deleteRetransmittedFlagFromHead =>
    exact hkeep ((deleteRetransmittedFlagFromHead_reflagged hcall).keeps hlay) rfl rfl
  | setSentListLost resetSack =>
    exact hkeep ((setSentListLost_reflagged hcall).keeps hlay) rfl rfl
  | resetSentList =>
    cases hcall
    exact hkeep (resetSentList_keeps hlay) rfl rfl
  | resetLastSegmentSent =>
    cases hcall
    exact hkeep (resetLastSegmentSent_keeps hlay) rfl rfl

end Stored

end HomaSird.Tcp
