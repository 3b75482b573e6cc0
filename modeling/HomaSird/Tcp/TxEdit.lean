import Mathlib.Logic.Relation
import Mathlib.Order.Basic
import HomaSird.Tcp.TxScoreboard

/-! # Edits of the lists of the send buffer

To find a segment the buffer cuts items in two and joins neighbours. Whatever the walk
over a list does is a chain of such edits; an edit keeps the bytes of the list and the
sums of the SACKed and of the lost ones, and adjusts the count of retransmitted bytes.
-/

namespace HomaSird.Tcp

open Transition SequenceNumber List

/-! ## What a list of items holds -/

def bytesOf (flag : TxItem → Bool) : List TxItem → Nat
  | [] => 0
  | item :: rest => (if flag item then item.size else 0) + bytesOf flag rest

def totalSize : List TxItem → Nat
  | [] => 0
  | item :: rest => item.size + totalSize rest

def content (items : List TxItem) : List UInt8 := items.flatMap TxItem.packet

def TxItem.flags (item : TxItem) : Bool × Bool := (item.sacked, item.lost)

def marks (items : List TxItem) : List (Bool × Bool) :=
  items.flatMap fun item => List.replicate item.size item.flags

def Contiguous : SequenceNumber32 → List TxItem → Prop
  | _, [] => True
  | begin, item :: rest => item.startSeq = begin ∧ Contiguous (begin.byte item.size) rest

section Sums

variable {flag : TxItem → Bool} {item : TxItem} {front back : List TxItem}

@[simp] theorem bytesOf_nil (flag : TxItem → Bool) : bytesOf flag [] = 0 := rfl

@[simp] theorem bytesOf_cons (flag : TxItem → Bool) (item : TxItem) (rest : List TxItem) :
    bytesOf flag (item :: rest) = (if flag item then item.size else 0) + bytesOf flag rest := rfl

@[simp] theorem totalSize_nil : totalSize [] = 0 := rfl

@[simp] theorem totalSize_cons (item : TxItem) (rest : List TxItem) :
    totalSize (item :: rest) = item.size + totalSize rest := rfl

@[simp] theorem bytesOf_append (flag : TxItem → Bool) (front back : List TxItem) :
    bytesOf flag (front ++ back) = bytesOf flag front + bytesOf flag back := by
  induction front with
  | nil => simp
  | cons item rest ih =>
    simp only [cons_append, bytesOf_cons, ih]
    omega

@[simp] theorem totalSize_append
    (front back : List TxItem) : totalSize (front ++ back) = totalSize front + totalSize back := by
  induction front with
  | nil => simp
  | cons item rest ih =>
    simp only [cons_append, totalSize_cons, ih]
    omega

theorem bytesOf_true (items : List TxItem) : bytesOf (fun _ => true) items = totalSize items := by
  induction items with
  | nil => rfl
  | cons item rest ih => rw [bytesOf_cons, ih, if_pos rfl, totalSize_cons]

theorem bytesOf_le_totalSize (flag : TxItem → Bool)
    (items : List TxItem) : bytesOf flag items ≤ totalSize items := by
  induction items with
  | nil => simp
  | cons item rest ih =>
    simp only [bytesOf_cons, totalSize_cons]
    split <;> omega

theorem bytesOf_eq_zero {items : List TxItem}
    (hnone : ∀ item ∈ items, flag item = false) : bytesOf flag items = 0 := by
  induction items with
  | nil => rfl
  | cons item rest ih =>
    obtain ⟨hitem, hrest⟩ := forall_mem_cons.mp hnone
    simp [hitem, ih hrest]

theorem bytesOf_map (flag : TxItem → Bool) (change : TxItem → TxItem)
    (items : List TxItem) (hsz : ∀ item, (change item).size = item.size) :
    bytesOf flag (items.map change) = bytesOf (fun item => flag (change item)) items := by
  induction items with
  | nil => rfl
  | cons item rest ih => simp only [map_cons, bytesOf_cons, hsz, ih]

@[simp] theorem content_nil : content [] = [] := rfl

@[simp] theorem content_cons (item : TxItem) (rest : List TxItem) :
    content (item :: rest) = item.packet ++ content rest := rfl

@[simp] theorem content_append (front back : List TxItem) :
    content (front ++ back) = content front ++ content back := flatMap_append

@[simp] theorem marks_nil : marks [] = [] := rfl

@[simp] theorem marks_cons (item : TxItem) (rest : List TxItem) :
    marks (item :: rest) = replicate item.size item.flags ++ marks rest := rfl

@[simp] theorem marks_append (front back : List TxItem) :
    marks (front ++ back) = marks front ++ marks back := flatMap_append

theorem marks_length (items : List TxItem) : (marks items).length = totalSize items := by
  induction items with
  | nil => rfl
  | cons item rest ih => simp [ih]

theorem bytesOf_eq_countP (mark : Bool × Bool → Bool) (items : List TxItem) :
    bytesOf (fun item => mark item.flags) items = (marks items).countP mark := by
  induction items with
  | nil => rfl
  | cons item rest ih => simp [ih, countP_replicate]

theorem content_length (items : List TxItem) : (content items).length = totalSize items := by
  induction items with
  | nil => rfl
  | cons item rest ih => simp [ih, TxItem.size]

theorem contiguous_append {begin : SequenceNumber32} :
    Contiguous begin (front ++ back) ↔
      Contiguous begin front ∧ Contiguous (begin.byte (totalSize front)) back := by
  induction front generalizing begin with
  | nil => simp [Contiguous, byte_zero]
  | cons item rest ih =>
    simp only [cons_append, Contiguous, ih, totalSize_cons, byte_byte, and_assoc]

end Sums

/-! ## One edit -/

theorem splitItems_eq {node size : Nat} {item : TxItem} {parts : TxItem × TxItem}
    (hsplit : splitItems node item size = .ok parts) :
    parts =
      ({ item with node := node, packet := item.packet.take size },
        { item with packet := item.packet.drop size, startSeq := item.startSeq.byte size }) := by
  simp only [splitItems, createFragment, pure_eq_ok] at hsplit
  split at hsplit
  · simpa [add_of] using (Except.ok.inj hsplit).symm
  · cases hsplit

theorem splitItems_ok {node size : Nat} {item : TxItem} (hword : item.size < 2 ^ 32)
    (hsz : size ≤ item.size) : ∃ parts, splitItems node item size = .ok parts := by
  have hfits : uint32 (0 + size) ≤ item.packet.length := by
    rw [uint32_of_lt (by omega), Nat.zero_add]
    exact hsz
  exact ⟨_, by rw [splitItems, createFragment, if_pos hfits]; rfl⟩

/-- The count of retransmitted bytes after two neighbours are joined. -/
def mergedRetrans (retrans : Nat) (t1 t2 : TxItem) : Nat :=
  if t1.retrans == t2.retrans then retrans
  else uint32OfInt (retrans - (if t1.retrans then t1.size else t2.size))

def mergedItem (t1 t2 : TxItem) : TxItem :=
  { t1 with
    retrans := t1.retrans && t2.retrans
    lastSent := if t1.lastSent < t2.lastSent then t2.lastSent else t1.lastSent
    packet := t1.packet ++ t2.packet }

theorem mergeItems_eq_ok {retrans : Nat} {t1 t2 : TxItem} {merged : Nat × TxItem} :
    mergeItems retrans t1 t2 = .ok merged ↔ (t1.sacked = t2.sacked ∧ t1.lost = t2.lost) ∧
    merged = (mergedRetrans retrans t1 t2, mergedItem t1 t2) := by
  have hrtx : (if t1.retrans == t2.retrans then t1.retrans else false) =
      (t1.retrans && t2.retrans) := by
    cases t1.retrans <;> cases t2.retrans <;> rfl
  rw [mergeItems, hrtx, assert, assert]
  by_cases hsack : t1.sacked = t2.sacked
  · by_cases hlost : t1.lost = t2.lost
    · rw [if_pos (beq_iff_eq.mpr hsack), if_pos (beq_iff_eq.mpr hlost)]
      exact ⟨fun hok => ⟨⟨hsack, hlost⟩, (Except.ok.inj hok).symm⟩,
        fun heq => congrArg Except.ok heq.2.symm⟩
    · simp [hsack, hlost]
  · simp [hsack]

structure Editing where
  list : List TxItem
  retrans : Nat
  nextNode : Nat

inductive Edit (touched : TxItem → Prop) : Editing → Editing → Prop
  | split {front back : List TxItem} {item : TxItem} {parts : TxItem × TxItem}
      {size retrans nextNode : Nat} (hsplit : splitItems nextNode item size = .ok parts)
      (hpos : 0 < size) (hless : size < item.size) (hitem : touched item) :
      Edit touched ⟨front ++ item :: back, retrans, nextNode⟩
        ⟨front ++ parts.1 :: parts.2 :: back, retrans, nextNode + 1⟩
  | merge {front back : List TxItem} {t1 t2 : TxItem} {merged : Nat × TxItem}
      {retrans nextNode : Nat} (hmerge : mergeItems retrans t1 t2 = .ok merged)
      (ht1 : touched t1) (ht2 : touched t2) :
      Edit touched ⟨front ++ t1 :: t2 :: back, retrans, nextNode⟩
        ⟨front ++ merged.2 :: back, merged.1, nextNode⟩

abbrev Edits (touched : TxItem → Prop) : Editing → Editing → Prop :=
  Relation.ReflTransGen (Edit touched)

theorem chain_keep {State : Type} {step : State → State → Prop} (holds : State → Prop)
    {first last : State} (hchain : Relation.ReflTransGen step first last)
    (hkeep : ∀ before after, step before after → holds before → holds after) (hfst : holds first) :
    holds last := by
  induction hchain with
  | refl => exact hfst
  | tail _ hstep ih => exact hkeep _ _ hstep ih

namespace Edit

variable {touched : TxItem → Prop} {before after : Editing}

theorem behind (item : TxItem) (hedit : Edit touched before after) :
    Edit touched { before with list := item :: before.list }
      { after with list := item :: after.list } := by
  cases hedit with
  | split hsplit hpos hless hitem =>
    exact @split touched (item :: _) _ _ _ _ _ _ hsplit hpos hless hitem
  | merge hmerge ht1 ht2 => exact @merge touched (item :: _) _ _ _ _ _ _ hmerge ht1 ht2

section

variable (hedit : Edit touched before after)
include hedit

theorem content_eq : content after.list = content before.list := by
  cases hedit with
  | split hsplit hpos hless hitem => simp [splitItems_eq hsplit, ← append_assoc]
  | merge hmerge ht1 ht2 => simp [(mergeItems_eq_ok.mp hmerge).2, mergedItem]

theorem marks_eq : marks after.list = marks before.list := by
  cases hedit with
  | @split front back item parts size _ _ hsplit hpos hless hitem =>
    have hsz : item.size = size + (item.size - size) := by omega
    have hparts : replicate size item.flags ++ replicate (item.size - size) item.flags =
        replicate item.size item.flags := by
      rw [replicate_append_replicate, ← hsz]
    simp only [splitItems_eq hsplit, marks_append, marks_cons, TxItem.size, TxItem.flags,
      length_take, length_drop, ← append_assoc] at hparts hless ⊢
    rw [Nat.min_eq_left (Nat.le_of_lt hless), append_assoc (marks front), hparts]
  | merge hmerge ht1 ht2 =>
    obtain ⟨⟨hsack, hlost⟩, rfl⟩ := mergeItems_eq_ok.mp hmerge
    simp [mergedItem, TxItem.size, TxItem.flags, ← replicate_append_replicate, hsack, hlost]

theorem forall_flags {allowed : Bool × Bool → Prop} (hall :
    ∀ item ∈ before.list, allowed item.flags) : ∀ item ∈ after.list, allowed item.flags := by
  cases hedit with
  | split hsplit hpos hless hitem =>
    simpa [splitItems_eq hsplit, TxItem.flags, or_imp, forall_and] using hall
  | merge hmerge ht1 ht2 =>
    simp only [(mergeItems_eq_ok.mp hmerge).2, mergedItem, TxItem.flags,
      forall_mem_append, forall_mem_cons] at hall ⊢
    exact ⟨hall.1, hall.2.1, hall.2.2.2⟩

theorem nonempty (hne : ∀ item ∈ before.list, 0 < item.size) :
    ∀ item ∈ after.list, 0 < item.size := by
  cases hedit with
  | split hsplit hpos hless hitem =>
    simp only [splitItems_eq hsplit, TxItem.size, forall_mem_append,
      forall_mem_cons, length_take, length_drop] at hne hless ⊢
    exact ⟨hne.1, by omega, by omega, hne.2.2⟩
  | merge hmerge ht1 ht2 =>
    simp only [(mergeItems_eq_ok.mp hmerge).2, mergedItem, TxItem.size,
      forall_mem_append, forall_mem_cons, length_append] at hne ⊢
    exact ⟨hne.1, by omega, hne.2.2.2⟩

theorem contiguous {begin : SequenceNumber32}
    (hcontig : Contiguous begin before.list) : Contiguous begin after.list := by
  cases hedit with
  | split hsplit hpos hless hitem =>
    rw [TxItem.size] at hless
    simp only [splitItems_eq hsplit, contiguous_append, Contiguous, TxItem.size,
      length_take, length_drop, byte_byte] at hcontig ⊢
    obtain ⟨hfront, hstart, hback⟩ := hcontig
    rw [Nat.min_eq_left (Nat.le_of_lt hless), Nat.add_assoc,
      Nat.add_sub_cancel' (Nat.le_of_lt hless)]
    exact ⟨hfront, hstart, by rw [hstart, byte_byte], hback⟩
  | merge hmerge ht1 ht2 =>
    simp only [(mergeItems_eq_ok.mp hmerge).2, mergedItem, contiguous_append, Contiguous,
      TxItem.size, length_append, byte_byte] at hcontig ⊢
    exact ⟨hcontig.1, hcontig.2.1, by simpa [Nat.add_assoc] using hcontig.2.2.2⟩

theorem retrans_eq (hword : totalSize before.list < 2 ^ 32)
    (hcnt : before.retrans = bytesOf TxItem.retrans before.list) :
    after.retrans = bytesOf TxItem.retrans after.list := by
  cases hedit with
  | split hsplit hpos hless hitem =>
    rw [TxItem.size] at hless
    simp only [splitItems_eq hsplit, bytesOf_append, bytesOf_cons, TxItem.size,
      length_take, length_drop] at hcnt ⊢
    rw [hcnt]
    split <;> omega
  | @merge front back t1 t2 merged retrans nextNode hmerge ht1 ht2 =>
    have hle := bytesOf_le_totalSize TxItem.retrans (front ++ t1 :: t2 :: back)
    simp only [(mergeItems_eq_ok.mp hmerge).2, mergedItem, mergedRetrans, bytesOf_append,
      bytesOf_cons, TxItem.size, length_append] at hcnt hword hle ⊢
    cases hone : t1.retrans <;> cases htwo : t2.retrans <;>
      simp only [hone, htwo, beq_self_eq_true, if_true, Bool.false_eq_true, if_false,
        Bool.and_true, Bool.and_false, beq_iff_eq, reduceCtorEq, uint32OfInt] at hcnt hle ⊢ <;>
      omega

theorem unflagged (hnone : ∀ item ∈ before.list, item.retrans = false) :
    after.retrans = before.retrans ∧ ∀ item ∈ after.list, item.retrans = false := by
  cases hedit with
  | split hsplit hpos hless hitem =>
    refine ⟨rfl, ?_⟩
    simpa [splitItems_eq hsplit, or_imp, forall_and] using hnone
  | merge hmerge ht1 ht2 =>
    simp only [(mergeItems_eq_ok.mp hmerge).2, mergedItem, mergedRetrans,
      forall_mem_append, forall_mem_cons] at hnone ⊢
    exact ⟨by rw [hnone.2.1, hnone.2.2.1]; rfl, hnone.1, by simp [hnone.2.1], hnone.2.2.2⟩

end

end Edit

section Edits

variable {touched : TxItem → Prop} {first last : Editing}

theorem Edits.marks_eq (hedits : Edits touched first last) : marks last.list = marks first.list :=
  chain_keep (fun editing => marks editing.list = marks first.list) hedits
    (fun _ _ hedit heq => hedit.marks_eq.trans heq) rfl

theorem Edits.content_eq (hedits : Edits touched first last) :
    content last.list = content first.list :=
  chain_keep (fun editing => content editing.list = content first.list) hedits
    (fun _ _ hedit heq => hedit.content_eq.trans heq) rfl

theorem Edits.totalSize_eq (hedits : Edits touched first last) :
    totalSize last.list = totalSize first.list := by
  rw [← marks_length, ← marks_length, hedits.marks_eq]

theorem Edits.bytesOf_flags (mark : Bool × Bool → Bool) (hedits : Edits touched first last) :
    bytesOf (fun item => mark item.flags) last.list =
      bytesOf (fun item => mark item.flags) first.list := by
  rw [bytesOf_eq_countP, bytesOf_eq_countP, hedits.marks_eq]

theorem Edits.retrans_eq (hedits : Edits touched first last) (hword : totalSize first.list < 2 ^ 32)
    (hcnt : first.retrans = bytesOf TxItem.retrans first.list) :
    last.retrans = bytesOf TxItem.retrans last.list := by
  induction hedits with
  | refl => exact hcnt
  | tail hedits hedit ih => exact hedit.retrans_eq (by rwa [Edits.totalSize_eq hedits]) ih

end Edits

/-! ## The walk over a list -/

def Found.editing (found : Found) : Editing :=
  ⟨found.front ++ found.item :: found.back, found.retrans, found.nextNode⟩

def Walk.editing : Walk → Editing
  | .found result => result.editing
  | .again list retrans nextNode => ⟨list, retrans, nextNode⟩

theorem Walk.editing_behind (item : TxItem) (walk : Walk) :
    (walk.behind item).editing = { walk.editing with list := item :: walk.editing.list } := by
  cases walk <;> rfl

section Walks

variable (numBytes : Nat) (seq : SequenceNumber32)

inductive Walks (retrans nextNode : Nat) : SequenceNumber32 → List TxItem → Walk → Prop
  | pass {begin : SequenceNumber32} {current : TxItem} {rest : List TxItem} {walk : Walk}
      (hpast : seq.lt (begin.byte current.size) = false)
      (hrest : Walks retrans nextNode (begin.byte current.size) rest walk) :
      Walks retrans nextNode begin (current :: rest) (walk.behind current)
  | exact {current : TxItem} {rest : List TxItem} (hsz : current.size = numBytes) :
      Walks retrans nextNode seq (current :: rest) (.found ⟨[], current, rest, retrans, nextNode⟩)
  | cut {current : TxItem} {rest : List TxItem} {parts : TxItem × TxItem}
      (hless : numBytes < current.size)
      (hsplit : splitItems nextNode current numBytes = .ok parts) :
      Walks retrans nextNode seq (current :: rest)
        (.found ⟨[], parts.1, parts.2 :: rest, retrans, nextNode + 1⟩)
  | last {current : TxItem} (hend : (seq.byte numBytes).le (seq.byte current.size) = false) :
      Walks retrans nextNode seq [current] (.found ⟨[], current, [], retrans, nextNode⟩)
  | join {current following : TxItem} {others : List TxItem} {merged : Nat × TxItem}
      (hend : (seq.byte numBytes).le (seq.byte current.size) = false)
      (hmerge : mergeItems retrans current following = .ok merged) :
      Walks retrans nextNode seq (current :: following :: others)
        (.again (merged.2 :: others) merged.1 nextNode)
  | divide {begin : SequenceNumber32} {current : TxItem} {rest : List TxItem}
      {parts : TxItem × TxItem} (hin : seq.lt (begin.byte current.size) = true)
      (hne : seq ≠ begin) (hgt : seq.gt begin = true)
      (hsplit : splitItems nextNode current (uint32OfInt (seq.sub begin)) = .ok parts) :
      Walks retrans nextNode begin (current :: rest)
        (.again (parts.1 :: parts.2 :: rest) retrans (nextNode + 1))

/-- The walks of `GetPacketFromList`, up to the item that it returns. -/
inductive Finds (begin : SequenceNumber32) : Editing → Found → Prop
  | found {list : List TxItem} {retrans nextNode : Nat} {result : Found}
      (hwalk : Walks numBytes seq retrans nextNode begin list (.found result)) :
      Finds begin ⟨list, retrans, nextNode⟩ result
  | again {list edited : List TxItem} {retrans nextNode retrans' nextNode' : Nat} {result : Found}
      (hwalk : Walks numBytes seq retrans nextNode begin list (.again edited retrans' nextNode'))
      (hrest : Finds begin ⟨edited, retrans', nextNode'⟩ result) :
      Finds begin ⟨list, retrans, nextNode⟩ result

variable {numBytes seq} {check : TxItem → Bool} {retrans nextNode : Nat}
  {begin : SequenceNumber32} {list : List TxItem}

theorem walks_of_walkList {walk : Walk}
    (hwalk : walkList check numBytes seq retrans nextNode begin list = .ok walk) :
    Walks numBytes seq retrans nextNode begin list walk := by
  induction list generalizing begin walk with
  | nil => cases hwalk
  | cons current rest ih =>
    rw [walkList.eq_def] at hwalk
    obtain ⟨-, -, hwalk⟩ := bind_eq_ok.mp hwalk
    by_cases hin : seq.lt (begin + .of current.size) = true
    · rw [if_pos hin] at hwalk
      by_cases hseq : seq = begin
      · subst hseq
        rw [if_pos rfl] at hwalk
        by_cases hend : (seq + .of numBytes).le (seq + .of current.size) = true
        · rw [if_pos hend] at hwalk
          by_cases hsz : numBytes = current.size
          · rw [if_pos hsz] at hwalk
            cases hwalk
            exact .exact hsz.symm
          · rw [if_neg hsz] at hwalk
            by_cases hless : numBytes < current.size
            · rw [if_pos hless] at hwalk
              obtain ⟨parts, hsplit, hwalk⟩ := bind_eq_ok.mp hwalk
              cases hwalk
              exact .cut hless hsplit
            · rw [if_neg hless] at hwalk
              cases hwalk
        · rw [if_neg hend] at hwalk
          rw [Bool.not_eq_true] at hend
          cases rest with
          | nil =>
            cases hwalk
            exact .last hend
          | cons following others =>
            obtain ⟨merged, hmerge, hwalk⟩ := bind_eq_ok.mp hwalk
            cases hwalk
            exact .join hend hmerge
      · rw [if_neg hseq] at hwalk
        by_cases hgt : seq.gt begin = true
        · rw [if_pos hgt] at hwalk
          obtain ⟨parts, hsplit, hwalk⟩ := bind_eq_ok.mp hwalk
          cases hwalk
          exact .divide hin hseq hgt hsplit
        · rw [if_neg hgt] at hwalk
          cases hwalk
    · rw [if_neg hin] at hwalk
      obtain ⟨walk', hrest, hwalk⟩ := bind_eq_ok.mp hwalk
      cases hwalk
      exact .pass (eq_false_of_ne_true hin) (ih hrest)

theorem finds_of_getPacketFromList {fuel : Nat} {result : Found}
    (hget : getPacketFromList check begin numBytes seq fuel list retrans nextNode = .ok result) :
    Finds numBytes seq begin ⟨list, retrans, nextNode⟩ result := by
  induction fuel generalizing list retrans nextNode with
  | zero => cases hget
  | succ fuel ih =>
    rw [getPacketFromList] at hget
    obtain ⟨walk, hwalk, hget⟩ := bind_eq_ok.mp hget
    have hwalks := walks_of_walkList hwalk
    cases walk with
    | found found =>
      cases hget
      exact .found hwalks
    | again edited retrans' nextNode' => exact .again hwalks (ih hget)

/-- An item at which a walk stops: the one that starts at `seq`, or holds it inside. -/
def Around (seq begin : SequenceNumber32) (item : TxItem) : Prop :=
  begin = seq ∨ seq.lt (begin.byte item.size) = true ∧ seq.gt begin = true

theorem cut_inside {begin : SequenceNumber32} {item : TxItem}
    {parts : TxItem × TxItem} (hin : seq.lt (begin.byte item.size) = true) (hne : seq ≠ begin)
    (hsplit : splitItems nextNode item (uint32OfInt (seq.sub begin)) = .ok parts) :
    0 < uint32OfInt (seq.sub begin) ∧ uint32OfInt (seq.sub begin) < item.size := by
  have hlt := uint32OfInt_lt (seq.sub begin)
  have hseq := byte_sub seq begin
  have hle : uint32OfInt (seq.sub begin) ≤ item.size := by
    simp only [splitItems, createFragment] at hsplit
    split at hsplit
    next hfits => rwa [Nat.zero_add, uint32_of_lt hlt] at hfits
    · cases hsplit
  refine ⟨Nat.pos_of_ne_zero fun hzero => hne ?_, Nat.lt_of_le_of_ne hle fun heq => ?_⟩
  · rw [← hseq, hzero, byte_zero]
  · rw [← heq, hseq, lt] at hin
    simp at hin

variable {touched : TxItem → Prop}

theorem Walks.edits {walk : Walk} (hwalk : Walks numBytes seq retrans nextNode begin list walk)
    (hpos : 0 < numBytes) (hflags : ∀ item other, touched item → item.flags = other.flags →
    touched other) (htouch : ∀ front item back, list = front ++ item :: back →
    Around seq (begin.byte (totalSize front)) item → touched item) :
    Edits touched ⟨list, retrans, nextNode⟩ walk.editing := by
  induction hwalk with
  | @pass begin current rest walk hpast hrest ih =>
    have hbehind := ih fun front item back hlist haround =>
      htouch (current :: front) item back (congrArg (cons current) hlist)
        (by rwa [totalSize_cons, ← byte_byte])
    rw [Walk.editing_behind]
    exact hbehind.lift (fun editing => { editing with list := current :: editing.list })
      fun _ _ hedit => hedit.behind current
  | exact hsz => exact .refl
  | cut hless hsplit =>
    have hcur := htouch [] _ _ rfl
      (by rw [totalSize_nil, byte_zero]; exact .inl rfl)
    exact .single (@Edit.split touched [] _ _ _ _ _ _ hsplit hpos hless hcur)
  | last hend => exact .refl
  | join hend hmerge =>
    have hcur := htouch [] _ _ rfl
      (by rw [totalSize_nil, byte_zero]; exact .inl rfl)
    obtain ⟨⟨hsack, hlost⟩, -⟩ := mergeItems_eq_ok.mp hmerge
    exact .single (@Edit.merge touched [] _ _ _ _ _ _ hmerge hcur
      (hflags _ _ hcur (Prod.ext hsack hlost)))
  | divide hin hne hgt hsplit =>
    obtain ⟨hcut, hless⟩ := cut_inside hin hne hsplit
    have hcur := htouch [] _ _ rfl
      (by rw [totalSize_nil, byte_zero]; exact .inr ⟨hin, hgt⟩)
    exact .single (@Edit.split touched [] _ _ _ _ _ _ hsplit hcut hless hcur)

theorem Walks.position {result : Found}
    (hwalk : Walks numBytes seq retrans nextNode begin list (.found result)) :
    begin.byte (totalSize result.front) = seq := by
  generalize hfound : Walk.found result = walk at hwalk
  induction hwalk generalizing result with
  | @pass begin current rest walk hpast hrest ih =>
    cases walk with
    | found inner =>
      obtain rfl := Walk.found.inj hfound
      rw [totalSize_cons, ← byte_byte]
      exact ih rfl
    | again => cases hfound
  | exact | cut | last =>
    obtain rfl := Walk.found.inj hfound
    exact byte_zero _
  | join => cases hfound
  | divide => cases hfound

section

variable {editing : Editing} {result : Found} (hfinds : Finds numBytes seq begin editing result)
include hfinds

theorem Finds.edits (hpos : 0 < numBytes) (hne : ∀ item ∈ editing.list, 0 < item.size)
    (hflags : ∀ item other, touched item → item.flags = other.flags → touched other)
    (htouch : ∀ front item back,
      (∀ other ∈ front ++ item :: back, 0 < other.size) →
        marks (front ++ item :: back) = marks editing.list →
        Around seq (begin.byte (totalSize front)) item → touched item) :
    Edits touched editing result.editing := by
  induction hfinds with
  | found hwalk =>
    exact hwalk.edits hpos hflags fun front item back hlist =>
      htouch front item back (hlist ▸ hne) (congrArg marks hlist).symm
  | again hwalk hrest ih =>
    have hfst := hwalk.edits hpos hflags fun front item back hlist =>
      htouch front item back (hlist ▸ hne) (congrArg marks hlist).symm
    have hmarks := hfst.marks_eq
    have hkept := chain_keep (fun editing => ∀ item ∈ editing.list, 0 < item.size) hfst
      (fun _ _ hedit => hedit.nonempty) hne
    simp only [Walk.editing] at hmarks hkept
    exact hfst.trans (ih hkept fun front item back hother hlist =>
      htouch front item back hother (hlist.trans hmarks))

theorem Finds.same_bytes (hpos : 0 < numBytes) (hne : ∀ item ∈ editing.list, 0 < item.size) :
    content result.editing.list = content editing.list ∧
      totalSize result.editing.list = totalSize editing.list ∧
      (∀ item ∈ result.editing.list, 0 < item.size) ∧
      ∀ start, Contiguous start editing.list → Contiguous start result.editing.list := by
  have hedits := @Finds.edits _ _ _ (fun _ => True) _ _ hfinds hpos hne
    (fun _ _ _ _ => trivial) (fun _ _ _ _ _ _ => trivial)
  refine ⟨hedits.content_eq, hedits.totalSize_eq, ?_, fun start => ?_⟩
  · exact chain_keep (fun editing => ∀ item ∈ editing.list, 0 < item.size) hedits
      (fun _ _ hedit => hedit.nonempty) hne
  · exact chain_keep (fun editing => Contiguous start editing.list) hedits
      (fun _ _ hedit => hedit.contiguous)

theorem Finds.position : begin.byte (totalSize result.front) = seq := by
  induction hfinds with
  | found hwalk => exact hwalk.position
  | again hwalk hrest ih => exact ih

end

end Walks

end HomaSird.Tcp
