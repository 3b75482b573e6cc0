import HomaSird.Data.ReorderBuffer
import HomaSird.Wifi.RecipientBlockAckAgreement

/-! # The calls of a recipient on a reordering buffer

The scoreboard never fails its assertions. A received MPDU and a received block ack request
do to the buffer what accepting, moving and draining do to positions, as long as the numbers
that are subtracted from stay at or above the size of the window.
-/

/-! ## The buffer of a recipient keeps positions in order -/

namespace HomaSird.Wifi.RecipientBlockAckAgreement

open ReorderBuffer List

variable {Payload : Type} {held : List (Nat × Mpdu Payload)} {start pos limit : Nat}
  {mpdu : Mpdu Payload} {agreement : RecipientBlockAckAgreement Payload}

/-- How far a sequence number lies ahead of another on the circle. -/
def distance (seqNumber startingSeqNumber : Nat) : Nat :=
  (seqNumber + seqnoSpaceSize - startingSeqNumber) % seqnoSpaceSize

theorem distance_eq (hle : start ≤ pos) (hlt : pos < start + seqnoSpaceSize) :
    distance (pos % seqnoSpaceSize) (start % seqnoSpaceSize) = pos - start := by
  unfold distance seqnoSpaceSize at *
  omega

theorem mod_lt (pos : Nat) : pos % seqnoSpaceSize < seqnoSpaceSize :=
  Nat.mod_lt _ (by decide)

theorem getDistance_eq {seqNumber startingSeqNumber : Nat}
    (hseq : seqNumber < seqnoSpaceSize) (hstart : startingSeqNumber < seqnoSpaceSize) :
    getDistance seqNumber startingSeqNumber = .ok (distance seqNumber startingSeqNumber) :=
  if_pos ⟨hseq, hstart⟩

theorem compareKey_eq (hle : start ≤ pos) (hlt : pos < start + seqnoSpaceSize) :
    compareKey (start % seqnoSpaceSize) (pos % seqnoSpaceSize) = ((pos - start : Nat) : Int) := by
  have hstart := mod_lt start
  rw [compareKey, Int.tmod_eq_emod_of_nonneg (by omega)]
  unfold seqnoSpaceSize at *
  omega

structure Near (start : Nat) (entries : List (Nat × Mpdu Payload)) : Prop where
  sorted : Sorted entries
  numbers : ∀ entry ∈ entries, entry.2.sequenceNumber = entry.1 % seqnoSpaceSize
  near : ∀ entry ∈ entries, start ≤ entry.1 ∧ entry.1 < start + seqnoSpaceHalfSize

theorem half_lt : seqnoSpaceHalfSize < seqnoSpaceSize := by decide

variable {entry : Nat × Mpdu Payload}

theorem Near.tail {rest : List (Nat × Mpdu Payload)}
    (hnear : Near start (entry :: rest)) : Near start rest :=
  ⟨(pairwise_cons.mp hnear.sorted).2, fun other hmem => hnear.numbers other
    (.tail _ hmem), fun other hmem => hnear.near other (.tail _ hmem)⟩

theorem Near.distance_eq (hnear : Near start held) (hmem : entry ∈ held) :
    distance entry.2.sequenceNumber (start % seqnoSpaceSize) = entry.1 - start := by
  obtain ⟨hle, hlt⟩ := hnear.near entry hmem
  rw [hnear.numbers entry hmem]
  exact RecipientBlockAckAgreement.distance_eq hle
    (Nat.lt_trans hlt (Nat.add_lt_add_left half_lt _))

theorem Near.getDistance_eq (hnear : Near start held) (hmem : entry ∈ held) :
    getDistance entry.2.sequenceNumber (start % seqnoSpaceSize) = .ok (entry.1 - start) := by
  rw [RecipientBlockAckAgreement.getDistance_eq (hnear.numbers entry hmem ▸ mod_lt _) (mod_lt _),
    hnear.distance_eq hmem]

theorem insertMpdu_eq (hnear : Near start held)
    (hnumber : mpdu.sequenceNumber = pos % seqnoSpaceSize) (hle : start ≤ pos)
    (hlt : pos < start + seqnoSpaceSize) :
    insertMpdu (start % seqnoSpaceSize) mpdu (held.map Prod.snd) =
      (insertAt pos mpdu held).map Prod.snd := by
  induction held with
  | nil => rfl
  | cons first rest ih =>
    obtain ⟨hfst, hfirstLt⟩ := hnear.near first mem_cons_self
    have hhalf := half_lt
    have hnew := compareKey_eq hle hlt
    have hold := @compareKey_eq start first.1 hfst (by omega)
    rw [map_cons, insertMpdu, insertAt, hnumber, hnear.numbers first mem_cons_self, hnew, hold]
    by_cases hpre : pos < first.1
    · rw [if_pos hpre, if_pos (by omega), map_cons, map_cons]
    · rw [if_neg hpre, if_neg (by omega)]
      by_cases hbehind : first.1 < pos
      · rw [if_pos hbehind, if_pos (by omega), ih hnear.tail, map_cons]
      · rw [if_neg hbehind, if_neg (by omega), map_cons]

theorem assertNoneOld_eq (hnear : Near start held)
    (hbuf : agreement.bufferedMpdus = held.map Prod.snd)
    (hstart : agreement.winStartB = start % seqnoSpaceSize) : agreement.assertNoneOld = .ok () := by
  rw [assertNoneOld, hbuf, getLast?_map, hstart]
  cases hlast : held.getLast? with
  | none => rfl
  | some last =>
    have hmem := mem_of_getLast? hlast
    obtain ⟨hle, hlt⟩ := hnear.near last hmem
    simp only [Option.map_some, hnear.getDistance_eq hmem, bind, Except.bind,
      if_pos (show last.1 - start < seqnoSpaceHalfSize by omega)]
    rfl

theorem untilFirstLost_eq (hsort : Sorted held)
    (hnum : ∀ entry ∈ held, entry.2.sequenceNumber = entry.1 % seqnoSpaceSize)
    (hnear : ∀ entry ∈ held, start ≤ entry.1 ∧ entry.1 < start + seqnoSpaceSize) :
    untilFirstLost (start % seqnoSpaceSize) (held.map Prod.snd) =
      ((drainFrom start held).1 % seqnoSpaceSize, (drainFrom start held).2.1.map Prod.snd,
        (drainFrom start held).2.2.map Prod.snd) := by
  induction held generalizing start with
  | nil => rfl
  | cons first rest ih =>
    obtain ⟨hfst, hrest⟩ := pairwise_cons.mp hsort
    obtain ⟨hle, hlt⟩ := hnear first mem_cons_self
    have hsame : first.1 % seqnoSpaceSize = start % seqnoSpaceSize ↔ first.1 = start := by
      unfold seqnoSpaceSize at *
      omega
    rw [map_cons, untilFirstLost, drainFrom, hnum first mem_cons_self]
    by_cases hhere : first.1 = start
    · have hnext : (start % seqnoSpaceSize + 1) % seqnoSpaceSize =
          (start + 1) % seqnoSpaceSize := by
        unfold seqnoSpaceSize
        omega
      rw [if_pos (hsame.mpr hhere), if_pos hhere, hnext,
        ih hrest (fun entry hmem => hnum entry (.tail _ hmem))
          (fun entry hmem => ?_)]
      · rfl
      · have hbehind := hfst entry hmem
        have hend := (hnear entry (.tail _ hmem)).2
        omega
    · rw [if_neg fun heq => hhere (hsame.mp heq), if_neg hhere]
      rfl

theorem seqNumberLessThan_eq (hnear : Near start held) (hle : start ≤ limit)
    (hlt : limit < start + seqnoSpaceSize) :
    seqNumberLessThan (limit % seqnoSpaceSize) (start % seqnoSpaceSize) (held.map Prod.snd) =
      .ok ((held.takeWhile fun entry => entry.1 < limit).map Prod.snd,
        (held.dropWhile fun entry => entry.1 < limit).map Prod.snd) := by
  induction held with
  | nil => rfl
  | cons first rest ih =>
    have hfst := (hnear.near first mem_cons_self).1
    rw [map_cons, seqNumberLessThan]
    simp only [hnear.getDistance_eq mem_cons_self,
      getDistance_eq (mod_lt limit) (mod_lt start),
      distance_eq hle hlt, ih hnear.tail, bind, Except.bind]
    by_cases hbelow : first.1 < limit
    · rw [if_pos (by omega), takeWhile_cons_of_pos (by simpa using hbelow),
        dropWhile_cons_of_pos (by simpa using hbelow)]
      rfl
    · rw [if_neg (by omega), takeWhile_cons_of_neg (by simpa using hbelow),
        dropWhile_cons_of_neg (by simpa using hbelow)]
      rfl

end HomaSird.Wifi.RecipientBlockAckAgreement

namespace HomaSird.Wifi

namespace BlockAckWindow

open RecipientBlockAckAgreement List

variable {scoreboard : BlockAckWindow} {winStart winSize count : Nat}

structure Sized (winSize : Nat) (scoreboard : BlockAckWindow) : Prop where
  winStart : scoreboard.winStart < seqnoSpaceSize
  winSize : scoreboard.winSize = winSize

theorem Sized.init (hstart : winStart < seqnoSpaceSize) : Sized winSize (init winStart winSize) :=
  ⟨hstart, length_replicate⟩

theorem Sized.reset (hsized : Sized winSize scoreboard) (hstart : winStart < seqnoSpaceSize) :
    Sized winSize (scoreboard.reset winStart) := by
  rw [BlockAckWindow.reset, hsized.winSize]
  exact .init hstart

theorem clear_length (winSize count : Nat) (state : List Bool × Nat) :
    (clear winSize count state).1.length = state.1.length := by
  induction count generalizing state with
  | zero => rfl
  | succ count ih =>
    rw [clear, ih]
    exact length_set

theorem Sized.advance (hsized : Sized winSize scoreboard) (count : Nat) :
    Sized winSize (scoreboard.advance count) := by
  have hstart : (scoreboard.winStart + count) % seqnoSpaceSize < seqnoSpaceSize :=
    Nat.mod_lt _ (by decide)
  rw [BlockAckWindow.advance]
  split
  · exact hsized.reset hstart
  · exact ⟨hstart, (clear_length _ _ _).trans hsized.winSize⟩

theorem advance_winStart (scoreboard : BlockAckWindow) (count : Nat) :
    (scoreboard.advance count).winStart = (scoreboard.winStart + count) % seqnoSpaceSize := by
  rw [BlockAckWindow.advance]
  split
  · rfl
  · rfl

theorem Sized.setAt (hsized : Sized winSize scoreboard) {ahead : Nat} (hlt : ahead < winSize) :
    ∃ next, scoreboard.setAt ahead = .ok next ∧ Sized winSize next := by
  refine ⟨_, if_pos (hsized.winSize ▸ hlt), hsized.winStart, ?_⟩
  exact length_set.trans hsized.winSize

theorem Sized.notifyReceivedMpdu (hsized : Sized winSize scoreboard) (hpos : 0 < winSize)
    {seqNumber : Nat} (hseq : seqNumber < seqnoSpaceSize) :
    ∃ next, scoreboard.notifyReceivedMpdu seqNumber = .ok next ∧ Sized winSize next := by
  rw [BlockAckWindow.notifyReceivedMpdu, getDistance_eq hseq hsized.winStart]
  simp only [bind, Except.bind]
  split
  next hlt => exact hsized.setAt (hsized.winSize ▸ hlt)
  · split
    · exact (hsized.advance _).setAt (by rw [hsized.winSize]; omega)
    · exact ⟨_, rfl, hsized⟩

theorem Sized.notifyReceivedBar (hsized : Sized winSize scoreboard) {startingSequenceNumber : Nat}
    (hseq : startingSequenceNumber < seqnoSpaceSize) :
    ∃ next,
      scoreboard.notifyReceivedBar startingSequenceNumber = .ok next ∧ Sized winSize next := by
  rw [BlockAckWindow.notifyReceivedBar, getDistance_eq hseq hsized.winStart]
  simp only [bind, Except.bind]
  split
  · have hstart : (scoreboard.advance
        (distance startingSequenceNumber scoreboard.winStart)).winStart =
          startingSequenceNumber := by
      rw [advance_winStart]
      unfold distance seqnoSpaceSize at *
      omega
    rw [if_pos hstart]
    exact ⟨_, rfl, hsized.advance _⟩
  · split
    · exact ⟨_, rfl, hsized.reset hseq⟩
    · exact ⟨_, rfl, hsized⟩

end BlockAckWindow

namespace RecipientBlockAckAgreement

open BlockAckWindow ReorderBuffer

variable {Payload : Type} {agreement : RecipientBlockAckAgreement Payload}
  {buf before : ReorderBuffer (Mpdu Payload)} {mpdu : Mpdu Payload} {limit : Nat}

def keeping (agreement : RecipientBlockAckAgreement Payload)
    (buf : ReorderBuffer (Mpdu Payload)) : RecipientBlockAckAgreement Payload :=
  { agreement with
    winStartB := buf.start % seqnoSpaceSize
    bufferedMpdus := buf.held.map Prod.snd }

def Forwards (agreement : RecipientBlockAckAgreement Payload)
    (before after : ReorderBuffer (Mpdu Payload))
    (result : Except BlockAckFault (RecipientBlockAckAgreement Payload × List (Mpdu Payload))) :
    Prop :=
  ∃ released, result = .ok (agreement.keeping after, released.map Prod.snd) ∧
    after.forwarded = before.forwarded ++ released ∧
      ∀ entry ∈ released, before.start ≤ entry.1

theorem Forwards.of_offer {after : ReorderBuffer (Mpdu Payload)} {pos : Nat}
    {result : Except BlockAckFault (RecipientBlockAckAgreement Payload × List (Mpdu Payload))}
    (hforwards : Forwards agreement (buf.offer pos mpdu) after result) :
    Forwards agreement buf after result := by
  obtain ⟨released, hres, hforw, hahead⟩ := hforwards
  rw [offer_forwarded] at hforw
  rw [offer_start] at hahead
  exact ⟨released, hres, hforw, hahead⟩

theorem forwards_drain (hnear : Near buf.start buf.held) :
    Forwards agreement buf buf.drain (agreement.keeping buf).passBufferedMpdusUntilFirstLost := by
  refine ⟨(drainFrom buf.start buf.held).2.1, ?_, rfl, fun entry hmem => ?_⟩
  · have hnum := untilFirstLost_eq hnear.sorted hnear.numbers fun entry hmem =>
      ⟨(hnear.near entry hmem).1, Nat.lt_trans (hnear.near entry hmem).2
        (Nat.add_lt_add_left half_lt _)⟩
    rw [passBufferedMpdusUntilFirstLost, assertNoneOld_eq hnear rfl rfl]
    simp only [keeping, hnum, bind, Except.bind]
    rfl
  · obtain ⟨next, released, kept, hdrain, hheld, -⟩ :=
      drainFrom_spec hnear.sorted fun other hother => (hnear.near other hother).1
    rw [hdrain] at hmem
    exact (hnear.near entry (hheld ▸ List.mem_append_left _ hmem)).1

theorem near_moveTo (hnear : Near buf.start buf.held) (hle : buf.start ≤ limit) :
    Near limit (buf.moveTo limit).held := by
  have hmem := fun other (hother : other ∈ (buf.moveTo limit).held) =>
    (mem_dropWhile_below hnear.sorted).mp hother
  refine ⟨hnear.sorted.sublist (List.dropWhile_sublist _),
    fun other hother => hnear.numbers other (hmem other hother).1, fun other hother => ?_⟩
  obtain ⟨hheld, hbehind⟩ := hmem other hother
  exact ⟨hbehind, Nat.lt_of_lt_of_le (hnear.near other hheld).2 (Nat.add_le_add_right hle _)⟩

theorem forwards_moveWindow (hnear : Near buf.start buf.held) (hle : buf.start ≤ limit)
    (hlt : limit < buf.start + seqnoSpaceSize) :
    Forwards agreement buf (buf.moveTo limit).drain
      ((agreement.keeping buf).moveWindow (limit % seqnoSpaceSize)) := by
  obtain ⟨released, hdrain, hforw, hahead⟩ :=
    @forwards_drain _ agreement (buf.moveTo limit) (near_moveTo hnear hle)
  refine ⟨(buf.held.takeWhile fun entry => entry.1 < limit) ++ released, ?_, ?_,
    fun entry hmem => ?_⟩
  · have hmoved : (agreement.keeping buf).passBufferedMpdusWithSeqNumberLessThan
        (limit % seqnoSpaceSize) = .ok (agreement.keeping (buf.moveTo limit),
          (buf.held.takeWhile fun entry => entry.1 < limit).map Prod.snd) := by
      have hnum := seqNumberLessThan_eq hnear hle hlt
      rw [passBufferedMpdusWithSeqNumberLessThan, assertNoneOld_eq hnear rfl rfl]
      simp only [keeping, hnum, bind, Except.bind]
      rfl
    rw [moveWindow, hmoved, List.map_append]
    simp only [hdrain, bind, Except.bind]
    rfl
  · rw [hforw]
    exact List.append_assoc _ _ _
  · rcases List.mem_append.mp hmem with hpre | hbehind
    · exact (hnear.near entry ((mem_takeWhile_below hnear.sorted).mp hpre).1).1
    · exact Nat.le_trans hle (hahead entry hbehind)

def bufferMpdu (winSizeB : Nat) (buf : ReorderBuffer (Mpdu Payload)) (mpdu : Mpdu Payload) :
    ReorderBuffer (Mpdu Payload) :=
  let ahead := distance mpdu.sequenceNumber (buf.start % seqnoSpaceSize)
  let stored := buf.offer (buf.start + ahead) mpdu
  if ahead < winSizeB then stored.drain
  else if ahead < seqnoSpaceHalfSize then
    (stored.moveTo (buf.start + ahead + 1 - winSizeB)).drain
  else buf

def bufferBar (buf : ReorderBuffer (Mpdu Payload)) (startingSequenceNumber : Nat) :
    ReorderBuffer (Mpdu Payload) :=
  let ahead := distance startingSequenceNumber (buf.start % seqnoSpaceSize)
  if ahead > 0 ∧ ahead < seqnoSpaceHalfSize then (buf.moveTo (buf.start + ahead)).drain
  else buf

theorem position_mod {seqNumber : Nat} (hseq : seqNumber < seqnoSpaceSize) (start : Nat) :
    (start + distance seqNumber (start % seqnoSpaceSize)) % seqnoSpaceSize = seqNumber := by
  unfold distance seqnoSpaceSize at *
  omega

theorem near_offer (hnear : Near buf.start buf.held) (hseq : mpdu.sequenceNumber < seqnoSpaceSize)
    (hahead : distance mpdu.sequenceNumber (buf.start % seqnoSpaceSize) < seqnoSpaceHalfSize) :
    Near buf.start (buf.offer
        (buf.start + distance mpdu.sequenceNumber (buf.start % seqnoSpaceSize)) mpdu).held := by
  rw [ReorderBuffer.offer]
  split
  · exact hnear
  next hnew =>
    have hother := fun other hmem heq => hnew ⟨other, hmem, heq⟩
    refine ⟨sorted_insertAt hnear.sorted hother, fun other hmem => ?_, fun other hmem => ?_⟩
    · rcases (mem_insertAt hother).mp hmem with rfl | hheld
      · exact (position_mod hseq _).symm
      · exact hnear.numbers other hheld
    · rcases (mem_insertAt hother).mp hmem with rfl | hheld
      · exact ⟨Nat.le_add_right _ _, Nat.add_lt_add_left hahead _⟩
      · exact hnear.near other hheld

theorem keeping_offer (hnear : Near buf.start buf.held)
    (hseq : mpdu.sequenceNumber < seqnoSpaceSize) :
    { agreement.keeping buf with
      bufferedMpdus := insertMpdu (buf.start % seqnoSpaceSize) mpdu
        (buf.held.map Prod.snd) } =
    agreement.keeping (buf.offer (buf.start +
      distance mpdu.sequenceNumber (buf.start % seqnoSpaceSize)) mpdu) := by
  have hlt : distance mpdu.sequenceNumber (buf.start % seqnoSpaceSize) < seqnoSpaceSize :=
    mod_lt _
  rw [insertMpdu_eq hnear (position_mod hseq buf.start).symm (Nat.le_add_right _ _)
    (Nat.add_lt_add_left hlt _)]
  simp only [keeping, offer_held hnear.sorted, offer_start]

theorem jump_eq {winSizeB : Nat} (hpos : 0 < winSizeB) (hseq : mpdu.sequenceNumber < seqnoSpaceSize)
    (hfits : winSizeB ≤ mpdu.sequenceNumber + 1) :
    uint16 (uint64OfInt (mpdu.sequenceNumber - winSizeB + 1)) =
      (buf.start + distance mpdu.sequenceNumber (buf.start % seqnoSpaceSize) + 1 - winSizeB) %
        seqnoSpaceSize := by
  have hmod := position_mod hseq buf.start
  unfold uint16 uint64OfInt seqnoSpaceSize at *
  omega

def Fits (agreement : RecipientBlockAckAgreement Payload) (mpdu : Mpdu Payload) : Prop :=
  agreement.winSizeB ≤ distance mpdu.sequenceNumber agreement.winStartB →
    distance mpdu.sequenceNumber agreement.winStartB < seqnoSpaceHalfSize →
      agreement.winSizeB ≤ mpdu.sequenceNumber + 1

section

variable {winSizeB : Nat} (hnear : Near buf.start buf.held)
  (hsized : Sized winSizeB agreement.scoreboard)
include hnear hsized

theorem notifyReceivedMpdu_eq (hpos : 0 < winSizeB) (hlarge : winSizeB ≤ seqnoSpaceHalfSize)
    (hsz : agreement.winSizeB = winSizeB) (hseq : mpdu.sequenceNumber < seqnoSpaceSize)
    (hfits : (agreement.keeping buf).Fits mpdu) :
    ∃ scoreboard,
      Sized winSizeB scoreboard ∧
        Forwards { agreement with scoreboard } buf (bufferMpdu winSizeB buf mpdu)
          ((agreement.keeping buf).notifyReceivedMpdu mpdu) := by
  obtain ⟨scoreboard, hscoreboard, hnext⟩ := hsized.notifyReceivedMpdu hpos hseq
  refine ⟨scoreboard, hnext, ?_⟩
  subst hsz
  have hstored := @keeping_offer _ { agreement with scoreboard } _ _ hnear hseq
  simp only [keeping] at hstored
  rw [notifyReceivedMpdu, keeping, hscoreboard]
  simp only [bind, Except.bind, getDistance_eq hseq (mod_lt buf.start), hstored]
  rw [bufferMpdu]
  split
  next hin =>
    refine .of_offer (forwards_drain ?_)
    rw [offer_start]
    exact near_offer hnear hseq (Nat.lt_of_lt_of_le hin hlarge)
  next houtside =>
    split
    next hhalf =>
      have hjump := hfits (Nat.not_lt.mp houtside) hhalf
      rw [jump_eq hpos hseq hjump]
      refine .of_offer (forwards_moveWindow ?_ ?_ ?_)
      · rw [offer_start]
        exact near_offer hnear hseq hhalf
      · rw [offer_start]
        omega
      · rw [offer_start]
        have hspace := half_lt
        omega
    · exact ⟨[], rfl, (List.append_nil _).symm, (fun _ hnone => nomatch hnone)⟩

theorem notifyReceivedBar_eq {startingSequenceNumber : Nat}
    (hseq : startingSequenceNumber < seqnoSpaceSize) :
    ∃ scoreboard,
      Sized winSizeB scoreboard ∧
        Forwards { agreement with scoreboard } buf (bufferBar buf startingSequenceNumber)
          ((agreement.keeping buf).notifyReceivedBar startingSequenceNumber) := by
  obtain ⟨scoreboard, hscoreboard, hnext⟩ := hsized.notifyReceivedBar hseq
  refine ⟨scoreboard, hnext, ?_⟩
  have hlim := position_mod hseq buf.start
  rw [notifyReceivedBar, keeping, hscoreboard]
  simp only [bind, Except.bind, getDistance_eq hseq (mod_lt buf.start)]
  rw [bufferBar]
  split
  next hahead =>
    have hmoved := @forwards_moveWindow _ { agreement with scoreboard } _ _ hnear
      (Nat.le_add_right _ _) (Nat.add_lt_add_left (Nat.lt_trans hahead.2 half_lt) _)
    rwa [hlim] at hmoved
  · exact ⟨[], rfl, (List.append_nil _).symm, (fun _ hnone => nomatch hnone)⟩

end

end RecipientBlockAckAgreement

end HomaSird.Wifi
