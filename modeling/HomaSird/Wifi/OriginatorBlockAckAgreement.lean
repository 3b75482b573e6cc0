import HomaSird.Wifi.RecipientBlockAckAgreement
import Mathlib.Data.Set.Insert
import Mathlib.Order.Bounds.Basic

/-! # The originator of a block ack agreement

The transmit window is a vector of bits with a head that goes round. Beside it stand the number
that the window starts at, with no end to the numbers, and the numbers that have been
acknowledged: the next start is the least number from some number on that is not one of them.
-/

namespace HomaSird.Wifi

namespace BlockAckWindow

/-- `At (distance)` -/
def readAt (self : BlockAckWindow) (distance : Nat) : Except BlockAckFault Bool :=
  if distance < self.winSize then
    .ok (self.window.getD ((self.head + distance) % self.winSize) false)
  else .error .assertion

end BlockAckWindow

open BlockAckWindow

def initTxWindow (startingSeq bufferSize : Nat) : BlockAckWindow := .init startingSeq bufferSize

/-- The loop of `AdvanceTxWindow`; one that does not end has no result either. -/
def advanceLoop : Nat → BlockAckWindow → Except BlockAckFault BlockAckWindow
  | 0, _ => .error .assertion
  | fuel + 1, txWindow => do
    if ← txWindow.readAt 0 then advanceLoop fuel (txWindow.advance 1) else return txWindow

def advanceTxWindow (txWindow : BlockAckWindow) : Except BlockAckFault BlockAckWindow :=
  advanceLoop (txWindow.winSize + 1) txWindow

def notifyTransmittedMpdu (txWindow : BlockAckWindow) (mpduSeqNumber : Nat) :
    Except BlockAckFault BlockAckWindow := do
  let distance ← getDistance mpduSeqNumber txWindow.winStart
  if distance ≥ seqnoSpaceHalfSize then return txWindow
  else if distance ≥ txWindow.winSize then
    advanceTxWindow (txWindow.advance (distance - txWindow.winSize + 1))
  else return txWindow

def notifyAckedMpdu (txWindow : BlockAckWindow) (mpduSeqNumber : Nat) :
    Except BlockAckFault BlockAckWindow := do
  let distance ← getDistance mpduSeqNumber txWindow.winStart
  if distance ≥ seqnoSpaceHalfSize then return txWindow
  else advanceTxWindow (← txWindow.setAt distance)

def notifyDiscardedMpdu (txWindow : BlockAckWindow) (mpduSeqNumber : Nat) :
    Except BlockAckFault BlockAckWindow := do
  let distance ← getDistance mpduSeqNumber txWindow.winStart
  if distance ≥ seqnoSpaceHalfSize then return txWindow
  else advanceTxWindow (txWindow.advance (distance + 1))

/-! ## Bits around a head -/

/-- The bits from the head on tell which of the numbers from the start on are acknowledged. -/
structure Shows (size : Nat) (state : List Bool × Nat) (start : Int) (acked : Set Int) : Prop where
  length : state.1.length = size
  head : state.2 < size
  bits : ∀ i < size, (state.1.getD ((state.2 + i) % size) false = true ↔ start + i ∈ acked)

section Bits

variable {size : Nat} {state : List Bool × Nat} {start : Int} {acked : Set Int}

theorem getD_set {window : List Bool} {place : Nat} (hplace : place < window.length) (bit : Bool)
    (other : Nat) :
    (window.set place bit).getD other false =
      if other = place then bit else window.getD other false := by
  rw [List.getD_eq_getElem?_getD, List.getD_eq_getElem?_getD, List.getElem?_set]
  by_cases hsame : place = other
  · subst hsame
    simp [hplace]
  · rw [if_neg hsame, if_neg (Ne.symm hsame)]

theorem place_inj {head first second : Nat} (hhead : head < size) (hfst : first < size) (hsnd :
    second < size) (hsame : (head + first) % size = (head + second) % size) : first = second := by
  have hplace : ∀ distance < size, (head + distance) % size = head + distance ∨
      (head + distance) % size + size = head + distance := by
    intro distance hdistance
    rcases Nat.lt_or_ge (head + distance) size with hlt | hge
    · exact .inl (Nat.mod_eq_of_lt hlt)
    · right
      rw [Nat.mod_eq_sub_mod hge, Nat.mod_eq_of_lt (by omega)]
      omega
  have hplaceFirst := hplace first hfst
  have hplaceSecond := hplace second hsnd
  omega

theorem Shows.clear (hshows : Shows size state start acked)
    (hbelow : ∀ number ∈ acked, number < start + size)
    (count : Nat) : Shows size (BlockAckWindow.clear size count state) (start + count) acked := by
  induction count generalizing state start with
  | zero => simpa [BlockAckWindow.clear] using hshows
  | succ count ih =>
    obtain ⟨window, head⟩ := state
    obtain ⟨hlen, hhead, hbits⟩ := hshows
    dsimp only at hlen hhead hbits
    have hstep : Shows size (window.set head false, (head + 1) % size) (start + 1) acked := by
      refine ⟨by simpa using hlen, Nat.mod_lt _ (by omega), fun i hi => ?_⟩
      have hplace : ((head + 1) % size + i) % size = (head + (i + 1)) % size := by
        rw [Nat.mod_add_mod, Nat.add_assoc, Nat.add_comm 1 i]
      rw [hplace, getD_set (by omega)]
      rcases Nat.lt_or_ge (i + 1) size with hlt | hge
      · have hother : (head + (i + 1)) % size ≠ head := by
          intro hsame
          have hzero := @place_inj size head (i + 1) 0 hhead hlt (by omega)
            (by rw [hsame, Nat.add_zero, Nat.mod_eq_of_lt hhead])
          omega
        rw [if_neg hother, hbits (i + 1) hlt]
        push_cast
        rw [Int.add_assoc, Int.add_comm 1]
      · -- the bit that was the head's becomes the last one
        obtain rfl : size = i + 1 := by omega
        rw [Nat.add_mod_right, Nat.mod_eq_of_lt hhead, if_pos rfl]
        simp only [Bool.false_eq_true, false_iff]
        intro hacked
        have hlt := hbelow _ hacked
        push_cast at hlt
        omega
    have hlater := ih hstep (fun number hnumber => by have := hbelow number hnumber; omega)
    rw [BlockAckWindow.clear]
    push_cast
    rwa [Int.add_comm (count : Int), ← Int.add_assoc]

/-- A bit is set. -/
theorem Shows.set (hshows : Shows size state start acked) {distance : Nat}
    (hdistance : distance < size) :
    Shows size (state.1.set ((state.2 + distance) % size) true, state.2) start
      (insert (start + distance) acked) := by
  obtain ⟨hlen, hhead, hbits⟩ := hshows
  refine ⟨by simpa using hlen, hhead, fun i hi => ?_⟩
  rw [getD_set (by rw [hlen]; exact Nat.mod_lt _ (by omega)), Set.mem_insert_iff]
  by_cases hsame : i = distance
  · rw [hsame, if_pos rfl]
    simp
  · rw [if_neg fun hplace => hsame (place_inj hhead hi hdistance hplace), hbits i hi]
    constructor
    · exact .inr
    · rintro (hnumber | hacked)
      · omega
      · exact hacked

end Bits

/-! ## The window -/

structure Agrees (size : Nat) (txWindow : BlockAckWindow) (start : Int) (acked : Set Int) :
    Prop where
  winStart : (txWindow.winStart : Int) = start % 4096
  shows : Shows size (txWindow.window, txWindow.head) start acked

section Window

variable {size : Nat} {txWindow : BlockAckWindow} {start number : Int} {acked : Set Int}

theorem Agrees.init {startingSeq : Nat} (hseq : startingSeq < 4096)
    (hsz : 0 < size) : Agrees size (initTxWindow startingSeq size) startingSeq ∅ := by
  refine ⟨?_, List.length_replicate, hsz, fun i hi => ?_⟩
  · change (startingSeq : Int) = _
    omega
  · simp [initTxWindow, BlockAckWindow.init, List.getD_eq_getElem?_getD, Nat.mod_lt _ hsz]

theorem Agrees.readAt_eq (hagrees : Agrees size txWindow start acked)
    {distance : Nat} (hdistance : distance < size) :
    ∃ bit, txWindow.readAt distance = .ok bit ∧ (bit = true ↔ start + distance ∈ acked) := by
  obtain ⟨hlen, hhead, hbits⟩ := hagrees.shows
  have hsz : txWindow.winSize = size := hlen
  exact ⟨_, if_pos (by omega), hsz ▸ hbits distance hdistance⟩

theorem Agrees.advance (hagrees : Agrees size txWindow start acked)
    (hbelow : ∀ number ∈ acked, number < start + size)
    (count : Nat) : Agrees size (txWindow.advance count) (start + count) acked := by
  obtain ⟨hwinStart, hshows⟩ := hagrees
  have hsz : txWindow.winSize = size := hshows.length
  rw [BlockAckWindow.advance]
  split
  next hpast =>
    refine ⟨?_, List.length_replicate.trans hsz, Nat.zero_lt_of_lt hshows.head, fun i hi => ?_⟩
    · change (((txWindow.winStart + count) % 4096 : Nat) : Int) = _
      omega
    · -- everything acknowledged lies behind the new start
      have hnot : start + count + i ∉ acked := fun hacked => by
        have := hbelow _ hacked
        omega
      simp [BlockAckWindow.reset, BlockAckWindow.init, List.getD_eq_getElem?_getD, hsz,
        Nat.mod_lt i (Nat.zero_lt_of_lt hi), hnot]
  next hin =>
    refine ⟨?_, ?_⟩
    · change (((txWindow.winStart + count) % 4096 : Nat) : Int) = _
      omega
    · exact hsz ▸ hshows.clear hbelow count

/-- The loop stops at the least number from the start on that is not acknowledged. -/
theorem advanceLoop_eq (hbelow : ∀ number ∈ acked, number < start + size)
    {fuel : Nat} {limit : Int} (hlim : ∀ number ∈ acked, number < limit)
    (hfuel : limit - start < fuel) (hpos : 0 < fuel) (hagrees : Agrees size txWindow start acked) :
    ∃ next first, advanceLoop fuel txWindow = .ok next ∧
    Agrees size next first acked ∧ IsLeast {number | start ≤ number ∧ number ∉ acked} first := by
  induction fuel generalizing txWindow start with
  | zero => exact absurd hpos (lt_irrefl 0)
  | succ fuel ih =>
    have hsz := Nat.zero_lt_of_lt hagrees.shows.head
    obtain ⟨bit, hread, hbit⟩ := hagrees.readAt_eq hsz
    rw [Int.natCast_zero, Int.add_zero] at hbit
    simp only [advanceLoop, hread, bind, Except.bind, pure, Except.pure]
    cases bit with
    | false =>
      have hnot : start ∉ acked := fun hacked => by simpa using hbit.mpr hacked
      exact ⟨txWindow, start, rfl, hagrees, ⟨Int.le_refl _, hnot⟩, fun _ hnumber => hnumber.1⟩
    | true =>
      have hacked := hbit.mp rfl
      have hlast := hlim start hacked
      obtain ⟨next, first, hloop, hnext, hleast, hlower⟩ := ih
        (fun number hnumber => by have := hbelow number hnumber; omega)
        (by push_cast at hfuel; omega) (by push_cast at hfuel; omega) (hagrees.advance hbelow 1)
      refine ⟨next, first, hloop, hnext, ⟨by have := hleast.1; omega, hleast.2⟩, ?_⟩
      rintro number ⟨hfrom, hnumber⟩
      refine hlower ⟨?_, hnumber⟩
      have hne : number ≠ start := fun hsame => hnumber (hsame ▸ hacked)
      push_cast
      omega

theorem Agrees.advanceTxWindow (hagrees : Agrees size txWindow start acked)
    (hbelow : ∀ number ∈ acked, number < start + size) :
    ∃ next first,
      advanceTxWindow txWindow = .ok next ∧ Agrees size next first acked ∧
        IsLeast {number | start ≤ number ∧ number ∉ acked} first := by
  have hsz : txWindow.winSize = size := hagrees.shows.length
  refine advanceLoop_eq hbelow hbelow ?_ (Nat.succ_pos _) hagrees
  push_cast
  omega

theorem Agrees.advanceTxWindow_eq (hagrees : Agrees size txWindow start acked)
    (hnot : start ∉ acked) : Wifi.advanceTxWindow txWindow = .ok txWindow := by
  obtain ⟨bit, hread, hbit⟩ := hagrees.readAt_eq (Nat.zero_lt_of_lt hagrees.shows.head)
  rw [Int.natCast_zero, Int.add_zero] at hbit
  obtain rfl : bit = false := by simpa [hnot] using hbit
  simp [Wifi.advanceTxWindow, advanceLoop, hread, bind, Except.bind, pure, Except.pure]

/-- A number near the start lies as far ahead as its sequence number. -/
theorem Agrees.getDistance_eq (hagrees : Agrees size txWindow start acked)
    (hbehind : start - number ≤ 2048) (hahead : number - start < 2048) :
    ∃ distance,
      getDistance (number % 4096).toNat txWindow.winStart = .ok distance ∧
        (start ≤ number ∧ distance < 2048 ∧ number = start + distance ∨
          number < start ∧ 2048 ≤ distance) := by
  have hwinStart := hagrees.winStart
  refine ⟨_, if_pos ⟨by unfold seqnoSpaceSize; omega, by unfold seqnoSpaceSize; omega⟩, ?_⟩
  unfold seqnoSpaceSize
  omega

end Window

/-! ## Runs -/

inductive Notify
  | transmitted
  | acked
  | discarded
deriving DecidableEq

def Notify.apply (event : Notify) : BlockAckWindow → Nat → Except BlockAckFault BlockAckWindow :=
  match event with
  | .transmitted => notifyTransmittedMpdu
  | .acked => notifyAckedMpdu
  | .discarded => notifyDiscardedMpdu

def Notify.note (event kind : Notify) (number : Int) (numbers : Set Int) : Set Int :=
  if event = kind then insert number numbers else numbers

/-- The least start that an event leaves room for. -/
def Notify.required (event : Notify) (size : Nat) (start number : Int) : Int :=
  match event with
  | .transmitted => max start (number - size + 1)
  | .acked => start
  | .discarded => max start (number + 1)

/-- The window of the code; the start and the numbers of the reference window, and what was
transmitted. -/
structure TxRun where
  txWindow : BlockAckWindow
  start : Int
  acked : Set Int
  transmitted : Set Int

namespace TxRun

/-- A transmitted MPDU has the number nearest to the start that its sequence number stands for. -/
def Offered (run : TxRun) (event : Notify) (number : Int) : Prop :=
  match event with
  | .transmitted => run.start - number ≤ 2048 ∧ number - run.start < 2048
  | _ => number ∈ run.transmitted ∧ run.start - number < 2048

/-- The code returns, and the reference window starts at the least number required and not
acknowledged. -/
structure Slides (size : Nat) (event : Notify) (number : Int) (run next : TxRun) : Prop where
  code : event.apply run.txWindow (number % 4096).toNat = .ok next.txWindow
  acked : next.acked = event.note .acked number run.acked
  transmitted : next.transmitted = event.note .transmitted number run.transmitted
  start : IsLeast {other | event.required size run.start number ≤ other ∧ other ∉ next.acked}
    next.start

inductive Reached (startingSeq size : Nat) : TxRun → Prop
  | init : Reached startingSeq size ⟨initTxWindow startingSeq size, startingSeq, ∅, ∅⟩
  | step {run next : TxRun} {event : Notify} {number : Int} (hrun : Reached startingSeq size run)
      (hoffer : run.Offered event number) (hslides : Slides size event number run next) :
      Reached startingSeq size next

/-- The window of the code is the reference window. -/
structure IsReference (size : Nat) (run : TxRun) : Prop where
  winStart : (run.txWindow.winStart : Int) = run.start % 4096
  at_iff : ∀ distance < size, ∃ bit, run.txWindow.readAt distance = .ok bit ∧
    (bit = true ↔ run.start + distance ∈ run.acked)
  acked_lt : ∀ number ∈ run.acked, number < run.start + size
  unacked : run.start ∉ run.acked

structure Kept (size : Nat) (run : TxRun) : Prop where
  agrees : Agrees size run.txWindow run.start run.acked
  acked_lt : ∀ number ∈ run.acked, number < run.start + size
  unacked : run.start ∉ run.acked
  transmitted_lt : ∀ number ∈ run.transmitted,
    number < run.start + size ∧ number < run.start + 2048

variable {size : Nat} {run next other : TxRun} {event : Notify} {number : Int}

theorem Slides.unique (hnext : Slides size event number run next)
    (hother : Slides size event number run other) : next = other := by
  obtain ⟨hcode, hacked, htransmitted, hstart⟩ := hnext
  obtain ⟨hcode', hacked', htransmitted', hstart'⟩ := hother
  have hsame : next.acked = other.acked := hacked.trans hacked'.symm
  rw [hsame] at hstart
  obtain ⟨txWindow, start, acked, transmitted⟩ := next
  obtain ⟨txWindow', start', acked', transmitted'⟩ := other
  obtain rfl : txWindow = txWindow' := Except.ok.inj (hcode.symm.trans hcode')
  obtain rfl : start = start' := hstart.unique hstart'
  obtain rfl : acked = acked' := hsame
  obtain rfl : transmitted = transmitted' := htransmitted.trans htransmitted'.symm
  rfl

theorem Kept.near (hkept : Kept size run) (hoffer : run.Offered event number) :
    run.start - number ≤ 2048 ∧ number - run.start < 2048 := by
  cases event with
  | transmitted => exact hoffer
  | acked =>
    have := (hkept.transmitted_lt number hoffer.1).2
    exact ⟨by have := hoffer.2; omega, by omega⟩
  | discarded =>
    have := (hkept.transmitted_lt number hoffer.1).2
    exact ⟨by have := hoffer.2; omega, by omega⟩

/-- The loop starts where the event requires. -/
theorem Kept.slides (hkept : Kept size run) (hoffer : run.Offered event number)
    {moved : BlockAckWindow}
    (hcode : event.apply run.txWindow (number % 4096).toNat = advanceTxWindow moved)
    (hagrees : Agrees size moved (event.required size run.start number)
      (event.note .acked number run.acked)) :
    ∃ next, Slides size event number run next ∧ Kept size next := by
  have hnear := (hkept.near hoffer).2
  have hrequired : run.start ≤ event.required size run.start number := by
    cases event <;> simp only [Notify.required] <;> omega
  have hacked : ∀ other ∈ event.note .acked number run.acked, other < run.start + size := by
    cases event with
    | acked =>
      rintro other (rfl | hother)
      · exact (hkept.transmitted_lt other hoffer.1).1
      · exact hkept.acked_lt other hother
    | transmitted => exact hkept.acked_lt
    | discarded => exact hkept.acked_lt
  have hold : ∀ other ∈ run.transmitted, other < event.required size run.start number + size ∧
      other < event.required size run.start number + 2048 := by
    intro other hother
    have := hkept.transmitted_lt other hother
    omega
  have hsent : ∀ other ∈ event.note .transmitted number run.transmitted,
      other < event.required size run.start number + size ∧
        other < event.required size run.start number + 2048 := by
    cases event with
    | transmitted =>
      rintro other (rfl | hother)
      · simp only [Notify.required]
        omega
      · exact hold other hother
    | acked => exact hold
    | discarded => exact hold
  obtain ⟨after, first, hloop, hafter, hleast⟩ := hagrees.advanceTxWindow fun other hother => by
    have := hacked other hother
    omega
  have hfst := hleast.1.1
  refine ⟨⟨after, first, event.note .acked number run.acked,
    event.note .transmitted number run.transmitted⟩, ⟨hcode.trans hloop, rfl, rfl, hleast⟩, hafter,
    fun other hother => ?_, hleast.1.2, fun other hother => ?_⟩
  · have := hacked other hother
    dsimp only
    omega
  · have := hsent other hother
    dsimp only
    omega

theorem Kept.transmitted (hkept : Kept size run) (hsz : 0 < size)
    (hoffer : run.Offered .transmitted number) :
    ∃ next, Slides size .transmitted number run next ∧ Kept size next := by
  obtain ⟨distance, hdist, hplace⟩ := hkept.agrees.getDistance_eq hoffer.1 hoffer.2
  have hwinSize : run.txWindow.winSize = size := hkept.agrees.shows.length
  by_cases hbeyond : distance < 2048 ∧ size ≤ distance
  · have hrequired : Notify.required .transmitted size run.start number =
        run.start + (distance - size + 1 : Nat) := by
      simp only [Notify.required]
      omega
    refine hkept.slides hoffer ?_
      (hrequired ▸ hkept.agrees.advance hkept.acked_lt (distance - size + 1))
    simp [Notify.apply, notifyTransmittedMpdu, hdist, bind, Except.bind, hwinSize, hbeyond.2,
      not_le.mpr hbeyond.1, seqnoSpaceHalfSize, seqnoSpaceSize]
  · have hrequired : Notify.required .transmitted size run.start number = run.start := by
      simp only [Notify.required]
      omega
    refine hkept.slides hoffer ?_ (hrequired ▸ hkept.agrees)
    rw [hkept.agrees.advanceTxWindow_eq hkept.unacked]
    simp only [Notify.apply, notifyTransmittedMpdu, hdist, bind, Except.bind, hwinSize,
      seqnoSpaceHalfSize, seqnoSpaceSize, pure, Except.pure]
    split
    · rfl
    · rw [if_neg (by omega)]

theorem Kept.acked (hkept : Kept size run) (hoffer : run.Offered .acked number) :
    ∃ next, Slides size .acked number run next ∧ Kept size next := by
  obtain ⟨hbehind, hahead⟩ := hkept.near hoffer
  obtain ⟨distance, hdist, hplace⟩ := hkept.agrees.getDistance_eq hbehind hahead
  have hlt := (hkept.transmitted_lt number hoffer.1).1
  rcases hplace with ⟨hle, hnear, hnumber⟩ | ⟨hold, hfar⟩
  · have hwinSize : run.txWindow.winSize = size := hkept.agrees.shows.length
    have hin : distance < size := by omega
    have hset : Agrees size { run.txWindow with
        window := run.txWindow.window.set ((run.txWindow.head + distance) % size) true }
        run.start (insert number run.acked) :=
      ⟨hkept.agrees.winStart, hnumber ▸ hkept.agrees.shows.set hin⟩
    refine hkept.slides hoffer ?_ hset
    simp [Notify.apply, notifyAckedMpdu, hdist, bind, Except.bind, not_le.mpr hnear,
      seqnoSpaceHalfSize, seqnoSpaceSize, BlockAckWindow.setAt, hwinSize, hin]
  · -- the bits begin behind the number
    obtain ⟨hlen, hhead, hbits⟩ := hkept.agrees.shows
    refine hkept.slides hoffer ?_
      ⟨hkept.agrees.winStart, hlen, hhead, fun i hi => (hbits i hi).trans ?_⟩
    · rw [hkept.agrees.advanceTxWindow_eq hkept.unacked]
      simp [Notify.apply, notifyAckedMpdu, hdist, bind, Except.bind, hfar, seqnoSpaceHalfSize,
        seqnoSpaceSize, pure, Except.pure]
    · change _ ↔ _ ∈ insert number run.acked
      rw [Set.mem_insert_iff, or_iff_right (by change run.start + (i : Int) ≠ number; omega)]
      rfl

theorem Kept.discarded (hkept : Kept size run) (hoffer : run.Offered .discarded number) :
    ∃ next, Slides size .discarded number run next ∧ Kept size next := by
  obtain ⟨hbehind, hahead⟩ := hkept.near hoffer
  obtain ⟨distance, hdist, hplace⟩ := hkept.agrees.getDistance_eq hbehind hahead
  rcases hplace with ⟨hle, hnear, hnumber⟩ | ⟨hold, hfar⟩
  · have hrequired : Notify.required .discarded size run.start number =
        run.start + (distance + 1 : Nat) := by
      simp only [Notify.required]
      omega
    refine hkept.slides hoffer ?_
      (hrequired ▸ hkept.agrees.advance hkept.acked_lt (distance + 1))
    simp [Notify.apply, notifyDiscardedMpdu, hdist, bind, Except.bind, not_le.mpr hnear,
      seqnoSpaceHalfSize, seqnoSpaceSize]
  · have hrequired : Notify.required .discarded size run.start number = run.start := by
      simp only [Notify.required]
      omega
    refine hkept.slides hoffer ?_ (hrequired ▸ hkept.agrees)
    rw [hkept.agrees.advanceTxWindow_eq hkept.unacked]
    simp [Notify.apply, notifyDiscardedMpdu, hdist, bind, Except.bind, hfar, seqnoSpaceHalfSize,
      seqnoSpaceSize, pure, Except.pure]

theorem Kept.step (hkept : Kept size run) (hsz : 0 < size) (hoffer : run.Offered event number) :
    ∃ next, Slides size event number run next ∧ Kept size next := by
  cases event with
  | transmitted => exact hkept.transmitted hsz hoffer
  | acked => exact hkept.acked hoffer
  | discarded => exact hkept.discarded hoffer

theorem Reached.kept {startingSeq : Nat} (hreach : Reached startingSeq size run)
    (hseq : startingSeq < seqnoSpaceSize) (hsz : 0 < size) : Kept size run := by
  induction hreach with
  | init => exact ⟨.init hseq hsz, by simp, by simp, by simp⟩
  | step _ hoffer hslides ih =>
    obtain ⟨next, hnext, hkept⟩ := ih.step hsz hoffer
    exact hslides.unique hnext ▸ hkept

theorem Kept.isReference (hkept : Kept size run) : IsReference size run :=
  ⟨hkept.agrees.winStart, fun _ => hkept.agrees.readAt_eq, hkept.acked_lt, hkept.unacked⟩

/-- In every run the window is the reference window, every event offered has its result, and every
sequence number can be transmitted. -/
theorem txWindow_isReference {startingSeq : Nat} (hseq : startingSeq < seqnoSpaceSize)
    (hsz : 0 < size) (hreach : Reached startingSeq size run) :
    IsReference size run ∧
      (∀ event number, run.Offered event number → ∃ next, Slides size event number run next) ∧
      ∀ seq < seqnoSpaceSize, ∃ number,
        run.Offered .transmitted number ∧ (number % 4096).toNat = seq := by
  have hkept := hreach.kept hseq hsz
  refine ⟨hkept.isReference, fun event number hoffer => ?_, fun seq hseq => ?_⟩
  · obtain ⟨next, hslides, -⟩ := hkept.step hsz hoffer
    exact ⟨next, hslides⟩
  · unfold seqnoSpaceSize at hseq
    refine ⟨run.start + ((seq - run.start + 2048) % 4096 - 2048), ⟨by omega, by omega⟩, by omega⟩

/-- Two MPDUs are sent, the second is acknowledged, and the first discarded: the window starts
behind both, past the end of the sequence numbers. -/
theorem txWindow_isReference_wrapped :
    IsReference 2 ⟨⟨1, [false, false], 0⟩, 4097, insert 4096 ∅, insert 4096 (insert 4095 ∅)⟩ := by
  have hfirst : Reached 4095 2 ⟨⟨4095, [false, false], 0⟩, 4095, ∅, insert 4095 ∅⟩ := by
    refine @Reached.step 4095 2 _ _ .transmitted 4095 .init ⟨by decide, by decide⟩ ?_
    exact ⟨rfl, rfl, rfl, ⟨⟨by decide, id⟩, fun _ hother => hother.1⟩⟩
  have hsecond : Reached 4095 2
      ⟨⟨4095, [false, false], 0⟩, 4095, ∅, insert 4096 (insert 4095 ∅)⟩ := by
    refine @Reached.step 4095 2 _ _ .transmitted 4096 hfirst ⟨by decide, by decide⟩ ?_
    exact ⟨rfl, rfl, rfl, ⟨⟨by decide, id⟩, fun _ hother => hother.1⟩⟩
  have hacked : Reached 4095 2
      ⟨⟨4095, [false, true], 0⟩, 4095, insert 4096 ∅, insert 4096 (insert 4095 ∅)⟩ := by
    refine @Reached.step 4095 2 _ _ .acked 4096 hsecond ⟨.inl rfl, by decide⟩ ?_
    exact ⟨rfl, rfl, rfl, ⟨⟨by decide, by simp⟩, fun _ hother => hother.1⟩⟩
  have hdiscarded : Reached 4095 2
      ⟨⟨1, [false, false], 0⟩, 4097, insert 4096 ∅, insert 4096 (insert 4095 ∅)⟩ := by
    refine @Reached.step 4095 2 _ _ .discarded 4095 hacked ⟨.inr (.inl rfl), by decide⟩ ?_
    refine ⟨rfl, rfl, rfl, ⟨⟨by decide, by simp⟩, fun other hother => ?_⟩⟩
    have hle : 4096 ≤ other := hother.1
    have hne : other ≠ 4096 := fun heq => hother.2 (.inl heq)
    change 4097 ≤ other
    omega
  exact (txWindow_isReference (by decide) (by decide) hdiscarded).1

end TxRun

end HomaSird.Wifi
