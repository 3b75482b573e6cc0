import HomaSird.Transition.Machine
import HomaSird.Wifi.RecipientCalls

/-! # A recipient passes MPDUs up in order, once

Beside the agreement a run remembers, in positions that go on counting, where the window
starts, up to where it has been moved, what has been accepted and what has been forwarded.
All of this is read off what the code returns.
-/

namespace HomaSird.Wifi

open RecipientBlockAckAgreement ReorderBuffer Transition List

variable {Payload : Type} {bufferSize startingSeq : Nat}

inductive BlockAckCall (Payload : Type) where
  | notifyReceivedMpdu (mpdu : Mpdu Payload)
  | notifyReceivedBar (startingSequenceNumber : Nat)

structure RecipientRun (Payload : Type) where
  agreement : RecipientBlockAckAgreement Payload
  start : Nat
  passed : Nat
  accepted : List (Nat × Mpdu Payload)
  forwarded : List (Nat × Mpdu Payload)

namespace RecipientRun

def ahead (run : RecipientRun Payload) (seqNumber : Nat) : Nat :=
  distance seqNumber run.agreement.winStartB

def Buffered (agreement : RecipientBlockAckAgreement Payload) (seqNumber : Nat) : Prop :=
  seqNumber ∈ agreement.bufferedMpdus.map Mpdu.sequenceNumber

instance (agreement : RecipientBlockAckAgreement Payload) (seqNumber : Nat) :
    Decidable (Buffered agreement seqNumber) :=
  inferInstanceAs (Decidable (_ ∈ _))

def advance (run : RecipientRun Payload) (passed : Nat) (accepted : List (Nat × Mpdu Payload))
    (result : RecipientBlockAckAgreement Payload × List (Mpdu Payload)) : RecipientRun Payload where
  agreement := result.1
  start := run.start + run.ahead result.1.winStartB
  passed
  accepted
  forwarded := run.forwarded ++
    result.2.map fun mpdu => (run.start + run.ahead mpdu.sequenceNumber, mpdu)

def step (run : RecipientRun Payload) :
    BlockAckCall Payload → Except BlockAckFault (RecipientRun Payload)
  | .notifyReceivedMpdu mpdu => do
    let result ← run.agreement.notifyReceivedMpdu mpdu
    let pos := run.start + run.ahead mpdu.sequenceNumber
    let inWindow := run.ahead mpdu.sequenceNumber < run.agreement.winSizeB
    let passed := if ¬inWindow ∧ run.ahead mpdu.sequenceNumber < seqnoSpaceHalfSize then
      pos + 1 - run.agreement.winSizeB else run.passed
    let accepted := if run.ahead mpdu.sequenceNumber < seqnoSpaceHalfSize ∧
      ¬Buffered run.agreement mpdu.sequenceNumber then
        run.accepted ++ [(pos, mpdu)] else run.accepted
    return run.advance passed accepted result
  | .notifyReceivedBar startingSequenceNumber => do
    let result ← run.agreement.notifyReceivedBar startingSequenceNumber
    let ahead := run.ahead startingSequenceNumber
    let passed := if ahead > 0 ∧ ahead < seqnoSpaceHalfSize then run.start + ahead
      else run.passed
    return run.advance passed run.accepted result

def machine (Payload : Type) (bufferSize startingSeq : Nat) :
    Machine (RecipientRun Payload) (BlockAckCall Payload) BlockAckFault where
  init := ⟨.create bufferSize startingSeq, startingSeq, startingSeq, [], []⟩
  step := step

def Offered : BlockAckCall Payload → Prop
  | .notifyReceivedMpdu mpdu => mpdu.sequenceNumber < seqnoSpaceSize
  | .notifyReceivedBar startingSequenceNumber => startingSequenceNumber < seqnoSpaceSize

/-- No MPDU that moves the window is numbered below the size of the window less one. -/
def Fitting (run : RecipientRun Payload) : BlockAckCall Payload → Prop
  | .notifyReceivedMpdu mpdu => run.agreement.Fits mpdu
  | .notifyReceivedBar _ => True

/-! ## What stays true of the positions -/

structure Tidy (bufferSize : Nat) (buf : ReorderBuffer (Mpdu Payload)) : Prop where
  inOrder : InOrder buf
  window : ∀ entry ∈ buf.held, buf.start < entry.1 ∧ entry.1 < buf.start + bufferSize
  numbers : ∀ entry ∈ buf.accepted, entry.2.sequenceNumber = entry.1 % seqnoSpaceSize

variable {buf : ReorderBuffer (Mpdu Payload)} {mpdu : Mpdu Payload} {limit bound : Nat}

theorem Tidy.initial (startingSeq : Nat) :
    Tidy bufferSize (initial startingSeq : ReorderBuffer (Mpdu Payload)) :=
  ⟨.initial _, (fun _ hnone => nomatch hnone), (fun _ hnone => nomatch hnone)⟩

theorem Tidy.near (htidy : Tidy bufferSize buf) (hsz : bufferSize ≤ seqnoSpaceHalfSize) :
    Near buf.start buf.held where
  sorted := htidy.inOrder.sorted
  numbers entry hmem := htidy.numbers entry ((htidy.inOrder.settled entry).mpr (.inr hmem))
  near entry hmem := by
    obtain ⟨hbehind, hlt⟩ := htidy.window entry hmem
    omega

theorem Tidy.of_drain (hbuf : InOrder buf) (hwin :
    ∀ entry ∈ buf.held, entry.1 < buf.start + bufferSize) (hnum : ∀ entry ∈ buf.accepted,
    entry.2.sequenceNumber = entry.1 % seqnoSpaceSize) : Tidy bufferSize buf.drain := by
  obtain ⟨horder, hbehind⟩ := hbuf.drain
  obtain ⟨hstart, hheld, -⟩ := hbuf.drain_bounds
  refine ⟨horder, fun entry hmem => ⟨hbehind entry hmem, ?_⟩, hnum⟩
  exact Nat.lt_of_lt_of_le (hwin entry (hheld entry hmem)) (Nat.add_le_add_right hstart _)

section

variable (htidy : Tidy bufferSize buf)
include htidy

theorem numbers_offer (hseq : mpdu.sequenceNumber < seqnoSpaceSize) :
    ∀ entry ∈ (buf.offer (buf.start + distance mpdu.sequenceNumber (buf.start % seqnoSpaceSize))
        mpdu).accepted,
      entry.2.sequenceNumber = entry.1 % seqnoSpaceSize := by
  intro entry hmem
  rw [ReorderBuffer.offer] at hmem
  split at hmem
  · exact htidy.numbers entry hmem
  · rcases mem_append.mp hmem with hold | hnew
    · exact htidy.numbers entry hold
    · obtain rfl := mem_singleton.mp hnew
      exact (position_mod hseq _).symm

theorem Tidy.bufferMpdu (hseq : mpdu.sequenceNumber < seqnoSpaceSize) :
    Tidy bufferSize (bufferMpdu bufferSize buf mpdu) := by
  have hoffer : InOrder (buf.offer (buf.start +
      distance mpdu.sequenceNumber (buf.start % seqnoSpaceSize)) mpdu) :=
    htidy.inOrder.offer (Nat.le_add_right _ _)
  rw [RecipientBlockAckAgreement.bufferMpdu]
  split
  next hin =>
    refine .of_drain hoffer (fun entry hmem => ?_) (numbers_offer htidy hseq)
    rw [offer_start]
    rcases mem_offer_held htidy.inOrder.sorted hmem with rfl | hheld
    · exact Nat.add_lt_add_left hin _
    · exact (htidy.window entry hheld).2
  next houtside =>
    split
    · refine .of_drain (hoffer.moveTo ?_) (fun entry hmem => ?_) (numbers_offer htidy hseq)
      · rw [offer_start]
        omega
      · change entry.1 < _ + 1 - bufferSize + bufferSize
        have hoffered := ((mem_dropWhile_below hoffer.sorted).mp hmem).1
        rcases mem_offer_held htidy.inOrder.sorted hoffered with rfl | hheld
        · dsimp only
          omega
        · have hlt := (htidy.window entry hheld).2
          omega
    · exact htidy

theorem Tidy.bufferBar (startingSequenceNumber : Nat) :
    Tidy bufferSize (bufferBar buf startingSequenceNumber) := by
  rw [RecipientBlockAckAgreement.bufferBar]
  split
  · refine .of_drain (htidy.inOrder.moveTo (Nat.le_add_right _ _)) (fun entry hmem => ?_)
      htidy.numbers
    have hheld := ((mem_dropWhile_below htidy.inOrder.sorted).mp hmem).1
    have hlt := (htidy.window entry hheld).2
    change entry.1 < buf.start + _ + bufferSize
    omega
  · exact htidy

theorem start_le_bufferMpdu (hpos : 0 < bufferSize) (hsz : bufferSize ≤ seqnoSpaceHalfSize) :
    buf.start ≤ (bufferMpdu bufferSize buf mpdu).start ∧
    (bufferMpdu bufferSize buf mpdu).start ≤ buf.start + seqnoSpaceHalfSize := by
  have hoffer : InOrder (buf.offer (buf.start +
      distance mpdu.sequenceNumber (buf.start % seqnoSpaceSize)) mpdu) :=
    htidy.inOrder.offer (Nat.le_add_right _ _)
  have hbelow : distance mpdu.sequenceNumber (buf.start % seqnoSpaceSize) <
      seqnoSpaceHalfSize → ∀ entry ∈ (buf.offer (buf.start +
        distance mpdu.sequenceNumber (buf.start % seqnoSpaceSize)) mpdu).held,
          entry.1 < buf.start + seqnoSpaceHalfSize := by
    intro hhalf entry hmem
    rcases mem_offer_held htidy.inOrder.sorted hmem with rfl | hheld
    · exact Nat.add_lt_add_left hhalf _
    · have hlt := (htidy.window entry hheld).2
      omega
  rw [RecipientBlockAckAgreement.bufferMpdu]
  split
  next hin =>
    obtain ⟨hstart, -, hbd⟩ := hoffer.drain_bounds
    rw [offer_start] at hstart hbd
    exact ⟨hstart, hbd _ (Nat.le_add_right _ _)
      (hbelow (Nat.lt_of_lt_of_le hin hsz))⟩
  next houtside =>
    split
    next hhalf =>
      have hmoved := hoffer.moveTo (show _ ≤ buf.start +
        distance mpdu.sequenceNumber (buf.start % seqnoSpaceSize) + 1 - bufferSize by
          rw [offer_start]
          omega)
      obtain ⟨hstart, -, hbd⟩ := hmoved.drain_bounds
      refine ⟨Nat.le_trans ?_ hstart, hbd _ ?_ fun entry hmem => ?_⟩
      · change buf.start ≤ _ + 1 - bufferSize
        omega
      · change _ + 1 - bufferSize ≤ _
        omega
      · exact hbelow hhalf entry ((mem_dropWhile_below hoffer.sorted).mp hmem).1
    · exact ⟨Nat.le_refl _, Nat.le_add_right _ _⟩

theorem start_le_bufferBar (hsz : bufferSize ≤ seqnoSpaceHalfSize) (startingSequenceNumber : Nat) :
    buf.start ≤ (bufferBar buf startingSequenceNumber).start ∧
      (bufferBar buf startingSequenceNumber).start ≤ buf.start + seqnoSpaceHalfSize := by
  rw [RecipientBlockAckAgreement.bufferBar]
  split
  next hahead =>
    obtain ⟨hstart, -, hbd⟩ := (htidy.inOrder.moveTo (Nat.le_add_right buf.start
      (distance startingSequenceNumber (buf.start % seqnoSpaceSize)))).drain_bounds
    refine ⟨Nat.le_trans (Nat.le_add_right _ _) hstart,
      hbd _ (Nat.add_le_add_left (Nat.le_of_lt hahead.2) _) fun entry hmem => ?_⟩
    have hlt := (htidy.window entry ((mem_dropWhile_below htidy.inOrder.sorted).mp hmem).1).2
    omega
  · exact ⟨Nat.le_refl _, Nat.le_add_right _ _⟩

end

/-! ## The run follows the positions -/

structure Follows (bufferSize : Nat) (run : RecipientRun Payload)
    (buf : ReorderBuffer (Mpdu Payload)) : Prop where
  kept : run.agreement.keeping buf = run.agreement
  start : run.start = buf.start
  passed : run.passed = buf.passed
  accepted : run.accepted = buf.accepted
  forwarded : run.forwarded = buf.forwarded
  sized : run.agreement.scoreboard.Sized bufferSize
  winSizeB : run.agreement.winSizeB = bufferSize
  tidy : Tidy bufferSize buf

variable {run next : RecipientRun Payload}

section

variable (hfollows : Follows bufferSize run buf)
include hfollows

theorem Follows.winStartB : run.agreement.winStartB = buf.start % seqnoSpaceSize :=
  (congrArg RecipientBlockAckAgreement.winStartB hfollows.kept).symm

theorem Follows.bufferedMpdus : run.agreement.bufferedMpdus = buf.held.map Prod.snd :=
  (congrArg RecipientBlockAckAgreement.bufferedMpdus hfollows.kept).symm

theorem Follows.advance {after : ReorderBuffer (Mpdu Payload)} {scoreboard : BlockAckWindow}
    {result : RecipientBlockAckAgreement Payload × List (Mpdu Payload)}
    (hscoreboard : scoreboard.Sized bufferSize)
    (hforwards : Forwards { run.agreement with scoreboard } buf after (.ok result))
    (htidy : Tidy bufferSize after)
    (hstart : buf.start ≤ after.start ∧ after.start ≤ buf.start + seqnoSpaceHalfSize) :
    Follows bufferSize (run.advance after.passed after.accepted result) after := by
  obtain ⟨released, hres, hforw, hahead⟩ := hforwards
  cases hres
  have hspace := half_lt
  have hmoved : run.start + run.ahead (after.start % seqnoSpaceSize) = after.start := by
    rw [ahead, hfollows.winStartB, hfollows.start, distance_eq hstart.1 (by omega)]
    omega
  have htagged : released.map (fun entry =>
      (run.start + run.ahead entry.2.sequenceNumber, entry.2)) = released := by
    refine (map_congr_left fun entry hmem => ?_).trans (map_id _)
    have hmem' : entry ∈ after.forwarded := hforw ▸ mem_append_right _ hmem
    have hnumber := htidy.numbers entry ((htidy.inOrder.settled entry).mpr (.inl hmem'))
    have hle := hahead entry hmem
    have hlt := htidy.inOrder.behind entry hmem'
    refine Prod.ext ?_ rfl
    change run.start + run.ahead entry.2.sequenceNumber = entry.1
    rw [ahead, hfollows.winStartB, hfollows.start, hnumber, distance_eq hle (by omega)]
    omega
  refine ⟨rfl, hmoved, rfl, rfl, ?_, hscoreboard, hfollows.winSizeB, htidy⟩
  change run.forwarded ++ (released.map Prod.snd).map _ = after.forwarded
  rw [map_map, hforw, hfollows.forwarded]
  exact congrArg _ htagged

theorem Follows.buffered_iff (hsz : bufferSize ≤ seqnoSpaceHalfSize) {seqNumber : Nat}
    (hseq : seqNumber < seqnoSpaceSize) :
    Buffered run.agreement seqNumber ↔
      ∃ entry ∈ buf.held,
        entry.1 = buf.start + distance seqNumber (buf.start % seqnoSpaceSize) := by
  have hnear := hfollows.tidy.near hsz
  rw [Buffered, hfollows.bufferedMpdus, map_map, mem_map]
  refine exists_congr fun entry => and_congr_right fun hmem => ?_
  have hdist := hnear.distance_eq hmem
  have hle := (hnear.near entry hmem).1
  have hposition := position_mod hseq buf.start
  have hnumber := hnear.numbers entry hmem
  change entry.2.sequenceNumber = seqNumber ↔ _
  constructor
  · rintro rfl
    omega
  · intro heq
    rw [hnumber, heq, hposition]

end

theorem bufferMpdu_passed :
    (bufferMpdu bufferSize buf mpdu).passed =
      if ¬distance mpdu.sequenceNumber (buf.start % seqnoSpaceSize) < bufferSize ∧
            distance mpdu.sequenceNumber (buf.start % seqnoSpaceSize) < seqnoSpaceHalfSize then
        buf.start + distance mpdu.sequenceNumber (buf.start % seqnoSpaceSize) + 1 - bufferSize
      else buf.passed := by
  rw [RecipientBlockAckAgreement.bufferMpdu]
  split
  next hin =>
    rw [if_neg fun hboth => hboth.1 hin]
    exact offer_passed
  next houtside =>
    split
    next hhalf =>
      rw [if_pos ⟨houtside, hhalf⟩]
      rfl
    next hold => rw [if_neg fun hboth => hold hboth.2]

theorem bufferMpdu_accepted (hsz : bufferSize ≤ seqnoSpaceHalfSize) :
    (bufferMpdu bufferSize buf mpdu).accepted =
      if distance mpdu.sequenceNumber (buf.start % seqnoSpaceSize) < seqnoSpaceHalfSize ∧
            ¬∃ entry ∈ buf.held,
              entry.1 = buf.start + distance mpdu.sequenceNumber (buf.start % seqnoSpaceSize) then
        buf.accepted ++
          [(buf.start + distance mpdu.sequenceNumber (buf.start % seqnoSpaceSize), mpdu)]
      else buf.accepted := by
  rw [RecipientBlockAckAgreement.bufferMpdu]
  split
  next hin =>
    simp only [Nat.lt_of_lt_of_le hin hsz, true_and]
    exact offer_accepted
  · split
    next hhalf =>
      simp only [hhalf, true_and]
      exact offer_accepted
    next hold => rw [if_neg fun hboth => hold hboth.1]

variable {startingSequenceNumber : Nat}

theorem bufferBar_passed :
    (bufferBar buf startingSequenceNumber).passed =
      if distance startingSequenceNumber (buf.start % seqnoSpaceSize) > 0 ∧
            distance startingSequenceNumber (buf.start % seqnoSpaceSize) < seqnoSpaceHalfSize then
        buf.start + distance startingSequenceNumber (buf.start % seqnoSpaceSize)
      else buf.passed := by
  rw [RecipientBlockAckAgreement.bufferBar]
  split <;> rfl

theorem bufferBar_accepted :
    (bufferBar buf startingSequenceNumber).accepted = buf.accepted := by
  rw [RecipientBlockAckAgreement.bufferBar]
  split <;> rfl

theorem Follows.notifyReceivedMpdu (hfollows : Follows bufferSize run buf) (hpos : 0 < bufferSize)
    (hsz : bufferSize ≤ seqnoSpaceHalfSize) (hseq : mpdu.sequenceNumber < seqnoSpaceSize)
    (hfits : run.agreement.Fits mpdu) :
    ∃ next,
      run.step (.notifyReceivedMpdu mpdu) = .ok next ∧
        Follows bufferSize next (bufferMpdu bufferSize buf mpdu) := by
  obtain ⟨scoreboard, hscoreboard, hforw⟩ := notifyReceivedMpdu_eq
    (hfollows.tidy.near hsz) hfollows.sized hpos hsz hfollows.winSizeB hseq
    (hfollows.kept.symm ▸ hfits)
  rw [hfollows.kept] at hforw
  have hres := hforw
  obtain ⟨released, hok, -⟩ := hres
  rw [hok] at hforw
  have hnext := hfollows.advance hscoreboard hforw (hfollows.tidy.bufferMpdu hseq)
    (start_le_bufferMpdu hfollows.tidy hpos hsz)
  refine ⟨_, ?_, hnext⟩
  rw [step, hok, bufferMpdu_passed, bufferMpdu_accepted hsz, ← hfollows.start,
    ← hfollows.passed, ← hfollows.accepted, ← hfollows.winSizeB]
  simp only [ahead, hfollows.winStartB, hfollows.buffered_iff hsz hseq, hfollows.start]
  rfl

theorem Follows.notifyReceivedBar (hfollows : Follows bufferSize run buf)
    (hsz : bufferSize ≤ seqnoSpaceHalfSize) (hseq : startingSequenceNumber < seqnoSpaceSize) :
    ∃ next, run.step (.notifyReceivedBar startingSequenceNumber) = .ok next ∧
    Follows bufferSize next (bufferBar buf startingSequenceNumber) := by
  obtain ⟨scoreboard, hscoreboard, hforw⟩ := notifyReceivedBar_eq
    (hfollows.tidy.near hsz) hfollows.sized hseq
  rw [hfollows.kept] at hforw
  have hres := hforw
  obtain ⟨released, hok, -⟩ := hres
  rw [hok] at hforw
  have hnext := hfollows.advance hscoreboard hforw
    (hfollows.tidy.bufferBar startingSequenceNumber)
    (start_le_bufferBar hfollows.tidy hsz startingSequenceNumber)
  refine ⟨_, ?_, hnext⟩
  rw [step, hok, bufferBar_passed, bufferBar_accepted, ← hfollows.start, ← hfollows.passed,
    ← hfollows.accepted]
  simp only [ahead, hfollows.winStartB, hfollows.start]
  rfl

theorem Follows.step (hfollows : Follows bufferSize run buf) (hpos : 0 < bufferSize) (hsz :
    bufferSize ≤ seqnoSpaceHalfSize) {call : BlockAckCall Payload} (hoffer : Offered call) (hfits :
    run.Fitting call) : ∃ next after, run.step call = .ok next ∧ Follows bufferSize next after := by
  cases call with
  | notifyReceivedMpdu mpdu =>
    obtain ⟨next, hstep, hnext⟩ := hfollows.notifyReceivedMpdu hpos hsz hoffer hfits
    exact ⟨next, _, hstep, hnext⟩
  | notifyReceivedBar startingSequenceNumber =>
    obtain ⟨next, hstep, hnext⟩ := hfollows.notifyReceivedBar hsz hoffer
    exact ⟨next, _, hstep, hnext⟩

theorem Follows.init (hstarting : startingSeq < seqnoSpaceSize) :
    Follows bufferSize (machine Payload bufferSize startingSeq).init (initial startingSeq) where
  kept := by
    change { RecipientBlockAckAgreement.create bufferSize startingSeq with
      winStartB := startingSeq % seqnoSpaceSize } = _
    rw [Nat.mod_eq_of_lt hstarting]
    rfl
  start := rfl
  passed := rfl
  accepted := rfl
  forwarded := rfl
  sized := .init hstarting
  winSizeB := rfl
  tidy := .initial startingSeq

/-! ## In order, once -/

/-- What a run has done, when `may` says what it may be called with. -/
structure DeliversInOrder (bufferSize : Nat) (may : BlockAckCall Payload → Prop)
    (run : RecipientRun Payload) : Prop where
  /-- The window starts on the circle, at its position. -/
  winStartB : run.agreement.winStartB < seqnoSpaceSize ∧
    run.agreement.winStartB = run.start % seqnoSpaceSize
  /-- What is buffered has different numbers, in the window but not at its start. -/
  buffered : (run.agreement.bufferedMpdus.map Mpdu.sequenceNumber).Nodup
  inWindow : ∀ mpdu ∈ run.agreement.bufferedMpdus, mpdu.sequenceNumber < seqnoSpaceSize ∧
    0 < run.ahead mpdu.sequenceNumber ∧ run.ahead mpdu.sequenceNumber < bufferSize
  /-- Accepted MPDUs have the numbers of their positions, and all of them are different. -/
  numbers : ∀ entry ∈ run.accepted, entry.2.sequenceNumber = entry.1 % seqnoSpaceSize
  once : (run.accepted.map Prod.fst).Nodup
  /-- Only what was accepted is forwarded, and in increasing order of positions. -/
  forwarded : ∀ entry ∈ run.forwarded, entry ∈ run.accepted
  ordered : (run.forwarded.map Prod.fst).Pairwise (· < ·)
  /-- An accepted MPDU is forwarded just when all before it was forwarded or passed, and buffered
  until then. -/
  soon : ∀ entry ∈ run.accepted, (entry ∈ run.forwarded ↔
    ∀ n < entry.1, n < run.passed ∨ ∃ before ∈ run.forwarded, before.1 = n)
  kept : ∀ entry ∈ run.accepted, entry ∉ run.forwarded →
    entry.2 ∈ run.agreement.bufferedMpdus
  /-- An old MPDU is not forwarded, and nothing else changes. -/
  old : ∀ mpdu next, may (.notifyReceivedMpdu mpdu) →
    seqnoSpaceHalfSize ≤ run.ahead mpdu.sequenceNumber →
      run.step (.notifyReceivedMpdu mpdu) = .ok next →
        next.start = run.start ∧ next.accepted = run.accepted ∧
          next.forwarded = run.forwarded ∧
            next.agreement.bufferedMpdus = run.agreement.bufferedMpdus
  /-- No assertion fails. -/
  returns : ∀ call, may call → ∃ next, run.step call = .ok next

section

variable (hfollows : Follows bufferSize run buf) (hpos : 0 < bufferSize)
  (hsz : bufferSize ≤ seqnoSpaceHalfSize)
include hfollows hpos hsz

theorem Follows.old (hseq : mpdu.sequenceNumber < seqnoSpaceSize)
    (hold : seqnoSpaceHalfSize ≤ run.ahead mpdu.sequenceNumber)
    (hstep : run.step (.notifyReceivedMpdu mpdu) = .ok next) : Follows bufferSize next buf := by
  have hfits : run.agreement.Fits mpdu := fun _ hhalf => absurd hhalf (Nat.not_lt.mpr hold)
  obtain ⟨other, hother, hnext⟩ := hfollows.notifyReceivedMpdu hpos hsz hseq hfits
  obtain rfl := Except.ok.inj (hother.symm.trans hstep)
  rw [ahead, hfollows.winStartB] at hold
  rwa [bufferMpdu, if_neg (Nat.not_lt.mpr (Nat.le_trans hsz hold)),
    if_neg (Nat.not_lt.mpr hold)] at hnext

theorem Follows.inOrder :
    DeliversInOrder bufferSize (fun call => Offered call ∧ run.Fitting call) run := by
  obtain ⟨horder, hwin, hnum⟩ := hfollows.tidy
  have hnear := hfollows.tidy.near hsz
  have hahead : ∀ entry ∈ buf.held, run.ahead entry.2.sequenceNumber = entry.1 - buf.start :=
    fun entry hmem => by
      rw [ahead, hfollows.winStartB]
      exact hnear.distance_eq hmem
  refine ⟨?_, ?_, fun mpdu hmem => ?_, ?_, ?_, ?_, ?_, ?_, ?_, ?_, ?_⟩
  · rw [hfollows.winStartB, hfollows.start]
    exact ⟨mod_lt _, rfl⟩
  · rw [hfollows.bufferedMpdus, map_map]
    refine pairwise_map.mpr (hnear.sorted.imp_of_mem fun hfst hsnd hlt heq => ?_)
    -- equal numbers are equally far ahead
    have hfar := congrArg run.ahead heq
    simp only [Function.comp_apply, hahead _ hfst, hahead _ hsnd] at hfar
    have hbehind := (hwin _ hfst).1
    omega
  · rw [hfollows.bufferedMpdus] at hmem
    obtain ⟨entry, hent, rfl⟩ := mem_map.mp hmem
    obtain ⟨hbehind, hlt⟩ := hwin entry hent
    rw [hahead entry hent, hnear.numbers entry hent]
    exact ⟨mod_lt _, by omega, by omega⟩
  · rw [hfollows.accepted]
    exact hnum
  · rw [hfollows.accepted]
    exact horder.once
  · rw [hfollows.forwarded, hfollows.accepted]
    exact fun entry hmem => (horder.settled entry).mpr (.inl hmem)
  · rw [hfollows.forwarded]
    exact pairwise_map.mpr horder.ordered
  · rw [hfollows.forwarded, hfollows.accepted, hfollows.passed]
    exact fun entry hmem => horder.forwarded_iff (fun other hother => (hwin other hother).1) hmem
  · rw [hfollows.forwarded, hfollows.accepted, hfollows.bufferedMpdus]
    exact fun entry hmem hnot => mem_map_of_mem
      (((horder.settled entry).mp hmem).resolve_left hnot)
  · intro mpdu next hmay hold hstep
    have hnext := hfollows.old hpos hsz hmay.1 hold hstep
    rw [hnext.start, hnext.accepted, hnext.forwarded, hnext.bufferedMpdus, hfollows.start,
      hfollows.accepted, hfollows.forwarded, hfollows.bufferedMpdus]
    exact ⟨rfl, rfl, rfl, rfl⟩
  · intro call hmay
    obtain ⟨next, -, hstep, -⟩ := hfollows.step hpos hsz hmay.1 hmay.2
    exact ⟨next, hstep⟩

end

theorem exists_follows (hstarting : startingSeq < seqnoSpaceSize) (hpos : 0 < bufferSize)
    (hsz : bufferSize ≤ seqnoSpaceHalfSize)
    (hreach : (machine Payload bufferSize startingSeq).ReachableUnder
      (fun run call => Offered call ∧ run.Fitting call) run) :
    ∃ buf, Follows bufferSize run buf := by
  induction hreach with
  | init => exact ⟨_, .init hstarting⟩
  | step _ hmay hstep ih =>
    obtain ⟨buf, hfollows⟩ := ih
    obtain ⟨other, after, hother, hnext⟩ := hfollows.step hpos hsz hmay.1 hmay.2
    obtain rfl := Except.ok.inj (hother.symm.trans hstep)
    exact ⟨after, hnext⟩

/-- While no MPDU that moves the window has too small a number, what is accepted is passed up in
order and once. -/
theorem deliversInOrder (hstarting : startingSeq < seqnoSpaceSize) (hpos : 1 ≤ bufferSize)
    (hsz : bufferSize ≤ 256)
    (hreach : (machine Payload bufferSize startingSeq).ReachableUnder
      (fun run call => Offered call ∧ run.Fitting call) run) :
    DeliversInOrder bufferSize (fun call => Offered call ∧ run.Fitting call) run := by
  have hhalf : bufferSize ≤ seqnoSpaceHalfSize := Nat.le_trans hsz (by decide)
  obtain ⟨buf, hfollows⟩ := exists_follows hstarting hpos hhalf hreach
  exact hfollows.inOrder hpos hhalf

instance (agreement : RecipientBlockAckAgreement Payload) (mpdu : Mpdu Payload) :
    Decidable (agreement.Fits mpdu) :=
  inferInstanceAs (Decidable (_ → _ → _))

instance (run : RecipientRun Payload) (call : BlockAckCall Payload) :
    Decidable (Offered call ∧ run.Fitting call) :=
  match call with
  | .notifyReceivedMpdu _ => inferInstanceAs (Decidable (_ < _ ∧ Fits _ _))
  | .notifyReceivedBar _ => inferInstanceAs (Decidable (_ < _ ∧ True))

def overTheEnd : RecipientRun Nat :=
  (machine Nat 64 4090).after (fun run call => decide (Offered call ∧ run.Fitting call))
    [.notifyReceivedMpdu ⟨4, 0⟩, .notifyReceivedMpdu ⟨4090, 1⟩, .notifyReceivedMpdu ⟨70, 2⟩,
      .notifyReceivedBar 70] (machine Nat 64 4090).init

theorem deliversInOrder_overTheEnd :
    (machine Nat 64 4090).ReachableUnder (fun run call => Offered call ∧ run.Fitting call)
      overTheEnd ∧
      overTheEnd.forwarded = [(4090, ⟨4090, 1⟩), (4100, ⟨4, 0⟩), (4166, ⟨70, 2⟩)] ∧
      DeliversInOrder 64 (fun call => Offered call ∧ overTheEnd.Fitting call) overTheEnd := by
  have hreach : (machine Nat 64 4090).ReachableUnder
      (fun run call => Offered call ∧ run.Fitting call) overTheEnd :=
    Machine.ReachableUnder.after (fun _ _ h => of_decide_eq_true h) _ .init
  exact ⟨hreach, by decide +kernel, deliversInOrder (by decide) (by decide) (by decide) hreach⟩

/-- The number 5 lies 101 ahead of 4000, and 5 - 64 + 1 is not reduced to the circle. -/
theorem small_number_fails :
    (machine Nat 64 4000).Reachable (machine Nat 64 4000).init ∧
      uint16 (uint64OfInt (5 - 64 + 1)) = 65478 ∧
      (machine Nat 64 4000).init.step (.notifyReceivedMpdu ⟨5, 0⟩) = .error .assertion ∧
      ¬DeliversInOrder 64 Offered (machine Nat 64 4000).init := by
  have hfails : (machine Nat 64 4000).init.step (.notifyReceivedMpdu ⟨5, 0⟩) =
      .error .assertion := by
    rfl
  refine ⟨.init, by decide, hfails, fun hdelivers => ?_⟩
  obtain ⟨next, hstep⟩ := hdelivers.returns (.notifyReceivedMpdu ⟨5, 0⟩)
    (show 5 < seqnoSpaceSize by decide)
  rw [hfails] at hstep
  cases hstep

end RecipientRun

end HomaSird.Wifi
