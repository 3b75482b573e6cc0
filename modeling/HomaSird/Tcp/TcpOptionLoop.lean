import HomaSird.Tcp.TcpHeader

/-! # The TCP option loop

A pass of the loop of `Deserialize` leaves it, ends the program or goes on with fewer bytes. The
one option that is passed over without a step is one of an unknown kind with the length zero.
-/

namespace HomaSird.Tcp.TcpHeader

open BufferIterator TcpOption

/-! ## Passes -/

inductive Pass where
  | leaves
  | aborts
  | goesOn (optionLen : Nat) (i : BufferIterator)

/-- One pass. A read behind the buffer ends the program, and the padding behind an END uses up what
is left. -/
def pass (optionLen : Nat) (i : BufferIterator) : Pass :=
  match TcpOption.deserialize i with
  | none => .aborts
  | some (op, optionSize) =>
    if optionSize ≠ op.getSerializedSize ∨ optionLen < optionSize then .leaves
    else match i.next optionSize with
      | none => .aborts
      | some i =>
        if op.getKind = END then
          match i.next (optionLen - optionSize) with
          | none => .aborts
          | some _ => .leaves
        else .goesOn (optionLen - optionSize) i

def passes : Nat → Nat → BufferIterator → Pass
  | 0, optionLen, i => .goesOn optionLen i
  | fuel + 1, optionLen, i =>
    if optionLen = 0 then .leaves
    else match pass optionLen i with
      | .goesOn optionLen i => passes fuel optionLen i
      | ended => ended

theorem readOptions_isSome {fuel optionLen : Nat} {i : BufferIterator} {options : List TcpOption}
    {optionsLen : Nat} :
    (readOptions fuel optionLen i options optionsLen).isSome = true ↔
      passes fuel optionLen i = .leaves := by
  induction fuel generalizing optionLen i options optionsLen with
  | zero => exact iff_of_false nofun nofun
  | succ fuel ih =>
    rw [readOptions, passes, pass]
    split
    · exact iff_of_true rfl rfl
    cases TcpOption.deserialize i with
    | none => simp
    | some read =>
      obtain ⟨op, optionSize⟩ := read
      simp only [Option.bind_eq_bind, Option.bind_some]
      split
      · exact iff_of_true rfl rfl
      cases i.next optionSize with
      | none => simp
      | some later =>
        simp only [Option.bind_some]
        split
        · cases later.next (optionLen - optionSize) with
          | none => simp
          | some _ => exact iff_of_true rfl rfl
        · exact ih

/-! ## Steps -/

def Stuck (bytes : List UInt8) : Prop :=
  ∃ kind tail, bytes = kind :: 0 :: tail ∧ isKindKnown kind = false

inductive Reached (optionLen : Nat) (i : BufferIterator) : Nat → BufferIterator → Prop
  | start : Reached optionLen i optionLen i
  | next {left rest : Nat} {place later : BufferIterator} : Reached optionLen i left place →
    left ≠ 0 → pass left place = .goesOn rest later → Reached optionLen i rest later

section

variable {optionLen rest : Nat} {i later : BufferIterator}

theorem unknown_of_getSerializedSize {op : TcpOption}
    (hzero : op.getSerializedSize = 0) : ∃ kind content, op = unknown kind 0 content := by
  cases op with
  | sack sackList =>
    rw [TcpOption.getSerializedSize, uint32] at hzero
    omega
  | unknown kind size content => exact ⟨kind, content, by rw [show size = 0 from hzero]⟩
  | _ => cases hzero

theorem stuck_of_deserialize {kind : UInt8} {content : List UInt8}
    (hread : TcpOption.deserialize i = some (unknown kind 0 content, 0)) : Stuck i.ahead := by
  obtain ⟨passed, ahead⟩ := i
  cases ahead with
  | nil => cases hread
  | cons first tail =>
    simp only [TcpOption.deserialize, readU8_cons, Option.bind_eq_bind, Option.bind_some] at hread
    -- only the last parser makes an option of an unknown kind
    repeat' split at hread
    · cases hread
    · cases hread
    · simp only [deserializeMSS, Option.bind_eq_bind, Option.bind_eq_some_iff] at hread
      obtain ⟨_, _, hread⟩ := hread
      split at hread <;> simp [Option.bind_eq_some_iff] at hread
    · simp only [deserializeWinScale, Option.bind_eq_bind, Option.bind_eq_some_iff] at hread
      obtain ⟨_, _, hread⟩ := hread
      split at hread <;> simp [Option.bind_eq_some_iff] at hread
    · simp [deserializeSackPermitted, Option.bind_eq_some_iff] at hread
    · simp [deserializeSack, Option.bind_eq_some_iff] at hread
    · simp only [deserializeTS, Option.bind_eq_bind, Option.bind_eq_some_iff] at hread
      obtain ⟨_, _, hread⟩ := hread
      split at hread <;> simp [Option.bind_eq_some_iff] at hread
    · cases tail with
      | nil => cases hread
      | cons length tail =>
        simp only [deserializeUnknown, readU8_cons, Option.bind_eq_bind, Option.bind_some] at hread
        split at hread
        · obtain ⟨-, hzero, -⟩ := TcpOption.unknown.inj (Prod.mk.inj (Option.some.inj hread)).1
          obtain rfl : length = 0 := UInt8.toNat_inj.mp hzero
          exact ⟨first, tail, rfl, by simp [isKindKnown, *]⟩
        next hlegal =>
          obtain ⟨_, -, hread⟩ := Option.bind_eq_some_iff.mp hread
          have hzero := (Prod.mk.inj (Option.some.inj hread)).2
          omega

theorem pass_goesOn (hpass : pass optionLen i = .goesOn rest later) :
    ∃ op, TcpOption.deserialize i = some (op, op.getSerializedSize) ∧
    op.getSerializedSize ≤ optionLen ∧ rest = optionLen - op.getSerializedSize := by
  rw [pass] at hpass
  cases hread : TcpOption.deserialize i with
  | none =>
    rw [hread] at hpass
    cases hpass
  | some read =>
    obtain ⟨op, optionSize⟩ := read
    rw [hread] at hpass
    dsimp only at hpass
    split at hpass
    · cases hpass
    next hfits =>
      obtain ⟨hsz, hless⟩ := not_or.mp hfits
      rw [not_not] at hsz
      subst hsz
      refine ⟨op, rfl, Nat.le_of_not_lt hless, ?_⟩
      split at hpass
      · cases hpass
      split at hpass
      · split at hpass
        · cases hpass
        · cases hpass
      · cases hpass
        rfl

theorem pass_of_stuck (hstuck : Stuck i.ahead) : pass optionLen i = .goesOn optionLen i := by
  obtain ⟨passed, ahead⟩ := i
  obtain ⟨kind, tail, rfl, hunk⟩ := hstuck
  have hkinds := hunk
  simp only [isKindKnown, List.contains_eq_mem, List.mem_cons, List.not_mem_nil, or_false,
    decide_eq_false_iff_not, not_or] at hkinds
  have hread : TcpOption.deserialize ⟨passed, kind :: 0 :: tail⟩ = some (unknown kind 0 [], 0) := by
    simp only [TcpOption.deserialize, readU8_cons, Option.bind_eq_bind, Option.bind_some, hkinds,
      if_false]
    rfl
  have hnext : next 0 ⟨passed, kind :: 0 :: tail⟩ = some ⟨passed ++ [], kind :: 0 :: tail⟩ :=
    next_append [] passed _
  rw [pass, hread]
  dsimp only
  rw [if_neg (by simp [TcpOption.getSerializedSize]), hnext, List.append_nil]
  dsimp only
  exact (if_neg hkinds.1).trans (by rw [Nat.sub_zero])

structure LoopEnds (optionLen : Nat) (i : BufferIterator) : Prop where
  ends : ∃ fuel, ∀ rest later, passes fuel optionLen i ≠ .goesOn rest later
  steps : ∀ {left rest place later}, Reached optionLen i left place → left ≠ 0 →
    pass left place = .goesOn rest later → rest < left

theorem loopEnds_iff :
    LoopEnds optionLen i ↔
      ∀ left place, Reached optionLen i left place → left ≠ 0 → ¬ Stuck place.ahead := by
  constructor
  · intro hends left place hreach hleft hstuck
    exact Nat.lt_irrefl _ (hends.steps hreach hleft (pass_of_stuck hstuck))
  · intro hfree
    have hsteps : ∀ {left rest place later}, Reached optionLen i left place → left ≠ 0 →
        pass left place = .goesOn rest later → rest < left := by
      intro left rest place later hreach hleft hpass
      obtain ⟨op, hread, hfits, rfl⟩ := pass_goesOn hpass
      have hpos : 0 < op.getSerializedSize := by
        by_contra hzero
        obtain ⟨kind, content, rfl⟩ := unknown_of_getSerializedSize (Nat.eq_zero_of_not_pos hzero)
        exact hfree left place hreach hleft (stuck_of_deserialize hread)
      omega
    refine ⟨⟨optionLen + 1, ?_⟩, hsteps⟩
    have hends : ∀ fuel left place, left < fuel → Reached optionLen i left place →
        ∀ rest later, passes fuel left place ≠ .goesOn rest later := by
      intro fuel
      induction fuel with
      | zero => exact fun _ _ hless => absurd hless (Nat.not_lt_zero _)
      | succ fuel ih =>
        intro left place hless hreach rest later
        rw [passes]
        split
        · exact nofun
        next hleft =>
          cases hpass : pass left place with
          | leaves => exact nofun
          | aborts => exact nofun
          | goesOn fewer behind =>
            have hfewer := hsteps hreach hleft hpass
            exact ih fewer behind (by omega) (hreach.next hleft hpass) rest later
    exact hends _ _ _ (Nat.lt_succ_self _) .start

theorem passes_of_stuck {fuel : Nat} (hstuck : Stuck i.ahead) (hleft : optionLen ≠ 0) :
    passes fuel optionLen i = .goesOn optionLen i := by
  induction fuel with
  | zero => rfl
  | succ fuel ih =>
    rw [passes, if_neg hleft, pass_of_stuck hstuck]
    exact ih

theorem passes_aborts {fuel left : Nat} {place : BufferIterator}
    (hreach : Reached optionLen i left place) (haborts : passes fuel left place = .aborts) :
    ∃ left place, Reached optionLen i left place ∧ left ≠ 0 ∧ pass left place = .aborts := by
  induction fuel generalizing left place with
  | zero => cases haborts
  | succ fuel ih =>
    rw [passes] at haborts
    split at haborts
    · cases haborts
    next hleft =>
      cases hpass : pass left place with
      | leaves =>
        rw [hpass] at haborts
        cases haborts
      | aborts => exact ⟨left, place, hreach, hleft, hpass⟩
      | goesOn fewer behind =>
        rw [hpass] at haborts
        exact ih (hreach.next hleft hpass) haborts

/-- The loop is left exactly if no pass stays where it is and none reads behind the buffer. -/
theorem exists_leaves_iff :
    (∃ fuel, passes fuel optionLen i = .leaves) ↔
      ∀ left place,
        Reached optionLen i left place → left ≠ 0 →
          ¬ Stuck place.ahead ∧ pass left place ≠ .aborts := by
  constructor
  · rintro ⟨fuel, hleaves⟩ left place hreach hleft
    have hlater : ∃ fuel, passes fuel left place = .leaves := by
      clear hleft
      induction hreach with
      | start => exact ⟨fuel, hleaves⟩
      | next _ hleft hpass ih =>
        obtain ⟨fuel, hleaves⟩ := ih
        cases fuel with
        | zero => cases hleaves
        | succ fuel =>
          rw [passes, if_neg hleft, hpass] at hleaves
          exact ⟨fuel, hleaves⟩
    obtain ⟨fuel, hleaves⟩ := hlater
    refine ⟨fun hstuck => ?_, fun haborts => ?_⟩
    · rw [passes_of_stuck hstuck hleft] at hleaves
      cases hleaves
    · cases fuel with
      | zero => cases hleaves
      | succ fuel =>
        rw [passes, if_neg hleft, haborts] at hleaves
        cases hleaves
  · intro hfree
    obtain ⟨fuel, hends⟩ := (loopEnds_iff.mpr fun left place hreach hleft =>
      (hfree left place hreach hleft).1).ends
    refine ⟨fuel, ?_⟩
    cases hpasses : passes fuel optionLen i with
    | leaves => rfl
    | aborts =>
      obtain ⟨left, place, hreach, hleft, haborts⟩ := passes_aborts .start hpasses
      exact absurd haborts (hfree left place hreach hleft).2
    | goesOn rest later => exact absurd hpasses (hends rest later)

end

/-! ## Headers -/

/-- `optionLen` as it is computed from the data offset -/
def optionLength (front : List UInt8) : Nat :=
  uint32OfInt (((dataOffset front : Nat) - 5 : Int) * 4)

def checksumOk (header : TcpHeader) (buf : List UInt8) : Bool :=
  if header.calcChecksum then calculateIpChecksum buf buf.length
    (header.calculateHeaderChecksum (uint16 buf.length)) = 0
  else header.goodChecksum

/-- `Deserialize` without its record: a header too short or too long for its options is returned
unchecked, any other one after the loop. -/
theorem deserialize_front (header : TcpHeader) {front : List UInt8} (hfront : front.length = 20)
    (rest : List UInt8) (fuel : Nat) :
    (maxOptionsLen < optionLength front →
      ∃ decoded,
        header.deserialize fuel (front ++ rest) = some (decoded, 20) ∧
          decoded.goodChecksum = header.goodChecksum) ∧
      (optionLength front ≤ maxOptionsLen →
        ∃ decoded : List TcpOption × Nat → TcpHeader,
          header.deserialize fuel (front ++ rest) =
            (readOptions fuel (optionLength front) ⟨front, rest⟩ [] 0).map
              (fun read => (decoded read, (decoded read).getSerializedSize)) ∧
            ∀ read, (decoded read).goodChecksum = header.checksumOk (front ++ rest)) := by
  obtain ⟨sourcePort, destinationPort, sequenceNumber, ackNumber, field, windowSize, checksum,
    urgentPointer, hfits, hbytes, hfield⟩ := exists_headerWords hfront
  have hread := readRecord_recordBytes hfits [] rest
  rw [hbytes] at hread
  simp only [headerWords, List.map_cons, List.map_nil, List.nil_append] at hread
  rw [optionLength, hfield, deserialize, hread]
  simp only [Option.bind_eq_bind, Option.bind_some]
  constructor
  · intro hlong
    rw [if_pos hlong]
    exact ⟨_, rfl, rfl⟩
  · intro hshort
    rw [if_neg (not_lt.mpr hshort)]
    refine ⟨fun read => { header with
      sourcePort := .ofNat sourcePort
      destinationPort := .ofNat destinationPort
      sequenceNumber := .of sequenceNumber
      ackNumber := .of ackNumber
      flags := .ofNat field
      windowSize := .ofNat windowSize
      urgentPointer := .ofNat urgentPointer
      length := field / 2 ^ 12
      options := read.1
      optionsLen := uint8 read.2
      goodChecksum := header.checksumOk (front ++ rest) }, ?_, fun _ => rfl⟩
    cases readOptions fuel (uint32OfInt (((field / 2 ^ 12 : Nat) - 5 : Int) * 4)) ⟨front, rest⟩
      [] 0 with
    | none => rfl
    | some read => rfl

def optionSpace (front : List UInt8) : Nat :=
  if maxOptionsLen < optionLength front then 0 else optionLength front

theorem deserialize_isSome (header : TcpHeader) {front : List UInt8} (hfront : front.length = 20)
    (rest : List UInt8) (fuel : Nat) (hshort : optionLength front ≤ maxOptionsLen) :
    (header.deserialize fuel (front ++ rest)).isSome = true ↔
      passes fuel (optionLength front) ⟨front, rest⟩ = .leaves := by
  obtain ⟨decoded, hdec, -⟩ := (header.deserialize_front hfront rest fuel).2 hshort
  rw [hdec, Option.isSome_map, readOptions_isSome]

/-- The loop ends exactly if it gets to no option of an unknown kind with the length zero. -/
theorem optionLoop_ends_iff (front rest : List UInt8) :
    LoopEnds (optionSpace front) ⟨front, rest⟩ ↔
      ∀ left place,
        Reached (optionSpace front) ⟨front, rest⟩ left place → left ≠ 0 → ¬ Stuck place.ahead :=
  loopEnds_iff

/-- A header of 24 bytes whose option has the unknown kind 30 and the length zero. -/
theorem not_optionLoop_ends_zero :
    ¬ LoopEnds (optionSpace (List.replicate 12 0 ++ 0x60 :: List.replicate 7 0))
      ⟨List.replicate 12 0 ++ 0x60 :: List.replicate 7 0, 30 :: List.replicate 263 0⟩ := by
  rintro ⟨⟨fuel, hends⟩, -⟩
  have hstuck : Stuck (30 :: List.replicate 263 0) := ⟨30, List.replicate 262 0, rfl, by decide⟩
  exact hends _ _ (@passes_of_stuck _ ⟨_, _⟩ fuel hstuck (by decide))

end HomaSird.Tcp.TcpHeader
