import HomaSird.Internet.Ipv4Header
import HomaSird.Tcp.TcpHeaderRoundTrip
import HomaSird.Tcp.TcpOptionLoop

/-! # Internet checksums

The sum of the words and the carries folded into it agree modulo `2 ^ 16 - 1`, so a checksum is
zero exactly if the words, the checksum among them, sum up to a positive multiple of it. A receiver
of a TCP segment gets to the checksum only behind the options.
-/

namespace HomaSird.Internet

open Tcp List

/-! ## Sums of words -/

theorem foldCarries_spec (sum : Nat) :
    foldCarries sum < 2 ^ 16 ∧ foldCarries sum % 65535 = sum % 65535 ∧
      (foldCarries sum = 0 ↔ sum = 0) := by
  fun_induction foldCarries sum with
  | case1 sum hsmall => exact ⟨hsmall, rfl, Iff.rfl⟩
  | case2 sum hlarge ih =>
    obtain ⟨hlt, hmod, hzero⟩ := ih
    refine ⟨hlt, hmod.trans ?_, hzero.trans ?_⟩
    · omega
    · omega

theorem sumWords_append {front : List UInt8} (heven : front.length % 2 = 0) (back : List UInt8) :
    sumWords (front ++ back) = sumWords front + sumWords back := by
  fun_induction sumWords front with
  | case1 => simp
  | case2 byte => simp at heven
  | case3 low high later ih =>
    rw [cons_append, cons_append, sumWords, ih (by simpa [add_assoc] using heven)]
    omega

theorem sumWords_le (bytes : List UInt8) : sumWords bytes ≤ 65535 * ((bytes.length + 1) / 2) := by
  fun_induction sumWords bytes with
  | case1 => exact Nat.zero_le _
  | case2 byte =>
    have hbyte := byte.toNat_lt
    simp only [length_singleton]
    omega
  | case3 low high later ih =>
    have hlow := low.toNat_lt
    have hhigh := high.toNat_lt
    simp only [length_cons]
    omega

variable {bytes changed : List UInt8} {size initialChecksum offset : Nat}

/-- None of the sums that `CalculateIpChecksum` goes through is too large for 32 bits. -/
theorem accumulates (hinitial : initialChecksum < 2 ^ 16) (bytes : List UInt8) (size : Nat) :
    ∀ count ≤ uint16 size, initialChecksum + sumWords (bytes.take count) < 2 ^ 32 := by
  intro count hcnt
  have hsum := sumWords_le (bytes.take count)
  have hsz := uint16_lt size
  have hlen := length_take_le count bytes
  omega

theorem calculateIpChecksum_spec (hsz : size < 2 ^ 16) (hinitial : initialChecksum < 2 ^ 16) :
    ∃ folded < 2 ^ 16,
      calculateIpChecksum bytes size initialChecksum = 65535 - folded ∧
        folded % 65535 = (initialChecksum + sumWords (bytes.take size)) % 65535 ∧
        (folded = 0 ↔ initialChecksum + sumWords (bytes.take size) = 0) := by
  have hbd := accumulates hinitial bytes size size (by rw [uint16_of_lt hsz])
  obtain ⟨hlt, hmod, hzero⟩ :=
    foldCarries_spec (initialChecksum + sumWords (bytes.take size))
  refine ⟨_, hlt, ?_, hmod, hzero⟩
  rw [calculateIpChecksum, uint16_of_lt hsz, uint32_of_lt hbd]
  rfl

theorem calculateIpChecksum_eq_zero (hsz : size < 2 ^ 16) (hinitial : initialChecksum < 2 ^ 16) :
    calculateIpChecksum bytes size initialChecksum = 0 ↔
      0 < initialChecksum + sumWords (bytes.take size) ∧
        (initialChecksum + sumWords (bytes.take size)) % 65535 = 0 := by
  obtain ⟨folded, hlt, heq, hmod, hzero⟩ :=
    @calculateIpChecksum_spec bytes _ _ hsz hinitial
  omega

/-! ## Checksums written and words changed -/

/-- `WriteU16` writes the low byte first. -/
def wordBytes (word : Nat) : List UInt8 := [UInt8.ofNat word, UInt8.ofNat (word / 2 ^ 8)]

theorem overwrite_word {first last : List UInt8} {stop : Nat} (hfst : first.length = offset)
    (hstop : offset + 2 = stop) (word : List UInt8) :
    (first ++ ([0, 0] ++ last)).take offset ++ word ++ (first ++ ([0, 0] ++ last)).drop stop =
      first ++ (word ++ last) := by
  subst hfst hstop
  rw [take_left, ← append_assoc, drop_left' (by simp), append_assoc]

/-- The checksum written over a word of zeros makes the checksum zero. -/
theorem checksum_completes {first last : List UInt8} (heven : first.length % 2 = 0)
    (hsz : size < 2 ^ 16) (hfst : first.length + 2 ≤ size) (hinitial : initialChecksum < 2 ^ 16) :
    calculateIpChecksum (first ++
        (wordBytes (calculateIpChecksum (first ++ ([0, 0] ++ last)) size initialChecksum) ++ last))
      size initialChecksum = 0 := by
  have htake : ∀ word : List UInt8, word.length = 2 → (first ++ (word ++ last)).take size =
      first ++ (word ++ last.take (size - first.length - 2)) := by
    intro word hword
    rw [take_append, take_of_length_le (by omega), take_append, take_of_length_le (by omega), hword]
  obtain ⟨folded, hlt, heq, hmod, hzero⟩ :=
    @calculateIpChecksum_spec (first ++ ([0, 0] ++ last)) _ _ hsz hinitial
  have hword : sumWords (wordBytes (65535 - folded)) = 65535 - folded := by
    simp only [wordBytes, sumWords, UInt8.toNat_ofNat']
    omega
  rw [htake _ rfl, sumWords_append heven, sumWords_append (by rfl)] at hmod hzero
  rw [heq, calculateIpChecksum_eq_zero hsz hinitial, htake _ rfl, sumWords_append heven,
    sumWords_append (by simp [wordBytes]), hword]
  have hzeros : sumWords [0, 0] = 0 := rfl
  omega

/-- One word of 16 bits at an even offset is replaced by one that differs modulo `0xffff`. -/
inductive Replaced : Nat → List UInt8 → List UInt8 → Prop
  | word {before word other : List UInt8} (after : List UInt8) : before.length % 2 = 0 →
    word.length = 2 → other.length = 2 → sumWords word % 65535 ≠ sumWords other % 65535 →
    Replaced before.length (before ++ (word ++ after)) (before ++ (other ++ after))

theorem Replaced.length_eq (hreplaced : Replaced offset bytes changed) :
    changed.length = bytes.length := by
  obtain ⟨after, -, hword, hother, -⟩ := hreplaced
  simp [hword, hother]

theorem Replaced.within (hreplaced : Replaced offset bytes changed) :
    offset + 2 ≤ bytes.length := by
  obtain ⟨after, -, hword, -, -⟩ := hreplaced
  rw [length_append, length_append]
  omega

theorem Replaced.append (hreplaced : Replaced offset bytes changed) (payload : List UInt8) :
    Replaced offset (bytes ++ payload) (changed ++ payload) := by
  obtain ⟨after, heven, hword, hother, hdiffer⟩ := hreplaced
  simpa only [append_assoc] using Replaced.word (after ++ payload) heven hword hother hdiffer

/-- A word that is replaced makes a checksum that was zero another one. -/
theorem Replaced.detected (hreplaced : Replaced offset bytes changed) (hsz : size < 2 ^ 16)
    (hoff : offset + 2 ≤ size) (hinitial : initialChecksum < 2 ^ 16)
    (hzero : calculateIpChecksum bytes size initialChecksum = 0) :
    calculateIpChecksum changed size initialChecksum ≠ 0 := by
  intro hother
  obtain @⟨before, word, other, after, heven, hword, hchanged, hdiffer⟩ := hreplaced
  rw [calculateIpChecksum_eq_zero hsz hinitial] at hzero hother
  have htake : ∀ word : List UInt8, word.length = 2 →
      sumWords ((before ++ (word ++ after)).take size) =
      sumWords before + (sumWords word + sumWords (after.take (size - before.length - 2))) := by
    intro word hword
    rw [take_append, take_of_length_le (by omega), take_append, take_of_length_le (by omega),
      hword, sumWords_append heven, sumWords_append (by omega)]
  rw [htake _ hword] at hzero
  rw [htake _ hchanged] at hother
  omega

theorem Replaced.head? (hreplaced : Replaced offset bytes changed) (hpos : 0 < offset) :
    changed.head? = bytes.head? := by
  obtain ⟨after, -, -, -, -⟩ := hreplaced
  rw [head?_append_of_ne_nil _ (ne_nil_of_length_pos hpos),
    head?_append_of_ne_nil _ (ne_nil_of_length_pos hpos)]

/-! ## IPv4 headers -/

/-- A header with the fields that only `Serialize` and `Deserialize` use. -/
structure FullIpv4Header extends Ipv4Header where
  tos : UInt8 := 0
  ttl : UInt8 := 0
  dontFragment : Bool := false
  checksum : Nat := 0
  goodChecksum : Bool := true
  headerSize : Nat := 5 * 4
deriving DecidableEq

namespace FullIpv4Header

variable (header : FullIpv4Header)

def flagsFrag : Nat :=
  (header.fragmentOffset / 8 >>> 8) &&& 0x1f ||| (if header.dontFragment then 1 <<< 6 else 0) |||
    if header.moreFragments then 1 <<< 5 else 0

def words : List Word :=
  [(1, 4 <<< 4 ||| 5), (1, header.tos.toNat), (2, header.payloadSize + 5 * 4),
    (2, header.identification.toNat), (1, header.flagsFrag), (1, header.fragmentOffset / 8),
    (1, header.ttl.toNat), (1, header.protocol.toNat), (2, 0), (4, header.source.toNat),
    (4, header.destination.toNat)]

def serialize (buf : List UInt8) : Option BufferIterator := do
  let i ← writeRecord header.words ⟨[], buf⟩
  return if header.calcChecksum then
    ⟨i.passed.take 10 ++ wordBytes (calculateIpChecksum (i.passed ++ i.ahead) 20 0) ++
      i.passed.drop 12, i.ahead⟩
  else i

def deserialize (buf : List UInt8) : Option (FullIpv4Header × Nat) := do
  let (verIhl, i) ← BufferIterator.read 1 ⟨[], buf⟩
  let headerSize := verIhl % 2 ^ 4 * 4
  if verIhl / 2 ^ 4 ≠ 4 then return (header, 0)
  else
    let (values, _) ← readRecord [1, 2, 2, 1, 1, 1, 1, 2, 4, 4] i
    let [tos, size, identification, flags, frag, ttl, protocol, checksum, source, destination] :=
      values | none
    if header.calcChecksum ∧ buf.length < headerSize then none
    else return ({ header with
      tos := .ofNat tos
      payloadSize := uint16 (size + 2 ^ 16 - headerSize)
      identification := .ofNat 16 identification
      dontFragment := flags.testBit 6
      moreFragments := flags.testBit 5
      fragmentOffset := (flags % 2 ^ 5 * 2 ^ 8 + frag) * 2 ^ 3
      ttl := .ofNat ttl
      protocol := .ofNat 8 protocol
      -- read by `ReadU16`, which takes the low byte first
      checksum := checksum % 2 ^ 8 * 2 ^ 8 + checksum / 2 ^ 8
      source := .ofNat 32 source
      destination := .ofNat 32 destination
      headerSize := headerSize
      goodChecksum := if header.calcChecksum then calculateIpChecksum buf headerSize 0 = 0
        else header.goodChecksum }, headerSize)

variable {header}

theorem serialize_eq (hcalc : header.calcChecksum = true) {room : List UInt8}
    (hroom : room.length = 20) (payload : List UInt8) :
    ∃ bytes,
      header.serialize (room ++ payload) = some ⟨bytes, payload⟩ ∧ bytes.length = 20 ∧
        bytes.head? = some 0x45 ∧ calculateIpChecksum (bytes ++ payload) 20 0 = 0 := by
  obtain ⟨first, last, hfst, hlast, hhead, hrecord⟩ : ∃ first last : List UInt8,
      first.length = 10 ∧ last.length = 8 ∧ first.head? = some 0x45 ∧
      recordBytes header.words = first ++ ([0, 0] ++ last) :=
    ⟨recordBytes (header.words.take 8), recordBytes (header.words.drop 9),
      length_recordBytes _, length_recordBytes _, rfl, by simp [recordBytes, words, toBytes]⟩
  refine ⟨first ++ (wordBytes (calculateIpChecksum (first ++ ([0, 0] ++ (last ++ payload))) 20 0) ++
    last), ?_, by simp [wordBytes, hfst, hlast], by rw [head?_append, hhead]; rfl, ?_⟩
  · rw [serialize, writeRecord_append _ (hroom.trans rfl), hrecord]
    simp only [Option.bind_eq_bind, Option.bind_some, hcalc, if_true, nil_append,
      overwrite_word hfst rfl]
    simp only [append_assoc]
    rfl
  · rw [append_assoc, append_assoc]
    exact checksum_completes (by rw [hfst]) (by decide) (by omega) (by decide)

theorem deserialize_eq (hcalc : header.calcChecksum = true) (hlen : bytes.length = 20)
    (hhead : bytes.head? = some 0x45) (payload : List UInt8) :
    ∃ decoded,
      header.deserialize (bytes ++ payload) = some (decoded, 20) ∧
        (decoded.goodChecksum = true ↔ calculateIpChecksum (bytes ++ payload) 20 0 = 0) := by
  obtain ⟨tail, rfl⟩ := head?_eq_some_iff.mp hhead
  obtain ⟨words, hwidths, -, -, hread⟩ := readRecord_append [1, 2, 2, 1, 1, 1, 1, 2, 4, 4]
    (Nat.succ_injective hlen) [0x45] payload
  simp only [map_eq_cons_iff, map_eq_nil_iff] at hwidths
  obtain ⟨_, _, rfl, -, _, _, rfl, -, _, _, rfl, -, _, _, rfl, -, _, _, rfl, -, _, _, rfl, -, _, _,
    rfl, -, _, _, rfl, -, _, _, rfl, -, _, _, rfl, -, rfl⟩ := hwidths
  have hversion : BufferIterator.read 1 ⟨[], 0x45 :: tail ++ payload⟩ =
      some (0x45, ⟨[0x45], tail ++ payload⟩) := by
    simp [BufferIterator.read, ofBytes]
  simp only [map_cons, map_nil] at hread
  rw [deserialize, hversion]
  simp only [Option.bind_eq_bind, Option.bind_some, hread, hcalc]
  rw [if_neg (by decide), if_neg (by rw [length_append, hlen]; omega)]
  refine ⟨_, rfl, ?_⟩
  rw [if_pos trivial]
  exact decide_eq_true_iff

/-- A checksum as written is found right, and wrong once a word behind the first is replaced. -/
structure Verified (payload bytes : List UInt8) : Prop where
  length : bytes.length = 20
  accepted {receiver : FullIpv4Header} : receiver.calcChecksum = true → ∃ decoded,
    receiver.deserialize (bytes ++ payload) = some (decoded, 20) ∧ decoded.goodChecksum = true
  detected {receiver : FullIpv4Header} {offset : Nat} {changed : List UInt8} :
    receiver.calcChecksum = true → Replaced offset bytes changed → 2 ≤ offset → ∃ decoded,
    receiver.deserialize (changed ++ payload) = some (decoded, 20) ∧ decoded.goodChecksum = false

theorem serialize_verified (hcalc : header.calcChecksum = true) {room : List UInt8}
    (hroom : room.length = 20) (payload : List UInt8) :
    ∃ bytes,
      header.serialize (room ++ payload) = some ⟨bytes, payload⟩ ∧ Verified payload bytes := by
  obtain ⟨bytes, hser, hlen, hhead, hzero⟩ := serialize_eq hcalc hroom payload
  refine ⟨bytes, hser, hlen, fun hrecv => ?_, fun hrecv hreplaced hoff => ?_⟩
  · obtain ⟨decoded, hdec, hgood⟩ := deserialize_eq hrecv hlen hhead payload
    exact ⟨decoded, hdec, hgood.mpr hzero⟩
  · have hchanged := hreplaced.length_eq.trans hlen
    have hwithin := hreplaced.within
    obtain ⟨decoded, hdec, hgood⟩ := deserialize_eq hrecv hchanged
      ((hreplaced.head? (by omega)).trans hhead) payload
    refine ⟨decoded, hdec, Bool.eq_false_iff.mpr (mt hgood.mp ?_)⟩
    exact (hreplaced.append payload).detected (by decide) (by omega) (by decide) hzero

end FullIpv4Header

/-! ## TCP segments -/

namespace TcpSegment

open TcpHeader

variable {header receiver : TcpHeader} {buf segment : List UInt8} {i j : BufferIterator}

theorem next_passed {count : Nat} (hnext : i.next count = some j) :
    ∃ tail, j.passed = i.passed ++ tail := by
  rw [BufferIterator.next] at hnext
  split at hnext
  · cases hnext
    exact ⟨_, rfl⟩
  · cases hnext

theorem put_passed (hput : i.put bytes = some j) : j.passed = i.passed := by
  rw [BufferIterator.put] at hput
  split at hput
  · cases hput
    rfl
  · cases hput

theorem writeRecord_passed {words : List Word} (hwrite : writeRecord words i = some j) :
    j.passed = i.passed ++ recordBytes words := by
  induction words generalizing i with
  | nil =>
    cases hwrite
    simp [recordBytes]
  | cons word rest ih =>
    obtain ⟨next, hnext, hwrite⟩ := Option.bind_eq_some_iff.mp hwrite
    rw [BufferIterator.write] at hnext
    split at hnext
    · cases hnext
      rw [ih hwrite]
      simp [recordBytes]
    · cases hnext

theorem writeOptions_passed {options : List TcpOption}
    (hwrite : writeOptions options i = some j) : ∃ tail, j.passed = i.passed ++ tail := by
  induction options generalizing i with
  | nil =>
    cases hwrite
    exact ⟨[], (append_nil _).symm⟩
  | cons option later ih =>
    obtain ⟨written, hput, hwrite⟩ := Option.bind_eq_some_iff.mp hwrite
    obtain ⟨next, hnext, hwrite⟩ := Option.bind_eq_some_iff.mp hwrite
    obtain ⟨middle, hmiddle⟩ := next_passed hnext
    obtain ⟨tail, htail⟩ := ih hwrite
    exact ⟨middle ++ tail, by rw [htail, hmiddle, put_passed hput, append_assoc]⟩

/-- The checksum over the bytes of a segment, with the one over the pseudo-header. -/
def segmentChecksum (header : TcpHeader) (segment : List UInt8) : Nat :=
  calculateIpChecksum segment segment.length
    (header.calculateHeaderChecksum (uint16 segment.length))

theorem calculateHeaderChecksum_lt (header : TcpHeader) (size : Nat) :
    header.calculateHeaderChecksum size < 2 ^ 16 :=
  lt_of_le_of_lt (Nat.sub_le _ _) (by decide)

theorem segmentChecksum_completes (header : TcpHeader) {first rest : List UInt8}
    (heven : first.length % 2 = 0) (hlen : (first ++ ([0, 0] ++ rest)).length < 2 ^ 16) :
    segmentChecksum header
      (first ++ (wordBytes (segmentChecksum header (first ++ ([0, 0] ++ rest))) ++ rest)) = 0 := by
  have hsame : ∀ word, (first ++ (wordBytes word ++ rest)).length =
      (first ++ ([0, 0] ++ rest)).length := by
    simp [wordBytes]
  rw [segmentChecksum, hsame]
  exact checksum_completes heven hlen (by simp) (calculateHeaderChecksum_lt _ _)

theorem serialize_spec (hcalc : header.calcChecksum = true)
    (hser : header.serialize buf = some i) (hlen : (i.passed ++ i.ahead).length < 2 ^ 16) :
    20 ≤ (i.passed ++ i.ahead).length ∧ segmentChecksum header (i.passed ++ i.ahead) = 0 := by
  simp only [serialize, Option.bind_eq_bind, Option.bind_eq_some_iff] at hser
  obtain ⟨fixed, hfixed, options, hoptions, filled, hfilled, next, hnext, hser⟩ := hser
  obtain ⟨first, last, hfst, hrecord⟩ := header.exists_checkedWords
  obtain ⟨middle, hmiddle⟩ := writeOptions_passed hoptions
  obtain ⟨tail, htail⟩ := next_passed hnext
  have hpassed : next.passed = first ++ ([0, 0] ++ (last ++ (middle ++ tail))) := by
    rw [htail, put_passed hfilled, hmiddle, writeRecord_passed hfixed, nil_append,
      show header.fixedWords = header.checkedWords 0 from rfl, hrecord]
    simp [toBytes]
  obtain ⟨rest, hrest, hbytes⟩ : ∃ rest, last.length ≤ rest.length ∧ i.passed ++ i.ahead = first ++
      (wordBytes (segmentChecksum header (first ++ ([0, 0] ++ rest))) ++ rest) := by
    refine ⟨last ++ (middle ++ (tail ++ next.ahead)), by simp, ?_⟩
    rw [if_pos hcalc] at hser
    cases hser
    simp only [writeChecksum, hpassed, overwrite_word hfst rfl, append_assoc]
    rfl
  have hlast : 16 + (2 + last.length) = 20 := by
    have hsz := length_recordBytes (header.checkedWords 0)
    rw [hrecord, length_append, length_append, hfst, length_toBytes] at hsz
    exact hsz.trans rfl
  rw [hbytes] at hlen ⊢
  simp only [wordBytes, length_append, length_cons, length_nil, hfst] at hlen ⊢
  refine ⟨?_, segmentChecksum_completes header (by rw [hfst]) ?_⟩
  · omega
  · simp only [length_append, length_cons, length_nil, hfst]
    omega

/-- A receiver that has not yet read a header and knows the addresses of a sender. -/
structure Receives (receiver header : TcpHeader) : Prop where
  calcChecksum : receiver.calcChecksum = true
  goodChecksum : receiver.goodChecksum = true
  source : receiver.source = header.source
  destination : receiver.destination = header.destination
  protocol : receiver.protocol = header.protocol

theorem Receives.checksumOk (hreceives : Receives receiver header) (segment : List UInt8) :
    receiver.checksumOk segment = true ↔ segmentChecksum header segment = 0 := by
  rw [TcpHeader.checksumOk, if_pos hreceives.calcChecksum, decide_eq_true_iff, segmentChecksum,
    calculateHeaderChecksum, calculateHeaderChecksum, hreceives.source, hreceives.destination,
    hreceives.protocol]

/-! ## Received segments -/

def Rejects (receiver : TcpHeader) (segment : List UInt8) : Prop :=
  ∃ fuel decoded size, receiver.deserialize fuel segment = some (decoded, size) ∧
    decoded.goodChecksum = false

/-- The data offset has room for the fixed part, and the loop over the options stays nowhere and
reads nothing behind the segment. -/
structure ChecksumReached (segment : List UInt8) : Prop where
  offset : 5 ≤ dataOffset (segment.take 20)
  options : ∀ left place, Reached (optionLength (segment.take 20))
    ⟨segment.take 20, segment.drop 20⟩ left place → left ≠ 0 →
    ¬ Stuck place.ahead ∧ pass left place ≠ .aborts

theorem optionLength_le_iff (front : List UInt8) :
    optionLength front ≤ maxOptionsLen ↔ 5 ≤ dataOffset front := by
  have hbyte := (front.getD 12 0).toNat_lt
  rw [optionLength, uint32OfInt, maxOptionsLen, dataOffset]
  omega

theorem deserialize_goodChecksum (hlen : 20 ≤ segment.length) {fuel size : Nat} {decoded :
    TcpHeader} (hdec : receiver.deserialize fuel segment = some (decoded, size)) :
    decoded.goodChecksum = if 5 ≤ dataOffset (segment.take 20) then receiver.checksumOk segment else
    receiver.goodChecksum := by
  obtain ⟨hearly, hlate⟩ := receiver.deserialize_front (length_take_of_le hlen)
    (segment.drop 20) fuel
  rw [take_append_drop, hdec] at hearly hlate
  split
  next hoff =>
    obtain ⟨result, hres, hgood⟩ := hlate ((optionLength_le_iff _).mpr hoff)
    obtain ⟨read, -, hread⟩ := Option.map_eq_some_iff.mp hres.symm
    cases hread
    exact hgood read
  next hoff =>
    obtain ⟨other, hother, hgood⟩ :=
      hearly (Nat.lt_of_not_le (mt (optionLength_le_iff _).mp hoff))
    cases hother
    exact hgood

theorem rejects_iff (hgood : receiver.goodChecksum = true) (hlen : 20 ≤ segment.length) (hwrong :
    receiver.checksumOk segment = false) : Rejects receiver segment ↔ ChecksumReached segment := by
  have hreturns := fun hoff fuel => receiver.deserialize_isSome (length_take_of_le hlen)
    (segment.drop 20) fuel ((optionLength_le_iff _).mpr hoff)
  simp only [take_append_drop] at hreturns
  constructor
  · rintro ⟨fuel, decoded, size, hdec, hbad⟩
    have hchecked := deserialize_goodChecksum hlen hdec
    rw [hbad] at hchecked
    split at hchecked
    next hoff =>
      have hleaves := (hreturns hoff fuel).mp (Option.isSome_of_eq_some hdec)
      exact ⟨hoff, exists_leaves_iff.mp ⟨fuel, hleaves⟩⟩
    next =>
      rw [hgood] at hchecked
      cases hchecked
  · rintro ⟨hoff, hfree⟩
    obtain ⟨fuel, hleaves⟩ := exists_leaves_iff.mpr hfree
    obtain ⟨⟨decoded, size⟩, hdec⟩ :=
      Option.isSome_iff_exists.mp ((hreturns hoff fuel).mpr hleaves)
    refine ⟨fuel, decoded, size, hdec, ?_⟩
    rw [deserialize_goodChecksum hlen hdec, if_pos hoff, hwrong]

structure Verified (receiver : TcpHeader) (segment : List UInt8) : Prop where
  accepted {fuel : Nat} {decoded : TcpHeader} {size : Nat} :
    receiver.deserialize fuel segment = some (decoded, size) → decoded.goodChecksum = true
  detected_iff {offset : Nat} {changed : List UInt8} : Replaced offset segment changed →
    (Rejects receiver changed ↔ ChecksumReached changed)

theorem serialize_verified (hcalc : header.calcChecksum = true)
    (hreceives : Receives receiver header) (hser : header.serialize buf = some i)
    (hlen : (i.passed ++ i.ahead).length ≤ 65535) : Verified receiver (i.passed ++ i.ahead) := by
  obtain ⟨hlong, hzero⟩ := serialize_spec hcalc hser (Nat.lt_succ_of_le hlen)
  refine ⟨fun hdec => ?_, fun hreplaced => ?_⟩
  · rw [deserialize_goodChecksum hlong hdec, (hreceives.checksumOk _).mpr hzero,
      hreceives.goodChecksum, ite_self]
  · have hsame := hreplaced.length_eq
    refine rejects_iff hreceives.goodChecksum (hsame ▸ hlong) (Bool.eq_false_iff.mpr fun hright =>
    ?_)
    have hchanged := (hreceives.checksumOk _).mp hright
    rw [segmentChecksum, hsame] at hchanged
    exact hreplaced.detected (Nat.lt_succ_of_le hlen) hreplaced.within
      (calculateHeaderChecksum_lt _ _) hzero hchanged

theorem Sound.returns (hsound : header.Sound) (receiver : TcpHeader) {room : List UInt8}
    (hroom : room.length = header.getSerializedSize) (payload : List UInt8) :
    ∃ bytes,
      header.serialize (room ++ payload) = some ⟨bytes, payload⟩ ∧ bytes.length = room.length ∧
        ∃ fuel decoded size,
          receiver.deserialize fuel (bytes ++ payload) = some (decoded, size) := by
  obtain ⟨bytes, hser, hlen, hdec⟩ := hsound.roundTrips.codec room payload hroom
  obtain ⟨decoded, hdec, -⟩ := hdec receiver 42 (Nat.lt_succ_self _)
  exact ⟨bytes, hser, hlen.trans hroom.symm, 42, decoded, _, hdec⟩

/-- A replaced word is detected in every IPv4 header, in a TCP segment exactly if the checksum is
reached. -/
theorem checksums_detect_iff (header receiver : TcpHeader) (room payload : List UInt8) :
    (∀ (bytes : List UInt8) (size initialChecksum : Nat), initialChecksum < 2 ^ 16 →
      ∀ count ≤ uint16 size, initialChecksum + sumWords (bytes.take count) < 2 ^ 32) ∧
    (∀ size, header.calculateHeaderChecksum size < 2 ^ 16) ∧
    (∀ ipv4 : FullIpv4Header, ipv4.calcChecksum = true → room.length = 20 → ∃ bytes,
      ipv4.serialize (room ++ payload) = some ⟨bytes, payload⟩ ∧
      FullIpv4Header.Verified payload bytes) ∧
    (header.calcChecksum = true → Receives receiver header →
      room.length = header.getSerializedSize →
      (header.Sound → ∃ bytes, header.serialize (room ++ payload) = some ⟨bytes, payload⟩ ∧
        bytes.length = room.length ∧
        ∃ fuel decoded size, receiver.deserialize fuel (bytes ++ payload) = some (decoded, size)) ∧
      ∀ i, header.serialize (room ++ payload) = some i → (i.passed ++ i.ahead).length ≤ 65535 →
        Verified receiver (i.passed ++ i.ahead)) :=
  ⟨fun bytes size _ hinitial => accumulates hinitial bytes size, calculateHeaderChecksum_lt header,
    fun _ hcalc hroom => FullIpv4Header.serialize_verified hcalc hroom payload,
    fun hcalc hreceives hroom => ⟨fun hsound => Sound.returns hsound receiver hroom payload,
      fun _ hser hlen => serialize_verified hcalc hreceives hser hlen⟩⟩

def checkedHeader : TcpHeader :=
  { calcChecksum := true, source := ⟨true, [10, 0, 0, 1]⟩, destination := ⟨true, [10, 0, 0, 2]⟩
    protocol := 6 }

theorem checksums_detect_iff_checked :
    ∃ bytes,
      checkedHeader.serialize (replicate 20 0) = some ⟨bytes, []⟩ ∧
        Verified checkedHeader bytes := by
  obtain ⟨hreturns, hverified⟩ := (checksums_detect_iff checkedHeader checkedHeader
    (replicate 20 0) []).2.2.2 rfl ⟨rfl, rfl, rfl, rfl, rfl⟩ rfl
  obtain ⟨bytes, hser, hlen, -⟩ := hreturns (Fresh.sound ⟨rfl, rfl, rfl⟩)
  rw [append_nil] at hser
  refine ⟨bytes, hser, append_nil bytes ▸ hverified _ hser ?_⟩
  rw [append_nil, hlen]
  decide

/-- A data offset of four words in place of five makes `Deserialize` return before the checksum. -/
theorem not_rejects_offset :
    ¬ ∀ bytes changed,
      checkedHeader.serialize (replicate 20 0) = some ⟨bytes, []⟩ → Replaced 12 bytes changed →
        Rejects checkedHeader changed := by
  intro hrejects
  have hsound : checkedHeader.Sound := Fresh.sound ⟨rfl, rfl, rfl⟩
  obtain ⟨checksum, -, hser⟩ := @Sound.serialize _ hsound (replicate 20 0) rfl []
  have hreplaced : Replaced 12 _ _ := @Replaced.word (replicate 12 0) [0x50, 0] [0x40, 0]
    ([255, 255] ++ (toBytes 2 checksum ++ [0, 0])) rfl rfl rfl (by decide)
  obtain ⟨fuel, decoded, size, hdec, hbad⟩ := hrejects _ _ hser hreplaced
  rw [deserialize_goodChecksum (by simp) hdec] at hbad
  split at hbad
  next hoff => simp [dataOffset] at hoff
  · cases hbad

end TcpSegment

end HomaSird.Internet
