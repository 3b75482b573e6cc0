import Mathlib.Data.UInt

/-! # Records of words in network order

A record is a list of words of fixed widths, written most significant byte first
by an iterator that moves over a buffer. The bytes passed and the bytes ahead of
it are the two halves of the buffer.
-/

namespace HomaSird

open List

/-- The value of some bytes, the most significant first. -/
def ofBytes (bytes : List UInt8) : Nat :=
  bytes.foldl (fun value byte => value * 2 ^ 8 + byte.toNat) 0

/-- The lowest bytes of a value, the most significant first. -/
def toBytes : Nat → Nat → List UInt8
  | 0, _ => []
  | width + 1, value => toBytes width (value / 2 ^ 8) ++ [UInt8.ofNat value]

@[simp] theorem length_toBytes (width value : Nat) : (toBytes width value).length = width := by
  induction width generalizing value with
  | zero => rfl
  | succ width ih => simp [toBytes, ih]

theorem ofBytes_concat (bytes : List UInt8)
    (byte : UInt8) : ofBytes (bytes ++ [byte]) = ofBytes bytes * 2 ^ 8 + byte.toNat := by
  simp [ofBytes]

theorem ofBytes_toBytes {width value : Nat}
    (hval : value < 2 ^ (8 * width)) : ofBytes (toBytes width value) = value := by
  induction width generalizing value with
  | zero =>
    have hzero : value = 0 := by simpa using hval
    rw [hzero]
    rfl
  | succ width ih =>
    have hhigh : value / 2 ^ 8 < 2 ^ (8 * width) := by
      apply Nat.div_lt_of_lt_mul
      rwa [← pow_add, add_comm 8, ← Nat.mul_succ]
    rw [toBytes, ofBytes_concat, ih hhigh, UInt8.toNat_ofNat']
    exact Nat.div_add_mod' value (2 ^ 8)

theorem ofBytes_lt (bytes : List UInt8) : ofBytes bytes < 2 ^ (8 * bytes.length) := by
  induction bytes using reverseRecOn with
  | nil => exact Nat.one_pos
  | append_singleton bytes byte ih =>
    have hbyte := byte.toNat_lt
    have hpow : 2 ^ (8 * (bytes ++ [byte]).length) = 2 ^ (8 * bytes.length) * 2 ^ 8 := by
      rw [length_append, length_singleton, Nat.mul_succ, pow_add]
    rw [ofBytes_concat, hpow]
    omega

theorem toBytes_ofBytes (bytes : List UInt8) : toBytes bytes.length (ofBytes bytes) = bytes := by
  induction bytes using reverseRecOn with
  | nil => rfl
  | append_singleton bytes byte ih =>
    have hbyte := byte.toNat_lt
    have hhigh : (ofBytes bytes * 2 ^ 8 + byte.toNat) / 2 ^ 8 = ofBytes bytes := by omega
    have hlow : UInt8.ofNat (ofBytes bytes * 2 ^ 8 + byte.toNat) = byte := by
      apply UInt8.toNat_inj.mp
      rw [UInt8.toNat_ofNat']
      omega
    rw [length_append, length_singleton, toBytes, ofBytes_concat, hhigh, hlow, ih]

/-! ## Iterators over a buffer -/

@[ext] structure BufferIterator where
  passed : List UInt8
  ahead : List UInt8
deriving DecidableEq

namespace BufferIterator

/-- Overwrite the next bytes with a word of the given width. -/
def write (width value : Nat) (iter : BufferIterator) : Option BufferIterator :=
  if width ≤ iter.ahead.length then
    some ⟨iter.passed ++ toBytes width value, iter.ahead.drop width⟩
  else none

def read (width : Nat) (iter : BufferIterator) : Option (Nat × BufferIterator) :=
  if width ≤ iter.ahead.length then
    some (ofBytes (iter.ahead.take width),
      ⟨iter.passed ++ iter.ahead.take width, iter.ahead.drop width⟩)
  else none

def readU8 : BufferIterator → Option (UInt8 × BufferIterator)
  | ⟨_, []⟩ => none
  | ⟨passed, byte :: ahead⟩ => some (byte, ⟨passed ++ [byte], ahead⟩)

/-- Go forward by some bytes, which must be there. -/
def next (count : Nat) (iter : BufferIterator) : Option BufferIterator :=
  if count ≤ iter.ahead.length then
    some ⟨iter.passed ++ iter.ahead.take count, iter.ahead.drop count⟩
  else none

/-- Overwrite the next bytes and stay in front of them. -/
def put (bytes : List UInt8) (iter : BufferIterator) : Option BufferIterator :=
  if bytes.length ≤ iter.ahead.length then
    some ⟨iter.passed, bytes ++ iter.ahead.drop bytes.length⟩
  else none

@[simp] theorem readU8_cons (byte : UInt8) (passed ahead : List UInt8) :
    readU8 ⟨passed, byte :: ahead⟩ = some (byte, ⟨passed ++ [byte], ahead⟩) := rfl

@[simp] theorem next_append (bytes passed ahead : List UInt8) :
    next bytes.length ⟨passed, bytes ++ ahead⟩ = some ⟨passed ++ bytes, ahead⟩ := by
  simp [next]

theorem put_append {room bytes : List UInt8} (hroom : room.length = bytes.length) (passed ahead :
    List UInt8) : put bytes ⟨passed, room ++ ahead⟩ = some ⟨passed, bytes ++ ahead⟩ := by
  rw [put, if_pos (by simp [hroom]), ← hroom, drop_left]

theorem write_append {width : Nat}
    {room : List UInt8} (hroom : room.length = width) (value : Nat) (passed ahead : List UInt8) :
    write width value ⟨passed, room ++ ahead⟩ = some ⟨passed ++ toBytes width value, ahead⟩ := by
  subst hroom
  simp [write]

theorem read_append {width : Nat}
    {bytes : List UInt8} (hbytes : bytes.length = width) (passed ahead : List UInt8) :
    read width ⟨passed, bytes ++ ahead⟩ = some (ofBytes bytes, ⟨passed ++ bytes, ahead⟩) := by
  subst hbytes
  simp [read]

theorem read_toBytes {width value : Nat} (hval : value < 2 ^ (8 * width))
    (passed ahead : List UInt8) :
    read width ⟨passed, toBytes width value ++ ahead⟩ =
      some (value, ⟨passed ++ toBytes width value, ahead⟩) := by
  rw [read_append (length_toBytes _ _), ofBytes_toBytes hval]

@[simp] theorem read_uint16 (value : UInt16) (passed ahead : List UInt8) :
    read 2 ⟨passed, toBytes 2 value.toNat ++ ahead⟩ =
      some (value.toNat, ⟨passed ++ toBytes 2 value.toNat, ahead⟩) :=
  read_toBytes value.toNat_lt passed ahead

@[simp] theorem read_uint32 (value : UInt32) (passed ahead : List UInt8) :
    read 4 ⟨passed, toBytes 4 value.toNat ++ ahead⟩ =
      some (value.toNat, ⟨passed ++ toBytes 4 value.toNat, ahead⟩) :=
  read_toBytes value.toNat_lt passed ahead

end BufferIterator

/-! ## Records -/

/-- A word of a record: its width in bytes and its value. -/
abbrev Word := Nat × Nat

def FitWidths (words : List Word) : Prop := ∀ word ∈ words, word.2 < 2 ^ (8 * word.1)

def recordBytes (words : List Word) : List UInt8 := words.flatMap fun word => toBytes word.1 word.2

def recordSize (widths : List Nat) : Nat := widths.sum

def writeRecord : List Word → BufferIterator → Option BufferIterator
  | [], iter => some iter
  | word :: rest, iter => (iter.write word.1 word.2).bind (writeRecord rest)

def readRecord : List Nat → BufferIterator → Option (List Nat × BufferIterator)
  | [], iter => some ([], iter)
  | width :: rest, iter =>
    (iter.read width).bind fun word =>
      (readRecord rest word.2).map fun values => (word.1 :: values.1, values.2)

def readThen {Result : Type} : List Nat → (List Nat → BufferIterator → Option Result) →
    BufferIterator → Option Result
  | [], next, iter => next [] iter
  | width :: rest, next, iter =>
    (iter.read width).bind fun word =>
      readThen rest (fun values iter => next (word.1 :: values) iter) word.2

theorem readThen_eq {Result : Type} (widths : List Nat)
    (next : List Nat → BufferIterator → Option Result) (iter : BufferIterator) :
    readThen widths next iter =
      (readRecord widths iter).bind fun record => next record.1 record.2 := by
  induction widths generalizing next iter with
  | nil => rfl
  | cons width rest ih =>
    rw [readThen, readRecord, Option.bind_assoc]
    congr 1
    funext word
    rw [ih, Option.bind_map]
    rfl

theorem length_recordBytes (words : List Word) :
    (recordBytes words).length = recordSize (words.map Prod.fst) := by
  simp [recordBytes, recordSize, length_flatMap]

theorem writeRecord_append (words : List Word) {room : List UInt8}
    (hroom : room.length = recordSize (words.map Prod.fst)) (passed ahead : List UInt8) :
    writeRecord words ⟨passed, room ++ ahead⟩ = some ⟨passed ++ recordBytes words, ahead⟩ := by
  induction words generalizing room passed with
  | nil =>
    obtain rfl := eq_nil_of_length_eq_zero hroom
    simp [writeRecord, recordBytes]
  | cons word rest ih =>
    have hsplit : room = room.take word.1 ++ room.drop word.1 := (take_append_drop _ _).symm
    have hsz : room.length = word.1 + recordSize (rest.map Prod.fst) := hroom
    rw [hsplit, append_assoc, writeRecord,
      BufferIterator.write_append (by rw [length_take]; omega), Option.bind_some,
      ih (by rw [length_drop]; omega)]
    simp [recordBytes]

theorem readRecord_recordBytes {words : List Word} (hfits : FitWidths words)
    (passed ahead : List UInt8) :
    readRecord (words.map Prod.fst) ⟨passed, recordBytes words ++ ahead⟩ =
      some (words.map Prod.snd, ⟨passed ++ recordBytes words, ahead⟩) := by
  induction words generalizing passed with
  | nil => simp [readRecord, recordBytes]
  | cons word rest ih =>
    obtain ⟨hhead, hrest⟩ := forall_mem_cons.mp hfits
    have hbytes : recordBytes (word :: rest) ++ ahead =
        toBytes word.1 word.2 ++ (recordBytes rest ++ ahead) := by
      simp [recordBytes]
    rw [hbytes, map_cons, readRecord, BufferIterator.read_append (length_toBytes _ _),
      Option.bind_some, ih hrest, ofBytes_toBytes hhead]
    simp [recordBytes]

theorem readRecord_append (widths : List Nat) {bytes : List UInt8}
    (hbytes : bytes.length = recordSize widths) (passed ahead : List UInt8) :
    ∃ words : List Word,
      words.map Prod.fst = widths ∧ FitWidths words ∧ recordBytes words = bytes ∧
        readRecord widths ⟨passed, bytes ++ ahead⟩ =
          some (words.map Prod.snd, ⟨passed ++ bytes, ahead⟩) := by
  induction widths generalizing bytes passed with
  | nil =>
    obtain rfl := eq_nil_of_length_eq_zero hbytes
    exact ⟨[], rfl, fun _ hmem => (not_mem_nil hmem).elim, rfl, by simp [readRecord]⟩
  | cons width rest ih =>
    have hsz : bytes.length = width + recordSize rest := hbytes
    have hhead : (bytes.take width).length = width := by rw [length_take]; omega
    have hsplit : bytes = bytes.take width ++ bytes.drop width := (take_append_drop _ _).symm
    obtain ⟨words, hwidths, hfits, hrecord, hread⟩ :=
      ih (by rw [length_drop]; omega : (bytes.drop width).length = recordSize rest)
        (passed ++ bytes.take width)
    refine ⟨(width, ofBytes (bytes.take width)) :: words, by rw [map_cons, hwidths],
      forall_mem_cons.mpr ⟨?_, hfits⟩, ?_, ?_⟩
    · have hlt := ofBytes_lt (bytes.take width)
      rwa [hhead] at hlt
    · have hword := toBytes_ofBytes (bytes.take width)
      rw [hhead] at hword
      rw [recordBytes, flatMap_cons, hword, ← recordBytes, hrecord]
      exact take_append_drop _ _
    · rw [hsplit, append_assoc, readRecord, BufferIterator.read_append hhead,
        Option.bind_some, hread, ← hsplit]
      simp

/-! ## Least significant byte first -/

def u32Bytes (value : Nat) : List UInt8 :=
  [UInt8.ofNat value, UInt8.ofNat (value / 2 ^ 8), UInt8.ofNat (value / 2 ^ 16),
    UInt8.ofNat (value / 2 ^ 24)]

def readU32 : List UInt8 → Option (Nat × List UInt8)
  | first :: second :: third :: fourth :: rest =>
    some (first.toNat + second.toNat * 2 ^ 8 + third.toNat * 2 ^ 16 + fourth.toNat * 2 ^ 24, rest)
  | _ => none

theorem readU32_u32Bytes {value : Nat} (hval : value < 2 ^ 32) (rest : List UInt8) :
    readU32 (u32Bytes value ++ rest) = some (value, rest) := by
  simp only [u32Bytes, cons_append, nil_append, readU32, UInt8.toNat_ofNat']
  refine congrArg (fun word => some (word, rest)) ?_
  omega

end HomaSird
