import HomaSird.Data.Word
import HomaSird.Transition.Machine

/-! # Bytes of packets and of the application stream -/

namespace HomaSird.Tcp

open List

inductive Fault where
  /-- an assertion of the code fails -/
  | assertion
  /-- the code aborts with a message -/
  | abort
  /-- a null pointer or an end iterator is dereferenced -/
  | nullPointer
  /-- a loop comes round again with nothing changed -/
  | endless
deriving DecidableEq

/-- `NS_ASSERT` -/
def assert (condition : Bool) : Except Fault Unit :=
  if condition then .ok () else .error .assertion

/-- `Packet::CreateFragment` -/
def createFragment (packet : List UInt8) (start length : Nat) : Except Fault (List UInt8) :=
  if uint32 (start + length) ≤ packet.length then .ok ((packet.drop start).take length)
  else .error .assertion

/-- The bytes of a stream at the positions from `lo` up to `hi`. -/
def slice (stream : List UInt8) (lo hi : Nat) : List UInt8 := (stream.drop lo).take (hi - lo)

@[simp] theorem ok_bind {α β : Type} (value : α) (next : α → Except Fault β) :
    (Except.ok value >>= next) = next value := rfl

@[simp] theorem error_bind {α β : Type} (fault : Fault) (next : α → Except Fault β) :
    (Except.error fault >>= next) = .error fault := rfl

@[simp] theorem pure_eq_ok {α : Type} (value : α) :
    (pure value : Except Fault α) = .ok value := rfl

theorem assert_of {condition : Bool} (hcond : condition = true) :
    assert condition = .ok () := if_pos hcond

theorem assert_eq_ok {condition : Bool} {value : Unit} :
    assert condition = .ok value ↔ condition = true := by
  cases condition <;> simp [assert]

variable {stream : List UInt8} {lo mid hi : Nat}

theorem slice_length (hhi : hi ≤ stream.length) : (slice stream lo hi).length = hi - lo := by
  simp only [slice, length_take, length_drop]
  omega

theorem slice_append (hlo : lo ≤ mid) (hhi : mid ≤ hi) :
    slice stream lo mid ++ slice stream mid hi = slice stream lo hi := by
  have hsplit : hi - lo = (mid - lo) + (hi - mid) := by omega
  have hdrop : stream.drop mid = (stream.drop lo).drop (mid - lo) := by
    rw [drop_drop, Nat.add_sub_cancel' hlo]
  rw [slice, slice, slice, hsplit, take_add, hdrop]

theorem take_append_slice (hlo : lo ≤ hi) :
    stream.take lo ++ slice stream lo hi = stream.take hi := by
  have happend := @slice_append stream 0 lo hi (Nat.zero_le lo) hlo
  simpa only [slice, drop_zero, Nat.sub_zero] using happend

theorem createFragment_slice {start length : Nat} (hstart : lo + start + length ≤ hi)
    (hhi : hi ≤ stream.length) (hword : hi - lo < 2 ^ 32) :
    createFragment (slice stream lo hi) start length =
      .ok (slice stream (lo + start) (lo + start + length)) := by
  have hlen := @slice_length stream lo hi hhi
  rw [createFragment, uint32_of_lt (by omega), if_pos (by omega)]
  simp only [slice, drop_take, drop_drop, take_take]
  congr 2
  omega

/-- A stream with other bytes from `lo` on, and zeros where it had none. -/
def overwrite (stream : List UInt8) (lo : Nat) (bytes : List UInt8) : List UInt8 :=
  (List.range (max stream.length (lo + bytes.length))).map fun pos =>
    if lo ≤ pos ∧ pos < lo + bytes.length then bytes.getD (pos - lo) 0
    else stream.getD pos 0

section Overwrite

variable {stream bytes : List UInt8} {lo start stop : Nat}

theorem length_overwrite :
    (overwrite stream lo bytes).length = max stream.length (lo + bytes.length) := by
  rw [overwrite, length_map, length_range]

theorem slice_overwrite : slice (overwrite stream lo bytes) lo (lo + bytes.length) = bytes := by
  apply ext_getElem?
  intro index
  rw [slice, getElem?_take, Nat.add_sub_cancel_left]
  split
  next hin =>
    rw [getElem?_drop, overwrite, getElem?_map, getElem?_range (by omega),
      Option.map_some, if_pos (by omega), Nat.add_sub_cancel_left, getD_eq_getElem?_getD,
      getElem?_eq_getElem hin, Option.getD_some]
  next hout => rw [getElem?_eq_none (by omega)]

theorem slice_overwrite_apart (hstop : stop ≤ stream.length)
    (hapart : stop ≤ lo ∨ lo + bytes.length ≤ start) :
    slice (overwrite stream lo bytes) start stop = slice stream start stop := by
  apply ext_getElem?
  intro index
  rw [slice, slice, getElem?_take, getElem?_take]
  split
  next hin =>
    rw [getElem?_drop, getElem?_drop, overwrite, getElem?_map,
      getElem?_range (by omega), Option.map_some, if_neg (by omega),
      getD_eq_getElem?_getD, getElem?_eq_getElem (by omega), Option.getD_some]
  · rfl

end Overwrite

end HomaSird.Tcp
