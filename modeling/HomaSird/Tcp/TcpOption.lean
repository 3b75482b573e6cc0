import HomaSird.Data.NetworkOrder
import HomaSird.Tcp.RxBuffer

/-! # TCP options

What an option writes into a header and what is made of the bytes of one. An option that was
written is read again, whatever follows it.
-/

namespace HomaSird.Tcp

open BufferIterator List

/-- The subclasses of `TcpOption`, with `m_size` and what an option of an unknown kind has of
`m_content`. -/
inductive TcpOption where
  | endOption
  | nop
  | mss (value : UInt16)
  | winScale (scale : UInt8)
  | sackPermitted
  | sack (sackList : List SackBlock)
  | ts (timestamp echo : UInt32)
  | unknown (kind : UInt8) (size : Nat) (content : List UInt8)
deriving DecidableEq

namespace TcpOption

def END : UInt8 := 0

def NOP : UInt8 := 1

def MSS : UInt8 := 2

def WINSCALE : UInt8 := 3

def SACKPERMITTED : UInt8 := 4

def SACK : UInt8 := 5

def TS : UInt8 := 8

def isKindKnown (kind : UInt8) : Bool :=
  [END, NOP, MSS, WINSCALE, SACKPERMITTED, SACK, TS].contains kind

def getKind : TcpOption → UInt8
  | endOption => END
  | nop => NOP
  | mss _ => MSS
  | winScale _ => WINSCALE
  | sackPermitted => SACKPERMITTED
  | sack _ => SACK
  | ts _ _ => TS
  | unknown kind _ _ => kind

def getSerializedSize : TcpOption → Nat
  | endOption | nop => 1
  | mss _ => 4
  | winScale _ => 3
  | sackPermitted => 2
  | sack sackList => uint32 (2 + sackList.length * 8)
  | ts _ _ => 10
  | unknown _ size _ => size

def blockBytes (block : SackBlock) : List UInt8 :=
  toBytes 4 block.first.value.toNat ++ toBytes 4 block.second.value.toNat

/-- The bytes that `Serialize` writes. -/
def serialize : TcpOption → List UInt8
  | endOption => [END]
  | nop => [NOP]
  | mss value => MSS :: 4 :: toBytes 2 value.toNat
  | winScale scale => [WINSCALE, 3, scale]
  | sackPermitted => [SACKPERMITTED, 2]
  | sack sackList => SACK :: UInt8.ofNat (sackList.length * 8 + 2) ::
      sackList.flatMap blockBytes
  | ts timestamp echo => TS :: 10 :: (toBytes 4 timestamp.toNat ++ toBytes 4 echo.toNat)
  | unknown kind size content => if size = 0 then [] else kind :: UInt8.ofNat size :: content

/-! ## Reading

Each `Deserialize` gets the iterator behind the kind, which `CreateOption` has looked at. It
returns the option and its size, or zero for one that is malformed.
-/

def deserializeMSS (i : BufferIterator) : Option (TcpOption × Nat) := do
  let (size, i) ← i.readU8
  if size = 4 then
    let (value, _) ← i.read 2
    return (mss (UInt16.ofNat value), 4)
  else none

def deserializeWinScale (i : BufferIterator) : Option (TcpOption × Nat) := do
  let (size, i) ← i.readU8
  if size = 3 then
    let (scale, _) ← i.readU8
    return (winScale scale, 3)
  else return (winScale 0, 0)

def deserializeSackPermitted (i : BufferIterator) : Option (TcpOption × Nat) := do
  let (size, _) ← i.readU8
  return (sackPermitted, if size = 2 then 2 else 0)

def readSackList : Nat → BufferIterator → Option (List SackBlock)
  | 0, _ => some []
  | sackCount + 1, i => do
    let (leftEdge, i) ← i.read 4
    let (rightEdge, i) ← i.read 4
    let later ← readSackList sackCount i
    return ⟨.of leftEdge, .of rightEdge⟩ :: later

def deserializeSack (i : BufferIterator) : Option (TcpOption × Nat) := do
  let (size, i) ← i.readU8
  let sackList ← readSackList ((size.toNat - 2) / 8) i
  return (sack sackList, (sack sackList).getSerializedSize)

def deserializeTS (i : BufferIterator) : Option (TcpOption × Nat) := do
  let (size, i) ← i.readU8
  if size = 10 then
    let (timestamp, i) ← i.read 4
    let (echo, _) ← i.read 4
    return (ts (UInt32.ofNat timestamp) (UInt32.ofNat echo), 10)
  else return (ts 0 0, 0)

def deserializeUnknown (kind : UInt8) (i : BufferIterator) : Option (TcpOption × Nat) := do
  let (size, i) ← i.readU8
  let size := size.toNat
  if size < 2 ∨ 40 < size then return (unknown kind size [], 0)
  else
    let _ ← i.next (size - 2)
    return (unknown kind size (i.ahead.take (size - 2)), size)

/-- `CreateOption` for the kind ahead, and `Deserialize` -/
def deserialize (start : BufferIterator) : Option (TcpOption × Nat) := do
  let (kind, i) ← start.readU8
  if kind = END then return (endOption, 1)
  else if kind = NOP then return (nop, 1)
  else if kind = MSS then deserializeMSS i
  else if kind = WINSCALE then deserializeWinScale i
  else if kind = SACKPERMITTED then deserializeSackPermitted i
  else if kind = SACK then deserializeSack i
  else if kind = TS then deserializeTS i
  else deserializeUnknown kind i

/-! ## Options of legal lengths -/

def Legal : TcpOption → Prop
  | endOption => False
  | sack sackList => sackList.length ≤ 31
  | unknown kind size content =>
    isKindKnown kind = false ∧ 2 ≤ size ∧ size ≤ 40 ∧ content.length = size - 2
  | _ => True

@[simp] theorem length_blockBytes (block : SackBlock) : (blockBytes block).length = 8 := by
  simp [blockBytes]

theorem length_sack (sackList : List SackBlock) :
    (sack sackList).serialize.length = 2 + sackList.length * 8 := by
  induction sackList with
  | nil => rfl
  | cons block later ih =>
    simp only [serialize, length_cons, flatMap_cons, length_append, length_blockBytes] at ih ⊢
    omega

variable {option : TcpOption}

theorem getSerializedSize_eq (hknown : isKindKnown option.getKind = true)
    (hunk : ∀ kind size content, option ≠ unknown kind size content) :
    option.getSerializedSize = uint32 option.serialize.length := by
  cases option with
  | sack sackList => rw [length_sack, getSerializedSize]
  | unknown kind size content => exact absurd rfl (hunk kind size content)
  | _ => rfl

theorem Legal.getSerializedSize (hlegal : option.Legal) :
    option.getSerializedSize = option.serialize.length := by
  cases option with
  | sack sackList =>
    rw [length_sack]
    exact uint32_of_lt (by rw [Legal] at hlegal; omega)
  | unknown kind size content =>
    obtain ⟨-, hsz, -, hcont⟩ := hlegal
    rw [serialize, if_neg (by omega), length_cons, length_cons, hcont]
    change size = _
    omega
  | _ => rfl

theorem Legal.pos (hlegal : option.Legal) : 0 < option.serialize.length := by
  cases option with
  | unknown kind size content =>
    rw [serialize, if_neg (show size ≠ 0 by have := hlegal.2.1; omega)]
    exact Nat.succ_pos _
  | _ => exact Nat.succ_pos _

theorem Legal.getKind_ne (hlegal : option.Legal) : option.getKind ≠ END := by
  cases option with
  | endOption => exact hlegal.elim
  | unknown kind size content =>
    rintro rfl
    exact absurd hlegal.1 (by decide)
  | _ => exact of_decide_eq_true rfl

@[simp] theorem read_number (number : SequenceNumber32) (passed ahead : List UInt8) :
    read 4 ⟨passed, toBytes 4 number.value.toNat ++ ahead⟩ =
      some (number.value.toNat, ⟨passed ++ toBytes 4 number.value.toNat, ahead⟩) :=
  read_toBytes number.value.isLt passed ahead

theorem readSackList_flatMap (sackList : List SackBlock) (passed ahead : List UInt8) :
    readSackList sackList.length ⟨passed, sackList.flatMap blockBytes ++ ahead⟩ =
      some sackList := by
  induction sackList generalizing passed with
  | nil => rfl
  | cons block later ih =>
    simp [readSackList, blockBytes, ih, SequenceNumber.of]

theorem Legal.deserialize (hlegal : option.Legal) (passed ahead : List UInt8) :
    TcpOption.deserialize ⟨passed, option.serialize ++ ahead⟩ =
      some (option, option.serialize.length) := by
  cases option with
  | endOption => exact hlegal.elim
  | nop => rfl
  | winScale scale => rfl
  | sackPermitted => rfl
  | mss value =>
    change deserializeMSS ⟨passed ++ [MSS], 4 :: (toBytes 2 value.toNat ++ ahead)⟩ = _
    simp [deserializeMSS, serialize]
  | ts timestamp echo =>
    simp [TcpOption.deserialize, serialize, deserializeTS, TS, END, NOP, MSS, WINSCALE,
      SACKPERMITTED, SACK]
  | sack sackList =>
    have hcnt : ((UInt8.ofNat (sackList.length * 8 + 2)).toNat - 2) / 8 = sackList.length := by
      rw [UInt8.toNat_ofNat', Nat.mod_eq_of_lt (by rw [Legal] at hlegal; omega)]
      omega
    change deserializeSack ⟨passed ++ [SACK], UInt8.ofNat (sackList.length * 8 + 2) ::
      (sackList.flatMap _ ++ ahead)⟩ = _
    simp only [deserializeSack, readU8_cons, Option.bind_eq_bind, Option.bind_some, hcnt,
      readSackList_flatMap, hlegal.getSerializedSize]
    rfl
  | unknown kind size content =>
    have hsz : size = (unknown kind size content).serialize.length := hlegal.getSerializedSize
    obtain ⟨hkind, hlow, hhigh, hcont⟩ := hlegal
    have hbyte : (UInt8.ofNat size).toNat = size := by
      rw [UInt8.toNat_ofNat', Nat.mod_eq_of_lt (by omega)]
    simp only [isKindKnown, contains_eq_mem, mem_cons, not_mem_nil, or_false,
      decide_eq_false_iff_not, not_or] at hkind
    rw [← hsz, serialize, if_neg (by omega)]
    simp only [TcpOption.deserialize, cons_append, readU8_cons, Option.bind_eq_bind,
      Option.bind_some, hkind, if_false, deserializeUnknown, hbyte]
    rw [if_neg (by omega), ← hcont, next_append, Option.bind_some, take_left]
    rfl

end TcpOption

end HomaSird.Tcp
