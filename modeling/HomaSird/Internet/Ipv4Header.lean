import HomaSird.Data.Word

/-! # IPv4 addresses and headers

A header is kept with the fields that fragmentation and reassembly read and write.
-/

namespace HomaSird.Internet

abbrev Ipv4Address := BitVec 32
abbrev Ipv4Mask := BitVec 32

namespace Ipv4Address

def getAny : Ipv4Address := 0

def combineMask (addr : Ipv4Address) (mask : Ipv4Mask) : Ipv4Address := addr &&& mask

def isLocalhost (addr : Ipv4Address) : Bool := decide (addr = 0x7f000001)

def isBroadcast (addr : Ipv4Address) : Bool := decide (addr = 0xffffffff)

def isMulticast (addr : Ipv4Address) : Bool := decide (0xe0000000 ≤ addr ∧ addr ≤ 0xefffffff)

def isLocalMulticast (addr : Ipv4Address) : Bool := decide (addr &&& 0xffffff00 = 0xe0000000)

end Ipv4Address

namespace Ipv4Mask

def isMatch (mask : Ipv4Mask) (first second : Ipv4Address) : Bool :=
  decide (first &&& mask = second &&& mask)

/-- The number of shifts to the left until nothing is left. -/
def getPrefixLength (mask : Ipv4Mask) : Nat :=
  ((List.range 33).find? fun tmp => decide (mask <<< tmp = 0)).getD 32

example : ∀ ones : Fin 33,
    getPrefixLength (BitVec.allOnes 32 <<< (32 - ones.val)) = ones.val := by decide

def getOnes : Ipv4Mask := 0xffffffff

def getZero : Ipv4Mask := 0

end Ipv4Mask

structure Ipv4Header where
  source : Ipv4Address
  destination : Ipv4Address
  identification : BitVec 16
  protocol : BitVec 8
  payloadSize : Nat
  fragmentOffset : Nat := 0
  moreFragments : Bool := false
  calcChecksum : Bool := false
deriving DecidableEq

namespace Ipv4Header

/-- `m_headerSize`, without options -/
def getSerializedSize : Nat := 5 * 4

def isLastFragment (header : Ipv4Header) : Bool := !header.moreFragments

def setMoreFragments (header : Ipv4Header) : Ipv4Header := { header with moreFragments := true }

def setLastFragment (header : Ipv4Header) : Ipv4Header := { header with moreFragments := false }

/-- `SetFragmentOffset` aborts when the offset is not a multiple of eight. -/
def setFragmentOffset (header : Ipv4Header) (offsetBytes : Nat) : Option Ipv4Header :=
  if offsetBytes % 8 ≠ 0 then none else some { header with fragmentOffset := offsetBytes }

def setPayloadSize (header : Ipv4Header) (size : Nat) : Ipv4Header :=
  { header with payloadSize := size }

def enableChecksum (header : Ipv4Header) : Ipv4Header := { header with calcChecksum := true }

end Ipv4Header

end HomaSird.Internet
