import HomaSird.Core.Int64x64
import Mathlib.Data.Rat.Floor

/-! # `Time` and its units

Powers of ten are exact, as are the floating point values that are read here.
-/

namespace HomaSird.Core

inductive TimeFault
  | highPrec (fault : HighPrecFault)
  | assertion
  | conversion
  | divisionByZero
deriving DecidableEq

@[ext] structure Time where
  data : Int
  inRange : Int64x64.InInt64 data

namespace Time

open Int64x64

inductive Unit
  | Y | D | H | MIN | S | MS | US | NS | PS | FS
deriving DecidableEq

def UNIT_POWER : Unit → Int
  | .Y => 17
  | .D => 17
  | .H => 17
  | .MIN => 16
  | .S => 15
  | .MS => 12
  | .US => 9
  | .NS => 6
  | .PS => 3
  | .FS => 0

def UNIT_COEFF : Unit → Nat
  | .Y => 315360
  | .D => 864
  | .H => 36
  | .MIN => 6
  | .S => 1
  | .MS => 1
  | .US => 1
  | .NS => 1
  | .PS => 1
  | .FS => 1

def scale (u : Unit) : Nat := UNIT_COEFF u * 10 ^ (UNIT_POWER u).toNat

structure Information where
  toMul : Bool
  fromMul : Bool
  factor : Int
  timeTo : Int64x64
  timeFrom : Int64x64

structure Resolution where
  info : Unit → Except TimeFault Information
  unit : Unit

def quotient (i unit : Unit) : Except TimeFault Nat :=
  if UNIT_COEFF i > UNIT_COEFF unit then
    let quotient := UNIT_COEFF i / UNIT_COEFF unit
    if quotient * UNIT_COEFF unit = UNIT_COEFF i then .ok quotient else .error .assertion
  else if UNIT_COEFF i < UNIT_COEFF unit then
    let quotient := UNIT_COEFF unit / UNIT_COEFF i
    if quotient * UNIT_COEFF i = UNIT_COEFF unit then .ok quotient else .error .assertion
  else .ok 1

def shift (i unit : Unit) : Int := UNIT_POWER i - UNIT_POWER unit

def realFactor (i unit : Unit) : Rat := 10 ^ shift i unit * UNIT_COEFF i / UNIT_COEFF unit

/-- `static_cast<int64_t>` of a floating point value: undefined if it does not fit. -/
def castInt64 (value : Nat) : Except TimeFault Int :=
  if value < 2 ^ 63 then .ok value else .error .conversion

def invert (factor : Int) : Except TimeFault Int64x64 :=
  (Int64x64.invert (uint64 (factor % 2 ^ 64).toNat)).mapError .highPrec

/-- The pass of `SetResolution` for one unit. -/
def information (unit i : Unit) : Except TimeFault Information := do
  let quotient ← quotient i unit
  let factor ← castInt64 (10 ^ (shift i unit).natAbs * quotient)
  if shift i unit = 0 ∧ quotient = 1 then
    return { toMul := true, fromMul := true, factor, timeTo := ofInt 1, timeFrom := ofInt 1 }
  else if realFactor i unit > 1 then
    return { toMul := false, fromMul := true, factor, timeTo := ← invert factor,
             timeFrom := ofInt factor }
  else if realFactor i unit < 1 then
    return { toMul := true, fromMul := false, factor, timeTo := ofInt factor,
             timeFrom := ← invert factor }
  else .error .assertion

def setResolution (unit : Unit) : Resolution where
  info := information unit
  unit := unit

def peekInformation (resolution : Resolution) (unit : Unit) : Except TimeFault Information :=
  resolution.info unit

def ofInt64 (value : Int) : Time := ⟨int64 value, by rw [InInt64, int64]; omega⟩

def round (value : Int64x64) : Time := ofInt64 value.round

def scaleBy (value : Int64x64) (multiply : Bool) (factor : Int64x64) :
    Except TimeFault Int64x64 :=
  if multiply then (value.mul factor).mapError .highPrec else .ok (value.mulByInvert factor)

/-- `From` -/
def fromUnit (resolution : Resolution) (value : Int64x64) (unit : Unit) :
    Except TimeFault Time := do
  let info ← peekInformation resolution unit
  return round (← scaleBy value info.fromMul info.timeFrom)

/-- `To` -/
def toUnit (resolution : Resolution) (self : Time) (unit : Unit) :
    Except TimeFault Int64x64 := do
  let info ← peekInformation resolution unit
  scaleBy (ofInt self.data) info.toMul info.timeTo

def ofDouble (value : Rat) : Int64x64 :=
  let negative := decide (value < 0)
  let v := if negative then -value else value
  let fhi := v.floor
  let flo := (v - fhi) * 2 ^ 64 + 1 / 2
  let hi := if 2 ^ 64 ≤ flo then fhi + 1 else fhi
  let value := ofInt128 (hi * 2 ^ 64 + uint64 flo.floor.toNat)
  if negative then value.neg else value

def fromDouble (resolution : Resolution) (value : Rat) (unit : Unit) : Except TimeFault Time :=
  fromUnit resolution (ofDouble value) unit

/-- Division by an unsigned 64-bit value: both sides are unsigned. -/
def div (lhs : Time) (rhs : Nat) : Except TimeFault Time :=
  if rhs = 0 then .error .divisionByZero
  else .ok (ofInt64 (uint64 (lhs.data % 2 ^ 64).toNat / rhs : Nat))

end Time

end HomaSird.Core
