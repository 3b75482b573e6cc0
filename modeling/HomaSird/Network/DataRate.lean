import HomaSird.Core.TimeUnits

/-! # The time to transmit bytes at a rate -/

namespace HomaSird.Network

open HomaSird.Core HomaSird.Core.Int64x64 Transition

structure DataRate where
  bps : Nat
  inRange : bps < 2 ^ 64

def seconds (resolution : Time.Resolution) (value : Rat) : Except TimeFault Time :=
  Time.fromDouble resolution value .S

namespace DataRate

variable {rate : DataRate} {bytes : Nat}

def calculateBytesTxTime (resolution : Time.Resolution) (rate : DataRate) (bytes : Nat) :
    Except TimeFault Time := do
  let time ← seconds resolution (uint32 (bytes * 8))
  time.div rate.bps

theorem ofDouble_natCast (value : Nat) : Time.ofDouble value = ofInt value := by
  have hpos : ¬ decide ((value : Rat) < 0) = true := by simp
  have hfloor : (value : Rat).floor = value := by
    exact_mod_cast Rat.floor_intCast value
  have hhalf : (1 / 2 : Rat).floor.toNat = 0 := by decide +kernel
  have hless : ¬ (2 ^ 64 : Rat) ≤ 1 / 2 := by norm_num
  simp only [Time.ofDouble, if_neg hpos, hfloor, Int.cast_natCast, sub_self, zero_mul, zero_add,
    if_neg hless, hhalf, uint64, Nat.zero_mod, Int.natCast_zero, Int.add_zero]
  rfl

theorem seconds_eq {value : Nat} (hval : value < 2 ^ 32) :
    ∃ time : Time,
      seconds (Time.setResolution .NS) value = .ok time ∧ time.data = (value * 10 ^ 9 : Nat) := by
  have hnano : InInt64 ((value * 10 ^ 9 : Nat) : Int) := ⟨by omega, by omega⟩
  obtain ⟨inverse, hinfo⟩ := Time.information_seconds
  refine ⟨⟨_, hnano⟩, ?_, rfl⟩
  rw [seconds, Time.fromDouble, ofDouble_natCast,
    Time.fromUnit_eq hinfo (Time.scaleBy_mul _ (by decide))]
  refine congrArg Except.ok (Time.round_eq ?_)
  have hval : (ofInt value).v * (10 ^ 9 : Nat) = (value * 10 ^ 9 : Nat) * 2 ^ 64 := by
    rw [ofInt_v ⟨by omega, by omega⟩, Int.natCast_mul]
    ring
  rw [hval, Time.round_ofInt128 hnano]

def Takes (rate : DataRate) (bytes ticks : Nat) : Prop :=
  ∃ time, calculateBytesTxTime (Time.setResolution .NS) rate bytes = .ok time ∧ time.data = ticks

theorem takes (hrate : 0 < rate.bps) (bytes : Nat) :
    rate.Takes bytes (bytes * 8 % 2 ^ 32 * 10 ^ 9 / rate.bps) := by
  obtain ⟨time, htime, hdata⟩ := seconds_eq (Nat.mod_lt (bytes * 8) (Nat.two_pow_pos 32))
  have hless := Nat.mod_lt (bytes * 8) (Nat.two_pow_pos 32)
  rw [Takes, calculateBytesTxTime, uint32, htime, bind_ok, Time.div, if_neg hrate.ne']
  refine ⟨_, rfl, ?_⟩
  have hnanos : bytes * 8 % 2 ^ 32 * 10 ^ 9 < 2 ^ 63 := by
    generalize bytes * 8 % 2 ^ 32 = bits at *
    omega
  generalize bytes * 8 % 2 ^ 32 * 10 ^ 9 = nanos at *
  have hword : uint64 (time.data % 2 ^ 64).toNat = nanos := by
    rw [uint64, hdata]
    omega
  have hquot := Nat.div_le_self nanos rate.bps
  rw [Time.ofInt64_data, hword]
  generalize nanos / rate.bps = ticks at *
  exact int64_of_inInt64 ⟨by omega, by omega⟩

theorem Takes.unique {first second : Nat} (hfst : rate.Takes bytes first)
    (hsnd : rate.Takes bytes second) : first = second := by
  obtain ⟨time, htime, hdata⟩ := hfst
  obtain ⟨other, hother, hdata'⟩ := hsnd
  obtain rfl := Except.ok.inj (htime.symm.trans hother)
  exact Int.natCast_inj.mp (hdata.symm.trans hdata')

structure ExactToTick (rate : DataRate) (bytes : Nat) : Prop where
  exact : rate.Takes bytes (8 * bytes * 10 ^ 9 / rate.bps)
  mono : ∀ fewer ≤ bytes, ∃ less more, rate.Takes fewer less ∧ rate.Takes bytes more ∧
    less ≤ more
  joined : ∀ first second, first + second = bytes → ∃ before after whole,
    rate.Takes first before ∧ rate.Takes second after ∧ rate.Takes bytes whole ∧
      whole ≤ before + after + 1

def Counts (rate : DataRate) (bytes : Nat) : Prop :=
  bytes < 2 ^ 29 ∨ 8 * bytes * 10 ^ 9 < rate.bps

theorem Counts.mono {fewer : Nat} (hcounts : rate.Counts bytes) (hle : fewer ≤ bytes) :
    rate.Counts fewer := by
  rw [Counts] at *
  omega

theorem Counts.takes (hcounts : rate.Counts bytes) (hrate : 0 < rate.bps) :
    rate.Takes bytes (8 * bytes * 10 ^ 9 / rate.bps) := by
  have htakes := rate.takes hrate bytes
  rcases hcounts with hsmall | hfast
  · have hword : bytes * 8 % 2 ^ 32 = 8 * bytes := by omega
    rwa [hword] at htakes
  · have hless := Nat.mod_le (bytes * 8) (2 ^ 32)
    rw [mul_comm bytes] at hless htakes
    have hwrapped := lt_of_le_of_lt (Nat.mul_le_mul_right (10 ^ 9) hless) hfast
    rw [Nat.div_eq_of_lt hwrapped] at htakes
    rwa [Nat.div_eq_of_lt hfast]

theorem add_div_le (first second divisor : Nat) (hpos : 0 < divisor) :
    (first + second) / divisor ≤ first / divisor + second / divisor + 1 := by
  rw [Nat.add_div hpos]
  split <;> omega

theorem counts_of_takes (hrate : 0 < rate.bps) (hfits : 8 * bytes * 10 ^ 9 < 2 ^ 63)
    (htakes : rate.Takes bytes (8 * bytes * 10 ^ 9 / rate.bps)) : rate.Counts bytes := by
  have hsame := (rate.takes hrate bytes).unique htakes
  by_contra hwrapped
  obtain ⟨hlarge, hslow⟩ := not_or.mp hwrapped
  have hpre := Nat.div_mul_le_self (bytes * 8 % 2 ^ 32 * 10 ^ 9) rate.bps
  have hafter := @Nat.lt_div_mul_add (8 * bytes * 10 ^ 9) rate.bps hrate
  have hone := (Nat.one_le_div_iff hrate).mpr (not_lt.mp hslow)
  rw [← hsame] at hafter hone
  have hrateLe := (Nat.one_le_div_iff hrate).mp hone
  omega

/-- The transmission time is exact to the tick exactly when the bits fit in 32 bits, or it is below
a tick. -/
theorem exactToTick_iff (hrate : 0 < rate.bps) (hfits : 8 * bytes * 10 ^ 9 < 2 ^ 63) :
    rate.ExactToTick bytes ↔ bytes < 2 ^ 29 ∨ 8 * bytes * 10 ^ 9 < rate.bps := by
  refine ⟨fun hexact => counts_of_takes hrate hfits hexact.exact, fun hcounts => ?_⟩
  have hwhole := Counts.takes hcounts hrate
  refine ⟨hwhole, fun fewer hle => ?_, fun first second hsum => ?_⟩
  · exact ⟨_, _, (Counts.mono hcounts hle).takes hrate, hwhole, Nat.div_le_div_right (by omega)⟩
  · refine ⟨_, _, _, (Counts.mono hcounts (by omega)).takes hrate,
      (Counts.mono hcounts (by omega)).takes hrate, hwhole, ?_⟩
    have hsplit : 8 * bytes * 10 ^ 9 = 8 * first * 10 ^ 9 + 8 * second * 10 ^ 9 := by omega
    rw [hsplit]
    exact add_div_le _ _ _ hrate

def tenGigabit : DataRate := ⟨10 ^ 10, by decide⟩

theorem exactToTick_packet : tenGigabit.ExactToTick 1500 :=
  (exactToTick_iff (by decide) (by decide)).mpr (.inl (by decide))

/-- Half a gibibyte is sent in no time. -/
theorem not_exactToTick_large :
    tenGigabit.Takes (2 ^ 29) 0 ∧ ¬ tenGigabit.ExactToTick (2 ^ 29) := by
  have hnone : tenGigabit.Takes (2 ^ 29) 0 := takes (by decide) (2 ^ 29)
  exact ⟨hnone, fun hexact => absurd (hnone.unique hexact.exact) (by decide)⟩

end DataRate

end HomaSird.Network
