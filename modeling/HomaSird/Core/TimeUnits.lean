import HomaSird.Core.Time
import HomaSird.Transition.Machine

/-! # Conversion to a unit and back

A time goes to a coarser unit by a rounded reciprocal and comes back by a product, or the other
way round. Both are exact after rounding, if the number of finer units in the coarser one fits in
64 bits.
-/

namespace HomaSird.Core.Time

open Int64x64 Data Transition

/-! ## The information about a unit -/

theorem ratio_cases (unit i : Unit) :
    ∃ ratio,
      quotient i unit = .ok ratio ∧
        (unit = i ∧ shift i unit = 0 ∧ ratio = 1 ∨
          ¬ (shift i unit = 0 ∧ ratio = 1) ∧ 2 < 10 ^ (shift i unit).natAbs * ratio ∧
            (1 < realFactor i unit ∧ scale i = 10 ^ (shift i unit).natAbs * ratio * scale unit ∨
              realFactor i unit < 1 ∧
                scale unit = 10 ^ (shift i unit).natAbs * ratio * scale i)) := by
  cases unit <;> cases i <;> exact ⟨_, rfl, by decide +kernel⟩

/-- What `SetResolution` leaves for a unit. -/
inductive Relation (unit : Unit) : Unit → Except TimeFault Information → Prop
  | same : Relation unit unit (.ok ⟨true, true, 1, ofInt 1, ofInt 1⟩)
  | undefined {i : Unit} {v : Nat} (hlarge : 2 ^ 63 ≤ v)
      (hscale : scale i = v * scale unit ∨ scale unit = v * scale i) :
      Relation unit i (.error .conversion)
  | coarser {i : Unit} {v : Nat} {inverse : Int64x64} (hlow : 2 < v) (hhigh : v < 2 ^ 63)
      (hscale : scale i = v * scale unit)
      (hinvert : Int64x64.invert v = .ok inverse) :
      Relation unit i (.ok ⟨false, true, v, inverse, ofInt v⟩)
  | finer {i : Unit} {v : Nat} {inverse : Int64x64} (hlow : 2 < v) (hhigh : v < 2 ^ 63)
      (hscale : scale unit = v * scale i)
      (hinvert : Int64x64.invert v = .ok inverse) :
      Relation unit i (.ok ⟨true, false, v, ofInt v, inverse⟩)

variable {v : Nat} {inverse : Int64x64} {value : Int}

theorem relation (unit i : Unit) : Relation unit i (information unit i) := by
  obtain ⟨ratio, hratio, ⟨rfl, hshift, rfl⟩ | ⟨hother, hlow, hcases⟩⟩ := ratio_cases unit i
  · have hinformation : information unit unit = .ok ⟨true, true, 1, ofInt 1, ofInt 1⟩ := by
      rw [information, hratio, hshift]
      rfl
    rw [hinformation]
    exact .same
  · rw [information, hratio]
    simp only [bind_ok, if_neg hother]
    generalize 10 ^ (shift i unit).natAbs * ratio = v at *
    by_cases hhigh : v < 2 ^ 63
    · obtain ⟨inverse, -, hinvert, -⟩ := invert_spec hlow hhigh
      have hword : uint64 ((v : Int) % 2 ^ 64).toNat = v := by
        rw [uint64]
        omega
      have hinv : invert v = .ok inverse := by
        rw [invert, hword, hinvert]
        rfl
      simp only [castInt64, if_pos hhigh, hinv, bind_ok]
      rcases hcases with ⟨hcoarser, hscale⟩ | ⟨hfiner, hscale⟩
      · rw [if_pos hcoarser]
        exact .coarser hlow hhigh hscale hinvert
      · rw [if_neg (not_lt.mpr hfiner.le), if_pos hfiner]
        exact .finer hlow hhigh hscale hinvert
    · rw [castInt64, if_neg hhigh]
      exact .undefined (not_lt.mp hhigh) (hcases.imp And.right And.right)

theorem information_seconds :
    ∃ inverse,
      information .NS .S = .ok ⟨false, true, (10 ^ 9 : Nat), inverse, ofInt (10 ^ 9 : Nat)⟩ := by
  have hrelation := relation .NS .S
  have hnano : scale .NS = 10 ^ 6 := rfl
  have hsnd : scale .S = 10 ^ 15 := rfl
  generalize information .NS .S = info at *
  cases hrelation with
  | undefined hlarge hscale =>
    rw [hnano, hsnd] at hscale
    omega
  | @coarser _ v inverse _ _ hscale _ =>
    rw [hnano, hsnd] at hscale
    obtain rfl : v = 10 ^ 9 := by omega
    exact ⟨inverse, rfl⟩
  | finer hlow _ hscale =>
    rw [hnano, hsnd] at hscale
    omega

/-! ## The way there and back -/

theorem signed_natAbs_mul (value : Int) (factor : Nat) :
    signed value (value.natAbs * factor) = value * factor := by
  rw [signed, Int.natCast_mul]
  split
  next hneg => rw [Int.ofNat_natAbs_of_nonpos (Int.le_of_lt hneg), Int.neg_mul, Int.neg_neg]
  next hpos => rw [Int.natAbs_of_nonneg (Int.not_lt.mp hpos)]

theorem signed_mul (value : Int) (magnitude factor : Nat) :
    signed value magnitude * factor = signed value (magnitude * factor) := by
  rw [signed, signed, Int.natCast_mul]
  split
  · exact Int.neg_mul _ _
  · rfl

theorem mul_ofInt (value : Int64x64) (hv : v < 2 ^ 63) :
    value.mul (ofInt v) = .ok (ofInt128 (value.v * v)) := by
  rw [mul_eq, ofInt_v ⟨by omega, by omega⟩, ← Int.mul_assoc, Int.mul_tdiv_cancel _ (by decide)]

theorem round_ofInt128 (hval : InInt64 value) : (ofInt128 (value * 2 ^ 64)).round = value := by
  have hround := @round_signed value hval (value.natAbs * 2 ^ 64) (by omega) (by omega)
  rw [signed_natAbs_mul] at hround
  exact hround

theorem coarser_spec (hval : InInt64 value) (hlow : 2 < v) (hhigh : v < 2 ^ 63)
    (hinvert : Int64x64.invert v = .ok inverse) :
    ∃ magnitude : Nat,
      ((ofInt value).mulByInvert inverse).v = signed value magnitude ∧
        magnitude / 2 ^ 64 = value.natAbs / v ∧
        (ofInt128 (signed value magnitude * v)).round = value := by
  have habs : value.natAbs ≤ 2 ^ 63 := by
    obtain ⟨hbelow, habove⟩ := hval
    omega
  obtain ⟨found, word, hfound, hword, hsmall, hrecip⟩ := invert_spec hlow hhigh
  obtain rfl := Except.ok.inj (hinvert.symm.trans hfound)
  have hprod : value.natAbs * word ≤ 2 ^ 63 * 2 ^ 127 := Nat.mul_le_mul habs hsmall.le
  have hproductV : value.natAbs * v ≤ 2 ^ 63 * 2 ^ 63 := Nat.mul_le_mul habs hhigh.le
  obtain ⟨hbelow, habove⟩ := @Reciprocal.mul_div_mul _ _ _ _ value.natAbs hrecip (by decide)
  have hquot := @Reciprocal.mul_div _ _ _ value.natAbs hrecip (by decide)
    (hproductV.trans (by decide))
  refine ⟨value.natAbs * word / 2 ^ 64, ?_, ?_, ?_⟩
  · rw [mulByInvert_eq habs hsmall (ofInt_v hval) hword]
    refine int128_of_inInt128 ?_
    rw [InInt128, signed]
    split <;> omega
  · rw [Nat.div_div_eq_div_mul, hquot]
  · rw [signed_mul]
    generalize value.natAbs * word / 2 ^ 64 * v = back at *
    exact round_signed hval (hbelow.trans (Nat.add_lt_add_left hhigh back)).le (by omega)

theorem finer_spec (hfits : InInt64 (value * v)) (hlow : 2 < v) (hhigh : v < 2 ^ 63) (hinvert :
    Int64x64.invert v = .ok inverse) : ((ofInt (value * v)).mulByInvert inverse).round = value := by
  have habs : (value * v).natAbs = value.natAbs * v := by rw [Int.natAbs_mul, Int.natAbs_natCast]
  have hle : (value * v).natAbs ≤ 2 ^ 63 := by
    obtain ⟨hbelow, habove⟩ := hfits
    omega
  have hsmaller : value.natAbs ≤ value.natAbs * v := Nat.le_mul_of_pos_right _ (by omega)
  obtain ⟨found, word, hfound, hword, hsmall, hrecip⟩ := invert_spec hlow hhigh
  obtain rfl := Except.ok.inj (hinvert.symm.trans hfound)
  have hsign : signed (value * v) (value.natAbs * 2 ^ 64) = value * 2 ^ 64 := by
    have hneg : value * v < 0 ↔ value < 0 :=
      ⟨fun hneg => by_contra fun hpos => absurd (Int.mul_nonneg (not_lt.mp hpos)
        (Int.natCast_nonneg v)) (not_le.mpr hneg),
        fun hneg => Int.mul_neg_of_neg_of_pos hneg (by omega)⟩
    rw [signed, if_congr hneg rfl rfl]
    exact signed_natAbs_mul value (2 ^ 64)
  have hval : InInt64 value := by
    obtain ⟨hbelow, habove⟩ := hfits
    have hnonneg : 0 ≤ value → 0 ≤ value * v := fun hpos =>
      Int.mul_nonneg hpos (Int.natCast_nonneg v)
    rw [InInt64]
    omega
  rw [mulByInvert_eq hle hsmall (ofInt_v hfits) hword, habs,
    hrecip.mul_mul_div (habs ▸ hle.trans (by decide)), hsign]
  exact round_ofInt128 hval

/-! ## Round trips -/

def Fits (resolution unit : Unit) (time : Time) : Prop :=
  -2 ^ 63 * (scale unit : Int) ≤ time.data * scale resolution ∧
    time.data * scale resolution < 2 ^ 63 * scale unit

/-- Every time that fits comes back, and its integer part in a coarser unit is the quotient. -/
def RoundTrips (resolution unit : Unit) : Prop :=
  ∀ time : Time, Fits resolution unit time → ∃ value,
    time.toUnit (setResolution resolution) unit = .ok value ∧
    fromUnit (setResolution resolution) value unit = .ok time ∧
    ∀ v : Nat, scale unit = v * scale resolution → 0 ≤ time.data → value.getInt = time.data / v

theorem scale_pos (u : Unit) : 0 < scale u := by cases u <;> decide

theorem fits_zero (resolution unit : Unit) : Fits resolution unit ⟨0, by decide⟩ := by
  have hpos := scale_pos unit
  rw [Fits]
  dsimp only
  omega

variable {self : Int64x64}

theorem getInt_of_nonneg (hpos : 0 ≤ self.v) : self.getInt = self.v / 2 ^ 64 := by
  obtain ⟨hlow, hhigh⟩ := self.inRange
  have hge : ¬ decide (self.v < 0) = true := by simpa using hpos
  simp only [getInt, if_neg hge, uint128OfInt, Int64x64.int64, Nat.shiftRight_eq_div_pow]
  omega

theorem getInt_signed {time : Time} {magnitude : Nat} (hself : self.v = signed time.data magnitude)
    (hquot : magnitude / 2 ^ 64 = time.data.natAbs / v)
    (hpos : 0 ≤ time.data) : self.getInt = time.data / v := by
  rw [signed, if_neg (not_lt.mpr hpos)] at hself
  rw [getInt_of_nonneg (by omega), hself, ← Int.natAbs_of_nonneg hpos]
  exact_mod_cast hquot

theorem ofInt64_data (value : Int) : (ofInt64 value).data = Int64x64.int64 value := rfl

theorem round_eq {time : Time} (hround : self.round = time.data) : round self = time := by
  ext
  rw [round, ofInt64_data, hround]
  exact int64_of_inInt64 time.inRange

theorem scaleBy_mul (value : Int64x64) (hv : v < 2 ^ 63) :
    scaleBy value true (ofInt v) = .ok (ofInt128 (value.v * v)) := by
  rw [scaleBy, if_pos rfl, mul_ofInt value hv]
  rfl

variable {resolution unit : Unit} {info : Information}

theorem peekInformation_setResolution (resolution unit : Unit) :
    peekInformation (setResolution resolution) unit = information resolution unit := rfl

theorem toUnit_eq (hinfo : information resolution unit = .ok info) (time : Time) :
    time.toUnit (setResolution resolution) unit =
      scaleBy (ofInt time.data) info.toMul info.timeTo := by
  rw [toUnit, peekInformation_setResolution, hinfo, bind_ok]

theorem fromUnit_eq (hinfo : information resolution unit = .ok info) {value scaled : Int64x64}
    (hscaled : scaleBy value info.fromMul info.timeFrom = .ok scaled) :
    fromUnit (setResolution resolution) value unit = .ok (round scaled) := by
  rw [fromUnit, peekInformation_setResolution, hinfo, bind_ok, hscaled, bind_ok]
  rfl

theorem roundTrips_same (hinfo : information unit unit = .ok ⟨true, true, 1, ofInt 1, ofInt 1⟩) :
    RoundTrips unit unit := by
  intro time _
  have hone (value : Int64x64) : scaleBy value true (ofInt 1) = .ok (ofInt128 (value.v * 1)) :=
    @scaleBy_mul 1 value (by decide)
  have hval := ofInt_v time.inRange
  have hkept : (ofInt128 ((ofInt time.data).v * 1)).v = time.data * 2 ^ 64 := by
    rw [Int.mul_one, hval]
    exact hval
  refine ⟨_, (toUnit_eq hinfo time).trans (hone _), ?_, fun v hv hpos => ?_⟩
  · rw [fromUnit_eq hinfo (hone _), hkept, Int.mul_one]
    exact congrArg Except.ok (round_eq (round_ofInt128 time.inRange))
  · obtain rfl : v = 1 := by
      refine Nat.eq_of_mul_eq_mul_right (scale_pos unit) ?_
      rw [one_mul]
      exact hv.symm
    rw [getInt_of_nonneg (by omega), hkept, Int.mul_ediv_cancel _ (by decide)]
    exact (Int.ediv_one _).symm

theorem roundTrips_coarser (hlow : 2 < v) (hhigh : v < 2 ^ 63)
    (hscale : scale unit = v * scale resolution) (hinvert : Int64x64.invert v = .ok inverse)
    (hinfo : information resolution unit = .ok ⟨false, true, v, inverse, ofInt v⟩) :
    RoundTrips resolution unit := by
  intro time _
  obtain ⟨magnitude, hval, hquot, hround⟩ := coarser_spec time.inRange hlow hhigh hinvert
  refine ⟨_, toUnit_eq hinfo time, ?_, fun v' hv' hpos => ?_⟩
  · rw [fromUnit_eq hinfo (scaleBy_mul _ hhigh), hval]
    exact congrArg Except.ok (round_eq hround)
  · obtain rfl : v' = v := Nat.eq_of_mul_eq_mul_right (scale_pos resolution) (hv'.symm.trans hscale)
    exact getInt_signed hval hquot hpos

theorem roundTrips_finer (hlow : 2 < v) (hhigh : v < 2 ^ 63)
    (hscale : scale resolution = v * scale unit) (hinvert : Int64x64.invert v = .ok inverse)
    (hinfo : information resolution unit = .ok ⟨true, false, v, ofInt v, inverse⟩) :
    RoundTrips resolution unit := by
  rintro time ⟨hbelow, habove⟩
  have hpos : (0 : Int) < scale unit := Int.natCast_pos.mpr (scale_pos unit)
  have hfits : InInt64 (time.data * v) := by
    rw [hscale, Int.natCast_mul, ← Int.mul_assoc] at hbelow habove
    exact ⟨le_of_mul_le_mul_right hbelow hpos, lt_of_mul_lt_mul_right habove hpos.le⟩
  have hval : (ofInt time.data).v * v = time.data * v * 2 ^ 64 := by
    rw [ofInt_v time.inRange]
    ring
  refine ⟨ofInt (time.data * v), ?_, ?_, fun v' hv' => ?_⟩
  · rw [toUnit_eq hinfo time, scaleBy_mul _ hhigh, hval]
    rfl
  · rw [fromUnit_eq hinfo rfl]
    exact congrArg Except.ok (round_eq (finer_spec hfits hlow hhigh hinvert))
  · have hunit : v' * v * scale unit = 1 * scale unit := by
      rw [mul_assoc, ← hscale, ← hv', one_mul]
    have hone := Nat.eq_of_mul_eq_mul_right (scale_pos unit) hunit
    have hv := Nat.eq_one_of_mul_eq_one_left hone
    omega

theorem ratio_lt_iff {small : Nat} (hsmall : 0 < small) (hv : 0 < v) :
    v * small < 2 ^ 63 * small ∧ small < 2 ^ 63 * (v * small) ↔ v < 2 ^ 63 := by
  refine ⟨fun hboth => Nat.lt_of_mul_lt_mul_right hboth.1, fun hlt =>
    ⟨Nat.mul_lt_mul_of_pos_right hlt hsmall, ?_⟩⟩
  have hmore := Nat.le_mul_of_pos_left small hv
  omega

/-- Times come back exactly where the number of finer units in the coarser one is below `2 ^ 63`.
-/
theorem roundTrips_iff (resolution unit : Unit) :
    RoundTrips resolution unit ↔
      scale unit < 2 ^ 63 * scale resolution ∧ scale resolution < 2 ^ 63 * scale unit := by
  have hrelation := relation resolution unit
  generalize hinfo : information resolution unit = info at hrelation
  cases hrelation with
  | same =>
    have hpos := scale_pos resolution
    exact iff_of_true (roundTrips_same hinfo) ⟨by omega, by omega⟩
  | @undefined _ v hlarge hscale =>
    refine iff_of_false (fun htrips => ?_) ?_
    · obtain ⟨value, hto, -⟩ := htrips ⟨0, by decide⟩ (fits_zero resolution unit)
      rw [toUnit, peekInformation_setResolution, hinfo] at hto
      cases hto
    · rcases hscale with hscale | hscale <;> rw [hscale]
      · rw [ratio_lt_iff (scale_pos resolution) (by omega)]
        omega
      · rw [and_comm, ratio_lt_iff (scale_pos unit) (by omega)]
        omega
  | coarser hlow hhigh hscale hinvert =>
    refine iff_of_true (roundTrips_coarser hlow hhigh hscale hinvert hinfo) ?_
    rw [hscale]
    exact (ratio_lt_iff (scale_pos resolution) (by omega)).mpr hhigh
  | finer hlow hhigh hscale hinvert =>
    refine iff_of_true (roundTrips_finer hlow hhigh hscale hinvert hinfo) ?_
    rw [hscale, and_comm]
    exact (ratio_lt_iff (scale_pos unit) (by omega)).mpr hhigh

/-- A year has too many femtoseconds. -/
theorem not_roundTrips_year : information .FS .Y = .error .conversion ∧ ¬ RoundTrips .FS .Y := by
  have hundefined : information .FS .Y = .error .conversion := rfl
  refine ⟨hundefined, fun htrips => ?_⟩
  obtain ⟨value, hto, -⟩ := htrips ⟨1, by decide⟩ ⟨by decide, by decide⟩
  rw [toUnit, peekInformation_setResolution, hundefined] at hto
  cases hto

end HomaSird.Core.Time
