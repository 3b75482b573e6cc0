import HomaSird.Applications.MsgGeneratorApp
import HomaSird.Data.OrderedMap
import Mathlib.Algebra.BigOperators.Group.Finset.Basic
import Mathlib.Algebra.Order.BigOperators.Group.List
import Mathlib.Tactic.Linarith
import Mathlib.Tactic.Ring
import Mathlib.Tactic.FieldSimp

/-! # Workloads from a table of percentages

`ReadPaperRawWorkload` adds up the percentages of the rows by packet count, and stores the
distribution as a map from cumulative probabilities. Percentages are exact rationals.
-/

namespace HomaSird.Applications

open OrderedMap List

structure PaperRow where
  transport : String
  loadFactor : ℚ
  workload : String
  msgSizeBytes : Nat
  sizeCntPercent : ℚ

inductive WorkloadError
  | workloadNotSet
  | bytesPerPktNotPositive
  | noRows
  | nonPositiveTotal
deriving DecidableEq

structure WorkloadSpec where
  avgMsgSizePkts : ℚ
  msgSizeCdf : List (ℚ × Int)

def canonicalPaperRawWorkload (workload : String) : String :=
  if workload = "google_rpc" then "GOOGLE_ALL_RPC"
  else if workload = "facebook_hadoop" then "FACEBOOK_HADOOP_ALL"
  else if workload = "web_search" then "DCTCP"
  else workload

def PaperRow.accepted (row : PaperRow) (rawWorkload transportType : String) (loadFactor : ℚ) :
    Bool :=
  row.transport = transportType ∧ row.workload = canonicalPaperRawWorkload rawWorkload ∧
    |row.loadFactor - loadFactor| ≤ 1 / 10 ^ 9

def PaperRow.msgSizePkts (row : PaperRow) (bytesPerPkt : Nat) : Int :=
  (min 0xffff (max 1 (uint64 (row.msgSizeBytes + bytesPerPkt - 1) / bytesPerPkt)) : Nat)

/-- `pctByMsgSizePkts[msgSizePkts] += sizeCntPercent` -/
def addPct (pctByMsgSizePkts : List (Int × ℚ)) (sample : Int × ℚ) : List (Int × ℚ) :=
  upsert (fun old => old.getD 0 + sample.2) sample.1 pctByMsgSizePkts

def addSize (totalPct : ℚ) (state : WorkloadSpec × ℚ) (kv : Int × ℚ) : WorkloadSpec × ℚ :=
  let probability := kv.2 / totalPct
  let cumulativeProbability := state.2 + probability
  ({ avgMsgSizePkts := state.1.avgMsgSizePkts + kv.1 * probability
     msgSizeCdf := upsert (fun _ => kv.1) (min 1 cumulativeProbability) state.1.msgSizeCdf },
    cumulativeProbability)

def paperSamples (rows : List PaperRow) (rawWorkload transportType : String) (loadFactor : ℚ)
    (bytesPerPkt : Nat) : List (Int × ℚ) :=
  (rows.filter fun row => row.accepted rawWorkload transportType loadFactor).map fun row =>
    (row.msgSizePkts bytesPerPkt, row.sizeCntPercent)

def readSamples (samples : List (Int × ℚ)) : Except WorkloadError WorkloadSpec :=
  let pctByMsgSizePkts := samples.foldl addPct []
  let totalPct := samples.foldl (fun total sample => total + sample.2) 0
  match pctByMsgSizePkts.getLast? with
  | none => .error .noRows
  | some last =>
    if totalPct ≤ 0 then .error .nonPositiveTotal
    else
      let spec := (pctByMsgSizePkts.foldl (addSize totalPct) (⟨0, []⟩, 0)).1
      .ok { spec with msgSizeCdf := upsert (fun _ => last.1) 1 spec.msgSizeCdf }

def readPaperRawWorkload (rows : List PaperRow) (rawWorkload transportType : String)
    (loadFactor : ℚ) (bytesPerPkt : Nat) : Except WorkloadError WorkloadSpec :=
  if rawWorkload = "" then .error .workloadNotSet
  else if bytesPerPkt = 0 then .error .bytesPerPktNotPositive
  else readSamples (paperSamples rows rawWorkload transportType loadFactor bytesPerPkt)

/-- The packet count that `GetNextMsgSizeFromDist` takes from the distribution. -/
def WorkloadSpec.pick (spec : WorkloadSpec) (rndValue : ℚ) : Int :=
  min 0xffff (MsgGeneratorApp.sizeLoop rndValue spec.msgSizeCdf)

/-- The values in `(0, 1]` for which a packet count is picked are an interval of this length. -/
def HasMeasure (pick : ℚ → Int) (size : Int) (measure : ℚ) : Prop :=
  ∃ low high, 0 ≤ low ∧ low ≤ high ∧ high ≤ 1 ∧ high - low = measure ∧
    ∀ rndValue, 0 < rndValue → rndValue ≤ 1 →
      (pick rndValue = size ↔ low < rndValue ∧ rndValue ≤ high)

def pct (samples : List (Int × ℚ)) (size : Int) : ℚ :=
  ((samples.filter fun sample => sample.1 = size).map Prod.snd).sum

def total (samples : List (Int × ℚ)) : ℚ := (samples.map Prod.snd).sum

/-- Every packet count is picked with its probability, and the average is their mean. -/
structure Faithful (samples : List (Int × ℚ)) (spec : WorkloadSpec) : Prop where
  measure : ∀ size, HasMeasure spec.pick size (pct samples size / total samples)
  mean : spec.avgMsgSizePkts = ((samples.map Prod.fst).toFinset.sum fun size =>
    (size : ℚ) * (pct samples size / total samples))

/-! ## The table -/

def weigh (weight : Int → ℚ) (entries : List (Int × ℚ)) : ℚ :=
  (entries.map fun entry => weight entry.1 * entry.2).sum

variable {weight : Int → ℚ} {entries table : List (Int × ℚ)} {entry kv : Int × ℚ} {size : Int}

theorem weigh_nil : weigh weight [] = 0 := rfl

theorem weigh_cons :
    weigh weight (entry :: entries) = weight entry.1 * entry.2 + weigh weight entries :=
  sum_cons

theorem total_cons : total (kv :: entries) = kv.2 + total entries := sum_cons

theorem total_eq_weigh (entries : List (Int × ℚ)) : total entries = weigh (fun _ => 1) entries := by
  simp [total, weigh]

theorem pct_nil : pct [] size = 0 := rfl

theorem pct_cons :
    pct (entry :: entries) size = (if entry.1 = size then entry.2 else 0) + pct entries size := by
  by_cases hsame : entry.1 = size
  · simp [pct, hsame]
  · simp [pct, hsame]

theorem pct_eq_weigh (entries : List (Int × ℚ)) (size : Int) :
    pct entries size = weigh (fun other => if other = size then 1 else 0) entries := by
  induction entries with
  | nil => rfl
  | cons entry rest ih => rw [pct_cons, weigh_cons, ih, ite_mul, one_mul, zero_mul]

theorem weigh_addPct (table : List (Int × ℚ)) (sample : Int × ℚ) :
    weigh weight (addPct table sample) = weigh weight table + weight sample.1 * sample.2 := by
  rw [addPct]
  induction table with
  | nil => simp [upsert, weigh]
  | cons entry rest ih =>
    rw [upsert]
    split
    · simp only [weigh_cons, Option.getD_none, zero_add]
      ring
    · split
      next hkey =>
        simp only [weigh_cons, Option.getD_some, hkey]
        ring
      · rw [weigh_cons, weigh_cons, ih, add_assoc]

theorem foldl_addPct (samples table : List (Int × ℚ)) (hsort : Sorted table) :
    Sorted (samples.foldl addPct table) ∧
      (∀ size,
        size ∈ (samples.foldl addPct table).map Prod.fst ↔
          size ∈ table.map Prod.fst ∨ size ∈ samples.map Prod.fst) ∧
      ∀ weight,
        weigh weight (samples.foldl addPct table) = weigh weight table + weigh weight samples := by
  induction samples generalizing table with
  | nil => exact ⟨hsort, fun size => by simp, fun weight => by simp [weigh]⟩
  | cons sample rest ih =>
    obtain ⟨hnext, hkeys, hweigh⟩ := ih (addPct table sample) hsort.upsert
    refine ⟨hnext, fun size => ?_, fun weight => ?_⟩
    · rw [foldl_cons, hkeys, addPct, mem_keys_upsert, map_cons, mem_cons, or_assoc,
        or_left_comm]
    · rw [foldl_cons, hweigh, weigh_addPct, weigh_cons, add_assoc]

theorem foldl_total (samples : List (Int × ℚ)) (start : ℚ) :
    samples.foldl (fun total sample => total + sample.2) start = start + total samples := by
  induction samples generalizing start with
  | nil => simp [total]
  | cons sample rest ih => rw [foldl_cons, ih, total_cons, add_assoc]

theorem pct_eq_zero (hnone : ∀ entry ∈ entries, entry.1 ≠ size) : pct entries size = 0 := by
  rw [pct, filter_eq_nil_iff.mpr fun entry hent => by simpa using hnone entry hent]
  rfl

theorem pct_of_mem (hsort : Sorted entries)
    (hmem : entry ∈ entries) : pct entries entry.1 = entry.2 := by
  induction entries with
  | nil => cases hmem
  | cons head rest ih =>
    obtain ⟨hless, hrest⟩ := pairwise_cons.mp hsort
    rw [pct_cons]
    rcases mem_cons.mp hmem with rfl | hlater
    · rw [if_pos rfl, pct_eq_zero fun other hother => (hless other hother).ne', add_zero]
    · rw [if_neg (hless entry hlater).ne, ih hrest hlater, zero_add]

/-! ## The distribution -/

/-- The entries from a last one on: a packet count without a probability takes its place. -/
def groups (totalPct cumulative : ℚ) (size : Int) : List (Int × ℚ) → List (ℚ × Int)
  | [] => [(cumulative, size)]
  | kv :: rest =>
    if kv.2 = 0 then groups totalPct cumulative kv.1 rest
    else (cumulative, size) :: groups totalPct (cumulative + kv.2 / totalPct) kv.1 rest

variable {totalPct cumulative : ℚ} {front : List (ℚ × Int)} {spec : WorkloadSpec}

theorem total_nonneg (hnonneg : ∀ kv ∈ entries, 0 ≤ kv.2) : 0 ≤ total entries :=
  sum_nonneg (forall_mem_map.mpr hnonneg)

theorem foldl_addSize (hpos : 0 < totalPct) (hnonneg : ∀ kv ∈ entries, 0 ≤ kv.2)
    (hfront : ∀ entry ∈ front, entry.1 < cumulative)
    (hone : cumulative + total entries / totalPct ≤ 1) (avg : ℚ) :
    (entries.foldl (addSize totalPct) (⟨avg, front ++ [(cumulative, size)]⟩, cumulative)).1 =
      ⟨avg + (entries.map fun kv => (kv.1 : ℚ) * (kv.2 / totalPct)).sum,
        front ++ groups totalPct cumulative size entries⟩ := by
  induction entries generalizing avg front cumulative size with
  | nil => simp [groups]
  | cons kv rest ih =>
    obtain ⟨hkv, hrest⟩ := forall_mem_cons.mp hnonneg
    have hless : 0 ≤ total rest / totalPct := div_nonneg (total_nonneg hrest) hpos.le
    have hprobability : 0 ≤ kv.2 / totalPct := div_nonneg hkv hpos.le
    rw [total_cons, add_div, ← add_assoc] at hone
    have hmin : min 1 (cumulative + kv.2 / totalPct) = cumulative + kv.2 / totalPct :=
      min_eq_right (by linarith)
    have hbelow : ∀ entry ∈ front, entry.1 < cumulative + kv.2 / totalPct := fun entry hent =>
      (hfront entry hent).trans_le (by linarith)
    simp only [foldl_cons, addSize, hmin, upsert_append hbelow, groups, map_cons,
      sum_cons, ← add_assoc avg]
    by_cases hzero : kv.2 = 0
    · have hkey : cumulative + kv.2 / totalPct = cumulative := by rw [hzero, zero_div, add_zero]
      rw [hkey] at hone ⊢
      simp only [upsert, lt_irrefl, if_false, if_true, if_pos hzero]
      exact ih hrest hfront hone _
    · have hlt : cumulative < cumulative + kv.2 / totalPct :=
        lt_add_of_pos_right _ (div_pos (lt_of_le_of_ne hkv (Ne.symm hzero)) hpos)
      have hfront' : ∀ entry ∈ front ++ [(cumulative, size)],
          entry.1 < cumulative + kv.2 / totalPct :=
        forall_mem_append.mpr ⟨hbelow, forall_mem_singleton.mpr hlt⟩
      simp only [upsert, if_neg hlt.not_gt, if_neg hlt.ne', if_neg hzero]
      rw [append_cons front _ [_], append_cons front _ (groups _ _ _ _)]
      exact ih hrest hfront' hone _

def lastSize (size : Int) : List (Int × ℚ) → Int
  | [] => size
  | kv :: rest => lastSize kv.1 rest

theorem getLast?_cons (kv : Int × ℚ) (rest : List (Int × ℚ)) :
    ∃ last, (kv :: rest).getLast? = some last ∧ last.1 = lastSize kv.1 rest := by
  induction rest generalizing kv with
  | nil => exact ⟨kv, rfl, rfl⟩
  | cons head rest ih =>
    rw [getLast?_cons_cons]
    exact ih head

theorem upsert_groups (hpos : 0 < totalPct) (hnonneg : ∀ kv ∈ entries, 0 ≤ kv.2) :
    upsert (fun _ => lastSize size entries) (cumulative + total entries / totalPct)
      (groups totalPct cumulative size entries) = groups totalPct cumulative size entries := by
  induction entries generalizing cumulative size with
  | nil => simp [groups, upsert, total, lastSize]
  | cons kv rest ih =>
    obtain ⟨hkv, hrest⟩ := forall_mem_cons.mp hnonneg
    rw [total_cons, add_div, ← add_assoc, groups, lastSize]
    split
    next hzero =>
      rw [hzero, zero_div, add_zero]
      exact ih hrest
    next hsome =>
      have hlt : cumulative < cumulative + kv.2 / totalPct + total rest / totalPct := by
        have hmore := div_pos (lt_of_le_of_ne hkv (Ne.symm hsome)) hpos
        have hless := div_nonneg (total_nonneg hrest) hpos.le
        linarith
      rw [upsert, if_neg hlt.not_gt, if_neg hlt.ne', ih hrest]

theorem readSamples_eq {samples : List (Int × ℚ)} (hread : readSamples samples = .ok spec)
    (hnonneg : ∀ sample ∈ samples, 0 ≤ sample.2) :
    ∃ kv rest,
      samples.foldl addPct [] = kv :: rest ∧ 0 < total samples ∧
        spec = ⟨((kv :: rest).map fun kv => (kv.1 : ℚ) * (kv.2 / total samples)).sum,
            groups (total samples) (kv.2 / total samples) kv.1 rest⟩ ∧
        ∀ entry ∈ kv :: rest, 0 ≤ entry.2 := by
  obtain ⟨hsort, hkeys, hweigh⟩ := foldl_addPct samples [] List.Pairwise.nil
  rw [readSamples] at hread
  dsimp only at hread
  rw [foldl_total, zero_add] at hread
  have htable : ∀ entry ∈ samples.foldl addPct [], 0 ≤ entry.2 := by
    intro entry hent
    rw [← pct_of_mem hsort hent, pct_eq_weigh, hweigh, weigh_nil, zero_add, ← pct_eq_weigh]
    exact sum_nonneg (forall_mem_map.mpr
      fun sample hsample => hnonneg sample (mem_filter.mp hsample).1)
  have hsum : total (samples.foldl addPct []) = total samples := by
    rw [total_eq_weigh, hweigh, weigh_nil, zero_add, ← total_eq_weigh]
  generalize samples.foldl addPct [] = table at *
  cases table with
  | nil => cases hread
  | cons kv rest =>
    obtain ⟨last, hlast, hsz⟩ := getLast?_cons kv rest
    rw [hlast] at hread
    dsimp only at hread
    split at hread
    · cases hread
    next htotal =>
      have hpos := not_le.mp htotal
      obtain ⟨hkv, hrest⟩ := forall_mem_cons.mp htable
      rw [total_cons] at hsum
      have hone : kv.2 / total samples + total rest / total samples = 1 := by
        rw [← add_div, hsum, div_self hpos.ne']
      have hless := div_nonneg (total_nonneg hrest) hpos.le
      refine ⟨kv, rest, rfl, hpos, ?_, htable⟩
      cases hread
      have hmin : min 1 (0 + kv.2 / total samples) = kv.2 / total samples := by
        rw [zero_add, min_eq_right (by linarith)]
      have hbuilt := @foldl_addSize rest kv.1 _ (kv.2 / total samples) [] hpos hrest
        (fun _ hmem => nomatch hmem) hone.le (0 + kv.1 * (kv.2 / total samples))
      rw [foldl_cons, addSize]
      dsimp only
      rw [hmin, zero_add (kv.2 / _), upsert]
      rw [nil_append, nil_append] at hbuilt
      rw [hbuilt, hsz, ← hone, upsert_groups hpos hrest, zero_add, map_cons, sum_cons]

/-! ## What is picked -/

open MsgGeneratorApp (sizeLoop)

theorem values_groups {value : ℚ × Int} (hval : value ∈ groups totalPct cumulative size entries) :
    value.2 = size ∨ value.2 ∈ entries.map Prod.fst := by
  induction entries generalizing cumulative size with
  | nil => exact .inl (congrArg Prod.snd (mem_singleton.mp hval))
  | cons kv rest ih =>
    rw [groups] at hval
    rw [map_cons, mem_cons]
    split at hval
    · exact .inr (ih hval)
    · rcases mem_cons.mp hval with rfl | hlater
      · exact .inl rfl
      · exact .inr (ih hlater)

theorem sizeLoop_mem (rndValue : ℚ) (values : List (ℚ × Int)) :
    sizeLoop rndValue values = -1 ∨ ∃ value ∈ values, value.2 = sizeLoop rndValue values := by
  induction values with
  | nil => exact .inl rfl
  | cons value rest ih =>
    rw [sizeLoop]
    split
    · exact .inr ⟨value, mem_cons_self, rfl⟩
    · exact ih.imp_right (Exists.imp fun _ => And.imp_left (mem_cons_of_mem _))

theorem interval_groups (hpos : 0 < totalPct) {base : ℚ} (hkv : 0 ≤ kv.2)
    (hall : ∀ entry ∈ entries, 0 < entry.2) (hsort : Sorted (kv :: entries)) (size : Int) :
    ∃ low high,
      base ≤ low ∧ low ≤ high ∧ high ≤ base + kv.2 / totalPct + total entries / totalPct ∧
        high - low = pct (kv :: entries) size / totalPct ∧
        ∀ rndValue,
          base < rndValue → rndValue ≤ base + kv.2 / totalPct + total entries / totalPct →
            (sizeLoop rndValue (groups totalPct (base + kv.2 / totalPct) kv.1 entries) = size ↔
              low < rndValue ∧ rndValue ≤ high) := by
  have hprobability := div_nonneg hkv hpos.le
  induction entries generalizing base kv with
  | nil =>
    simp only [total, map_nil, sum_nil, zero_div, add_zero, groups, sizeLoop]
    by_cases hsame : kv.1 = size
    · refine ⟨base, base + kv.2 / totalPct, le_rfl, by linarith, le_rfl, ?_, fun rndValue hlow
    hhigh => ?_⟩
      · rw [pct_cons, if_pos hsame, pct_nil]
        ring
      · simp [hhigh, hlow, hsame]
    · refine ⟨base, base, le_rfl, le_rfl, by linarith, ?_, fun rndValue hlow hhigh => ?_⟩
      · rw [pct_cons, if_neg hsame, pct_nil]
        ring
      · simp [hhigh, hlow, hsame]
  | cons next rest ih =>
    obtain ⟨hnext, hrest⟩ := forall_mem_cons.mp hall
    obtain ⟨hless, htail⟩ := pairwise_cons.mp hsort
    obtain ⟨low, high, hbase, hle, htop, hlen, hpick⟩ :=
      @ih next (base + kv.2 / totalPct) hnext.le hrest htail (div_nonneg hnext.le hpos.le)
    simp only [groups, if_neg hnext.ne', sizeLoop, total_cons, add_div, ← add_assoc]
    rw [pct_cons]
    by_cases hsame : kv.1 = size
    · have hnone : pct (next :: rest) size = 0 :=
        pct_eq_zero fun entry hent => hsame ▸ (hless entry hent).ne'
      rw [hnone, zero_div] at hlen
      refine ⟨base, base + kv.2 / totalPct, le_rfl, by linarith, by linarith, ?_,
        fun rndValue hlow hhigh => ?_⟩
      · rw [if_pos hsame, hnone]
        ring
      · split
        next hhere => simp [hhere, hlow, hsame]
        next hbeyond =>
          rw [hpick rndValue (not_le.mp hbeyond) hhigh]
          exact iff_of_false (fun hboth => by linarith [hboth.1, hboth.2]) fun hboth =>
            hbeyond hboth.2
    · refine ⟨low, high, by linarith, hle, htop, by rw [hlen, if_neg hsame, zero_add],
        fun rndValue hlow hhigh => ?_⟩
      split
      next hhere => exact iff_of_false hsame fun hboth => by linarith [hboth.1]
      next hbeyond => exact hpick rndValue (not_le.mp hbeyond) hhigh

/-- No packet count of zero percent is larger than one with a positive percentage. -/
def Rising (table : List (Int × ℚ)) : Prop :=
  table.Pairwise fun entry later => 0 < entry.2 → 0 < later.2

theorem interval_rising (hpos : 0 < totalPct) (hnonneg : ∀ entry ∈ kv :: entries, 0 ≤ entry.2)
    (hsort : Sorted (kv :: entries)) (hrising : Rising (kv :: entries)) (size : Int) :
    ∃ low high,
      0 ≤ low ∧ low ≤ high ∧ high ≤ total (kv :: entries) / totalPct ∧
        high - low = pct (kv :: entries) size / totalPct ∧
        ∀ rndValue,
          0 < rndValue → rndValue ≤ total (kv :: entries) / totalPct →
            (sizeLoop rndValue (groups totalPct (kv.2 / totalPct) kv.1 entries) = size ↔
              low < rndValue ∧ rndValue ≤ high) := by
  induction entries generalizing kv with
  | nil =>
    have hgroups := @interval_groups [] kv _ hpos 0 (hnonneg kv mem_cons_self)
      (forall_mem_nil _) hsort size
    simpa only [zero_add, total_cons, add_div] using hgroups
  | cons next rest ih =>
    obtain ⟨hkv, hrest⟩ := forall_mem_cons.mp hnonneg
    obtain ⟨hfst, hlater⟩ := pairwise_cons.mp hrising
    rcases (hrest next mem_cons_self).eq_or_lt with hzero | hnext
    · -- without a probability, the next count takes the place of the first one
      have hkvZero : kv.2 = 0 := (not_lt.mp fun hsome =>
        (hfst next mem_cons_self hsome).ne hzero).antisymm hkv
      have hskip := ih hrest hsort.of_cons hlater
      rw [total_cons, pct_cons, hkvZero, ite_self, zero_add, zero_add, zero_div, groups,
        if_pos hzero.symm]
      rwa [← hzero, zero_div] at hskip
    · have hall : ∀ entry ∈ next :: rest, 0 < entry.2 := forall_mem_cons.mpr
        ⟨hnext, fun entry hent => (pairwise_cons.mp hlater).1 entry hent hnext⟩
      have hgroups := @interval_groups (next :: rest) kv _ hpos 0 hkv hall hsort size
      have hsum : total (kv :: next :: rest) = kv.2 + total (next :: rest) := total_cons
      simpa only [zero_add, hsum, add_div] using hgroups

theorem rising_of_kept (hnonneg : ∀ entry ∈ kv :: entries, 0 ≤ entry.2)
    (hsort : Sorted (kv :: entries))
    (hkept : ∀ entry ∈ kv :: entries,
      0 < entry.2 → ∃ value ∈ groups totalPct cumulative kv.1 entries, value.2 = entry.1) :
    Rising (kv :: entries) := by
  induction entries generalizing kv cumulative with
  | nil => exact pairwise_singleton _ _
  | cons next rest ih =>
    obtain ⟨hkv, hrest⟩ := forall_mem_cons.mp hnonneg
    obtain ⟨hless, htail⟩ := pairwise_cons.mp hsort
    obtain ⟨hkvKept, hrestKept⟩ := forall_mem_cons.mp hkept
    rw [groups] at hkvKept hrestKept
    split at hkvKept
    next hzero =>
      rw [if_pos hzero] at hrestKept
      refine pairwise_cons.mpr ⟨fun entry hent hsome => ?_, ih hrest htail hrestKept⟩
      -- the first count is none of those in the groups
      obtain ⟨value, hval, hsame⟩ := hkvKept hsome
      rcases values_groups hval with hnext | hbehind
      · exact absurd (hsame.symm.trans hnext) (hless next mem_cons_self).ne
      · obtain ⟨other, hother, hkey⟩ := mem_map.mp hbehind
        exact absurd (hkey.trans hsame) (hless other (.tail _ hother)).ne'
    next hsome =>
      rw [if_neg hsome] at hrestKept
      have hnext : 0 < next.2 := lt_of_le_of_ne (hrest next mem_cons_self) (Ne.symm hsome)
      have hlater := @ih next (cumulative + next.2 / totalPct) hrest htail fun entry hent hpos =>
        by
        obtain ⟨value, hval, hsame⟩ := hrestKept entry hent hpos
        rcases mem_cons.mp hval with rfl | hbehind
        · exact absurd hsame (hless entry hent).ne
        · exact ⟨value, hbehind, hsame⟩
      exact pairwise_cons.mpr ⟨forall_mem_cons.mpr ⟨fun _ => hnext, fun entry hent _ =>
        (pairwise_cons.mp hlater).1 entry hent hnext⟩, hlater⟩

theorem rising_iff (hsort : Sorted table) :
    Rising table ↔
      ∀ entry ∈ table, ∀ other ∈ table, entry.1 < other.1 → 0 < entry.2 → 0 < other.2 := by
  constructor
  · intro hrising entry hent other hother hless
    obtain ⟨place, hplace, rfl⟩ := mem_iff_getElem.mp hent
    obtain ⟨later, hlater, rfl⟩ := mem_iff_getElem.mp hother
    rcases lt_trichotomy place later with hpre | rfl | hbehind
    · exact pairwise_iff_getElem.mp hrising _ _ hplace hlater hpre
    · exact absurd hless (lt_irrefl _)
    · exact absurd (pairwise_iff_getElem.mp hsort _ _ hlater hplace hbehind) hless.not_gt
  · intro hall
    exact hsort.imp_of_mem fun hent hother hless => hall _ hent _ hother hless

variable {samples : List (Int × ℚ)}

theorem pick_eq (hvalues : ∀ value ∈ spec.msgSizeCdf, value.2 ≤ 0xffff)
    (rndValue : ℚ) : spec.pick rndValue = sizeLoop rndValue spec.msgSizeCdf := by
  apply min_eq_right
  rcases sizeLoop_mem rndValue spec.msgSizeCdf with hnone | ⟨value, hval, hsame⟩
  · omega
  · exact hsame ▸ hvalues value hval

theorem faithful_readSamples (hread : readSamples samples = .ok spec)
    (hnonneg : ∀ sample ∈ samples, 0 ≤ sample.2)
    (hsizes : ∀ sample ∈ samples, 0 ≤ sample.1 ∧ sample.1 ≤ 0xffff) :
    Faithful samples spec ↔
      ∀ size ∈ samples.map Prod.fst, ∀ larger ∈ samples.map Prod.fst,
        size < larger → 0 < pct samples size → 0 < pct samples larger := by
  obtain ⟨kv, rest, htable, hpos, hspec, hents⟩ := readSamples_eq hread hnonneg
  obtain ⟨hsort, hkeys, hweigh⟩ := foldl_addPct samples [] List.Pairwise.nil
  rw [htable] at hsort hkeys hweigh
  have hkeys' : ∀ size, size ∈ (kv :: rest).map Prod.fst ↔ size ∈ samples.map Prod.fst :=
    fun size => by rw [hkeys]; simp
  have hpct : ∀ size, pct (kv :: rest) size = pct samples size := fun size => by
    rw [pct_eq_weigh, hweigh, weigh_nil, zero_add, ← pct_eq_weigh]
  have htotal : total (kv :: rest) = total samples := by
    rw [total_eq_weigh, hweigh, weigh_nil, zero_add, ← total_eq_weigh]
  have hone : total (kv :: rest) / total samples = 1 := by rw [htotal, div_self hpos.ne']
  have hbd : ∀ value ∈ spec.msgSizeCdf, 0 ≤ value.2 ∧ value.2 ≤ 0xffff := by
    intro value hval
    rw [hspec] at hval
    have hmem : value.2 ∈ (kv :: rest).map Prod.fst := mem_cons.mpr (values_groups hval)
    obtain ⟨sample, hsample, hsame⟩ := mem_map.mp ((hkeys' _).mp hmem)
    exact hsame ▸ hsizes sample hsample
  have hpick := pick_eq fun value hval => (hbd value hval).2
  have hcond : Rising (kv :: rest) ↔ ∀ size ∈ samples.map Prod.fst,
      ∀ larger ∈ samples.map Prod.fst, size < larger → 0 < pct samples size →
        0 < pct samples larger := by
    rw [rising_iff hsort]
    simp only [← hkeys', ← hpct, forall_mem_map]
    refine forall₂_congr fun entry hent => forall₂_congr fun other hother => ?_
    rw [pct_of_mem hsort hent, pct_of_mem hsort hother]
  rw [← hcond]
  constructor
  · intro hfaithful
    refine @rising_of_kept rest kv (total samples) (kv.2 / total samples) hents hsort
      fun entry hent hsome => ?_
    obtain ⟨low, high, hlow, -, hhigh, hlen, hpicked⟩ := hfaithful.measure entry.1
    rw [← hpct, pct_of_mem hsort hent] at hlen
    have hless : low < high := by linarith [div_pos hsome hpos]
    have htop := (hpicked high (hlow.trans_lt hless) hhigh).mpr ⟨hless, le_rfl⟩
    rw [hpick] at htop
    rcases sizeLoop_mem high spec.msgSizeCdf with hnone | ⟨value, hval, hsame⟩
    · obtain ⟨sample, hsample, hkey⟩ :=
        mem_map.mp ((hkeys' _).mp (mem_map_of_mem (f := Prod.fst) hent))
      have hnonnegSize := (hsizes sample hsample).1
      omega
    · rw [hspec] at hval
      exact ⟨value, hval, hsame.trans htop⟩
  · intro hrising
    refine ⟨fun size => ?_, ?_⟩
    · have hiv := interval_rising hpos hents hsort hrising size
      rw [hone, hpct] at hiv
      obtain ⟨low, high, hlow, hle, hhigh, hlen, hpicked⟩ := hiv
      refine ⟨low, high, hlow, hle, hhigh, hlen, fun rndValue hsome htop => ?_⟩
      rw [hpick, hspec]
      exact hpicked rndValue hsome htop
    · have hset : (samples.map Prod.fst).toFinset = ((kv :: rest).map Prod.fst).toFinset := by
        ext size
        rw [mem_toFinset, mem_toFinset, hkeys']
      have hnodup : ((kv :: rest).map Prod.fst).Nodup :=
        pairwise_map.mpr (hsort.imp fun hless => hless.ne)
      rw [hset, sum_toFinset _ hnodup, hspec, map_map]
      refine congrArg sum (map_congr_left fun entry hent => ?_)
      rw [Function.comp_apply, ← hpct, pct_of_mem hsort hent]

/-- The accepted rows say whether the workload is faithful: no count of zero percent may be larger
than one with a positive percentage. -/
theorem readPaperRawWorkload_faithful_iff {rows : List PaperRow} {rawWorkload transportType :
    String} {loadFactor : ℚ}
    {bytesPerPkt : Nat} {spec : WorkloadSpec}
    (hread : readPaperRawWorkload rows rawWorkload transportType loadFactor bytesPerPkt = .ok spec)
    (hnonneg : ∀ row ∈ rows, 0 ≤ row.sizeCntPercent) :
    let samples := paperSamples rows rawWorkload transportType loadFactor bytesPerPkt
    Faithful samples spec ↔ ∀ size ∈ samples.map Prod.fst, ∀ larger ∈ samples.map Prod.fst,
      size < larger → 0 < pct samples size → 0 < pct samples larger := by
  rw [readPaperRawWorkload] at hread
  split at hread
  · cases hread
  · split at hread
    · cases hread
    · refine faithful_readSamples hread ?_ ?_
      · exact List.forall_mem_map.mpr fun row hrow => hnonneg row (List.mem_filter.mp hrow).1
      · refine List.forall_mem_map.mpr fun row _ => ?_
        rw [PaperRow.msgSizePkts]
        omega

def twoSizes (small large : ℚ) : List PaperRow :=
  [⟨"Homa", 0, "W", 1500, small⟩, ⟨"Homa", 0, "W", 3000, large⟩]

theorem samples_twoSizes (small large : ℚ) :
    paperSamples (twoSizes small large) "W" "Homa" 0 1500 = [(1, small), (2, large)] := by
  simp [paperSamples, twoSizes, PaperRow.accepted, canonicalPaperRawWorkload]
  norm_num [PaperRow.msgSizePkts, uint64]

theorem readPaperRawWorkload_twoSizes {small large : ℚ} (hpos : 0 < small + large) :
    ∃ spec, readPaperRawWorkload (twoSizes small large) "W" "Homa" 0 1500 = .ok spec := by
  rw [readPaperRawWorkload, if_neg (by decide), if_neg (by decide), samples_twoSizes]
  simp [readSamples, addPct, upsert, not_le.mpr hpos]

theorem faithful_halves :
    ∃ spec, readPaperRawWorkload (twoSizes 50 50) "W" "Homa" 0 1500 = .ok spec ∧
      Faithful [(1, 50), (2, 50)] spec := by
  obtain ⟨spec, hspec⟩ := @readPaperRawWorkload_twoSizes 50 50 (by norm_num)
  have hiff := readPaperRawWorkload_faithful_iff hspec (by simp [twoSizes])
  rw [samples_twoSizes] at hiff
  exact ⟨spec, hspec, hiff.mpr (by simp [pct])⟩

/-- All messages have one packet, but two packets are always picked. -/
theorem not_faithful_zero :
    ∃ spec, readPaperRawWorkload (twoSizes 100 0) "W" "Homa" 0 1500 = .ok spec ∧
      ¬ Faithful [(1, 100), (2, 0)] spec := by
  obtain ⟨spec, hspec⟩ := @readPaperRawWorkload_twoSizes 100 0 (by norm_num)
  have hread := hspec
  rw [readPaperRawWorkload, if_neg (by decide), if_neg (by decide), samples_twoSizes] at hread
  refine ⟨spec, hspec, fun hfaithful => ?_⟩
  have hall := (faithful_readSamples hread (by simp) (by simp)).mp hfaithful 1 (by simp) 2 (by simp)
    (by decide) (by simp [pct])
  simp [pct] at hall

end HomaSird.Applications
