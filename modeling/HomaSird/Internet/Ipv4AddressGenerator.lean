import Mathlib.Data.List.Induction
import HomaSird.Data.Interval
import HomaSird.Internet.Ipv4Header

/-! # Allocated IPv4 addresses

The generator keeps the addresses that were added in a list of ranges. The ranges are those of a
set that grows by one address with each addition; a query for a network looks at their ends only.
-/

namespace HomaSird.Internet

open HomaSird.Interval List

structure Entry where
  addrLow : Ipv4Address
  addrHigh : Ipv4Address
deriving DecidableEq

structure Ipv4AddressGenerator where
  entries : List Entry := []
  test : Bool := false
deriving DecidableEq

/-- The loop of `AddAllocated` and the insertion: whether the address is added, and the entries. -/
def addLoop (addr : Ipv4Address) : List Entry → Bool × List Entry
  | [] => (true, [⟨addr, addr⟩])
  | i :: rest =>
    if i.addrLow ≤ addr ∧ addr ≤ i.addrHigh then (false, i :: rest)
    else if addr < i.addrLow - 1 then (true, ⟨addr, addr⟩ :: i :: rest)
    else if addr = i.addrHigh + 1 then
      if rest.head?.any fun j => decide (addr = j.addrLow) then (false, i :: rest)
      else (true, ⟨i.addrLow, addr⟩ :: rest)
    else if addr = i.addrLow - 1 then (true, ⟨addr, i.addrHigh⟩ :: rest)
    else ((addLoop addr rest).1, i :: (addLoop addr rest).2)

namespace Ipv4AddressGenerator

variable (generator : Ipv4AddressGenerator)

/-- Address zero ends the program, and so does a collision outside of test mode. -/
def addAllocated (addr : Ipv4Address) : Option (Bool × Ipv4AddressGenerator) :=
  if addr = 0 then none
  else
    let (added, entries) := addLoop addr generator.entries
    if !added && !generator.test then none else some (added, { generator with entries := entries })

def isAddressAllocated (addr : Ipv4Address) : Option Bool :=
  if addr = 0 then none
  else some !generator.entries.any fun i => decide (i.addrLow ≤ addr ∧ addr ≤ i.addrHigh)

def isNetworkAllocated (address : Ipv4Address) (mask : Ipv4Mask) : Option Bool :=
  if address ≠ address.combineMask mask then none
  else some !generator.entries.any fun i =>
    decide (address = i.addrLow.combineMask mask ∨ address = i.addrHigh.combineMask mask)

def addAll (addrs : List Ipv4Address) : Option Ipv4AddressGenerator :=
  addrs.foldlM (fun generator addr => (generator.addAllocated addr).map Prod.snd) { test := true }

end Ipv4AddressGenerator

/-! ## Ranges -/

def Entry.range (entry : Entry) : Interval := ⟨entry.addrLow.toNat, entry.addrHigh.toNat + 1⟩

/-- An address that the generator is given: neither zero nor the highest one. -/
def Addable (addr : Ipv4Address) : Prop := 0 < addr.toNat ∧ addr.toNat + 1 < 2 ^ 32

instance (addr : Ipv4Address) : Decidable (Addable addr) := inferInstanceAs (Decidable (_ ∧ _))

section

variable {addr : Ipv4Address} {entries : List Entry} {start : Nat}

theorem contains_range (entry : Entry) :
    entry.range.Contains addr.toNat ↔ entry.addrLow ≤ addr ∧ addr ≤ entry.addrHigh := by
  rw [Interval.Contains, Entry.range, Nat.lt_succ_iff, BitVec.le_def, BitVec.le_def]

theorem addLoop_spec (hentries : Interval.Separated start (entries.map Entry.range))
    (hhigh : ∀ entry ∈ entries, entry.addrHigh.toNat + 1 < 2 ^ 32)
    (hpos : 1 ≤ start) (hstart : start ≤ addr.toNat) (haddr : addr.toNat + 1 < 2 ^ 32) :
    ((addLoop addr entries).1 = false ↔ Interval.Covers (entries.map Entry.range) addr.toNat) ∧
    Interval.Separated start ((addLoop addr entries).2.map Entry.range) ∧
    ∀ pos, Interval.Covers ((addLoop addr entries).2.map Entry.range) pos ↔
    pos = addr.toNat ∨ Interval.Covers (entries.map Entry.range) pos := by
  induction entries generalizing start with
  | nil =>
    refine ⟨by simp [addLoop], ⟨hstart, Nat.lt_succ_self _, trivial⟩, fun pos => ?_⟩
    simp only [addLoop, map_cons, map_nil, covers_cons, Interval.Contains,
      Entry.range, not_covers_nil, or_false]
    omega
  | cons i rest ih =>
    obtain ⟨hfst, hsome, hrest⟩ := hentries
    obtain ⟨hi, hlater⟩ := forall_mem_cons.mp hhigh
    change start ≤ i.addrLow.toNat at hfst
    change i.addrLow.toNat < i.addrHigh.toNat + 1 at hsome
    have hlow : (i.addrLow - 1).toNat = i.addrLow.toNat - 1 := by bv_omega
    have hnext : (i.addrHigh + 1).toNat = i.addrHigh.toNat + 1 := by bv_omega
    have hbehind : ∀ {pos}, pos < i.addrHigh.toNat + 1 →
        ¬ Interval.Covers (rest.map Entry.range) pos := by
      rintro pos hless ⟨range, hmem, hcontains, -⟩
      exact absurd (lt_of_lt_of_le hless (hrest.of_mem hmem).1) (not_lt.mpr hcontains)
    rw [addLoop]
    simp only [map_cons, covers_cons, Interval.Contains, Entry.range, BitVec.le_def,
      BitVec.lt_def, ← BitVec.toNat_inj, hlow, hnext]
    split
    next hin =>
      refine ⟨iff_of_true rfl (.inl (by omega)), ⟨hfst, hsome, hrest⟩, fun pos => ?_⟩
      rw [map_cons, covers_cons, ← or_assoc]
      exact or_congr_left (by simp only [Interval.Contains, Entry.range]; omega)
    next hout =>
      split
      next hpre =>
        refine ⟨iff_of_false (by simp) ?_, ⟨hstart, Nat.lt_succ_self _, ?_, hsome, hrest⟩,
          fun pos => ?_⟩
        · exact not_or.mpr ⟨by omega, hbehind (by omega)⟩
        · change addr.toNat + 1 ≤ i.addrLow.toNat
          omega
        · simp only [map_cons, covers_cons]
          exact or_congr_left (by simp only [Interval.Contains, Entry.range]; omega)
      next hnear =>
        split
        next hend =>
          split
          next hmeets =>
            obtain ⟨j, hj, hsame⟩ := (Option.any_eq_true _ _).mp hmeets
            rw [decide_eq_true_eq] at hsame
            have hmem : j.range ∈ rest.map Entry.range := mem_map_of_mem (mem_of_head? hj)
            have hcov : Interval.Covers (rest.map Entry.range) addr.toNat :=
              ⟨j.range, hmem, hsame.symm.le, hsame.trans_lt (hrest.of_mem hmem).2⟩
            refine ⟨iff_of_true rfl (.inr hcov), ⟨hfst, hsome, hrest⟩, fun pos => ?_⟩
            rw [map_cons, covers_cons]
            refine ⟨.inr, fun hposition => hposition.elim (fun hsame => .inr ?_) id⟩
            rwa [hsame]
          next hfree =>
            have hlast : Interval.Separated (addr.toNat + 1) (rest.map Entry.range) := by
              cases rest with
              | nil => trivial
              | cons j rest =>
                have hne : addr.toNat ≠ j.addrLow.toNat := by
                  simpa [← BitVec.toNat_inj] using hfree
                refine ⟨?_, hrest.2⟩
                have hle : i.addrHigh.toNat + 1 ≤ j.addrLow.toNat := hrest.1
                change addr.toNat + 1 ≤ j.addrLow.toNat
                omega
            have hmissed : ¬ Interval.Covers (rest.map Entry.range) addr.toNat := by
              rintro ⟨range, hmem, hcontains, -⟩
              exact absurd (hlast.of_mem hmem).1 (not_le.mpr (Nat.lt_succ_of_le hcontains))
            refine ⟨iff_of_false (by simp) (not_or.mpr ⟨by omega, hmissed⟩), ⟨hfst, ?_, hlast⟩,
              fun pos => ?_⟩
            · change i.addrLow.toNat < addr.toNat + 1
              omega
            · rw [map_cons, covers_cons, ← or_assoc]
              exact or_congr_left (by simp only [Interval.Contains, Entry.range]; omega)
        next hapart =>
          split
          next hbelow =>
            refine ⟨iff_of_false (by simp) ?_, ⟨hstart, ?_, hrest⟩, fun pos => ?_⟩
            · exact not_or.mpr ⟨by omega, hbehind (by omega)⟩
            · change addr.toNat < i.addrHigh.toNat + 1
              omega
            · rw [map_cons, covers_cons, ← or_assoc]
              exact or_congr_left (by simp only [Interval.Contains, Entry.range]; omega)
          next hbeyond =>
            obtain ⟨hfails, hkept, hcov⟩ := ih hrest hlater (Nat.succ_pos _) (by
              change i.addrHigh.toNat + 1 ≤ addr.toNat
              omega)
            refine ⟨hfails.trans (or_iff_right (by omega)).symm, ⟨hfst, hsome, hkept⟩,
              fun pos => ?_⟩
            rw [map_cons, covers_cons, hcov]
            exact or_left_comm

end

/-! ## Networks -/

theorem toNat_combineMask (addr : Ipv4Address) (shift : Nat) :
    (addr.combineMask (BitVec.allOnes 32 <<< shift)).toNat =
      addr.toNat / 2 ^ shift * 2 ^ shift := by
  have hshifts : addr.combineMask (BitVec.allOnes 32 <<< shift) = addr >>> shift <<< shift := by
    apply BitVec.eq_of_getLsbD_eq
    intro bit hbit
    rw [Ipv4Address.combineMask, BitVec.getLsbD_and, BitVec.getLsbD_shiftLeft,
      BitVec.getLsbD_shiftLeft, BitVec.getLsbD_allOnes, BitVec.getLsbD_ushiftRight]
    by_cases hlow : bit < shift
    · simp [hlow]
    · have hbelow : bit - shift < 32 := by omega
      simp [hlow, hbit, hbelow, Nat.add_sub_cancel' (not_lt.mp hlow)]
  have hle := Nat.div_mul_le_self addr.toNat (2 ^ shift)
  rw [hshifts, BitVec.toNat_shiftLeft, BitVec.toNat_ushiftRight, Nat.shiftLeft_eq,
    Nat.shiftRight_eq_div_pow, Nat.mod_eq_of_lt (lt_of_le_of_lt hle addr.isLt)]

def lastOf (address : Ipv4Address) (shift : Nat) : Nat := address.toNat + 2 ^ shift - 1

theorem combineMask_eq_iff {address addr : Ipv4Address} {shift : Nat}
    (hnetwork : address = address.combineMask (BitVec.allOnes 32 <<< shift)) :
    address = addr.combineMask (BitVec.allOnes 32 <<< shift) ↔
      address.toNat ≤ addr.toNat ∧ addr.toNat ≤ lastOf address shift := by
  have hbase := congrArg BitVec.toNat hnetwork
  rw [toNat_combineMask] at hbase
  rw [← BitVec.toNat_inj, toNat_combineMask, lastOf, hbase,
    Nat.mul_left_inj (ne_of_gt (Nat.two_pow_pos shift)), eq_comm,
    Nat.div_eq_iff (Nat.two_pow_pos shift)]

/-! ## Additions -/

theorem eq_of_overlap {entries : List Entry} {start pos : Nat}
    {first second : Entry} (hentries : Interval.Separated start (entries.map Entry.range))
    (hfst : first ∈ entries) (hsnd : second ∈ entries) (hone : first.range.Contains pos)
    (htwo : second.range.Contains pos) : first = second := by
  induction entries generalizing start with
  | nil => cases hfst
  | cons entry rest ih =>
    obtain ⟨-, -, hrest⟩ := hentries
    have hafter : ∀ other ∈ rest, entry.range.Contains pos → ¬ other.range.Contains pos :=
      fun other hother hhere hthere => absurd (lt_of_lt_of_le hhere.2
        (hrest.of_mem (mem_map_of_mem hother)).1) (not_lt.mpr hthere.1)
    rcases mem_cons.mp hfst with rfl | hbehind
    · rcases mem_cons.mp hsnd with rfl | hlater
      · rfl
      · exact absurd htwo (hafter _ hlater hone)
    · rcases mem_cons.mp hsnd with rfl | hlater
      · exact absurd hone (hafter _ hbehind htwo)
      · exact ih hrest hbehind hlater

structure Keeps (addrs : List Ipv4Address) (generator : Ipv4AddressGenerator) : Prop where
  test : generator.test = true
  addable : ∀ addr ∈ addrs, Addable addr
  separated : Interval.Separated 1 (generator.entries.map Entry.range)
  covers : ∀ pos, Interval.Covers (generator.entries.map Entry.range) pos ↔
    ∃ addr ∈ addrs, addr.toNat = pos

section

variable {addrs : List Ipv4Address} {generator : Ipv4AddressGenerator} {addr : Ipv4Address}
  (hkeeps : Keeps addrs generator)
include hkeeps

theorem Keeps.covers_iff :
    Interval.Covers (generator.entries.map Entry.range) addr.toNat ↔ addr ∈ addrs := by
  rw [hkeeps.covers]
  constructor
  · rintro ⟨other, hmem, hsame⟩
    rwa [← BitVec.toNat_inj.mp hsame]
  · exact fun hmem => ⟨addr, hmem, rfl⟩

theorem Keeps.high {entry : Entry}
    (hent : entry ∈ generator.entries) : entry.addrHigh.toNat + 1 < 2 ^ 32 := by
  have hmem : entry.range ∈ generator.entries.map Entry.range := mem_map_of_mem hent
  obtain ⟨other, hother, hsame⟩ := (hkeeps.covers entry.addrHigh.toNat).mp
    ⟨entry.range, hmem, Nat.le_of_lt_succ (hkeeps.separated.of_mem hmem).2, Nat.lt_succ_self _⟩
  rw [← hsame]
  exact (hkeeps.addable other hother).2

theorem Keeps.step (haddable : Addable addr) :
    ∃ next,
      generator.addAllocated addr = some (decide (addr ∉ addrs), next) ∧
        Keeps (addrs ++ [addr]) next := by
  obtain ⟨hfails, hseparated, hcov⟩ := @addLoop_spec addr generator.entries 1 hkeeps.separated
    (fun _ hent => hkeeps.high hent) (le_rfl) haddable.1 haddable.2
  have hne : addr ≠ 0 := by
    rintro rfl
    exact absurd haddable.1 (lt_irrefl _)
  have hres : (addLoop addr generator.entries).1 = decide (addr ∉ addrs) := by
    rw [hkeeps.covers_iff] at hfails
    by_cases hmem : addr ∈ addrs
    · rw [hfails.mpr hmem, decide_eq_false (not_not.mpr hmem)]
    · rw [decide_eq_true hmem]
      exact Bool.eq_true_of_not_eq_false (mt hfails.mp hmem)
  refine ⟨{ generator with entries := (addLoop addr generator.entries).2 }, ?_, hkeeps.test, ?_,
    hseparated, fun pos => ?_⟩
  · simpa [Ipv4AddressGenerator.addAllocated, hkeeps.test, hres] using hne
  · exact forall_mem_append.mpr ⟨hkeeps.addable, forall_mem_singleton.mpr haddable⟩
  · rw [hcov, hkeeps.covers]
    simp [or_and_right, exists_or, or_comm, eq_comm]

theorem Keeps.isAddressAllocated (hne : addr ≠ 0) :
    generator.isAddressAllocated addr = some (decide (addr ∉ addrs)) := by
  have hany : (generator.entries.any fun i => decide (i.addrLow ≤ addr ∧ addr ≤ i.addrHigh)) =
      true ↔ addr ∈ addrs := by
    rw [← hkeeps.covers_iff, Interval.Covers]
    simp [contains_range]
  rw [Ipv4AddressGenerator.isAddressAllocated, if_neg hne, Option.some_inj, Bool.eq_iff_iff,
    Bool.not_eq_true', ← Bool.not_eq_true, hany, decide_eq_true_eq]

end

theorem keeps_addAll {addrs : List Ipv4Address} (haddable : ∀ addr ∈ addrs, Addable addr) :
    ∃ generator, Ipv4AddressGenerator.addAll addrs = some generator ∧ Keeps addrs generator := by
  induction addrs using reverseRecOn with
  | nil => exact ⟨_, rfl, rfl, nofun, trivial, by simp⟩
  | append_singleton addrs addr ih =>
    obtain ⟨hpre, hlast⟩ := forall_mem_append.mp haddable
    obtain ⟨generator, hall, hkeeps⟩ := ih hpre
    obtain ⟨next, hadded, hnext⟩ := hkeeps.step (forall_mem_singleton.mp hlast)
    refine ⟨next, ?_, hnext⟩
    rw [Ipv4AddressGenerator.addAll, foldlM_append, ← Ipv4AddressGenerator.addAll, hall]
    simp [hadded]

/-! ## The set -/

structure ExactSet (addrs : List Ipv4Address) (generator : Ipv4AddressGenerator) : Prop where
  added : ∀ addr, Addable addr → ∃ next, generator.addAllocated addr =
    some (decide (addr ∉ addrs), next) ∧ Ipv4AddressGenerator.addAll (addrs ++ [addr]) = some next
  separated : Interval.Separated 1 (generator.entries.map Entry.range)
  covers : ∀ pos, Interval.Covers (generator.entries.map Entry.range) pos ↔
    ∃ addr ∈ addrs, addr.toNat = pos
  allocated : ∀ addr, addr ≠ 0 → generator.isAddressAllocated addr = some (decide (addr ∉ addrs))

def NetworkExact (addrs : List Ipv4Address) (generator : Ipv4AddressGenerator)
    (address : Ipv4Address) (mask : Ipv4Mask) : Prop :=
  ∃ free, generator.isNetworkAllocated address mask = some free ∧
    (free = true ↔ ∀ addr ∈ addrs, addr.combineMask mask ≠ address)

theorem Keeps.exactSet {addrs : List Ipv4Address} {generator : Ipv4AddressGenerator}
    (hkeeps : Keeps addrs generator) (hall : Ipv4AddressGenerator.addAll addrs = some generator) :
    ExactSet addrs generator where
  added addr haddable := by
    obtain ⟨next, hadded, -⟩ := hkeeps.step haddable
    refine ⟨next, hadded, ?_⟩
    rw [Ipv4AddressGenerator.addAll, foldlM_append, ← Ipv4AddressGenerator.addAll, hall]
    simp [hadded]
  separated := hkeeps.separated
  covers := hkeeps.covers
  allocated _ hne := hkeeps.isAddressAllocated hne

/-- A range that begins below a network and ends above it. -/
def Spans (entry : Entry) (address : Ipv4Address) (shift : Nat) : Prop :=
  entry.addrLow < address ∧ lastOf address shift < entry.addrHigh.toNat

section

variable {addrs : List Ipv4Address} {generator : Ipv4AddressGenerator} {address : Ipv4Address}
  {shift : Nat} (hkeeps : Keeps addrs generator)
  (hnetwork : address = address.combineMask (BitVec.allOnes 32 <<< shift))
include hkeeps hnetwork

theorem Keeps.meets_iff :
    (∃ addr ∈ addrs, addr.combineMask (BitVec.allOnes 32 <<< shift) = address) ↔
      ∃ entry ∈ generator.entries,
        entry.addrLow.toNat ≤ lastOf address shift ∧ address.toNat ≤ entry.addrHigh.toNat := by
  constructor
  · rintro ⟨addr, hmem, hsame⟩
    obtain ⟨hlow, hhigh⟩ := (combineMask_eq_iff hnetwork).mp hsame.symm
    obtain ⟨range, hrng, hcontains⟩ := hkeeps.covers_iff.mpr hmem
    obtain ⟨entry, hent, rfl⟩ := mem_map.mp hrng
    exact ⟨entry, hent, le_trans hcontains.1 hhigh,
      le_trans hlow (Nat.le_of_lt_succ hcontains.2)⟩
  · rintro ⟨entry, hent, hlow, hhigh⟩
    have hmem : entry.range ∈ generator.entries.map Entry.range := mem_map_of_mem hent
    have hsome := (hkeeps.separated.of_mem hmem).2
    have hlast : address.toNat ≤ lastOf address shift := by
      have hpos := Nat.two_pow_pos shift
      rw [lastOf]
      omega
    obtain ⟨addr, hadded, hsame⟩ := (hkeeps.covers (max entry.addrLow.toNat address.toNat)).mp
      ⟨entry.range, hmem, Nat.le_max_left _ _,
        Nat.max_lt.mpr ⟨hsome, Nat.lt_succ_of_le hhigh⟩⟩
    refine ⟨addr, hadded, ((combineMask_eq_iff hnetwork).mpr ?_).symm⟩
    rw [hsame]
    exact ⟨Nat.le_max_right _ _, Nat.max_le.mpr ⟨hlow, hlast⟩⟩

theorem Keeps.networkExact_iff :
    NetworkExact addrs generator address (BitVec.allOnes 32 <<< shift) ↔
      ∀ entry ∈ generator.entries, ¬ Spans entry address shift := by
  have hmeets := hkeeps.meets_iff hnetwork
  have hpos := Nat.two_pow_pos shift
  have hsome : ∀ entry ∈ generator.entries, entry.addrLow.toNat < entry.addrHigh.toNat + 1 :=
    fun _ hent => (hkeeps.separated.of_mem (mem_map_of_mem hent)).2
  have hends : (generator.entries.any fun i =>
      decide (address = i.addrLow.combineMask (BitVec.allOnes 32 <<< shift) ∨
        address = i.addrHigh.combineMask (BitVec.allOnes 32 <<< shift))) = true ↔
      ∃ entry ∈ generator.entries, ∃ pos, entry.range.Contains pos ∧
        address.toNat ≤ pos ∧ pos ≤ lastOf address shift ∧
          (pos = entry.addrLow.toNat ∨ pos = entry.addrHigh.toNat) := by
    simp only [any_eq_true, decide_eq_true_eq, combineMask_eq_iff hnetwork]
    refine exists_congr fun entry => and_congr_right fun hent => ?_
    have hless := hsome entry hent
    constructor
    · rintro (hlow | hhigh)
      · exact ⟨_, ⟨le_rfl, hless⟩, hlow.1, hlow.2, .inl rfl⟩
      · exact ⟨_, ⟨Nat.le_of_lt_succ hless, Nat.lt_succ_self _⟩, hhigh.1, hhigh.2, .inr rfl⟩
    · rintro ⟨pos, -, hlow, hhigh, rfl | rfl⟩
      · exact .inl ⟨hlow, hhigh⟩
      · exact .inr ⟨hlow, hhigh⟩
  have hexact : NetworkExact addrs generator address (BitVec.allOnes 32 <<< shift) ↔
      ((generator.entries.any fun i =>
        decide (address = i.addrLow.combineMask (BitVec.allOnes 32 <<< shift) ∨
          address = i.addrHigh.combineMask (BitVec.allOnes 32 <<< shift))) = true ↔
        ∃ addr ∈ addrs, addr.combineMask (BitVec.allOnes 32 <<< shift) = address) := by
    rw [NetworkExact, Ipv4AddressGenerator.isNetworkAllocated, if_neg (not_not.mpr hnetwork)]
    generalize any _ _ = met
    cases met with
    | false => simp
    | true => simp
  rw [hexact, hends, hmeets]
  constructor
  · rintro hsame entry hent ⟨hlow, hhigh⟩
    rw [BitVec.lt_def] at hlow
    rw [lastOf] at hsame hhigh
    obtain ⟨other, hother, pos, hcontains, hfrom, hto, hend⟩ :=
      hsame.mpr ⟨entry, hent, by omega, by omega⟩
    obtain rfl := eq_of_overlap hkeeps.separated hent hother
      ⟨show entry.addrLow.toNat ≤ pos by omega,
        show pos < entry.addrHigh.toNat + 1 by omega⟩ hcontains
    omega
  · intro hfree
    refine exists_congr fun entry => and_congr_right fun hent => ?_
    have hspans := hfree entry hent
    have hless := hsome entry hent
    rw [Spans, BitVec.lt_def] at hspans
    rw [lastOf] at hspans ⊢
    constructor
    · rintro ⟨pos, hcontains, hfrom, hto, -⟩
      exact ⟨le_trans hcontains.1 hto, le_trans hfrom (Nat.le_of_lt_succ hcontains.2)⟩
    · rintro ⟨hlow, hhigh⟩
      by_cases hinside : address.toNat ≤ entry.addrLow.toNat
      · exact ⟨_, ⟨le_rfl, hless⟩, hinside, hlow, .inl rfl⟩
      · exact ⟨_, ⟨Nat.le_of_lt_succ hless, Nat.lt_succ_self _⟩, hhigh, by omega, .inr rfl⟩

end

/-- The generator is exactly the set of what was added, and it is right about a network exactly if
no range begins below it and ends above it. -/
theorem allocation_exact_iff {addrs : List Ipv4Address} (haddable : ∀ addr ∈ addrs, Addable addr)
    {address : Ipv4Address} {shift : Nat}
    (hnetwork : address = address.combineMask (BitVec.allOnes 32 <<< shift)) :
    ∃ generator,
      Ipv4AddressGenerator.addAll addrs = some generator ∧ ExactSet addrs generator ∧
        (NetworkExact addrs generator address (BitVec.allOnes 32 <<< shift) ↔
          ∀ entry ∈ generator.entries, ¬ Spans entry address shift) := by
  obtain ⟨generator, hall, hkeeps⟩ := keeps_addAll haddable
  exact ⟨generator, hall, hkeeps.exactSet hall, hkeeps.networkExact_iff hnetwork⟩

/-- Three addresses, one of them twice: their own network is met, the one behind it is free. -/
theorem allocation_exact_three :
    ∃ generator, Ipv4AddressGenerator.addAll [3, 1, 3, 2] = some generator ∧
      ExactSet [3, 1, 3, 2] generator ∧
      NetworkExact [3, 1, 3, 2] generator 0 (BitVec.allOnes 32 <<< 3) ∧
      NetworkExact [3, 1, 3, 2] generator 8 (BitVec.allOnes 32 <<< 3) := by
  have haddable : ∀ addr ∈ [3, 1, 3, 2], Addable addr := by simp [Addable]
  have hentries : ∀ generator, Ipv4AddressGenerator.addAll [3, 1, 3, 2] = some generator →
      generator.entries = [⟨1, 2⟩, ⟨3, 3⟩] := by
    rintro generator ⟨⟩
    decide +kernel
  obtain ⟨generator, hall, hset, hown⟩ :=
    @allocation_exact_iff _ haddable 0 3 (by decide)
  obtain ⟨other, hother, -, hbehind⟩ := @allocation_exact_iff _ haddable 8 3 (by decide)
  obtain rfl := Option.some.inj (hall.symm.trans hother)
  rw [hentries generator hall, forall_mem_cons, forall_mem_singleton] at hown hbehind
  refine ⟨generator, hall, hset, hown.mpr ⟨?_, ?_⟩, hbehind.mpr ⟨?_, ?_⟩⟩
  · exact fun hspans => absurd hspans.1 (by decide)
  · exact fun hspans => absurd hspans.1 (by decide)
  · exact fun hspans => absurd hspans.2 (by decide)
  · exact fun hspans => absurd hspans.2 (by decide)

/-- With the addresses from 1 to 4 added, the network of 2 and 3 is reported as free. -/
theorem not_networkExact_four :
    ¬ ∃ generator,
      Ipv4AddressGenerator.addAll [1, 2, 3, 4] = some generator ∧
        NetworkExact [1, 2, 3, 4] generator 2 (BitVec.allOnes 32 <<< 1) := by
  rintro ⟨generator, hall, free, hfree, hexact⟩
  cases hall
  cases hfree
  exact hexact.mp (by decide) 2 (by decide) (by decide)

end HomaSird.Internet
