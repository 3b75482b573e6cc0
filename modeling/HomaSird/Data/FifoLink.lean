import Mathlib.Algebra.Order.Monoid.Canonical.Defs
import Mathlib.Data.List.Induction

/-! # A link that serves jobs in order and never idles while one waits

A schedule gives every job the moment its service starts. It is first come first served when no
service starts before an earlier job has finished, and work conserving when a job waits only while
the link serves another. This leaves one schedule, whose end a recursion over the jobs computes.
-/

namespace HomaSird.FifoLink

open List

/-- An item handed to the link, and how long the link needs for it. -/
structure Job (Item Time : Type*) where
  item : Item
  arrival : Time
  service : Time

structure Served (Item Time : Type*) extends Job Item Time where
  start : Time

variable {Item Time : Type*} [AddCommMonoid Time]

def Served.finish (job : Served Item Time) : Time := job.start + job.service

/-- When the last job has finished; a link without jobs is free from its epoch on. -/
def lastFinish (epoch : Time) (served : List (Served Item Time)) : Time :=
  (served.getLast?.map Served.finish).getD epoch

@[simp] theorem lastFinish_append (epoch : Time) (served : List (Served Item Time))
    (job : Served Item Time) : lastFinish epoch (served ++ [job]) = job.finish := by
  simp [lastFinish]

variable [LinearOrder Time]

/-- The schedule of a work-conserving first-come-first-served link. -/
structure Serves (served : List (Served Item Time)) : Prop where
  ready : ∀ job ∈ served, job.arrival ≤ job.start
  inOrder : served.Pairwise fun earlier later => earlier.finish ≤ later.start
  working : ∀ job ∈ served, ∀ moment, job.arrival ≤ moment → moment < job.start →
    ∃ other ∈ served, other.start ≤ moment ∧ moment < other.finish

theorem serves_nil : Serves ([] : List (Served Item Time)) where
  ready _ hmem := (not_mem_nil hmem).elim
  inOrder := .nil
  working _ hmem := (not_mem_nil hmem).elim

variable [CanonicallyOrderedAdd Time]
  {served other : List (Served Item Time)}
  {job last : Served Item Time} {epoch moment : Time}

theorem Served.start_le_finish (job : Served Item Time) : job.start ≤ job.finish :=
  le_self_add

theorem Serves.finish_le (hserves : Serves served)
    (hmem : job ∈ served) : job.finish ≤ lastFinish epoch served := by
  induction served using reverseRecOn with
  | nil => cases hmem
  | append_singleton before last _ =>
    rw [lastFinish_append]
    rcases mem_append.mp hmem with hpre | hlast
    · have hord := (pairwise_append.mp hserves.inOrder).2.2 job hpre last
        (mem_singleton_self last)
      exact hord.trans last.start_le_finish
    · rw [mem_singleton.mp hlast]

theorem Serves.lastFinish_le_iff (hserves : Serves served) (hepoch : epoch ≤ moment) :
    lastFinish epoch served ≤ moment ↔ ∀ job ∈ served, job.finish ≤ moment := by
  constructor
  · intro hfree job hmem
    exact (hserves.finish_le hmem).trans hfree
  · intro hdone
    induction served using reverseRecOn with
    | nil => exact hepoch
    | append_singleton before last _ =>
      rw [lastFinish_append]
      exact hdone last (by simp)

theorem Serves.init (hserves : Serves (served ++ [last])) : Serves served where
  ready job hmem := hserves.ready job (mem_append_left _ hmem)
  inOrder := (pairwise_append.mp hserves.inOrder).1
  working job hmem moment harr hwaits := by
    obtain ⟨other, hother, hstart, hbusy⟩ :=
      hserves.working job (mem_append_left _ hmem) moment harr hwaits
    rcases mem_append.mp hother with hpre | hlast
    · exact ⟨other, hpre, hstart, hbusy⟩
    · -- the last job starts after the waiting one has finished
      obtain rfl := mem_singleton.mp hlast
      have hord := (pairwise_append.mp hserves.inOrder).2.2 job hmem other hlast
      have hlater := (hwaits.trans_le job.start_le_finish).trans_le hord
      exact absurd hstart (not_le.mpr hlater)

theorem Serves.start_eq (hserves : Serves (served ++ [last]))
    (hepoch : epoch ≤ last.arrival) : last.start = max (lastFinish epoch served) last.arrival := by
  have hlast : last ∈ served ++ [last] := by simp
  have hready := hserves.ready last hlast
  have hfree : lastFinish epoch served ≤ last.start := by
    rw [hserves.init.lastFinish_le_iff (hepoch.trans hready)]
    intro job hmem
    exact (pairwise_append.mp hserves.inOrder).2.2 job hmem last (by simp)
  apply le_antisymm
  · -- otherwise the link would serve something when all before has finished
    by_contra hlate
    obtain ⟨other, hother, hstart, hbusy⟩ := hserves.working last hlast
      (max (lastFinish epoch served) last.arrival) (le_max_right _ _) (not_le.mp hlate)
    rcases mem_append.mp hother with hpre | hself
    · have hdone : other.finish ≤ lastFinish epoch served := hserves.init.finish_le hpre
      exact absurd hbusy (not_lt.mpr (hdone.trans (le_max_left _ _)))
    · rw [mem_singleton.mp hself] at hstart
      exact hlate hstart
  · exact max_le hfree hready

theorem Serves.unique (hserves : Serves served)
    (hother : Serves other) (hjobs : served.map Served.toJob = other.map Served.toJob)
    (hepoch : ∀ job ∈ served, epoch ≤ job.arrival) : served = other := by
  induction served using reverseRecOn generalizing other with
  | nil => exact (map_eq_nil_iff.mp hjobs.symm).symm
  | append_singleton before last ih =>
    rw [map_append, map_singleton] at hjobs
    obtain ⟨first, final, rfl, hfst, hfinal⟩ := map_eq_append_iff.mp hjobs.symm
    obtain ⟨twin, rfl, htwin⟩ := map_eq_singleton_iff.mp hfinal
    have hpre := ih hserves.init hother.init hfst.symm
      fun job hmem => hepoch job (mem_append_left _ hmem)
    have harr : twin.arrival = last.arrival := congrArg Job.arrival htwin
    have hlast := hserves.start_eq (hepoch last (by simp))
    have htwinStart := hother.start_eq (harr ▸ hepoch last (by simp))
    have hstart : twin.start = last.start := by
      rw [hlast, htwinStart, harr, hpre]
    obtain ⟨lastJob, lastStart⟩ := last
    obtain ⟨twinJob, twinStart⟩ := twin
    obtain rfl : twinJob = lastJob := htwin
    obtain rfl : twinStart = lastStart := hstart
    rw [hpre]

theorem Serves.extend (hserves : Serves served) {added : Job Item Time}
    (hlatest : ∀ job ∈ served, job.arrival ≤ added.arrival) (hepoch : epoch ≤ added.arrival) :
    Serves (served ++ [⟨added, max (lastFinish epoch served) added.arrival⟩]) where
  ready job hmem := by
    rcases mem_append.mp hmem with hpre | hlast
    · exact hserves.ready job hpre
    · rw [mem_singleton.mp hlast]
      exact le_max_right _ _
  inOrder := by
    refine pairwise_append.mpr ⟨hserves.inOrder, pairwise_singleton _ _, ?_⟩
    intro job hmem final hfinal
    rw [mem_singleton.mp hfinal]
    exact (hserves.finish_le hmem).trans (le_max_left _ _)
  working job hmem moment harr hwaits := by
    suffices hbusy : ∃ other ∈ served, other.start ≤ moment ∧ moment < other.finish by
      obtain ⟨other, hother, hserved⟩ := hbusy
      exact ⟨other, mem_append_left _ hother, hserved⟩
    rcases mem_append.mp hmem with hpre | hlast
    · exact hserves.working job hpre moment harr hwaits
    · rw [mem_singleton.mp hlast] at harr hwaits
      have hearly : moment < lastFinish epoch served :=
        (lt_max_iff.mp hwaits).resolve_right (not_lt.mpr harr)
      induction served using reverseRecOn with
      | nil => exact absurd (hepoch.trans harr) (not_le.mpr hearly)
      | append_singleton before final _ =>
        -- the job before is in service at that moment, or waits like this one
        rw [lastFinish_append] at hearly
        have hfinal : final ∈ before ++ [final] := by simp
        rcases le_or_gt final.start moment with hstart | hwait
        · exact ⟨final, hfinal, hstart, hearly⟩
        · exact hserves.working final hfinal moment ((hlatest final hfinal).trans harr)
            hwait

end HomaSird.FifoLink
