import Mathlib.Data.List.Nodup

/-! # Passing on in order what comes out of order

Entries have positions and are accepted in any order. Those that wait are held by position; a
start moves forward, one position at a time or to a limit, and what it passes is forwarded.
-/

namespace HomaSird

open List

universe u

/-- What has happened so far. Positions below `passed` are no longer waited for. -/
structure ReorderBuffer (Entry : Type u) where
  start : Nat
  passed : Nat
  held : List (Nat × Entry)
  accepted : List (Nat × Entry)
  forwarded : List (Nat × Entry)

namespace ReorderBuffer

variable {Entry : Type u}

def initial (start : Nat) : ReorderBuffer Entry := ⟨start, start, [], [], []⟩

/-- An entry goes where its position is, unless the position is taken. -/
def insertAt (pos : Nat) (entry : Entry) : List (Nat × Entry) → List (Nat × Entry)
  | [] => [(pos, entry)]
  | first :: rest =>
    if pos < first.1 then (pos, entry) :: first :: rest
    else if first.1 < pos then first :: insertAt pos entry rest
    else first :: rest

def drainFrom : Nat → List (Nat × Entry) → Nat × List (Nat × Entry) × List (Nat × Entry)
  | start, [] => (start, [], [])
  | start, first :: rest =>
    if first.1 = start then
      let (start, released, kept) := drainFrom (start + 1) rest
      (start, first :: released, kept)
    else (start, [], first :: rest)

def accept (buf : ReorderBuffer Entry) (pos : Nat) (entry : Entry) :
    ReorderBuffer Entry :=
  { buf with
    held := insertAt pos entry buf.held
    accepted := buf.accepted ++ [(pos, entry)] }

def offer (buf : ReorderBuffer Entry) (pos : Nat) (entry : Entry) : ReorderBuffer Entry :=
  if ∃ other ∈ buf.held, other.1 = pos then buf else buf.accept pos entry

def moveTo (buf : ReorderBuffer Entry) (limit : Nat) : ReorderBuffer Entry :=
  { buf with
    start := limit
    passed := limit
    held := buf.held.dropWhile fun entry => entry.1 < limit
    forwarded := buf.forwarded ++ buf.held.takeWhile fun entry => entry.1 < limit }

def drain (buf : ReorderBuffer Entry) : ReorderBuffer Entry :=
  let (start, released, kept) := drainFrom buf.start buf.held
  { buf with start, held := kept, forwarded := buf.forwarded ++ released }

/-! ## Sorted entries -/

def Sorted (entries : List (Nat × Entry)) : Prop :=
  entries.Pairwise fun first second => first.1 < second.1

variable {entries held : List (Nat × Entry)} {pos start limit : Nat} {entry : Entry}
  {other : Nat × Entry}

theorem mem_insertAt (hnew : ∀ other ∈ entries, other.1 ≠ pos) :
    other ∈ insertAt pos entry entries ↔ other = (pos, entry) ∨ other ∈ entries := by
  induction entries with
  | nil => rw [insertAt, mem_singleton, mem_nil_iff, or_false]
  | cons first rest ih =>
    rw [insertAt]
    split
    · exact mem_cons
    next hle =>
      have hne := hnew first mem_cons_self
      rw [if_pos (by omega), mem_cons, ih fun other hmem => hnew other (.tail _ hmem), mem_cons]
      exact or_left_comm

section

variable (hsort : Sorted entries)
include hsort

theorem sorted_insertAt
    (hnew : ∀ other ∈ entries, other.1 ≠ pos) : Sorted (insertAt pos entry entries) := by
  induction entries with
  | nil => exact pairwise_singleton _ _
  | cons first rest ih =>
    obtain ⟨hfst, hrest⟩ := pairwise_cons.mp hsort
    have hnewRest := fun other hmem => hnew other (.tail _ hmem)
    rw [insertAt]
    split
    next hlt =>
      refine pairwise_cons.mpr ⟨fun other hother => ?_, hsort⟩
      rcases mem_cons.mp hother with rfl | hmem
      · exact hlt
      · exact Nat.lt_trans hlt (hfst other hmem)
    next hle =>
      have hne := hnew first mem_cons_self
      rw [if_pos (by omega)]
      refine pairwise_cons.mpr ⟨fun other hother => ?_, ih hrest hnewRest⟩
      rcases (mem_insertAt hnewRest).mp hother with rfl | hmem
      · dsimp only
        omega
      · exact hfst other hmem

theorem insertAt_of_mem
    (hmem : ∃ other ∈ entries, other.1 = pos) : insertAt pos entry entries = entries := by
  induction entries with
  | nil => exact absurd hmem (by simp)
  | cons first rest ih =>
    obtain ⟨hfst, hrest⟩ := pairwise_cons.mp hsort
    obtain ⟨other, hother, rfl⟩ := hmem
    rw [insertAt]
    rcases mem_cons.mp hother with rfl | hlater
    · rw [if_neg (Nat.lt_irrefl _), if_neg (Nat.lt_irrefl _)]
    · have hlt := hfst other hlater
      rw [if_neg (by omega), if_pos hlt, ih hrest ⟨other, hlater, rfl⟩]

theorem mem_takeWhile_below {other : Nat × Entry} :
    other ∈ entries.takeWhile (fun entry => entry.1 < limit) ↔
      other ∈ entries ∧ other.1 < limit := by
  induction entries with
  | nil => simp
  | cons first rest ih =>
    obtain ⟨hfst, hrest⟩ := pairwise_cons.mp hsort
    by_cases hlt : first.1 < limit
    · rw [takeWhile_cons_of_pos (by simpa using hlt), mem_cons, ih hrest,
        mem_cons]
      constructor
      · rintro (rfl | ⟨hmem, hbelow⟩)
        · exact ⟨.inl rfl, hlt⟩
        · exact ⟨.inr hmem, hbelow⟩
      · rintro ⟨rfl | hmem, hbelow⟩
        · exact .inl rfl
        · exact .inr ⟨hmem, hbelow⟩
    · rw [takeWhile_cons_of_neg (by simpa using hlt)]
      refine ⟨(fun hnone => nomatch hnone), fun ⟨hmem, hbelow⟩ => absurd hbelow ?_⟩
      rcases mem_cons.mp hmem with rfl | hlater
      · exact hlt
      · have hafter := hfst other hlater
        omega

theorem mem_dropWhile_below {other : Nat × Entry} :
    other ∈ entries.dropWhile (fun entry => entry.1 < limit) ↔
      other ∈ entries ∧ limit ≤ other.1 := by
  induction entries with
  | nil => simp
  | cons first rest ih =>
    obtain ⟨hfst, hrest⟩ := pairwise_cons.mp hsort
    by_cases hlt : first.1 < limit
    · rw [dropWhile_cons_of_pos (by simpa using hlt), ih hrest, mem_cons]
      constructor
      · exact fun ⟨hmem, hle⟩ => ⟨.inr hmem, hle⟩
      · rintro ⟨rfl | hmem, hle⟩
        · omega
        · exact ⟨hmem, hle⟩
    · rw [dropWhile_cons_of_neg (by simpa using hlt)]
      refine ⟨fun hmem => ⟨hmem, ?_⟩, And.left⟩
      rcases mem_cons.mp hmem with rfl | hlater
      · omega
      · have hafter := hfst other hlater
        omega

/-- What is released fills the positions from the old start to the new one, the rest lies behind.
-/
theorem drainFrom_spec (hahead : ∀ other ∈ entries, start ≤ other.1) :
    ∃ next released kept, drainFrom start entries = (next, released, kept) ∧ entries = released ++
    kept ∧ start ≤ next ∧ (∀ other ∈ released, other.1 < next) ∧ (∀ other ∈ kept, next < other.1) ∧
    ∀ n, start ≤ n → n < next → ∃ other ∈ released, other.1 = n := by
  induction entries generalizing start with
  | nil =>
    exact ⟨start, [], [], rfl, rfl, Nat.le_refl _, (fun _ hnone => nomatch hnone),
      (fun _ hnone => nomatch hnone), fun n hle hlt => absurd hlt (Nat.not_lt.mpr hle)⟩
  | cons first rest ih =>
    obtain ⟨hfst, hrest⟩ := pairwise_cons.mp hsort
    have hle := hahead first mem_cons_self
    by_cases hstart : first.1 = start
    · obtain ⟨next, released, kept, hdrain, rfl, hmove, hbelow, habove, hfill⟩ :=
        @ih (start + 1) hrest fun other hmem => hstart ▸ hfst other hmem
      refine ⟨next, first :: released, kept, ?_, rfl, by omega,
        forall_mem_cons.mpr ⟨by omega, hbelow⟩, habove, fun n hn hlt => ?_⟩
      · rw [drainFrom, if_pos hstart, hdrain]
      · by_cases hhere : n = start
        · exact ⟨first, mem_cons_self, hstart.trans hhere.symm⟩
        · obtain ⟨other, hother, hpos⟩ := hfill n (by omega) hlt
          exact ⟨other, mem_cons_of_mem _ hother, hpos⟩
    · refine ⟨start, [], first :: rest, ?_, rfl, Nat.le_refl _,
        (fun _ hnone => nomatch hnone), fun other hother => ?_,
        fun n hn hlt => absurd hlt (Nat.not_lt.mpr hn)⟩
      · rw [drainFrom, if_neg hstart]
      · rcases mem_cons.mp hother with rfl | hlater
        · omega
        · have hafter := hfst other hlater
          omega

end

/-! ## What stays true -/

/-- Everything accepted is forwarded in order or held, and the positions from the last move of the
start on were filled one by one. -/
structure InOrder (buf : ReorderBuffer Entry) : Prop where
  sorted : Sorted buf.held
  ahead : ∀ other ∈ buf.held, buf.start ≤ other.1
  ordered : Sorted buf.forwarded
  behind : ∀ other ∈ buf.forwarded, other.1 < buf.start
  settled : ∀ other, other ∈ buf.accepted ↔ other ∈ buf.forwarded ∨ other ∈ buf.held
  once : (buf.accepted.map Prod.fst).Nodup
  passed_le : buf.passed ≤ buf.start
  filled : ∀ n, buf.passed ≤ n → n < buf.start → ∃ other ∈ buf.forwarded, other.1 = n

variable {buf : ReorderBuffer Entry}

theorem InOrder.initial (start : Nat) : InOrder (initial start : ReorderBuffer Entry) where
  sorted := .nil
  ahead := (fun _ hnone => nomatch hnone)
  ordered := .nil
  behind := (fun _ hnone => nomatch hnone)
  settled := fun _ => ⟨(fun hnone => nomatch hnone), fun hboth => hboth.elim id id⟩
  once := nodup_nil
  passed_le := Nat.le_refl _
  filled := fun _ hle hlt => absurd hlt (Nat.not_lt.mpr hle)

theorem InOrder.accept (hbuf : InOrder buf) (hpos : buf.start ≤ pos)
    (hnew : ∀ other ∈ buf.held, other.1 ≠ pos) :
    InOrder (buf.accept pos entry) where
  sorted := sorted_insertAt hbuf.sorted hnew
  ahead other hother := by
    rcases (mem_insertAt hnew).mp hother with rfl | hmem
    · exact hpos
    · exact hbuf.ahead other hmem
  ordered := hbuf.ordered
  behind := hbuf.behind
  settled other := by
    change other ∈ buf.accepted ++ [(pos, entry)] ↔
      other ∈ buf.forwarded ∨ other ∈ insertAt pos entry buf.held
    rw [mem_append, mem_singleton, hbuf.settled, mem_insertAt hnew, or_assoc]
    exact or_congr_right or_comm
  once := by
    change ((buf.accepted ++ [(pos, entry)]).map Prod.fst).Nodup
    rw [map_append, nodup_append]
    refine ⟨hbuf.once, pairwise_singleton _ _, fun taken htaken new hnewPosition heq => ?_⟩
    obtain ⟨other, hother, rfl⟩ := mem_map.mp htaken
    obtain rfl : new = pos := by simpa using hnewPosition
    rcases (hbuf.settled other).mp hother with hforw | hheld
    · have hlt := hbuf.behind other hforw
      omega
    · exact hnew other hheld heq
  passed_le := hbuf.passed_le
  filled := hbuf.filled

theorem offer_held (hsort : Sorted buf.held) :
    (buf.offer pos entry).held = insertAt pos entry buf.held := by
  rw [offer]
  split
  next hmem => rw [insertAt_of_mem hsort hmem]
  · rfl

@[simp] theorem offer_start : (buf.offer pos entry).start = buf.start := by
  rw [offer]
  split <;> rfl

@[simp] theorem offer_forwarded : (buf.offer pos entry).forwarded = buf.forwarded := by
  rw [offer]
  split <;> rfl

theorem mem_offer_held (hsort : Sorted buf.held) (hmem : other ∈ (buf.offer pos entry).held) :
    other = (pos, entry) ∨ other ∈ buf.held := by
  by_cases htaken : ∃ other ∈ buf.held, other.1 = pos
  · rw [offer_held hsort, insertAt_of_mem hsort htaken] at hmem
    exact .inr hmem
  · rw [offer_held hsort] at hmem
    exact (mem_insertAt fun other hother heq => htaken ⟨other, hother, heq⟩).mp hmem

@[simp] theorem offer_passed : (buf.offer pos entry).passed = buf.passed := by
  rw [offer]
  split <;> rfl

theorem offer_accepted :
    (buf.offer pos entry).accepted =
      if ¬∃ other ∈ buf.held, other.1 = pos then buf.accepted ++ [(pos, entry)]
      else buf.accepted := by
  rw [offer]
  split
  · rfl
  · rfl

theorem InOrder.offer (hbuf : InOrder buf) (hpos : buf.start ≤ pos) :
    InOrder (buf.offer pos entry) := by
  rw [ReorderBuffer.offer]
  split
  · exact hbuf
  next hnew => exact hbuf.accept hpos fun other hmem heq => hnew ⟨other, hmem, heq⟩

theorem InOrder.moveTo (hbuf : InOrder buf) (hlim : buf.start ≤ limit) :
    InOrder (buf.moveTo limit) where
  sorted := hbuf.sorted.sublist (dropWhile_sublist _)
  ahead other hother := ((mem_dropWhile_below hbuf.sorted).mp hother).2
  ordered := by
    refine pairwise_append.mpr ⟨hbuf.ordered,
      hbuf.sorted.sublist (takeWhile_sublist _), fun first hfst second hsnd => ?_⟩
    have hbehind := hbuf.behind first hfst
    have hahead := hbuf.ahead second ((mem_takeWhile_below hbuf.sorted).mp hsnd).1
    omega
  behind other hother := by
    rcases mem_append.mp hother with hold | hnew
    · exact Nat.lt_of_lt_of_le (hbuf.behind other hold) hlim
    · exact ((mem_takeWhile_below hbuf.sorted).mp hnew).2
  settled other := by
    change other ∈ buf.accepted ↔ other ∈ buf.forwarded ++ (buf.held.takeWhile
      fun entry => entry.1 < limit) ∨ other ∈ buf.held.dropWhile fun entry => entry.1 < limit
    rw [hbuf.settled, mem_append, or_assoc]
    refine or_congr_right ?_
    rw [← mem_append, takeWhile_append_dropWhile]
  once := hbuf.once
  passed_le := Nat.le_refl _
  filled _ hle hlt := absurd hlt (Nat.not_lt.mpr hle)

theorem InOrder.drain (hbuf : InOrder buf) :
    InOrder buf.drain ∧ ∀ other ∈ buf.drain.held, buf.drain.start < other.1 := by
  obtain ⟨next, released, kept, hdrain, hheld, hmove, hbelow, habove, hfill⟩ :=
    drainFrom_spec hbuf.sorted hbuf.ahead
  have hdrained : buf.drain = { buf with
      start := next, held := kept, forwarded := buf.forwarded ++ released } := by
    rw [ReorderBuffer.drain, hdrain]
  have hsort := hbuf.sorted
  rw [hheld] at hsort
  obtain ⟨hrel, hkept, -⟩ := pairwise_append.mp hsort
  rw [hdrained]
  refine ⟨⟨hkept, fun other hother => Nat.le_of_lt (habove other hother), ?_, ?_, fun other => ?_,
    hbuf.once, Nat.le_trans hbuf.passed_le hmove, fun n hn hlt => ?_⟩, habove⟩
  · refine pairwise_append.mpr
      ⟨hbuf.ordered, hrel, fun first hfst second hsnd => ?_⟩
    have hbehind := hbuf.behind first hfst
    have hahead := hbuf.ahead second (hheld ▸ mem_append_left _ hsnd)
    omega
  · intro other hother
    rcases mem_append.mp hother with hold | hnew
    · exact Nat.lt_of_lt_of_le (hbuf.behind other hold) hmove
    · exact hbelow other hnew
  · change other ∈ buf.accepted ↔ other ∈ buf.forwarded ++ released ∨ other ∈ kept
    rw [hbuf.settled, hheld, mem_append, mem_append, or_assoc]
  · change n < next at hlt
    rcases Nat.lt_or_ge n buf.start with hpre | hafter
    · obtain ⟨other, hother, hpos⟩ := hbuf.filled n hn hpre
      exact ⟨other, mem_append_left _ hother, hpos⟩
    · obtain ⟨other, hother, hpos⟩ := hfill n hafter hlt
      exact ⟨other, mem_append_right _ hother, hpos⟩

theorem InOrder.drain_bounds (hbuf : InOrder buf) :
    buf.start ≤ buf.drain.start ∧ (∀ other ∈ buf.drain.held, other ∈ buf.held) ∧
      ∀ bound,
        buf.start ≤ bound → (∀ other ∈ buf.held, other.1 < bound) → buf.drain.start ≤ bound := by
  obtain ⟨next, released, kept, hdrain, hheld, hmove, -, -, hfill⟩ :=
    drainFrom_spec hbuf.sorted hbuf.ahead
  have hdrained : buf.drain = { buf with
      start := next, held := kept, forwarded := buf.forwarded ++ released } := by
    rw [ReorderBuffer.drain, hdrain]
  rw [hdrained]
  refine ⟨hmove, fun other hother => hheld ▸ mem_append_right _ hother,
    fun bound hstart hbelow => ?_⟩
  rcases Nat.eq_or_lt_of_le hmove with heq | hlt
  · exact heq ▸ hstart
  · -- the last position passed was held
    obtain ⟨other, hother, hpos⟩ := hfill (next - 1) (by omega) (by omega)
    have hlast := hbelow other (hheld ▸ mem_append_left _ hother)
    change next ≤ bound
    omega

theorem InOrder.forwarded_iff (hbuf : InOrder buf) (hwait : ∀ other ∈ buf.held, buf.start < other.1)
    (hacc : other ∈ buf.accepted) :
    other ∈ buf.forwarded ↔
      ∀ n < other.1, n < buf.passed ∨ ∃ before ∈ buf.forwarded, before.1 = n := by
  constructor
  · intro hforw n hlt
    have hbehind := hbuf.behind other hforw
    rcases Nat.lt_or_ge n buf.passed with hpassed | hle
    · exact .inl hpassed
    · exact .inr (hbuf.filled n hle (Nat.lt_trans hlt hbehind))
  · intro hdone
    rcases (hbuf.settled other).mp hacc with hforw | hheld
    · exact hforw
    · -- nothing has been forwarded at the start, and it has not been passed
      rcases hdone buf.start (hwait other hheld) with hpassed | ⟨before, hpre, hpos⟩
      · exact absurd hpassed (Nat.not_lt.mpr hbuf.passed_le)
      · exact absurd (hbuf.behind before hpre) (by omega)

end ReorderBuffer

end HomaSird
