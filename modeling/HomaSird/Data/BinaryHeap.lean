import Mathlib.Order.RelClasses

/-! # Binary heaps in an array

Node `child` hangs below node `child / 2`. A heap is ordered when no node comes before its parent.
The rules are the steps of the two repairs: a small element moves up, a large one down.
-/

namespace HomaSird.BinaryHeap

universe u

variable {α : Type u} (le : α → α → Prop) (size : Nat) (node : Nat → α)

def Ordered : Prop := ∀ child, 2 ≤ child → child < size → le (node (child / 2)) (node child)

/-- Ordered but for the edge above one node, whose children are in order with its parent. -/
structure OrderedUp (hole : Nat) : Prop where
  except : ∀ child, 2 ≤ child → child < size → child ≠ hole →
    le (node (child / 2)) (node child)
  grand : ∀ child, 2 ≤ hole → child < size → child / 2 = hole →
    le (node (hole / 2)) (node child)

/-- Ordered but for the edges below one node, whose children are in order with its parent. -/
structure OrderedDown (hole : Nat) : Prop where
  except : ∀ child, 2 ≤ child → child < size → child / 2 ≠ hole →
    le (node (child / 2)) (node child)
  grand : ∀ child, 2 ≤ hole → child < size → child / 2 = hole →
    le (node (hole / 2)) (node child)

/-- The heap with two nodes exchanged. -/
def swapped (first second : Nat) : Nat → α := fun place =>
  if place = first then node second else if place = second then node first else node place

variable {le size node} {hole : Nat}

theorem swapped_first (node : Nat → α) (first second : Nat) :
    swapped node first second first = node second := if_pos rfl

theorem swapped_second (node : Nat → α) (first second : Nat) :
    swapped node first second second = node first := by
  rw [swapped]
  split
  next heq => rw [heq]
  · rw [if_pos rfl]

theorem swapped_of_ne {first second place : Nat} (hfst : place ≠ first)
    (hsnd : place ≠ second) : swapped node first second place = node place := by
  rw [swapped, if_neg hfst, if_neg hsnd]

theorem Ordered.root_le (hord : Ordered le size node)
    (hrefl : ∀ a, le a a) (htrans : ∀ a b c, le a b → le b c → le a c)
    {place : Nat} (hpos : 1 ≤ place) (hplace : place < size) : le (node 1) (node place) := by
  induction place using Nat.strongRecOn with
  | ind place ih =>
    by_cases hroot : place = 1
    · rw [hroot]
      exact hrefl _
    · have hparent := ih (place / 2) (by omega) (by omega) (by omega)
      exact htrans _ _ _ hparent (hord place (by omega) hplace)

theorem Ordered.up (hord : Ordered le size node) : OrderedUp le (size + 1) node size where
  except child hchild hless hne := hord child hchild (by omega)
  grand child hhole hchild hparent := by omega

theorem Ordered.down (hord : Ordered le size node)
    (hleaf : ∀ child, child < size → child / 2 ≠ hole) : OrderedDown le size node hole where
  except child hchild hless _ := hord child hchild hless
  grand child _ hsz hparent := absurd hparent (hleaf child hsz)

theorem OrderedDown.congr {other : Nat → α} (hdown : OrderedDown le size node hole)
    (hhole : hole < size) (hsame : ∀ place, place < size → other place = node place) :
    OrderedDown le size other hole where
  except child hchild hless hne := by
    rw [hsame child hless, hsame (child / 2) (by omega)]
    exact hdown.except child hchild hless hne
  grand child hpos hless hbelow := by
    rw [hsame child hless, hsame (hole / 2) (by omega)]
    exact hdown.grand child hpos hless hbelow

theorem OrderedUp.done (hup : OrderedUp le size node hole)
    (hstop : 2 ≤ hole → le (node (hole / 2)) (node hole)) : Ordered le size node := by
  intro child hchild hless
  by_cases heq : child = hole
  · rw [heq] at hchild ⊢
    exact hstop hchild
  · exact hup.except child hchild hless heq

/-- An element that comes before its parent takes the parent's place. -/
theorem OrderedUp.swap (hup : OrderedUp le size node hole)
    (htrans : ∀ a b c, le a b → le b c → le a c) (hhole : 2 ≤ hole) (hless : hole < size)
    (hpre : le (node hole) (node (hole / 2))) :
    OrderedUp le size (swapped node hole (hole / 2)) (hole / 2) where
  except child hchild hsz hne := by
    by_cases heq : child = hole
    · rw [heq, swapped_second, swapped_first]
      exact hpre
    · rw [swapped_of_ne heq hne]
      by_cases hbelow : child / 2 = hole
      · rw [hbelow, swapped_first]
        exact hup.grand child hhole hsz hbelow
      · by_cases hsibling : child / 2 = hole / 2
        · rw [hsibling, swapped_second]
          have hparent := hup.except child hchild hsz heq
          rw [hsibling] at hparent
          exact htrans _ _ _ hpre hparent
        · rw [swapped_of_ne hbelow hsibling]
          exact hup.except child hchild hsz heq
  grand child hparent hsz hbelow := by
    rw [swapped_of_ne (by omega) (by omega)]
    have habove := hup.except (hole / 2) hparent (by omega) (by omega)
    by_cases heq : child = hole
    · rw [heq, swapped_first]
      exact habove
    · rw [swapped_of_ne heq (by omega)]
      have hedge := hup.except child (by omega) hsz heq
      rw [hbelow] at hedge
      exact htrans _ _ _ habove hedge

/-- The last node takes the place of another one, whose parent comes before it. -/
theorem Ordered.replace {last : Nat} (hord : Ordered le (last + 1) node) (htrans : ∀ a b c, le a b →
    le b c → le a c) (hless : hole < last) (hle : 2 ≤ hole → le (node (hole / 2)) (node last)) :
    OrderedDown le last (swapped node hole last) hole where
  except child hchild hsz hne := by
    rw [swapped_of_ne hne (by omega)]
    by_cases heq : child = hole
    · rw [heq, swapped_first]
      exact hle (heq ▸ hchild)
    · rw [swapped_of_ne heq (by omega)]
      exact hord child hchild (by omega)
  grand child hhole hsz hbelow := by
    rw [swapped_of_ne (by omega) (by omega), swapped_of_ne (by omega) (by omega)]
    have hedge := hord child (by omega) (by omega)
    rw [hbelow] at hedge
    exact htrans _ _ _ (hord hole hhole (by omega)) hedge

theorem OrderedDown.done (hdown : OrderedDown le size node hole) (hstop : ∀ child, child < size →
    child / 2 = hole → le (node hole) (node child)) : Ordered le size node := by
  intro child hchild hless
  by_cases heq : child / 2 = hole
  · rw [heq]
    exact hstop child hless heq
  · exact hdown.except child hchild hless heq

/-- An element that does not come before its first child takes that child's place. -/
theorem OrderedDown.swap (hdown : OrderedDown le size node hole) {child : Nat}
    (hchild : child / 2 = hole) (hless : child < size) (hafter : le (node child) (node hole))
    (hfst : ∀ other, other < size → other / 2 = hole → le (node child) (node other)) :
    OrderedDown le size (swapped node hole child) child where
  except other hother hsz hne := by
    by_cases heq : other = child
    · rw [heq, hchild, swapped_first, swapped_second]
      exact hafter
    · by_cases hsibling : other / 2 = hole
      · rw [hsibling, swapped_first, swapped_of_ne (by omega) heq]
        exact hfst other hsz hsibling
      · rw [swapped_of_ne hsibling hne]
        by_cases hself : other = hole
        · rw [hself, swapped_first]
          exact hself ▸ hdown.grand child (hself ▸ hother) hless hchild
        · rw [swapped_of_ne hself heq]
          exact hdown.except other hother hsz hsibling
  grand other hpos hsz hbelow := by
    rw [hchild, swapped_first, swapped_of_ne (by omega) (by omega)]
    have hedge := hdown.except other (by omega) hsz (by omega)
    rwa [hbelow] at hedge

end HomaSird.BinaryHeap
