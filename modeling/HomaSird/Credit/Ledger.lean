import HomaSird.Data.UnorderedMap
import HomaSird.Transition.Machine

/-! # A credit ledger with one account per holder and a common total

Credits are charged to a holder and reclaimed one at a time. A ledger carries the proof that its
total is the sum of its accounts; its machine refuses a charge beyond the limit of the account or
of the total.
-/

namespace HomaSird.Credit

universe u

variable {Holder : Type u} [DecidableEq Holder]

structure Ledger (Holder : Type u) [DecidableEq Holder] where
  accounts : UnorderedMap Holder Nat
  total : Nat
  total_eq : total = accounts.total

namespace Ledger

def empty : Ledger Holder := ⟨∅, 0, rfl⟩

def held (ledger : Ledger Holder) (holder : Holder) : Nat := ledger.accounts.getD holder 0

theorem held_le_total (ledger : Ledger Holder) (holder : Holder) :
    ledger.held holder ≤ ledger.total :=
  ledger.total_eq ▸ ledger.accounts.getD_le_total holder

def openAccount (ledger : Ledger Holder) (holder : Holder) : Ledger Holder where
  accounts := ledger.accounts.insert holder (ledger.held holder)
  total := ledger.total
  total_eq := by
    have hinsert := ledger.accounts.total_insert holder (ledger.held holder)
    have htotal := ledger.total_eq
    simp only [held] at *
    omega

def charge (ledger : Ledger Holder) (holder : Holder) : Ledger Holder where
  accounts := ledger.accounts.insert holder (ledger.held holder + 1)
  total := ledger.total + 1
  total_eq := by
    have hinsert := ledger.accounts.total_insert holder (ledger.held holder + 1)
    have htotal := ledger.total_eq
    simp only [held] at *
    omega

/-- Give one credit back; an empty account has none to give. -/
def reclaim (ledger : Ledger Holder) (holder : Holder) : Ledger Holder :=
  if hheld : 0 < ledger.held holder then
    { accounts := ledger.accounts.insert holder (ledger.held holder - 1)
      total := ledger.total - 1
      total_eq := by
        have hinsert := ledger.accounts.total_insert holder (ledger.held holder - 1)
        have htotal := ledger.total_eq
        simp only [held] at *
        omega }
  else ledger

@[simp] theorem held_openAccount (ledger : Ledger Holder) (holder other : Holder) :
    (ledger.openAccount holder).held other = ledger.held other := by
  simp only [openAccount, held, UnorderedMap.getD_insert]
  split
  next heq => rw [heq]
  · rfl

theorem held_charge (ledger : Ledger Holder) (holder other : Holder) :
    (ledger.charge holder).held other =
      if other = holder then ledger.held holder + 1 else ledger.held other := by
  simp only [charge, held, UnorderedMap.getD_insert]

variable {ledger : Ledger Holder} {holder : Holder}

theorem accounts_reclaim (hheld : 0 < ledger.held holder) :
    (ledger.reclaim holder).accounts = ledger.accounts.insert holder (ledger.held holder - 1) := by
  rw [reclaim, dif_pos hheld]

theorem total_reclaim (hheld : 0 < ledger.held holder) :
    (ledger.reclaim holder).total = ledger.total - 1 := by
  rw [reclaim, dif_pos hheld]

theorem reclaim_of_held_eq_zero (hheld : ledger.held holder = 0) :
    ledger.reclaim holder = ledger := by
  rw [reclaim, dif_neg (by omega)]

theorem held_reclaim (ledger : Ledger Holder) (holder other : Holder) :
    (ledger.reclaim holder).held other =
      if other = holder then ledger.held holder - 1 else ledger.held other := by
  unfold reclaim
  split
  · simp only [held, UnorderedMap.getD_insert]
  next hzero =>
    split
    next heq =>
      subst heq
      omega
    · rfl

theorem total_reclaim_le (ledger : Ledger Holder) (holder : Holder) :
    (ledger.reclaim holder).total ≤ ledger.total := by
  unfold reclaim
  split
  · exact Nat.sub_le _ _
  · exact le_rfl

/-! ## The bounded ledger machine -/

inductive Operation (Holder : Type u) where
  | openAccount (holder : Holder)
  | charge (holder : Holder)
  | reclaim (holder : Holder)

inductive Refusal where
  | accountLimit
  | totalLimit

def apply (accountLimit totalLimit : Nat) (ledger : Ledger Holder) :
    Operation Holder → Except Refusal (Ledger Holder)
  | .openAccount holder => .ok (ledger.openAccount holder)
  | .charge holder =>
    if accountLimit ≤ ledger.held holder then .error .accountLimit
    else if totalLimit ≤ ledger.total then .error .totalLimit
    else .ok (ledger.charge holder)
  | .reclaim holder => .ok (ledger.reclaim holder)

def machine (accountLimit totalLimit : Nat) :
    Transition.Machine (Ledger Holder) (Operation Holder) Refusal where
  init := empty
  step := apply accountLimit totalLimit

structure Within (accountLimit totalLimit : Nat) (ledger : Ledger Holder) : Prop where
  account : ∀ holder, ledger.held holder ≤ accountLimit
  total : ledger.total ≤ totalLimit

theorem within_empty (accountLimit totalLimit : Nat) :
    Within accountLimit totalLimit (empty : Ledger Holder) :=
  ⟨fun _ => Nat.zero_le _, Nat.zero_le _⟩

theorem within_apply {accountLimit totalLimit : Nat} {ledger next : Ledger Holder}
    {operation : Operation Holder} (hwithin : Within accountLimit totalLimit ledger)
    (happly : apply accountLimit totalLimit ledger operation = .ok next) :
    Within accountLimit totalLimit next := by
  cases operation with
  | openAccount holder =>
    obtain rfl : ledger.openAccount holder = next := by simpa [apply] using happly
    exact ⟨fun other => by simpa using hwithin.account other, hwithin.total⟩
  | charge holder =>
    simp only [apply] at happly
    split at happly
    · cases happly
    next haccount =>
      split at happly
      · cases happly
      next htotal =>
        obtain rfl : ledger.charge holder = next := by simpa using happly
        refine ⟨fun other => ?_, Nat.lt_of_not_le htotal⟩
        rw [held_charge]
        split
        · exact Nat.lt_of_not_le haccount
        · exact hwithin.account other
  | reclaim holder =>
    obtain rfl : ledger.reclaim holder = next := by simpa [apply] using happly
    refine ⟨fun other => ?_, (ledger.total_reclaim_le holder).trans hwithin.total⟩
    rw [held_reclaim]
    split
    · exact (Nat.sub_le _ _).trans (hwithin.account holder)
    · exact hwithin.account other

theorem within_of_reachable {accountLimit totalLimit : Nat}
    (hreach : Transition.Machine.Reachable (machine accountLimit totalLimit) ledger) :
    Within accountLimit totalLimit ledger := by
  refine hreach.invariant ?_ ?_
  · exact within_empty _ _
  · intro state operation next hwithin _ hstep
    exact within_apply hwithin hstep

end Ledger

end HomaSird.Credit
