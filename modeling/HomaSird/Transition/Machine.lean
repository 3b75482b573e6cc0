import Mathlib.Tactic.Common

/-! # Deterministic machines and what holds along their runs

A machine consumes one input at a time and either moves to a next state or
fails. An environment is a predicate on the inputs it may offer in a state; the
rules below carry a property from the initial state along every run of an
environment, and carry runs of one machine over to runs of another.
-/

namespace HomaSird.Transition

universe u v w u' v' w'

theorem bind_eq_ok {ε : Type w}
    {α β : Type u} {first : Except ε α} {next : α → Except ε β} {result : β} :
    (first >>= next) = .ok result ↔ ∃ value, first = .ok value ∧ next value = .ok result := by
  cases first with
  | error fault => simp [bind, Except.bind]
  | ok value => simp [bind, Except.bind]

theorem bind_ok {ε : Type w} {α β : Type u} (value : α) (next : α → Except ε β) :
    ((.ok value : Except ε α) >>= next) = next value := rfl

/-- A computation that cannot fail after its first part fails in its first part. -/
theorem bind_eq_error {ε : Type w} {α β : Type u} {first : Except ε α} {next : α → Except ε β}
    {fault : ε} (hnext : ∀ value, ∃ result, next value = .ok result)
    (hfail : (first >>= next) = .error fault) : first = .error fault := by
  cases first with
  | error other =>
    have hother : (Except.error other : Except ε β) = .error fault := hfail
    rw [Except.error.inj hother]
  | ok value =>
    obtain ⟨result, hok⟩ := hnext value
    have hdone : next value = .error fault := hfail
    rw [hok] at hdone
    cases hdone

theorem forall_calls {Call : Type u} {calls : List Call}
    {fact : List Call → Call → Prop} (hstep : ∀ front call back, calls = front ++ call :: back →
    (∀ inner before rest, front = inner ++ before :: rest → fact inner before) → fact front call) :
    ∀ front call back, calls = front ++ call :: back → fact front call := by
  intro front
  induction hlen : front.length using Nat.strongRecOn generalizing front with
  | _ length ih =>
    intro call back hsplit
    refine hstep front call back hsplit fun inner before rest hinner => ?_
    have hshorter : inner.length < length := by
      rw [← hlen, hinner, List.length_append, List.length_cons]
      omega
    refine ih inner.length hshorter inner rfl before (rest ++ call :: back) ?_
    rw [hsplit, hinner, List.append_assoc]
    rfl

structure Machine (State : Type u) (Input : Type v) (Fault : Type w) where
  init : State
  step : State → Input → Except Fault State

namespace Machine

variable {State : Type u} {Input : Type v} {Fault : Type w}
variable (M : Machine State Input Fault)

/-- Feed a list of inputs, stopping at the first failing step. -/
def run : List Input → State → Except Fault State
  | [], state => .ok state
  | input :: rest, state =>
    match M.step state input with
    | .ok next => run rest next
    | .error fault => .error fault

/-- The state that inputs lead to: one that fails the check or whose step fails is skipped. -/
def after (check : State → Input → Bool) : List Input → State → State
  | [], state => state
  | input :: rest, state =>
    if check state input then
      match M.step state input with
      | .ok next => after check rest next
      | .error _ => after check rest state
    else after check rest state

inductive ReachableUnder (allowed : State → Input → Prop) : State → Prop where
  | init : ReachableUnder allowed M.init
  | step {state next : State} {input : Input} (hprior : ReachableUnder allowed state)
      (hallowed : allowed state input) (hstep : M.step state input = .ok next) :
      ReachableUnder allowed next

/-- Reachable in the environment that may offer every input. -/
abbrev Reachable : State → Prop := M.ReachableUnder (fun _ _ => True)

variable {M}

theorem run_cons_ok {input : Input} {rest : List Input} {state final : State} :
    M.run (input :: rest) state = .ok final ↔
      ∃ next, M.step state input = .ok next ∧ M.run rest next = .ok final := by
  rw [Machine.run]
  cases M.step state input <;> simp

/-- When every step moves a view of the state by what the input shows of itself, and not at all
when it shows nothing, the view after a run is that of the shown inputs alone. -/
theorem run_project {View : Type u'} {Shown : Type v'} (view : State → View)
    (shown : Input → Option Shown) (move : View → Shown → View) (hstep : ∀ state input next,
    M.step state input = .ok next → view next = (shown input).elim (view state) (move (view state)))
    {inputs : List Input} {state final : State} (hrun : M.run inputs state = .ok final) :
    view final = (inputs.filterMap shown).foldl move (view state) := by
  induction inputs generalizing state with
  | nil =>
    obtain rfl : state = final := by simpa [Machine.run] using hrun
    rfl
  | cons input rest ih =>
    obtain ⟨next, hnext, hrest⟩ := run_cons_ok.mp hrun
    rw [ih hrest, hstep state input next hnext]
    cases hshown : shown input with
    | none => simp [hshown]
    | some mark => simp [hshown]

namespace ReachableUnder

variable {allowed : State → Input → Prop}

theorem mono {wider : State → Input → Prop}
    (hwider : ∀ state input, allowed state input → wider state input)
    {state : State} (hst : M.ReachableUnder allowed state) : M.ReachableUnder wider state := by
  induction hst with
  | init => exact .init
  | step _ hallow hstep ih => exact .step ih (hwider _ _ hallow) hstep

theorem reachable {state : State} (hst : M.ReachableUnder allowed state) : M.Reachable state :=
  hst.mono fun _ _ _ => trivial

/-- What holds initially and is kept by every offered step holds in every state of the runs. -/
theorem invariant {holds : State → Prop} (hinit : holds M.init)
    (hkeep : ∀ state input next, holds state → allowed state input → M.step state input = .ok next →
    holds next) {state : State} (hst : M.ReachableUnder allowed state) : holds state := by
  induction hst with
  | init => exact hinit
  | step _ hallow hstep ih => exact hkeep _ _ _ ih hallow hstep

theorem invariant_of {known holds : State → Prop}
    (hknown : ∀ state, M.ReachableUnder allowed state → known state) (hinit : holds M.init)
    (hkeep : ∀ state input next,
      known state → holds state → allowed state input → M.step state input = .ok next → holds next)
    {state : State} (hst : M.ReachableUnder allowed state) :
    holds state := by
  induction hst with
  | init => exact hinit
  | step hprior hallow hstep ih => exact hkeep _ _ _ (hknown _ hprior) ih hallow hstep

theorem run {inputs : List Input} {state final : State} (hst : M.ReachableUnder allowed state)
    (hallow : ∀ input ∈ inputs, ∀ state, allowed state input)
    (hrun : M.run inputs state = .ok final) : M.ReachableUnder allowed final := by
  induction inputs generalizing state with
  | nil =>
    obtain rfl : state = final := by simpa [Machine.run] using hrun
    exact hst
  | cons input rest ih =>
    obtain ⟨next, hstep, hrest⟩ := run_cons_ok.mp hrun
    have hnext := hst.step (hallow input List.mem_cons_self state) hstep
    exact ih hnext (fun other hother => hallow other (.tail _ hother)) hrest

theorem after {check : State → Input → Bool} (hcheck : ∀ state input, check state input = true →
    allowed state input) (inputs : List Input) {state : State} (hst :
    M.ReachableUnder allowed state) : M.ReachableUnder allowed (M.after check inputs state) := by
  induction inputs generalizing state with
  | nil => exact hst
  | cons input rest ih =>
    rw [Machine.after]
    split
    next hallow =>
      split
      next next hstep => exact ih (hst.step (hcheck state input hallow) hstep)
      · exact ih hst
    · exact ih hst

theorem simulation {State' : Type u'} {Input' : Type v'} {Fault' : Type w'}
    {N : Machine State' Input' Fault'} (image : State → State') (hinit : image M.init = N.init)
    (hmatch : ∀ state input next, M.ReachableUnder allowed state → N.Reachable (image state) →
      allowed state input → M.step state input = .ok next →
      ∃ inputs, N.run inputs (image state) = .ok (image next))
    {state : State} (hst : M.ReachableUnder allowed state) : N.Reachable (image state) := by
  induction hst with
  | init => exact hinit ▸ .init
  | step hprior hallow hstep ih =>
    obtain ⟨inputs, hrun⟩ := hmatch _ _ _ hprior ih hallow hstep
    exact ih.run (fun _ _ _ => trivial) hrun

theorem observed {State' : Type u'} {Fault' : Type w'} {N : Machine State' Input Fault'}
    (image : State → State') (hinit : image M.init = N.init)
    (hstep : ∀ state input next,
      M.step state input = .ok next → N.step (image state) input = .ok (image next)) {state : State}
    (hst : M.ReachableUnder allowed state) :
    N.Reachable (image state) := by
  induction hst with
  | init => exact hinit ▸ .init
  | step _ _ hnext ih => exact ih.step trivial (hstep _ _ _ hnext)

end ReachableUnder

end Machine

end HomaSird.Transition
