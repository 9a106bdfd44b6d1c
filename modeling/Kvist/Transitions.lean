import Mathlib.Data.Option.Basic

/-!
# Runs of a partial step function

A system is a function that gives the next state, or nothing where the action cannot be taken.
An invariant that every step preserves holds at the end of every run, and so in every state a
run passes through, since each of its initial parts is a run as well.
-/

set_option autoImplicit false

namespace Kvist.Transitions

variable {State Action : Type}

/-- The state after a list of actions, as long as each of them can be taken. -/
def run (step : State → Action → Option State) : State → List Action → Option State
  | state, [] => some state
  | state, action :: rest => (step state action).bind fun next => run step next rest

/-- Every action of the run is taken in a state that meets the condition on it. -/
def Meets (step : State → Action → Option State) (condition : State → Action → Prop) :
    State → List Action → Prop
  | _, [] => True
  | state, action :: rest =>
      condition state action ∧
        ∀ next, step state action = some next → Meets step condition next rest

theorem run_append (step : State → Action → Option State) (state : State)
    (front back : List Action) :
    run step state (front ++ back) = (run step state front).bind fun middle =>
      run step middle back := by
  induction front generalizing state with
  | nil => rfl
  | cons action rest ih =>
      simp only [List.cons_append, run, Option.bind_assoc]
      congr 1
      funext next
      exact ih next

theorem run_invariant {step : State → Action → Option State}
    {condition : State → Action → Prop} {invariant : State → Prop}
    (preserved : ∀ state action next, invariant state → condition state action →
      step state action = some next → invariant next)
    (actions : List Action) {first last : State} (holds : invariant first)
    (meets : Meets step condition first actions) (reached : run step first actions = some last) :
    invariant last := by
  induction actions generalizing first with
  | nil =>
      simp only [run, Option.some.injEq] at reached
      exact reached ▸ holds
  | cons action rest ih =>
      simp only [run, Option.bind_eq_some_iff] at reached
      obtain ⟨next, stepped, continued⟩ := reached
      exact ih (preserved _ _ _ holds meets.1 stepped) (meets.2 next stepped) continued

theorem run_preserves {step : State → Action → Option State} {invariant : State → Prop}
    (preserved : ∀ state action next, invariant state → step state action = some next →
      invariant next)
    (actions : List Action) {first last : State} (holds : invariant first)
    (reached : run step first actions = some last) : invariant last := by
  induction actions generalizing first with
  | nil =>
      simp only [run, Option.some.injEq] at reached
      exact reached ▸ holds
  | cons action rest ih =>
      simp only [run, Option.bind_eq_some_iff] at reached
      obtain ⟨next, stepped, continued⟩ := reached
      exact ih (preserved _ _ _ holds stepped) continued

/-- Conditions that agree in every state with an invariant agree on every run. -/
theorem meets_congr {step : State → Action → Option State} {first second : State → Action → Prop}
    {invariant : State → Prop}
    (preserved : ∀ state action next, invariant state → step state action = some next →
      invariant next)
    (same : ∀ state action, invariant state → (first state action ↔ second state action))
    (actions : List Action) {state : State} (holds : invariant state) :
    Meets step first state actions ↔ Meets step second state actions := by
  induction actions generalizing state with
  | nil => exact Iff.rfl
  | cons action rest ih =>
      refine and_congr (same state action holds) (forall₂_congr fun next stepped => ?_)
      exact ih (preserved state action next holds stepped)

end Kvist.Transitions
