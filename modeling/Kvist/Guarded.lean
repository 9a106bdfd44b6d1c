import Mathlib.Data.List.Basic

/-!
# Computations that keep an invariant

A computation with a state may stop with an error, and leaves the state as it is then. It keeps an
invariant if it ends in a state of the invariant wherever it starts in one, whether it stops or not.
The errors it may stop with and the values it may give are part of this.
-/

set_option autoImplicit false

namespace Kvist.Guarded

variable {Error State First Second Item : Type}

/-- What the computation gives or stops with, and the state it leaves. -/
def result (computation : ExceptT Error (StateM State) First) (state : State) :
    Except Error First × State :=
  (computation.run).run state

def Meets (tolerated : Error → Prop) (property : First → Prop) : Except Error First → Prop
  | .ok value => property value
  | .error error => tolerated error

def Keeps (invariant : State → Prop) (tolerated : Error → Prop) (property : First → Prop)
    (computation : ExceptT Error (StateM State) First) : Prop :=
  ∀ state, invariant state →
    invariant (result computation state).2 ∧ Meets tolerated property (result computation state).1

variable {invariant : State → Prop} {tolerated : Error → Prop} {property : First → Prop}
  {further : Second → Prop}

theorem result_bind (first : ExceptT Error (StateM State) First)
    (next : First → ExceptT Error (StateM State) Second) (state : State) :
    result (first >>= next) state =
      match result first state with
      | (.ok value, after) => result (next value) after
      | (.error error, after) => (.error error, after) := by
  simp only [result, ExceptT.run_bind, StateT.run_bind]
  change (match (first.run).run state with | (value, after) => _) = _
  cases (first.run).run state with
  | mk value after =>
      cases value with
      | ok value => rfl
      | error error => rfl

theorem keeps_pure {value : First} (holds : property value) :
    Keeps invariant tolerated property (pure value) := fun _ kept => ⟨kept, holds⟩

theorem Keeps.bind {first : ExceptT Error (StateM State) First}
    {next : First → ExceptT Error (StateM State) Second}
    (start : Keeps invariant tolerated property first)
    (continued : ∀ value, property value → Keeps invariant tolerated further (next value)) :
    Keeps invariant tolerated further (first >>= next) := by
  intro state kept
  obtain ⟨keptFirst, met⟩ := start state kept
  rw [result_bind]
  generalize result first state = found at keptFirst met
  obtain ⟨value, after⟩ := found
  cases value with
  | ok value => exact continued value met after keptFirst
  | error error => exact ⟨keptFirst, met⟩

/-- A computation whose value is not used. -/
theorem Keeps.andThen {first : ExceptT Error (StateM State) First}
    {next : ExceptT Error (StateM State) Second}
    (start : Keeps invariant tolerated property first)
    (continued : Keeps invariant tolerated further next) :
    Keeps invariant tolerated further (first >>= fun _ => next) :=
  start.bind fun _ _ => continued

theorem keeps_get : Keeps invariant tolerated invariant
    (get : ExceptT Error (StateM State) State) := fun _ kept => ⟨kept, kept⟩

theorem keeps_modify {change : State → State}
    (preserved : ∀ state, invariant state → invariant (change state)) :
    Keeps invariant tolerated (fun _ => True)
      (modify change : ExceptT Error (StateM State) PUnit) :=
  fun state kept => ⟨preserved state kept, trivial⟩

/-- A computation that does not look at the state. -/
theorem keeps_lift {computed : Except Error First} (met : Meets tolerated property computed) :
    Keeps invariant tolerated property (ExceptT.mk (pure computed)) :=
  fun _ kept => ⟨kept, met⟩

theorem keeps_forM {call : Item → ExceptT Error (StateM State) PUnit} {items : List Item}
    (each : ∀ item ∈ items, Keeps invariant tolerated (fun _ => True) (call item)) :
    Keeps invariant tolerated (fun _ => True) (items.forM call) := by
  induction items with
  | nil => exact keeps_pure trivial
  | cons item rest ih =>
      exact (each item List.mem_cons_self).andThen
        (ih fun other member => each other (List.mem_cons_of_mem _ member))

theorem keeps_foldlM {step : First → Item → ExceptT Error (StateM State) First} {items : List Item}
    {start : First} (holds : property start)
    (each : ∀ item ∈ items, ∀ value, property value →
      Keeps invariant tolerated property (step value item)) :
    Keeps invariant tolerated property (items.foldlM step start) := by
  induction items generalizing start with
  | nil => exact keeps_pure holds
  | cons item rest ih =>
      rw [List.foldlM_cons]
      exact (each item List.mem_cons_self start holds).bind fun value met =>
        ih met fun other member => each other (List.mem_cons_of_mem _ member)

end Kvist.Guarded
