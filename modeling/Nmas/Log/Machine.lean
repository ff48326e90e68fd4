import Mathlib.Data.List.Basic

/-!
Contract: the runs of a machine, and what its allowed steps keep.

A run is a list of events. A condition is required of every event in the state
it happens in; what one allowed step keeps, a run of allowed steps keeps.
-/

namespace Nmas.Log.Machine

variable {State Event : Type}

def run (step : State → Event → State) (state : State) (events : List Event) : State :=
  events.foldl step state

/-- A condition on every event of a run, in the state it happens in. -/
def Along (step : State → Event → State) (holds : State → Event → Prop) : State → List Event → Prop
  | _, [] => True
  | state, event :: rest => holds state event ∧ Along step holds (step state event) rest

instance decidableAlong (step : State → Event → State) (holds : State → Event → Prop)
    [∀ state event, Decidable (holds state event)] :
    ∀ state events, Decidable (Along step holds state events)
  | _, [] => isTrue trivial
  | state, event :: rest =>
    have := decidableAlong step holds (step state event) rest
    inferInstanceAs (Decidable (_ ∧ _))

variable {step : State → Event → State} {allowed holds : State → Event → Prop}
  {Keeps : State → Prop} {state : State} {events : List Event}

theorem Along.and {first second : State → Event → Prop} (one : Along step first state events)
    (other : Along step second state events) :
    Along step (fun state event => first state event ∧ second state event) state events := by
  induction events generalizing state with
  | nil => trivial
  | cons event rest ih =>
    exact ⟨⟨one.1, other.1⟩, ih one.2 other.2⟩

theorem Along.of_mem (always : ∀ state, ∀ event ∈ events, holds state event) :
    Along step holds state events := by
  induction events generalizing state with
  | nil => trivial
  | cons event rest ih =>
    exact ⟨always state event (.head _),
      ih (fun state other member =>
        always state other (.tail _ member))⟩

/-- **The rule of runs.** What every allowed step keeps holds after every
allowed run. -/
theorem Along.keeps
    (step_keeps : ∀ state event, Keeps state → allowed state event → Keeps (step state event))
    (along : Along step allowed state events) (keeps : Keeps state) :
    Keeps (run step state events) := by
  induction events generalizing state with
  | nil => exact keeps
  | cons event rest ih =>
    exact ih along.2 (step_keeps state event keeps along.1)

theorem run_keeps (step_keeps : ∀ state event, Keeps state → Keeps (step state event))
    (events : List Event) (keeps : Keeps state) : Keeps (run step state events) := by
  induction events generalizing state with
  | nil => exact keeps
  | cons event rest ih =>
    exact ih (step_keeps state event keeps)

/-- What every step of a kept state is, every step of a run is. -/
theorem along_of_keeps (step_keeps : ∀ state event, Keeps state → Keeps (step state event))
    (always : ∀ state event, Keeps state → holds state event) (keeps : Keeps state) :
    Along step holds state events := by
  induction events generalizing state with
  | nil => trivial
  | cons event rest ih => exact ⟨always state event keeps, ih (step_keeps state event keeps)⟩

/-- **The rule of exact conditions.** Where a step of a kept state keeps a property
exactly when it is allowed, every state of a run has it exactly when every step is
allowed. -/
theorem along_iff {Holds : State → Prop}
    (step_keeps : ∀ state event, Keeps state → Keeps (step state event))
    (agrees : ∀ state event, Keeps state → Holds state →
      (Holds (step state event) ↔ allowed state event))
    (keeps : Keeps state) (has : Holds state) :
    Along step (fun state event => Holds (step state event)) state events ↔
      Along step allowed state events := by
  induction events generalizing state with
  | nil => exact Iff.rfl
  | cons event rest ih =>
    have later := step_keeps state event keeps
    constructor
    · rintro ⟨next, always⟩
      exact ⟨(agrees state event keeps has).mp next, (ih later next).mp always⟩
    · rintro ⟨isAllowed, along⟩
      have next := (agrees state event keeps has).mpr isAllowed
      exact ⟨next, (ih later next).mpr along⟩

end Nmas.Log.Machine
