import Mathlib.Order.WellFounded

/-!
# Deterministic machines

A machine is a function that takes each state to the next one. A property that
one step keeps holds in every state of a run, and a machine whose steps descend
in a well-founded relation halts. A machine may also be driven by events.
-/

namespace Bsd.Lib.Machines

variable {State : Type*} {step : State → State}

/-- `state` is one of the states of the run from `start`. -/
def Reached (step : State → State) (start state : State) : Prop :=
  ∃ count, step^[count] start = state

variable {start state : State}

/-- What holds at the start and is kept by each step holds all along the run. -/
theorem reached_invariant (holds : State → Prop) (initially : holds start)
    (kept : ∀ before, holds before → holds (step before)) (reached : Reached step start state) :
    holds state := by
  obtain ⟨count, ran⟩ := reached
  induction count generalizing start with
  | zero =>
    rw [← ran]
    exact initially
  | succ count ih => exact ih (kept start initially) ran

/-- A run that descends until it halts comes to a halt. -/
theorem reaches_halt (holds halted : State → Prop) {less : State → State → Prop}
    (founded : WellFounded less) (initially : holds start)
    (kept : ∀ before, holds before → holds (step before))
    (descends : ∀ before, holds before → ¬halted before → less (step before) before) :
    ∃ state, Reached step start state ∧ halted state := by
  induction start using founded.induction with
  | _ start ih =>
    by_cases done : halted start
    · exact ⟨start, ⟨0, rfl⟩, done⟩
    · obtain ⟨state, ⟨count, ran⟩, ended⟩ :=
        ih (step start) (descends start initially done) (kept start initially)
      exact ⟨state, ⟨count + 1, ran⟩, ended⟩

section

variable {Event : Type*} {act : State → Event → State}

def AllSteps (act : State → Event → State) (good : State → Event → Prop) : State → List Event → Prop
  | _, [] => True
  | state, event :: events => good state event ∧ AllSteps act good (act state event) events

variable {allowed : State → Event → Prop} {events : List Event}

theorem all_steps_of_invariant {good : State → Event → Prop} (holds : State → Prop)
    (kept : ∀ state event, holds state → allowed state event → holds (act state event))
    (gives : ∀ state event, holds state → allowed state event → good state event)
    (initially : holds start) (all : AllSteps act allowed start events) :
    AllSteps act good start events := by
  induction events generalizing start with
  | nil => exact trivial
  | cons event events ih =>
    exact ⟨gives start event initially all.1, ih (kept start event initially all.1) all.2⟩

theorem run_invariant (holds : State → Prop)
    (kept : ∀ state event, holds state → allowed state event → holds (act state event))
    (initially : holds start) (all : AllSteps act allowed start events) :
    holds (events.foldl act start) := by
  induction events generalizing start with
  | nil => exact initially
  | cons event events ih => exact ih (kept start event initially all.1) all.2

/-- Where it is known which of the steps taken keep an invariant, it is known which
runs keep it. -/
theorem all_steps_kept_iff {taken : State → Event → Prop} (holds : State → Prop)
    (exact : ∀ state event, holds state → taken state event →
      (holds (act state event) ↔ allowed state event)) (initially : holds start)
    (all : AllSteps act taken start events) :
    AllSteps act (fun state event => holds (act state event)) start events ↔
      AllSteps act allowed start events := by
  induction events generalizing start with
  | nil => exact Iff.rfl
  | cons event events ih =>
    have first := exact start event initially all.1
    constructor
    · intro kept
      exact ⟨first.mp kept.1, (ih kept.1 all.2).mp kept.2⟩
    · intro met
      have later := first.mpr met.1
      exact ⟨later, (ih later all.2).mpr met.2⟩

end

end Bsd.Lib.Machines
