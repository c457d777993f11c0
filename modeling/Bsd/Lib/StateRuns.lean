import Bsd.Lib.Readers

/-!
# Computations on a state that may fail

`Keeps` says that every successful run from a state with a property ends in such a state
and gives a good value. It has one rule for each way to put computations together.
-/

namespace Bsd.Lib.StateRuns

open Lib.Readers

abbrev Run (State Failure Value : Type) := StateT State (Except Failure) Value

section Rules

variable {State Failure Value Next : Type} {holds : State → Prop}

def Keeps (holds : State → Prop) (good : Value → Prop) (run : Run State Failure Value) : Prop :=
  ∀ before value after, holds before → run before = .ok (value, after) → holds after ∧ good value

variable {next : Value → Run State Failure Next} {run : Run State Failure Value}
  {before after : State} {result : Except Failure Value} {value : Value}

theorem run_lift_ok
    (ran : (StateT.lift result : Run State Failure Value) before = .ok (value, after)) :
    result = .ok value ∧ after = before := by
  cases result with
  | error failure => cases ran
  | ok found =>
    cases ran
    exact ⟨rfl, rfl⟩

variable {good : Value → Prop}

theorem keeps_pure (isGood : good value) :
    Keeps holds good (pure value : Run State Failure Value) := by
  intro before other after held ran
  cases ran
  exact ⟨held, isGood⟩

theorem keeps_bind {better : Next → Prop} (first : Keeps holds good run)
    (second : ∀ value, good value → Keeps holds better (next value)) :
    Keeps holds better (run >>= next) := by
  intro before value after held ran
  obtain ⟨found, middle, ranFirst, ranNext⟩ := bind_ok ran
  obtain ⟨heldMiddle, isGood⟩ := first before found middle held ranFirst
  exact second found isGood middle value after heldMiddle ranNext

theorem keeps_foldlM {Item : Type} {body : Value → Item → Run State Failure Value}
    (each : ∀ value item, good value → Keeps holds good (body value item)) (items : List Item)
    (initially : good value) : Keeps holds good (items.foldlM body value) := by
  induction items generalizing value with
  | nil => exact keeps_pure initially
  | cons item items ih =>
    exact keeps_bind (each value item initially) fun _ isGood => ih isGood

end Rules

end Bsd.Lib.StateRuns
