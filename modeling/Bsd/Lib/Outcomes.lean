/-!
# Outcomes of fallible computations

`Meets` says what a computation gives when it succeeds and with what it may fail.
Sequences and loops are reasoned about with one rule each.
-/

namespace Bsd.Lib.Outcomes

universe u v w

variable {Error : Type u} {Value Next : Type v} {bad : Error → Prop}

inductive Meets (good : Value → Prop) (bad : Error → Prop) : Except Error Value → Prop where
  | ok {value : Value} (holds : good value) : Meets good bad (.ok value)
  | error {failure : Error} (allowed : bad failure) : Meets good bad (.error failure)

variable {good : Value → Prop} {value : Value}

theorem meets_ok : Meets good bad (.ok value) ↔ good value := by
  constructor
  · intro met
    cases met with
    | ok holds => exact holds
  · exact Meets.ok

variable {run : Except Error Value}

theorem meets_mono {good better : Value → Prop} (met : Meets good bad run)
    (stronger : ∀ value, good value → better value) : Meets better bad run := by
  cases met with
  | ok holds => exact Meets.ok (stronger _ holds)
  | error allowed => exact Meets.error allowed

theorem meets_bind {after : Next → Prop} {next : Value → Except Error Next}
    (first : Meets good bad run) (second : ∀ value, good value → Meets after bad (next value)) :
    Meets after bad (run >>= next) := by
  cases first with
  | ok holds => exact second _ holds
  | error allowed => exact Meets.error allowed

/-- A loop keeps an invariant about the items it has been through. -/
theorem meets_foldlM {Item : Type w} {holds : List Item → Value → Prop}
    {body : Value → Item → Except Error Value} {before : List Item}
    (initially : holds before value) {items : List Item}
    (each : ∀ past item, item ∈ items → ∀ value, holds past value →
      Meets (holds (past ++ [item])) bad (body value item)) :
    Meets (holds (before ++ items)) bad (items.foldlM body value) := by
  induction items generalizing before value with
  | nil =>
    rw [List.append_nil]
    exact Meets.ok initially
  | cons item items ih =>
    apply meets_bind (each before item List.mem_cons_self value initially)
    intro next held
    have later := ih held fun past other member =>
      each past other (List.mem_cons_of_mem item member)
    rwa [List.append_assoc] at later

end Bsd.Lib.Outcomes
