import Mathlib.Data.List.Basic

/-!
# Two computations that do the same

Computations on a state that may fail and leave the state as it then is. Two of them agree
from a state if they end alike, in a state that keeps an invariant and is grown from the
first, and do not fail in a way that is ruled out. There is one rule for each way to put
computations together.
-/

namespace Bsd.Lib.Agreement

/-- An invariant, how states may grow, and the failures that must not be. -/
structure Discipline (State Failure : Type) where
  holds : State → Prop
  grows : State → State → Prop
  never : Failure → Prop
  refl : ∀ state, grows state state
  trans : ∀ {first second third}, grows first second → grows second third → grows first third

section Rules

variable {State Failure Value Next : Type}

def Agree (discipline : Discipline State Failure) (state : State)
    (left right : EStateM Failure State Value) (post : Value → State → Prop) : Prop :=
  left state = right state ∧ (∀ value after, left state = .ok value after →
      discipline.holds after ∧ discipline.grows state after ∧ post value after) ∧
    ∀ failure after, left state = .error failure after → ¬discipline.never failure

variable {discipline : Discipline State Failure} {state : State} {post : Value → State → Prop}
  {left right : EStateM Failure State Value} {value : Value} {after : State}

theorem agree_ok (leftRan : left state = .ok value after) (rightRan : right state = .ok value after)
    (holds : discipline.holds after) (grows : discipline.grows state after)
    (good : post value after) : Agree discipline state left right post := by
  refine ⟨leftRan.trans rightRan.symm, ?_, ?_⟩
  · intro other final ran
    cases leftRan.symm.trans ran
    exact ⟨holds, grows, good⟩
  · intro failure final ran
    cases leftRan.symm.trans ran

theorem agree_pure (holds : discipline.holds state) (good : post value state) :
    Agree discipline state (pure value : EStateM Failure State Value) (pure value) post :=
  agree_ok rfl rfl holds (discipline.refl state) good

variable {failure : Failure}

theorem agree_error
    (leftRan : left state = .error failure after) (rightRan : right state = .error failure after)
    (allowed : ¬discipline.never failure) : Agree discipline state left right post := by
  refine ⟨leftRan.trans rightRan.symm, ?_, ?_⟩
  · intro value final ran
    cases leftRan.symm.trans ran
  · intro other final ran
    cases leftRan.symm.trans ran
    exact allowed

theorem agree_throw (allowed : ¬discipline.never failure) :
    Agree discipline state (throw failure : EStateM Failure State Value) (throw failure) post :=
  agree_error rfl rfl allowed

theorem agree_bind {next next' : Value → EStateM Failure State Next} {middle : Value → State → Prop}
    {post : Next → State → Prop} (first : Agree discipline state left right middle)
    (second : ∀ value after, discipline.holds after → discipline.grows state after →
      middle value after → Agree discipline after (next value) (next' value) post) :
    Agree discipline state (left >>= next) (right >>= next') post := by
  obtain ⟨same, succeeds, fails⟩ := first
  change Agree discipline state (EStateM.bind left next) (EStateM.bind right next') post
  cases ran : left state with
  | error failure after =>
    have rightRan := same.symm.trans ran
    have leftStep : EStateM.bind left next state = .error failure after := by
      rw [EStateM.bind, ran]
    have rightStep : EStateM.bind right next' state = .error failure after := by
      rw [EStateM.bind, rightRan]
    exact agree_error leftStep rightStep (fails failure after ran)
  | ok value after =>
    have rightRan := same.symm.trans ran
    obtain ⟨held, grown, good⟩ := succeeds value after ran
    obtain ⟨same', succeeds', fails'⟩ := second value after held grown good
    have leftStep : EStateM.bind left next state = next value after := by rw [EStateM.bind, ran]
    have rightStep : EStateM.bind right next' state = next' value after := by
      rw [EStateM.bind, rightRan]
    refine ⟨by rw [leftStep, rightStep, same'], ?_, ?_⟩
    · intro result final finished
      obtain ⟨held', grown', good'⟩ := succeeds' result final (leftStep.symm.trans finished)
      exact ⟨held', discipline.trans grown grown', good'⟩
    · intro failure final finished
      exact fails' failure final (leftStep.symm.trans finished)

theorem agree_map {change : Value → Next} {final : Next → State → Prop}
    (first : Agree discipline state left right post)
    (good : ∀ value after, final (change value) after) :
    Agree discipline state (left >>= fun value => pure (change value))
      (right >>= fun value => pure (change value)) final :=
  agree_bind first fun value after held _ _ => agree_pure held (good value after)

theorem agree_congr {left' right' : EStateM Failure State Value}
    (sameLeft : left state = left' state) (sameRight : right state = right' state)
    (agree : Agree discipline state left' right' post) :
    Agree discipline state left right post := by
  rw [Agree, sameLeft, sameRight]
  exact agree

theorem agree_get {next next' : State → EStateM Failure State Value}
    (agree : Agree discipline state (next state) (next' state) post) :
    Agree discipline state (get >>= next) (get >>= next') post :=
  agree_congr rfl rfl agree

end Rules

end Bsd.Lib.Agreement
