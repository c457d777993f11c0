import Bsd.Store.Goals

/-!
# Build slots

The worker counts the children in a build slot. A goal that builds or substitutes a path looks
at the count before it starts a child; one that substitutes a derivation output does not.
-/

namespace Bsd.Store.Goals

open Lib.Machines

variable {Goal : Type} (settings : Settings Goal)

def slotsOf (category : JobCategory) (children : List (Child Goal)) : Nat :=
  children.countP fun child => child.inBuildSlot ∧ (settings.kind child.goal).jobCategory = category

structure Counted (worker : Worker Goal) : Prop where
  localBuilds : worker.nrLocalBuilds = slotsOf settings .build worker.children
  substitutions : worker.nrSubstitutions = slotsOf settings .substitution worker.children
  limited : worker.nrLocalBuilds ≤ settings.maxBuildJobs

def InSlots (worker : Worker Goal) : Prop :=
  Counted settings worker ∧ worker.nrSubstitutions ≤ max 1 settings.maxSubstitutionJobs

/-- A query for a realisation only starts when there is a slot for it. -/
def SlotFree (worker : Worker Goal) (event : Event Goal) : Prop :=
  match event, worker.activity with
  | .childStarted true, .running goal =>
    settings.kind goal = .drvOutputSubstitution →
      worker.nrSubstitutions < max 1 settings.maxSubstitutionJobs
  | _, _ => True

def SameSlots (left right : Worker Goal) : Prop :=
  left.children = right.children ∧ left.nrLocalBuilds = right.nrLocalBuilds ∧
    left.nrSubstitutions = right.nrSubstitutions

variable {worker other : Worker Goal}

theorem Counted.same {settings : Settings Goal} (counted : Counted settings worker)
    (same : SameSlots other worker) : Counted settings other := by
  obtain ⟨children, builds, substitutions⟩ := same
  exact ⟨by rw [builds, children, counted.localBuilds],
    by rw [substitutions, children, counted.substitutions], builds ▸ counted.limited⟩

theorem slots_of_started (category : JobCategory) (children : List (Child Goal)) (child : Child Goal) :
    slotsOf settings category (children ++ [child]) = slotsOf settings category children +
      if child.inBuildSlot ∧ (settings.kind child.goal).jobCategory = category then 1 else 0 := by
  simp [slotsOf]

theorem child_started_slots (worker : Worker Goal) (goal : Goal) (inBuildSlot : Bool) :
    (worker.childStarted settings goal inBuildSlot).children =
      worker.children ++ [⟨goal, inBuildSlot⟩] ∧
    (worker.childStarted settings goal inBuildSlot).nrLocalBuilds = worker.nrLocalBuilds +
      (if inBuildSlot ∧ (settings.kind goal).jobCategory = .build then 1 else 0) ∧
    (worker.childStarted settings goal inBuildSlot).nrSubstitutions = worker.nrSubstitutions +
      (if inBuildSlot ∧ (settings.kind goal).jobCategory = .substitution then 1 else 0) := by
  simp only [Worker.childStarted]
  cases inBuildSlot <;> cases (settings.kind goal).jobCategory <;> simp

variable {goal : Goal}

theorem Counted.child_started {settings : Settings Goal} (counted : Counted settings worker)
    {inBuildSlot : Bool} (may : mayStart settings worker goal inBuildSlot) :
    Counted settings (worker.childStarted settings goal inBuildSlot) := by
  obtain ⟨children, isBuilds, isSubstitutions⟩ :=
    child_started_slots settings worker goal inBuildSlot
  have builds := slots_of_started settings .build worker.children ⟨goal, inBuildSlot⟩
  have substitutions := slots_of_started settings .substitution worker.children ⟨goal, inBuildSlot⟩
  have limited := counted.limited
  rw [← children, ← counted.localBuilds, ← isBuilds] at builds
  rw [← children, ← counted.substitutions, ← isSubstitutions] at substitutions
  refine ⟨builds.symm, substitutions.symm, ?_⟩
  cases kind : settings.kind goal <;> cases inBuildSlot <;>
    simp [mayStart, kind, GoalKind.jobCategory] at may isBuilds <;> omega

variable [DecidableEq Goal] {child : Child Goal}

theorem slots_of_ended (category : JobCategory) {children : List (Child Goal)}
    (found : children.find? (·.goal = goal) = some child) :
    slotsOf settings category children = slotsOf settings category (children.eraseP (·.goal = goal)) +
      if child.inBuildSlot ∧ (settings.kind goal).jobCategory = category then 1 else 0 := by
  induction children with
  | nil => cases found
  | cons head children ih =>
    by_cases here : head.goal = goal
    · rw [List.find?_cons_of_pos (by simpa using here), Option.some.injEq] at found
      rw [← found, ← here]
      simp [slotsOf, List.countP_cons]
    rw [List.find?_cons_of_neg (by simpa using here)] at found
    rw [List.eraseP_cons_of_neg (by simpa using here)]
    have later := ih found
    simp only [slotsOf, List.countP_cons] at later ⊢
    omega

theorem child_terminated_slots (found : worker.children.find? (·.goal = goal) = some child) :
    (worker.childTerminated settings goal).children = worker.children.eraseP (·.goal = goal) ∧
    (worker.childTerminated settings goal).nrLocalBuilds = worker.nrLocalBuilds -
      (if child.inBuildSlot ∧ (settings.kind goal).jobCategory = .build then 1 else 0) ∧
    (worker.childTerminated settings goal).nrSubstitutions = worker.nrSubstitutions -
      (if child.inBuildSlot ∧ (settings.kind goal).jobCategory = .substitution then 1 else 0) := by
  simp only [Worker.childTerminated, found]
  cases child.inBuildSlot <;> cases (settings.kind goal).jobCategory <;> simp

variable {settings}

theorem Counted.child_terminated (counted : Counted settings worker) (goal : Goal) :
    Counted settings (worker.childTerminated settings goal) ∧
      (worker.childTerminated settings goal).nrSubstitutions ≤ worker.nrSubstitutions := by
  cases found : worker.children.find? (·.goal = goal) with
  | none =>
    simp only [Worker.childTerminated, found]
    exact ⟨counted, le_refl _⟩
  | some child =>
    obtain ⟨children, isBuilds, isSubstitutions⟩ := child_terminated_slots settings found
    have builds := slots_of_ended settings .build found
    have substitutions := slots_of_ended settings .substitution found
    have limited := counted.limited
    rw [← children, ← counted.localBuilds] at builds
    rw [← children, ← counted.substitutions] at substitutions
    refine ⟨⟨?_, ?_, ?_⟩, ?_⟩ <;> omega

theorem act_slots (settings : Settings Goal) (worker : Worker Goal) (event : Event Goal) :
    SameSlots (act settings worker event) worker ∨
    (∃ goal, SameSlots (act settings worker event) (worker.childTerminated settings goal)) ∨
    ∃ goal inBuildSlot, event = .childStarted inBuildSlot ∧ worker.activity = .running goal ∧
      SameSlots (act settings worker event) (worker.childStarted settings goal inBuildSlot) := by
  cases event with
  | childStarted inBuildSlot =>
    cases active : worker.activity with
    | running goal =>
      simp [SameSlots, act, active, Worker.suspend]
    | _ => exact .inl (by simp [SameSlots, act, active])
  | giveUp goal | destroy goal =>
    simp only [act, Worker.killChild]
    cases settings.kind goal <;> simp only
    · exact .inl ⟨rfl, rfl, rfl⟩
    · split
      · exact .inr (.inl ⟨goal, rfl, rfl, rfl⟩)
      · exact .inl ⟨rfl, rfl, rfl⟩
    · exact .inr (.inl ⟨goal, rfl, rfl, rfl⟩)
    · exact .inl ⟨rfl, rfl, rfl⟩
  | childTerminated =>
    cases active : worker.activity with
    | running goal => exact .inr (.inl ⟨goal, by simp [SameSlots, act, active]⟩)
    | _ => exact .inl (by simp [SameSlots, act, active])
  | _ =>
    refine .inl ?_
    cases active : worker.activity <;>
      simp only [act, active, Worker.work, Worker.await, Worker.notify, Worker.waitForBuildSlot] <;>
      (repeat' split) <;> exact ⟨rfl, rfl, rfl⟩

theorem counted_step (worker : Worker Goal) (event : Event Goal) (counted : Counted settings worker)
    (allowed : Allowed settings worker event) : Counted settings (act settings worker event) := by
  rcases act_slots settings worker event with same | ⟨goal, same⟩ | ⟨goal, _, rfl, active, same⟩
  · exact counted.same same
  · exact (counted.child_terminated goal).1.same same
  · simp only [Allowed, active] at allowed
    exact (counted.child_started allowed).same same

theorem in_slots_step (worker : Worker Goal) (event : Event Goal) (inSlots : InSlots settings worker)
    (allowed : Allowed settings worker event) :
    InSlots settings (act settings worker event) ↔ SlotFree settings worker event := by
  have counted := counted_step worker event inSlots.1 allowed
  have limit := inSlots.2
  have fewer (after : (act settings worker event).nrSubstitutions ≤ worker.nrSubstitutions) :
      InSlots settings (act settings worker event) := ⟨counted, le_trans after limit⟩
  by_cases starts : ∃ goal, event = .childStarted true ∧ worker.activity = .running goal
  · obtain ⟨goal, rfl, active⟩ := starts
    have after : (act settings worker (.childStarted true)).nrSubstitutions =
        (worker.childStarted settings goal true).nrSubstitutions := by
      simp [act, active, Worker.suspend]
    have effect := (child_started_slots settings worker goal true).2.2
    simp only [Allowed, active] at allowed
    simp only [InSlots, counted, SlotFree, active, after, effect]
    cases kind : settings.kind goal <;> simp [mayStart, kind, GoalKind.jobCategory] at allowed ⊢ <;>
      omega
  · have free : SlotFree settings worker event := by
      unfold SlotFree
      split
      next goal active => exact absurd ⟨goal, rfl, active⟩ starts
      · exact trivial
    refine iff_of_true (fewer ?_) free
    rcases act_slots settings worker event with same | ⟨goal, same⟩ | ⟨goal, slot, rfl, active, same⟩
    · rw [same.2.2]
    · rw [same.2.2]
      exact (inSlots.1.child_terminated goal).2
    · cases slot with
      | false =>
        rw [same.2.2, (child_started_slots settings worker goal false).2.2]
        simp
      | true => exact absurd ⟨goal, rfl, active⟩ starts

/-- In every run the counters are right and the builds are limited. The substitutions are
limited in just the runs in which each query for a realisation finds a free slot. -/
theorem job_slots_iff (settings : Settings Goal) {events : List (Event Goal)}
    (allowed : AllSteps (act settings) (Allowed settings) .new events) :
    AllSteps (act settings) (fun worker event => Counted settings (act settings worker event)) .new
      events ∧
    (AllSteps (act settings) (fun worker event => InSlots settings (act settings worker event)) .new
      events ↔ AllSteps (act settings) (SlotFree settings) .new events) := by
  have counted : Counted settings (Worker.new : Worker Goal) := ⟨rfl, rfl, Nat.zero_le _⟩
  exact ⟨all_steps_of_invariant (Counted settings) counted_step counted_step counted allowed,
    all_steps_kept_iff (InSlots settings) in_slots_step ⟨counted, Nat.zero_le _⟩ allowed⟩

def oneSubstitution : Settings Bool := ⟨false, 1, 1, fun _ => .drvOutputSubstitution⟩

def query (goal : Bool) : List (Event Bool) :=
  [.makeGoal goal, .takeAwake, .work goal, .childStarted true]

theorem one_query_in_slots :
    AllSteps (act oneSubstitution) (Allowed oneSubstitution) .new (query false) ∧
      AllSteps (act oneSubstitution)
        (fun worker event => InSlots oneSubstitution (act oneSubstitution worker event)) .new
        (query false) := by
  have allowed : AllSteps (act oneSubstitution) (Allowed oneSubstitution) .new (query false) := by
    refine ⟨rfl, rfl, ⟨by decide, by decide, by decide⟩, trivial, trivial⟩
  exact ⟨allowed, (job_slots_iff oneSubstitution allowed).2.mpr
    ⟨trivial, trivial, trivial, fun _ => by decide, trivial⟩⟩

theorem two_queries_exceed_slots :
    AllSteps (act oneSubstitution) (Allowed oneSubstitution) .new (query false ++ query true) ∧
      ((query false ++ query true).foldl (act oneSubstitution) .new).nrSubstitutions = 2 ∧
      max 1 oneSubstitution.maxSubstitutionJobs = 1 := by
  refine ⟨?_, by decide, by decide⟩
  exact ⟨rfl, rfl, ⟨by decide, by decide, by decide⟩, trivial, rfl, rfl,
    ⟨by decide, by decide, by decide⟩, trivial, trivial⟩

end Bsd.Store.Goals
