import Bsd.Lib.Machines
import Mathlib.Data.Finset.Card

/-!
# The worker and its goals

A `Worker` runs goals, which are coroutines: `work` resumes one, and it goes on until it waits
for other goals, for a build slot, for a while or for a child, or is done. A goal that is done
tells its waiters one by one. What a goal computes is left open; the events are the calls it
can make and what `waitForInput` can find.
-/

namespace Bsd.Store.Goals

open Function

inductive ExitCode where
  | busy | success | failed | noSubstituters
  deriving DecidableEq

inductive JobCategory where
  | build | substitution | administration
  deriving DecidableEq

inductive GoalKind where
  | derivation | derivationBuilding | pathSubstitution | drvOutputSubstitution

def GoalKind.jobCategory : GoalKind → JobCategory
  | .derivation => .administration
  | .derivationBuilding => .build
  | .pathSubstitution | .drvOutputSubstitution => .substitution

inductive Place where
  | unborn
  | ready
  | running
  | awaiting
  | sleeping
  | wantingSlot
  | withChild
  | done
  | destroyed
  deriving DecidableEq

/-- What the worker does: it is between goals, inside of one, in the loop of `amDone` over the
waiters that are left, or an assertion has failed. -/
inductive Activity (Goal : Type) where
  | idle
  | running (goal : Goal)
  | finishing (goal : Goal) (result : ExitCode) (left : Finset Goal)
  | aborted

structure Child (Goal : Type) where
  goal : Goal
  inBuildSlot : Bool

structure Settings (Goal : Type) where
  keepGoing : Bool
  maxBuildJobs : Nat
  maxSubstitutionJobs : Nat
  /-- The class of each goal. -/
  kind : Goal → GoalKind

/-- The keys of goals differ, so a set in key order is a set of goals. -/
structure Worker (Goal : Type) where
  activity : Activity Goal
  place : Goal → Place
  exitCode : Goal → ExitCode
  waitees : Goal → Finset Goal
  waiters : Goal → Finset Goal
  nrFailed : Goal → Nat
  nrNoSubstituters : Goal → Nat
  awake : Finset Goal
  awake2 : Finset Goal
  waitingForAWhile : Finset Goal
  wantingToBuild : Finset Goal
  children : List (Child Goal)
  nrLocalBuilds : Nat
  nrSubstitutions : Nat

section Calls

variable {Goal : Type}

def Worker.new : Worker Goal where
  activity := .idle
  place _ := .unborn
  exitCode _ := .busy
  waitees _ := ∅
  waiters _ := ∅
  nrFailed _ := 0
  nrNoSubstituters _ := 0
  awake := ∅
  awake2 := ∅
  waitingForAWhile := ∅
  wantingToBuild := ∅
  children := []
  nrLocalBuilds := 0
  nrSubstitutions := 0

variable (settings : Settings Goal) (worker : Worker Goal) (goal : Goal)

/-- A weak pointer to the goal can be locked. -/
def Worker.Live : Prop := worker.place goal ≠ .unborn ∧ worker.place goal ≠ .destroyed

instance : Decidable (worker.Live goal) := inferInstanceAs (Decidable (_ ∧ _))

def Worker.abort : Worker Goal := { worker with activity := .aborted }

variable [DecidableEq Goal]

def Worker.suspend (place : Place) : Worker Goal :=
  { worker with activity := .idle, place := update worker.place goal place }

def Worker.wakeUp : Worker Goal := { worker with awake := insert goal worker.awake }

def Worker.childStarted (inBuildSlot : Bool) : Worker Goal :=
  let started := { worker with children := worker.children ++ [⟨goal, inBuildSlot⟩] }
  if inBuildSlot then
    match (settings.kind goal).jobCategory with
    | .substitution => { started with nrSubstitutions := worker.nrSubstitutions + 1 }
    | .build => { started with nrLocalBuilds := worker.nrLocalBuilds + 1 }
    | .administration => started
  else started

/-- All callers also wake the goals that want to build. -/
def Worker.childTerminated : Worker Goal :=
  match worker.children.find? (·.goal = goal) with
  | none => worker
  | some child =>
    let ended :=
      { worker with
        children := worker.children.eraseP (·.goal = goal)
        awake := worker.awake ∪ worker.wantingToBuild.filter worker.Live
        wantingToBuild := ∅ }
    if child.inBuildSlot then
      match (settings.kind goal).jobCategory with
      | .substitution => { ended with nrSubstitutions := worker.nrSubstitutions - 1 }
      | .build => { ended with nrLocalBuilds := worker.nrLocalBuilds - 1 }
      | .administration => ended
    else ended

/-- The destructor and `killChild`: a build by the hook and a query for a realisation are left
among the children. -/
def Worker.killChild : Worker Goal :=
  match settings.kind goal with
  | .pathSubstitution => worker.childTerminated settings goal
  | .derivationBuilding =>
    if worker.children.any fun child => child.goal = goal ∧ child.inBuildSlot then
      worker.childTerminated settings goal
    else worker
  | .derivation | .drvOutputSubstitution => worker

def Worker.waitForBuildSlot : Worker Goal :=
  let isSubstitutionGoal := (settings.kind goal).jobCategory = .substitution
  if ¬isSubstitutionGoal ∧ worker.nrLocalBuilds < settings.maxBuildJobs ∨
      isSubstitutionGoal ∧ worker.nrSubstitutions < settings.maxSubstitutionJobs then
    worker.wakeUp goal
  else { worker with wantingToBuild := insert goal worker.wantingToBuild }

/-- `Goal::await`, up to its suspension. -/
def Worker.await (newWaitees : Finset Goal) : Worker Goal :=
  if worker.waitees goal ≠ ∅ then worker.abort
  else if newWaitees = ∅ then worker
  else
    { worker with
      waitees := update worker.waitees goal newWaitees
      waiters := fun waitee =>
        if waitee ∈ newWaitees then insert goal (worker.waiters waitee)
        else worker.waiters waitee }.suspend goal .awaiting

/-- `Goal::work`. After `await`, there must be no waitees. -/
def Worker.work : Worker Goal :=
  if worker.place goal = .awaiting ∧ worker.waitees goal ≠ ∅ then worker.abort
  else
    { worker.suspend goal .running with
      activity := .running goal
      awake2 := worker.awake2.erase goal }

def Worker.countFailure (result : ExitCode) : Worker Goal :=
  { worker with
    nrFailed := if result = .failed ∨ result = .noSubstituters then
        update worker.nrFailed goal (worker.nrFailed goal + 1)
      else worker.nrFailed
    nrNoSubstituters := if result = .noSubstituters then
        update worker.nrNoSubstituters goal (worker.nrNoSubstituters goal + 1)
      else worker.nrNoSubstituters }

def Worker.notify (result : ExitCode) (left : Finset Goal) (waiter : Goal) : Worker Goal :=
  let worker := { worker with activity := .finishing goal result (left.erase waiter) }
  if ¬worker.Live waiter then worker
  else if goal ∉ worker.waitees waiter then worker.abort
  else
    let waitees := (worker.waitees waiter).erase goal
    let told :=
      { worker.countFailure waiter result with
        waitees := update worker.waitees waiter waitees }
    if waitees = ∅ then told.wakeUp waiter
    else if result = .failed ∧ settings.keepGoing = false then
      { told with
        waiters := fun waitee =>
          if waitee ∈ waitees then (worker.waiters waitee).erase waiter else worker.waiters waitee
        waitees := update worker.waitees waiter ∅ }.wakeUp waiter
    else told

end Calls

inductive Event (Goal : Type) where
  | makeGoal (goal : Goal)
  | takeAwake
  | work (goal : Goal)
  | handleEOF (goal : Goal)
  /-- The child has run for too long or written too much. -/
  | giveUp (goal : Goal)
  /-- The goals that wait for a while are woken. -/
  | poll
  | destroy (goal : Goal)
  | await (newWaitees : Finset Goal)
  | yield
  | waitForAWhile
  | waitForBuildSlot
  | childStarted (inBuildSlot : Bool)
  | childTerminated
  | amDone (result : ExitCode)
  | notify (waiter : Goal)
  | finish

section Events

variable {Goal : Type} [DecidableEq Goal] (settings : Settings Goal)

def Worker.beginDone (worker : Worker Goal) (goal : Goal) (result : ExitCode) : Worker Goal :=
  { worker with
    exitCode := update worker.exitCode goal result
    activity := .finishing goal result (worker.waiters goal) }

def act (worker : Worker Goal) (event : Event Goal) : Worker Goal :=
  match event, worker.activity with
  | .makeGoal goal, _ =>
    { worker with place := update worker.place goal .ready }.wakeUp goal
  | .takeAwake, _ => { worker with awake := ∅, awake2 := worker.awake.filter worker.Live }
  | .work goal, _ => worker.work goal
  | .handleEOF goal, _ => worker.wakeUp goal
  | .giveUp goal, _ => (worker.killChild settings goal).beginDone goal .failed
  | .poll, _ =>
    { worker with
      awake := worker.awake ∪ worker.waitingForAWhile.filter worker.Live
      waitingForAWhile := ∅ }
  | .destroy goal, _ =>
    { worker.killChild settings goal with
      place := update worker.place goal .destroyed }
  | .await newWaitees, .running goal => worker.await goal newWaitees
  | .yield, .running goal => (worker.wakeUp goal).suspend goal .ready
  | .waitForAWhile, .running goal =>
    { worker with waitingForAWhile := insert goal worker.waitingForAWhile }.suspend goal .sleeping
  | .waitForBuildSlot, .running goal =>
    (worker.waitForBuildSlot settings goal).suspend goal .wantingSlot
  | .childStarted inBuildSlot, .running goal =>
    (worker.childStarted settings goal inBuildSlot).suspend goal .withChild
  | .childTerminated, .running goal => worker.childTerminated settings goal
  | .amDone result, .running goal => worker.beginDone goal result
  | .notify waiter, .finishing goal result left =>
    worker.notify settings goal result left waiter
  | .finish, .finishing goal _ _ =>
    { worker with waiters := update worker.waiters goal ∅ }.suspend goal .done
  | _, _ => worker

/-- A goal of each class starts a child only so. A build by the hook takes no slot. -/
def mayStart (worker : Worker Goal) (goal : Goal) (inBuildSlot : Bool) : Prop :=
  match settings.kind goal, inBuildSlot with
  | .derivationBuilding, true => worker.nrLocalBuilds < settings.maxBuildJobs
  | .derivationBuilding, false => True
  | .pathSubstitution, true => worker.nrSubstitutions < max 1 settings.maxSubstitutionJobs
  | .drvOutputSubstitution, true => True
  | _, _ => False

/-- When an event can happen. A goal is kept alive by `awake2` and by the waitees of others. -/
def Allowed (worker : Worker Goal) (event : Event Goal) : Prop :=
  match event, worker.activity with
  | .makeGoal goal, .idle | .makeGoal goal, .running _ => worker.place goal = .unborn
  | .takeAwake, .idle | .poll, .idle => worker.awake2 = ∅
  | .work goal, .idle => goal ∈ worker.awake2 ∧ worker.Live goal ∧ worker.place goal ≠ .done
  | .handleEOF goal, .idle | .giveUp goal, .idle =>
    worker.awake2 = ∅ ∧ worker.place goal = .withChild
  | .destroy goal, activity =>
    (match activity with
      | .idle => True
      | .running other | .finishing other _ _ => goal ≠ other
      | .aborted => False) ∧
    worker.Live goal ∧ goal ∉ worker.awake2 ∧ ∀ other, worker.Live other → goal ∉ worker.waitees other
  | .await newWaitees, .running _ =>
    ∀ waitee ∈ newWaitees, worker.Live waitee ∧ worker.exitCode waitee = .busy
  | .yield, .running _ | .waitForAWhile, .running _ | .waitForBuildSlot, .running _
  | .childTerminated, .running _ => True
  | .childStarted inBuildSlot, .running goal => mayStart settings worker goal inBuildSlot
  | .amDone result, .running _ => result ≠ .busy
  | .notify waiter, .finishing _ _ left => waiter ∈ left
  | .finish, .finishing _ _ left => left = ∅
  | _, _ => False

end Events

end Bsd.Store.Goals
