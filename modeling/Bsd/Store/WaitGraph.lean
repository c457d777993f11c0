import Bsd.Store.Goals

/-!
# Who waits for whom

`await` enters a goal among the waiters of its waitees, and `amDone` takes the finished goal
out of the waitees of its waiters. Between the two, the loop of `amDone` has a part of the
waiters yet to tell. A goal waits in one place at a time: it is among the goals that sleep, that
want a slot, that have waitees, or it has been woken.
-/

namespace Bsd.Store.Goals

open Lib.Machines Worker Function

variable {Goal : Type} [DecidableEq Goal]

section

variable (worker : Worker Goal) (goal : Goal)

def Worker.waitersLeft : Finset Goal :=
  match worker.activity with
  | .finishing other _ left => if goal = other then left else worker.waiters goal
  | _ => worker.waiters goal

def Worker.Finishing : Prop :=
  match worker.activity with
  | .finishing other _ _ => goal = other
  | _ => False

def Worker.Asleep : Prop := goal ∉ worker.awake ∧ goal ∉ worker.awake2

end

structure Consistent (worker : Worker Goal) : Prop where
  notAborted : worker.activity ≠ .aborted
  linked : ∀ goal waiter, worker.Live goal → worker.Live waiter →
    (goal ∈ worker.waitees waiter ↔ waiter ∈ worker.waitersLeft goal)
  busy : ∀ waiter, worker.Live waiter → ∀ goal ∈ worker.waitees waiter, worker.Live goal ∧
    (worker.exitCode goal = .busy ∨ worker.Finishing goal)
  waiting : ∀ waiter, worker.Live waiter → worker.waitees waiter ≠ ∅ →
    worker.place waiter = .awaiting ∧ worker.Asleep waiter
  suspended : ∀ waiter, worker.place waiter = .awaiting →
    worker.waitees waiter ≠ ∅ ∨ ¬worker.Asleep waiter
  apart : ∀ goal ∈ worker.awake2, worker.Live goal ∧ goal ∉ worker.awake
  running : ∀ goal, worker.activity = .running goal →
    worker.place goal = .running ∧ worker.Asleep goal
  finishing : ∀ goal, worker.Finishing goal →
    worker.place goal = .running ∨ worker.place goal = .withChild
  left : ∀ goal, worker.waitersLeft goal ⊆ worker.waiters goal
  sleeping : ∀ goal ∈ worker.waitingForAWhile,
    worker.place goal = .sleeping ∧ worker.Asleep goal ∨ worker.place goal = .destroyed
  wanting : ∀ goal ∈ worker.wantingToBuild,
    worker.place goal = .wantingSlot ∧ worker.Asleep goal ∨ worker.place goal = .destroyed
  unborn : ∀ goal, worker.place goal = .unborn → worker.waitees goal = ∅ ∧ worker.waiters goal = ∅ ∧
    ∀ other, goal ∉ worker.waiters other

variable {settings : Settings Goal} {worker : Worker Goal}

section

variable (good : Consistent worker)

include good

theorem Consistent.with_children (children : List (Child Goal)) (builds substitutions : Nat) :
    Consistent
      { worker with
        children := children
        nrLocalBuilds := builds
        nrSubstitutions := substitutions } := { good with }

theorem Consistent.child_started (goal : Goal) (inBuildSlot : Bool) :
    Consistent (worker.childStarted settings goal inBuildSlot) := by
  simp only [childStarted]
  (repeat' split) <;> exact good.with_children _ _ _

variable {goal : Goal}

/-- Live goals that wait for no others may be woken when they are taken off the lists. -/
theorem Consistent.woken {awake waitingForAWhile wantingToBuild : Finset Goal}
    (grows : worker.awake ⊆ awake)
    (free : ∀ goal ∈ awake, goal ∈ worker.awake ∨ (worker.Live goal ∧ goal ∉ worker.awake2 ∧
      worker.place goal ≠ .awaiting ∧ worker.place goal ≠ .running))
    (sleeps : ∀ goal ∈ waitingForAWhile, goal ∈ worker.waitingForAWhile ∧
      (goal ∈ awake → goal ∈ worker.awake))
    (wants : ∀ goal ∈ wantingToBuild, goal ∈ worker.wantingToBuild ∧
      (goal ∈ awake → goal ∈ worker.awake)) :
    Consistent
      { worker with
        awake := awake
        waitingForAWhile := waitingForAWhile
        wantingToBuild := wantingToBuild } := by
  refine { good with waiting := ?_, suspended := ?_, apart := ?_, running := ?_, sleeping := ?_,
                     wanting := ?_ }
  all_goals
    cases good
    simp only [Worker.Asleep, Worker.Live] at *
    grind

theorem Consistent.wake_up (live : worker.Live goal) (asleep : goal ∉ worker.awake2)
    (waits : worker.place goal ≠ .awaiting ∧ worker.place goal ≠ .running)
    (unlisted : goal ∉ worker.waitingForAWhile ∧ goal ∉ worker.wantingToBuild) :
    Consistent (worker.wakeUp goal) := by
  refine good.woken (Finset.subset_insert _ _) ?_ ?_ ?_ <;> grind

theorem Consistent.unlisted (sleeps : worker.place goal ≠ .sleeping)
    (wants : worker.place goal ≠ .wantingSlot) (remains : worker.place goal ≠ .destroyed) :
    goal ∉ worker.waitingForAWhile ∧ goal ∉ worker.wantingToBuild :=
  ⟨fun member => (good.sleeping goal member).elim (fun both => sleeps both.1) remains,
    fun member => (good.wanting goal member).elim (fun both => wants both.1) remains⟩

theorem Consistent.child_terminated (goal : Goal) :
    Consistent (worker.childTerminated settings goal) := by
  have woken : Consistent
      { worker with
        awake := worker.awake ∪ worker.wantingToBuild.filter worker.Live
        wantingToBuild := ∅ } := by
    have sleeping := good.sleeping
    have wanting := good.wanting
    refine good.woken Finset.subset_union_left ?_ ?_ nofun <;> grind [Worker.Live, Worker.Asleep]
  simp only [childTerminated]
  split
  · exact good
  · (repeat' split) <;> exact woken.with_children _ _ _

theorem Consistent.kill_child (settings : Settings Goal) (goal : Goal) :
    Consistent (worker.killChild settings goal) := by
  simp only [killChild]
  (repeat' split) <;> first | exact good | exact good.child_terminated goal

end

variable {goal : Goal}

theorem Consistent.no_waitees (good : Consistent worker) (active : worker.activity = .running goal) :
    worker.waitees goal = ∅ := by
  have isRunning := (good.running goal active).1
  by_contra some
  have awaiting := (good.waiting goal (by simp [Worker.Live, isRunning]) some).1
  rw [isRunning] at awaiting
  cases awaiting

theorem Consistent.after_await (good : Consistent worker) (active : worker.activity = .running goal)
    {newWaitees : Finset Goal}
    (busyWaitees : ∀ waitee ∈ newWaitees, worker.Live waitee ∧ worker.exitCode waitee = .busy) :
    Consistent (worker.await goal newWaitees) := by
  have none := good.no_waitees active
  by_cases empty : newWaitees = ∅
  · simpa [await, none, empty] using good
  simp only [await, none, if_neg empty]
  cases good
  constructor <;> simp [suspend, Worker.Asleep, Worker.Live, Worker.Finishing,
    waitersLeft, active] at * <;> grind

theorem Consistent.after_work (good : Consistent worker) (idle : worker.activity = .idle)
    (woken : goal ∈ worker.awake2) : Consistent (worker.work goal) := by
  have unwaiting : ¬(worker.place goal = .awaiting ∧ worker.waitees goal ≠ ∅) :=
    fun both => (good.waiting goal (good.apart goal woken).1 both.2).2.2 woken
  simp only [work, if_neg unwaiting]
  cases good
  constructor <;> simp only [suspend, Worker.Asleep, Worker.Live, Worker.Finishing,
    waitersLeft, idle] at * <;> grind

section Notify

variable {goal waiter : Goal} {result : ExitCode} {left kept awake : Finset Goal}
  {waiters : Goal → Finset Goal}

section

variable (good : Consistent worker) (active : worker.activity = .finishing goal result left)

include good active

/-- The waiter keeps some of its other waitees and is woken when none is left. -/
theorem Consistent.told (live : worker.Live waiter)
    (waits : goal ∈ worker.waitees waiter) (others : kept ⊆ (worker.waitees waiter).erase goal)
    (dropped : ∀ waitee, waiters waitee = if waitee ∈ (worker.waitees waiter).erase goal \ kept then
      (worker.waiters waitee).erase waiter else worker.waiters waitee)
    (woken : awake = if kept = ∅ then insert waiter worker.awake else worker.awake) :
    Consistent
      { worker with
        activity := .finishing goal result (left.erase waiter)
        waitees := update worker.waitees waiter kept
        waiters := waiters
        awake := awake } := by
  have place := good.waiting waiter live (Finset.ne_empty_of_mem waits)
  obtain ⟨notAborted, linked, busy, waiting, suspended, apart, running, finishing, remaining,
    sleeping, wanting, unborn⟩ := good
  simp only [Worker.Asleep, Worker.Live, Worker.Finishing, waitersLeft, active] at *
  constructor
  case linked =>
    intro other another otherLive anotherLive
    have link := linked other another otherLive anotherLive
    simp only [waitersLeft]
    by_cases here : other = goal <;> by_cases there : another = waiter <;> grind
  all_goals
    simp only [Worker.Asleep, Worker.Live, Worker.Finishing, waitersLeft]
    grind

theorem Consistent.after_notify (member : waiter ∈ left) :
    Consistent (worker.notify settings goal result left waiter) := by
  have isLive : worker.Live goal := by
    have place := good.finishing goal (by simp [Worker.Finishing, active])
    simp only [Worker.Live]
    grind
  by_cases live : worker.Live waiter
  · have waits : goal ∈ worker.waitees waiter := by
      rw [good.linked goal waiter isLive live]
      simpa [waitersLeft, active] using member
    have counted : Consistent (worker.countFailure waiter result) := { good with }
    simp only [notify, Worker.Live] at live ⊢
    rw [if_neg (not_not.mpr live), if_neg (not_not.mpr waits)]
    split
    next none =>
      exact counted.told active live waits (subset_rfl)
        (fun waitee => by simp [countFailure]) (by simp [none, countFailure])
    next some =>
      split
      · exact counted.told active live waits (Finset.empty_subset _)
          (fun waitee => by simp [countFailure]) (by simp [countFailure])
      · exact counted.told active live waits (subset_rfl)
          (fun waitee => by simp [countFailure]) (by simp [some, countFailure])
  · simp only [notify, Worker.Live] at live ⊢
    rw [if_pos live]
    cases good
    constructor <;> simp only [Worker.Asleep, Worker.Live, Worker.Finishing, waitersLeft,
      active] at * <;> grind

end

end Notify

theorem kill_child_keeps (settings : Settings Goal) (worker : Worker Goal) (goal : Goal) :
    (worker.killChild settings goal).activity = worker.activity ∧
      (worker.killChild settings goal).place = worker.place ∧
      (worker.killChild settings goal).waitees = worker.waitees ∧
      (worker.killChild settings goal).awake2 = worker.awake2 := by
  simp only [killChild, childTerminated]
  (repeat' split) <;> exact ⟨rfl, rfl, rfl, rfl⟩

section

variable (good : Consistent worker)

include good

theorem Consistent.destroyed (settings : Settings Goal)
    (allowed : Allowed settings worker (.destroy goal)) :
    Consistent { worker with place := update worker.place goal .destroyed } := by
  cases good
  cases active : worker.activity <;> simp [Allowed] at allowed <;>
    constructor <;> simp only [Worker.Asleep, Worker.Live, Worker.Finishing, waitersLeft,
      active] at * <;> grind

theorem Consistent.begin_done (result : ExitCode) (active : worker.activity = .running goal ∨
      worker.activity = .idle ∧ worker.place goal = .withChild) :
    Consistent (worker.beginDone goal result) := by
  have quiet : worker.waitersLeft = worker.waiters ∧ ∀ other, ¬worker.Finishing other := by
    obtain active | ⟨active, _⟩ := active <;> simp [funext_iff, waitersLeft, Worker.Finishing, active]
  have all : (worker.beginDone goal result).waitersLeft = worker.waiters := by
    funext other
    simp only [waitersLeft, beginDone, ite_eq_right_iff]
    exact congrArg worker.waiters ∘ Eq.symm
  refine { good with notAborted := nofun, linked := ?_, busy := ?_, running := nofun, finishing := ?_,
                     left := ?_ }
  · rw [all, ← quiet.1]
    exact good.linked
  · intro waiter live waitee waits
    obtain ⟨isLive, busy⟩ := good.busy waiter live waitee waits
    refine ⟨isLive, ?_⟩
    obtain rfl | differ := eq_or_ne waitee goal
    · exact .inr rfl
    · exact .inl ((update_of_ne differ _ _).trans (busy.resolve_right (quiet.2 waitee)))
  · rintro other rfl
    exact active.imp (fun running => (good.running other running).1) And.right
  · rw [all]
    exact fun other => subset_rfl

/-- The running goal waits for none and is on no list, so it may stop anywhere but in a wait. -/
theorem Consistent.stopped (active : worker.activity = .running goal) {place : Place}
    (isPlace : place ≠ .unborn ∧ place ≠ .destroyed) (waits : place ≠ .awaiting) :
    Consistent (worker.suspend goal place) := by
  have none := good.no_waitees active
  have isRunning := (good.running goal active).1
  have elsewhere : ∀ other, worker.place other ≠ .running →
      update worker.place goal place other = worker.place other := by
    intro other differ
    refine update_of_ne ?_ _ _
    rintro rfl
    exact differ isRunning
  obtain ⟨_, linked, busy, waiting, suspended, apart, _, _, _, sleeping, wanting, unborn⟩ := good
  constructor
  all_goals
    simp only [suspend, Worker.Asleep, Worker.Live, Worker.Finishing, waitersLeft, active] at *
    grind

theorem Consistent.yielded (active : worker.activity = .running goal) {place : Place}
    (isPlace : place ≠ .unborn ∧ place ≠ .destroyed) (waits : place ≠ .awaiting ∧ place ≠ .running) :
    Consistent ((worker.wakeUp goal).suspend goal place) := by
  obtain ⟨isRunning, asleep⟩ := good.running goal active
  refine (good.stopped active isPlace waits.1).wake_up ?_ asleep.2 ?_ (good.unlisted ?_ ?_ ?_) <;>
    simp [Worker.Live, suspend, isPlace, waits, isRunning]

theorem Consistent.finished {result : ExitCode}
    (active : worker.activity = .finishing goal result ∅) :
    Consistent ({ worker with
      waiters := update worker.waiters goal ∅ }.suspend goal .done) := by
  cases good
  constructor <;> simp only [suspend, Worker.Asleep, Worker.Live, Worker.Finishing,
    waitersLeft, active] at * <;> grind

theorem Consistent.awake_taken (idle : worker.activity = .idle) (none : worker.awake2 = ∅) :
    Consistent { worker with awake := ∅, awake2 := worker.awake.filter worker.Live } := by
  have asleep : ∀ goal, worker.Asleep goal →
      goal ∉ (∅ : Finset Goal) ∧ goal ∉ worker.awake.filter worker.Live :=
    fun goal sleeps => ⟨Finset.notMem_empty _, fun member => sleeps.1 (Finset.mem_filter.mp member).1⟩
  refine { good with waiting := ?_, suspended := ?_, apart := ?_, running := ?_, sleeping := ?_,
                     wanting := ?_ }
  · exact fun waiter live some => (good.waiting waiter live some).imp_right (asleep waiter)
  · intro waiter awaiting
    refine (good.suspended waiter awaiting).imp_right fun awake sleeps => awake ⟨?_, ?_⟩
    · have live : worker.Live waiter := by simp_all [Worker.Live]
      exact fun member => sleeps.2 (Finset.mem_filter.mpr ⟨member, live⟩)
    · simp [none]
  · exact fun goal member => ⟨(Finset.mem_filter.mp member).2, Finset.notMem_empty _⟩
  · intro goal active
    cases idle.symm.trans active
  · exact fun goal member => (good.sleeping goal member).imp_left (And.imp_right (asleep goal))
  · exact fun goal member => (good.wanting goal member).imp_left (And.imp_right (asleep goal))

/-- A goal that is made comes among the live ones, and none of them is linked with it. -/
theorem Consistent.made (isUnborn : worker.place goal = .unborn) :
    Consistent { worker with place := update worker.place goal .ready } := by
  obtain ⟨none, noWaiters, nobody⟩ := good.unborn goal isUnborn
  obtain ⟨notAborted, linked, busy, waiting, suspended, apart, running, finishing, left, sleeping,
    wanting, unborn⟩ := good
  constructor
  all_goals
    simp only [Worker.Asleep, Worker.Live, Worker.Finishing, waitersLeft] at *
    grind

end

/-- Each event keeps the books consistent: live goals that wait and those they wait for name
each other, and a goal that waits is neither running nor about to run. -/
theorem consistent_step (worker : Worker Goal) (event : Event Goal) (good : Consistent worker)
    (allowed : Allowed settings worker event) : Consistent (act settings worker event) := by
  have original := allowed
  cases event <;> cases active : worker.activity <;> simp only [Allowed, active] at allowed
  case makeGoal.idle goal | makeGoal.running goal _ =>
    have unlisted : goal ∉ worker.waitingForAWhile ∧ goal ∉ worker.wantingToBuild :=
      good.unlisted (by simp [allowed]) (by simp [allowed]) (by simp [allowed])
    refine (good.made allowed).wake_up (by simp [Worker.Live]) ?_ (by simp) unlisted
    exact fun member => (good.apart goal member).1.1 allowed
  case takeAwake.idle => exact good.awake_taken active allowed
  case poll.idle =>
    have sleeping := good.sleeping
    have wanting := good.wanting
    refine good.woken Finset.subset_union_left ?_ ?_ ?_ <;> grind [Worker.Live, Worker.Asleep]
  case handleEOF.idle goal =>
    refine good.wake_up ?_ ?_ ?_ (good.unlisted ?_ ?_ ?_) <;> simp [Worker.Live, allowed]
  all_goals simp [act, active]
  case work.idle goal => exact good.after_work active allowed.1
  case giveUp.idle goal =>
    obtain ⟨activity, place, _, _⟩ := kill_child_keeps settings worker goal
    refine (good.kill_child settings goal).begin_done _ (.inr ⟨activity.trans active, ?_⟩)
    rw [place]
    exact allowed.2
  case destroy.idle goal | destroy.running goal _ | destroy.finishing goal _ _ _ =>
    obtain ⟨activity, place, waitees, awake2⟩ := kill_child_keeps settings worker goal
    have killed := (good.kill_child settings goal).destroyed settings
      (by simpa [Allowed, Worker.Live, activity, place, waitees, awake2] using original)
    rwa [place] at killed
  case destroy.aborted goal => exact allowed.1.elim
  case await.running newWaitees goal => exact good.after_await active allowed
  case yield.running goal => exact good.yielded active ⟨nofun, nofun⟩ ⟨nofun, nofun⟩
  case waitForAWhile.running goal =>
    have stopped : Consistent (worker.suspend goal .sleeping) :=
      good.stopped active ⟨nofun, nofun⟩ nofun
    refine { stopped with sleeping := fun other member => ?_ }
    obtain rfl | old := Finset.mem_insert.mp member
    · exact .inl ⟨update_self .., (good.running other active).2⟩
    · exact stopped.sleeping other old
  case waitForBuildSlot.running goal =>
    simp only [waitForBuildSlot]
    split
    · exact good.yielded active ⟨nofun, nofun⟩ ⟨nofun, nofun⟩
    · have stopped : Consistent (worker.suspend goal .wantingSlot) :=
        good.stopped active ⟨nofun, nofun⟩ nofun
      refine { stopped with wanting := fun other member => ?_ }
      obtain rfl | old := Finset.mem_insert.mp member
      · exact .inl ⟨update_self .., (good.running other active).2⟩
      · exact stopped.wanting other old
  case childStarted.running inBuildSlot goal =>
    refine (good.child_started goal inBuildSlot).stopped ?_ ⟨nofun, nofun⟩ nofun
    simp only [childStarted]
    (repeat' split) <;> exact active
  case childTerminated.running goal => exact good.child_terminated goal
  case amDone.running result goal => exact good.begin_done result (.inl active)
  case notify.finishing waiter goal result left => exact good.after_notify active allowed
  case finish.finishing goal result left =>
    rw [allowed] at active
    exact good.finished active

/-- Live goals are linked both ways, and a goal that waits for others has busy ones to wait for
or has been woken. -/
structure Bookkeeping (worker : Worker Goal) : Prop where
  linked : ∀ goal waiter, worker.Live goal → worker.Live waiter →
    (goal ∈ worker.waitees waiter ↔ waiter ∈ worker.waiters goal)
  busy : ∀ waiter, worker.Live waiter → ∀ goal ∈ worker.waitees waiter, worker.exitCode goal = .busy
  suspended : ∀ goal, worker.place goal = .awaiting →
    worker.waitees goal ≠ ∅ ∨ goal ∈ worker.awake ∨ goal ∈ worker.awake2

/-- No run fails an assertion, and the books are in order whenever no goal is at work. -/
theorem bookkeeping_consistent (settings : Settings Goal) {events : List (Event Goal)}
    (allowed : AllSteps (act settings) (Allowed settings) .new events) :
    (events.foldl (act settings) .new).activity ≠ .aborted ∧
      ((events.foldl (act settings) .new).activity = .idle →
        Bookkeeping (events.foldl (act settings) .new)) := by
  have fresh : Consistent (Worker.new : Worker Goal) := by
    constructor <;> simp [Worker.new, Worker.waitersLeft, Worker.Finishing]
  have good := run_invariant Consistent consistent_step fresh allowed
  refine ⟨good.notAborted, fun idle => ⟨?_, ?_, ?_⟩⟩
  · intro goal waiter goalLive waiterLive
    simpa [Worker.waitersLeft, idle] using good.linked goal waiter goalLive waiterLive
  · intro waiter live goal member
    simpa [Worker.Finishing, idle] using (good.busy waiter live goal member).2
  · intro goal awaiting
    have woken := good.suspended goal awaiting
    simp only [Worker.Asleep] at woken
    tauto

def firstFailureEnds : Settings (Fin 3) := ⟨false, 1, 1, fun _ => .derivation⟩

def firstFails : List (Event (Fin 3)) :=
  [.makeGoal 0, .makeGoal 1, .makeGoal 2, .takeAwake, .work 0, .await {1, 2}, .work 1,
    .amDone .failed, .notify 0, .finish]

theorem first_failure_wakes :
    AllSteps (act firstFailureEnds) (Allowed firstFailureEnds) .new firstFails ∧
      (firstFails.foldl (act firstFailureEnds) .new).awake = {0} ∧
      Bookkeeping (firstFails.foldl (act firstFailureEnds) .new) := by
  have allowed : AllSteps (act firstFailureEnds) (Allowed firstFailureEnds) .new firstFails := by
    refine ⟨rfl, rfl, rfl, rfl, ⟨by decide, by decide, by decide⟩, ?_,
      ⟨by decide, by decide, by decide⟩, nofun, Finset.mem_insert_self _ _, rfl, trivial⟩
    change ∀ waitee ∈ ({1, 2} : Finset (Fin 3)), Worker.Live _ waitee ∧ Worker.exitCode _ waitee = .busy
    decide
  exact ⟨allowed, by decide, (bookkeeping_consistent firstFailureEnds allowed).2 rfl⟩

end Bsd.Store.Goals
