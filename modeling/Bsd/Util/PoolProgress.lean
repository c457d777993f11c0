import Mathlib.Algebra.GroupWithZero.Nat
import Mathlib.Algebra.BigOperators.Group.List.Basic
import Bsd.Util.ThreadPool

/-!
# Progress of a thread pool

No notification is lost: as long as the pool is being drained and not told to quit, some
thread does not wait. So the pool is never stuck before `process` has ended, provided that
the items themselves are not. A potential that every step takes something from, other
than waking up for no reason, bounds the length of the runs of finitely many items.
-/

namespace Bsd.Util.ThreadPool

open List Thread

variable {Job Local State Error : Type} {code : Code Job Local State Error} {maxThreads : Nat}
  {config next : Config Job Local State Error}

section Waiting

variable {threads woken before after : Threads Local Error} {thread : Thread Local Error}

def AllAwake (threads : Threads Local Error) : Prop :=
  ∀ thread ∈ threads, thread.isWaiting = false

def SomeAwake (threads : Threads Local Error) : Prop :=
  ∃ thread ∈ threads, thread.isWaiting = false

theorem wake_awake (thread : Thread Local Error) : thread.wake.isWaiting = false := by
  unfold isWaiting wake
  cases at_ : thread.place with
  | waiting => rfl
  | _ => simp [at_]

theorem busy_awake (busy : thread.isBusy = true) : thread.isWaiting = false := by
  unfold isBusy at busy
  unfold isWaiting
  cases at_ : thread.place with
  | waiting =>
    rw [at_] at busy
    cases busy
  | _ => rfl

theorem notify_all_awake (threads : Threads Local Error) : AllAwake (notifyAll threads) := by
  intro thread member
  obtain ⟨other, _, rfl⟩ := mem_map.mp member
  exact wake_awake other

theorem notify_all_eq (awake : AllAwake threads) : notifyAll threads = threads := by
  refine (map_congr_left fun thread member => ?_).trans (map_id threads)
  have notWaiting := awake thread member
  unfold isWaiting at notWaiting
  unfold wake
  cases at_ : thread.place with
  | waiting =>
    rw [at_] at notWaiting
    cases notWaiting
  | _ => rfl

theorem some_awake_notified (notified : NotifiedOne threads woken) (awake : SomeAwake threads) :
    SomeAwake woken := by
  cases notified with
  | none => exact awake
  | one before after thread =>
    exact ⟨thread.wake, selected_mem, wake_awake thread⟩

theorem exists_notified_one (threads : Threads Local Error) :
    ∃ woken, NotifiedOne threads woken := by
  by_cases awake : ∀ thread ∈ threads, thread.isWaiting = false
  · exact ⟨threads, .none awake⟩
  push Not at awake
  obtain ⟨thread, member, waits⟩ := awake
  obtain ⟨before, after, rfl⟩ := append_of_mem member
  exact ⟨_, .one before after thread ((Bool.not_eq_false _).mp waits)⟩

theorem mem_spawn {shared : Shared Job State Error} (member : thread ∈ threads) :
    thread ∈ spawn maxThreads shared threads := by
  unfold spawn
  split
  · exact mem_append_left _ member
  · exact member

/-- No notification is lost. -/
structure Lively (config : Config Job Local State Error) : Prop where
  quitting : config.shared.quit = true → AllAwake config.threads
  draining : config.shared.draining = true → config.shared.quit = false → SomeAwake config.threads

structure Notifies (before after : Shared Job State Error) (place : Place Local) (all : Bool) :
    Prop where
  quits : after.quit = true → all = true ∨ (before.quit = true ∧ place = .returned)
  waits : after.quit = false → place = .waiting → after.draining = true → after.active ≠ 0

variable {shared shared_ : Shared Job State Error} {place : Place Local} {all : Bool}

theorem Awaits.notifies (awaits : Awaits code shared shared_ place all) :
    Notifies shared shared_ place all := by
  cases awaits with
  | quits quit => exact ⟨fun _ => .inr ⟨quit, rfl⟩, nofun⟩
  | takes open_ => exact ⟨fun quit => (nomatch open_.symm.trans quit), nofun⟩
  | drains => exact ⟨fun _ => .inl rfl, nofun⟩
  | waits open_ busy =>
    refine ⟨fun quit => (nomatch open_.symm.trans quit), fun _ _ drains idle => ?_⟩
    exact busy ⟨idle, drains⟩

theorem notifies_loop_top (section_ : shared.loopTop code thread = some (shared_, place, all)) :
    Notifies shared shared_ place all := by
  obtain ⟨between, first, second, _, finishes, awaits, rfl⟩ | ⟨_, awaits⟩ := loop_top_cases section_
  · have notifies := awaits.notifies
    refine ⟨fun quit => ?_, notifies.waits⟩
    obtain rfl | ⟨quit, returns⟩ := notifies.quits quit
    · exact .inl (Bool.or_true first)
    generalize thread.exc = exc at finishes
    cases finishes with
    | fails => exact .inl rfl
    | ends => exact .inr ⟨quit, returns⟩
  · exact awaits.notifies

theorem Lively.itemStep {ticket : Nat} {action : Action Job Local State Error}
    (lively : Lively config) (selected : config.threads = before ++ thread :: after)
    (acted : ItemStep maxThreads before after thread ticket config action next) : Lively next := by
  have moves : ∀ {shared : Shared Job State Error} {other : Thread Local Error},
      other.isWaiting = false → shared.quit = config.shared.quit →
        Lively (⟨shared, before ++ other :: after, config.phase⟩ : Config Job Local State Error) := by
    intro shared other awake sameQuit
    refine ⟨fun quit => ?_, fun _ _ => ⟨other, selected_mem, awake⟩⟩
    have all := lively.quitting (sameQuit.symm.trans quit)
    rw [selected] at all
    exact all_swap all awake
  cases acted with
  | finish | throw | refuse | checkInterrupt | proceed => exact moves rfl rfl
  | abort => exact ⟨lively.quitting, lively.draining⟩
  | enqueue job other refused open_ notified =>
    refine ⟨fun quit => (nomatch open_.symm.trans quit), fun _ _ => ?_⟩
    exact some_awake_notified notified
      ⟨thread.moveTo (.running ticket other), mem_spawn selected_mem, rfl⟩

theorem Lively.loopTop (owned : Owned config)
    (lively : Lively config) (selected : config.threads = before ++ thread :: after)
    (section_ : config.shared.loopTop code thread = some (shared, place, all)) :
    Lively (⟨shared, if all then notifyAll (before ++ thread.moveTo place :: after)
      else before ++ thread.moveTo place :: after, config.phase⟩ : Config Job Local State Error) := by
  have notifies := notifies_loop_top section_
  cases all with
  | true =>
    refine ⟨fun _ => notify_all_awake _, fun _ _ => ?_⟩
    exact ⟨_, mem_map_of_mem selected_mem, wake_awake _⟩
  | false =>
    refine ⟨fun quit => ?_, fun drains open_ => ?_⟩
    · obtain notified | ⟨quitBefore, returns⟩ := notifies.quits quit
      · cases notified
      · have awake := lively.quitting quitBefore
        rw [selected] at awake
        exact all_swap awake (by rw [returns]; rfl)
    by_cases awake : (thread.moveTo place).isWaiting = false
    · exact ⟨thread.moveTo place, selected_mem, awake⟩
    have waits : place = .waiting := by
      cases place with
      | waiting => rfl
      | _ => exact absurd rfl awake
    have safe := owned.safe
    rw [selected] at safe
    have busy := (safe.loopTop section_).active
    have some : 0 < (before ++ thread.moveTo place :: after).countP isBusy := by
      rw [← busy]
      exact Nat.pos_of_ne_zero (notifies.waits open_ waits drains)
    obtain ⟨other, member, isBusy⟩ := countP_pos_iff.mp some
    exact ⟨other, member, busy_awake isBusy⟩

theorem lively_step (owned : Owned config) (lively : Lively config)
    (step : Step code maxThreads config next) : Lively next := by
  have notDraining : ∀ {caller}, config.phase = .calling caller → config.shared.draining = false :=
    fun calling => owned.before (calling ▸ rfl)
  cases step with
  | submit job caller refused calling open_ =>
    exact ⟨fun quit => (nomatch open_.symm.trans quit),
      fun drains => (nomatch (notDraining calling).symm.trans drains)⟩
  | refuse | abandon | assertActive | assertQuit | succeed | rethrow | join =>
    exact ⟨lively.quitting, lively.draining⟩
  | process =>
    refine ⟨fun quit => forall_mem_append.mpr ⟨lively.quitting quit, ?_⟩, fun _ _ => ?_⟩
    · exact forall_mem_singleton.mpr rfl
    · exact ⟨_, mem_append_right _ mem_cons_self, rfl⟩
  | loopTop before after thread selected section_ => exact lively.loopTop owned selected section_
  | item before after thread selected runs offered acted =>
    exact lively.itemStep selected acted
  | shutdown error rethrowing =>
    have failed := owned.failing error (rethrowing ▸ rfl)
    exact ⟨fun _ => lively.quitting (owned.safe.failedQuits (failed ▸ rfl)), fun _ => nofun⟩
  | notify error notifying =>
    have failed := owned.failing error (notifying ▸ rfl)
    have quit := owned.safe.failedQuits (failed ▸ rfl)
    exact ⟨fun _ => notify_all_awake _, fun _ open_ => (nomatch quit.symm.trans open_)⟩

theorem lively_spurious (lively : Lively config) (wakes : Spurious config next) : Lively next := by
  cases wakes with
  | wake before after thread selected =>
    refine ⟨fun quit => ?_, fun _ _ => ⟨thread.wake, selected_mem, wake_awake thread⟩⟩
    have awake := lively.quitting quit
    rw [selected] at awake
    exact all_swap awake (wake_awake thread)

theorem lively_reached {caller : Caller Job} {state : State}
    (reached : Reached code maxThreads caller state config) : Lively config := by
  induction reached with
  | refl => exact ⟨nofun, nofun⟩
  | tail earlier moves lively =>
    obtain step | wakes := moves
    · exact lively_step (owned_reached earlier) lively step
    · exact lively_spurious lively wakes

def Phase.isOver : Phase Job Error → Bool
  | .abandoned => true
  | .returned => true
  | .threw _ => true
  | .aborted => true
  | _ => false

/-- If items are running, then one of them has an action to take. -/
def Unblocked (code : Code Job Local State Error) (config : Config Job Local State Error) : Prop :=
  (∃ thread ∈ config.threads, thread.ticket.isSome = true) →
    ∃ thread ∈ config.threads, ∃ ticket item, thread.place = .running ticket item ∧
      code.actions item config.shared.state ≠ []

theorem item_can_step {ticket : Nat} {item : Local}
    (member : thread ∈ config.threads) (runs : thread.place = .running ticket item)
    (offers : code.actions item config.shared.state ≠ []) :
    ∃ next, Step code maxThreads config next := by
  obtain ⟨before, after, selected⟩ := append_of_mem member
  obtain ⟨action, offered⟩ := exists_mem_of_ne_nil _ offers
  have acts : ∃ next, ItemStep maxThreads before after thread ticket config action next := by
    cases action with
    | finish => exact ⟨_, .finish⟩
    | throw error => exact ⟨_, .throw error⟩
    | abort => exact ⟨_, .abort⟩
    | enqueue job other refused =>
      cases quit : config.shared.quit with
      | false =>
        obtain ⟨woken, notified⟩ := exists_notified_one (spawn maxThreads
          (config.shared.push job) (before ++ thread.moveTo (.running ticket other) :: after))
        exact ⟨_, .enqueue job other refused quit notified⟩
      | true => exact ⟨_, .refuse job other refused quit⟩
    | checkInterrupt other interrupted => exact ⟨_, .checkInterrupt other interrupted⟩
    | proceed state other => exact ⟨_, .proceed state other⟩
  obtain ⟨next, acted⟩ := acts
  exact ⟨next, .item before after thread selected runs offered acted⟩

theorem thread_can_step (unblocked : Unblocked code config) (member : thread ∈ config.threads)
    (awake : thread.isWaiting = false) (goes : thread.isReturned = false) :
    ∃ next, Step code maxThreads config next := by
  obtain ⟨before, after, selected⟩ := append_of_mem member
  have loops : ∀ {result}, config.shared.loopTop code thread = some result →
      ∃ next, Step code maxThreads config next :=
    fun section_ => ⟨_, .loopTop before after thread selected section_⟩
  cases at_ : thread.place with
  | head didWork =>
    cases didWork with
    | false => exact loops (by rw [Shared.loopTop, at_])
    | true =>
      cases finishes : config.shared.finishItem thread.exc with
      | none =>
        have idle : config.shared.active = 0 := by
          unfold Shared.finishItem at finishes
          by_contra busy
          rw [if_neg busy] at finishes
          split at finishes <;> cases finishes
        exact ⟨_, .assertActive before after thread selected at_ idle⟩
      | some result =>
        have section_ : config.shared.loopTop code thread =
            some ((result.1.awaitItem code).1, (result.1.awaitItem code).2.1,
              result.2 || (result.1.awaitItem code).2.2) := by
          rw [Shared.loopTop, at_]
          rw [finishes]
          rfl
        exact loops section_
  | waiting =>
    rw [isWaiting, at_] at awake
    cases awake
  | woken => exact loops (by rw [Shared.loopTop, at_])
  | running ticket item =>
    have isSome : thread.ticket.isSome = true := by rw [Thread.ticket, at_]; rfl
    obtain ⟨other, inside, number, its, runs, offers⟩ := unblocked ⟨thread, member, isSome⟩
    exact item_can_step inside runs offers
  | returned =>
    rw [isReturned, at_] at goes
    cases goes

theorem pool_can_step (owned : Owned config) (lively : Lively config)
    (unblocked : Unblocked code config) (going : config.phase.isOver = false) :
    ∃ next, Step code maxThreads config next := by
  cases phase : config.phase with
  | calling caller =>
    cases caller with
    | process => exact ⟨_, .process phase⟩
    | abandon => exact ⟨_, .abandon phase⟩
    | enqueue job caller refused =>
      cases quit : config.shared.quit with
      | false =>
        obtain ⟨woken, notified⟩ := exists_notified_one
          (spawn maxThreads (config.shared.push job) config.threads)
        exact ⟨_, .submit job caller refused phase quit notified⟩
      | true => exact ⟨_, .refuse job caller refused phase quit⟩
  | processing =>
    obtain ⟨drains, main, member, isMain⟩ := owned.entered phase
    cases quit : config.shared.quit with
    | false =>
      obtain ⟨thread, inside, awake⟩ := lively.draining drains quit
      apply thread_can_step unblocked inside awake
      by_contra ended
      exact absurd (owned.safe.returnedQuits thread inside ((Bool.not_eq_false _).mp ended))
        (Bool.eq_false_iff.mp quit)
    | true =>
      cases ended : main.isReturned with
      | false => exact thread_can_step unblocked member (lively.quitting quit main member) ended
      | true =>
        cases failed : config.shared.exception with
        | none => exact ⟨_, .succeed main phase member isMain ended quit failed⟩
        | some error => exact ⟨_, .rethrow main error phase member isMain ended quit failed⟩
  | rethrowing error => exact ⟨_, .shutdown error phase⟩
  | notifying error => exact ⟨_, .notify error phase⟩
  | joining error =>
    have failed := owned.failing error (phase ▸ rfl)
    have quit := owned.safe.failedQuits (failed ▸ rfl)
    by_cases reaped : ∀ thread ∈ config.threads,
        thread.mainThread = false → thread.isReturned = true
    · exact ⟨_, .join error phase reaped⟩
    push Not at reaped
    obtain ⟨thread, member, _, goes⟩ := reaped
    exact thread_can_step unblocked member (lively.quitting quit thread member)
      (Bool.eq_false_iff.mpr goes)
  | abandoned | returned | threw | aborted =>
    rw [phase] at going
    cases going

end Waiting

/-- What the rest of a run may cost: for items in the queue, for items that are running and
for what they share. -/
structure Budget (Job Local State : Type) where
  job : Job → Nat
  item : Local → Nat
  state : State → Nat

namespace Budget

variable (budget : Budget Job Local State)

def caller : Caller Job → Nat
  | .process => 0
  | .abandon => 0
  | .enqueue job next refused => 1 + budget.job job + max (caller next) (caller refused)

def Allows (item : Local) (state : State) : Action Job Local State Error → Prop
  | .enqueue job next refused =>
    budget.job job + budget.item next < budget.item item ∧ budget.item refused < budget.item item
  | .checkInterrupt next interrupted =>
    budget.item next < budget.item item ∧ budget.item interrupted < budget.item item
  | .proceed after next => budget.state after + budget.item next < budget.state state + budget.item item
  | .abort => False
  | _ => True

def place : Place Local → Nat
  | .head _ => 3
  | .waiting => 1
  | .woken => 2
  | .running _ item => 4 + 9 * budget.item item
  | .returned => 0

def threads (threads : Threads Local Error) : Nat :=
  (threads.map fun thread => budget.place thread.place).sum

def pending (pending : List (Nat × Job)) : Nat :=
  (pending.map fun entry => 3 + 9 * budget.job entry.2).sum

/-- Setting `quit` wakes up each thread at most once. -/
def credit (quit : Bool) (threads : Threads Local Error) : Nat :=
  if quit then 0 else threads.length

def phase : Phase Job Error → Nat
  | .calling caller => 10 + 9 * budget.caller caller
  | .processing => 4
  | .rethrowing _ => 3
  | .notifying _ => 2
  | .joining _ => 1
  | _ => 0

def potential (config : Config Job Local State Error) : Nat :=
  9 * budget.state config.shared.state + budget.pending config.shared.pending +
    budget.threads config.threads + credit config.shared.quit config.threads +
    budget.phase config.phase

@[simp] theorem threads_append (left right : Threads Local Error) :
    budget.threads (left ++ right) = budget.threads left + budget.threads right := by
  simp [threads]

@[simp] theorem threads_cons (thread : Thread Local Error) (rest : Threads Local Error) :
    budget.threads (thread :: rest) = budget.place thread.place + budget.threads rest := by
  simp [threads]

@[simp] theorem threads_nil : budget.threads ([] : Threads Local Error) = 0 := rfl

@[simp] theorem pending_cons (entry : Nat × Job) (rest : List (Nat × Job)) :
    budget.pending (entry :: rest) = 3 + 9 * budget.job entry.2 + budget.pending rest := by
  simp [pending]

theorem pending_push (shared : Shared Job State Error) (job : Job) :
    budget.pending (shared.push job).pending =
      budget.pending shared.pending + (3 + 9 * budget.job job) := by
  simp [pending, Shared.push]

theorem place_wake (thread : Thread Local Error) :
    budget.place thread.wake.place ≤ budget.place thread.place + 1 := by
  unfold wake
  cases at_ : thread.place with
  | waiting => exact Nat.le_refl 2
  | _ =>
    rw [at_]
    exact Nat.le_succ _

theorem threads_notify_all (threads : Threads Local Error) :
    budget.threads (notifyAll threads) ≤ budget.threads threads + threads.length := by
  induction threads with
  | nil => exact Nat.le_refl 0
  | cons thread rest ih =>
    have first := budget.place_wake thread
    rw [notifyAll, map_cons, threads_cons, threads_cons, length_cons]
    rw [notifyAll] at ih
    omega

variable {threads woken : Threads Local Error}

theorem enqueue_le {shared : Shared Job State Error}
    (notified : NotifiedOne (spawn maxThreads shared threads) woken) :
    budget.threads woken + woken.length ≤ budget.threads threads + threads.length + 5 := by
  have fits : budget.threads (spawn maxThreads shared threads) +
      (spawn maxThreads shared threads).length ≤ budget.threads threads + threads.length + 4 := by
    unfold spawn
    split
    · simp only [threads_append, threads_cons, threads_nil, length_append, length_singleton, place]
      omega
    · omega
  generalize spawn maxThreads shared threads = spawned at notified fits
  cases notified with
  | none => omega
  | one before after thread =>
    have weight := budget.place_wake thread
    simp only [threads_append, threads_cons, length_append, length_cons] at fits ⊢
    omega

end Budget

variable {threads before after : Threads Local Error} {thread : Thread Local Error}
  {shared shared_ : Shared Job State Error} {place : Place Local} {all : Bool}

def NotifiedIffQuits (before after : Shared Job State Error) (all : Bool) : Prop :=
  if all then before.quit = false ∧ after.quit = true else after.quit = before.quit

theorem Awaits.notified (awaits : Awaits code shared shared_ place all) :
    NotifiedIffQuits shared shared_ all := by
  cases awaits with
  | quits | takes | waits => rfl
  | drains open_ => exact ⟨open_, rfl⟩

theorem Finishes.notified (safe : Safe shared threads) {exc : Option Error}
    (finishes : Finishes shared exc shared_ all) : NotifiedIffQuits shared shared_ all := by
  cases finishes with
  | fails busy unset =>
    refine ⟨Bool.eq_false_iff.mpr fun quit => ?_, rfl⟩
    obtain failed | ⟨_, idle, _⟩ := safe.quitWhy quit
    · rw [unset] at failed
      cases failed
    · exact busy idle
  | ends => rfl

theorem loop_top_notified (safe : Safe shared threads)
    (section_ : shared.loopTop code thread = some (shared_, place, all)) :
    NotifiedIffQuits shared shared_ all := by
  obtain ⟨between, first, second, _, finishes, awaits, rfl⟩ | ⟨_, awaits⟩ := loop_top_cases section_
  · have firstQuits := finishes.notified safe
    cases first with
    | true => exact ⟨firstQuits.1, awaits.advances.quit firstQuits.2⟩
    | false =>
      have same : between.quit = shared.quit := firstQuits
      have secondQuits := awaits.notified
      rw [NotifiedIffQuits, same] at secondQuits
      exact secondQuits
  · exact awaits.notified

section Bounded

variable {budget : Budget Job Local State}

def Budget.Starts (budget : Budget Job Local State) (code : Code Job Local State Error) : Prop :=
  ∀ job, budget.item (code.start job) ≤ budget.job job

/-- The budget covers what the items that are running can do next. -/
def Budget.Pays (budget : Budget Job Local State) (code : Code Job Local State Error)
    (config : Config Job Local State Error) : Prop :=
  ∀ thread ∈ config.threads, ∀ ticket item, thread.place = .running ticket item →
    ∀ action ∈ code.actions item config.shared.state, budget.Allows item config.shared.state action

open Budget

theorem Awaits.pays (starts : budget.Starts code) (awaits : Awaits code shared shared_ place all) :
    shared_.state = shared.state ∧
      budget.pending shared_.pending + budget.place place < budget.pending shared.pending + 2 := by
  cases awaits with
  | quits | drains => exact ⟨rfl, Nat.lt_add_of_pos_right Nat.zero_lt_two⟩
  | @takes ticket job rest open_ queue =>
    have enough := starts job
    rw [queue, pending_cons, Budget.place]
    refine ⟨rfl, ?_⟩
    dsimp only
    omega
  | waits => exact ⟨rfl, Nat.lt_succ_self _⟩

theorem loop_top_pays (starts : budget.Starts code)
    (section_ : shared.loopTop code thread = some (shared_, place, all)) :
    shared_.state = shared.state ∧ budget.pending shared_.pending + budget.place place <
      budget.pending shared.pending + budget.place thread.place := by
  obtain ⟨between, first, second, at_, finishes, awaits, _⟩ | ⟨at_, awaits⟩ :=
    loop_top_cases section_
  · obtain ⟨sameState, cost⟩ := awaits.pays starts
    rw [at_]
    generalize thread.exc = exc at finishes
    cases finishes with
    | fails | ends => exact ⟨sameState, Nat.lt_succ_of_lt cost⟩
  obtain ⟨sameState, cost⟩ := awaits.pays starts
  obtain at_ | at_ := at_
  · rw [at_]
    exact ⟨sameState, Nat.lt_succ_of_lt cost⟩
  · rw [at_]
    exact ⟨sameState, cost⟩

theorem credit_length (quit : Bool) {left right : Threads Local Error}
    (same : left.length = right.length) : credit quit left = credit quit right := by
  rw [credit, credit, same]

theorem loop_top_potential (starts : budget.Starts code) (owned : Owned config)
    (selected : config.threads = before ++ thread :: after)
    (section_ : config.shared.loopTop code thread = some (shared, place, all)) :
    budget.potential (⟨shared, if all then notifyAll (before ++ thread.moveTo place :: after)
      else before ++ thread.moveTo place :: after, config.phase⟩ : Config Job Local State Error) <
      budget.potential config := by
  obtain ⟨sameState, cost⟩ := loop_top_pays starts section_
  have quits := loop_top_notified owned.safe section_
  have moved : budget.threads (before ++ thread.moveTo place :: after) + budget.place thread.place =
      budget.threads config.threads + budget.place place := by
    rw [selected]
    simp only [threads_append, threads_cons, moveTo]
    omega
  have length : (before ++ thread.moveTo place :: after).length = config.threads.length := by
    rw [selected, length_append, length_append, length_cons, length_cons]
  unfold potential
  dsimp only
  rw [sameState]
  cases all with
  | true =>
    have woken := budget.threads_notify_all (before ++ thread.moveTo place :: after)
    rw [quits.1, quits.2]
    simp only [credit, if_true, Bool.false_eq_true, if_false]
    omega
  | false =>
    have same : shared.quit = config.shared.quit := quits
    rw [if_neg Bool.false_ne_true, same, credit_length _ length]
    omega

theorem item_step_potential {ticket : Nat} {item : Local} {action : Action Job Local State Error}
    (selected : config.threads = before ++ thread :: after)
    (runs : thread.place = .running ticket item)
    (allows : budget.Allows item config.shared.state action)
    (acted : ItemStep maxThreads before after thread ticket config action next) :
    budget.potential next < budget.potential config := by
  have moved : ∀ other : Thread Local Error, budget.threads (before ++ other :: after) +
      (4 + 9 * budget.item item) = budget.threads config.threads + budget.place other.place := by
    rw [selected]
    simp only [threads_append, threads_cons, runs, Budget.place]
    omega
  have length : ∀ other : Thread Local Error,
      (before ++ other :: after).length = config.threads.length := by
    intro other
    rw [selected, length_append, length_append, length_cons, length_cons]
  -- an action that leaves the queue and the other threads alone
  have stays : ∀ {shared : Shared Job State Error} {other : Thread Local Error},
      shared.pending = config.shared.pending → shared.quit = config.shared.quit →
      9 * budget.state shared.state + budget.place other.place <
        9 * budget.state config.shared.state + (4 + 9 * budget.item item) →
      budget.potential (⟨shared, before ++ other :: after, config.phase⟩ :
        Config Job Local State Error) < budget.potential config := by
    intro shared other samePending sameQuit cost
    have move := moved other
    unfold potential
    dsimp only
    rw [samePending, sameQuit, credit_length _ (length other)]
    omega
  have ends : 9 * budget.state config.shared.state + 3 <
      9 * budget.state config.shared.state + (4 + 9 * budget.item item) := by
    omega
  cases acted with
  | finish | throw => exact stays rfl rfl ends
  | abort => exact allows.elim
  | enqueue job other refused open_ notified =>
    have move := moved (thread.moveTo (.running ticket other))
    have added := budget.enqueue_le notified
    have pushed := budget.pending_push config.shared job
    have spends := allows.1
    rw [length] at added
    rw [moveTo, Budget.place] at move
    unfold potential
    rw [pushed]
    simp only [Shared.push, credit, open_, Bool.false_eq_true, if_false]
    rw [moveTo] at added
    omega
  | refuse job other refused =>
    have spends := allows.2
    refine stays rfl rfl ?_
    rw [moveTo, Budget.place]
    omega
  | checkInterrupt other interrupted =>
    obtain ⟨goesOn, stops⟩ := allows
    refine stays rfl rfl ?_
    rw [moveTo, Budget.place]
    split <;> omega
  | proceed state other =>
    have spends : budget.state state + budget.item other <
      budget.state config.shared.state + budget.item item := allows
    refine stays rfl rfl ?_
    rw [moveTo, Budget.place]
    dsimp only
    omega

/-- Every step other than waking up for no reason takes something from the potential. -/
theorem step_potential (starts : budget.Starts code) (owned : Owned config) (lively : Lively config)
    (pays : budget.Pays code config) (step : Step code maxThreads config next) :
    budget.potential next < budget.potential config := by
  cases step with
  | submit job caller refused calling open_ notified =>
    have added := budget.enqueue_le notified
    have pushed := budget.pending_push config.shared job
    unfold potential
    rw [pushed, calling]
    simp only [Shared.push, credit, open_, Bool.false_eq_true, if_false, phase,
      Budget.caller]
    omega
  | refuse job caller refused calling =>
    unfold potential
    rw [calling]
    simp only [phase, Budget.caller]
    omega
  | abandon calling =>
    unfold potential
    rw [calling]
    simp only [phase]
    omega
  | process calling =>
    unfold potential
    rw [calling]
    simp only [phase, credit, threads_append, threads_cons,
      threads_nil, Budget.place, length_append, length_singleton]
    split <;> omega
  | loopTop before after thread selected section_ =>
    exact loop_top_potential starts owned selected section_
  | assertActive before after thread selected worked idle =>
    exact absurd idle (owned.active_ne_zero selected worked)
  | item before after thread selected runs offered acted =>
    have member : thread ∈ config.threads := selected ▸ selected_mem
    exact item_step_potential selected runs (pays thread member _ _ runs _ offered) acted
  | assertQuit thread processing member isMain ended open_ =>
    exact absurd (owned.safe.returnedQuits thread member ended) (Bool.eq_false_iff.mp open_)
  | succeed thread processing | rethrow thread error processing =>
    unfold potential
    rw [processing]
    simp only [phase]
    omega
  | shutdown error rethrowing =>
    unfold potential credit
    rw [rethrowing]
    simp only [phase, if_true]
    omega
  | notify error notifying =>
    have failed := owned.failing error (notifying ▸ rfl)
    have quit := owned.safe.failedQuits (failed ▸ rfl)
    rw [potential, notify_all_eq (lively.quitting quit), potential, notifying]
    simp only [phase]
    omega
  | join error joining =>
    unfold potential
    rw [joining]
    simp only [phase]
    omega

theorem spurious_potential (budget : Budget Job Local State) (wakes : Spurious config next) :
    budget.potential next ≤ budget.potential config + 1 := by
  cases wakes with
  | wake before after thread selected =>
    have woken := budget.place_wake thread
    unfold potential
    rw [selected]
    simp only [threads_append, threads_cons, credit, length_append,
      length_cons]
    omega

end Bounded

/-- A run of so many steps and so many times that a thread woke up for no reason. -/
inductive Run (code : Code Job Local State Error) (maxThreads : Nat)
    (start : Config Job Local State Error) : Nat → Nat → Config Job Local State Error → Prop where
  | refl : Run code maxThreads start 0 0 start
  | step {steps wakes : Nat} {config next : Config Job Local State Error}
      (run : Run code maxThreads start steps wakes config)
      (moves : Step code maxThreads config next) : Run code maxThreads start (steps + 1) wakes next
  | wake {steps wakes : Nat} {config next : Config Job Local State Error}
      (run : Run code maxThreads start steps wakes config) (moves : Spurious config next) :
      Run code maxThreads start steps (wakes + 1) next

variable {caller : Caller Job} {state : State} {steps wakes : Nat}

theorem run_reached (run : Run code maxThreads (initial caller state) steps wakes config) :
    Reached code maxThreads caller state config := by
  induction run with
  | refl => exact .refl
  | step _ moves ih => exact ih.tail (.inl moves)
  | wake _ moves ih => exact ih.tail (.inr moves)

theorem reached_run (reached : Reached code maxThreads caller state config) :
    ∃ steps wakes, Run code maxThreads (initial caller state) steps wakes config := by
  induction reached with
  | refl => exact ⟨0, 0, .refl⟩
  | tail _ moves ih =>
    obtain ⟨steps, wakes, run⟩ := ih
    obtain step | wake := moves
    · exact ⟨steps + 1, wakes, run.step step⟩
    · exact ⟨steps, wakes + 1, run.wake wake⟩

/-- A pool that is not stuck and whose runs are bounded can always come to an end. -/
theorem can_end {bound : Nat} (bounded : ∀ steps wakes config,
      Run code maxThreads (initial caller state) steps wakes config → steps ≤ bound + wakes)
    (goesOn : ∀ config, Reached code maxThreads caller state config → config.phase.isOver = false →
      ∃ next, Step code maxThreads config next)
    (reached : Reached code maxThreads caller state config) :
    ∃ next, Relation.ReflTransGen (Moves code maxThreads) config next ∧
      next.phase.isOver = true := by
  obtain ⟨steps, wakes, run⟩ := reached_run reached
  by_contra never
  have longer : ∀ more, ∃ next, Relation.ReflTransGen (Moves code maxThreads) config next ∧
      Run code maxThreads (initial caller state) (steps + more) wakes next := by
    intro more
    induction more with
    | zero => exact ⟨config, .refl, run⟩
    | succ more ih =>
      obtain ⟨last, moves, longRun⟩ := ih
      cases ended : last.phase.isOver with
      | true => exact absurd ⟨last, moves, ended⟩ never
      | false =>
        obtain ⟨next, step⟩ := goesOn last (run_reached longRun) ended
        exact ⟨next, moves.tail (.inl step), longRun.step step⟩
  obtain ⟨next, _, longRun⟩ := longer (bound + wakes + 1)
  have short := bounded _ _ _ longRun
  omega

/-- Only waking up for no reason makes a run longer than its potential: each step pays one
from the budget, and a thread that was not notified gets back what it spends. -/
theorem run_bounded (budget : Budget Job Local State) (starts : budget.Starts code)
    (pays : ∀ config, Reached code maxThreads caller state config → budget.Pays code config)
    (run : Run code maxThreads (initial caller state) steps wakes config) :
    steps + budget.potential config ≤
      budget.potential (initial caller state : Config Job Local State Error) + wakes := by
  induction run with
  | refl => exact Nat.le_of_eq (Nat.zero_add _)
  | step earlier moves ih =>
    have reached := run_reached earlier
    have less := step_potential starts (owned_reached reached) (lively_reached reached)
      (pays _ reached) moves
    omega
  | wake _ moves ih =>
    have more := spurious_potential budget moves
    omega

/-- A work item with all that it may enqueue. `choose` stands for what depends on other
things than the pool. -/
inductive Item (Error : Type) where
  | finish
  | throw (error : Error)
  | enqueue (item next refused : Item Error)
  | checkInterrupt (next interrupted : Item Error)
  | choose (left right : Item Error)

namespace Item

def actions : Item Error → Unit → List (Action (Item Error) (Item Error) Unit Error)
  | finish, _ => [.finish]
  | throw error, _ => [.throw error]
  | enqueue item next refused, _ => [.enqueue item next refused]
  | checkInterrupt next interrupted, _ => [.checkInterrupt next interrupted]
  | choose left right, _ => [.proceed () left, .proceed () right]

def treeCode (Error : Type) : Code (Item Error) (Item Error) Unit Error where
  start := id
  actions := actions

def size : Item Error → Nat
  | finish => 0
  | throw _ => 0
  | enqueue item next refused => 1 + item.size + max next.size refused.size
  | checkInterrupt next interrupted => 1 + max next.size interrupted.size
  | choose left right => 1 + max left.size right.size

def budget (Error : Type) : Budget (Item Error) (Item Error) Unit where
  job := size
  item := size
  state _ := 0

theorem actions_allowed (item : Item Error) {action : Action (Item Error) (Item Error) Unit Error}
    (offered : action ∈ item.actions ()) : (budget Error).Allows item () action := by
  cases item with
  | finish | throw =>
    cases mem_singleton.mp offered
    exact trivial
  | enqueue | checkInterrupt =>
    cases mem_singleton.mp offered
    simp only [Budget.Allows, budget, size]
    omega
  | choose left right =>
    obtain rfl | rest := mem_cons.mp offered
    · simp only [Budget.Allows, budget, size]
      omega
    · cases mem_singleton.mp rest
      simp only [Budget.Allows, budget, size]
      omega

theorem actions_ne_nil (item : Item Error) : item.actions () ≠ [] := by
  cases item <;> exact cons_ne_nil _ _

theorem unblocked (config : Config (Item Error) (Item Error) Unit Error) :
    Unblocked (treeCode Error) config := by
  rintro ⟨thread, member, has⟩
  refine ⟨thread, member, ?_⟩
  unfold ticket at has
  split at has
  next ticket item runs => exact ⟨ticket, item, runs, actions_ne_nil item⟩
  · cases has

end Item

/-- In every interleaving, no item is executed twice. When `process` returns, every item
was executed and has finished. When some item has thrown, `process` throws what an item
has thrown. The pool is not stuck before that, and a run can only go on forever by waking up
threads for no reason. -/
theorem process_waits_for_all (maxThreads : Nat) (caller : Caller (Item Error)) :
    (∀ config, Reached (Item.treeCode Error) maxThreads caller () config → config.phase ≠ .aborted ∧
      (∀ ticket, config.shared.startedItems.count ticket ≤ 1) ∧
      (config.phase = .returned → config.shared.AllFinished ∧
        ∀ ticket error, .threw ticket error ∉ config.shared.history) ∧
      (∀ error, config.phase = .threw error → ∃ ticket, .threw ticket error ∈ config.shared.history) ∧
      (config.phase.isOver = false → ∃ next, Step (Item.treeCode Error) maxThreads config next)) ∧
    ∃ bound, ∀ steps wakes config,
      Run (Item.treeCode Error) maxThreads (initial caller ()) steps wakes config →
        steps ≤ bound + wakes := by
  refine ⟨fun config reached => ?_, (Item.budget Error).potential
    (initial caller () : Config (Item Error) (Item Error) Unit Error), fun steps wakes config run => ?_⟩
  · have owned := owned_reached reached
    refine ⟨?_, started_once owned, fun returned => ?_, fun error threw =>
      owned.safe.exceptionThrown error (owned.failing error (threw ▸ rfl)), ?_⟩
    · refine not_aborted_reached (fun config _ thread _ ticket item _ => ?_) reached
      exact fun offered => item.actions_allowed offered
    · obtain ⟨quit, fine⟩ := owned.succeeded returned
      exact ⟨all_finished_of_returned owned returned, nothing_thrown owned quit fine⟩
    · exact pool_can_step owned (lively_reached reached) (Item.unblocked config)
  · have bounded := run_bounded (Item.budget Error) (fun _ => Nat.le_refl _)
      (fun config _ thread _ ticket item _ action offered => item.actions_allowed offered) run
    omega

end Bsd.Util.ThreadPool
